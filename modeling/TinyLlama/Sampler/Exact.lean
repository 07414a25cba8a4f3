import Mathlib
import TinyLlama.Sampler.Sample
import TinyLlama.Sampler.Filters
import TinyLlama.Lib.Softmax

namespace TinyLlama.Sampler
open Heap

section Softmax
variable {K : Type} [Field K] [LinearOrder K]

theorem maxScaled_greatest (logits : Nat → K) {nVocab : Nat} (some' : 0 < nVocab) (invTemp : K) :
    maxScaled logits nVocab invTemp = greatest nVocab fun t => logits t*invTemp := by
  have rounds : ∀ n,n.fold (fun i _ maxL => let v := logits (i+1)*invTemp; if v > maxL then v else maxL) (logits 0*invTemp) =
      (Finset.range (n+1)).fold max (logits 0*invTemp) fun t => logits t*invTemp := by
    intro n
    induction n with
    | zero =>
      rw [Finset.range_one,Finset.fold_singleton,max_self]
      rfl
    | succ n ih =>
      rw [Nat.fold_succ,ih,Finset.range_add_one (n := n+1),Finset.fold_insert Finset.notMem_range_self]
      dsimp only
      rw [max_comm,max_def_lt]
  obtain ⟨n,rfl⟩ : ∃ n,nVocab = n+1 := ⟨nVocab-1,by omega⟩
  exact rounds n

omit [LinearOrder K] in
theorem numerators_spec (exp : K → K) (logits : Nat → K) (nVocab : Nat) (invTemp maxL : K) :
    (∀ i,(numerators exp logits nVocab invTemp maxL).1 i = if i < nVocab then exp (logits i*invTemp-maxL) else logits i) ∧
      (numerators exp logits nVocab invTemp maxL).2 = ∑ j ∈ Finset.range nVocab,exp (logits j*invTemp-maxL) := by
  unfold numerators
  induction nVocab with
  | zero => exact ⟨fun i => (if_neg (Nat.not_lt_zero i)).symm,rfl⟩
  | succ n ih =>
    obtain ⟨values,total⟩ := ih
    rw [Nat.fold_succ]
    dsimp only
    have unread := values n
    rw [if_neg (lt_irrefl n)] at unread
    rw [unread]
    refine ⟨fun i => ?_,by rw [total,Finset.sum_range_succ]⟩
    by_cases new : i = n
    · rw [new,Function.update_self,if_pos (Nat.lt_succ_self n)]
    · rw [Function.update_of_ne new,values i]
      have same : i < n+1 ↔ i < n := by omega
      simp only [same]

end Softmax

section Cuts
variable {K : Type}

-- The probabilities of the places from i on.
def seen (pi : Nat → ProbIdx K) (i rest : Nat) : List K := (List.range' i rest).map fun k => (pi k).prob

variable {pi : Nat → ProbIdx K}

theorem seen_cons (pi : Nat → ProbIdx K) (i rest : Nat) : seen pi i (rest+1) = (pi i).prob :: seen pi (i+1) rest := rfl

theorem seen_length (pi : Nat → ProbIdx K) (i rest : Nat) : (seen pi i rest).length = rest := by
  rw [seen,List.length_map,List.length_range']

theorem entries_seen (n : Nat) (pi : Nat → ProbIdx K) : (entries n pi).map ProbIdx.prob = seen pi 0 n := by
  rw [entries,seen,List.map_map,List.range_eq_range']
  rfl

theorem seen_take {a b : Nat} (low : a ≤ b) (pi : Nat → ProbIdx K) : (seen pi 0 b).take a = seen pi 0 a := by
  rw [seen,seen,← List.map_take,← List.range_eq_range',← List.range_eq_range',List.take_range,min_eq_left low]

-- A prefix of what was seen is what a shorter look sees.
theorem seen_prefix {n : Nat} {qs : List K} (front : qs <+: seen pi 0 n) : qs.length ≤ n ∧ qs = seen pi 0 qs.length := by
  have short := front.length_le
  rw [seen_length] at short
  exact ⟨short,by rw [← seen_take short]; exact List.prefix_iff_eq_take.mp front⟩

variable [LinearOrder K]

theorem minPFrom_seen (threshold : K) (rest : Nat) : ∀ i,
    minPFrom pi threshold rest i = i+((seen pi i rest).takeWhile fun q => decide (q ≥ threshold)).length := by
  induction rest with
  | zero => exact fun i => rfl
  | succ rest ih =>
    intro i
    rw [minPFrom,seen_cons,List.takeWhile_cons]
    by_cases high : (pi i).prob ≥ threshold
    · rw [if_pos high,if_pos (decide_eq_true high),ih,List.length_cons]
      omega
    · rw [if_neg high,decide_eq_false high,if_neg Bool.false_ne_true]
      rfl

variable [Field K] [IsStrictOrderedRing K]

theorem topPFrom_seen (topP : K) (rest : Nat) : ∀ i cum,
    (topPFrom pi topP rest i cum).getD (i+rest) = i+(nucleus (topP-cum) (seen pi i rest)).length := by
  induction rest with
  | zero => exact fun i cum => rfl
  | succ rest ih =>
    intro i cum
    rw [topPFrom,seen_cons,nucleus]
    have same : cum+(pi i).prob ≥ topP ↔ (pi i).prob ≥ topP-cum := sub_le_iff_le_add'.symm
    by_cases reached : cum+(pi i).prob ≥ topP
    · rw [if_pos reached,if_pos (same.mp reached)]
      rfl
    · rw [if_neg reached,if_neg fun high => reached (same.mpr high),List.length_cons,show i+(rest+1) = i+1+rest by omega,ih]
      rw [show topP-cum-(pi i).prob = topP-(cum+(pi i).prob) by ring]
      omega

-- Thresholds up to the tolerance do not filter.
def activeMinP (minP : K) : K := if minP > defaultEps then minP else 0

theorem minPCut_seen {p : SampleParam K} {n : Nat} (bound : p.minP ≤ 1) (some' : 0 < n) (positive : ∀ q ∈ seen pi 0 n,0 < q)
    (sorted : (seen pi 0 n).Pairwise (· ≥ ·)) : minPCut p pi n = (minPFilter (activeMinP p.minP) (seen pi 0 n)).length := by
  have nonempty : seen pi 0 n ≠ [] := List.ne_nil_of_length_pos (by rwa [seen_length])
  unfold minPCut activeMinP
  by_cases high : p.minP > defaultEps
  · have kept := List.length_pos_of_ne_nil (minPFilter_some bound positive nonempty)
    have best : (seen pi 0 n).headD 0 = (pi 0).prob := by
      obtain ⟨m,rfl⟩ : ∃ m,n = m+1 := ⟨n-1,by omega⟩
      rfl
    have cut : minPFrom pi (p.minP*(pi 0).prob) n 0 = (minPFilter p.minP (seen pi 0 n)).length := by
      rw [minPFrom_seen,minPFilter_initial p.minP sorted,best,Nat.zero_add]
    rw [if_pos ⟨high,some'⟩,if_pos high]
    dsimp only
    rw [cut,if_pos kept]
  · rw [if_neg fun both => high both.1,if_neg high,minPFilter_zero positive,seen_length]

theorem topPCut_seen {p : SampleParam K} {n : Nat} (bound : p.topP ≤ 1) (positive : ∀ q ∈ seen pi 0 n,0 < q)
    (total : (seen pi 0 n).sum ≤ 1) : topPCut p pi n = (nucleus p.topP (seen pi 0 n)).length := by
  unfold topPCut
  by_cases active : p.topP < 1
  · have cut := @topPFrom_seen _ pi _ _ _ p.topP n 0 0
    rw [Nat.zero_add,Nat.zero_add,sub_zero] at cut
    have short := (nucleus_initial p.topP (seen pi 0 n)).length_le
    rw [seen_length] at short
    rw [if_pos active]
    dsimp only
    rw [cut]
    split
    · rfl
    · omega
  · have whole : p.topP = 1 := le_antisymm bound (not_lt.mp active)
    rw [if_neg active,whole,nucleus_all 1 _ positive total,seen_length]

theorem cuts_seen {p : SampleParam K} {n : Nat} (boundM : p.minP ≤ 1) (boundP : p.topP ≤ 1) (some' : 0 < n)
    (positive : ∀ q ∈ seen pi 0 n,0 < q) (sorted : (seen pi 0 n).Pairwise (· ≥ ·)) (total : (seen pi 0 n).sum ≤ 1) :
    topPCut p pi (minPCut p pi n) = (nucleus p.topP (minPFilter (activeMinP p.minP) (seen pi 0 n))).length := by
  have front : minPFilter (activeMinP p.minP) (seen pi 0 n) <+: seen pi 0 n := by
    rw [minPFilter_initial _ sorted]
    exact List.takeWhile_prefix _
  have shorter : (minPFilter (activeMinP p.minP) (seen pi 0 n)).sum ≤ (seen pi 0 n).sum :=
    front.sublist.sum_le_sum fun q member => (positive q member).le
  rw [minPCut_seen boundM some' positive sorted]
  obtain ⟨low,same⟩ := seen_prefix front
  generalize minPFilter (activeMinP p.minP) (seen pi 0 n) = kept at front shorter low same
  rw [topPCut_seen boundP (fun q member => positive q (front.subset (same ▸ member))) (by rw [← same]; exact shorter.trans total),← same]

end Cuts

section Passes
variable {K : Type} [LinearOrder K]

-- The first k places hold the k most probable tokens of the n, in order.
structure Front (probs : Nat → K) (n k : Nat) (pi : Nat → ProbIdx K) : Prop where
  order : seen pi 0 k = (sortedDown ((List.range n).map probs)).take k
  tokens : ∀ c ∈ entries k pi,c.idx < n ∧ c.prob = probs c.idx
  distinct : ((entries k pi).map ProbIdx.idx).Nodup

theorem Front.shorter {probs : Nat → K} {n k j : Nat} {pi : Nat → ProbIdx K} (front : Front probs n k pi) (low : j ≤ k) :
    Front probs n j pi := by
  have part : (entries k pi).take j = entries j pi := by rw [entries,entries,← List.map_take,List.take_range,min_eq_left low]
  refine ⟨?_,fun c member => front.tokens c ?_,?_⟩
  · rw [← seen_take low,front.order,List.take_take,min_eq_left low]
  · exact List.mem_of_mem_take (part ▸ member)
  · rw [← part]
    exact front.distinct.sublist ((List.take_sublist j _).map _)

variable [Field K]

omit [LinearOrder K] in
theorem scaled_entries (invSum : K) (m : Nat) (pi : Nat → ProbIdx K) :
    entries m (m.fold (fun i _ pi => Function.update pi i ⟨(pi i).prob*invSum,(pi i).idx⟩) pi) =
      (entries m pi).map fun c => ⟨c.prob*invSum,c.idx⟩ := by
  have rounds : ∀ k,m.fold (fun i _ pi => Function.update pi i ⟨(pi i).prob*invSum,(pi i).idx⟩) pi k =
      if k < m then ⟨(pi k).prob*invSum,(pi k).idx⟩ else pi k := by
    induction m with
    | zero => exact fun k => (if_neg (Nat.not_lt_zero k)).symm
    | succ m ih =>
      intro k
      rw [Nat.fold_succ]
      by_cases new : k = m
      · rw [new,Function.update_self,if_pos (Nat.lt_succ_self m),ih m,if_neg (lt_irrefl m)]
      · rw [Function.update_of_ne new,ih k]
        have same : k < m+1 ↔ k < m := by omega
        simp only [same]
  rw [entries,entries,List.map_map]
  refine List.map_congr_left fun k member => ?_
  rw [rounds k,if_pos (List.mem_range.mp member)]
  rfl

variable [IsStrictOrderedRing K] {env : Env K} {p : SampleParam K} {nVocab cap : Nat} {vals : Nat → K} {invSum : K}

theorem selectPass_front (sorts : Sorts env.qsort) (room : 0 < cap) (positive : 0 < invSum) (pi : Nat → ProbIdx K) :
    (selectPass env p nVocab vals invSum cap pi).filled = min cap nVocab ∧
      Front (fun t => vals t*invSum) nVocab (min cap nVocab) (selectPass env p nVocab vals invSum cap pi).pi := by
  have top := selectTop_top pi room vals nVocab
  have front := selected_front sorts top (sortedDown_perm _) (sortedDown_sorted _)
  obtain ⟨rest,split,_⟩ := top.split
  have perm := (sortDesc_spec sorts (selectTop pi cap vals nVocab).heap (selectTop pi cap vals nVocab).filled).1
  have filled := top.filled
  unfold selectPass
  dsimp only
  generalize selectTop pi cap vals nVocab = s at front split perm filled
  rw [← filled] at front ⊢
  refine ⟨rfl,?_,fun c member => ?_,?_⟩
  · have scaled : (List.range nVocab).map (fun t => vals t*invSum) = ((List.range nVocab).map vals).map (·*invSum) := by
      rw [List.map_map]
      rfl
    rw [← entries_seen,scaled_entries,scaled,sortedDown_scale positive,← List.map_take,← front,List.map_map,List.map_map]
    rfl
  · rw [scaled_entries] at member
    obtain ⟨c',inside,rfl⟩ := List.mem_map.mp member
    have source := split.subset (List.mem_append_left rest (perm.subset inside))
    obtain ⟨t,below,rfl⟩ := List.mem_map.mp source
    exact ⟨List.mem_range.mp below,rfl⟩
  · rw [scaled_entries,List.map_map]
    have places : ((scanned vals nVocab).map ProbIdx.idx).Nodup := by
      have same : (scanned vals nVocab).map ProbIdx.idx = List.range nVocab := by
        rw [scanned,List.map_map]
        exact List.map_id _
      rw [same]
      exact List.nodup_range
    have whole := (split.map ProbIdx.idx).nodup_iff.mpr places
    rw [List.map_append] at whole
    exact (perm.map ProbIdx.idx).nodup_iff.mpr (List.nodup_append.mp whole).1

-- What the filters need of a distribution.
structure Distribution (probs : Nat → K) (n : Nat) : Prop where
  some' : 0 < n
  positive : ∀ t < n,0 < probs t
  total : ∑ t ∈ Finset.range n,probs t = 1

omit [IsStrictOrderedRing K] in
theorem Distribution.front_positive {probs : Nat → K} {n k : Nat} (dist : Distribution probs n) :
    ∀ q ∈ (sortedDown ((List.range n).map probs)).take k,0 < q := by
  intro q member
  obtain ⟨t,below,rfl⟩ := List.mem_map.mp ((sortedDown_perm _).subset (List.mem_of_mem_take member))
  exact dist.positive t (List.mem_range.mp below)

theorem Distribution.front_total {probs : Nat → K} {n k : Nat} (dist : Distribution probs n) :
    ((sortedDown ((List.range n).map probs)).take k).sum ≤ 1 := by
  have positive : ∀ q ∈ sortedDown ((List.range n).map probs),0 ≤ q := fun q member =>
    (dist.front_positive q (by rwa [List.take_length (l := sortedDown ((List.range n).map probs))])).le
  refine ((List.take_sublist k _).sum_le_sum positive).trans_eq ?_
  rw [(sortedDown_perm _).sum_eq,← dist.total]
  rfl

theorem selectPass_kept (sorts : Sorts env.qsort) (room : 0 < cap) (positive : 0 < invSum) (dist : Distribution (fun t => vals t*invSum) nVocab)
    (boundM : p.minP ≤ 1) (boundP : p.topP ≤ 1) (pi : Nat → ProbIdx K) :
    let c := selectPass env p nVocab vals invSum cap pi
    let front := (sortedDown ((List.range nVocab).map fun t => vals t*invSum)).take (min cap nVocab)
    seen c.pi 0 c.cutoff = nucleus p.topP (minPFilter (activeMinP p.minP) front) ∧ 0 < c.cutoff ∧ c.cutoff ≤ c.filled ∧
      Front (fun t => vals t*invSum) nVocab c.cutoff c.pi := by
  intro c front
  obtain ⟨filled,held⟩ := @selectPass_front _ _ _ _ env p nVocab cap vals invSum sorts room positive pi
  have cut : c.cutoff = topPCut p c.pi (minPCut p c.pi (min cap nVocab)) := by rw [← filled]; rfl
  have some' : 0 < min cap nVocab := lt_min room dist.some'
  have sorted : front.Pairwise (· ≥ ·) := (sortedDown_sorted _).sublist (List.take_sublist _ _)
  rw [cuts_seen boundM boundP some' (held.order ▸ dist.front_positive) (held.order ▸ sorted) (held.order ▸ dist.front_total),held.order] at cut
  have kept : nucleus p.topP (minPFilter (activeMinP p.minP) front) <+: seen c.pi 0 (min cap nVocab) := by
    rw [held.order]
    exact filters_prefix _ _ sorted
  obtain ⟨short,same⟩ := seen_prefix kept
  have nonempty : front ≠ [] := by
    rw [show front = seen c.pi 0 (min cap nVocab) from held.order.symm]
    exact List.ne_nil_of_length_pos (by rwa [seen_length])
  have least : activeMinP p.minP ≤ 1 := by
    unfold activeMinP
    split
    · exact boundM
    · exact zero_le_one
  refine ⟨?_,?_,?_,?_⟩
  · rw [cut]
    exact same.symm
  · rw [cut]
    exact List.length_pos_of_ne_nil (nucleus_some _ (minPFilter_some least dist.front_positive nonempty))
  · rw [cut]
    exact short.trans_eq filled.symm
  · rw [cut]
    exact held.shorter short

omit [IsStrictOrderedRing K] in
theorem front_resolved (goal minP : K) {W : List K} {k : Nat} (sorted : W.Pairwise (· ≥ ·)) (some' : W.take k ≠ [])
    (resolved : (nucleus goal (minPFilter minP (W.take k))).length < (W.take k).length) :
    nucleus goal (minPFilter minP W) = nucleus goal (minPFilter minP (W.take k)) := by
  have again := filters_append goal minP (W.take k) (W.drop k) some' (by rwa [List.take_append_drop]) resolved
  rwa [List.take_append_drop] at again

theorem selectLoop_kept (sorts : Sorts env.qsort) (allocates : ∀ size,env.alloc size = true) (positive : 0 < invSum)
    (dist : Distribution (fun t => vals t*invSum) nVocab) (boundM : p.minP ≤ 1) (boundP : p.topP ≤ 1) (growing : p.topK = 0) (fuel : Nat) :
    ∀ cap pi,0 < cap → cap ≤ nVocab → nVocab < fuel+cap →
      let c := selectLoop env p nVocab vals invSum fuel cap pi
      seen c.pi 0 c.cutoff = nucleus p.topP (minPFilter (activeMinP p.minP) (sortedDown ((List.range nVocab).map fun t => vals t*invSum))) ∧
        0 < c.cutoff ∧ Front (fun t => vals t*invSum) nVocab c.cutoff c.pi := by
  induction fuel with
  | zero =>
    intro cap pi _ fits enough
    omega
  | succ fuel ih =>
    intro cap pi room fits enough
    have held := (@selectPass_front _ _ _ _ env p nVocab cap vals invSum sorts room positive pi).1
    obtain ⟨kept,some',short,front⟩ := selectPass_kept sorts room positive dist boundM boundP pi
    rw [selectLoop]
    generalize selectPass env p nVocab vals invSum cap pi = c at held kept some' short front
    dsimp only at kept short front some' ⊢
    have size : (sortedDown ((List.range nVocab).map fun t => vals t*invSum)).length = nVocab := by
      rw [(sortedDown_perm _).length_eq,List.length_map,List.length_range]
    have sorted := sortedDown_sorted ((List.range nVocab).map fun t => vals t*invSum)
    generalize sortedDown ((List.range nVocab).map fun t => vals t*invSum) = W at size sorted kept ih ⊢
    rw [min_eq_left fits] at held kept
    rw [if_neg (by omega)]
    have count : (nucleus p.topP (minPFilter (activeMinP p.minP) (W.take cap))).length = c.cutoff := by rw [← kept,seen_length]
    by_cases resolved : c.cutoff < c.filled ∨ cap ≥ nVocab
    · rw [if_pos resolved]
      refine ⟨?_,some',front⟩
      rw [kept]
      cases resolved with
      | inl fewer =>
        have front' : (W.take cap).length = cap := by rw [List.length_take,size,min_eq_left fits]
        exact (front_resolved p.topP _ sorted (List.ne_nil_of_length_pos (by omega)) (by omega)).symm
      | inr whole => rw [List.take_of_length_le (by omega)]
    · rw [if_neg resolved,if_pos (allocates _)]
      have grown : 0 < (if cap > nVocab/4 then nVocab else cap*4) := by split <;> omega
      have within : (if cap > nVocab/4 then nVocab else cap*4) ≤ nVocab := by split <;> omega
      have nearer : nVocab < fuel+(if cap > nVocab/4 then nVocab else cap*4) := by split <;> omega
      exact ih _ _ grown within nearer

theorem retained_kept (sorts : Sorts env.qsort) (allocates : ∀ size,env.alloc size = true) {sum : K} (positive : 0 < sum)
    (dist : Distribution (fun t => vals t*(1/sum)) nVocab) (boundM : p.minP ≤ 1) (boundP : p.topP ≤ 1) :
    let kept := retained env p nVocab vals sum
    seen kept.1 0 kept.2 = reference p.topK p.topP (activeMinP p.minP) ((List.range nVocab).map fun t => vals t*(1/sum)) ∧
      0 < kept.2 ∧ Front (fun t => vals t*(1/sum)) nVocab kept.2 kept.1 := by
  have nonempty := dist.some'
  have room : 0 < startCap p.topK nVocab := by
    unfold startCap
    dsimp only
    split <;> split <;> omega
  have fits : startCap p.topK nVocab ≤ nVocab := by
    unfold startCap
    dsimp only
    split <;> split <;> omega
  have result : let c := selectLoop env p nVocab vals (1/sum) nVocab (startCap p.topK nVocab) fun _ => ⟨0,0⟩
      seen c.pi 0 c.cutoff = reference p.topK p.topP (activeMinP p.minP) ((List.range nVocab).map fun t => vals t*(1/sum)) ∧
        0 < c.cutoff ∧ Front (fun t => vals t*(1/sum)) nVocab c.cutoff c.pi := by
    unfold reference
    by_cases growing : p.topK = 0
    · rw [growing,topKFilter,if_pos rfl]
      rw [growing] at room fits
      exact selectLoop_kept sorts allocates (one_div_pos.mpr positive) dist boundM boundP growing nVocab _ _ room fits (by omega)
    · obtain ⟨n,rfl⟩ : ∃ n,nVocab = n+1 := ⟨nVocab-1,by omega⟩
      obtain ⟨kept,some',_,front⟩ := selectPass_kept sorts room (one_div_pos.mpr positive) dist boundM boundP fun _ => ⟨0,0⟩
      have single : selectLoop env p (n+1) vals (1/sum) (n+1) (startCap p.topK (n+1)) (fun _ => ⟨0,0⟩) =
          selectPass env p (n+1) vals (1/sum) (startCap p.topK (n+1)) fun _ => ⟨0,0⟩ := by
        rw [selectLoop]
        exact if_pos (Nat.pos_of_ne_zero growing)
      have capped : startCap p.topK (n+1) = min p.topK (n+1) := by
        unfold startCap
        dsimp only
        rw [if_pos (Nat.pos_of_ne_zero growing)]
        split <;> omega
      have size : (sortedDown ((List.range (n+1)).map fun t => vals t*(1/sum))).length = n+1 := by
        rw [(sortedDown_perm _).length_eq,List.length_map,List.length_range]
      have bounded : ∀ W : List K,W.length = n+1 → W.take (min p.topK (n+1)) = W.take p.topK := fun W size => by
        rw [← size,← List.take_eq_take_min]
      rw [single,topKFilter,if_neg growing]
      refine ⟨?_,some',front⟩
      rw [kept,capped,min_assoc,min_self,bounded _ size]
  unfold retained
  dsimp only
  rw [if_neg (by omega)]
  exact result

end Passes

section Drawing
variable {K : Type} [Field K] [LinearOrder K] [IsStrictOrderedRing K] {pi : Nat → ProbIdx K}

omit [LinearOrder K] [IsStrictOrderedRing K] in
theorem seen_sum_succ (pi : Nat → ProbIdx K) (i : Nat) : (seen pi 0 (i+1)).sum = (seen pi 0 i).sum+(pi i).prob := by
  rw [← entries_seen,← entries_seen,entries_succ,List.map_append,List.sum_append,List.map_singleton,List.sum_singleton]

omit [IsStrictOrderedRing K] in
theorem cdfFrom_interval {rnInv r : K} (rest : Nat) : ∀ i cdf,cdf = (seen pi 0 i).sum*rnInv → cdf ≤ r → r < (seen pi 0 (i+rest)).sum*rnInv →
    ∃ j < i+rest,cdfFrom pi rnInv r rest i cdf = some j ∧ (seen pi 0 j).sum*rnInv ≤ r ∧ r < (seen pi 0 (j+1)).sum*rnInv := by
  induction rest with
  | zero =>
    intro i cdf start low high
    rw [Nat.add_zero,← start] at high
    exact absurd high low.not_gt
  | succ rest ih =>
    intro i cdf start low high
    have next' : cdf+(pi i).prob*rnInv = (seen pi 0 (i+1)).sum*rnInv := by rw [seen_sum_succ,start,add_mul]
    rw [cdfFrom,next']
    by_cases inside : r < (seen pi 0 (i+1)).sum*rnInv
    · rw [if_pos inside]
      exact ⟨i,by omega,rfl,start ▸ low,inside⟩
    · rw [if_neg inside]
      rw [show i+(rest+1) = i+1+rest by omega] at high ⊢
      exact ih (i+1) _ rfl (not_lt.mp inside) high

theorem draw_interval {cutoff : Nat} {r : K} (some' : 0 < cutoff) (positive : ∀ q ∈ seen pi 0 cutoff,0 < q) (low : 0 ≤ r) (high : r < 1) :
    ∃ j < cutoff,draw pi cutoff r = (pi j).idx ∧ (seen pi 0 j).sum/(seen pi 0 cutoff).sum ≤ r ∧
      r < (seen pi 0 (j+1)).sum/(seen pi 0 cutoff).sum := by
  have renorm : ∀ n,n.fold (fun i _ renorm => renorm+(pi i).prob) 0 = (seen pi 0 n).sum := by
    intro n
    induction n with
    | zero => rfl
    | succ n ih => rw [Nat.fold_succ,ih,seen_sum_succ]
  have total : 0 < (seen pi 0 cutoff).sum :=
    List.sum_pos _ positive (List.ne_nil_of_length_pos (by rwa [seen_length]))
  have whole : (seen pi 0 cutoff).sum*(1/(seen pi 0 cutoff).sum) = 1 := mul_one_div_cancel total.ne'
  obtain ⟨j,below,found,atLeast,less⟩ := @cdfFrom_interval K _ _ pi (1/(seen pi 0 cutoff).sum) r cutoff 0 0 (by simp [seen]) low
    (by rwa [Nat.zero_add,whole])
  rw [Nat.zero_add] at below
  rw [mul_one_div] at atLeast less
  refine ⟨j,below,?_,atLeast,less⟩
  unfold draw
  dsimp only
  rw [renorm,if_pos total,found]
  rfl

omit [Field K] [LinearOrder K] [IsStrictOrderedRing K] in
theorem entries_split {j n : Nat} (below : j < n) (pi : Nat → ProbIdx K) :
    entries n pi = entries j pi++pi j :: (List.range' (j+1) (n-(j+1))).map pi := by
  obtain ⟨d,rfl⟩ : ∃ d,n = j+(d+1) := ⟨n-(j+1),by omega⟩
  rw [entries,entries,List.range_add,List.map_append,show j+(d+1)-(j+1) = d by omega,List.range_succ_eq_map,List.range'_eq_map_range]
  simp only [List.map_cons,List.map_map,Function.comp_def,Nat.add_zero]
  congr 2
  exact List.map_congr_left fun k _ => congrArg pi (by omega)

-- The same, as a place in the list of the candidates.
theorem draw_split {cutoff : Nat} {r : K} (some' : 0 < cutoff) (positive : ∀ c ∈ entries cutoff pi,0 < c.prob) (low : 0 ≤ r) (high : r < 1) :
    ∃ before c after,entries cutoff pi = before++c :: after ∧ c.idx = draw pi cutoff r ∧
      (before.map ProbIdx.prob).sum/((entries cutoff pi).map ProbIdx.prob).sum ≤ r ∧
      r < ((before.map ProbIdx.prob).sum+c.prob)/((entries cutoff pi).map ProbIdx.prob).sum := by
  have above : ∀ q ∈ seen pi 0 cutoff,0 < q := by
    intro q member
    rw [← entries_seen] at member
    obtain ⟨c,inside,rfl⟩ := List.mem_map.mp member
    exact positive c inside
  obtain ⟨j,below,token,atLeast,less⟩ := draw_interval some' above low high
  refine ⟨_,_,_,entries_split below pi,token.symm,?_,?_⟩
  · rw [entries_seen,entries_seen]
    exact atLeast
  · rw [entries_seen,entries_seen,← seen_sum_succ]
    exact less

end Drawing

section Exact
variable {K : Type} [Field K] [LinearOrder K]

-- The candidates are what the filters leave of the sorted softmax, and r lies in the
-- interval of the token among them.
structure Exact (exp : K → K) (temperature : K) (topK : Nat) (topP minP : K) (nVocab : Nat) (scores : Nat → K) (r : K)
    (cands : List (ProbIdx K)) (token : Nat) : Prop where
  probs : cands.map ProbIdx.prob = reference topK topP minP ((List.range nVocab).map (softmax exp temperature nVocab scores))
  tokens : ∀ c ∈ cands,c.idx < nVocab ∧ c.prob = softmax exp temperature nVocab scores c.idx
  distinct : (cands.map ProbIdx.idx).Nodup
  drawn : ∃ before c after,cands = before++c :: after ∧ c.idx = token ∧
    (before.map ProbIdx.prob).sum/(cands.map ProbIdx.prob).sum ≤ r ∧
    r < ((before.map ProbIdx.prob).sum+c.prob)/(cands.map ProbIdx.prob).sum

def held (env : Env K) (p : SampleParam K) (nVocab : Nat) (scores : Nat → K) : (Nat → ProbIdx K) × Nat :=
  let invTemp := 1/p.temperature
  let s := numerators env.exp scores nVocab invTemp (maxScaled scores nVocab invTemp)
  retained env p nVocab s.1 s.2

def candidates (env : Env K) (p : SampleParam K) (nVocab : Nat) (scores : Nat → K) : List (ProbIdx K) :=
  entries (held env p nVocab scores).2 (held env p nVocab scores).1

variable [IsStrictOrderedRing K] {env : Env K} {p : SampleParam K} {nVocab : Nat} {scores : Nat → K}

theorem numerators_softmax (positive : ∀ x,0 < env.exp x) (some' : 0 < nVocab) :
    let s := numerators env.exp scores nVocab (1/p.temperature) (maxScaled scores nVocab (1/p.temperature))
    0 < s.2 ∧ (∀ t < nVocab,s.1 t*(1/s.2) = softmax env.exp p.temperature nVocab scores t) ∧
      Distribution (fun t => s.1 t*(1/s.2)) nVocab := by
  rw [maxScaled_greatest scores some']
  intro s
  obtain ⟨values,total⟩ := numerators_spec env.exp scores nVocab (1/p.temperature) (greatest nVocab fun t => scores t*(1/p.temperature))
  have sum : 0 < s.2 := by
    rw [show s.2 = _ from total]
    exact Finset.sum_pos (fun j _ => positive _) ⟨0,Finset.mem_range.mpr some'⟩
  have value : ∀ t < nVocab,s.1 t = env.exp (scores t*(1/p.temperature)-greatest nVocab fun t => scores t*(1/p.temperature)) :=
    fun t below => (values t).trans (if_pos below)
  refine ⟨sum,fun t below => ?_,some',fun t below => ?_,?_⟩
  · rw [value t below,mul_one_div,show s.2 = _ from total]
    rfl
  · rw [value t below]
    exact mul_pos (positive _) (one_div_pos.mpr sum)
  · rw [← Finset.sum_mul,mul_one_div,Finset.sum_congr rfl fun t member => value t (Finset.mem_range.mp member),← show s.2 = _ from total]
    exact div_self sum.ne'

theorem candidates_kept (positive : ∀ x,0 < env.exp x) (sorts : Sorts env.qsort) (allocates : ∀ size,env.alloc size = true) (some' : 0 < nVocab)
    (boundP : p.topP ≤ 1) (boundM : p.minP ≤ 1) :
    (candidates env p nVocab scores).map ProbIdx.prob =
        reference p.topK p.topP (activeMinP p.minP) ((List.range nVocab).map (softmax env.exp p.temperature nVocab scores)) ∧
      (∀ c ∈ candidates env p nVocab scores,c.idx < nVocab ∧ c.prob = softmax env.exp p.temperature nVocab scores c.idx) ∧
      ((candidates env p nVocab scores).map ProbIdx.idx).Nodup ∧ 0 < (held env p nVocab scores).2 := by
  obtain ⟨sum,same,dist⟩ := @numerators_softmax _ _ _ _ env p nVocab scores positive some'
  obtain ⟨kept,some'',front⟩ := retained_kept sorts allocates sum dist boundM boundP
  have values : (List.range nVocab).map (softmax env.exp p.temperature nVocab scores) = (List.range nVocab).map fun t =>
      (numerators env.exp scores nVocab (1/p.temperature) (maxScaled scores nVocab (1/p.temperature))).1 t*
        (1/(numerators env.exp scores nVocab (1/p.temperature) (maxScaled scores nVocab (1/p.temperature))).2) :=
    List.map_congr_left fun t member => (same t (List.mem_range.mp member)).symm
  refine ⟨?_,fun c member => ?_,front.distinct,some''⟩
  · rw [values,← kept]
    exact entries_seen _ _
  · obtain ⟨below,value⟩ := front.tokens c member
    exact ⟨below,value.trans (same c.idx below)⟩

theorem softmax_pos {exp : K → K} (positive : ∀ x,0 < exp x) (temperature : K) {t : Nat} (below : t < nVocab) (scores : Nat → K) :
    0 < softmax exp temperature nVocab scores t :=
  div_pos (positive _) (Finset.sum_pos (fun _ _ => positive _) ⟨t,Finset.mem_range.mpr below⟩)

omit [IsStrictOrderedRing K] in
theorem softmax_unshifted {exp : K → K} (laws : Softmax.Exponential exp) (temperature : K) (t : Nat) :
    softmax exp temperature nVocab scores t = exp (scores t*(1/temperature))/∑ j ∈ Finset.range nVocab,exp (scores j*(1/temperature)) := by
  unfold softmax
  dsimp only
  generalize greatest nVocab (fun t => scores t*(1/temperature)) = shift
  have split : ∀ x,exp (x-shift) = exp x*exp (-shift) := fun x => by rw [sub_eq_add_neg,laws.add]
  simp only [split]
  rw [← Finset.sum_mul,mul_div_mul_right _ _ (laws.pos (-shift)).ne']

theorem sampleToken_exact {history : Option (Nat → Nat)} {nHistory : Nat} {r : K} {logits : Nat → K} (positive : ∀ x,0 < env.exp x)
    (sorts : Sorts env.qsort) (allocates : ∀ size,env.alloc size = true) (some' : 0 < nVocab) (warm : defaultEps < p.temperature)
    (boundP : p.topP ≤ 1) (boundM : p.minP ≤ 1) (active : p.topK ≠ 0 ∨ p.topP < 1 ∨ defaultEps < p.minP) (low : 0 ≤ r) (high : r < 1) :
    let scores := penaltyStage p nVocab history nHistory logits
    Exact env.exp p.temperature p.topK p.topP (activeMinP p.minP) nVocab scores r (candidates env p nVocab scores)
      (sampleToken env p nVocab history nHistory r logits) := by
  intro scores
  obtain ⟨probs,tokens,distinct,some''⟩ := @candidates_kept _ _ _ _ env p nVocab scores positive sorts allocates some' boundP boundM
  have filters : ¬(p.topK = 0 ∧ p.topP ≥ 1 ∧ p.minP ≤ defaultEps) := by
    rintro ⟨noTopK,noTopP,noMinP⟩
    rcases active with topK | topP | minP
    · exact topK noTopK
    · exact absurd noTopP topP.not_ge
    · exact absurd noMinP minP.not_ge
  have drawn : sampleToken env p nVocab history nHistory r logits = draw (held env p nVocab scores).1 (held env p nVocab scores).2 r := by
    unfold sampleToken
    dsimp only
    rw [if_neg warm.not_ge,if_neg filters,if_pos (allocates _)]
    rfl
  have above : ∀ c ∈ candidates env p nVocab scores,0 < c.prob := by
    intro c member
    obtain ⟨below,value⟩ := tokens c member
    rw [value]
    exact softmax_pos positive _ below _
  rw [drawn]
  exact ⟨probs,tokens,distinct,draw_split some'' above low high⟩

end Exact

section Inputs

noncomputable def realEnv : Env ℝ := ⟨Real.exp,fun l => l.mergeSort fun a b => decide (a.prob ≥ b.prob),fun _ => true⟩

theorem realEnv_sorts : Sorts realEnv.qsort := fun l => by
  refine ⟨List.mergeSort_perm l _,?_⟩
  have ordered := @List.pairwise_mergeSort _ (fun a b : ProbIdx ℝ => decide (a.prob ≥ b.prob))
    (fun a b c one two => decide_eq_true (le_trans (of_decide_eq_true two) (of_decide_eq_true one)))
    (fun a b => by rw [Bool.or_eq_true,decide_eq_true_iff,decide_eq_true_iff]; exact le_total _ _) l
  exact ordered.imp fun above => of_decide_eq_true above

noncomputable def nucleusParam : SampleParam ℝ := ⟨1,0,9/10,1/20,1,0,0,0⟩

theorem threeLogits_exact :
    let scores := penaltyStage nucleusParam 3 none 0 fun t => (t : ℝ)
    Exact Real.exp nucleusParam.temperature nucleusParam.topK nucleusParam.topP (activeMinP nucleusParam.minP) 3 scores (1/2)
      (candidates realEnv nucleusParam 3 scores) (sampleToken realEnv nucleusParam 3 none 0 (1/2) fun t => (t : ℝ)) :=
  @sampleToken_exact ℝ _ _ _ realEnv nucleusParam 3 none 0 (1/2) (fun t => (t : ℝ)) Real.exp_pos realEnv_sorts (fun _ => rfl) (by decide)
    (by norm_num [defaultEps,nucleusParam]) (by norm_num [nucleusParam]) (by norm_num [nucleusParam])
    (Or.inr (Or.inl (by norm_num [nucleusParam]))) (by norm_num) (by norm_num)

def twoLogits (x : ℝ) (t : Nat) : ℝ := if t = 0 then 0 else x

theorem twoLogits_softmax {temperature x : ℝ} (warm : 0 < temperature) (apart : 0 < x) :
    softmax Real.exp temperature 2 (twoLogits x) 0 = Real.exp (-(x/temperature))/(Real.exp (-(x/temperature))+1) ∧
      softmax Real.exp temperature 2 (twoLogits x) 1 = 1/(Real.exp (-(x/temperature))+1) := by
  have top : greatest 2 (fun t => twoLogits x t*(1/temperature)) = x/temperature := by
    have above : 0 < x/temperature := div_pos apart warm
    simp [greatest,twoLogits,Finset.range_add_one,div_eq_mul_inv] at above ⊢
    exact above.le
  unfold softmax
  dsimp only
  rw [top,Finset.sum_range_succ,Finset.sum_range_one]
  have low : twoLogits x 0*(1/temperature)-x/temperature = -(x/temperature) := by
    rw [twoLogits,if_pos rfl,zero_mul,zero_sub]
  have high : twoLogits x 1*(1/temperature)-x/temperature = 0 := by
    rw [twoLogits,if_neg one_ne_zero,mul_one_div,sub_self]
  rw [low,high,Real.exp_zero]
  exact ⟨rfl,rfl⟩

theorem sortedDown_two {a b : ℝ} (below : a ≤ b) : sortedDown [a,b] = [b,a] :=
  ((sortedDown_perm _).trans (List.Perm.swap b a [])).eq_of_pairwise' (sortedDown_sorted _) (List.pairwise_pair.mpr below)

theorem penaltyStage_none {K : Type} [Field K] [LinearOrder K] (p : SampleParam K) (nVocab nHistory : Nat) (logits : Nat → K) :
    penaltyStage p nVocab none nHistory logits = logits := by
  unfold penaltyStage
  split <;> rfl

theorem reference_two {a b : ℝ} (positive : 0 < a) (below : a ≤ b) (total : a+b ≤ 1) : reference 2 1 0 [a,b] = [b,a] := by
  have above : ∀ q ∈ [b,a],0 < q := by
    intro q member
    rcases List.mem_pair.mp member with rfl | rfl
    · exact positive.trans_le below
    · exact positive
  rw [reference,sortedDown_two below,topKFilter,if_neg (by decide),List.take_of_length_le (Nat.le_refl 2),minPFilter_zero above]
  refine nucleus_all 1 _ above ?_
  rw [List.sum_pair]
  linarith

theorem reference_faint {a b minP : ℝ} (positive : 0 < b) (bound : minP ≤ 1) (below : a ≤ b) (faint : a < minP*b) :
    reference 2 1 minP [a,b] = [b] := by
  have best : decide (b ≥ minP*b) = true := decide_eq_true (mul_le_of_le_one_left positive.le bound)
  rw [reference,sortedDown_two below,topKFilter,if_neg (by decide),List.take_of_length_le (Nat.le_refl 2),minPFilter,List.headD_cons,
    List.filter_cons,if_pos best,List.filter_cons,decide_eq_false faint.not_ge,if_neg Bool.false_ne_true,List.filter_nil,nucleus]
  split <;> rfl

theorem twoLogits_order {temperature x : ℝ} (warm : 0 < temperature) (apart : 0 < x) :
    0 < softmax Real.exp temperature 2 (twoLogits x) 0 ∧
      softmax Real.exp temperature 2 (twoLogits x) 0 < softmax Real.exp temperature 2 (twoLogits x) 1 ∧
      softmax Real.exp temperature 2 (twoLogits x) 0+softmax Real.exp temperature 2 (twoLogits x) 1 = 1 := by
  obtain ⟨low,high⟩ := twoLogits_softmax warm apart
  have small : Real.exp (-(x/temperature)) < 1 := Real.exp_lt_one_iff.mpr (neg_neg_of_pos (div_pos apart warm))
  have some' := Real.exp_pos (-(x/temperature))
  rw [low,high]
  refine ⟨div_pos some' (by linarith),div_lt_div_of_pos_right small (by linarith),?_⟩
  rw [← add_div]
  exact div_self (by linarith)

noncomputable def coldParam : SampleParam ℝ := ⟨1/2000000,2,1,0,1,0,0,0⟩

noncomputable def faintParam : SampleParam ℝ := ⟨1,2,1,1/2000000,1,0,0,0⟩

-- Below the tolerance a temperature draws nothing, and a min_p drops nothing.
theorem guards_differ :
    (∀ cands,¬Exact Real.exp coldParam.temperature coldParam.topK coldParam.topP coldParam.minP 2
      (penaltyStage coldParam 2 none 0 (twoLogits (1/10000000))) (9/10) cands
      (sampleToken realEnv coldParam 2 none 0 (9/10) (twoLogits (1/10000000)))) ∧
    (candidates realEnv faintParam 2 (penaltyStage faintParam 2 none 0 (twoLogits 21))).map ProbIdx.prob ≠
      reference faintParam.topK faintParam.topP faintParam.minP
        ((List.range 2).map (softmax Real.exp faintParam.temperature 2 (penaltyStage faintParam 2 none 0 (twoLogits 21)))) := by
  rw [penaltyStage_none,penaltyStage_none]
  constructor
  · intro cands exact'
    have warm : (0 : ℝ) < 1/2000000 := by norm_num
    have apart : (0 : ℝ) < 1/10000000 := by norm_num
    obtain ⟨positive,below,total⟩ := twoLogits_order warm apart
    have greedy : sampleToken realEnv coldParam 2 none 0 (9/10) (twoLogits (1/10000000)) = 1 := by
      unfold sampleToken
      dsimp only
      rw [if_pos (by norm_num [coldParam,defaultEps]),penaltyStage_none]
      simp [sampleGreedy,twoLogits]
    have likely : softmax Real.exp (1/2000000) 2 (twoLogits (1/10000000)) 1 ≤ 9/10 := by
      rw [(twoLogits_softmax warm apart).2,show (1 : ℝ)/10000000/(1/2000000) = 1/5 by norm_num,
        div_le_iff₀ (add_pos (Real.exp_pos _) one_pos)]
      have least := Real.add_one_le_exp (-(1/5))
      linarith
    obtain ⟨probs,tokens,-,before,c,after,split,token,atLeast,less⟩ := exact'
    rw [show coldParam.temperature = 1/2000000 from rfl] at probs tokens
    rw [show (List.range 2).map _ = [softmax Real.exp (1/2000000) 2 (twoLogits (1/10000000)) 0,
      softmax Real.exp (1/2000000) 2 (twoLogits (1/10000000)) 1] from rfl,
      show reference coldParam.topK coldParam.topP coldParam.minP _ = _ from reference_two positive below.le total.le] at probs
    have value := (tokens c (by rw [split]; simp)).2
    rw [token,greedy] at value
    rw [probs,List.sum_pair,value] at less
    rw [split,List.map_append,List.map_cons,value] at probs
    -- Token 1 is the first of the two, and its interval ends before r.
    cases before with
    | nil =>
      rw [List.map_nil,List.sum_nil,zero_add,add_comm (softmax _ _ _ _ 1),total,div_one] at less
      linarith
    | cons c' before =>
      rw [List.map_cons,List.cons_append] at probs
      obtain ⟨_,rest⟩ := List.cons.inj probs
      have inside := List.mem_append_right (before.map ProbIdx.prob)
        (List.mem_cons_self (a := softmax Real.exp (1/2000000) 2 (twoLogits (1/10000000)) 1) (l := after.map ProbIdx.prob))
      rw [rest,List.mem_singleton] at inside
      exact below.ne inside.symm
  · have apart : (0 : ℝ) < 21 := by norm_num
    obtain ⟨positive,below,total⟩ := twoLogits_order one_pos apart
    have kept := (@candidates_kept ℝ _ _ _ realEnv faintParam 2 (twoLogits 21) Real.exp_pos realEnv_sorts (fun _ => rfl) (by decide)
      (by norm_num [faintParam]) (by norm_num [faintParam])).1
    have none' : activeMinP faintParam.minP = 0 := if_neg (by norm_num [faintParam,defaultEps])
    have both := kept.trans ((congrArg (reference 2 1 · _) none').trans (reference_two positive below.le total.le))
    have faint : softmax Real.exp 1 2 (twoLogits 21) 0 < 1/2000000*softmax Real.exp 1 2 (twoLogits 21) 1 := by
      have large : (2000000 : ℝ) < Real.exp 21 := by
        have power : Real.exp 1^21 = Real.exp 21 := by rw [Real.exp_one_pow]; norm_num
        rw [← power]
        calc (2000000 : ℝ) < 2^21 := by norm_num
          _ ≤ Real.exp 1^21 := pow_le_pow_left₀ (by norm_num) ((by norm_num : (2 : ℝ) = 1+1).trans_le (Real.add_one_le_exp 1)) 21
      have small : Real.exp (-(21/1)) < 1/2000000 := by
        rw [div_one,Real.exp_neg,← one_div]
        exact one_div_lt_one_div_of_lt (by norm_num) large
      obtain ⟨low,high⟩ := twoLogits_softmax one_pos apart
      rw [low,high,mul_one_div]
      exact div_lt_div_of_pos_right small (add_pos (Real.exp_pos _) one_pos)
    have one := reference_faint (positive.trans below) (by norm_num) below.le faint
    intro same
    have count := congrArg List.length (both.symm.trans (same.trans one))
    exact absurd count (by decide)

end Inputs

end TinyLlama.Sampler
