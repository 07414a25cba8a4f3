import TinyLlama.Lib.Heap
import TinyLlama.Machine

-- sampler.c: select_top and sort_desc. A vocabulary has at most INT32_MAX entries, so the heap's u32 places do not wrap.
namespace TinyLlama.Sampler
open Heap

structure ProbIdx (K : Type) where
  prob : K
  idx : Nat
deriving Repr,DecidableEq

section Operations
variable {K : Type} [LinearOrder K]

structure Selection (K : Type) where
  heap : Nat → ProbIdx K
  filled : Nat

def selectRound (cap : Nat) (vals : Nat → K) (i : Nat) (s : Selection K) : Selection K :=
  let v := vals i
  if s.filled < cap then
    ⟨siftUp ProbIdx.prob s.filled s.filled (Function.update s.heap s.filled ⟨v,i⟩),s.filled+1⟩
  else if v > (s.heap 0).prob then
    ⟨siftDown ProbIdx.prob cap cap 0 (Function.update s.heap 0 ⟨v,i⟩),s.filled⟩
  else s

def selectTop (heap : Nat → ProbIdx K) (cap : Nat) (vals : Nat → K) (n : Nat) : Selection K :=
  n.fold (fun i _ s => selectRound cap vals i s) ⟨heap,0⟩

-- while (j > 0 && a[j-1].prob < v.prob) { a[j] = a[j-1]; j--; } a[j] = v;
def insertDesc : Nat → (Nat → ProbIdx K) → ProbIdx K → Nat → ProbIdx K
  | 0,a,v => Function.update a 0 v
  | j+1,a,v => if (a j).prob < v.prob then insertDesc j (Function.update a (j+1) (a j)) v else Function.update a (j+1) v

def probidxCmp (a b : ProbIdx K) : Int := if a.prob > b.prob then -1 else if a.prob < b.prob then 1 else 0

-- qsort is the library's: any order that probidx_cmp allows.
def sortDesc (qsort : List (ProbIdx K) → List (ProbIdx K)) (a : Nat → ProbIdx K) (n : Nat) : Nat → ProbIdx K :=
  if n > 64 then fun i => (qsort (entries n a)).getD i (a i)
  else (n-1).fold (fun i _ a => insertDesc (i+1) a (a (i+1))) a

end Operations

section Selecting
variable {K : Type} [LinearOrder K]

def scanned (vals : Nat → K) (n : Nat) : List (ProbIdx K) := (List.range n).map fun i => ⟨vals i,i⟩

-- After n values: the places hold as many as there is room for, and no other is greater.
structure TopOf (cap : Nat) (vals : Nat → K) (n : Nat) (s : Selection K) : Prop where
  filled : s.filled = min cap n
  heap : IsHeap ProbIdx.prob s.filled s.heap
  split : ∃ rest,(entries s.filled s.heap++rest).Perm (scanned vals n) ∧ ∀ x ∈ entries s.filled s.heap,∀ y ∈ rest,y.prob ≤ x.prob

omit [LinearOrder K] in
theorem scanned_succ (vals : Nat → K) (n : Nat) : scanned vals (n+1) = scanned vals n++[⟨vals n,n⟩] := by
  rw [scanned,List.range_succ,List.map_append]
  rfl

omit [LinearOrder K] in
theorem entries_root (c : Nat) (h : Nat → ProbIdx K) : entries (c+1) h = h 0 :: (List.range c).map fun i => h (i+1) := by
  rw [entries,List.range_succ_eq_map,List.map_cons,List.map_map]
  rfl

theorem selectRound_room {cap n : Nat} {vals : Nat → K} {s : Selection K} (top : TopOf cap vals n s) (room : s.filled < cap) :
    TopOf cap vals (n+1) (selectRound cap vals n s) := by
  obtain ⟨filled,heap,rest,perm,above⟩ := top
  have count : s.filled = n := by omega
  have below : ∀ k < s.filled,Function.update s.heap s.filled ⟨vals n,n⟩ k = s.heap k := fun k low => Function.update_of_ne (by omega) _ _
  have placed : entries (s.filled+1) (Function.update s.heap s.filled ⟨vals n,n⟩) = entries s.filled s.heap++[⟨vals n,n⟩] := by
    rw [entries_succ,entries_congr below,Function.update_self]
  have sifted := (@siftUp_shuffled _ _ _ ProbIdx.prob (s.filled+1) s.filled s.filled (Function.update s.heap s.filled ⟨vals n,n⟩)
    (Nat.lt_succ_self s.filled)).perm
  have none' : rest = [] := by
    have lengths := perm.length_eq
    simp only [List.length_append,entries,scanned,List.length_map,List.length_range] at lengths
    exact List.length_eq_zero_iff.mp (by omega)
  rw [selectRound,if_pos room]
  refine ⟨by dsimp only; omega,push_heap heap below,[],?_,fun _ _ y member => by cases member⟩
  rw [List.append_nil,scanned_succ]
  rw [none',List.append_nil] at perm
  exact sifted.trans (placed ▸ perm.append_right _)

theorem selectRound_full {cap n : Nat} {vals : Nat → K} {s : Selection K} (some' : 0 < cap) (top : TopOf cap vals n s) (full : ¬s.filled < cap) :
    TopOf cap vals (n+1) (selectRound cap vals n s) := by
  obtain ⟨filled,heap,rest,perm,above⟩ := top
  have count : s.filled = cap := by omega
  rw [count] at heap perm above
  obtain ⟨c,rfl⟩ : ∃ c,cap = c+1 := ⟨cap-1,by omega⟩
  have lowest : ∀ x ∈ entries (c+1) s.heap,(s.heap 0).prob ≤ x.prob := by
    intro x member
    obtain ⟨k,low,rfl⟩ := mem_entries.mp member
    exact heap.root low
  rw [selectRound,if_neg full]
  split
  · next greater =>
    have behind : ∀ k,0 < k → Function.update s.heap 0 ⟨vals n,n⟩ k = s.heap k := fun k some' => Function.update_of_ne (by omega) _ _
    have sifted := (@siftDown_shuffled _ _ _ ProbIdx.prob (c+1) (c+1) 0 (Function.update s.heap 0 ⟨vals n,n⟩) (Nat.succ_pos c)).perm
    have placed : entries (c+1) (Function.update s.heap 0 ⟨vals n,n⟩) = ⟨vals n,n⟩ :: (List.range c).map fun i => s.heap (i+1) := by
      rw [entries_root,Function.update_self]
      congr 1
    rw [placed] at sifted
    rw [entries_root] at perm above lowest
    refine ⟨by dsimp only; omega,by dsimp only; rw [count]; exact replace_heap heap behind,s.heap 0 :: rest,?_,?_⟩
    · dsimp only
      rw [count,scanned_succ]
      refine ((sifted.append_right _).trans ?_).trans (perm.append_right _)
      rw [List.cons_append,List.cons_append]
      exact (List.perm_middle.cons _).trans (List.perm_append_singleton _ _).symm
    · dsimp only
      rw [count]
      intro x inTop y inRest
      have root : s.heap 0 ∈ s.heap 0 :: (List.range c).map fun i => s.heap (i+1) := List.mem_cons_self
      have below : y.prob ≤ (s.heap 0).prob := by
        cases List.mem_cons.mp inRest with
        | inl same => rw [same]
        | inr old => exact above _ root y old
      cases List.mem_cons.mp (sifted.mem_iff.mp inTop) with
      | inl new =>
        rw [new]
        exact below.trans (le_of_lt greater)
      | inr old => exact below.trans (lowest x (List.mem_cons_of_mem _ old))
  · next atMost =>
    refine ⟨by omega,by rw [count]; exact heap,rest++[⟨vals n,n⟩],?_,?_⟩
    · rw [count,scanned_succ,← List.append_assoc]
      exact perm.append_right _
    · rw [count]
      intro x inTop y inRest
      cases List.mem_append.mp inRest with
      | inl old => exact above x inTop y old
      | inr new =>
        rw [List.mem_singleton.mp new]
        exact (not_lt.mp atMost).trans (lowest x inTop)

theorem selectTop_top (heap : Nat → ProbIdx K) {cap : Nat} (some' : 0 < cap) (vals : Nat → K) (n : Nat) :
    TopOf cap vals n (selectTop heap cap vals n) := by
  unfold selectTop
  induction n with
  | zero =>
    refine ⟨(Nat.min_zero cap).symm,fun i _ below => absurd below (Nat.not_lt_zero i),[],List.Perm.refl _,fun _ _ y member => by cases member⟩
  | succ n ih =>
    rw [Nat.fold_succ]
    by_cases room : (n.fold (fun i _ s => selectRound cap vals i s) (⟨heap,0⟩ : Selection K)).filled < cap
    · exact selectRound_room ih room
    · exact selectRound_full some' ih room

end Selecting

section Sorting
variable {K : Type} [LinearOrder K]

def Descending (l : List (ProbIdx K)) : Prop := l.Pairwise fun x y => y.prob ≤ x.prob

theorem insertDesc_spec (v : ProbIdx K) (j : Nat) : ∀ a : Nat → ProbIdx K,
    (entries (j+1) (insertDesc j a v)).Perm (entries j a++[v]) ∧ (∀ k,j < k → insertDesc j a v k = a k) ∧
      (Descending (entries j a) → Descending (entries (j+1) (insertDesc j a v))) := by
  induction j with
  | zero =>
    intro a
    have alone : entries 1 (insertDesc 0 a v) = [v] := by
      rw [entries_succ,insertDesc,Function.update_self]
      rfl
    exact ⟨by rw [alone]; exact List.Perm.refl _,fun k later => Function.update_of_ne (by omega) _ _,fun _ => by
      rw [alone]
      exact List.pairwise_singleton _ _⟩
  | succ j ih =>
    intro a
    rw [insertDesc]
    have behind : entries j (Function.update a (j+1) (a j)) = entries j a := entries_congr fun k low => Function.update_of_ne (by omega) _ _
    split
    · next small =>
      obtain ⟨perm,later,sorted⟩ := ih (Function.update a (j+1) (a j))
      have moved : insertDesc j (Function.update a (j+1) (a j)) v (j+1) = a j := by
        rw [later (j+1) (Nat.lt_succ_self j),Function.update_self]
      rw [behind] at perm sorted
      refine ⟨?_,fun k high => by rw [later k (by omega)]; exact Function.update_of_ne (by omega) _ _,fun before => ?_⟩
      · rw [entries_succ,moved,entries_succ j a]
        refine (perm.append_right _).trans ?_
        rw [List.append_assoc,List.append_assoc]
        exact (List.Perm.swap _ _ _).append_left _
      · rw [entries_succ] at before
        obtain ⟨front,_,above⟩ := List.pairwise_append.mp before
        rw [entries_succ,moved]
        refine List.pairwise_append.mpr ⟨sorted front,List.pairwise_singleton _ _,fun x inFront y last => ?_⟩
        rw [List.mem_singleton.mp last]
        cases List.mem_append.mp (perm.mem_iff.mp inFront) with
        | inl old => exact above x old (a j) (List.mem_singleton_self _)
        | inr new =>
          rw [List.mem_singleton.mp new]
          exact small.le
    · next settled =>
      have same : entries (j+1) (Function.update a (j+1) v) = entries (j+1) a := entries_congr fun k low => Function.update_of_ne (by omega) _ _
      refine ⟨?_,fun k high => Function.update_of_ne (by omega) _ _,fun before => ?_⟩
      · rw [entries_succ,same,Function.update_self]
      · rw [entries_succ (j+1),same,Function.update_self]
        refine List.pairwise_append.mpr ⟨before,List.pairwise_singleton _ _,fun x inFront y last => ?_⟩
        rw [List.mem_singleton.mp last]
        rw [entries_succ] at before inFront
        cases List.mem_append.mp inFront with
        | inl old => exact (not_lt.mp settled).trans ((List.pairwise_append.mp before).2.2 x old (a j) (List.mem_singleton_self _))
        | inr new =>
          rw [List.mem_singleton.mp new]
          exact not_lt.mp settled

-- What the sort of the library may return.
def Sorts (qsort : List (ProbIdx K) → List (ProbIdx K)) : Prop := ∀ l,(qsort l).Perm l ∧ Descending (qsort l)

theorem sortDesc_spec {qsort : List (ProbIdx K) → List (ProbIdx K)} (sorts : Sorts qsort) (a : Nat → ProbIdx K) (n : Nat) :
    (entries n (sortDesc qsort a n)).Perm (entries n a) ∧ Descending (entries n (sortDesc qsort a n)) := by
  unfold sortDesc
  split
  · obtain ⟨perm,sorted⟩ := sorts (entries n a)
    have size : (qsort (entries n a)).length = n := by rw [perm.length_eq,entries,List.length_map,List.length_range]
    have same : entries n (fun i => (qsort (entries n a)).getD i (a i)) = qsort (entries n a) := by
      refine List.ext_getElem (by rw [entries,List.length_map,List.length_range,size]) fun i low high => ?_
      simp only [entries,List.getElem_map,List.getElem_range]
      exact (List.getElem_eq_getD (a i)).symm
    rw [same]
    exact ⟨perm,sorted⟩
  · have rounds : ∀ m,(entries (m+1) (m.fold (fun i _ a => insertDesc (i+1) a (a (i+1))) a)).Perm (entries (m+1) a) ∧
        Descending (entries (m+1) (m.fold (fun i _ a => insertDesc (i+1) a (a (i+1))) a)) ∧
        ∀ k,m < k → m.fold (fun i _ a => insertDesc (i+1) a (a (i+1))) a k = a k := by
      intro m
      induction m with
      | zero => exact ⟨List.Perm.refl _,List.pairwise_singleton _ _,fun k _ => rfl⟩
      | succ m ih =>
        obtain ⟨perm,sorted,later⟩ := ih
        rw [Nat.fold_succ]
        generalize m.fold (fun i _ a => insertDesc (i+1) a (a (i+1))) a = a' at perm sorted later
        obtain ⟨perm',later',sorted'⟩ := insertDesc_spec (a' (m+1)) (m+1) a'
        refine ⟨perm'.trans ?_,sorted' sorted,fun k high => (later' k high).trans (later k (by omega))⟩
        rw [later (m+1) (Nat.lt_succ_self m),entries_succ (m+1) a]
        exact perm.append_right _
    cases n with
    | zero => exact ⟨List.Perm.refl _,List.Pairwise.nil⟩
    | succ m => exact ⟨(rounds m).1,(rounds m).2.1⟩

theorem selected_front {qsort : List (ProbIdx K) → List (ProbIdx K)} (sorts : Sorts qsort) {cap n : Nat} {vals : Nat → K} {s : Selection K}
    (top : TopOf cap vals n s) {whole : List K} (perm : whole.Perm ((List.range n).map vals)) (sorted : whole.Pairwise (· ≥ ·)) :
    (entries s.filled (sortDesc qsort s.heap s.filled)).map ProbIdx.prob = whole.take (min cap n) := by
  obtain ⟨rest,split,above⟩ := top.split
  obtain ⟨perm',sorted'⟩ := sortDesc_spec sorts s.heap s.filled
  have values : (scanned vals n).map ProbIdx.prob = (List.range n).map vals := by
    rw [scanned,List.map_map]
    rfl
  have size : ((entries s.filled s.heap).map ProbIdx.prob).length = min cap n := by
    rw [List.length_map,entries,List.length_map,List.length_range,top.filled]
  rw [← size]
  have parts : ((entries s.filled s.heap).map ProbIdx.prob++rest.map ProbIdx.prob).Perm ((List.range n).map vals) := by
    rw [← List.map_append,← values]
    exact split.map _
  refine sorted_front parts (fun x inTop y inRest => ?_) (perm'.map _) (List.pairwise_map.mpr sorted') perm sorted
  obtain ⟨a,memberA,rfl⟩ := List.mem_map.mp inTop
  obtain ⟨b,memberB,rfl⟩ := List.mem_map.mp inRest
  exact above a memberA b memberB

-- The library's qsort, given a comparison that is a total preorder.
def QsortContract (qsort : (ProbIdx K → ProbIdx K → Int) → List (ProbIdx K) → List (ProbIdx K)) : Prop :=
  ∀ cmp : ProbIdx K → ProbIdx K → Int,(∀ a b,cmp a b ≤ 0 ∨ cmp b a ≤ 0) → (∀ a b c,cmp a b ≤ 0 → cmp b c ≤ 0 → cmp a c ≤ 0) →
    ∀ l,(qsort cmp l).Perm l ∧ (qsort cmp l).Pairwise fun a b => cmp a b ≤ 0

theorem probidxCmp_le (a b : ProbIdx K) : probidxCmp a b ≤ 0 ↔ b.prob ≤ a.prob := by
  unfold probidxCmp
  split
  · next greater => exact iff_of_true (by decide) greater.le
  · next atMost =>
    split
    · next less => exact iff_of_false (by decide) less.not_ge
    · next atLeast => exact iff_of_true (by decide) (not_lt.mp atLeast)

theorem qsort_sorts {qsort : (ProbIdx K → ProbIdx K → Int) → List (ProbIdx K) → List (ProbIdx K)} (library : QsortContract qsort) :
    Sorts (qsort probidxCmp) := by
  intro l
  obtain ⟨perm,ordered⟩ := library probidxCmp
    (fun a b => by rw [probidxCmp_le,probidxCmp_le]; exact le_total _ _)
    (fun a b c one two => by rw [probidxCmp_le] at one two ⊢; exact two.trans one) l
  exact ⟨perm,ordered.imp fun {a b} le => (probidxCmp_le a b).mp le⟩

end Sorting

section Candidates
variable {K : Type} [LinearOrder K] {cap n : Nat} {vals : Nat → K} {s : Selection K}

omit [LinearOrder K] in
theorem mem_scanned {x : ProbIdx K} : x ∈ scanned vals n ↔ x.idx < n ∧ x.prob = vals x.idx := by
  simp only [scanned,List.mem_map,List.mem_range]
  constructor
  · rintro ⟨i,low,rfl⟩
    exact ⟨low,rfl⟩
  · rintro ⟨low,value⟩
    exact ⟨x.idx,low,by rw [← value]⟩

omit [LinearOrder K] in
theorem scanned_nodup (vals : Nat → K) (n : Nat) : ((scanned vals n).map ProbIdx.idx).Nodup := by
  rw [scanned,List.map_map]
  exact List.nodup_range.map fun _ _ same => same

theorem TopOf.entries_own (top : TopOf cap vals n s) : ((entries s.filled s.heap).map ProbIdx.idx).Nodup ∧
    ∀ x ∈ entries s.filled s.heap,x.idx < n ∧ x.prob = vals x.idx := by
  obtain ⟨rest,perm,_⟩ := top.split
  refine ⟨?_,fun x inTop => mem_scanned.mp (perm.mem_iff.mp (List.mem_append_left _ inTop))⟩
  have all := (perm.map ProbIdx.idx).nodup_iff.mpr (scanned_nodup vals n)
  rw [List.map_append] at all
  exact (List.nodup_append.mp all).1

theorem TopOf.left_out (top : TopOf cap vals n s) {i : Nat} (low : i < n) (out : i ∉ (entries s.filled s.heap).map ProbIdx.idx) :
    ∀ x ∈ entries s.filled s.heap,vals i ≤ x.prob := by
  obtain ⟨rest,perm,above⟩ := top.split
  have listed : (⟨vals i,i⟩ : ProbIdx K) ∈ entries s.filled s.heap++rest := perm.mem_iff.mpr (mem_scanned.mpr ⟨low,rfl⟩)
  intro x inTop
  cases List.mem_append.mp listed with
  | inl kept => exact absurd (List.mem_map_of_mem kept) out
  | inr inRest => exact above x inTop _ inRest

def mergeSorted (cmp : ProbIdx Nat → ProbIdx Nat → Int) (l : List (ProbIdx Nat)) : List (ProbIdx Nat) :=
  l.mergeSort fun a b => decide (cmp a b ≤ 0)

theorem mergeSorted_contract : QsortContract mergeSorted := by
  intro cmp total trans' l
  refine ⟨List.mergeSort_perm l _,?_⟩
  have ordered := @List.pairwise_mergeSort _ (fun a b : ProbIdx Nat => decide (cmp a b ≤ 0))
    (fun a b c one two => decide_eq_true (trans' a b c (of_decide_eq_true one) (of_decide_eq_true two)))
    (fun a b => by rw [Bool.or_eq_true,decide_eq_true_iff,decide_eq_true_iff]; exact total a b) l
  exact ordered.imp fun le => of_decide_eq_true le

end Candidates

end TinyLlama.Sampler
