import TinyLlama.Graph.Failure
import TinyLlama.Graph.Widths

namespace TinyLlama.Graph
open Slots Gguf TinyLlama.Sweep

variable {β K : Type}

-- A value that a node from i on reads.
def StillRead (g : List GraphNode) (i j : Nat) : Prop := ∃ r,i ≤ r ∧ isInput g r = false ∧ some j ∈ sourcesOf g r

theorem StillRead.late {g : List GraphNode} {i j : Nat} (read : StillRead g i j) : i ≤ release g j := by
  obtain ⟨r,low,_,listed⟩ := read
  unfold sourcesOf at listed
  cases found : g[r]? with
  | none => simp [found] at listed
  | some node =>
    refine low.trans (release_reads found (List.elem_eq_true_of_mem ?_))
    simpa [found] using listed

theorem WellBuilt.input_lt {g : List GraphNode} (built : WellBuilt g) {i j : Nat} (below : i < g.length) (input : isInput g j = true)
    (node : isInput g i = false) : j < i := by
  obtain ⟨m,first'⟩ := built.inputs
  have inside := (first' j (Executor.flagged_lt input)).mp input
  by_contra past
  rw [(first' i below).mpr (by omega)] at node
  exact absurd node.symm Bool.false_ne_true

theorem WellBuilt.last_node {g : List GraphNode} (built : WellBuilt g) :
    0 < g.length ∧ isInput g (g.length-1) = false ∧ isSink g (g.length-1) = true := by
  obtain ⟨i,below,node⟩ := built.some
  have last : isInput g (g.length-1) = false := by
    by_contra input
    have first' := built.input_lt below (by simpa using input) node
    omega
  exact ⟨by omega,last,(built.last _ (by omega) last).mpr (by omega)⟩

namespace Executor

section Slots
variable {p : Executor β K} {n i j : Nat}

-- The bytes of a batch of the size the graph was built for lie in the planned slots.
def Small (p : Executor β K) (n : Nat) : Prop := ∀ j < p.g.length,p.batchBytes n j ≤ (planSlot p.g p.c p.nUbatch j).size

theorem input_small (fits : Fits p.g p.c p.nUbatch) (input : isInput p.g i = true) (room : n ≤ capacity p.g i) :
    p.batchBytes n i ≤ (planSlot p.g p.c p.nUbatch i).size := by
  have below := flagged_lt input
  refine le_trans ?_ (planSlot_fits fits below)
  obtain ⟨node,found⟩ : ∃ node,p.g[i]? = some node := ⟨_,List.getElem?_eq_getElem below⟩
  have op : node.op = .input := by
    rw [isInput,found] at input
    exact of_decide_eq_true input
  have cap : capacity p.g i ≤ node.ne := by
    rw [capacity,found]
    exact Nat.mod_le _ _
  rw [batchBytes,if_pos input,outBytes,found]
  dsimp only
  rw [if_pos op]
  omega

theorem small_of (fits : Fits p.g p.c p.nUbatch) (rows : n ≤ p.nUbatch) (inputs : ∀ j,isInput p.g j = true → n ≤ capacity p.g j) :
    p.Small n := by
  intro j below
  by_cases input : isInput p.g j = true
  · exact input_small fits input (inputs j input)
  · refine le_trans ?_ (planSlot_fits fits below)
    obtain ⟨node,found⟩ : ∃ node,p.g[j]? = some node := ⟨_,List.getElem?_eq_getElem below⟩
    have op : node.op ≠ .input := by
      intro op
      rw [isInput,found] at input
      exact input (decide_eq_true op)
    rw [batchBytes,if_neg input,outBytes,found]
    dsimp only
    rw [if_neg op,nodeCapRows,if_neg op]
    refine Nat.mul_le_mul_right 4 (Nat.mul_le_mul_right _ ?_)
    split
    · exact le_rfl
    · exact rows

theorem liveSlot_apart (fits : Fits p.g p.c p.nUbatch) (smallJ : p.batchBytes n j ≤ (planSlot p.g p.c p.nUbatch j).size)
    (smallI : p.batchBytes n i ≤ (planSlot p.g p.c p.nUbatch i).size) (earlier : j < i) (below : i < p.g.length)
    (late : i ≤ release p.g j) (same : backendOf p.g j = backendOf p.g i) : Apart (p.liveSlot n j) (p.liveSlot n i) := by
  intro a inJ inI
  refine planSlot_apart fits earlier below late same a ⟨inJ.1,lt_of_lt_of_le inJ.2 ?_⟩ ⟨inI.1,lt_of_lt_of_le inI.2 ?_⟩
  · exact Nat.add_le_add_left smallJ _
  · exact Nat.add_le_add_left smallI _

end Slots

section Reads

-- The floats of an access, which lie from its source's pointer on.
def SameFloats (p : Executor β K) (s s' : SessionState β K) (a : RowAccess) : Prop :=
  let start := (planSlot p.g p.c p.nUbatch a.src).off
  ∀ b,4*a.start ≤ b → b < 4*(a.start+a.len) → s.mem (backendOf p.g a.src) (start+b) = s'.mem (backendOf p.g a.src) (start+b)

def SameReads (p : Executor β K) (states : List Nat) (n i : Nat) (s s' : SessionState β K) : Prop :=
  ∀ a ∈ opReads p.c ⟨p.g,0,states⟩ n i,p.SameFloats s s' a

-- The cells of a head that op_attn addresses for position q.
def SameCells (p : Executor β K) (i h q : Nat) (s s' : SessionState β K) : Prop :=
  ∀ d < p.c.kvHeadDim,
    let cell := h*p.stride i+q*p.c.kvHeadDim+d
    s.k (handle p.g i) cell = s'.k (handle p.g i) cell ∧ s.v (handle p.g i) cell = s'.v (handle p.g i) cell

def SameRows (p : Executor β K) (n : Nat) (x x' : Nat → K) : Prop :=
  ∀ r < n,∀ h < p.c.nKvHead,∀ d < p.c.kvHeadDim,
    x (r*(attnConfig p.c).kvDim+h*p.c.kvHeadDim+d) = x' (r*(attnConfig p.c).kvDim+h*p.c.kvHeadDim+d)

-- The ops read where their own strides lead them: in their sources, and attention in the cached
-- rows of head h/(n_head/n_kv_head) for each head h.
structure Addressed (p : Executor β K) (states : List Nat) : Prop where
  source : ∀ i k n (s s' : SessionState β K),isAttn p.g i = true → k = 1 ∨ k = 2 → p.SameReads states n i s s' →
    p.SameRows n (p.ops.source i k s) (p.ops.source i k s')
  plain : ∀ i pos n (s s' : SessionState β K),p.SameReads states n i s s' → ∀ a < p.batchBytes n i,p.ops.plain i pos n s a = p.ops.plain i pos n s' a
  attend : ∀ i pos n (s s' : SessionState β K),p.SameReads states n i s s' →
    (∀ h < p.c.nHead,∀ q < pos+n,p.SameCells i (h/(attnConfig p.c).gqa) q s s') →
    ∀ a < p.batchBytes n i,p.ops.attend i pos n s a = p.ops.attend i pos n s' a
  advance : ∀ i pos n (s s' : SessionState β K) start,p.SameReads states n i s s' →
    (p.ops.advance i pos n s start).1 = (p.ops.advance i pos n s' start).1 ∧
      ∀ a < p.batchBytes n i,(p.ops.advance i pos n s start).2 a = (p.ops.advance i pos n s' start).2 a

-- These strides stay in the sources' rows, and these heads in the layer's cache.
structure Enclosed (p : Executor β K) (states : List Nat) : Prop where
  rows : ∀ n i,0 < n → ∀ a ∈ opReads p.c ⟨p.g,0,states⟩ n i,a.Inside p.c ⟨p.g,0,states⟩ n
  heads : ∀ i,isAttn p.g i = true → p.c.nKvHead ∣ p.c.nHead

end Reads

section Walks
variable {p : Executor β K} {states : List Nat} {pos n i : Nat} {s s' : SessionState β K} {fault : Nat → Option (Fault β K)}

-- The caches before node i: those of the layers that are done agree in the batch's rows too.
def Rows (p : Executor β K) (pos n i : Nat) (k k' : Nat → Nat → K) : Prop :=
  ∀ j,isAttn p.g j = true → ∀ h < p.c.nKvHead,∀ q < (if j < i then pos+n else pos),∀ d < p.c.kvHeadDim,
    k (handle p.g j) (p.place h q d) = k' (handle p.g j) (p.place h q d)

-- Two walks before node i: every value that is still to be read agrees.
structure Along (p : Executor β K) (pos n i : Nat) (s s' : SessionState β K) : Prop where
  k : p.Rows pos n i s.k s'.k
  v : p.Rows pos n i s.v s'.v
  state : ∀ j,isRecurrent p.g j = true → s.state (handle p.g j) = s'.state (handle p.g j) ∨ i ≤ j ∧ p.Restarted pos j
  logits : ∀ a,(∀ i,sinkNode p.g = some i → p.publishedBytes i ≤ a) → s.logits a = s'.logits a
  live : ∀ j,j < i ∨ isInput p.g j = true → StillRead p.g i j →
    contents s.mem (backendOf p.g j) (p.liveSlot n j) = contents s'.mem (backendOf p.g j) (p.liveSlot n j)
  last : ∀ j,j+1 = i → isInput p.g j = false →
    contents s.mem (backendOf p.g j) (p.liveSlot n j) = contents s'.mem (backendOf p.g j) (p.liveSlot n j)

theorem Along.agree (along : p.Along pos n i s s') : p.Agree pos s s' := by
  refine ⟨fun j attn h head q low d small => along.k j attn h head q (by split <;> omega) d small,
    fun j attn h head q low d small => along.v j attn h head q (by split <;> omega) d small,fun j recurrent => ?_,along.logits⟩
  rcases along.state j recurrent with same | ⟨_,restarted⟩
  · exact .inl same
  · exact .inr restarted

theorem opReads_source {a : RowAccess} (listed : a ∈ opReads p.c ⟨p.g,0,states⟩ n i) : some a.src ∈ sourcesOf p.g i := by
  unfold opReads at listed
  split at listed
  · cases listed
  · next node at' =>
    dsimp only at listed at'
    split at listed
    · obtain ⟨row,_,inner⟩ := List.mem_flatMap.mp listed
      obtain ⟨read,present,rfl⟩ := List.mem_map.mp inner
      rw [sourcesOf,at']
      exact List.contains_iff_mem.mp (rowReads_reads p.c node _ read present)
    · cases listed

theorem Along.reads (along : p.Along pos n i s s') (enclosed : p.Enclosed states) (built : WellBuilt p.g) (some' : 0 < n)
    (node : isInput p.g i = false) : p.SameReads states n i s s' := by
  intro a listed b low high
  have source := opReads_source listed
  have inside := enclosed.rows n i some' a listed
  have live := along.live a.src (.inl (built.back i _ source)) ⟨i,le_rfl,node,source⟩
  have unsunk : isSink p.g a.src = false := by
    obtain ⟨reader,there,reads⟩ : ∃ reader,p.g[i]? = some reader ∧ some a.src ∈ reader.src := by
      unfold sourcesOf at source
      cases found : p.g[i]? with
      | none => simp [found] at source
      | some reader => exact ⟨reader,rfl,by simpa [found] using source⟩
    rw [isSink,List.all_eq_false]
    exact ⟨reader,List.mem_of_getElem? there,by simpa [GraphNode.reads] using reads⟩
  have size : p.batchBytes n a.src = rowCount ⟨p.g,0,states⟩ n a.src*rowWidth p.c ⟨p.g,0,states⟩ a.src*4 := by
    unfold batchBytes rowCount rowWidth
    dsimp only
    split
    · rw [Nat.mul_one]
    · rw [unsunk]
  have upto := Nat.mul_le_mul_right (rowWidth p.c ⟨p.g,0,states⟩ a.src) (Nat.succ_le_of_lt inside.row)
  have end' := inside.high.trans upto
  have covered : b < p.batchBytes n a.src := by omega
  exact List.map_inj_left.mp live b (List.mem_range.mpr covered)

theorem put_live (built : WellBuilt p.g) (fits : Fits p.g p.c p.nUbatch) (small : p.Small n) (below : i < p.g.length)
    (node : isInput p.g i = false) (along : p.Along pos n i s s') {bytes bytes' : Nat → β} (same : ∀ a < p.batchBytes n i,bytes a = bytes' a) :
    (∀ j,j < i+1 ∨ isInput p.g j = true → StillRead p.g (i+1) j →
      contents (p.put n i bytes s.mem) (backendOf p.g j) (p.liveSlot n j) =
        contents (p.put n i bytes' s'.mem) (backendOf p.g j) (p.liveSlot n j)) ∧
      ∀ j,j+1 = i+1 → isInput p.g j = false →
        contents (p.put n i bytes s.mem) (backendOf p.g j) (p.liveSlot n j) =
          contents (p.put n i bytes' s'.mem) (backendOf p.g j) (p.liveSlot n j) := by
  have own : contents (p.put n i bytes s.mem) (backendOf p.g i) (p.liveSlot n i) =
      contents (p.put n i bytes' s'.mem) (backendOf p.g i) (p.liveSlot n i) := by
    rw [put,put,contents_overwrite,contents_overwrite]
    exact List.map_congr_left fun a listed => same a (List.mem_range.mp listed)
  refine ⟨fun j known read => ?_,fun j next' _ => ?_⟩
  · by_cases same : j = i
    · rw [same]
      exact own
    · have earlier : j < i := by
        rcases known with low | input
        · omega
        · exact built.input_lt below input node
      have late := read.late
      have apart : backendOf p.g j = backendOf p.g i → Apart (p.liveSlot n j) (p.liveSlot n i) :=
        liveSlot_apart fits (small j (earlier.trans below)) (small i below) earlier below (by omega)
      rw [put,put,contents_frame _ _ apart,contents_frame _ _ apart]
      obtain ⟨r,low,reader,listed⟩ := read
      exact along.live j (.inl earlier) ⟨r,by omega,reader,listed⟩
  · obtain rfl : j = i := by omega
    exact own

theorem kvWrite_agree (strides : Cpu.Strides (attnConfig p.c) p.ctxSize (p.stride i)) (room : pos+n ≤ p.ctxSize) {src src' : Nat → K}
    (rows : p.SameRows n src src') {m m' : Nat → K}
    (same : ∀ h < p.c.nKvHead,∀ q < pos,∀ d < p.c.kvHeadDim,m (p.place h q d) = m' (p.place h q d)) :
    ∀ h < p.c.nKvHead,∀ q < pos+n,∀ d < p.c.kvHeadDim,
      Cpu.kvWrite (attnConfig p.c) (p.stride i) pos n src m (p.place h q d) =
        Cpu.kvWrite (attnConfig p.c) (p.stride i) pos n src' m' (p.place h q d) := by
  intro h head q low d small
  rw [place,Cpu.kvWrite_cell strides room head (by omega) small,Cpu.kvWrite_cell strides room head (by omega) small]
  split
  · exact rows (q-pos) (by omega) h head d small
  · exact same h head q (by omega) d small

theorem Rows.skip {k k' : Nat → Nat → K} (rows : p.Rows pos n i k k') (other : isAttn p.g i = false) : p.Rows pos n (i+1) k k' := by
  intro j attn h head q low d small
  have apart : j ≠ i := by
    rintro rfl
    exact absurd (other.symm.trans attn) Bool.false_ne_true
  refine rows j attn h head q ?_ d small
  split at low <;> split <;> omega

theorem Rows.write {k k' : Nat → Nat → K} (rows : p.Rows pos n i k k') (strides : Cpu.Strides (attnConfig p.c) p.ctxSize (p.stride i))
    (room : pos+n ≤ p.ctxSize) (attn : isAttn p.g i = true) {src src' : Nat → K} (sources : p.SameRows n src src') :
    p.Rows pos n (i+1)
      (Function.update k (handle p.g i) (Cpu.kvWrite (attnConfig p.c) (p.stride i) pos n src (k (handle p.g i))))
      (Function.update k' (handle p.g i) (Cpu.kvWrite (attnConfig p.c) (p.stride i) pos n src' (k' (handle p.g i)))) := by
  intro j attn' h head q low d small
  have same := kvWrite_agree strides room sources fun h head q low d small => rows i attn h head q (by rwa [if_neg (lt_irrefl i)]) d small
  rw [Function.update_apply,Function.update_apply]
  split
  · exact same h head q (by split at low <;> omega) d small
  · next apart =>
    have other : j ≠ i := fun eq => apart (congrArg (handle p.g) eq)
    refine rows j attn' h head q ?_ d small
    split at low <;> split <;> omega

theorem state_skip (along : p.Along pos n i s s') (other : isRecurrent p.g i = false) :
    ∀ j,isRecurrent p.g j = true → s.state (handle p.g j) = s'.state (handle p.g j) ∨ i+1 ≤ j ∧ p.Restarted pos j := by
  intro j recurrent
  rcases along.state j recurrent with same | ⟨later,restarted⟩
  · exact .inl same
  · refine .inr ⟨Nat.lt_of_le_of_ne later ?_,restarted⟩
    rintro rfl
    exact absurd (other.symm.trans recurrent) Bool.false_ne_true

theorem stateAt_along (along : p.Along pos n i s s') (recurrent : isRecurrent p.g i = true) : p.stateAt pos i s = p.stateAt pos i s' := by
  unfold stateAt
  split
  · rfl
  · next kept => exact (along.state i recurrent).resolve_right fun both => kept both.2

theorem attn_not_recurrent (attn : isAttn p.g i = true) : isRecurrent p.g i = false := by
  unfold isAttn at attn
  unfold isRecurrent
  cases found : p.g[i]? with
  | none => rfl
  | some node =>
    rw [found] at attn
    have op := of_decide_eq_true attn
    simp [op]

theorem input_computes_nothing (input : isInput p.g i = true) : isAttn p.g i = false ∧ isRecurrent p.g i = false := by
  unfold isInput at input
  unfold isAttn isRecurrent
  cases found : p.g[i]? with
  | none => exact ⟨rfl,rfl⟩
  | some node =>
    rw [found] at input
    have op := of_decide_eq_true input
    simp [op]

theorem Along.skip (along : p.Along pos n i s s') (input : isInput p.g i = true) : p.Along pos n (i+1) s s' := by
  obtain ⟨attn,recurrent⟩ := input_computes_nothing input
  refine ⟨along.k.skip attn,along.v.skip attn,state_skip along recurrent,along.logits,fun j known read => ?_,fun j next' node => ?_⟩
  · obtain ⟨r,low,reader,listed⟩ := read
    refine along.live j ?_ ⟨r,by omega,reader,listed⟩
    rcases known with low | input'
    · by_cases same : j = i
      · exact .inr (same ▸ input)
      · exact .inl (by omega)
    · exact .inr input'
  · obtain rfl : j = i := by omega
    exact absurd (node.symm.trans input) Bool.false_ne_true

-- The heads share the keys evenly, so that what attention addresses is in the heads of the cache.
theorem cached_cells (unwrapped : p.Unwrapped) (divides : p.c.nKvHead ∣ p.c.nHead) (room : pos+n ≤ p.ctxSize) (attn : isAttn p.g i = true)
    (along : p.Along pos n i s s') (keys : p.SameRows n (p.ops.source i 1 s) (p.ops.source i 1 s'))
    (values : p.SameRows n (p.ops.source i 2 s) (p.ops.source i 2 s')) :
    ∀ h < p.c.nHead,∀ q < pos+n,p.SameCells i (h/(attnConfig p.c).gqa) q (p.cached pos n i s) (p.cached pos n i s') := by
  intro h head q low d small
  have strides := unwrapped.strides attn
  have kvHead : h/(attnConfig p.c).gqa < p.c.nKvHead := Cpu.kvHead_lt divides head
  have cell : h/(attnConfig p.c).gqa*p.stride i+q*p.c.kvHeadDim+d = p.place (h/(attnConfig p.c).gqa) q d := Cpu.cell_place strides kvHead q d
  have own {k k' : Nat → Nat → K} (rows : p.Rows pos n i k k') := fun h head q low d small => rows i attn h head q (by rwa [if_neg (lt_irrefl i)]) d small
  dsimp only
  rw [cell]
  unfold cached
  dsimp only
  rw [Function.update_self,Function.update_self,Function.update_self,Function.update_self]
  exact ⟨kvWrite_agree strides room keys (own along.k) _ kvHead q low d small,kvWrite_agree strides room values (own along.v) _ kvHead q low d small⟩

theorem opCompute_along (unwrapped : p.Unwrapped) (addressed : p.Addressed states) (enclosed : p.Enclosed states) (built : WellBuilt p.g)
    (fits : Fits p.g p.c p.nUbatch) (small : p.Small n) (some' : 0 < n) (room : pos+n ≤ p.ctxSize) (below : i < p.g.length)
    (node : isInput p.g i = false) (along : p.Along pos n i s s') : p.Along pos n (i+1) (p.opCompute pos n i s) (p.opCompute pos n i s') := by
  have reads := along.reads enclosed built some' node
  unfold opCompute
  by_cases attn : isAttn p.g i = true
  · rw [if_pos attn,if_pos attn]
    have strides := unwrapped.strides attn
    have states' := state_skip along (attn_not_recurrent attn)
    have keys := addressed.source i 1 n s s' attn (.inl rfl) reads
    have values := addressed.source i 2 n s s' attn (.inr rfl) reads
    have cells := cached_cells unwrapped (enclosed.heads i attn) room attn along keys values
    obtain ⟨live,last⟩ := put_live built fits small below node along
      (addressed.attend i pos n (p.cached pos n i s) (p.cached pos n i s') reads cells)
    exact ⟨along.k.write strides room attn keys,along.v.write strides room attn values,states',along.logits,live,last⟩
  · have other : isAttn p.g i = false := by simpa using attn
    rw [if_neg attn,if_neg attn]
    by_cases recurrent : isRecurrent p.g i = true
    · rw [if_pos recurrent,if_pos recurrent]
      obtain ⟨state,bytes⟩ := addressed.advance i pos n s s' (p.stateAt pos i s') reads
      unfold opRecurrent
      dsimp only
      rw [stateAt_along along recurrent]
      obtain ⟨live,last⟩ := put_live built fits small below node along bytes
      refine ⟨along.k.skip other,along.v.skip other,fun j own => ?_,along.logits,live,last⟩
      dsimp only
      rw [Function.update_apply,Function.update_apply]
      split
      · exact .inl state
      · next apart =>
        rcases along.state j own with same | ⟨later,restarted⟩
        · exact .inl same
        · exact .inr ⟨Nat.lt_of_le_of_ne later fun eq => apart (congrArg (handle p.g) eq.symm),restarted⟩
    · rw [if_neg recurrent,if_neg recurrent]
      have states' := state_skip along (by simpa using recurrent)
      obtain ⟨live,last⟩ := put_live built fits small below node along (addressed.plain i pos n s s' reads)
      exact ⟨along.k.skip other,along.v.skip other,states',along.logits,live,last⟩

theorem debris_agree (unwrapped : p.Unwrapped) (room : pos+n ≤ p.ctxSize) (fault : Fault β K) (agree : p.Agree pos s s') :
    p.Agree pos (p.debris pos n i fault s) (p.debris pos n i fault s') := by
  have one := @debris_framed β K p pos n i pos unwrapped le_rfl room fault s
  have two := @debris_framed β K p pos n i pos unwrapped le_rfl room fault s'
  refine ⟨one.k.trans (agree.k.trans two.k.symm),one.v.trans (agree.v.trans two.v.symm),fun j recurrent => ?_,fun a past => ?_⟩
  · rcases agree.state j recurrent with same | restarted
    · unfold debris
      dsimp only
      split
      · rw [Function.update_apply,Function.update_apply]
        split
        · next here =>
          rw [here] at same
          exact .inl (congrArg fault.state same)
        · exact .inl same
      · exact .inl same
    · exact .inr restarted
  · exact (one.logits a past).trans ((agree.logits a past).trans (two.logits a past).symm)

-- What a walk makes of two sessions: both end, or both fail.
def Outcome (p : Executor β K) (pos : Nat) (done : SessionState β K → SessionState β K → Prop) (out out' : SessionState β K × Bool) : Prop :=
  out.2 = out'.2 ∧ (out.2 = true → done out.1 out'.1) ∧ (out.2 = false → p.Agree pos out.1 out'.1)

theorem computeNode_outcome (unwrapped : p.Unwrapped) (addressed : p.Addressed states) (enclosed : p.Enclosed states) (built : WellBuilt p.g)
    (fits : Fits p.g p.c p.nUbatch) (small : p.Small n) (some' : 0 < n) (room : pos+n ≤ p.ctxSize) (below : i < p.g.length) (along : p.Along pos n i s s') :
    p.Outcome pos (p.Along pos n (i+1)) (p.computeNode fault pos n i s) (p.computeNode fault pos n i s') := by
  unfold computeNode
  by_cases input : isInput p.g i = true
  · rw [if_pos input,if_pos input]
    exact ⟨rfl,fun _ => along.skip input,fun failed => absurd failed.symm Bool.false_ne_true⟩
  · have node : isInput p.g i = false := by simpa using input
    rw [if_neg input,if_neg input]
    split
    · exact ⟨rfl,fun ended => absurd ended Bool.false_ne_true,fun _ => along.agree⟩
    · split
      · exact ⟨rfl,fun ended => absurd ended Bool.false_ne_true,fun _ => debris_agree unwrapped room _ along.agree⟩
      · exact ⟨rfl,fun _ => opCompute_along unwrapped addressed enclosed built fits small some' room below node along,fun failed => absurd failed.symm Bool.false_ne_true⟩

theorem computeNodes_outcome (unwrapped : p.Unwrapped) (addressed : p.Addressed states) (enclosed : p.Enclosed states) (built : WellBuilt p.g)
    (fits : Fits p.g p.c p.nUbatch) (small : p.Small n) (some' : 0 < n) (room : pos+n ≤ p.ctxSize) (len : Nat) : ∀ i (s s' : SessionState β K),i+len = p.g.length → p.Along pos n i s s' →
      p.Outcome pos (p.Along pos n p.g.length) (p.computeNodes fault pos n (List.range' i len) s)
        (p.computeNodes fault pos n (List.range' i len) s') := by
  induction len with
  | zero =>
    intro i s s' whole along
    rw [Nat.add_zero] at whole
    subst whole
    exact ⟨rfl,fun _ => along,fun failed => absurd failed.symm Bool.false_ne_true⟩
  | succ len ih =>
    intro i s s' whole along
    obtain ⟨same,ended,failed⟩ := @computeNode_outcome β K p states pos n i s s' fault unwrapped addressed enclosed built fits small some' room
      (by omega) along
    rw [List.range'_succ,computeNodes,computeNodes]
    generalize p.computeNode fault pos n i s = out at same ended failed
    generalize p.computeNode fault pos n i s' = out' at same ended failed
    obtain ⟨s1,ok⟩ := out
    obtain ⟨s1',ok'⟩ := out'
    obtain rfl : ok = ok' := same
    cases ok with
    | true => exact ih (i+1) s1 s1' (by omega) (ended rfl)
    | false => exact ⟨rfl,fun ended => absurd ended Bool.false_ne_true,fun _ => failed rfl⟩

structure Bound (p : Executor β K) (n i : Nat) (mem mem' : Memory β) : Prop where
  live : ∀ j < i,isInput p.g j = true → StillRead p.g 0 j →
    contents mem (backendOf p.g j) (p.liveSlot n j) = contents mem' (backendOf p.g j) (p.liveSlot n j)
  room : ∀ j < i,isInput p.g j = true → n ≤ capacity p.g j

theorem bindInput_bound (built : WellBuilt p.g) (fits : Fits p.g p.c p.nUbatch) {mem mem' : Memory β} (bound : p.Bound n i mem mem')
    (input : isInput p.g i = true) (room : n ≤ capacity p.g i) {bytes bytes' : Nat → β} (same : ∀ a < n*4,bytes a = bytes' a) :
    p.Bound n (i+1) (p.put n i bytes mem) (p.put n i bytes' mem') := by
  refine ⟨fun j low input' read => ?_,fun j low input' => ?_⟩
  · by_cases here : j = i
    · subst here
      rw [put,put,contents_overwrite,contents_overwrite]
      refine List.map_congr_left fun a member => same a ?_
      have inside := List.mem_range.mp member
      rwa [liveSlot,batchBytes,if_pos input] at inside
    · have earlier : j < i := by omega
      have late : i ≤ release p.g j := by
        obtain ⟨r,_,reader,listed⟩ := read
        have below : r < p.g.length := by
          by_contra past
          rw [sourcesOf,List.getElem?_eq_none_iff.mpr (not_lt.mp past)] at listed
          cases listed
        have after := built.input_lt below input reader
        exact after.le.trans (StillRead.late ⟨r,le_rfl,reader,listed⟩)
      have apart : backendOf p.g j = backendOf p.g i → Apart (p.liveSlot n j) (p.liveSlot n i) :=
        liveSlot_apart fits (input_small fits input' (bound.room j earlier input')) (input_small fits input room) earlier (flagged_lt input) late
      rw [put,put,contents_frame _ _ apart,contents_frame _ _ apart]
      exact bound.live j earlier input' read
  · by_cases here : j = i
    · rwa [here]
    · exact bound.room j (by omega) input'

theorem bindInputs_bound (built : WellBuilt p.g) (fits : Fits p.g p.c p.nUbatch) {b b' : GraphBatch} (rows : b'.n = b.n)
    (tokens : ∀ t < b.n,b.tokens t = b'.tokens t) (len : Nat) : ∀ i (s s' : SessionState β K),p.Bound b.n i s.mem s'.mem →
      (p.bindInputs b (List.range' i len) s).2 = (p.bindInputs b' (List.range' i len) s').2 ∧
        ((p.bindInputs b (List.range' i len) s).2 = true →
          p.Bound b.n (i+len) (p.bindInputs b (List.range' i len) s).1.mem (p.bindInputs b' (List.range' i len) s').1.mem) := by
  induction len with
  | zero => exact fun i s s' bound => ⟨rfl,fun _ => bound⟩
  | succ len ih =>
    intro i s s' bound
    rw [List.range'_succ]
    unfold bindInputs
    by_cases input : isInput p.g i = true
    · rw [if_pos input,if_pos input,rows]
      by_cases room : b.n > capacity p.g i
      · rw [if_pos room,if_pos room]
        exact ⟨rfl,fun ended => absurd ended Bool.false_ne_true⟩
      · rw [if_neg room,if_neg room,show i+(len+1) = i+1+len by omega]
        have bytes : ∀ a < b.n*4,p.ops.idByte (b.tokens (a/4)) (a%4) = p.ops.idByte (b'.tokens (a/4)) (a%4) := by
          intro a inside
          rw [tokens (a/4) (by omega)]
        have later := bindInput_bound built fits bound input (not_lt.mp room) bytes
        exact ih (i+1) _ _ later
    · rw [if_neg input,if_neg input,show i+(len+1) = i+1+len by omega]
      refine ih (i+1) s s' ⟨fun j low input' read => ?_,fun j low input' => ?_⟩
      · exact bound.live j (Nat.lt_of_le_of_ne (by omega) fun eq => input (eq ▸ input')) input' read
      · exact bound.room j (Nat.lt_of_le_of_ne (by omega) fun eq => input (eq ▸ input')) input'

theorem publish_logits (built : WellBuilt p.g) (along : p.Along pos n p.g.length s s') : (p.publish n s).logits = (p.publish n s').logits := by
  have sink := sinkNode_last built
  obtain ⟨below,node,last⟩ := built.last_node
  have same := along.last (p.g.length-1) (by omega) node
  have row : (p.liveSlot n (p.g.length-1)).size = (outDims p.c p.g).getD (p.g.length-1) 0*4 := by
    rw [liveSlot,batchBytes,if_neg (by simp [node]),if_pos last,Nat.one_mul]
  have size : p.publishedBytes (p.g.length-1) ≤ (p.liveSlot n (p.g.length-1)).size := by
    rw [publishedBytes,row]
    split <;> omega
  unfold publish
  rw [sink]
  funext a
  by_cases inside : 0 ≤ a ∧ a < 0+p.publishedBytes (p.g.length-1)
  · have listed : a ∈ List.range (p.liveSlot n (p.g.length-1)).size := List.mem_range.mpr (by omega)
    have place := List.map_inj_left.mp same a listed
    simp only [splice,if_pos inside,Nat.sub_zero]
    exact place
  · simp only [splice,if_neg inside]
    refine along.logits a fun i own => ?_
    obtain rfl := Option.some.inj (sink.symm.trans own)
    omega

theorem Bound.along {mem mem' : Memory β} (bound : p.Bound n p.g.length mem mem') (agree : p.Agree pos s s') :
    p.Along pos n 0 {s with mem:=mem} {s' with mem:=mem'} := by
  refine ⟨fun j attn h head q low d small => ?_,fun j attn h head q low d small => ?_,fun j recurrent => ?_,agree.logits,
    fun j known read => ?_,fun j next' => by omega⟩
  · rw [if_neg (Nat.not_lt_zero j)] at low
    exact agree.k j attn h head q low d small
  · rw [if_neg (Nat.not_lt_zero j)] at low
    exact agree.v j attn h head q low d small
  · rcases agree.state j recurrent with same | restarted
    · exact .inl same
    · exact .inr ⟨Nat.zero_le j,restarted⟩
  · have input := known.resolve_left (Nat.not_lt_zero j)
    exact bound.live j (flagged_lt input) input read

theorem Along.done (along : p.Along pos n p.g.length s s') : p.Agree (pos+n) s s' := by
  refine ⟨fun j attn h head q low d small => ?_,fun j attn h head q low d small => ?_,fun j recurrent => ?_,along.logits⟩
  · exact along.k j attn h head q (by rwa [if_pos (flagged_lt attn)]) d small
  · exact along.v j attn h head q (by rwa [if_pos (flagged_lt attn)]) d small
  · rcases along.state j recurrent with same | ⟨past,_⟩
    · exact .inl same
    · exact absurd (flagged_lt recurrent) past.not_gt

theorem graphCompute_outcome (unwrapped : p.Unwrapped) (addressed : p.Addressed states) (enclosed : p.Enclosed states) (built : WellBuilt p.g)
    (fits : Fits p.g p.c p.nUbatch) {b b' : GraphBatch} (position : b'.pos = b.pos) (rows : b'.n = b.n) (tokens : ∀ t < b.n,b.tokens t = b'.tokens t) (some' : b.n ≠ 0) (upto : b.n ≤ p.nUbatch)
    (agree : p.Agree b.pos s s') :
    p.Outcome b.pos (fun out out' => p.Agree (b.pos+b.n) out out' ∧ out.logits = out'.logits)
      (p.graphCompute fault b s) (p.graphCompute fault b' s') := by
  unfold graphCompute
  rw [position,rows,if_neg some',if_neg some']
  split
  · exact ⟨rfl,fun ended => absurd ended Bool.false_ne_true,fun _ => agree⟩
  · split
    · exact ⟨rfl,fun ended => absurd ended Bool.false_ne_true,fun _ => agree⟩
    · next room =>
      have start : p.Bound b.n 0 s.mem s'.mem :=
        ⟨fun j none' => absurd none' (Nat.not_lt_zero j),fun j none' => absurd none' (Nat.not_lt_zero j)⟩
      obtain ⟨same,bound⟩ := bindInputs_bound built fits rows tokens p.g.length 0 s s' start
      rw [← List.range_eq_range',Nat.zero_add] at bound
      rw [← List.range_eq_range'] at same
      obtain ⟨mem,left⟩ := @bindInputs_spec β K p b (List.range p.g.length) s
      obtain ⟨mem',right⟩ := @bindInputs_spec β K p b' (List.range p.g.length) s'
      generalize p.bindInputs b (List.range p.g.length) s = out at same bound left
      generalize p.bindInputs b' (List.range p.g.length) s' = out' at same bound right
      obtain ⟨s1,ok⟩ := out
      obtain ⟨s1',ok'⟩ := out'
      obtain rfl : s1 = {s with mem:=mem} := left
      obtain rfl : s1' = {s' with mem:=mem'} := right
      obtain rfl : ok = ok' := same
      cases ok with
      | false => exact ⟨rfl,fun ended => absurd ended Bool.false_ne_true,fun _ => ⟨agree.k,agree.v,agree.state,agree.logits⟩⟩
      | true =>
        have inputs := bound rfl
        have small : p.Small b.n := small_of fits upto fun j input => inputs.room j (flagged_lt input) input
        have along := inputs.along agree
        have walked := @computeNodes_outcome β K p states b.pos b.n fault unwrapped addressed enclosed built fits small (Nat.pos_of_ne_zero some')
          (by omega) p.g.length 0 _ _ (Nat.zero_add _) along
        rw [← List.range_eq_range'] at walked
        obtain ⟨same,ended,failed⟩ := walked
        dsimp only
        generalize p.computeNodes fault b.pos b.n (List.range p.g.length) {s with mem:=mem} = out at same ended failed
        generalize p.computeNodes fault b.pos b.n (List.range p.g.length) {s' with mem:=mem'} = out' at same ended failed
        obtain ⟨s2,ok⟩ := out
        obtain ⟨s2',ok'⟩ := out'
        obtain rfl : ok = ok' := same
        cases ok with
        | false => exact ⟨rfl,fun ended => absurd ended Bool.false_ne_true,fun _ => failed rfl⟩
        | true =>
          refine ⟨rfl,fun _ => ?_,fun failed => absurd failed.symm Bool.false_ne_true⟩
          have logits := publish_logits built (ended rfl)
          have agree' := (ended rfl).done
          obtain ⟨l,left,_⟩ := @publish_spec β K p b.n s2
          obtain ⟨l',right,_⟩ := @publish_spec β K p b.n s2'
          dsimp only
          rw [left,right] at logits ⊢
          exact ⟨⟨agree'.k,agree'.v,agree'.state,fun a _ => congrFun logits a⟩,logits⟩

end Walks

end Executor

end TinyLlama.Graph
