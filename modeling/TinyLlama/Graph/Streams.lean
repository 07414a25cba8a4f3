import TinyLlama.Graph.Meaning
import TinyLlama.Graph.Forgotten

namespace TinyLlama.Graph
open Slots Gguf Causal TinyLlama.Sweep

variable {β K : Type}

def nthRow (rows : List β) (w r : Nat) : List β := (rows.drop (r*w)).take w

theorem nthRow_range {n r : Nat} (w : Nat) (bytes : Nat → β) (row : r < n) :
    nthRow ((List.range (n*w)).map bytes) w r = (List.range w).map fun a => bytes (r*w+a) := by
  have room : r*w+w ≤ n*w := by
    rw [← Nat.succ_mul]
    exact Nat.mul_le_mul_right w row
  apply List.ext_getElem
  · simp only [nthRow,List.length_take,List.length_drop,List.length_map,List.length_range]
    omega
  · intro a _ _
    simp only [nthRow,List.getElem_take,List.getElem_drop,List.getElem_map,List.getElem_range]

theorem isSink_read {g : List GraphNode} {i j : Nat} (read : some j ∈ sourcesOf g i) : isSink g j = false := by
  unfold sourcesOf at read
  cases found : g[i]? with
  | none => simp [found] at read
  | some node =>
    rw [Bool.eq_false_iff]
    intro sink
    have free := List.all_eq_true.mp sink node (List.mem_of_getElem? found)
    have taken : node.reads j = true := List.elem_eq_true_of_mem (by simpa [found] using read)
    simp [taken] at free

namespace Executor

section Rows
variable (p : Executor β K)

def width (i : Nat) : Nat := if isInput p.g i then 4 else (outDims p.c p.g).getD i 0*4

def outRow (i r : Nat) (bytes : Nat → β) : List β :=
  (List.range (p.width i)).map fun a => bytes ((if isSink p.g i then 0 else r)*p.width i+a)

def rowsOf (i : Nat) (batch : Nat → List β) (r : Nat) : List (Option (List β)) :=
  (sourcesOf p.g i).map (Option.map fun j => nthRow (batch j) (p.width j) r)

def sources (n i : Nat) (mem : Memory β) : List (Option (List β)) :=
  (sourcesOf p.g i).map (Option.map fun j => contents mem (backendOf p.g j) (p.liveSlot n j))

def seen (i limit : Nat) (m : Nat → K) : Seen K := seenBelow p.c limit fun h s d => m (h*p.stride i+s*p.c.kvHeadDim+d)

variable (M : Meaning β K) (tok : Nat → Nat)

def srcStreams (i : Nat) : List (Option (Stream (List β))) := (sourcesOf p.g i).map (Option.map (M.output p.c tok p.g))

-- Row r of a batch of n at node i: its sources are rows of their streams over ids that are
-- valid, and a node that is not read computes the last row only.
structure Batch (valid : Nat → Prop) (i pos n r : Nat) (batch : Nat → List β) : Prop where
  lengths : ∀ j,some j ∈ sourcesOf p.g i → (batch j).length = n*p.width j
  rows : ∀ q < n,p.rowsOf i batch q = rowsAt (p.srcStreams M tok i) (pos+q)
  valid : ∀ q < pos+n,valid (tok q)
  row : r < n
  last : isSink p.g i = true → r+1 = n
  room : pos+n ≤ p.ctxSize
  upto : n ≤ p.nUbatch

-- The ops compute row after row what the meaning says of a position.
structure Rowwise (valid : Nat → Prop) : Prop where
  ids : ∀ id,(List.range 4).map (p.ops.idByte id) = M.ids id
  fresh : M.fresh = fun _ => p.ops.zero
  source : ∀ i k j n w r x (s : SessionState β K),(sourcesOf p.g i)[k]? = some (some j) → p.batchBytes n j = n*(w*4) → r < n → x < w →
    p.ops.source i k s (r*w+x) = M.floats (nthRow (contents s.mem (backendOf p.g j) (p.liveSlot n j)) (w*4) r) x
  plain : ∀ tok i node pos n r batch (s : SessionState β K),p.g[i]? = some node → isInput p.g i = false → isAttn p.g i = false →
    isRecurrent p.g i = false → p.Batch M tok valid i pos n r batch → p.sources n i s.mem = (sourcesOf p.g i).map (Option.map batch) →
    p.outRow i r (p.ops.plain i pos n s) = M.plain node.op node.weights node.params (pos+r) (p.rowsOf i batch r)
  attend : ∀ tok i node pos n r batch (keys values : Nat → Nat → Nat → K) (s : SessionState β K),p.g[i]? = some node → isAttn p.g i = true →
    p.Batch M tok valid i pos n r batch → p.sources n i s.mem = (sourcesOf p.g i).map (Option.map batch) →
    p.seen i (pos+n) (s.k (handle p.g i)) = seenBelow p.c (pos+n) keys → p.seen i (pos+n) (s.v (handle p.g i)) = seenBelow p.c (pos+n) values →
    p.outRow i r (p.ops.attend i pos n s) =
      M.attend node.params.tail (pos+r) (p.rowsOf i batch r) (seenBelow p.c (pos+r+1) keys) (seenBelow p.c (pos+r+1) values)
  advance : ∀ tok i node pos n r batch (start : Nat → K) (s : SessionState β K),p.g[i]? = some node → isRecurrent p.g i = true →
    p.Batch M tok valid i pos n r batch → p.sources n i s.mem = (sourcesOf p.g i).map (Option.map batch) →
    let run := stateAfter (fun q rows state => (M.advance node.op node.weights node.params.tail (pos+q) rows state).1) start (p.rowsOf i batch)
    let out := p.ops.advance i pos n s start
    out.1 = run n ∧ p.outRow i r out.2 = (M.advance node.op node.weights node.params.tail (pos+r) (p.rowsOf i batch r) (run r)).2

-- No two nodes have one cache, and keys and values are as wide as it.
structure Own : Prop where
  attn : ∀ i j,isAttn p.g i = true → isAttn p.g j = true → handle p.g i = handle p.g j → i = j
  recurrent : ∀ i j,isRecurrent p.g i = true → isRecurrent p.g j = true → handle p.g i = handle p.g j → i = j
  narrow : p.c.nKvHead*p.c.kvHeadDim < 2^32
  wide : ∀ i,isAttn p.g i = true → ∀ k,k = 1 ∨ k = 2 → ∃ j,(sourcesOf p.g i)[k]? = some (some j) ∧ p.width j = p.c.nKvHead*p.c.kvHeadDim*4

-- The key (k = 1) or value (k = 2) that an attention node has of a position.
def heldCell (i k : Nat) : Nat → Nat → Nat → K := M.cell p.c (sourceStream (p.srcStreams M tok i) k)

def heldState (i : Nat) : Nat → Nat → K :=
  ((p.g[i]?).map fun node => M.stateOf node.op node.weights node.params (p.srcStreams M tok i)).getD fun _ => M.fresh

-- The caches hold the streams of the recorded tokens, up to a position.
structure Tracks (pos : Nat) (s : SessionState β K) : Prop where
  k : ∀ i,isAttn p.g i = true → ∀ h < p.c.nKvHead,∀ q < pos,∀ d < p.c.kvHeadDim,
    s.k (handle p.g i) (p.place h q d) = p.heldCell M s.tokens i 1 h q d
  v : ∀ i,isAttn p.g i = true → ∀ h < p.c.nKvHead,∀ q < pos,∀ d < p.c.kvHeadDim,
    s.v (handle p.g i) (p.place h q d) = p.heldCell M s.tokens i 2 h q d
  state : ∀ i,isRecurrent p.g i = true → p.stateAt pos i s = p.heldState M s.tokens i pos

-- Before node i of a walk over a batch at pos: the nodes that are done have the batch in their
-- caches, and what is still to be read lies in the slots.
def Filled (pos n i k : Nat) (m : Nat → Nat → K) : Prop :=
  ∀ j,isAttn p.g j = true → ∀ h < p.c.nKvHead,∀ q < (if j < i then pos+n else pos),∀ d < p.c.kvHeadDim,
    m (handle p.g j) (p.place h q d) = p.heldCell M tok j k h q d

structure Abreast (pos n i : Nat) (s : SessionState β K) : Prop where
  k : p.Filled M tok pos n i 1 s.k
  v : p.Filled M tok pos n i 2 s.v
  done : ∀ j,isRecurrent p.g j = true → j < i → s.state (handle p.g j) = p.heldState M tok j (pos+n)
  ahead : ∀ j,isRecurrent p.g j = true → i ≤ j → p.stateAt pos j s = p.heldState M tok j pos
  live : ∀ j,j < i ∨ isInput p.g j = true → StillRead p.g i j → ∀ r < n,
    nthRow (contents s.mem (backendOf p.g j) (p.liveSlot n j)) (p.width j) r = M.output p.c tok p.g j (pos+r)
  last : ∀ j,j+1 = i → isInput p.g j = false → isSink p.g j = true → ∀ r,r+1 = n →
    contents s.mem (backendOf p.g j) (p.liveSlot n j) = M.output p.c tok p.g j (pos+r)

end Rows

section Steps
variable {p : Executor β K} {M : Meaning β K} {tok : Nat → Nat} {valid : Nat → Prop} {pos n i j r : Nat} {s : SessionState β K}

theorem contents_length (mem : Memory β) (b : BackendType) (c : Slot) : (contents mem b c).length = c.size := by
  rw [contents,List.length_map,List.length_range]

theorem batchBytes_read (read : isSink p.g j = false) : p.batchBytes n j = n*p.width j := by
  unfold batchBytes width
  split
  · rfl
  · rw [if_neg (by simp [read]),Nat.mul_assoc]

theorem batchBytes_sink (node : isInput p.g j = false) (sink : isSink p.g j = true) : p.batchBytes n j = p.width j := by
  have computes : ¬isInput p.g j = true := by simp [node]
  rw [batchBytes,width,if_neg computes,if_neg computes,if_pos sink,Nat.one_mul]

theorem Abreast.rows (abreast : p.Abreast M tok pos n i s) (built : WellBuilt p.g) (node : isInput p.g i = false) (row : r < n) :
    p.rowsOf i (fun j => contents s.mem (backendOf p.g j) (p.liveSlot n j)) r = rowsAt (p.srcStreams M tok i) (pos+r) := by
  rw [rowsOf,rowsAt,srcStreams,List.map_map]
  apply List.map_congr_left
  intro src listed
  cases src with
  | none => rfl
  | some j => exact congrArg some (abreast.live j (.inl (built.back i j listed)) ⟨i,le_rfl,node,listed⟩ r row)

theorem Abreast.batch (abreast : p.Abreast M tok pos n i s) (built : WellBuilt p.g) (node : isInput p.g i = false)
    (known : ∀ q < pos+n,valid (tok q)) (room : pos+n ≤ p.ctxSize) (upto : n ≤ p.nUbatch) (row : r < n) (last : isSink p.g i = true → r+1 = n) :
    p.Batch M tok valid i pos n r fun j => contents s.mem (backendOf p.g j) (p.liveSlot n j) := by
  refine ⟨fun j listed => ?_,fun q below => abreast.rows built node below,known,row,last,room,upto⟩
  rw [contents_length,liveSlot]
  exact batchBytes_read (isSink_read listed)

theorem put_abreast (built : WellBuilt p.g) (fits : Fits p.g p.c p.nUbatch) (small : p.Small n) (below : i < p.g.length)
    (node : isInput p.g i = false) (abreast : p.Abreast M tok pos n i s) (bytes : Nat → β)
    (rows : ∀ r < n,(isSink p.g i = true → r+1 = n) → p.outRow i r bytes = M.output p.c tok p.g i (pos+r)) :
    (∀ j,j < i+1 ∨ isInput p.g j = true → StillRead p.g (i+1) j → ∀ r < n,
      nthRow (contents (p.put n i bytes s.mem) (backendOf p.g j) (p.liveSlot n j)) (p.width j) r = M.output p.c tok p.g j (pos+r)) ∧
    ∀ j,j+1 = i+1 → isInput p.g j = false → isSink p.g j = true → ∀ r,r+1 = n →
      contents (p.put n i bytes s.mem) (backendOf p.g j) (p.liveSlot n j) = M.output p.c tok p.g j (pos+r) := by
  refine ⟨fun j known read r row => ?_,fun j next' _ sink r last => ?_⟩
  · by_cases same : j = i
    · subst same
      obtain ⟨_,_,_,listed⟩ := read
      have unsunk := isSink_read listed
      rw [← rows r row fun sink => absurd (unsunk.symm.trans sink) Bool.false_ne_true,put,contents_overwrite,liveSlot,batchBytes_read unsunk,
        nthRow_range _ _ row,outRow,if_neg (by simp [unsunk])]
    · have earlier : j < i := by
        cases known with
        | inl low => omega
        | inr input => exact built.input_lt below input node
      have late := read.late
      have apart : backendOf p.g j = backendOf p.g i → Apart (p.liveSlot n j) (p.liveSlot n i) :=
        liveSlot_apart fits (small j (earlier.trans below)) (small i below) earlier below (by omega)
      rw [put,contents_frame _ _ apart]
      obtain ⟨reader,low,reads,listed⟩ := read
      exact abreast.live j (.inl earlier) ⟨reader,by omega,reads,listed⟩ r row
  · obtain rfl : j = i := by omega
    rw [← rows r (by omega) fun _ => last,put,contents_overwrite,liveSlot,batchBytes_sink node sink,outRow,if_pos sink,Nat.zero_mul]
    simp only [Nat.zero_add]

theorem heldState_node {node : GraphNode} (there : p.g[i]? = some node) :
    p.heldState M tok i = M.stateOf node.op node.weights node.params (p.srcStreams M tok i) := by
  rw [heldState,there]
  rfl

theorem output_stream (built : WellBuilt p.g) {node : GraphNode} (there : p.g[i]? = some node) :
    M.output p.c tok p.g i = M.stream p.c tok node.op node.weights node.params (p.srcStreams M tok i) := by
  have sources : sourcesOf p.g i = node.src := by
    rw [sourcesOf,there]
    rfl
  rw [srcStreams,sources]
  exact output_node there fun j listed => built.back i j (sources ▸ listed)

theorem output_attend (built : WellBuilt p.g) {node : GraphNode} (there : p.g[i]? = some node) (attn : isAttn p.g i = true) (q : Nat) :
    M.output p.c tok p.g i q = M.attend node.params.tail q (rowsAt (p.srcStreams M tok i) q) (seenBelow p.c (q+1) (p.heldCell M tok i 1))
      (seenBelow p.c (q+1) (p.heldCell M tok i 2)) := by
  have op : node.op = .attn := by
    rw [isAttn,there] at attn
    exact of_decide_eq_true attn
  rw [output_stream built there,Meaning.stream,if_neg (by rw [op]; decide),if_pos op]
  rfl

theorem output_advance (built : WellBuilt p.g) {node : GraphNode} (there : p.g[i]? = some node) (recurrent : isRecurrent p.g i = true) (q : Nat) :
    M.output p.c tok p.g i q =
      (M.advance node.op node.weights node.params.tail q (rowsAt (p.srcStreams M tok i) q) (p.heldState M tok i q)).2 := by
  have op : node.op.recurrent = true := by
    rw [isRecurrent,there] at recurrent
    exact recurrent
  have input : node.op ≠ .input := by
    intro same
    rw [same] at op
    cases op
  have attn : node.op ≠ .attn := by
    intro same
    rw [same] at op
    cases op
  rw [output_stream built there,Meaning.stream,if_neg input,if_neg attn,if_pos op,heldState_node there]

theorem output_plain (built : WellBuilt p.g) {node : GraphNode} (there : p.g[i]? = some node) (computes : isInput p.g i = false)
    (attn : isAttn p.g i = false) (recurrent : isRecurrent p.g i = false) (q : Nat) :
    M.output p.c tok p.g i q = M.plain node.op node.weights node.params q (rowsAt (p.srcStreams M tok i) q) := by
  rw [isInput,there] at computes
  rw [isAttn,there] at attn
  rw [isRecurrent,there] at recurrent
  have plain : ¬node.op.recurrent = true := by
    intro op
    exact absurd (recurrent.symm.trans op) Bool.false_ne_true
  rw [output_stream built there,Meaning.stream,if_neg (of_decide_eq_false computes),if_neg (of_decide_eq_false attn),if_neg plain]

theorem filled_write (own : p.Own) (unwrapped : p.Unwrapped) (rowwise : p.Rowwise M valid) (built : WellBuilt p.g) (node : isInput p.g i = false)
    (abreast : p.Abreast M tok pos n i s) (room : pos+n ≤ p.ctxSize) (attn : isAttn p.g i = true) {k : Nat} (which : k = 1 ∨ k = 2)
    {m : Nat → Nat → K} (filled : p.Filled M tok pos n i k m) :
    ∀ h < p.c.nKvHead,∀ q < pos+n,∀ d < p.c.kvHeadDim,
      Cpu.kvWrite (attnConfig p.c) (p.stride i) pos n (p.ops.source i k s) (m (handle p.g i))
        (p.place h q d) = p.heldCell M tok i k h q d := by
  intro h head q low d small
  rw [place,Cpu.kvWrite_cell (unwrapped.strides attn) room head (by omega) small]
  by_cases late : pos ≤ q
  · obtain ⟨j,source,wide⟩ := own.wide i attn k which
    have listed : some j ∈ sourcesOf p.g i := List.mem_of_getElem? source
    have stream : sourceStream (p.srcStreams M tok i) k = M.output p.c tok p.g j := by
      rw [sourceStream,srcStreams,List.getD_eq_getElem?_getD,List.getElem?_map,source]
      rfl
    have length : p.batchBytes n j = n*(p.c.nKvHead*p.c.kvHeadDim*4) := by
      rw [← wide]
      exact batchBytes_read (isSink_read listed)
    have inside : h*p.c.kvHeadDim+d < p.c.nKvHead*p.c.kvHeadDim := by
      have step := Nat.mul_le_mul_right p.c.kvHeadDim (Nat.succ_le_of_lt head)
      rw [Nat.succ_mul] at step
      omega
    have live := abreast.live j (.inl (built.back i j listed)) ⟨i,le_rfl,node,listed⟩ (q-pos) (by omega)
    have dim : (attnConfig p.c).kvDim = p.c.nKvHead*p.c.kvHeadDim := Nat.mod_eq_of_lt own.narrow
    have float := rowwise.source i k j n _ (q-pos) _ s source length (by omega) inside
    rw [← wide,live,Nat.add_sub_cancel' late] at float
    rw [if_pos ⟨late,low⟩,dim,Nat.add_assoc,heldCell,Meaning.cell,stream]
    exact float
  · rw [if_neg (by omega)]
    exact filled i attn h head q (by rw [if_neg (lt_irrefl i)]; omega) d small

theorem Filled.skip {k : Nat} {m : Nat → Nat → K} (filled : p.Filled M tok pos n i k m) (other : isAttn p.g i = false) :
    p.Filled M tok pos n (i+1) k m := by
  intro j attn h head q low d small
  have apart : j ≠ i := by
    rintro rfl
    exact absurd (other.symm.trans attn) Bool.false_ne_true
  refine filled j attn h head q ?_ d small
  split at low <;> split <;> omega

theorem Filled.write {k : Nat} {m : Nat → Nat → K} (filled : p.Filled M tok pos n i k m) (own : p.Own) (attn : isAttn p.g i = true)
    {cache : Nat → K} (written : ∀ h < p.c.nKvHead,∀ q < pos+n,∀ d < p.c.kvHeadDim,cache (p.place h q d) = p.heldCell M tok i k h q d) :
    p.Filled M tok pos n (i+1) k (Function.update m (handle p.g i) cache) := by
  intro j attn' h head q low d small
  by_cases same : handle p.g j = handle p.g i
  · obtain rfl := own.attn j i attn' attn same
    rw [Function.update_self]
    exact written h head q (by split at low <;> omega) d small
  · rw [Function.update_of_ne same]
    have apart : j ≠ i := fun eq => same (congrArg (handle p.g) eq)
    refine filled j attn' h head q ?_ d small
    split at low <;> split <;> omega

theorem seen_held (unwrapped : p.Unwrapped) (attn : isAttn p.g i = true) {limit k : Nat} {m : Nat → K}
    (held : ∀ h < p.c.nKvHead,∀ q < limit,∀ d < p.c.kvHeadDim,m (p.place h q d) = p.heldCell M tok i k h q d) :
    p.seen i limit m = seenBelow p.c limit (p.heldCell M tok i k) := by
  change seenBelow p.c limit (fun h q d => m (h*p.stride i+q*p.c.kvHeadDim+d)) = _
  apply seenBelow_congr
  intro h head q low d small
  have place : h*p.stride i+q*p.c.kvHeadDim+d = p.place h q d := Cpu.cell_place (unwrapped.strides attn) head q d
  rw [place]
  exact held h head q low d small

theorem opCompute_abreast (own : p.Own) (unwrapped : p.Unwrapped) (rowwise : p.Rowwise M valid) (built : WellBuilt p.g)
    (known : ∀ q < pos+n,valid (tok q)) (fits : Fits p.g p.c p.nUbatch) (small : p.Small n) (some' : n ≠ 0) (upto : n ≤ p.nUbatch) (room : pos+n ≤ p.ctxSize)
    (below : i < p.g.length) (node : isInput p.g i = false) (abreast : p.Abreast M tok pos n i s) :
    p.Abreast M tok pos n (i+1) (p.opCompute pos n i s) := by
  have there : p.g[i]? = some p.g[i] := List.getElem?_eq_getElem below
  have rows (r : Nat) (row : r < n) := abreast.rows built node row
  have batch (r : Nat) (row : r < n) (last : isSink p.g i = true → r+1 = n) := abreast.batch built node known room upto row last
  have kept : ∀ j,isRecurrent p.g j = true → isRecurrent p.g i = false → j < i+1 → j < i := by
    intro j recurrent other low
    refine Nat.lt_of_le_of_ne (Nat.le_of_lt_succ low) ?_
    rintro rfl
    exact absurd (other.symm.trans recurrent) Bool.false_ne_true
  unfold opCompute
  by_cases attn : isAttn p.g i = true
  · rw [if_pos attn]
    have other := attn_not_recurrent attn
    have keys := filled_write own unwrapped rowwise built node abreast room attn (.inl rfl) abreast.k
    have values := filled_write own unwrapped rowwise built node abreast room attn (.inr rfl) abreast.v
    have cells {k : Nat} {m : Nat → K} (held : ∀ h < p.c.nKvHead,∀ q < pos+n,∀ d < p.c.kvHeadDim,m (p.place h q d) = p.heldCell M tok i k h q d)
        (l : Nat → Nat → K) : p.seen i (pos+n) (Function.update l (handle p.g i) m (handle p.g i)) = seenBelow p.c (pos+n) (p.heldCell M tok i k) := by
      rw [Function.update_self]
      exact seen_held unwrapped attn held
    obtain ⟨live,last⟩ := put_abreast built fits small below node abreast (p.ops.attend i pos n (p.cached pos n i s)) fun r row last => by
      rw [output_attend built there attn,← rows r row]
      exact rowwise.attend tok i _ pos n r _ _ _ (p.cached pos n i s) there attn (batch r row last) rfl (cells keys s.k) (cells values s.v)
    exact ⟨abreast.k.write own attn keys,abreast.v.write own attn values,fun j recurrent low => abreast.done j recurrent (kept j recurrent other low),
      fun j recurrent late => abreast.ahead j recurrent (by omega),live,last⟩
  · have other : isAttn p.g i = false := by simpa using attn
    rw [if_neg attn]
    by_cases recurrent : isRecurrent p.g i = true
    · rw [if_pos recurrent]
      have start := abreast.ahead i recurrent le_rfl
      have computed (r : Nat) (row : r < n) (last : isSink p.g i = true → r+1 = n) :=
        rowwise.advance tok i _ pos n r _ (p.stateAt pos i s) s there recurrent (batch r row last) rfl
      have reached (r : Nat) (upto : r ≤ n) : stateAfter (fun q rows state => (M.advance p.g[i].op p.g[i].weights p.g[i].params.tail (pos+q) rows state).1)
          (p.stateAt pos i s) (p.rowsOf i fun j => contents s.mem (backendOf p.g j) (p.liveSlot n j)) r = p.heldState M tok i (pos+r) := by
        rw [start,heldState_node there,Meaning.stateOf,stateAfter_add]
        exact stateAfter_upto fun q low => rows q (by omega)
      unfold opRecurrent
      dsimp only
      obtain ⟨live,last⟩ := put_abreast built fits small below node abreast (p.ops.advance i pos n s (p.stateAt pos i s)).2
        fun r row last => by
          rw [output_advance built there recurrent,← rows r row,← reached r row.le]
          exact (computed r row last).2
      refine ⟨abreast.k.skip other,abreast.v.skip other,fun j mine low => ?_,fun j mine late => ?_,live,last⟩
      · by_cases same : handle p.g j = handle p.g i
        · obtain rfl := own.recurrent j i mine recurrent same
          dsimp only
          rw [Function.update_self,← reached n le_rfl]
          exact (computed (n-1) (by omega) fun _ => by omega).1
        · dsimp only
          rw [Function.update_of_ne same]
          refine abreast.done j mine (Nat.lt_of_le_of_ne (Nat.le_of_lt_succ low) ?_)
          rintro rfl
          exact same rfl
      · have apart : handle p.g j ≠ handle p.g i := by
          intro same
          have := own.recurrent j i mine recurrent same
          omega
        have before := abreast.ahead j mine (by omega)
        unfold stateAt at before ⊢
        dsimp only
        rwa [Function.update_of_ne apart]
    · rw [if_neg recurrent]
      have unstated : isRecurrent p.g i = false := by simpa using recurrent
      unfold opPlain
      obtain ⟨live,last⟩ := put_abreast built fits small below node abreast (p.ops.plain i pos n s)
        fun r row last => by
          rw [output_plain built there node other unstated,← rows r row]
          exact rowwise.plain tok i _ pos n r _ s there node other unstated (batch r row last) rfl
      exact ⟨abreast.k.skip other,abreast.v.skip other,fun j mine low => abreast.done j mine (kept j mine unstated low),
        fun j mine late => abreast.ahead j mine (by omega),live,last⟩

theorem Abreast.skip (abreast : p.Abreast M tok pos n i s) (input : isInput p.g i = true) : p.Abreast M tok pos n (i+1) s := by
  obtain ⟨attn,recurrent⟩ := input_computes_nothing input
  refine ⟨abreast.k.skip attn,abreast.v.skip attn,fun j mine low => abreast.done j mine ?_,fun j mine late => abreast.ahead j mine (by omega),
    fun j known read => ?_,fun j next' node => ?_⟩
  · refine Nat.lt_of_le_of_ne (Nat.le_of_lt_succ low) ?_
    rintro rfl
    exact absurd (recurrent.symm.trans mine) Bool.false_ne_true
  · obtain ⟨reader,low,reads,listed⟩ := read
    refine abreast.live j ?_ ⟨reader,by omega,reads,listed⟩
    cases known with
    | inl below =>
      by_cases same : j = i
      · exact .inr (same ▸ input)
      · exact .inl (by omega)
    | inr input' => exact .inr input'
  · obtain rfl : j = i := by omega
    exact absurd (node.symm.trans input) Bool.false_ne_true

theorem computeNodes_abreast (own : p.Own) (unwrapped : p.Unwrapped) (rowwise : p.Rowwise M valid) (built : WellBuilt p.g)
    (known : ∀ q < pos+n,valid (tok q)) (fits : Fits p.g p.c p.nUbatch) (small : p.Small n) (some' : n ≠ 0) (upto : n ≤ p.nUbatch) (room : pos+n ≤ p.ctxSize)
    {fault : Nat → Option (Fault β K)} (len : Nat) : ∀ i (s : SessionState β K),i+len = p.g.length → p.Abreast M tok pos n i s →
      (p.computeNodes fault pos n (List.range' i len) s).2 = true →
        p.Abreast M tok pos n p.g.length (p.computeNodes fault pos n (List.range' i len) s).1 := by
  induction len with
  | zero =>
    intro i s whole abreast _
    rw [Nat.add_zero] at whole
    exact whole ▸ abreast
  | succ len ih =>
    intro i s whole abreast ended
    have step : (p.computeNode fault pos n i s).2 = true → p.Abreast M tok pos n (i+1) (p.computeNode fault pos n i s).1 := by
      unfold computeNode
      intro ended
      by_cases input : isInput p.g i = true
      · rw [if_pos input]
        exact abreast.skip input
      · rw [if_neg input] at ended ⊢
        split at ended
        · cases ended
        · next sized =>
          rw [if_neg sized]
          cases found : fault i with
          | some _ =>
            rw [found] at ended
            cases ended
          | none => exact opCompute_abreast own unwrapped rowwise built known fits small some' upto room (by omega) (by simpa using input) abreast
    rw [List.range'_succ,computeNodes] at ended ⊢
    generalize p.computeNode fault pos n i s = out at step ended ⊢
    obtain ⟨s',ok⟩ := out
    cases ok with
    | true => exact ih (i+1) s' (by omega) (step rfl) ended
    | false => cases ended

-- The inputs that are bound hold the batch's ids where a node reads them.
structure Fed (p : Executor β K) (M : Meaning β K) (tok : Nat → Nat) (pos n i : Nat) (mem : Memory β) : Prop where
  live : ∀ j < i,isInput p.g j = true → StillRead p.g 0 j → ∀ r < n,
    nthRow (contents mem (backendOf p.g j) (p.liveSlot n j)) (p.width j) r = M.ids (tok (pos+r))
  room : ∀ j < i,isInput p.g j = true → n ≤ capacity p.g j

theorem Fed.bind {mem : Memory β} (fed : p.Fed M tok pos n i mem) (rowwise : p.Rowwise M valid) (built : WellBuilt p.g)
    (fits : Fits p.g p.c p.nUbatch) (input : isInput p.g i = true) (room : n ≤ capacity p.g i) {ids : Nat → Nat}
    (tokens : ∀ t < n,ids t = tok (pos+t)) :
    p.Fed M tok pos n (i+1) (p.put n i (fun a => p.ops.idByte (ids (a/4)) (a%4)) mem) := by
  refine ⟨fun j low input' read r row => ?_,fun j low input' => ?_⟩
  · by_cases here : j = i
    · subst here
      have wide : p.width j = 4 := by rw [width,if_pos input]
      have size : p.batchBytes n j = n*4 := by rw [batchBytes,if_pos input]
      rw [put,contents_overwrite,liveSlot,size,wide,nthRow_range 4 _ row,← rowwise.ids,← tokens r row]
      apply List.map_congr_left
      intro a member
      have small := List.mem_range.mp member
      rw [show (r*4+a)/4 = r by omega,show (r*4+a)%4 = a by omega]
    · have earlier : j < i := by omega
      have late : i ≤ release p.g j := by
        obtain ⟨reader,_,reads,listed⟩ := read
        have below : reader < p.g.length := by
          by_contra past
          rw [sourcesOf,List.getElem?_eq_none_iff.mpr (not_lt.mp past)] at listed
          cases listed
        have after := built.input_lt below input reads
        exact after.le.trans (StillRead.late ⟨reader,le_rfl,reads,listed⟩)
      have apart : backendOf p.g j = backendOf p.g i → Apart (p.liveSlot n j) (p.liveSlot n i) :=
        liveSlot_apart fits (input_small fits input' (fed.room j earlier input')) (input_small fits input room) earlier (flagged_lt input) late
      rw [put,contents_frame _ _ apart]
      exact fed.live j earlier input' read r row
  · by_cases here : j = i
    · rwa [here]
    · exact fed.room j (by omega) input'

theorem bindInputs_fed (rowwise : p.Rowwise M valid) (built : WellBuilt p.g) (fits : Fits p.g p.c p.nUbatch) {b : GraphBatch}
    (tokens : ∀ t < b.n,b.tokens t = tok (pos+t)) (len : Nat) : ∀ i (s : SessionState β K),p.Fed M tok pos b.n i s.mem →
      (p.bindInputs b (List.range' i len) s).2 = true → p.Fed M tok pos b.n (i+len) (p.bindInputs b (List.range' i len) s).1.mem := by
  induction len with
  | zero => exact fun i s fed _ => fed
  | succ len ih =>
    intro i s fed ended
    rw [List.range'_succ] at ended ⊢
    unfold bindInputs at ended ⊢
    rw [show i+(len+1) = i+1+len by omega]
    by_cases input : isInput p.g i = true
    · rw [if_pos input] at ended ⊢
      by_cases room : b.n > capacity p.g i
      · rw [if_pos room] at ended
        cases ended
      · rw [if_neg room] at ended ⊢
        exact ih (i+1) _ (fed.bind rowwise built fits input (not_lt.mp room) tokens) ended
    · rw [if_neg input] at ended ⊢
      have other (j : Nat) (low : j < i+1) (input' : isInput p.g j = true) : j < i :=
        Nat.lt_of_le_of_ne (by omega) fun eq => input (eq ▸ input')
      exact ih (i+1) s ⟨fun j low input' => fed.live j (other j low input') input',fun j low input' => fed.room j (other j low input') input'⟩ ended

theorem Fed.abreast {mem : Memory β} (fed : p.Fed M tok pos n p.g.length mem) (built : WellBuilt p.g) (same : tok = s.tokens)
    (tracks : p.Tracks M pos s) : p.Abreast M tok pos n 0 {s with mem:=mem} := by
  subst same
  refine ⟨fun j attn h head q low d small => ?_,fun j attn h head q low d small => ?_,fun j _ none' => absurd none' (Nat.not_lt_zero j),
    fun j recurrent _ => tracks.state j recurrent,fun j known read r row => ?_,fun j next' => absurd next' (Nat.succ_ne_zero j)⟩
  · rw [if_neg (Nat.not_lt_zero j)] at low
    exact tracks.k j attn h head q low d small
  · rw [if_neg (Nat.not_lt_zero j)] at low
    exact tracks.v j attn h head q low d small
  · have input := known.resolve_left (Nat.not_lt_zero j)
    have below := flagged_lt input
    have op : p.g[j].op = .input := by
      rw [isInput,List.getElem?_eq_getElem below] at input
      exact of_decide_eq_true input
    rw [output_stream built (List.getElem?_eq_getElem below),Meaning.stream,if_pos op]
    exact fed.live j below input read r row

theorem Abreast.done_tracks (abreast : p.Abreast M tok pos n p.g.length s) (some' : n ≠ 0) (same : tok = s.tokens) : p.Tracks M (pos+n) s := by
  subst same
  refine ⟨fun j attn h head q low d small => ?_,fun j attn h head q low d small => ?_,fun j recurrent => ?_⟩
  · exact abreast.k j attn h head q (by rwa [if_pos (flagged_lt attn)]) d small
  · exact abreast.v j attn h head q (by rwa [if_pos (flagged_lt attn)]) d small
  · rw [stateAt,if_neg (by omega)]
    exact abreast.done j recurrent (flagged_lt recurrent)

theorem publish_tells (built : WellBuilt p.g) (abreast : p.Abreast M tok pos n p.g.length s) {r : Nat} (last : r+1 = n) :
    (List.range (p.publishedBytes (p.g.length-1))).map (p.publish n s).logits =
      (M.output p.c tok p.g (p.g.length-1) (pos+r)).take (p.publishedBytes (p.g.length-1)) := by
  obtain ⟨some',node,sink⟩ := built.last_node
  have row := abreast.last (p.g.length-1) (by omega) node sink r last
  have wide : p.publishedBytes (p.g.length-1) ≤ p.width (p.g.length-1) := by
    have computes : ¬isInput p.g (p.g.length-1) = true := by simp [node]
    rw [publishedBytes,width,if_neg computes]
    split <;> omega
  rw [← row,contents,liveSlot,batchBytes_sink node sink,← List.map_take,List.take_range,Nat.min_eq_left wide]
  apply List.map_congr_left
  intro a member
  have inside := List.mem_range.mp member
  unfold publish
  rw [sinkNode_last built]
  simp only [splice,Nat.zero_le,Nat.zero_add,inside,and_self,if_true,Nat.sub_zero,liveSlot]

end Steps

section Calls
variable {p : Executor β K} {M : Meaning β K} {tok tok' : Nat → Nat} {valid : Nat → Prop} {pos i : Nat} {s : SessionState β K} {call : Call β K}

theorem srcStreams_upto {q : Nat} (tokens : ∀ r ≤ q,tok r = tok' r) (i : Nat) :
    List.Forall₂ (Option.Rel (Upto q)) (p.srcStreams M tok i) (p.srcStreams M tok' i) := by
  rw [srcStreams,srcStreams,List.forall₂_map_left_iff,List.forall₂_map_right_iff]
  refine List.forall₂_same.mpr fun src _ => ?_
  cases src with
  | none => exact .none
  | some j => exact .some (output_upto tokens j)

theorem heldCell_upto {q : Nat} (tokens : ∀ r ≤ q,tok r = tok' r) (i k h d : Nat) : p.heldCell M tok i k h q d = p.heldCell M tok' i k h q d := by
  rw [heldCell,heldCell,Meaning.cell,Meaning.cell,sourceStream_upto (srcStreams_upto tokens i) k q le_rfl]

theorem heldState_upto (tokens : ∀ r < pos,tok r = tok' r) (i : Nat) : p.heldState M tok i pos = p.heldState M tok' i pos := by
  unfold heldState
  cases p.g[i]? with
  | none => rfl
  | some node =>
    exact stateAfter_upto fun q low => rowsAt_upto (srcStreams_upto (fun r upto => tokens r (upto.trans_lt low)) i)

theorem Tracks.congr {s' : SessionState β K} (tracks : p.Tracks M pos s) (k : s'.k = s.k) (v : s'.v = s.v) (state : s'.state = s.state)
    (tokens : ∀ r < pos,s.tokens r = s'.tokens r) : p.Tracks M pos s' := by
  refine ⟨fun j attn h head q low d small => ?_,fun j attn h head q low d small => ?_,fun j recurrent => ?_⟩
  · rw [k,tracks.k j attn h head q low d small]
    exact heldCell_upto (fun r upto => tokens r (upto.trans_lt low)) j 1 h d
  · rw [v,tracks.v j attn h head q low d small]
    exact heldCell_upto (fun r upto => tokens r (upto.trans_lt low)) j 2 h d
  · have same := tracks.state j recurrent
    unfold stateAt at same ⊢
    rw [state,same]
    exact heldState_upto tokens j

-- What a call of graph_execute relies on.
structure Ready (p : Executor β K) (M : Meaning β K) (valid : Nat → Prop) : Prop where
  own : p.Own
  unwrapped : p.Unwrapped
  rowwise : p.Rowwise M valid
  built : WellBuilt p.g
  fits : Fits p.g p.c p.nUbatch

-- The published logits, and what the meaning says of the last node at a position.
def Tells (p : Executor β K) (M : Meaning β K) (tok : Nat → Nat) (q : Nat) (logits : Nat → β) : Prop :=
  (List.range (p.publishedBytes (p.g.length-1))).map logits = (M.output p.c tok p.g (p.g.length-1) q).take (p.publishedBytes (p.g.length-1))

theorem graphCompute_tracks (ready : p.Ready M valid) {fault : Nat → Option (Fault β K)} {b : GraphBatch} (some' : b.n ≠ 0) (upto : b.n ≤ p.nUbatch)
    (tokens : ∀ t < b.n,b.tokens t = s.tokens (b.pos+t)) (known : ∀ q < b.pos+b.n,valid (s.tokens q)) (tracks : p.Tracks M b.pos s) (ended : (p.graphCompute fault b s).2 = true) :
    p.Tracks M (b.pos+b.n) (p.graphCompute fault b s).1 ∧ p.Tells M s.tokens (b.pos+b.n-1) (p.graphCompute fault b s).1.logits := by
  obtain ⟨own,unwrapped,rowwise,built,fits⟩ := ready
  unfold graphCompute at ended ⊢
  rw [if_neg some'] at ended ⊢
  split at ended
  · cases ended
  · next nonempty =>
    split at ended
    · cases ended
    · next room =>
      rw [if_neg nonempty,if_neg room]
      have fed := @bindInputs_fed β K p M s.tokens valid b.pos rowwise built fits b tokens p.g.length 0 s
        ⟨fun j none' => absurd none' (Nat.not_lt_zero j),fun j none' => absurd none' (Nat.not_lt_zero j)⟩
      rw [← List.range_eq_range',Nat.zero_add] at fed
      obtain ⟨mem,bound⟩ := @bindInputs_spec β K p b (List.range p.g.length) s
      generalize p.bindInputs b (List.range p.g.length) s = out at ended fed bound ⊢
      obtain ⟨s1,ok⟩ := out
      obtain rfl : s1 = {s with mem:=mem} := bound
      cases ok with
      | false => cases ended
      | true =>
        have inputs := fed rfl
        have small : p.Small b.n := small_of fits upto fun j input => inputs.room j (flagged_lt input) input
        have walked := @computeNodes_abreast β K p M s.tokens valid b.pos b.n own unwrapped rowwise built known fits small some' upto (by omega) fault
          p.g.length 0 _ (Nat.zero_add _) (inputs.abreast built rfl tracks)
        have framed := @computeNodes_framed β K p b.pos b.n b.pos fault unwrapped le_rfl (by omega) (List.range p.g.length) {s with mem:=mem}
        rw [← List.range_eq_range'] at walked
        dsimp only at ended ⊢
        generalize p.computeNodes fault b.pos b.n (List.range p.g.length) {s with mem:=mem} = out at ended walked framed ⊢
        obtain ⟨s2,ok⟩ := out
        cases ok with
        | false => cases ended
        | true =>
          have abreast := walked rfl
          have kept : s2.tokens = s.tokens := framed.tokens
          have tells := publish_tells (r:=b.n-1) built abreast (by omega)
          obtain ⟨logits,published,_⟩ := @publish_spec β K p b.n s2
          dsimp only
          rw [published] at tells ⊢
          refine ⟨(abreast.done_tracks some' kept.symm).congr rfl rfl rfl fun _ _ => rfl,?_⟩
          rw [← Nat.add_sub_assoc (Nat.pos_of_ne_zero some')] at tells
          exact tells

theorem microBatch_tracks (ready : p.Ready M valid) (some' : p.nUbatch ≠ 0) (j done : Nat) (more : done < call.nTokens)
    (before : ∀ q < pos+done,valid (s.tokens q)) (own : ∀ t < call.nTokens,valid (call.tokens t)) (tracks : p.Tracks M (pos+done) s)
    (ended : (p.microBatch call pos j done s).2 = true) :
    p.Tracks M (pos+(done+p.chunkSize call done)) (p.microBatch call pos j done s).1 ∧
      p.Tells M (p.microBatch call pos j done s).1.tokens (pos+(done+p.chunkSize call done)-1) (p.microBatch call pos j done s).1.logits := by
  have size : p.chunkSize call done ≠ 0 ∧ p.chunkSize call done ≤ p.nUbatch ∧ done+p.chunkSize call done ≤ call.nTokens := by
    unfold chunkSize
    split <;> omega
  have tokens := @microBatch_tokens β K p call ready.unwrapped pos j done s
  rw [tokens,← Nat.add_assoc]
  refine graphCompute_tracks ready size.1 size.2.1 (fun t below => rfl) (fun q below => ?_) ?_ ended
  · dsimp only at below ⊢
    rw [splice]
    split
    · exact own _ (by omega)
    · exact before q (by omega)
  refine tracks.congr rfl rfl rfl fun r low => ?_
  have before : ¬(pos+done ≤ r ∧ r < pos+done+p.chunkSize call done) := by omega
  exact (if_neg before).symm

theorem chunks_tracks (ready : p.Ready M valid) (some' : p.nUbatch ≠ 0) (own : ∀ t < call.nTokens,valid (call.tokens t)) (fuel : Nat) : ∀ j done (s : SessionState β K),
    done ≤ call.nTokens → call.nTokens-done ≤ fuel → (∀ q < pos+done,valid (s.tokens q)) → p.Tracks M (pos+done) s →
      (call.nTokens ≤ done → p.Tells M s.tokens (pos+done-1) s.logits) → (p.chunks call pos fuel j done s).2 = true →
        p.Tracks M (pos+call.nTokens) (p.chunks call pos fuel j done s).1 ∧
        p.Tells M (p.chunks call pos fuel j done s).1.tokens (pos+call.nTokens-1) (p.chunks call pos fuel j done s).1.logits ∧
        ∀ t < pos+call.nTokens,(p.chunks call pos fuel j done s).1.tokens t = if pos+done ≤ t then call.tokens (t-pos) else s.tokens t := by
  induction fuel with
  | zero =>
    intro j done s upto enough _ tracks tells _
    obtain rfl : done = call.nTokens := by omega
    exact ⟨tracks,tells le_rfl,fun t below => (if_neg (not_le.mpr below)).symm⟩
  | succ fuel ih =>
    intro j done s upto enough before tracks tells ended
    rw [chunks] at ended ⊢
    by_cases more : done < call.nTokens
    · rw [if_pos more] at ended ⊢
      have size : p.chunkSize call done ≠ 0 ∧ done+p.chunkSize call done ≤ call.nTokens := by
        unfold chunkSize
        split <;> omega
      have walked := @microBatch_tracks β K p M valid pos s call ready some' j done more before own tracks
      have tokens := @microBatch_tokens β K p call ready.unwrapped pos j done s
      generalize p.microBatch call pos j done s = out at ended walked tokens ⊢
      obtain ⟨s1,ok⟩ := out
      cases ok with
      | false => cases ended
      | true =>
        obtain ⟨tracks',tells'⟩ := walked rfl
        have known : ∀ q < pos+(done+p.chunkSize call done),valid (s1.tokens q) := by
          intro q below
          rw [show s1.tokens q = _ from congrFun tokens q,splice]
          split
          · exact own _ (by omega)
          · exact before q (by omega)
        obtain ⟨last,logits,ids⟩ := ih (j+1) _ s1 size.2 (by omega) known tracks' (fun _ => tells') ended
        refine ⟨last,logits,fun t below => ?_⟩
        rw [ids t below]
        have own : s1.tokens t = _ := congrFun tokens t
        split
        · next late => rw [if_pos (by omega)]
        · next early =>
          rw [own,splice]
          by_cases mine : pos+done ≤ t
          · rw [if_pos (by omega),if_pos mine]
            congr 1
            omega
          · rw [if_neg (by omega),if_neg mine]
    · rw [if_neg more]
      obtain rfl : done = call.nTokens := by omega
      exact ⟨tracks,tells le_rfl,fun t below => (if_neg (not_le.mpr below)).symm⟩

theorem graphExecute_tells (ready : p.Ready M valid) (own : ∀ t < call.nTokens,valid (call.tokens t)) (known : ∀ q < s.nTokens,valid (s.tokens q))
    (tracks : p.Tracks M s.nTokens s) (ended : (p.graphExecute call s).2 = true) :
    p.Tracks M (p.graphExecute call s).1.nTokens (p.graphExecute call s).1 ∧
    p.Tells M (p.graphExecute call s).1.tokens ((p.graphExecute call s).1.nTokens-1) (p.graphExecute call s).1.logits ∧
    (p.graphExecute call s).1.nTokens = s.nTokens+call.nTokens ∧ s.nTokens+call.nTokens ≤ p.ctxSize ∧
    ∀ t < s.nTokens+call.nTokens,(p.graphExecute call s).1.tokens t = if s.nTokens ≤ t then call.tokens (t-s.nTokens) else s.tokens t := by
  unfold graphExecute at ended ⊢
  split at ended
  · cases ended
  · next some' =>
    split at ended
    · cases ended
    · next room =>
      rw [if_neg some',if_neg room]
      have walked := @chunks_tracks β K p M valid s.nTokens call ready (fun none' => some' (.inr none')) own call.nTokens 0 0 s (Nat.zero_le _)
        (Nat.sub_le _ _) known tracks fun none' => absurd (Nat.le_zero.mp none') fun none' => some' (.inl none')
      generalize p.chunks call s.nTokens call.nTokens 0 0 s = out at ended walked ⊢
      obtain ⟨s1,ok⟩ := out
      cases ok with
      | false => cases ended
      | true =>
        obtain ⟨tracks',tells,ids⟩ := walked rfl
        exact ⟨tracks'.congr rfl rfl rfl fun _ _ => rfl,tells,rfl,not_lt.mp room,ids⟩

end Calls

end Executor

end TinyLlama.Graph
