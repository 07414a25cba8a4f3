import TinyLlama.Cpu.Stateful
import TinyLlama.Engine.Runs

namespace TinyLlama.Engine
open Gguf TinyLlama.Graph Causal Graph.Executor Cpu

def outWidth (c : ArchConfig) (g : List GraphNode) (i : Nat) : Nat := if isInput g i then 4 else (outDims c g).getD i 0*4

def nodeAt (g : List GraphNode) (i : Nat) : GraphNode := g.getD i ⟨.input,0,.cpu,[],[],[],0⟩

def rowsAs {β : Type} (c : ArchConfig) (g : List GraphNode) (i : Nat) (batch : Nat → List β) (r : Nat) : List (Option (List β)) :=
  (sourcesOf g i).map (Option.map fun j => nthRow (batch j) (outWidth c g j) r)

section rows
variable {β K : Type} {c : ArchConfig} {g : List GraphNode} {M : Meaning β K} {nUbatch ctxSize i n r : Nat}

theorem nodeAt_there {node : GraphNode} (there : g[i]? = some node) : nodeAt g i = node := by
  rw [nodeAt,List.getD_eq_getElem?_getD,there]
  rfl

theorem nth_mapped {α α' : Type} (f : α → α') (l : List (Option α)) (k : Nat) : (l.map (Option.map f)).getD k none = (l.getD k none).map f := by
  rw [List.getD_eq_getElem?_getD,List.getElem?_map,List.getD_eq_getElem?_getD]
  cases l[k]? <;> rfl

theorem listed_at {α : Type} {l : List (Option α)} {k : Nat} {a : α} (found : l.getD k none = some a) : some a ∈ l := by
  rw [List.getD_eq_getElem?_getD] at found
  cases there : l[k]? with
  | none =>
    rw [there] at found
    cases found
  | some src =>
    rw [there] at found
    exact List.mem_of_getElem? (there.trans (congrArg some found))

theorem rowsOf_wide {ops : Ops β K} {tok : Nat → Nat} {valid : Nat → Prop} {pos q : Nat} {batch : Nat → List β}
    (window : Executor.Batch (⟨g,c,nUbatch,ctxSize,ops⟩ : Executor β K) M tok valid i pos n r batch) (row : q < n) :
    (rowsAs c g i batch q).map (Option.map List.length) = (sourcesOf g i).map (Option.map (outWidth c g)) := by
  rw [rowsAs,List.map_map]
  refine List.map_congr_left fun src listed => ?_
  cases src with
  | none => rfl
  | some j =>
    have room := Nat.mul_le_mul_right (outWidth c g j) (Nat.succ_le_of_lt row)
    rw [Nat.succ_mul] at room
    have length : (batch j).length = n*outWidth c g j := window.lengths j listed
    change some (nthRow (batch j) (outWidth c g j) q).length = some (outWidth c g j)
    rw [nthRow,List.length_take,List.length_drop,length]
    congr 1
    omega

theorem first_width {ops : Ops β K} {tok : Nat → Nat} {valid : Nat → Prop} {pos q : Nat} {batch : Nat → List β}
    (window : Executor.Batch (⟨g,c,nUbatch,ctxSize,ops⟩ : Executor β K) M tok valid i pos n r batch) (row : q < n) :
    ((rowsAs c g i batch q).getD 0 none).map List.length = ((sourcesOf g i).getD 0 none).map (outWidth c g) := by
  rw [← nth_mapped,← nth_mapped]
  exact congrArg (fun rows => rows.getD 0 none) (rowsOf_wide window row)

end rows

structure Coding (β K : Type) where
  idByte : Nat → Nat → β
  idOf : List β → Nat
  floatByte : K → Nat → β
  floatOf : List β → K
  ids : ∀ id < 2^32,idOf ((List.range 4).map (idByte id)) = id
  floats : ∀ x,floatOf ((List.range 4).map (floatByte x)) = x

section backend
variable {β K : Type} [Field K] [LinearOrder K]

def Coding.float (code : Coding β K) (rows : List β) (j : Nat) : K := code.floatOf ((rows.drop (4*j)).take 4)

def Coding.byte (code : Coding β K) (v : Nat → K) (a : Nat) : β := code.floatByte (v (a/4)) (a%4)

def Coding.source (code : Coding β K) (rows : List (Option (List β))) (k : Nat) : Nat → K := code.float ((rows.getD k none).getD [])

def Coding.token (code : Coding β K) (op : GraphOp) (rows : List (Option (List β))) (t : Nat) : Nat :=
  if op = .embed then code.idOf (nthRow ((rows.getD 0 none).getD []) 4 t) else 0

def outDimOf (c : ArchConfig) (op : GraphOp) (weights : List (Option TensorInfo)) (params : List Nat) (source : Option Nat) : Nat :=
  nodeOutDim ⟨op,0,.cpu,[some 0],weights,params,0⟩ [source.getD 0/4] c

-- m bytes from byte a of source k on, where the plan has put it; NULL has none.
def sourceBytes (c : ArchConfig) (g : List GraphNode) (nUbatch i k : Nat) (mem : Memory β) (a m : Nat) : List β :=
  match (sourcesOf g i).getD k none with
  | none => []
  | some j => (List.range m).map fun b => mem (backendOf g j) ((planSlot g c nUbatch j).off+(a+b))

def cpuCtx (code : Coding β K) (c : ArchConfig) (g : List GraphNode) (nUbatch nState i pos n : Nat) (mem : Memory β) : OpCtx K :=
  let bytes := fun k => sourceBytes c g nUbatch i k mem
  ⟨c,nodeAt g i,(outDims c g).getD i 0,if isSink g i then 1 else n,if isSink g i then n-1 else 0,pos,n,nState,
    fun k x => code.floatOf (bytes k (4*x) 4),fun t => if (nodeAt g i).op = .embed then code.idOf (bytes 0 (t*4) 4) else 0⟩

-- An op that fails writes zeros here; the executor's calls then fail by their own faults.
def cpuOps (h : Host K) (code : Coding β K) (c : ArchConfig) (g : List GraphNode) (nUbatch ctxSize nState : Nat) : Ops β K where
  idByte := code.idByte
  zero := 0
  source i k s x := code.floatOf (sourceBytes c g nUbatch i k s.mem (4*x) 4)
  plain i pos n s := code.byte ((h.graphOp (cpuCtx code c g nUbatch nState i pos n s.mem)).getD fun _ => 0)
  attend i pos n s :=
    let seen (m : Nat → K) := seenBelow c (pos+n) fun h q d => m (h*headStride (backendOf g i) ctxSize c.kvHeadDim+q*c.kvHeadDim+d)
    code.byte (h.attnOp ctxSize (cpuCtx code c g nUbatch nState i pos n s.mem) (seen (s.k (handle g i))) (seen (s.v (handle g i))))
  advance i pos n s start :=
    let out := (h.stateOp (cpuCtx code c g nUbatch nState i pos n s.mem) start).getD (fun _ => 0,start)
    (out.2,code.byte out.1)

def Coding.row (code : Coding β K) (od : Nat) (v : Nat → K) : List β := (List.range (od*4)).map (code.byte v)

def cpuMeaning (num : Numerics K) (code : Coding β K) (c : ArchConfig) : Meaning β K where
  ids id := (List.range 4).map (code.idByte id)
  floats := code.float
  plain op weights params q rows := match op,rows with
    | .d2h,[some row] => row
    | _,_ =>
      let od := outDimOf c op weights params ((rows.getD 0 none).map List.length)
      code.row od (num.rowValue c op (weights[0]?).join (fun k => params.getD k 0) od q (code.token op rows 0) (code.source rows))
  attend params q rows keys values := code.row (c.nHead*c.headDim) (attended num.lm.exp (attnScale num c) (attnConfig c) (params.getD 0 0)
    (fun h s d => (keys h s d).getD 0) (fun h s d => (values h s d).getD 0) (code.source rows 0) q)
  advance op weights params _ rows state :=
    let od := outDimOf c op weights (0 :: params) ((rows.getD 0 none).map List.length)
    let out := num.stateValue op (fun k => (weights[k]?).join) (fun k => params.getD k 0) od (code.source rows) state
    (out.1,code.row od out.2)
  fresh _ := 0

omit [Field K] [LinearOrder K] in
theorem Coding.float_row (code : Coding β K) (rows : List β) {w x : Nat} (r : Nat) (small : x < w) :
    code.float rows (r*w+x) = code.float (nthRow rows (w*4) r) x := by
  unfold Coding.float nthRow
  rw [List.drop_take,List.take_take,List.drop_drop,min_eq_left (by omega)]
  congr 3
  ring

def sourceDim (c : ArchConfig) (g : List GraphNode) (i k : Nat) : Nat := (((sourcesOf g i).getD k none).map fun j => (outDims c g).getD j 0).getD 0

def computed (g : List GraphNode) (i : Nat) : Bool := (sourcesOf g i).all fun src => src.all fun j => !isInput g j

def plainFits (c : ArchConfig) (g : List GraphNode) (i : Nat) : Bool :=
  let node := nodeAt g i
  let od := (outDims c g).getD i 0
  opFits c node od (sourceDim c g i) (isSink g i) && node.op ≠ .d2h && node.op ≠ .h2d &&
    od = outDimOf c node.op node.weights node.params (((sourcesOf g i).getD 0 none).map (outWidth c g)) &&
    if node.op = .embed then ((sourcesOf g i).getD 0 none).any (isInput g) else computed g i

def recurrentFits (c : ArchConfig) (g : List GraphNode) (nState i : Nat) : Bool :=
  let node := nodeAt g i
  let od := (outDims c g).getD i 0
  computed g i && stateFits node od nState (sourceDim c g i) (isSink g i) &&
    od = outDimOf c node.op node.weights (0 :: node.params.tail) (((sourcesOf g i).getD 0 none).map (outWidth c g))

def cpuFits (c : ArchConfig) (g : List GraphNode) (ctxSize nState i : Nat) : Bool :=
  if isInput g i then true
  else if isAttn g i then computed g i && attnFits c ctxSize ((outDims c g).getD i 0) (sourceDim c g i) (isSink g i)
  else if isRecurrent g i then recurrentFits c g nState i else plainFits c g i

variable {h : Host K} {code : Coding β K} {c : ArchConfig} {g : List GraphNode} {nUbatch ctxSize nState i k n r pos : Nat}

theorem attn_kind {g : List GraphNode} {i : Nat} (attn : isAttn g i = true) : isInput g i = false := by
  unfold isAttn at attn
  unfold isInput
  cases found : g[i]? with
  | none => rfl
  | some node =>
    rw [found] at attn
    have op := of_decide_eq_true attn
    simp [op]

theorem recurrent_kind {g : List GraphNode} {i : Nat} (recurrent : isRecurrent g i = true) : isInput g i = false ∧ isAttn g i = false := by
  unfold isRecurrent at recurrent
  unfold isInput isAttn
  cases found : g[i]? with
  | none => exact ⟨rfl,rfl⟩
  | some node =>
    rw [found] at recurrent
    rcases of_decide_eq_true recurrent with op | op | op | op <;> simp [op]

theorem cpuFits_attn (fits : cpuFits c g ctxSize nState i = true) (attn : isAttn g i = true) :
    computed g i = true ∧ attnFits c ctxSize ((outDims c g).getD i 0) (sourceDim c g i) (isSink g i) = true := by
  unfold cpuFits at fits
  rw [if_neg (by simp [attn_kind attn]),if_pos attn] at fits
  exact Bool.and_eq_true_iff.mp fits

theorem cpuFits_recurrent (fits : cpuFits c g ctxSize nState i = true) (recurrent : isRecurrent g i = true) : recurrentFits c g nState i = true := by
  obtain ⟨input,attn⟩ := recurrent_kind recurrent
  unfold cpuFits at fits
  rwa [if_neg (by simp [input]),if_neg (by simp [attn]),if_pos recurrent] at fits

theorem cpuFits_plain (fits : cpuFits c g ctxSize nState i = true) (input : isInput g i = false) (attn : isAttn g i = false)
    (recurrent : isRecurrent g i = false) : plainFits c g i = true := by
  unfold cpuFits at fits
  rwa [if_neg (by simp [input]),if_neg (by simp [attn]),if_neg (by simp [recurrent])] at fits

omit [Field K] [LinearOrder K] in
theorem byte_row (v : Nat → K) (row od : Nat) : (List.range (od*4)).map (fun a => code.byte v (row*(od*4)+a)) = code.row od fun j => v (row*od+j) := by
  refine List.map_congr_left fun a _ => ?_
  have place : row*(od*4)+a = 4*(row*od)+a := by ring
  rw [Coding.byte,Coding.byte,place,Nat.mul_add_div (by omega),Nat.mul_add_mod]

omit [Field K] [LinearOrder K] in
theorem row_congr {od : Nat} {v v' : Nat → K} (same : ∀ j < od,v j = v' j) : code.row od v = code.row od v' := by
  refine List.map_congr_left fun a listed => ?_
  rw [Coding.byte,Coding.byte,same (a/4) (by have := List.mem_range.mp listed; omega)]

section batches
variable {M : Meaning β K} {tok : Nat → Nat} {valid : Nat → Prop} {batch : Nat → List β} {node : GraphNode} {ops : Ops β K} {mem : Memory β}

omit [Field K] [LinearOrder K] in
theorem bytes_stored (stored : Executor.sources (⟨g,c,nUbatch,ctxSize,ops⟩ : Executor β K) n i mem = (sourcesOf g i).map (Option.map batch))
    {a m : Nat} (room : ∀ j,(sourcesOf g i).getD k none = some j → a+m ≤ (batch j).length) :
    sourceBytes c g nUbatch i k mem a m = (((((sourcesOf g i).map (Option.map batch)).getD k none).getD []).drop a).take m := by
  have held := congrArg (fun rows => rows.getD k none) stored
  rw [Executor.sources,nth_mapped,nth_mapped] at held
  rw [sourceBytes,nth_mapped]
  change ((sourcesOf g i).getD k none).map _ = _ at held
  cases source : (sourcesOf g i).getD k none with
  | none => simp
  | some j =>
    rw [source] at held
    have length := room j source
    have bytes : contents mem (backendOf g j) (Executor.liveSlot (⟨g,c,nUbatch,ctxSize,ops⟩ : Executor β K) n j) = batch j := Option.some.inj held
    rw [← bytes,contents_length] at length
    rw [Option.map_some,Option.getD_some,← bytes]
    apply List.ext_getElem
    · simp only [List.length_map,List.length_range,List.length_take,List.length_drop,contents_length]
      omega
    · intro b low _
      simp only [contents,List.getElem_map,List.getElem_range,List.getElem_take,List.getElem_drop]
      rfl

omit [Field K] [LinearOrder K] in
theorem source_float {j w x : Nat} (source : (sourcesOf g i)[k]? = some (some j))
    (size : Executor.batchBytes (⟨g,c,nUbatch,ctxSize,ops⟩ : Executor β K) n j = n*(w*4)) (row : r < n) (small : x < w) :
    code.floatOf (sourceBytes c g nUbatch i k mem (4*(r*w+x)) 4) =
      code.float (nthRow (contents mem (backendOf g j) (Executor.liveSlot (⟨g,c,nUbatch,ctxSize,ops⟩ : Executor β K) n j)) (w*4) r) x := by
  have found : (sourcesOf g i).getD k none = some j := by
    rw [List.getD_eq_getElem?_getD,source]
    rfl
  have inside := Cells.row_below row small
  have bytes := @bytes_stored β K c g nUbatch ctxSize i k n _ ops mem rfl (4*(r*w+x)) 4 fun j' same => by
    obtain rfl := Option.some.inj (found.symm.trans same)
    rw [contents_length,liveSlot,size,← Nat.mul_assoc]
    dsimp only
    omega
  rw [bytes,nth_mapped,found,← code.float_row _ r small]
  rfl

omit [Field K] [LinearOrder K] in
theorem source_row (stored : Executor.sources (⟨g,c,nUbatch,ctxSize,ops⟩ : Executor β K) n i mem = (sourcesOf g i).map (Option.map batch))
    (window : Executor.Batch (⟨g,c,nUbatch,ctxSize,ops⟩ : Executor β K) M tok valid i pos n r batch) (fed : computed g i = true) {q : Nat} (row : q < n)
    (k : Nat) {x : Nat} (small : x < sourceDim c g i k) :
    (cpuCtx code c g nUbatch nState i pos n mem).src k (q*sourceDim c g i k+x) = code.source (rowsAs c g i batch q) k x := by
  unfold sourceDim at small ⊢
  cases source : (sourcesOf g i).getD k none with
  | none =>
    rw [source] at small
    exact absurd small (Nat.not_lt_zero x)
  | some j =>
    rw [source] at small
    have listed := listed_at source
    have apart : isInput g j = false := by simpa using List.all_eq_true.mp fed (some j) listed
    have wide : outWidth c g j = (outDims c g).getD j 0*4 := if_neg (by simp [apart])
    have length : (batch j).length = n*outWidth c g j := window.lengths j listed
    dsimp only [Option.map_some,Option.getD_some] at small ⊢
    have inside := Cells.row_below row small
    have bytes := @bytes_stored β K c g nUbatch ctxSize i k n batch ops mem stored (4*(q*(outDims c g).getD j 0+x)) 4 fun j' same => by
      obtain rfl := Option.some.inj (source.symm.trans same)
      rw [length,wide,← Nat.mul_assoc]
      omega
    change code.floatOf (sourceBytes c g nUbatch i k mem _ 4) = _
    rw [bytes,Coding.source,rowsAs,nth_mapped,nth_mapped,source]
    change code.float (batch j) _ = code.float (nthRow (batch j) (outWidth c g j) q) x
    rw [wide]
    exact code.float_row (batch j) q small

omit [Field K] [LinearOrder K] in
theorem cpu_window (words : ctxSize < 2^32) (window : Executor.Batch (⟨g,c,nUbatch,ctxSize,ops⟩ : Executor β K) M tok valid i pos n r batch)
    (mem : Memory β) : Window (cpuCtx code c g nUbatch nState i pos n mem) (isSink g i) :=
  ⟨rfl,rfl,(Nat.zero_le r).trans_lt window.row,window.room.trans_lt words⟩

omit [Field K] [LinearOrder K] in
theorem token_row (built : WellBuilt g) (sound : M.ids = fun id => (List.range 4).map (code.idByte id)) (bound : ∀ id,valid id → id < 2^32)
    (embed : (nodeAt g i).op = .embed → ((sourcesOf g i).getD 0 none).any (isInput g) = true)
    (stored : Executor.sources (⟨g,c,nUbatch,ctxSize,ops⟩ : Executor β K) n i mem = (sourcesOf g i).map (Option.map batch))
    (window : Executor.Batch (⟨g,c,nUbatch,ctxSize,ops⟩ : Executor β K) M tok valid i pos n r batch) {q : Nat} (row : q < n) :
    (cpuCtx code c g nUbatch nState i pos n mem).tok q = (if (nodeAt g i).op = .embed then tok (pos+q) else 0) ∧
      code.token (nodeAt g i).op (rowsAs c g i batch q) 0 = (cpuCtx code c g nUbatch nState i pos n mem).tok q := by
  unfold Coding.token
  dsimp only [cpuCtx]
  by_cases op : (nodeAt g i).op = .embed
  · rw [if_pos op,if_pos op,if_pos op]
    obtain ⟨j,source,input⟩ := (Option.any_eq_true _ _).mp (embed op)
    have width : outWidth c g j = 4 := if_pos input
    have below := flagged_lt input
    have isInput' : g[j].op = .input := by
      rw [isInput,List.getElem?_eq_getElem below] at input
      exact of_decide_eq_true input
    have ids : M.output c tok g j (pos+q) = M.ids (tok (pos+q)) := by
      have stream := @output_stream β K (⟨g,c,nUbatch,ctxSize,ops⟩ : Executor β K) M tok j built _ (List.getElem?_eq_getElem below)
      exact (congrFun stream _).trans (by rw [Meaning.stream,if_pos isInput'])
    have rows := congrArg (fun rows => rows.getD 0 none) (window.rows q row)
    simp only [rowsOf,rowsAt,srcStreams,nth_mapped] at rows
    rw [show (sourcesOf (⟨g,c,nUbatch,ctxSize,ops⟩ : Executor β K).g i).getD 0 none = some j from source] at rows
    have read : nthRow (batch j) 4 q = M.output c tok g j (pos+q) := by
      rw [← width]
      exact Option.some.inj rows
    have known := window.valid (pos+q) (by omega)
    have length : (batch j).length = n*outWidth c g j := window.lengths j (listed_at source)
    have bytes := @bytes_stored β K c g nUbatch ctxSize i 0 n batch ops mem stored (q*4) 4 fun j' same => by
      obtain rfl := Option.some.inj (source.symm.trans same)
      rw [length,width]
      omega
    rw [bytes,rowsAs,nth_mapped,nth_mapped,source]
    change code.idOf (nthRow (batch j) 4 q) = _ ∧ code.idOf (nthRow (nthRow (batch j) (outWidth c g j) q) 4 0) = code.idOf (nthRow (batch j) 4 q)
    rw [width,read,ids,sound]
    exact ⟨code.ids _ (bound _ known),congrArg code.idOf (List.take_of_length_le (by simp))⟩
  · rw [if_neg op,if_neg op,if_neg op]
    exact ⟨rfl,rfl⟩

omit [Field K] [LinearOrder K] in
theorem outRow_floats {ops : Ops β K} {out : Nat → K} (input : isInput g i = false) {v : Nat → K}
    (values : ∀ j < (outDims c g).getD i 0,out ((if isSink g i then 0 else r)*(outDims c g).getD i 0+j) = v j) :
    Executor.outRow (⟨g,c,nUbatch,ctxSize,ops⟩ : Executor β K) i r (code.byte out) = code.row ((outDims c g).getD i 0) v := by
  have width : Executor.width (⟨g,c,nUbatch,ctxSize,ops⟩ : Executor β K) i = (outDims c g).getD i 0*4 := if_neg (by simp [input])
  rw [outRow,width]
  exact (byte_row out _ _).trans (row_congr values)

theorem cpuPlain_value {num : Numerics K} {op : GraphOp} {weights : List (Option TensorInfo)} {params : List Nat} {q : Nat}
    {rows : List (Option (List β))} (copy : op ≠ .d2h) : (cpuMeaning num code c).plain op weights params q rows =
      code.row (outDimOf c op weights params ((rows.getD 0 none).map List.length)) (num.rowValue c op (weights[0]?).join (fun k => params.getD k 0)
        (outDimOf c op weights params ((rows.getD 0 none).map List.length)) q (code.token op rows 0) (code.source rows)) := by
  unfold cpuMeaning
  dsimp only
  split
  · exact absurd rfl copy
  · rfl

theorem cpuPlain_row (built : WellBuilt g) (fits : plainFits c g i = true) (some' : 0 < c.nVocab) (vocab : c.nVocab ≤ 2^32)
    (words : ctxSize < 2^32) (input : isInput g i = false) (s : SessionState β K)
    (stored : Executor.sources (⟨g,c,nUbatch,ctxSize,cpuOps h code c g nUbatch ctxSize nState⟩ : Executor β K) n i s.mem =
      (sourcesOf g i).map (Option.map batch))
    (window : Executor.Batch (⟨g,c,nUbatch,ctxSize,cpuOps h code c g nUbatch ctxSize nState⟩ : Executor β K) (cpuMeaning h.toNumerics code c) tok
      (· < c.nVocab) i pos n r batch) :
    Executor.outRow (⟨g,c,nUbatch,ctxSize,cpuOps h code c g nUbatch ctxSize nState⟩ : Executor β K) i r
      ((cpuOps h code c g nUbatch ctxSize nState).plain i pos n s) =
        (cpuMeaning h.toNumerics code c).plain (nodeAt g i).op (nodeAt g i).weights (nodeAt g i).params (pos+r) (rowsAs c g i batch r) := by
  unfold plainFits at fits
  simp only [Bool.and_eq_true,decide_eq_true_eq] at fits
  obtain ⟨⟨⟨⟨fits,copy⟩,_⟩,dim⟩,sources⟩ := fits
  have embed (op : (nodeAt g i).op = .embed) : ((sourcesOf g i).getD 0 none).any (isInput g) = true := by rwa [if_pos op] at sources
  have tokens {q : Nat} (row : q < n) := @token_row β K code c g nUbatch ctxSize nState i n r pos _ tok _ batch _ s.mem built rfl
    (fun id known => known.trans_le vocab) embed stored window q row
  have known : ∀ t < n,(cpuCtx code c g nUbatch nState i pos n s.mem).tok t < c.nVocab := by
    intro t row
    rw [(tokens row).1]
    split
    · exact window.valid (pos+t) (by omega)
    · exact some'
  have row := window.row
  have rows := @cpu_window β K code c g nUbatch ctxSize nState i n r pos _ tok _ batch _ words window s.mem
  obtain ⟨dst,done,values⟩ := graphOp_rows (h:=h) rows fits known
  -- The row among those that are computed, and in the batch.
  have place : (if isSink g i then n-1 else 0)+(if isSink g i then 0 else r) = r ∧ (if isSink g i then 0 else r) < if isSink g i then 1 else n := by
    have last := window.last
    change isSink g i = true → r+1 = n at last
    split
    · next sink => 
      have := last sink
      omega
    · exact ⟨Nat.zero_add r,row⟩
  change Executor.outRow _ i r (code.byte ((h.graphOp (cpuCtx code c g nUbatch nState i pos n s.mem)).getD fun _ => 0)) = _
  rw [done,Option.getD_some]
  refine (outRow_floats input fun j small => values _ place.2 j small).trans ?_
  rw [cpuPlain_value copy,first_width window row,← dim]
  refine row_congr fun j small => ?_
  change h.rowValue c (nodeAt g i).op ((nodeAt g i).weight 0) (nodeAt g i).param _ (pos+(if isSink g i then n-1 else 0)+_)
    ((cpuCtx code c g nUbatch nState i pos n s.mem).tok ((if isSink g i then n-1 else 0)+_)) (fun k x =>
      (cpuCtx code c g nUbatch nState i pos n s.mem).src k (((if isSink g i then n-1 else 0)+_)*sourceDim c g i k+x)) j = _
  rw [Nat.add_assoc,place.1,(tokens row).2]
  by_cases op : (nodeAt g i).op = .embed
  · rw [op]
    rfl
  · rw [if_neg op] at sources
    exact rowValue_near fits (fun k x inside => source_row stored window sources row k inside) small

theorem cpuAttend_row (sources : computed g i = true)
    (fits : attnFits c ctxSize ((outDims c g).getD i 0) (sourceDim c g i) (isSink g i) = true) (input : isInput g i = false)
    (keys values : Nat → Nat → Nat → K) (s : SessionState β K)
    (stored : Executor.sources (⟨g,c,nUbatch,ctxSize,cpuOps h code c g nUbatch ctxSize nState⟩ : Executor β K) n i s.mem =
      (sourcesOf g i).map (Option.map batch))
    (key : Executor.seen (⟨g,c,nUbatch,ctxSize,cpuOps h code c g nUbatch ctxSize nState⟩ : Executor β K) i (pos+n) (s.k (handle g i)) =
      seenBelow c (pos+n) keys)
    (value : Executor.seen (⟨g,c,nUbatch,ctxSize,cpuOps h code c g nUbatch ctxSize nState⟩ : Executor β K) i (pos+n) (s.v (handle g i)) =
      seenBelow c (pos+n) values)
    (window : Executor.Batch (⟨g,c,nUbatch,ctxSize,cpuOps h code c g nUbatch ctxSize nState⟩ : Executor β K) (cpuMeaning h.toNumerics code c) tok
      (· < c.nVocab) i pos n r batch) :
    Executor.outRow (⟨g,c,nUbatch,ctxSize,cpuOps h code c g nUbatch ctxSize nState⟩ : Executor β K) i r
      ((cpuOps h code c g nUbatch ctxSize nState).attend i pos n s) =
        (cpuMeaning h.toNumerics code c).attend (nodeAt g i).params.tail (pos+r) (rowsAs c g i batch r) (seenBelow c (pos+r+1) keys)
          (seenBelow c (pos+r+1) values) := by
  have whole : isSink g i = false := by
    unfold attnFits at fits
    simpa using (Bool.and_eq_true_iff.mp fits).1
  rw [whole] at fits
  have row := window.row
  have room : pos+n ≤ ctxSize := window.room
  obtain ⟨_,done,rows⟩ := @attnOp_rows K _ _ h (cpuCtx code c g nUbatch nState i pos n s.mem) ctxSize (sourceDim c g i)
    fits room keys values
  cases done
  have fits := of_decide_eq_true fits
  obtain ⟨_,square,wide,_,even,_,dim,source⟩ := fits
  have meaning : (cpuMeaning h.toNumerics code c).attend (nodeAt g i).params.tail (pos+r) (rowsAs c g i batch r) (seenBelow c (pos+r+1) keys)
      (seenBelow c (pos+r+1) values) = code.row (c.nHead*c.headDim) (attended h.lm.exp (attnScale h.toNumerics c) (attnConfig c)
        ((nodeAt g i).params.tail.getD 0 0) (fun h s d => (seenBelow c (pos+r+1) keys h s d).getD 0)
        (fun h s d => (seenBelow c (pos+r+1) values h s d).getD 0) (code.source (rowsAs c g i batch r) 0) (pos+r)) := rfl
  have seen : (cpuOps h code c g nUbatch ctxSize nState).attend i pos n s = code.byte (h.attnOp ctxSize (cpuCtx code c g nUbatch nState i pos n s.mem)
      (seenBelow c (pos+n) keys) (seenBelow c (pos+n) values)) := by
    rw [← key,← value]
    rfl
  rw [meaning,seen,← show (outDims c g).getD i 0 = _ from dim]
  refine outRow_floats input fun j small => ?_
  rw [whole,if_neg Bool.false_ne_true]
  have value := rows r row j small
  refine Eq.trans value ?_
  change attended h.lm.exp (attnScale h.toNumerics c) (attnConfig c) ((nodeAt g i).param 1) (fun head s d => (seenBelow c (pos+n) keys head s d).getD 0)
    (fun head s d => (seenBelow c (pos+n) values head s d).getD 0)
    (fun j => (cpuCtx code c g nUbatch nState i pos n s.mem).src 0 (r*sourceDim c g i 0+j)) (pos+r) j = _
  have near : (nodeAt g i).params.tail.getD 0 0 = (nodeAt g i).param 1 := by
    rw [GraphNode.param]
    cases (nodeAt g i).params <;> rfl
  rw [near]
  refine attended_near wide even (fun x inside => ?_) (fun head inside s upto d lane => ?_) (dim ▸ small)
  · refine source_row stored window sources row 0 ?_
    rw [source,dim]
    exact inside
  · have lane : d < c.kvHeadDim := square ▸ lane
    have below : s < pos+n ∧ s < pos+r+1 := by omega
    have seen (m : Nat → Nat → Nat → K) : (seenBelow c (pos+n) m head s d).getD 0 = (seenBelow c (pos+r+1) m head s d).getD 0 := by
      rw [seenBelow_at m inside below.1 lane,seenBelow_at m inside below.2 lane]
    exact ⟨seen keys,seen values⟩

theorem cpuAdvance_row (fits : recurrentFits c g nState i = true) (words : ctxSize < 2^32) (input : isInput g i = false) (start : Nat → K)
    (s : SessionState β K)
    (stored : Executor.sources (⟨g,c,nUbatch,ctxSize,cpuOps h code c g nUbatch ctxSize nState⟩ : Executor β K) n i s.mem =
      (sourcesOf g i).map (Option.map batch))
    (window : Executor.Batch (⟨g,c,nUbatch,ctxSize,cpuOps h code c g nUbatch ctxSize nState⟩ : Executor β K) (cpuMeaning h.toNumerics code c) tok
      (· < c.nVocab) i pos n r batch) :
    let advance q rows state := (cpuMeaning h.toNumerics code c).advance (nodeAt g i).op (nodeAt g i).weights (nodeAt g i).params.tail (pos+q) rows state
    let run := stateAfter (fun q rows state => (advance q rows state).1) start (rowsAs c g i batch)
    let out := (cpuOps h code c g nUbatch ctxSize nState).advance i pos n s start
    out.1 = run n ∧ Executor.outRow (⟨g,c,nUbatch,ctxSize,cpuOps h code c g nUbatch ctxSize nState⟩ : Executor β K) i r out.2 =
      (advance r (rowsAs c g i batch r) (run r)).2 := by
  intro advance run out
  unfold recurrentFits at fits
  simp only [Bool.and_eq_true,decide_eq_true_eq] at fits
  obtain ⟨⟨sources,fits⟩,dim⟩ := fits
  have whole : isSink g i = false := by
    unfold stateFits at fits
    rw [Bool.and_eq_true_iff,Bool.and_eq_true_iff,Bool.and_eq_true_iff] at fits
    simpa using fits.1.1.2
  have win := @cpu_window β K code c g nUbatch ctxSize nState i n r pos _ tok _ batch _ words window s.mem
  rw [whole] at fits win
  obtain ⟨dst,done,rows⟩ := @stateOp_rows K _ h _ _ _ start win fits
  set next := fun q state => (h.stateValue (nodeAt g i).op (nodeAt g i).weight (fun k => (nodeAt g i).param (k+1)) ((outDims c g).getD i 0)
    (fun k j => (cpuCtx code c g nUbatch nState i pos n s.mem).src k (q*sourceDim c g i k+j)) state).1 with step
  have tail : (fun k => (nodeAt g i).params.tail.getD k 0) = fun k => (nodeAt g i).param (k+1) := by
    funext k
    rw [GraphNode.param]
    cases (nodeAt g i).params <;> simp
  -- What the meaning has of a row is what the op has of it in the batch.
  have same (q : Nat) (row : q < n) (state : Nat → K) : (advance q (rowsAs c g i batch q) state).1 = next q state ∧
      (advance q (rowsAs c g i batch q) state).2 = code.row ((outDims c g).getD i 0) (h.stateValue (nodeAt g i).op (nodeAt g i).weight
        (fun k => (nodeAt g i).param (k+1)) ((outDims c g).getD i 0)
        (fun k j => (cpuCtx code c g nUbatch nState i pos n s.mem).src k (q*sourceDim c g i k+j)) state).2 := by
    have value : advance q (rowsAs c g i batch q) state =
        let od := outDimOf c (nodeAt g i).op (nodeAt g i).weights (0 :: (nodeAt g i).params.tail) (((rowsAs c g i batch q).getD 0 none).map List.length)
        let v := h.stateValue (nodeAt g i).op (nodeAt g i).weight (fun k => (nodeAt g i).params.tail.getD k 0) od (code.source (rowsAs c g i batch q)) state
        (v.1,code.row od v.2) := rfl
    rw [tail,first_width window row,← dim] at value
    have sources := fun k x (inside : x < sourceDim c g i k) => @source_row β K code c g nUbatch ctxSize nState i n r pos _ tok _ batch _ s.mem stored window
      sources q row k x inside
    obtain ⟨state',row'⟩ := @stateValue_near K _ _ _ h.toNumerics _ _ _ _ fits _ _ sources state
    rw [value]
    exact ⟨state'.symm,row_congr fun j small => (row' j small).symm⟩
  have runs : ∀ q ≤ n,afterRows next start q = run q := by
    intro q upto
    induction q with
    | zero => rfl
    | succ q ih =>
      refine (Nat.fold_succ q _ _).trans ?_
      change next q (afterRows next start q) = (advance q (rowsAs c g i batch q) (run q)).1
      rw [ih (by omega),(same q upto (run q)).1]
  have row := window.row
  have result : out = (afterRows next start n,code.byte dst) := by
    change (let out := (h.stateOp (cpuCtx code c g nUbatch nState i pos n s.mem) start).getD (fun _ => 0,start)
      (out.2,code.byte out.1)) = _
    rw [done]
    rfl
  rw [result]
  refine ⟨runs n le_rfl,(outRow_floats input fun j small => ?_).trans (same r row (run r)).2.symm⟩
  rw [whole,if_neg Bool.false_ne_true,← runs r row.le]
  exact rows r row j small

end batches

theorem cpuOps_rowwise (built : WellBuilt g) (holds : ∀ i < g.length,cpuFits c g ctxSize nState i = true) (some' : 0 < c.nVocab) (vocab : c.nVocab ≤ 2^32)
    (words : ctxSize < 2^32) :
    Executor.Rowwise (⟨g,c,nUbatch,ctxSize,cpuOps h code c g nUbatch ctxSize nState⟩ : Executor β K) (cpuMeaning h.toNumerics code c) (· < c.nVocab) := by
  have flagged {i : Nat} {node : GraphNode} (there : g[i]? = some node) : i < g.length := (List.getElem?_eq_some_iff.mp there).1
  refine ⟨fun id => rfl,rfl,fun i k j n w r x s source size row small => source_float source size row small,
    fun tok i node pos n r batch s there input attn recurrent window stored => ?_,
    fun tok i node pos n r batch keys values s there attn window stored key value => ?_,
    fun tok i node pos n r batch start s there recurrent window stored => ?_⟩
  · rw [← nodeAt_there there]
    exact cpuPlain_row built (cpuFits_plain (holds i (flagged there)) input attn recurrent) some' vocab words input s stored window
  · rw [← nodeAt_there there]
    obtain ⟨sources,fits⟩ := cpuFits_attn (holds i (flagged there)) attn
    exact cpuAttend_row sources fits (attn_kind attn) keys values s stored key value window
  · rw [← nodeAt_there there]
    exact cpuAdvance_row (cpuFits_recurrent (holds i (flagged there)) recurrent) words (recurrent_kind recurrent).1 start s stored window

-- No two attention nodes have one cache, and keys and values are as wide as it; nor have two
-- recurrent nodes one state.
def ownHandle (f : List GraphNode → Nat → Bool) (g : List GraphNode) (i : Nat) : Bool :=
  !f g i || (List.range g.length).all fun j => !f g j || handle g i ≠ handle g j || i = j

def ownCache (c : ArchConfig) (g : List GraphNode) (i : Nat) : Bool :=
  ownHandle isAttn g i && ownHandle isRecurrent g i &&
    (!isAttn g i || [1,2].all fun k => ((sourcesOf g i).getD k none).any fun j => outWidth c g j = c.nKvHead*c.kvHeadDim*4)

-- A graph whose nodes are all on the CPU and of shapes that their ops work on, and whose buffers
-- and strides do not wrap.
def runsOnCpu (c : ArchConfig) (g : List GraphNode) (nUbatch ctxSize nState : Nat) : Bool :=
  (List.range g.length).all (fun i => cpuFits c g ctxSize nState i && ownCache c g i && backendOf g i = .cpu && outBytes g c nUbatch i+15 < 2^64) &&
    (0 < c.nVocab ∧ c.nVocab ≤ 2^32 ∧ ctxSize < 2^32 ∧ c.nKvHead*c.kvHeadDim < 2^32 ∧ ((List.range g.length).map (need g c nUbatch)).sum < 2^64 : Bool)

def cpuExecutor (h : Host K) (code : Coding β K) (s : Session) (g : Graph) (nUbatch : Nat) : Executor β K :=
  let nodes := assignBackends s g.nodes
  ⟨nodes,s.cfg,nUbatch,s.ctxSize,cpuOps h code s.cfg nodes nUbatch s.ctxSize g.state.length⟩

theorem runs_node (runs : runsOnCpu c g nUbatch ctxSize nState = true) (inside : i < g.length) :
    cpuFits c g ctxSize nState i = true ∧ ownCache c g i = true ∧ backendOf g i = .cpu ∧ outBytes g c nUbatch i+15 < 2^64 := by
  have node := List.all_eq_true.mp (Bool.and_eq_true_iff.mp runs).1 i (List.mem_range.mpr inside)
  simp only [Bool.and_eq_true,decide_eq_true_eq] at node
  exact ⟨node.1.1.1,node.1.1.2,node.1.2,node.2⟩

theorem owns_handle {f : List GraphNode → Nat → Bool} {j : Nat} (own : ownHandle f g i = true) (one' : f g i = true) (two : f g j = true)
    (inside : j < g.length) (same : handle g i = handle g j) : i = j := by
  unfold ownHandle at own
  rw [one',Bool.not_true,Bool.false_or] at own
  have one := List.all_eq_true.mp own j (List.mem_range.mpr inside)
  simpa [two,same] using one

theorem owns_sources (own : ownCache c g i = true) (attn : isAttn g i = true) (which : k = 1 ∨ k = 2) :
    ∃ j,(sourcesOf g i)[k]? = some (some j) ∧ outWidth c g j = c.nKvHead*c.kvHeadDim*4 := by
  have sources := (Bool.and_eq_true_iff.mp own).2
  rw [attn,Bool.not_true,Bool.false_or] at sources
  have found := List.all_eq_true.mp sources k (by simpa using which)
  rw [List.getD_eq_getElem?_getD] at found
  obtain ⟨j,source,width⟩ := (Option.any_eq_true _ _).mp found
  cases there : (sourcesOf g i)[k]? with
  | none =>
    rw [there] at source
    cases source
  | some src =>
    rw [there] at source
    exact ⟨j,congrArg some source,of_decide_eq_true width⟩

theorem cpu_ready (runs : runsOnCpu c g nUbatch ctxSize nState = true) (built : WellBuilt g) :
    Executor.Ready (⟨g,c,nUbatch,ctxSize,cpuOps h code c g nUbatch ctxSize nState⟩ : Executor β K) (cpuMeaning h.toNumerics code c) (· < c.nVocab) := by
  have sizes := of_decide_eq_true (Bool.and_eq_true_iff.mp runs).2
  obtain ⟨some',vocab,words,narrow,total⟩ := sizes
  have each (i : Nat) (inside : i < g.length) := runs_node runs inside
  have rowwise := @cpuOps_rowwise β K _ _ h code c g nUbatch ctxSize nState built (fun i inside => (each i inside).1) some' vocab words
  refine ⟨⟨fun i j attn attn' same => ?_,fun i j recurrent recurrent' same => ?_,narrow,fun i attn k which => ?_⟩,?_,rowwise,built,
    ⟨fun i inside => (each i inside).2.2.2,total⟩⟩
  · have own := (each i (flagged_lt attn)).2.1
    exact owns_handle (Bool.and_eq_true_iff.mp (Bool.and_eq_true_iff.mp own).1).1 attn attn' (flagged_lt attn') same
  · have own := (each i (flagged_lt recurrent)).2.1
    exact owns_handle (Bool.and_eq_true_iff.mp (Bool.and_eq_true_iff.mp own).1).2 recurrent recurrent' (flagged_lt recurrent') same
  · exact owns_sources (each i (flagged_lt attn)).2.1 attn which
  · by_cases few : c.nKvHead ≤ 1
    · exact .inl few
    refine .inr fun i attn => ?_
    obtain ⟨fits,_,cpu,_⟩ := each i (flagged_lt attn)
    have shape := (Bool.and_eq_true_iff.mp (cpuFits_attn fits attn).2).2
    obtain ⟨_,_,_,_,_,strides,_⟩ := of_decide_eq_true shape
    change headStride (backendOf g i) ctxSize c.kvHeadDim = _
    rw [cpu]
    exact u32_of_lt (strides.resolve_left few)

omit [Field K] [LinearOrder K] in
theorem placed_recurrent {s : Session} {nodes : List GraphNode} : isRecurrent (assignBackends s nodes) i = isRecurrent nodes i := by
  rw [isRecurrent,isRecurrent,assignBackends,List.getElem?_map,Option.map_map]
  rfl

omit [Field K] [LinearOrder K] in
theorem steady_harmless {p : Executor β K} (steady : ∀ i,isRecurrent p.g i = false) (calls : List (Call β K)) :
    ∀ state : SessionState β K,p.HarmlessRun calls state := by
  induction calls with
  | nil => exact fun _ => trivial
  | cons call rest ih =>
    refine fun state => ⟨fun _ => .inr (.inr (.inr fun j recurrent => ?_)),ih _⟩
    exact absurd ((steady j).symm.trans recurrent) Bool.false_ne_true

-- Whatever the calls of a session and their micro-batches, a call that succeeds tells what the
-- architecture says of the ids of those that did. Where the model has a recurrent op, a call fails
-- before it has advanced a state; else it may fail anywhere.
theorem cpu_runs {s : Session} {ws : ArchWorkspace} {graph : Graph} {nTokens : Nat} (built : archBuild s ws nTokens = some graph)
    (runs : runsOnCpu s.cfg (assignBackends s graph.nodes) nUbatch s.ctxSize graph.state.length = true) {state : SessionState β K}
    (fresh : (cpuExecutor h code s graph nUbatch).Fresh state) (calls : List (Call β K)) {call : Call β K}
    (known : ∀ call' ∈ call :: calls,∀ t < call'.nTokens,call'.tokens t < s.cfg.nVocab)
    (harmless : (∃ i,isRecurrent graph.nodes i = true) → (cpuExecutor h code s graph nUbatch).HarmlessRun calls state)
    (ended : ((cpuExecutor h code s graph nUbatch).graphExecute call ((cpuExecutor h code s graph nUbatch).run calls state).2).2 = true) :
    let p := cpuExecutor h code s graph nUbatch
    let ids := history (p.kept calls state)++call.ids
    let size := p.publishedBytes (p.g.length-1)
    ids.length ≤ p.ctxSize ∧ (List.range size).map (p.graphExecute call (p.run calls state).2).1.logits =
      (archDecoder ((cpuMeaning h.toNumerics code s.cfg).op s.cfg (tokenAt ids)) s ws (ids.length-1)).take size := by
  have copies : (cpuMeaning h.toNumerics code s.cfg).Copies := fun _ _ _ _ => rfl
  have wellBuilt := (build_decodes copies (rfl : (cpuMeaning h.toNumerics code s.cfg).op s.cfg id = _) built).1
  have ready := @cpu_ready β K _ _ h code s.cfg (assignBackends s graph.nodes) nUbatch s.ctxSize graph.state.length runs (placed_built wellBuilt)
  refine run_decodes copies built rfl rfl ready fresh calls known ?_ ended
  by_cases recurrent : ∃ i,isRecurrent graph.nodes i = true
  · exact harmless recurrent
  · refine steady_harmless (fun i => ?_) calls state
    rw [Bool.eq_false_iff]
    exact fun found => recurrent ⟨i,placed_recurrent ▸ found⟩

end backend

-- Bytes that are whole numbers of ℚ.
def wholeCoding : Coding ℚ ℚ where
  idByte id _ := id
  idOf bytes := (bytes.getD 0 0).num.toNat
  floatByte x _ := x
  floatOf bytes := bytes.getD 0 0
  ids id _ := by simp [Rat.num_natCast]
  floats x := rfl

def vectorTensor (n : Nat) : TensorInfo := ⟨⟨0,[]⟩,1,[n],24,0,none,n,n,n⟩

def hybridLayer : TensorRole → Option TensorInfo
  | .attnNorm | .ffnNorm => some (vectorTensor 2)
  | .attnQ | .attnK | .attnV | .attnOut | .ssmOut | .ffnGate | .ffnUp | .ffnDown => some (bytesTensor 2 2)
  | .ssmIn => some (bytesTensor 2 7)
  | .ssmConv1d => some (bytesTensor 2 4)
  | .ssmA | .ssmD | .ssmDtBias => some (vectorTensor 1)
  | _ => none

def hybridSession : Session where
  cfg := ⟨1,1,2,2,2,2,1,4⟩
  ctxSize := 8
  nGpuLayers := 0
  tensors
    | .tokenEmbd => some (bytesTensor 2 4)
    | .outputNorm => some (vectorTensor 2)
    | _ => none
  layers _ := hybridLayer

def hybridModel : ArchWorkspace := .falconH1 ⟨2,1,1,1,2,2,4,0,fun _ => 1,fun _ => 2⟩

def hybridCalls : List (Call ℚ ℚ) := [tokenCall 1 none,tokenCall 3 (some 1)]

theorem hybrid_checks : (archBuild hybridSession hybridModel 2).any (fun g =>
    let p := cpuExecutor threadedHost wholeCoding hybridSession g 2
    runsOnCpu hybridSession.cfg (assignBackends hybridSession g.nodes) 2 8 g.state.length && isInput p.g 0 && !isInput p.g 1 &&
      (p.graphExecute (tokenCall 1 none) emptySession).2 && (p.graphExecute (tokenCall 2 none) (p.run hybridCalls emptySession).2).2) = true := by
  decide +kernel

-- The tokens 1 and 2.
theorem hybrid_runs : ∃ g,archBuild hybridSession hybridModel 2 = some g ∧
    let p := cpuExecutor threadedHost wholeCoding hybridSession g 2
    let ids := history (p.kept hybridCalls emptySession)++(tokenCall 2 none : Call ℚ ℚ).ids
    let size := p.publishedBytes (p.g.length-1)
    ids.length ≤ p.ctxSize ∧ (List.range size).map (p.graphExecute (tokenCall 2 none) (p.run hybridCalls emptySession).2).1.logits =
      (archDecoder ((cpuMeaning trialNumerics wholeCoding hybridSession.cfg).op hybridSession.cfg (tokenAt ids)) hybridSession hybridModel
        (ids.length-1)).take size := by
  obtain ⟨g,built,checks⟩ := (Option.any_eq_true _ _).mp hybrid_checks
  simp only [Bool.and_eq_true,Bool.not_eq_true'] at checks
  obtain ⟨⟨⟨⟨runs,input⟩,embed⟩,first⟩,later⟩ := checks
  refine ⟨g,built,cpu_runs built runs ⟨rfl,fun _ _ => rfl⟩ hybridCalls (by decide)
    (fun _ => ⟨fun failed => absurd (first.symm.trans failed) (by decide),fun _ => ?_,trivial⟩) later⟩
  refine .inr (.inr (.inr fun j recurrent => .inr ⟨1,Nat.pos_of_ne_zero fun none' => ?_,embed,Option.some_ne_none _⟩))
  subst none'
  exact absurd (input.symm.trans (recurrent_kind recurrent).1) (by decide)

end TinyLlama.Engine
