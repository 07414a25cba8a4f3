import TinyLlama.Cpu.Dispatch
import TinyLlama.Graph.Meaning

-- backend/cpu/cpu_op.c: attention and the recurrent ops of cpu_graph_op.
namespace TinyLlama.Cpu
open Gguf Quants Access TinyLlama.Graph Sweep Cells

section Operators
variable {K : Type} [Field K] [LinearOrder K]

def Weight.upto (w : Weight K) (n j : Nat) : K := if j < n then w.element j else 0

-- The keys or values of a layer as op_attn addresses them: head after head, cap rows each.
def flatten (cap khd : Nat) (keys : Seen K) (p : Nat) : K := (keys (p/(cap*khd)) (p%(cap*khd)/khd) (p%(cap*khd)%khd)).getD 0

def attnScale (num : Numerics K) (c : ArchConfig) : K := 1/num.lm.sqrt c.kvHeadDim

def Host.attnOp (h : Host K) (cap : Nat) (c : OpCtx K) (keys values : Seen K) : Nat → K :=
  let khd := c.cfg.kvHeadDim
  attnRead h.avx2 h.lm.exp (attnScale h.toNumerics c.cfg) (attnConfig c.cfg) (c.node.param 1) (u32 (cap*khd)) (flatten cap khd keys)
    (flatten cap khd values) c.pos c.n (c.src 0) h.junk h.junk

def Host.optional (h : Host K) (t : Option TensorInfo) (n : Nat) : Option (Option (Nat → K)) :=
  match t with
  | none => some none
  | some t => ((h.weight t).buffer n).map some

def Host.stateOp (h : Host K) (c : OpCtx K) (state : Nat → K) : Option ((Nat → K) × (Nat → K)) :=
  let p := c.node.param
  let buffer k n := (c.node.weight k).bind fun t => (h.weight t).buffer n
  let conv : ConvCall K := ⟨c.base,c.r,c.src 0,h.junk⟩
  if c.od = 0 ∨ c.nState ≤ p 0 then none
  else match c.node.op with
    | .ssmConv => (buffer 0 (p 1*c.od)).map fun cw => opSsmConv (p 1) c.od cw conv state
    | .ssmDelta => do
      let aLog ← buffer 0 (p 1)
      let dtBias ← buffer 1 (p 1)
      let norm ← h.optional (c.node.weight 2) (p 3)
      opSsmDelta h.lm ⟨p 1,p 2,p 3⟩ c.od ⟨aLog,dtBias,norm⟩ defaultEps ⟨c.base,c.r,c.src 0,c.src 1,c.src 2,h.junk⟩ state
    | .mamba2Conv => do
      let s : Mamba2Shape := ⟨p 1,p 2,p 3,p 4,p 5⟩
      let cw ← buffer 0 (p 1*s.convDim)
      let bias ← h.optional (c.node.weight 1) s.convDim
      opMamba2Conv h.lm.exp s c.od cw bias conv state
    | .mamba2Scan => do
      let avec ← buffer 0 (p 1)
      let dvec ← buffer 1 (p 1)
      let dtb ← buffer 2 (p 1)
      let nw ← h.optional (c.node.weight 3) (p 5)
      opMamba2Scan h.lm ⟨p 1,p 2,p 3,p 4,p 5⟩ c.od ⟨avec,dvec,dtb,nw⟩ defaultEps ⟨c.base,c.r,c.src 0,c.src 1,h.junk⟩ state
    | _ => none

-- The state after a row and the row's output. The parameters are those behind the handle.
def Numerics.stateValue (num : Numerics K) (op : GraphOp) (t : Nat → Option TensorInfo) (p : Nat → Nat) (od : Nat) (x : Nat → Nat → K)
    (state : Nat → K) : (Nat → K) × (Nat → K) :=
  let w k n := valueOf ((t k).map num.weight) fun w => w.upto n
  let optional k n := (t k).map fun t => (num.weight t).upto n
  match op with
  | .ssmConv => (shiftState od (p 0) (x 0) state,tapSum od (p 0) (w 0 (p 0*od)) state (x 0))
  | .ssmDelta =>
    let s : DeltaShape := ⟨p 0,p 1,p 2⟩
    let weights : DeltaWeights K := ⟨w 0 (p 0),w 1 (p 0),optional 2 (p 2)⟩
    let input := deltaInput num.lm s weights defaultEps (x 0) (x 1) (x 2)
    (deltaNext s input state,deltaOut num.lm s weights.norm defaultEps input state)
  | .mamba2Conv =>
    let s : Mamba2Shape := ⟨p 0,p 1,p 2,p 3,p 4⟩
    let raw ch := x 0 (s.dInner+ch)
    (shiftState s.convDim s.ck raw state,fun j =>
      silu num.lm.exp (biased (optional 1 s.convDim) (tapSum s.convDim s.ck (w 0 (p 0*s.convDim)) state raw j) j))
  | .mamba2Scan =>
    let s : ScanShape := ⟨p 0,p 1,p 2,p 3,p 4⟩
    let weights : ScanWeights K := ⟨w 0 (p 0),w 1 (p 0),w 2 (p 0),optional 3 (p 4)⟩
    let row := scanInput s ⟨0,1,x 0,x 1,fun _ => 0⟩ 0
    (scanNext num.lm s weights row state,scanOut num.lm s weights defaultEps row state)
  | _ => (state,fun _ => 0)

end Operators

section Shapes

-- Attention over square heads that share the keys evenly, in a cache whose strides do not wrap.
def attnFits (c : ArchConfig) (cap od : Nat) (w : Nat → Nat) (sink : Bool) : Bool :=
  !sink && (od ≠ 0 ∧ c.kvHeadDim = c.headDim ∧ 0 < c.headDim ∧ c.nHead*c.headDim < 2^32 ∧ c.nHead%c.nKvHead = 0 ∧
    (c.nKvHead ≤ 1 ∨ cap*c.kvHeadDim < 2^32) ∧ od = c.nHead*c.headDim ∧ w 0 = od : Bool)

def holds (t : Option TensorInfo) (n : Nat) : Bool := t.any fun t => 0 < n ∧ n ≤ t.nElement
def holdsOptional (t : Option TensorInfo) (n : Nat) : Bool := t.all fun t => 0 < n ∧ n ≤ t.nElement

def stateFits (node : GraphNode) (od nState : Nat) (w : Nat → Nat) (sink : Bool) : Bool :=
  let p := node.param
  let t := node.weight
  od ≠ 0 && !sink && p 0 < nState && match node.op with
  | .ssmConv => holds (t 0) (p 1*od) && w 0 = od
  | .ssmDelta => holds (t 0) (p 1) && holds (t 1) (p 1) && holdsOptional (t 2) (p 3) &&
    (0 < p 2 ∧ p 2*p 3 < 2^32 ∧ p 1*p 3 < 2^32 ∧ od = p 1*p 3 ∧ w 0 = 2*(p 2*p 3)+p 1*p 3 ∧ w 1 = p 1 ∧ w 2 = p 1 : Bool)
  | .mamba2Conv =>
    let convDim := p 2+2*p 3*p 4
    holds (t 0) (p 1*convDim) && holdsOptional (t 1) convDim &&
      (0 < p 2 ∧ 0 < p 3 ∧ 0 < p 4 ∧ convDim+p 2+p 5 < 2^32 ∧ od = convDim ∧ w 0 = convDim+p 2+p 5 : Bool)
  | .mamba2Scan =>
    let s : ScanShape := ⟨p 1,p 2,p 3,p 4,p 5⟩
    holds (t 0) (p 1) && holds (t 1) (p 1) && holds (t 2) (p 1) && holdsOptional (t 3) (p 5) &&
      (s.Proper ∧ s.projWidth < 2^32 ∧ od = p 5 ∧ w 0 = s.convWidth ∧ w 1 = s.projWidth : Bool)
  | _ => false

end Shapes

theorem stateFits_width {node : GraphNode} {od nState : Nat} {w : Nat → Nat} {sink : Bool} (fits : stateFits node od nState w sink = true) :
    od ≠ 0 := by
  unfold stateFits at fits
  rw [Bool.and_eq_true_iff,Bool.and_eq_true_iff,Bool.and_eq_true_iff] at fits
  exact of_decide_eq_true fits.1.1.1

section Attention
variable {K : Type} [Field K] [LinearOrder K] {h : Host K} {c : OpCtx K} {cap : Nat} {w : Nat → Nat}

omit [LinearOrder K] in
theorem flatten_place {khd head s d : Nat} (low : s < cap) (small : d < khd) (keys : Seen K) :
    flatten cap khd keys (head*(cap*khd)+(s*khd+d)) = (keys head s d).getD 0 := by
  have inside := row_below low small
  rw [flatten,place_row inside,Nat.mul_add_mod_of_lt inside,place_row small,Nat.mul_add_mod_of_lt small]

theorem attnOp_rows (fits : attnFits c.cfg cap c.od w false = true) (room : c.pos+c.n ≤ cap)
    (keys values : Nat → Nat → Nat → K) :
    RowsDone (some (h.attnOp cap c (seenBelow c.cfg (c.pos+c.n) keys) (seenBelow c.cfg (c.pos+c.n) values))) c.n c.od fun r =>
      attended h.lm.exp (attnScale h.toNumerics c.cfg) (attnConfig c.cfg) (c.node.param 1)
        (fun head s d => (seenBelow c.cfg (c.pos+c.n) keys head s d).getD 0) (fun head s d => (seenBelow c.cfg (c.pos+c.n) values head s d).getD 0)
        (fun j => c.src 0 (r*w 0+j)) (c.pos+r) := by
  have fits := of_decide_eq_true fits
  obtain ⟨_,square,wide,narrow,even,strides,whole,source⟩ := fits
  have divides : (attnConfig c.cfg).nKvHead ∣ (attnConfig c.cfg).nHead := Nat.dvd_of_mod_eq_zero even
  have address (seen : Seen K) : ∀ head < (attnConfig c.cfg).nHead,∀ s < c.pos+c.n,∀ d < (attnConfig c.cfg).headDim,
      flatten cap c.cfg.kvHeadDim seen (head/(attnConfig c.cfg).gqa*u32 (cap*c.cfg.kvHeadDim)+s*(attnConfig c.cfg).headDim+d) =
        (seen (head/(attnConfig c.cfg).gqa) s d).getD 0 := by
    intro head below s low d small
    have kvHead := kvHead_lt divides below
    have stride : head/(attnConfig c.cfg).gqa*u32 (cap*c.cfg.kvHeadDim) = head/(attnConfig c.cfg).gqa*(cap*c.cfg.kvHeadDim) := by
      cases strides with
      | inl one' =>
        have none' : head/(attnConfig c.cfg).gqa = 0 := Nat.lt_one_iff.mp (kvHead.trans_le one')
        rw [none',Nat.zero_mul,Nat.zero_mul]
      | inr fits => rw [u32_of_lt fits]
    change flatten cap c.cfg.kvHeadDim seen (_+s*c.cfg.headDim+d) = _
    change d < c.cfg.headDim at small
    rw [stride,Nat.add_assoc,← square]
    exact flatten_place (by omega) (square ▸ small) seen
  have rows := @attnRead_done K _ _ h.avx2 h.lm.exp (attnScale h.toNumerics c.cfg) (attnConfig c.cfg) (c.node.param 1) (u32 (cap*c.cfg.kvHeadDim))
    c.pos c.n (flatten cap c.cfg.kvHeadDim (seenBelow c.cfg (c.pos+c.n) keys)) (flatten cap c.cfg.kvHeadDim (seenBelow c.cfg (c.pos+c.n) values))
    (c.src 0) h.junk h.junk square wide narrow
    (fun head s d => (seenBelow c.cfg (c.pos+c.n) keys head s d).getD 0) (fun head s d => (seenBelow c.cfg (c.pos+c.n) values head s d).getD 0)
    (address (seenBelow c.cfg (c.pos+c.n) keys)) (address (seenBelow c.cfg (c.pos+c.n) values))
  have dims : (attnConfig c.cfg).qDim = c.od := (qDim_of narrow).trans whole.symm
  rw [dims] at rows
  rw [source]
  exact rows

omit [LinearOrder K] in
theorem seenBelow_at {cfg : ArchConfig} {limit head s d : Nat} (keys : Nat → Nat → Nat → K) (inside : head < cfg.nKvHead) (low : s < limit)
    (small : d < cfg.kvHeadDim) : (seenBelow cfg limit keys head s d).getD 0 = keys head s d := by
  rw [seenBelow,if_pos ⟨inside,low,small⟩]
  rfl

theorem attended_near {exp : K → K} {scale : K} {cfg : AttnConfig} {win pos : Nat} (wide : 0 < cfg.headDim) (even : cfg.nHead%cfg.nKvHead = 0)
    {q q' : Nat → K} {key key' value value' : Nat → Nat → Nat → K} (query : ∀ j < cfg.nHead*cfg.headDim,q j = q' j)
    (cached : ∀ head < cfg.nKvHead,∀ s ≤ pos,∀ d < cfg.headDim,key head s d = key' head s d ∧ value head s d = value' head s d) {j : Nat}
    (small : j < cfg.nHead*cfg.headDim) : attended exp scale cfg win key value q pos j = attended exp scale cfg win key' value' q' pos j := by
  have head : j/cfg.headDim < cfg.nHead := (Nat.div_lt_iff_lt_mul wide).mpr small
  have kvHead := kvHead_lt (Nat.dvd_of_mod_eq_zero even) head
  have upto : ∀ s ∈ visible win pos,s ≤ pos := fun s listed => Nat.lt_succ_iff.mp (Finset.mem_Ico.mp listed).2
  unfold attended
  dsimp only
  refine attention_near (fun d inside => query _ (row_below head inside)) (fun s listed d inside => ?_) fun s listed => ?_
  · exact (cached _ kvHead s (upto s listed) d inside).1
  · exact (cached _ kvHead s (upto s listed) _ (Nat.mod_lt j wide)).2

-- A query's row rests on its position, its own row, and the keys and values up to there: not on the
-- batch, the capacity of the cache, the vector unit or what the slot and the scratch have held.
theorem attnOp_window {h' : Host K} {c' : OpCtx K} {cap' : Nat} (numerics : h'.toNumerics = h.toNumerics) (cfg : c'.cfg = c.cfg)
    (node : c'.node = c.node) (od : c'.od = c.od) (fits : attnFits c.cfg cap c.od w false = true) (fits' : attnFits c.cfg cap' c.od w false = true)
    (room : c.pos+c.n ≤ cap) (room' : c'.pos+c'.n ≤ cap') (keys values keys' values' : Nat → Nat → Nat → K) :
    ∀ r < c.n,∀ r' < c'.n,c.pos+r = c'.pos+r' → (∀ j < w 0,c.src 0 (r*w 0+j) = c'.src 0 (r'*w 0+j)) →
      (∀ head < c.cfg.nKvHead,∀ s ≤ c.pos+r,∀ d < c.cfg.kvHeadDim,keys head s d = keys' head s d ∧ values head s d = values' head s d) →
      ∀ j < c.od,h.attnOp cap c (seenBelow c.cfg (c.pos+c.n) keys) (seenBelow c.cfg (c.pos+c.n) values) (r*c.od+j) =
        h'.attnOp cap' c' (seenBelow c.cfg (c'.pos+c'.n) keys') (seenBelow c.cfg (c'.pos+c'.n) values') (r'*c.od+j) := by
  intro r row r' row' place query cached j small
  obtain ⟨_,done,rows⟩ := attnOp_rows (h:=h) fits room keys values
  rw [← cfg,← od] at fits'
  obtain ⟨_,done',rows'⟩ := attnOp_rows (h:=h') fits' room' keys' values'
  cases done
  cases done'
  have value := rows' r' row' j (od ▸ small)
  rw [numerics,cfg,node,od,← place] at value
  rw [rows r row j small,value]
  obtain ⟨_,square,wide,_,even,_,whole,source⟩ := of_decide_eq_true fits
  refine attended_near wide even (fun x inside => query x ?_) (fun head inside s upto d lane => ?_) (whole ▸ small)
  · rw [source,whole]
    exact inside
  · have lane : d < c.cfg.kvHeadDim := square ▸ lane
    have below : s < c.pos+c.n ∧ s < c'.pos+c'.n := by omega
    have seen (m m' : Nat → Nat → Nat → K) (same : m head s d = m' head s d) :
        (seenBelow c.cfg (c.pos+c.n) m head s d).getD 0 = (seenBelow c.cfg (c'.pos+c'.n) m' head s d).getD 0 := by
      rw [seenBelow_at m inside below.1 lane,seenBelow_at m' inside below.2 lane,same]
    obtain ⟨key,value⟩ := cached head inside s upto d lane
    exact ⟨seen keys keys' key,seen values values' value⟩

end Attention

structure StateDone (out : Option ((Nat → K) × (Nat → K))) (n od : Nat) (next : Nat → (Nat → K) → Nat → K) (v : Nat → (Nat → K) → Nat → K)
    (start : Nat → K) : Prop where
  rows : ∃ dst,out = some (dst,afterRows next start n) ∧ ∀ p < n,∀ j < od,dst (p*od+j) = v p (afterRows next start p) j

section States
variable {K : Type} [Field K] {h : Host K} {t : Option TensorInfo} {n : Nat}

theorem Weight.buffer_upto {w : Weight K} (some' : 0 < n) (inside : n ≤ w.tensor.nElement) : w.buffer n = some (w.upto n) := by
  unfold Weight.buffer tensorGetF32Batch
  rw [if_neg (by omega)]
  refine congrArg some (funext fun j => ?_)
  change ggufDequantBatch w.source w.tensor.type 0 n (fun _ => 0) j = _
  rw [ggufDequantBatch_exact,Nat.zero_add]
  rfl

theorem holds_some (fits : holds t n = true) : 0 < n ∧ ∃ info,t = some info ∧ n ≤ info.nElement := by
  cases t with
  | none => cases fits
  | some info =>
    obtain ⟨some',inside⟩ := of_decide_eq_true fits
    exact ⟨some',info,rfl,inside⟩

theorem holds_buffer (fits : holds t n = true) : (t.bind fun t => (h.weight t).buffer n) =
    some (valueOf (t.map h.toNumerics.weight) fun w => w.upto n) := by
  cases t with
  | none => cases fits
  | some t =>
    obtain ⟨some',inside⟩ := of_decide_eq_true fits
    exact Weight.buffer_upto (w:=h.weight t) some' inside

theorem holds_optional (fits : holdsOptional t n = true) : h.optional t n = some (t.map fun t => (h.toNumerics.weight t).upto n) := by
  cases t with
  | none => rfl
  | some t =>
    obtain ⟨some',inside⟩ := of_decide_eq_true fits
    exact congrArg (Option.map some) (Weight.buffer_upto (w:=h.weight t) some' inside)

variable [LinearOrder K] {c : OpCtx K} {w : Nat → Nat} {start : Nat → K}

omit [LinearOrder K] in
theorem scanInput_row (s : ScanShape) (xbc proj dst : Nat → K) (p : Nat) : scanInput s ⟨0,n,xbc,proj,dst⟩ p =
    scanInput s ⟨0,1,fun j => xbc (p*s.convWidth+j),fun j => proj (p*s.projWidth+j),fun _ => 0⟩ 0 := by
  simp only [scanInput,Nat.zero_add,Nat.zero_mul,Nat.add_assoc]

theorem stateOp_rows (window : Window c false) (fits : stateFits c.node c.od c.nState w false = true) :
    StateDone (h.stateOp c start) c.n c.od
      (fun r state => (h.stateValue c.node.op c.node.weight (fun k => c.node.param (k+1)) c.od (fun k j => c.src k (r*w k+j)) state).1)
      (fun r state => (h.stateValue c.node.op c.node.weight (fun k => c.node.param (k+1)) c.od (fun k j => c.src k (r*w k+j)) state).2) start := by
  obtain ⟨base,r⟩ := window.whole
  unfold stateFits at fits
  rw [Bool.and_eq_true_iff,Bool.and_eq_true_iff,Bool.and_eq_true_iff] at fits
  obtain ⟨⟨⟨wide,_⟩,slot⟩,fits⟩ := fits
  have wide := of_decide_eq_true wide
  have slot := of_decide_eq_true slot
  unfold Host.stateOp Numerics.stateValue
  rw [if_neg (by omega)]
  cases op : c.node.op with
  | ssmConv =>
    simp only [op] at fits ⊢
    obtain ⟨weight,source⟩ := Bool.and_eq_true_iff.mp fits
    rw [holds_buffer weight,base,r,of_decide_eq_true source]
    obtain ⟨state,rows⟩ := @opSsmConv_rows K _ (c.node.param 1) c.od (valueOf ((c.node.weight 0).map h.toNumerics.weight)
      fun w => w.upto (c.node.param 1*c.od)) ⟨0,c.n,c.src 0,h.junk⟩ start
    unfold ssmRow at state rows
    simp only [Nat.zero_add] at state rows
    refine ⟨_,congrArg some (Prod.ext rfl state),rows⟩
  | ssmDelta =>
    simp only [op] at fits ⊢
    rw [Bool.and_eq_true_iff,Bool.and_eq_true_iff,Bool.and_eq_true_iff] at fits
    obtain ⟨⟨⟨aLog,dtBias⟩,norm⟩,shape⟩ := fits
    obtain ⟨some',keys,narrow,whole,fused,alpha,beta⟩ := of_decide_eq_true shape
    rw [holds_buffer aLog,holds_buffer dtBias,holds_optional norm,base,r,fused,alpha,beta]
    let s : DeltaShape := ⟨c.node.param 1,c.node.param 2,c.node.param 3⟩
    have dim : s.keyDim = s.nK*s.hd := u32_of_lt keys
    have stride : s.stride = 2*(c.node.param 2*c.node.param 3)+c.node.param 1*c.node.param 3 := by
      rw [DeltaShape.stride,dim]
      rfl
    obtain ⟨dst,done,rows⟩ := @opSsmDelta_rows K _ h.lm s defaultEps _ ⟨_,_,_⟩ some' keys narrow
      ⟨0,c.n,c.src 0,c.src 1,c.src 2,h.junk⟩ start
    unfold rowInput at done rows
    rw [stride] at done rows
    simp only [Nat.zero_add] at done rows
    rw [whole]
    exact ⟨dst,done,rows⟩
  | mamba2Conv =>
    simp only [op] at fits ⊢
    rw [Bool.and_eq_true_iff,Bool.and_eq_true_iff] at fits
    obtain ⟨⟨weight,bias⟩,shape⟩ := fits
    obtain ⟨inner,groups,cells,narrow,whole,source⟩ := of_decide_eq_true shape
    let s : Mamba2Shape := ⟨c.node.param 1,c.node.param 2,c.node.param 3,c.node.param 4,c.node.param 5⟩
    have conv : s.convDim = c.node.param 2+2*c.node.param 3*c.node.param 4 :=
      u32_of_lt (show c.node.param 2+2*c.node.param 3*c.node.param 4 < 2^32 by omega)
    have proj : s.projW = w 0 := by
      rw [Mamba2Shape.projW,conv,source]
      exact u32_of_lt narrow
    have taps : s.ck ≠ 0 := by
      intro none'
      have room := (holds_some weight).1
      rw [show c.node.param 1 = 0 from none',Nat.zero_mul] at room
      exact absurd room (Nat.lt_irrefl 0)
    rw [← conv] at weight bias whole
    rw [holds_buffer weight,holds_optional bias,base,r,whole]
    obtain ⟨dst,done,rows⟩ := @opMamba2Conv_rows K _ (valueOf ((c.node.weight 0).map h.toNumerics.weight)
        fun w => w.upto (c.node.param 1*s.convDim)) h.lm.exp s ((c.node.weight 1).map fun t => (h.toNumerics.weight t).upto s.convDim)
      ⟨taps,inner.ne',groups.ne',cells.ne'⟩ ⟨0,c.n,c.src 0,h.junk⟩ start
    have raw : mamba2Raw s (⟨0,c.n,c.src 0,h.junk⟩ : ConvCall K) = fun p ch => c.src 0 (p*w 0+(s.dInner+ch)) := by
      funext p ch
      rw [mamba2Raw,proj,Nat.zero_add,Nat.add_assoc]
    rw [raw] at done rows
    exact ⟨dst,done,rows⟩
  | mamba2Scan =>
    simp only [op] at fits ⊢
    rw [Bool.and_eq_true_iff,Bool.and_eq_true_iff,Bool.and_eq_true_iff,Bool.and_eq_true_iff] at fits
    obtain ⟨⟨⟨⟨avec,dvec⟩,dtb⟩,norm⟩,shape⟩ := fits
    obtain ⟨proper,narrow,whole,conv,proj⟩ := of_decide_eq_true shape
    have exact' := exact_widths proper narrow
    rw [holds_buffer avec,holds_buffer dvec,holds_buffer dtb,holds_optional norm,base,r,whole,conv,proj]
    generalize same : (⟨c.node.param 1,c.node.param 2,c.node.param 3,c.node.param 4,c.node.param 5⟩ : ScanShape) = s at proper exact' ⊢
    have inner : c.node.param 5 = s.dInner := by rw [← same]
    rw [inner]
    obtain ⟨dst,done,rows⟩ := @opMamba2Scan_rows K _ _ h.lm s ⟨_,_,_,_⟩ defaultEps proper exact' ⟨0,c.n,c.src 0,c.src 1,h.junk⟩ start
    rw [show scanInput s (⟨0,c.n,c.src 0,c.src 1,h.junk⟩ : ScanCall K) = _ from funext (scanInput_row s (c.src 0) (c.src 1) h.junk)] at done rows
    refine ⟨dst,done,?_⟩
    rw [← exact'.inner] at rows
    exact rows
  | _ => simp [op] at fits

theorem stateValue_near {num : Numerics K} {node : GraphNode} {od nState : Nat} {sink : Bool} (fits : stateFits node od nState w sink = true)
    {x y : Nat → Nat → K} (same : ∀ k,∀ j < w k,x k j = y k j) (state : Nat → K) :
    let v x := num.stateValue node.op node.weight (fun k => node.param (k+1)) od x state
    (v x).1 = (v y).1 ∧ ∀ j < od,(v x).2 j = (v y).2 j := by
  intro v
  unfold stateFits at fits
  rw [Bool.and_eq_true_iff,Bool.and_eq_true_iff,Bool.and_eq_true_iff] at fits
  replace fits := fits.2
  unfold v Numerics.stateValue
  cases op : node.op with
  | ssmConv =>
    simp only [op] at fits ⊢
    have source := of_decide_eq_true (Bool.and_eq_true_iff.mp fits).2
    have row : ∀ j < od,x 0 j = y 0 j := fun j small => same 0 j (source ▸ small)
    exact ⟨shiftState_congr row,fun j small => tapSum_congr (row j small)⟩
  | ssmDelta =>
    simp only [op] at fits ⊢
    obtain ⟨some',keys,_,whole,fused,alpha,beta⟩ := of_decide_eq_true (Bool.and_eq_true_iff.mp fits).2
    let s : DeltaShape := ⟨node.param 1,node.param 2,node.param 3⟩
    have stride : s.stride = w 0 := by
      rw [DeltaShape.stride,DeltaShape.keyDim,u32_of_lt keys,fused]
      rfl
    have rows : ∀ j < s.stride,x 0 j = y 0 j := fun j small => same 0 j (stride ▸ small)
    have rates : ∀ h < s.nV,x 1 h = y 1 h ∧ x 2 h = y 2 h := fun h head => ⟨same 1 h (alpha ▸ head),same 2 h (beta ▸ head)⟩
    exact ⟨deltaNext_same some' (deltaInput_same keys rows rates) state,fun j small =>
      deltaOut_same some' (deltaInput_same keys rows rates) _ state (small.trans_eq whole)⟩
  | mamba2Conv =>
    simp only [op] at fits ⊢
    obtain ⟨_,_,_,narrow,whole,source⟩ := of_decide_eq_true (Bool.and_eq_true_iff.mp fits).2
    have conv : (⟨node.param 1,node.param 2,node.param 3,node.param 4,node.param 5⟩ : Mamba2Shape).convDim = od :=
      (u32_of_lt (show node.param 2+2*node.param 3*node.param 4 < 2^32 by omega)).trans whole.symm
    have row : ∀ j < od,x 0 (node.param 2+j) = y 0 (node.param 2+j) := fun j small => same 0 _ (by omega)
    rw [conv]
    exact ⟨shiftState_congr row,fun j small => congrArg (fun sum => silu num.lm.exp (biased _ sum j)) (tapSum_congr (row j small))⟩
  | mamba2Scan =>
    simp only [op] at fits ⊢
    obtain ⟨proper,narrow,whole,conv,proj⟩ := of_decide_eq_true (Bool.and_eq_true_iff.mp fits).2
    generalize shape : (⟨node.param 1,node.param 2,node.param 3,node.param 4,node.param 5⟩ : ScanShape) = s at proper narrow conv proj ⊢
    have near : SameScan s (scanInput s ⟨0,1,x 0,x 1,fun _ => 0⟩ 0) (scanInput s ⟨0,1,y 0,y 1,fun _ => 0⟩ 0) := by
      have groups : 2*s.ng*s.ds = 2*(s.ng*s.ds) := Nat.mul_assoc _ _ _
      have wide : w 0 = s.inner+2*(s.ng*s.ds) := by rw [conv,ScanShape.convWidth,groups]
      have long : w 1 = s.convWidth+s.inner+s.nh := proj
      simp only [scanInput,Nat.zero_add,Nat.zero_mul]
      refine ⟨fun ii inside => same 0 _ (by omega),fun g group i cell => same 0 _ ?_,fun g group i cell => same 0 _ ?_,
        fun ii inside => same 1 _ (by omega),fun h head => same 1 _ (by omega)⟩
      · have inside := row_below group cell
        omega
      · have inside := row_below group cell
        omega
    have inner : od = s.inner := by
      rw [whole,← (exact_widths proper narrow).inner,← shape]
    exact ⟨scanNext_same proper near,fun j small => scanOut_same proper near (inner ▸ small)⟩
  | _ => exact ⟨rfl,fun _ _ => rfl⟩

omit [Field K] [LinearOrder K] in
theorem afterRows_add (next : Nat → (Nat → K) → Nat → K) (start : Nat → K) (a b : Nat) :
    afterRows next start (a+b) = afterRows (fun p => next (a+p)) (afterRows next start a) b := by
  induction b with
  | zero => rfl
  | succ b ih =>
    rw [← Nat.add_assoc,afterRows,Nat.fold_succ,afterRows,Nat.fold_succ]
    exact congrArg (next (a+b)) ih

def OpCtx.front (c : OpCtx K) (n : Nat) : OpCtx K := {c with r:=n,n:=n}

def OpCtx.back (c : OpCtx K) (w : Nat → Nat) (n m : Nat) : OpCtx K :=
  {c with r:=m,n:=m,pos:=c.pos+n,src:=fun k x => c.src k (n*w k+x)}

-- A batch in two pieces, the second from the state that the first has left.
theorem stateOp_split {h' : Host K} {m : Nat} (numerics : h'.toNumerics = h.toNumerics) (window : Window c false)
    (fits : stateFits c.node c.od c.nState w false = true) (cut : c.n = n+m) (some' : 0 < n) (some'' : 0 < m) :
    ∃ dst last front middle back,h.stateOp c start = some (dst,last) ∧ h'.stateOp (c.front n) start = some (front,middle) ∧
      h'.stateOp (c.back w n m) middle = some (back,last) ∧ (∀ x < n*c.od,dst x = front x) ∧ ∀ x < m*c.od,dst (n*c.od+x) = back x := by
  obtain ⟨base,r⟩ := window.whole
  have small := window.small
  have windowFront : Window (c.front n) false := ⟨base,rfl,some',by change c.pos+n < 2^32; omega⟩
  have windowBack : Window (c.back w n m) false := ⟨base,rfl,some'',by change c.pos+n+m < 2^32; omega⟩
  obtain ⟨dst,done,rows⟩ := @stateOp_rows K _ h _ c w start window fits
  obtain ⟨front,done₁,rows₁⟩ := @stateOp_rows K _ h' _ (c.front n) w start windowFront fits
  rw [numerics] at done₁ rows₁
  set next := fun r state => (h.stateValue c.node.op c.node.weight (fun k => c.node.param (k+1)) c.od (fun k j => c.src k (r*w k+j)) state).1
    with step
  obtain ⟨back,done₂,rows₂⟩ := @stateOp_rows K _ h' _ (c.back w n m) w (afterRows next start n) windowBack fits
  rw [numerics] at done₂ rows₂
  have shifted (r : Nat) : (fun k j => (c.back w n m).src k (r*w k+j)) = fun k j => c.src k ((n+r)*w k+j) := by
    funext k j
    change c.src k (n*w k+(r*w k+j)) = _
    rw [Nat.add_mul,Nat.add_assoc]
  simp only [shifted] at done₂ rows₂
  have wide := Nat.pos_of_ne_zero (stateFits_width fits)
  refine ⟨dst,_,front,_,back,done,done₁,done₂.trans ?_,fun x inside => ?_,fun x inside => ?_⟩
  · rw [cut,afterRows_add next start n m]
    rfl
  · have row := (Nat.div_lt_iff_lt_mul wide).mpr inside
    have lane := Nat.mod_lt x wide
    have value := rows (x/c.od) (by omega) (x%c.od) lane
    have value₁ := rows₁ (x/c.od) row (x%c.od) lane
    rw [Nat.div_add_mod' x c.od] at value
    rw [show (c.front n).od = c.od from rfl,Nat.div_add_mod' x c.od] at value₁
    exact value.trans value₁.symm
  · have row := (Nat.div_lt_iff_lt_mul wide).mpr inside
    have lane := Nat.mod_lt x wide
    have value := rows (n+x/c.od) (by omega) (x%c.od) lane
    have value₂ := rows₂ (x/c.od) row (x%c.od) lane
    rw [Nat.add_mul,Nat.add_assoc,Nat.div_add_mod' x c.od,afterRows_add] at value
    rw [show (c.back w n m).od = c.od from rfl,Nat.div_add_mod' x c.od] at value₂
    exact value.trans value₂.symm

end States

def convCtx : OpCtx ℚ :=
  ⟨⟨1,1,1,1,0,3,1,5⟩,⟨.ssmConv,0,.cpu,[some 0],[some (bytesTensor 2 1)],[0,2],0⟩,1,3,0,4,3,1,fun _ x => x,fun _ => 1⟩

theorem convolution_split : ∃ dst last front middle back,scalarHost.stateOp convCtx (fun _ => 1) = some (dst,last) ∧
    threadedHost.stateOp (convCtx.front 1) (fun _ => 1) = some (front,middle) ∧
    threadedHost.stateOp (convCtx.back (fun _ => 1) 1 2) middle = some (back,last) ∧
    (∀ x < 1*1,dst x = front x) ∧ ∀ x < 2*1,dst (1*1+x) = back x :=
  @stateOp_split ℚ _ scalarHost 1 _ convCtx (fun _ => 1) (fun _ => 1) threadedHost 2 rfl ⟨rfl,rfl,by decide,by decide⟩ (by decide) rfl (by decide) (by decide)

def sharedHeads : ArchConfig := ⟨2,1,1,1,0,3,1,5⟩

def queriesCtx : OpCtx ℚ := ⟨sharedHeads,⟨.attn,0,.cpu,[some 0,some 1,some 2],[],[0,0],0⟩,2,2,0,1,2,0,fun _ x => x,fun _ => 1⟩

def queryCtx : OpCtx ℚ := ⟨sharedHeads,⟨.attn,0,.cpu,[some 0,some 1,some 2],[],[0,0],0⟩,2,1,0,2,1,0,fun _ x => ((2+x : Nat) : ℚ),fun _ => 1⟩

theorem query_window :
    (List.range 2).map (fun j => scalarHost.attnOp 4 queriesCtx (seenBelow sharedHeads (1+2) fun _ s _ => s) (seenBelow sharedHeads (1+2) fun _ s _ => s) (1*2+j)) =
      (List.range 2).map fun j =>
        threadedHost.attnOp 3 queryCtx (seenBelow sharedHeads (2+1) fun _ s _ => s) (seenBelow sharedHeads (2+1) fun _ s _ => s) (0*2+j) := by
  refine List.map_congr_left fun j listed => ?_
  refine @attnOp_window ℚ _ _ scalarHost queriesCtx 4 (fun _ => 2) threadedHost queryCtx 3 rfl rfl rfl rfl (by decide) (by decide) (by decide) (by decide)
    (fun _ s _ => s) (fun _ s _ => s) (fun _ s _ => s) (fun _ s _ => s) 1 (by decide) 0 (by decide) rfl (fun j _ => ?_) (fun _ _ _ _ _ _ => ⟨rfl,rfl⟩) j
    (List.mem_range.mp listed)
  change ((1*2+j : Nat) : ℚ) = ((2+(0*2+j) : Nat) : ℚ)
  congr 1
  omega

end TinyLlama.Cpu
