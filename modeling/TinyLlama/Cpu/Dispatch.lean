import TinyLlama.Cpu.Positions
import TinyLlama.Cpu.Recurrent
import TinyLlama.Graph.Orientation

-- backend/cpu/cpu_op.c: cpu_graph_op, and its ops as formulas over one position.
namespace TinyLlama.Cpu
open Gguf Quants Access TinyLlama.Graph Interleave Sweep Cells Turns

structure Numerics (K : Type) where
  lm : Libm K
  tanh : K → K
  trig : Trig K
  float : Nat → K
  source : TensorInfo → Source K

structure Host (K : Type) extends Numerics K where
  avx2 : Bool
  stale : Nat → Nat
  pool : Option (Pool Cell K)
  junk : Nat → K

-- A node with its window of rows: r rows of od floats from batch row `base` on, in a batch of n.
structure OpCtx (K : Type) where
  cfg : ArchConfig
  node : GraphNode
  od : Nat
  r : Nat
  base : Nat
  pos : Nat
  n : Nat
  nState : Nat
  src : Nat → Nat → K
  tok : Nat → Nat

section Operators
variable {K : Type} [Field K] [LinearOrder K]

def defaultEps : K := 1/(1000000 : Nat)

def Numerics.weight (num : Numerics K) (t : TensorInfo) : Weight K := ⟨false,fun _ => 0,num.source t,t⟩
def Host.weight (h : Host K) (t : TensorInfo) : Weight K := ⟨h.avx2,h.stale,h.source t,t⟩

def opMatmulRows (h : Host K) (trans : Bool) (c : OpCtx K) (w : Weight K) : Option (Nat → K) :=
  (opMatmul w trans (c.src 0) c.base c.r h.pool fun _ => 0).bind fun out => if out.1 then some fun p => out.2 (.y p) else none

-- OP_INPUT and the ops on a cache are not among these; the copies are the executor's.
def Host.graphOp (h : Host K) (c : OpCtx K) : Option (Nat → K) :=
  let p := c.node.param
  let w := (c.node.weight 0).map h.weight
  let call : RowCall K := ⟨c.base,c.r,c.src 0,h.junk⟩
  let rope : RopeCall K := ⟨h.float (p 0),c.pos,c.base,c.r,c.src 0,h.junk⟩
  if c.od = 0 then none
  else match c.node.op with
    | .embed => w.bind fun w => opEmbed w c.cfg.nVocab c.od c.tok c.n h.junk
    | .rmsNorm => w.bind fun w => opRmsNorm h.lm w defaultEps c.od call
    | .rmsNormHeads => w.bind fun w => opRmsNormHeads h.lm w defaultEps ⟨p 0,p 1,p 2,p 3⟩ c.od call
    | .matmul | .matmulArry => w.bind (opMatmulRows h false c)
    | .matmulT => w.bind (opMatmulRows h true c)
    | .bias => w.bind fun w => opBias w c.od call
    | .add => opBinary (· + ·) c.od c.base c.r (c.src 0) (c.src 1) h.junk
    | .mul => opBinary (· * ·) c.od c.base c.r (c.src 0) (c.src 1) h.junk
    | .silu => opSilu h.lm c.od call
    | .gelu => opGelu h.tanh c.od call
    | .scale => opScale (h.float (p 0)) c.od call
    | .softcap => opSoftcap h.tanh (h.float (p 0)) c.od call
    | .softmax => opSoftmax h.lm c.od call
    | .ropeNeox => opRopeNeox h.trig ⟨p 1,p 2,p 3⟩ c.od rope
    | .ropeNorm => opRopeNorm h.trig ⟨p 1,p 2,p 3⟩ c.od rope
    | .sigmoidGate => opSigmoidGate h.lm (p 0) (p 1) c.od c.base c.r (c.src 0) (c.src 1) h.junk
    | .h2d | .d2h => some (splice h.junk 0 (c.r*c.od) (c.src 0))
    | _ => none

def valueOf {α : Type} (o : Option α) (f : α → Nat → K) : Nat → K := (o.map f).getD fun _ => 0

def Numerics.rowValue (num : Numerics K) (c : ArchConfig) (op : GraphOp) (t : Option TensorInfo) (p : Nat → Nat) (od q id : Nat)
    (x : Nat → Nat → K) : Nat → K :=
  let w := t.map num.weight
  match op with
  | .embed => valueOf w fun w => embedding w c.nVocab od id
  | .rmsNorm => valueOf w fun w => normedEntry num.lm defaultEps od w.element (x 0)
  | .rmsNormHeads => valueOf w fun w => headNormedEntry num.lm defaultEps ⟨p 0,p 1,p 2,p 3⟩ w.element (x 0)
  | .matmul | .matmulArry => valueOf w fun w => multipliedRow w.source w.tensor false (x 0)
  | .matmulT => valueOf w fun w => multipliedRow w.source w.tensor true (x 0)
  | .bias => valueOf w fun w => biasedEntry w od (x 0)
  | .add => fun j => x 0 j+x 1 j
  | .mul => fun j => x 0 j*x 1 j
  | .silu => fun j => silu num.lm.exp (x 0 j)
  | .gelu => fun j => gelu num.tanh (x 0 j)
  | .scale => fun j => x 0 j*num.float (p 0)
  | .softcap => fun j => num.tanh (x 0 j/num.float (p 0))*num.float (p 0)
  | .softmax => softmax num.lm.exp (x 0) od
  | .ropeNeox => rotatedRow num.trig (neoxPair (p 3)) (p 3/2) (ropeAngle num.trig (num.float (p 0)) (p 3) q) ⟨p 1,p 2,p 3⟩ (x 0)
  | .ropeNorm => rotatedRow num.trig normPair ((p 3+1)/2) (ropeAngle num.trig (num.float (p 0)) (p 3) q) ⟨p 1,p 2,p 3⟩ (x 0)
  | .sigmoidGate => gatedEntry num.lm (p 1) (x 0) (x 1)
  | .h2d | .d2h => x 0
  | _ => fun _ => 0

end Operators

section Shapes

-- Heads of a row whose pairs end inside of it.
def ropeFits (heads hdim span od : Nat) : Bool := heads = 0 ∨ (heads-1)*hdim+span ≤ od

def matmulFits (t : TensorInfo) (trans : Bool) (od w : Nat) : Bool :=
  t.ndim = 2 ∧ t.nElement = outputs t trans*inputs t trans ∧ 0 < inputs t trans ∧ outputs t trans < 2^31 ∧ inputs t trans < 2^32 ∧
    od = outputs t trans ∧ w = inputs t trans

-- A node whose op finds its sources, `w k` floats wide, and its weight as large as it reads them.
def opFits (c : ArchConfig) (node : GraphNode) (od : Nat) (w : Nat → Nat) (sink : Bool) : Bool :=
  let p := node.param
  od ≠ 0 && match node.op with
  | .embed => !sink && (node.weight 0).any fun t => c.nVocab*od ≤ t.nElement
  | .rmsNorm => (node.weight 0).any fun t => od < 2^31 ∧ od ≤ t.dim.getD 0 0 ∧ od ≤ t.nElement ∧ w 0 = od
  | .rmsNormHeads => (node.weight 0).any fun t =>
    0 < p 1 ∧ p 1 ≤ t.nElement ∧ p 3 = p 1 ∧ od = p 0*p 1 ∧ w 0 = p 0*p 2 ∧ p 1 ≤ p 2
  | .matmul | .matmulArry => (node.weight 0).any fun t => matmulFits t false od (w 0)
  | .matmulT => (node.weight 0).any fun t => matmulFits t true od (w 0)
  | .bias => (node.weight 0).any fun t => 0 < (if t.nElement < od then u32 t.nElement else od) ∧ w 0 = od
  | .add | .mul => w 0 = od ∧ w 1 = od
  | .silu | .gelu => w 0 = od ∧ od < 2^31
  | .softmax => w 0 = od ∧ od < 2^32
  | .scale | .softcap => w 0 = od
  | .ropeNeox => w 0 = od ∧ ropeFits (p 1) (p 2) (2*(p 3/2)) od
  | .ropeNorm => w 0 = od ∧ ropeFits (p 1) (p 2) (2*((p 3+1)/2)) od ∧ p 3 < 2^32-1
  | .sigmoidGate => od = p 0*p 1 ∧ w 0 = od ∧ w 1 = p 0*2*p 1
  | .h2d | .d2h => !sink && w 0 = od
  | _ => false

structure Window (c : OpCtx K) (sink : Bool) : Prop where
  base : c.base = if sink then c.n-1 else 0
  r : c.r = if sink then 1 else c.n
  some' : 0 < c.n
  small : c.pos+c.n < 2^32

end Shapes

section Windows
variable {K : Type} {c : OpCtx K} {w : Nat → Nat} {sink : Bool}

theorem RowsDone.congr {out : Option (Nat → K)} {r od : Nat} {v v' : Nat → Nat → K} (rows : RowsDone out r od v)
    (same : ∀ p < r,∀ j < od,v p j = v' p j) : RowsDone out r od v' := by
  obtain ⟨dst,done,values⟩ := rows
  exact ⟨dst,done,fun p below j small => (values p below j small).trans (same p below j small)⟩

theorem Window.inside (window : Window c sink) {p : Nat} (row : p < c.r) : c.base+p < c.n := by
  have base := window.base
  have r := window.r
  have some' := window.some'
  cases sink with
  | true =>
    rw [if_pos rfl] at base r
    omega
  | false =>
    rw [if_neg Bool.false_ne_true] at base r
    omega

theorem Window.whole (window : Window c false) : c.base = 0 ∧ c.r = c.n := ⟨window.base,window.r⟩

theorem Window.batch (window : Window c sink) : 0 < c.r := by
  have some' := window.some'
  rw [window.r]
  split <;> omega

theorem weight_of {node : GraphNode} {f : TensorInfo → Bool} (any : (node.weight 0).any f = true) : ∃ t,node.weight 0 = some t ∧ f t = true :=
  (Option.any_eq_true f (node.weight 0)).mp any

theorem opFits_width (fits : opFits c.cfg c.node c.od w sink = true) : c.od ≠ 0 := by
  have parts := Bool.and_eq_true_iff.mp fits
  exact of_decide_eq_true parts.1

theorem ropeRow_window (window : Window c sink) {p : Nat} (row : p < c.r) (theta : K) (dst : Nat → K) :
    ropeRow ⟨theta,c.pos,c.base,c.r,c.src 0,dst⟩ c.od p = (fun j => c.src 0 ((c.base+p)*c.od+j)) ∧
      ropePos ⟨theta,c.pos,c.base,c.r,c.src 0,dst⟩ p = c.pos+c.base+p := by
  have inside := window.inside row
  have small := window.small
  refine ⟨funext fun j => ?_,u32_of_lt (by dsimp only; omega)⟩
  rw [ropeRow,u32_of_lt (by dsimp only; omega)]

theorem ropeFits_neox {s : RopeShape} {od : Nat} (fits : ropeFits s.heads s.hdim (2*(s.rdim/2)) od = true) :
    InRow (neoxPair s.rdim) (s.rdim/2) s od := by
  intro h head i below
  have upto := Nat.mul_le_mul_right s.hdim (show h ≤ s.heads-1 by omega)
  have room := of_decide_eq_true fits
  dsimp only [neoxPair]
  omega

theorem ropeFits_norm {s : RopeShape} {od : Nat} (fits : ropeFits s.heads s.hdim (2*((s.rdim+1)/2)) od = true) :
    InRow normPair ((s.rdim+1)/2) s od := by
  intro h head i below
  have upto := Nat.mul_le_mul_right s.hdim (show h ≤ s.heads-1 by omega)
  have room := of_decide_eq_true fits
  dsimp only [normPair]
  omega

theorem copied_done (window : Window c sink) (fits : (!sink && decide (w 0 = c.od)) = true) (v : Nat → K) :
    RowsDone (some (splice v 0 (c.r*c.od) (c.src 0))) c.r c.od fun p j => c.src 0 ((c.base+p)*w 0+j) := by
  obtain ⟨whole,source⟩ := Bool.and_eq_true_iff.mp fits
  rw [Bool.not_eq_true'] at whole
  subst whole
  obtain ⟨base,_⟩ := window.whole
  refine ⟨_,rfl,fun p below j small => ?_⟩
  have inside := row_below below small
  rw [splice,if_pos (by omega),Nat.sub_zero,base,Nat.zero_add,of_decide_eq_true source]

end Windows

section Rows
variable {K : Type} [Field K] {h : Host K} {c : OpCtx K} {w : Nat → Nat} {sink : Bool}

theorem opMatmulRows_done {trans : Bool} {t : TensorInfo} (window : Window c sink) (fits : matmulFits t trans c.od (w 0) = true)
    (wide : c.od ≠ 0) : RowsDone (opMatmulRows h trans c (h.weight t)) c.r c.od fun p =>
      multipliedRow (h.source t) t trans fun j => c.src 0 ((c.base+p)*w 0+j) := by
  obtain ⟨ndim,elements,deep,narrow,small,out,input⟩ := of_decide_eq_true fits
  have shape : Multiplies t trans := ⟨ndim,elements,by omega,deep,narrow,small⟩
  have rows := opMatmul_done shape h.avx2 h.stale (h.source t) (c.src 0) c.base window.batch h.pool fun _ => 0
  rw [out,input]
  exact rows

variable [LinearOrder K]

theorem graphOp_rows (window : Window c sink) (fits : opFits c.cfg c.node c.od w sink = true) (known : ∀ t < c.n,c.tok t < c.cfg.nVocab) :
    RowsDone (h.graphOp c) c.r c.od fun p => h.rowValue c.cfg c.node.op (c.node.weight 0) c.node.param c.od (c.pos+c.base+p) (c.tok (c.base+p))
      fun k j => c.src k ((c.base+p)*w k+j) := by
  have wide := opFits_width fits
  have some' := Nat.pos_of_ne_zero wide
  replace fits := (Bool.and_eq_true_iff.mp fits).2
  unfold Host.graphOp Numerics.rowValue
  rw [if_neg wide]
  cases op : c.node.op with
  | embed =>
    simp only [op] at fits ⊢
    obtain ⟨whole,fits⟩ := Bool.and_eq_true_iff.mp fits
    obtain ⟨t,weight,room⟩ := weight_of fits
    have room := of_decide_eq_true room
    rw [Bool.not_eq_true'] at whole
    subst whole
    obtain ⟨base,r⟩ := window.whole
    rw [weight,r,base]
    simp only [Nat.zero_add]
    refine (opEmbed_done (w:=h.weight t) some' h.junk fun p below => ?_).congr fun p below j small => rfl
    have id := known p below
    split
    · have next := Nat.mul_le_mul_right c.od (Nat.succ_le_of_lt id)
      rw [Nat.succ_mul] at next
      exact next.trans room
    · intro j small
      have place := row_below small id
      rw [Nat.mul_comm] at room
      exact place.trans_le room
  | rmsNorm =>
    simp only [op] at fits ⊢
    obtain ⟨t,weight,room⟩ := weight_of fits
    obtain ⟨small,narrow,inside,source⟩ := of_decide_eq_true room
    rw [weight]
    refine (opRmsNorm_done (w:=h.weight t) some' small narrow inside).congr fun p below j small => ?_
    rw [source]
    rfl
  | rmsNormHeads =>
    simp only [op] at fits ⊢
    obtain ⟨t,weight,room⟩ := weight_of fits
    obtain ⟨head,inside,packed,whole,source,_⟩ := of_decide_eq_true room
    rw [weight]
    refine (opRmsNormHeads_done (w:=h.weight t) (s:=⟨c.node.param 0,c.node.param 1,c.node.param 2,c.node.param 3⟩) head inside packed whole).congr
      fun p below j small => ?_
    rw [source]
    rfl
  | matmul =>
    simp only [op] at fits ⊢
    obtain ⟨t,weight,room⟩ := weight_of fits
    rw [weight]
    exact opMatmulRows_done window room wide
  | matmulArry =>
    simp only [op] at fits ⊢
    obtain ⟨t,weight,room⟩ := weight_of fits
    rw [weight]
    exact opMatmulRows_done window room wide
  | matmulT =>
    simp only [op] at fits ⊢
    obtain ⟨t,weight,room⟩ := weight_of fits
    rw [weight]
    exact opMatmulRows_done window room wide
  | bias =>
    simp only [op] at fits ⊢
    obtain ⟨t,weight,room⟩ := weight_of fits
    obtain ⟨some'',source⟩ := of_decide_eq_true room
    rw [weight]
    refine (opBias_done (w:=h.weight t) some'').congr fun p below j small => ?_
    rw [source]
    rfl
  | add =>
    simp only [op] at fits ⊢
    obtain ⟨one',two⟩ := of_decide_eq_true fits
    refine (opBinary_done _ c.base c.r (c.src 0) (c.src 1) h.junk).congr fun p below j small => ?_
    rw [one',two]
  | mul =>
    simp only [op] at fits ⊢
    obtain ⟨one',two⟩ := of_decide_eq_true fits
    refine (opBinary_done _ c.base c.r (c.src 0) (c.src 1) h.junk).congr fun p below j small => ?_
    rw [one',two]
  | silu =>
    simp only [op] at fits ⊢
    obtain ⟨source,small⟩ := of_decide_eq_true fits
    refine (opSilu_done small).congr fun p below j small => ?_
    rw [source]
    rfl
  | gelu =>
    simp only [op] at fits ⊢
    obtain ⟨source,small⟩ := of_decide_eq_true fits
    refine (opGelu_done small).congr fun p below j small => ?_
    rw [source]
    rfl
  | scale =>
    simp only [op] at fits ⊢
    refine (opScale_done _).congr fun p below j small => ?_
    rw [of_decide_eq_true fits]
    rfl
  | softcap =>
    simp only [op] at fits ⊢
    refine (opSoftcap_done _).congr fun p below j small => ?_
    rw [of_decide_eq_true fits]
    rfl
  | softmax =>
    simp only [op] at fits ⊢
    obtain ⟨source,small⟩ := of_decide_eq_true fits
    refine (opSoftmax_done small).congr fun p below j small => ?_
    rw [source]
    rfl
  | ropeNeox =>
    simp only [op] at fits ⊢
    obtain ⟨source,room⟩ := of_decide_eq_true fits
    refine (opRopeNeox_done h.trig (ropeFits_neox room) _).congr fun p below j small => ?_
    obtain ⟨row,pos⟩ := ropeRow_window window below (h.float (c.node.param 0)) h.junk
    rw [row,pos,source]
  | ropeNorm =>
    simp only [op] at fits ⊢
    obtain ⟨source,room,ends⟩ := of_decide_eq_true fits
    refine (opRopeNorm_done h.trig (ropeFits_norm room) ends _).congr fun p below j small => ?_
    obtain ⟨row,pos⟩ := ropeRow_window window below (h.float (c.node.param 0)) h.junk
    rw [row,pos,source]
  | sigmoidGate =>
    simp only [op] at fits ⊢
    obtain ⟨whole,one',two⟩ := of_decide_eq_true fits
    refine (opSigmoidGate_done whole c.base c.r (c.src 0) (c.src 1) h.junk).congr fun p below j small => ?_
    rw [one',two]
  | h2d =>
    simp only [op] at fits ⊢
    exact copied_done window fits h.junk
  | d2h =>
    simp only [op] at fits ⊢
    exact copied_done window fits h.junk
  | _ => simp [op] at fits

omit [LinearOrder K] in
theorem multipliedRow_near {s : Source K} {t : TensorInfo} {trans : Bool} {x y : Nat → K} (same : ∀ j < inputs t trans,x j = y j) {o : Nat} :
    multipliedRow s t trans x o = multipliedRow s t trans y o :=
  Finset.sum_congr rfl fun j listed => by rw [same j (Finset.mem_range.mp listed)]

theorem rowValue_near {num : Numerics K} {cfg : ArchConfig} {node : GraphNode} {od q id : Nat} (fits : opFits cfg node od w sink = true)
    {x y : Nat → Nat → K} (same : ∀ k,∀ j < w k,x k j = y k j) {j : Nat} (small : j < od) :
    num.rowValue cfg node.op (node.weight 0) node.param od q id x j = num.rowValue cfg node.op (node.weight 0) node.param od q id y j := by
  replace fits := (Bool.and_eq_true_iff.mp fits).2
  unfold Numerics.rowValue
  cases op : node.op with
  | embed => rfl
  | rmsNorm =>
    simp only [op] at fits ⊢
    obtain ⟨t,weight,room⟩ := weight_of fits
    rw [weight]
    exact normedEntry_near (fun i below => same 0 i (by rwa [(of_decide_eq_true room).2.2.2])) small
  | rmsNormHeads =>
    simp only [op] at fits ⊢
    obtain ⟨t,weight,room⟩ := weight_of fits
    obtain ⟨some',_,_,whole,source,apart⟩ := of_decide_eq_true room
    rw [weight]
    rw [whole] at small
    have head : j/node.param 1 < node.param 0 := (Nat.div_lt_iff_lt_mul some').mpr small
    refine normedEntry_near (fun d below => same 0 _ ?_) (Nat.mod_lt j some')
    rw [source]
    exact row_below head (below.trans_le apart)
  | matmul =>
    simp only [op] at fits ⊢
    obtain ⟨t,weight,room⟩ := weight_of fits
    rw [weight]
    exact multipliedRow_near fun j below => same 0 j (by rwa [(of_decide_eq_true room).2.2.2.2.2.2])
  | matmulArry =>
    simp only [op] at fits ⊢
    obtain ⟨t,weight,room⟩ := weight_of fits
    rw [weight]
    exact multipliedRow_near fun j below => same 0 j (by rwa [(of_decide_eq_true room).2.2.2.2.2.2])
  | matmulT =>
    simp only [op] at fits ⊢
    obtain ⟨t,weight,room⟩ := weight_of fits
    rw [weight]
    exact multipliedRow_near fun j below => same 0 j (by rwa [(of_decide_eq_true room).2.2.2.2.2.2])
  | bias =>
    simp only [op] at fits ⊢
    obtain ⟨t,weight,room⟩ := weight_of fits
    rw [weight]
    change biasedEntry _ od (x 0) j = biasedEntry _ od (y 0) j
    unfold biasedEntry
    rw [same 0 j (by rwa [(of_decide_eq_true room).2])]
  | add =>
    simp only [op] at fits ⊢
    obtain ⟨one',two⟩ := of_decide_eq_true fits
    rw [same 0 j (by rwa [one']),same 1 j (by rwa [two])]
  | mul =>
    simp only [op] at fits ⊢
    obtain ⟨one',two⟩ := of_decide_eq_true fits
    rw [same 0 j (by rwa [one']),same 1 j (by rwa [two])]
  | silu =>
    simp only [op] at fits ⊢
    rw [same 0 j (by rwa [(of_decide_eq_true fits).1])]
  | gelu =>
    simp only [op] at fits ⊢
    rw [same 0 j (by rwa [(of_decide_eq_true fits).1])]
  | scale =>
    simp only [op] at fits ⊢
    rw [same 0 j (by rwa [of_decide_eq_true fits])]
  | softcap =>
    simp only [op] at fits ⊢
    rw [same 0 j (by rwa [of_decide_eq_true fits])]
  | softmax =>
    simp only [op] at fits ⊢
    exact softmax_near _ (fun i below => same 0 i (by rwa [(of_decide_eq_true fits).1])) small
  | ropeNeox =>
    simp only [op] at fits ⊢
    obtain ⟨source,room⟩ := of_decide_eq_true fits
    exact rotatedRow_near num.trig (s:=⟨node.param 1,node.param 2,node.param 3⟩) (ropeFits_neox room) (fun i below => same 0 i (by rwa [source])) small
  | ropeNorm =>
    simp only [op] at fits ⊢
    obtain ⟨source,room,_⟩ := of_decide_eq_true fits
    exact rotatedRow_near num.trig (s:=⟨node.param 1,node.param 2,node.param 3⟩) (ropeFits_norm room) (fun i below => same 0 i (by rwa [source])) small
  | sigmoidGate =>
    simp only [op] at fits ⊢
    obtain ⟨whole,one',two⟩ := of_decide_eq_true fits
    have wide : 0 < node.param 1 := Nat.pos_of_ne_zero fun none' => by
      rw [whole,none',Nat.mul_zero] at small
      exact absurd small (Nat.not_lt_zero j)
    have head : j/node.param 1 < node.param 0 := (Nat.div_lt_iff_lt_mul wide).mpr (whole ▸ small)
    have lane := Nat.mod_lt j wide
    have place : j/node.param 1*2*node.param 1+node.param 1+j%node.param 1 < w 1 := by
      have block := row_below head (show node.param 1+j%node.param 1 < 2*node.param 1 by omega)
      rw [two,Nat.mul_assoc,Nat.mul_assoc,Nat.add_assoc]
      exact block
    rw [gatedEntry,gatedEntry,same 0 j (by rwa [one']),same 1 _ place]
  | h2d =>
    simp only [op] at fits ⊢
    exact same 0 j (by rwa [of_decide_eq_true (Bool.and_eq_true_iff.mp fits).2])
  | d2h =>
    simp only [op] at fits ⊢
    exact same 0 j (by rwa [of_decide_eq_true (Bool.and_eq_true_iff.mp fits).2])
  | _ => rfl

-- A row rests on its position, its token and its sources' rows: not on the batch around it, the
-- threads, the vector unit or what the slot has held.
theorem graphOp_window {h' : Host K} {c' : OpCtx K} {sink' : Bool} (numerics : h'.toNumerics = h.toNumerics) (cfg : c'.cfg = c.cfg)
    (node : c'.node = c.node) (od : c'.od = c.od) (window : Window c sink) (window' : Window c' sink')
    (fits : opFits c.cfg c.node c.od w sink = true) (fits' : opFits c.cfg c.node c.od w sink' = true)
    (known : ∀ t < c.n,c.tok t < c.cfg.nVocab) (known' : ∀ t < c'.n,c'.tok t < c.cfg.nVocab) :
    ∃ dst dst',h.graphOp c = some dst ∧ h'.graphOp c' = some dst' ∧ ∀ p < c.r,∀ p' < c'.r,c.pos+c.base+p = c'.pos+c'.base+p' →
      c.tok (c.base+p) = c'.tok (c'.base+p') → (∀ k,∀ j < w k,c.src k ((c.base+p)*w k+j) = c'.src k ((c'.base+p')*w k+j)) →
        ∀ j < c.od,dst (p*c.od+j) = dst' (p'*c.od+j) := by
  rw [← cfg,← node,← od] at fits'
  rw [← cfg] at known'
  obtain ⟨dst,done,rows⟩ := graphOp_rows (h:=h) window fits known
  obtain ⟨dst',done',rows'⟩ := graphOp_rows (h:=h') window' fits' known'
  refine ⟨dst,dst',done,done',fun p row p' row' place token sources j small => ?_⟩
  have value := rows' p' row' j (od ▸ small)
  rw [numerics,cfg,node,od,← place,← token] at value
  rw [rows p row j small,value]
  exact rowValue_near fits sources small

end Rows

def trialNumerics : Numerics ℚ :=
  ⟨⟨fun x => 1+x*x,fun x => x,fun x => x⟩,fun x => x,⟨fun _ => 1,fun _ => 0,fun x _ => x⟩,fun n => n,
    fun _ => ⟨fun a => UInt8.ofNat a,fun n => n,fun n => n,fun n => n,fun _ n => n⟩⟩

def scalarHost : Host ℚ := {trialNumerics with avx2:=false,stale:=fun _ => 0,pool:=none,junk:=fun _ => 0}

def threadedHost : Host ℚ := {trialNumerics with avx2:=true,stale:=fun a => a,pool:=some (firstThread Cell ℚ),junk:=fun p => p}

def projection : GraphNode := ⟨.matmul,0,.cpu,[some 0],[some (bytesTensor 2 3)],[],0⟩

def prefillCtx : OpCtx ℚ := ⟨⟨1,1,1,1,0,3,1,5⟩,projection,2,3,0,4,3,0,fun _ x => x,fun _ => 1⟩

def decodeCtx : OpCtx ℚ := ⟨⟨1,1,1,1,0,3,1,5⟩,projection,2,1,0,6,1,0,fun _ x => ((6+x : Nat) : ℚ),fun _ => 1⟩

theorem projection_window : ∃ dst dst',scalarHost.graphOp prefillCtx = some dst ∧ threadedHost.graphOp decodeCtx = some dst' ∧
    ∀ j < 2,dst (2*2+j) = dst' (0*2+j) := by
  have window : Window prefillCtx false := ⟨rfl,rfl,by decide,by decide⟩
  have window' : Window decodeCtx true := ⟨rfl,rfl,by decide,by decide⟩
  have known : 1 < 5 := by decide
  obtain ⟨dst,dst',done,done',rows⟩ := @graphOp_window ℚ _ scalarHost prefillCtx (fun _ => 3) false _ threadedHost decodeCtx true rfl rfl rfl rfl
    window window' (by decide) (by decide) (fun _ _ => known) fun _ _ => known
  refine ⟨dst,dst',done,done',rows 2 (by decide) 0 (by decide) rfl rfl fun k j small => ?_⟩
  change (((0+2)*3+j : Nat) : ℚ) = ((6+((0+0)*3+j) : Nat) : ℚ)
  congr 1
  omega

end TinyLlama.Cpu
