import TinyLlama.Graph.Build

-- model/llama.c, qwen25.c, gemma3.c and qwen35.c. Floats (rope bases, scales, caps) are their bits.
namespace TinyLlama.Graph
open Gguf

-- The flag of a weight whose rows are outputs: dim[0] is the input width.
def readsTransposed (t : TensorInfo) (input : Nat) : Bool := t.dim.getD 0 0 = input

def qDim (c : ArchConfig) : Nat := u32 (c.nHead*c.headDim)
def kvDim (c : ArchConfig) : Nat := u32 (c.nKvHead*c.kvHeadDim)

-- The FFN width every architecture takes from the first layer's gate.
def ffnHidden (s : Session) : Nat :=
  match s.layers 0 .ffnGate with
  | none => u32 (s.cfg.nEmbd*4)
  | some gate =>
    if gate.ndim ≥ 1 then
      if gate.dim.getD 0 0 > gate.dim.getD 1 0 then u32 (gate.dim.getD 0 0)
      else u32 (if gate.ndim ≥ 2 then gate.dim.getD 1 0 else gate.dim.getD 0 0)
    else u32 (s.cfg.nEmbd*4)

def addBias (src : Nat) (bias : Option TensorInfo) : Build Nat :=
  match bias with
  | none => pure src
  | some b => graphBias src b

structure LlamaWorkSpace where
  ffnHidden : Nat
  ropeTheta : Nat

def embedded (s : Session) (nTokens : Nat) : Build Nat := do
  let te ← given (s.tensors .tokenEmbd)
  require (te.ndim ≥ 2)
  let input ← graphInput nTokens
  graphEmbed input te nTokens

def lmHead (s : Session) (src : Nat) : Build Nat := do
  let out ← given ((s.tensors .output).or (s.tensors .tokenEmbd))
  graphMulMat src out (readsTransposed out s.cfg.nEmbd)

def swiglu (lw : TensorRole → Option TensorInfo) (c : ArchConfig) (fh hn : Nat) : Build Nat := do
  let tg ← given (lw .ffnGate)
  let tu ← given (lw .ffnUp)
  let td ← given (lw .ffnDown)
  let gate ← graphMulMat hn tg (readsTransposed tg c.nEmbd)
  let gate ← graphSilu gate
  let up ← graphMulMat hn tu (readsTransposed tu c.nEmbd)
  let mul ← graphBinary .mul gate up
  graphMulMat mul td (readsTransposed td fh)

def llamaLayer (s : Session) (ws : LlamaWorkSpace) (cur l : Nat) : Build Nat := do
  let c := s.cfg
  let lw := s.layers l
  let ropeDim := if c.ropeDim ≠ 0 then c.ropeDim else c.headDim
  let kvHeadDim := if c.kvHeadDim ≠ 0 then c.kvHeadDim else c.headDim
  graphSetLayer l
  let tq ← given (lw .attnQ)
  let tk ← given (lw .attnK)
  let tv ← given (lw .attnV)
  let tO ← given (lw .attnOut)
  let n ← graphRmsNorm cur (lw .attnNorm)
  let q ← graphMulMat n tq (qDim c ≠ c.nEmbd && readsTransposed tq c.nEmbd)
  let k ← graphMulMat n tk (readsTransposed tk c.nEmbd)
  let v ← graphMulMat n tv (readsTransposed tv c.nEmbd)
  let q ← addBias q (lw .attnQBias)
  let k ← addBias k (lw .attnKBias)
  let v ← addBias v (lw .attnVBias)
  let q ← graphRopeNorm q ws.ropeTheta c.nHead c.headDim ropeDim
  let k ← graphRopeNorm k ws.ropeTheta c.nKvHead kvHeadDim (if ropeDim ≤ kvHeadDim then ropeDim else kvHeadDim)
  let attn ← graphAttn q k v l 0
  let o ← graphMulMat attn tO (c.nEmbd ≠ qDim c && readsTransposed tO (qDim c))
  let h ← graphBinary .add cur o
  let hn ← graphRmsNorm h (lw .postAttnNorm)
  let down ← swiglu lw c ws.ffnHidden hn
  let cur ← graphBinary .add h down
  graphLayerBoundary cur s l

def overLayers (layer : Nat → Nat → Build Nat) (ls : List Nat) (cur : Nat) : Build Nat := ls.foldlM layer cur

def llamaGraphBuild (s : Session) (ws : LlamaWorkSpace) (nTokens : Nat) : Build Nat := do
  require (nTokens ≠ 0 ∧ nTokens ≤ s.ctxSize)
  let cur ← embedded s nTokens
  let cur ← overLayers (llamaLayer s ws) (List.range s.cfg.nLayer) cur
  graphSetLayer s.cfg.nLayer
  let fn ← graphRmsNorm cur (s.tensors .outputNorm)
  lmHead s fn

structure Qwen25Workspace where
  ffnHidden : Nat
  ropeTheta : Nat

def qwen25Layer (s : Session) (ws : Qwen25Workspace) (cur l : Nat) : Build Nat := do
  let c := s.cfg
  let lw := s.layers l
  graphSetLayer l
  let tq ← given (lw .attnQ)
  let tk ← given (lw .attnK)
  let tv ← given (lw .attnV)
  let tO ← given (lw .attnOut)
  let n ← graphRmsNorm cur (lw .attnNorm)
  let q ← graphMulMat n tq (qDim c ≠ c.nEmbd && readsTransposed tq c.nEmbd)
  let k ← graphMulMat n tk (readsTransposed tk c.nEmbd)
  let v ← graphMulMat n tv (readsTransposed tv c.nEmbd)
  let q ← addBias q (lw .attnQBias)
  let k ← addBias k (lw .attnKBias)
  let v ← addBias v (lw .attnVBias)
  let q ← graphRope q ws.ropeTheta c.nHead c.headDim c.headDim
  let k ← graphRope k ws.ropeTheta c.nKvHead c.kvHeadDim c.kvHeadDim
  let attn ← graphAttn q k v l 0
  let o ← graphMulMat attn tO (c.nEmbd ≠ qDim c && readsTransposed tO (qDim c))
  let h ← graphBinary .add cur o
  let hn ← graphRmsNorm h (lw .postAttnNorm)
  let down ← swiglu lw c ws.ffnHidden hn
  let cur ← graphBinary .add h down
  graphLayerBoundary cur s l

-- The final norm falls back to the last layer's post-attention norm.
def qwenFinalNorm (s : Session) : Option TensorInfo :=
  (s.tensors .outputNorm).or (s.layers (s.cfg.nLayer-1) .postAttnNorm)

def qwen25GraphBuild (s : Session) (ws : Qwen25Workspace) (nTokens : Nat) : Build Nat := do
  require (nTokens ≠ 0 ∧ nTokens ≤ s.ctxSize)
  let cur ← embedded s nTokens
  let cur ← overLayers (qwen25Layer s ws) (List.range s.cfg.nLayer) cur
  graphSetLayer s.cfg.nLayer
  let fn ← graphRmsNorm cur (qwenFinalNorm s)
  lmHead s fn

-- `embedScale` are the bits of sqrtf(n_embd).
structure Gemma3WorkSpace where
  ffnHidden : Nat
  ropeTheta : Nat
  ropeThetaSwa : Nat
  nSwa : Nat
  attnScale : Nat
  logitSoftcap : Nat
  embedScale : Nat

def gemma3Layer (s : Session) (ws : Gemma3WorkSpace) (cur l : Nat) : Build Nat := do
  let c := s.cfg
  let lw := s.layers l
  let isSwa : Bool := ws.nSwa > 0 ∧ l%6 ≠ 5
  let theta := if isSwa then ws.ropeThetaSwa else ws.ropeTheta
  let win := if isSwa then ws.nSwa else 0
  graphSetLayer l
  let tq ← given (lw .attnQ)
  let tk ← given (lw .attnK)
  let tv ← given (lw .attnV)
  let tO ← given (lw .attnOut)
  let tg ← given (lw .ffnGate)
  let tu ← given (lw .ffnUp)
  let td ← given (lw .ffnDown)
  let n ← graphRmsNorm cur (lw .attnNorm)
  let q ← graphMulMat n tq (qDim c ≠ c.nEmbd && readsTransposed tq c.nEmbd)
  let k ← graphMulMat n tk (readsTransposed tk c.nEmbd)
  let v ← graphMulMat n tv (readsTransposed tv c.nEmbd)
  let q ← graphRmsNormHeads q (lw .attnQNorm) c.nHead c.headDim c.headDim c.headDim
  let k ← graphRmsNormHeads k (lw .attnKNorm) c.nKvHead c.kvHeadDim c.kvHeadDim c.kvHeadDim
  let q ← graphRope q theta c.nHead c.headDim c.headDim
  let k ← graphRope k theta c.nKvHead c.kvHeadDim c.kvHeadDim
  let q ← graphScale q ws.attnScale
  let attn ← graphAttn q k v l win
  let o ← graphMulMat attn tO (c.nEmbd ≠ qDim c && readsTransposed tO (qDim c))
  let o ← graphRmsNorm o (lw .postAttnNorm)
  let h ← graphBinary .add cur o
  let hn ← graphRmsNorm h (lw .ffnNorm)
  let gate ← graphMulMat hn tg (readsTransposed tg c.nEmbd)
  let gate ← graphGelu gate
  let up ← graphMulMat hn tu (readsTransposed tu c.nEmbd)
  let mul ← graphBinary .mul gate up
  let down ← graphMulMat mul td (readsTransposed td ws.ffnHidden)
  let down ← graphRmsNorm down (lw .ffnPostNorm)
  let cur ← graphBinary .add h down
  graphLayerBoundary cur s l

def gemma3GraphBuild (s : Session) (ws : Gemma3WorkSpace) (nTokens : Nat) : Build Nat := do
  require (nTokens ≠ 0 ∧ nTokens ≤ s.ctxSize)
  let cur ← embedded s nTokens
  let cur ← graphScale cur ws.embedScale
  let cur ← overLayers (gemma3Layer s ws) (List.range s.cfg.nLayer) cur
  graphSetLayer s.cfg.nLayer
  let fn ← graphRmsNorm cur (s.tensors .outputNorm)
  let cur ← lmHead s fn
  if floatPositive ws.logitSoftcap then graphSoftcap cur ws.logitSoftcap else pure cur

-- `convState` and `ssmState` are each layer's buffers; 0 is NULL.
structure Qwen35Workspace where
  ffnHidden : Nat
  ropeTheta : Nat
  convState : Nat → Nat
  ssmState : Nat → Nat
  ssmHeadV : Nat
  ssmNK : Nat
  ssmNV : Nat
  ssmValDim : Nat
  convKernel : Nat

def ssmMmTrans (t : TensorInfo) (out input : Nat) : Bool :=
  if t.ndim < 2 then false
  else if t.dim.getD 0 0 = out ∧ t.dim.getD 1 0 = input then false
  else if t.dim.getD 0 0 = input ∧ t.dim.getD 1 0 = out then true
  else t.dim.getD 0 0 = input

-- silu(gate @ n) * x, where the layer has an output gate.
def outputGate (gate : Option TensorInfo) (x n width : Nat) (c : ArchConfig) : Build Nat :=
  match gate with
  | none => pure x
  | some ag => do
    let a ← graphMulMat n ag (ssmMmTrans ag width c.nEmbd)
    let a ← graphSilu a
    graphBinary .mul x a

def qwen35Ssm (s : Session) (ws : Qwen35Workspace) (conv : TensorInfo) (cur n l : Nat) : Build Nat := do
  let c := s.cfg
  let lw := s.layers l
  let qkv ← given (lw .attnQkv)
  let ta ← given (lw .ssmAlpha)
  let tb ← given (lw .ssmBeta)
  let tA ← given (lw .ssmA)
  let dt ← given (lw .ssmDtBias)
  let so ← given (lw .ssmOut)
  let convSt ← graphState (ws.convState l)
  let ssmSt ← graphState (ws.ssmState l)
  let f ← graphMulMat n qkv (readsTransposed qkv c.nEmbd)
  let f ← graphSsmConv f conv convSt ws.convKernel
  let f ← graphSilu f
  let a ← graphMulMat n ta (ssmMmTrans ta ws.ssmNV c.nEmbd)
  let b ← graphMulMat n tb (ssmMmTrans tb ws.ssmNV c.nEmbd)
  let d ← graphSsmDelta ⟨f,a,b,tA,dt,lw .ssmNorm,ssmSt,ws.ssmNV,ws.ssmNK,ws.ssmHeadV⟩
  let d ← outputGate (lw .attnGate) d n ws.ssmValDim c
  let y ← graphMulMat d so (ssmMmTrans so c.nEmbd ws.ssmValDim)
  graphBinary .add cur y

-- (u32)(t_q->dim[0] == n_embd ? t_q->dim[1] : t_q->dim[0])
def qProj (tq : TensorInfo) (c : ArchConfig) : Nat :=
  u32 (if tq.dim.getD 0 0 = c.nEmbd then tq.dim.getD 1 0 else tq.dim.getD 0 0)

def optionalNorm (src : Nat) (norm : Option TensorInfo) (nHeads headDim : Nat) : Build Nat :=
  match norm with
  | none => pure src
  | some t => graphRmsNormHeads src (some t) nHeads headDim headDim headDim

-- With a Q norm the projection holds each head's query and its gate: the norm
-- takes the query half, and the gate half is read back after the attention.
def queryHalf (norm : Option TensorInfo) (fq proj : Nat) (c : ArchConfig) : Build Nat :=
  match norm with
  | some qn => do
    require (proj = u32 (2*qDim c))
    graphRmsNormHeads fq (some qn) c.nHead c.headDim (u32 (2*c.headDim)) c.headDim
  | none => do
    require (proj = qDim c)
    pure fq

def sigmoidGated (norm : Option TensorInfo) (attn fq : Nat) (c : ArchConfig) : Build Nat :=
  match norm with
  | some _ => graphSigmoidGate attn fq c.nHead c.headDim
  | none => pure attn

def qwen35Dense (s : Session) (ws : Qwen35Workspace) (cur n l : Nat) : Build Nat := do
  let c := s.cfg
  let lw := s.layers l
  let tq ← given (lw .attnQ)
  let tk ← given (lw .attnK)
  let tv ← given (lw .attnV)
  let tO ← given (lw .attnOut)
  require (!(tO.ndim ≥ 2 ∧ tO.dim.getD 0 0 = 2*c.nEmbd ∧ tO.dim.getD 1 0 = qDim c))
  let fq ← graphMulMat n tq (qProj tq c ≠ c.nEmbd && readsTransposed tq c.nEmbd)
  let fq ← addBias fq (lw .attnQBias)
  let q ← queryHalf (lw .attnQNorm) fq (qProj tq c) c
  let k ← graphMulMat n tk (readsTransposed tk c.nEmbd)
  let v ← graphMulMat n tv (readsTransposed tv c.nEmbd)
  let k ← addBias k (lw .attnKBias)
  let v ← addBias v (lw .attnVBias)
  let k ← optionalNorm k (lw .attnKNorm) c.nKvHead c.kvHeadDim
  let q ← graphRope q ws.ropeTheta c.nHead c.headDim c.ropeDim
  let k ← graphRope k ws.ropeTheta c.nKvHead c.kvHeadDim c.ropeDim
  let attn ← graphAttn q k v l 0
  let attn ← outputGate (lw .attnGate) attn n (qDim c) c
  let attn ← sigmoidGated (lw .attnQNorm) attn fq c
  let o ← graphMulMat attn tO (c.nEmbd ≠ qDim c && readsTransposed tO (qDim c))
  graphBinary .add cur o

def qwen35Layer (s : Session) (ws : Qwen35Workspace) (cur l : Nat) : Build Nat := do
  let lw := s.layers l
  graphSetLayer l
  let n ← graphRmsNorm cur (lw .attnNorm)
  let cur ←
    match lw .ssmConv1d with
    | some conv => qwen35Ssm s ws conv cur n l
    | none => qwen35Dense s ws cur n l
  let hn ← graphRmsNorm cur (lw .postAttnNorm)
  let down ← swiglu lw s.cfg ws.ffnHidden hn
  let cur ← graphBinary .add cur down
  graphLayerBoundary cur s l

def qwen35GraphBuild (s : Session) (ws : Qwen35Workspace) (nTokens : Nat) : Build Nat := do
  require (nTokens ≠ 0 ∧ nTokens ≤ s.ctxSize)
  require (!(s.cfg.ropeDim = 0 ∨ s.cfg.ropeDim > s.cfg.headDim))
  let cur ← embedded s nTokens
  let cur ← overLayers (qwen35Layer s ws) (List.range s.cfg.nLayer) cur
  graphSetLayer s.cfg.nLayer
  let fn ← graphRmsNorm cur (qwenFinalNorm s)
  lmHead s fn

end TinyLlama.Graph
