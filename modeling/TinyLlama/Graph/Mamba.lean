import TinyLlama.Graph.Models

-- model/falcon_h1.c and the two Mamba2 nodes of graph.c.
namespace TinyLlama.Graph
open Gguf

structure Mamba2Conv where
  state : Nat
  kernel : Nat
  dInner : Nat
  nGroup : Nat
  dState : Nat
  nHead : Nat

def graphMamba2Conv (src : Nat) (weight : TensorInfo) (bias : Option TensorInfo) (args : Mamba2Conv) : Build Nat := do
  require (args.kernel ≠ 0)
  require (args.dInner ≠ 0 ∧ args.nGroup ≠ 0 ∧ args.dState ≠ 0 ∧ args.nHead ≠ 0)
  let g ← get
  require (args.state < g.state.length)
  nodeAdd .mamba2Conv [src] [weight,bias] [args.state,args.kernel,args.dInner,args.nGroup,args.dState,args.nHead]

structure Mamba2Scan where
  state : Nat
  nHead : Nat
  headDim : Nat
  dState : Nat
  nGroup : Nat
  dInner : Nat

def graphMamba2Scan (conv proj : Nat) (ssmA ssmD dtBias : TensorInfo) (norm : Option TensorInfo) (args : Mamba2Scan) :
    Build Nat := do
  require (args.nHead ≠ 0 ∧ args.headDim ≠ 0 ∧ args.dState ≠ 0 ∧ args.nGroup ≠ 0 ∧ args.dInner ≠ 0)
  require (args.nHead%args.nGroup = 0 ∧ u32 (args.nHead*args.headDim) = args.dInner)
  let g ← get
  require (args.state < g.state.length)
  nodeAdd .mamba2Scan [conv,proj] [ssmA,ssmD,dtBias,norm]
    [args.state,args.nHead,args.headDim,args.dState,args.nGroup,args.dInner]

structure FalconH1WorkSpace where
  ssmDInner : Nat
  ssmDState : Nat
  ssmNGroup : Nat
  ssmNHead : Nat
  ssmHeadDim : Nat
  ssmConvKernel : Nat
  ssmConvDim : Nat
  ropeTheta : Nat
  ssmState : Nat → Nat
  convState : Nat → Nat

def fh1MmTrans (t : TensorInfo) (out input : Nat) : Bool :=
  if t.ndim < 2 then false
  else if t.dim.getD 0 0 = out ∧ t.dim.getD 1 0 = input then false
  else if t.dim.getD 0 0 = input ∧ t.dim.getD 1 0 = out then true
  else t.dim.getD 0 0 = input

-- z | xBC | dt, the slices of the fused ssm_in projection.
def projDim (ws : FalconH1WorkSpace) : Nat := u32 (ws.ssmDInner+ws.ssmConvDim+ws.ssmNHead)

def falconH1Attention (s : Session) (ws : FalconH1WorkSpace) (n l : Nat) : Build Nat := do
  let c := s.cfg
  let lw := s.layers l
  let ropeDim := if c.ropeDim ≠ 0 then c.ropeDim else c.headDim
  let tq ← given (lw .attnQ)
  let tk ← given (lw .attnK)
  let tv ← given (lw .attnV)
  let tO ← given (lw .attnOut)
  let q ← graphMulMat n tq (fh1MmTrans tq (qDim c) c.nEmbd)
  let k ← graphMulMat n tk (fh1MmTrans tk (kvDim c) c.nEmbd)
  let v ← graphMulMat n tv (fh1MmTrans tv (kvDim c) c.nEmbd)
  let q ← addBias q (lw .attnQBias)
  let k ← addBias k (lw .attnKBias)
  let v ← addBias v (lw .attnVBias)
  let q ← graphRope q ws.ropeTheta c.nHead c.headDim ropeDim
  let k ← graphRope k ws.ropeTheta c.nKvHead c.kvHeadDim ropeDim
  let attn ← graphAttn q k v l 0
  graphMulMat attn tO (fh1MmTrans tO c.nEmbd (qDim c))

def falconH1Mixer (s : Session) (ws : FalconH1WorkSpace) (n l : Nat) : Build Nat := do
  let c := s.cfg
  let lw := s.layers l
  let tIn ← given (lw .ssmIn)
  let tConv ← given (lw .ssmConv1d)
  let tA ← given (lw .ssmA)
  let tD ← given (lw .ssmD)
  let tDt ← given (lw .ssmDtBias)
  let tSo ← given (lw .ssmOut)
  let proj ← graphMulMat n tIn (fh1MmTrans tIn (projDim ws) c.nEmbd)
  let convSt ← graphState (ws.convState l)
  let ssmSt ← graphState (ws.ssmState l)
  let cv ← graphMamba2Conv proj tConv (lw .ssmConv1dBias)
    ⟨convSt,ws.ssmConvKernel,ws.ssmDInner,ws.ssmNGroup,ws.ssmDState,ws.ssmNHead⟩
  let scan ← graphMamba2Scan cv proj tA tD tDt (lw .ssmNorm)
    ⟨ssmSt,ws.ssmNHead,ws.ssmHeadDim,ws.ssmDState,ws.ssmNGroup,ws.ssmDInner⟩
  graphMulMat scan tSo (fh1MmTrans tSo c.nEmbd ws.ssmDInner)

def falconH1Ffn (s : Session) (hn l : Nat) : Build Nat := do
  let c := s.cfg
  let lw := s.layers l
  let tg ← given (lw .ffnGate)
  let tu ← given (lw .ffnUp)
  let td ← given (lw .ffnDown)
  let fh := u32 (tg.dim.getD 0 0)
  let gate ← graphMulMat hn tg (fh1MmTrans tg fh c.nEmbd)
  let gate ← graphSilu gate
  let up ← graphMulMat hn tu (fh1MmTrans tu fh c.nEmbd)
  let mul ← graphBinary .mul gate up
  graphMulMat mul td (fh1MmTrans td c.nEmbd fh)

def falconH1Layer (s : Session) (ws : FalconH1WorkSpace) (cur l : Nat) : Build Nat := do
  let lw := s.layers l
  graphSetLayer l
  let n ← graphRmsNorm cur (lw .attnNorm)
  let attn ← falconH1Attention s ws n l
  let ssm ← falconH1Mixer s ws n l
  let cur ← graphBinary .add cur attn
  let cur ← graphBinary .add cur ssm
  let hn ← graphRmsNorm cur ((lw .ffnNorm).or (lw .postAttnNorm))
  let down ← falconH1Ffn s hn l
  let cur ← graphBinary .add cur down
  graphLayerBoundary cur s l

def falconH1GraphBuild (s : Session) (ws : FalconH1WorkSpace) (nTokens : Nat) : Build Nat := do
  require (nTokens ≠ 0 ∧ nTokens ≤ s.ctxSize)
  let cur ← embedded s nTokens
  let cur ← overLayers (falconH1Layer s ws) (List.range s.cfg.nLayer) cur
  graphSetLayer s.cfg.nLayer
  let fn ← graphRmsNorm cur ((s.tensors .outputNorm).or (s.layers (s.cfg.nLayer-1) .ffnNorm))
  lmHead s fn

end TinyLlama.Graph
