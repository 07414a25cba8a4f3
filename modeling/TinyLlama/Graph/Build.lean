import TinyLlama.Graph.Plan
import TinyLlama.Gguf.Weights

-- graph.c: the functions that append nodes. A builder that gets no node back gives up, so a missing node ends the build.
namespace TinyLlama.Graph
open Gguf

structure Graph where
  nodes : List GraphNode
  curLayer : Nat
  state : List Nat
deriving Repr,DecidableEq

abbrev Build := StateT Graph Option

def graphNew : Graph := ⟨[],0,[]⟩

-- A node is its index. The sources and weights that are not given are NULL.
def nodeAdd (op : GraphOp) (src : List Nat) (weights : List (Option TensorInfo)) (params : List Nat) : Build Nat :=
  fun g => some (g.nodes.length,
    {g with nodes:=g.nodes++[⟨op,g.curLayer,.cpu,src.map some,weights,params.map u32,0⟩]})

def graphSetLayer (layer : Nat) : Build Unit := fun g => some ((),{g with curLayer:=layer})

structure Session where
  cfg : ArchConfig
  ctxSize : Nat
  nGpuLayers : Int
  tensors : TensorRole → Option TensorInfo
  layers : Nat → TensorRole → Option TensorInfo

def given (t : Option TensorInfo) : Build TensorInfo := fun g => t.map fun t => (t,g)

def require (condition : Bool) : Build Unit := fun g => if condition then some ((),g) else none

def graphInput (nTokens : Nat) : Build Nat := fun g =>
  if nTokens = 0 then none
  else some (g.nodes.length,{g with nodes:=g.nodes++[⟨.input,g.curLayer,.cpu,[],[],[],nTokens⟩]})

def graphEmbed (src : Nat) (weight : TensorInfo) (nTokens : Nat) : Build Nat := do
  require (weight.ndim ≥ 2 ∧ nTokens ≠ 0)
  let g ← get
  match g.nodes[src]? with
  | none => failure
  | some input =>
    require (input.op = .input ∧ input.ne = nTokens)
    nodeAdd .embed [src] [weight] []

def graphRmsNorm (src : Nat) (weight : Option TensorInfo) : Build Nat := do
  let weight ← given weight
  nodeAdd .rmsNorm [src] [weight] []

def graphRmsNormHeads (src : Nat) (weight : Option TensorInfo) (nHeads headDim inStride outStride : Nat) : Build Nat := do
  let weight ← given weight
  require (nHeads ≠ 0 ∧ headDim ≠ 0)
  require (inStride ≥ headDim ∧ outStride ≥ headDim)
  nodeAdd .rmsNormHeads [src] [weight] [nHeads,headDim,inStride,outStride]

def graphMulMat (src : Nat) (weight : TensorInfo) (trans : Bool) : Build Nat := do
  require (weight.ndim ≥ 2)
  nodeAdd (if trans then .matmulT else .matmul) [src] [weight] []

def graphBinary (op : GraphOp) (a b : Nat) : Build Nat := do
  require (op = .add ∨ op = .mul)
  nodeAdd op [a,b] [] []

def graphSilu (src : Nat) : Build Nat := nodeAdd .silu [src] [] []
def graphGelu (src : Nat) : Build Nat := nodeAdd .gelu [src] [] []

-- Floats are their bits; a positive one is above 0 and at most infinity.
def floatPositive (bits : Nat) : Bool := 0 < bits ∧ bits ≤ 0x7F800000

def graphScale (src scale : Nat) : Build Nat := nodeAdd .scale [src] [] [scale]

def graphSoftcap (src cap : Nat) : Build Nat := do
  require (floatPositive cap)
  nodeAdd .softcap [src] [] [cap]

def graphBias (src : Nat) (bias : TensorInfo) : Build Nat := do
  require (bias.ndim ≥ 1)
  nodeAdd .bias [src] [bias] []

def graphSigmoidGate (a gate nHeads headDim : Nat) : Build Nat := do
  require (nHeads ≠ 0 ∧ headDim ≠ 0)
  nodeAdd .sigmoidGate [a,gate] [] [nHeads,headDim]

def graphSsmConv (src : Nat) (weight : TensorInfo) (state kernel : Nat) : Build Nat := do
  require (kernel ≠ 0)
  let g ← get
  require (state < g.state.length)
  nodeAdd .ssmConv [src] [weight] [state,kernel]

structure GraphSsmDelta where
  fused : Nat
  alpha : Nat
  beta : Nat
  ssmA : TensorInfo
  dtBias : TensorInfo
  norm : Option TensorInfo
  state : Nat
  nVHeads : Nat
  nKHeads : Nat
  headDim : Nat

def graphSsmDelta (args : GraphSsmDelta) : Build Nat := do
  require (args.nVHeads ≠ 0 ∧ args.headDim ≠ 0)
  require (args.nKHeads ≠ 0 ∧ args.nVHeads%args.nKHeads = 0)
  let g ← get
  require (args.state < g.state.length)
  nodeAdd .ssmDelta [args.fused,args.alpha,args.beta] [args.ssmA,args.dtBias,args.norm]
    [args.state,args.nVHeads,args.nKHeads,args.headDim]

-- The graph borrows a pointer; 0 is NULL.
def graphState (ptr : Nat) : Build Nat := fun g =>
  if ptr = 0 then none else some (g.state.length,{g with state:=g.state++[ptr]})

def graphAttn (q k v layer window : Nat) : Build Nat := nodeAdd .attn [q,k,v] [] [layer,window]

def ropeNode (op : GraphOp) (src theta nHeads headDim ropeDim : Nat) : Build Nat := do
  require (headDim ≠ 0 ∧ ropeDim ≠ 0 ∧ ropeDim ≤ headDim)
  nodeAdd op [src] [] [theta,nHeads,headDim,ropeDim]

def graphRope (src theta nHeads headDim ropeDim : Nat) : Build Nat := ropeNode .ropeNeox src theta nHeads headDim ropeDim
def graphRopeNorm (src theta nHeads headDim ropeDim : Nat) : Build Nat := ropeNode .ropeNorm src theta nHeads headDim ropeDim

-- (u32)n_gpu_layers of a positive count.
def graphLayerBoundary (src : Nat) (s : Session) (layer : Nat) : Build Nat :=
  if s.nGpuLayers ≤ 0 ∨ s.nGpuLayers.toNat ≥ s.cfg.nLayer then pure src
  else if layer+1 ≠ s.nGpuLayers.toNat then pure src
  else nodeAdd .d2h [src] [] [0]

end TinyLlama.Graph
