import TinyLlama.Graph.Mamba
import TinyLlama.Graph.Walk

-- cpu_op.c: which floats of its sources and of the borrowed state an op touches in a batch.
namespace TinyLlama.Graph
open Gguf

-- A range of each row of a source, in floats; the rows lie `stride` floats apart.
structure RowRead where
  src : Nat
  stride : Nat
  off : Nat
  len : Nat
deriving Repr,DecidableEq

def rangesOf (node : GraphNode) (k stride : Nat) (ranges : List (Nat × Nat)) : List RowRead :=
  match (node.src[k]?).join with
  | none => []
  | some i => ranges.map fun r => ⟨i,stride,r.1,r.2⟩

def headRanges (heads stride off len : Nat) : List (Nat × Nat) := (List.range heads).map fun h => (h*stride+off,len)

-- The width of a Mamba2 layer's xBC slice, and of its whole projection z | xBC | dt.
def mambaConvDim (dInner nGroup dState : Nat) : Nat := u32 (dInner+2*nGroup*dState)
def mambaProjWidth (dInner nGroup dState nHead : Nat) : Nat := u32 (mambaConvDim dInner nGroup dState+dInner+nHead)

-- h*hd+d of every channel d of every head h.
def mambaChannels (nHead headDim : Nat) : List Nat :=
  (List.range nHead).flatMap fun h => (List.range headDim).map fun d => u32 (h*headDim+d)

-- The B or C rows that the heads' groups read.
def groupRanges (nHead nGroup dState off : Nat) : List (Nat × Nat) :=
  (List.range nHead).map fun h => (off+h/(nHead/nGroup)*dState,dState)

-- Every op on a node of width `od`: rms_norm, bias, the unary ops, the rotations, the
-- conv and the copies read whole rows.
def rowReads (c : ArchConfig) (node : GraphNode) (od : Nat) : List RowRead :=
  let p := node.param
  match node.op with
  | .input => []
  -- An input's row is one token id.
  | .embed => rangesOf node 0 1 [(0,1)]
  | .matmul | .matmulArry => rangesOf node 0 (node.weightDim 1) [(0,node.weightDim 1)]
  | .matmulT => rangesOf node 0 (node.weightDim 0) [(0,node.weightDim 0)]
  | .add | .mul => rangesOf node 0 od [(0,od)]++rangesOf node 1 od [(0,od)]
  | .rmsNormHeads => rangesOf node 0 (p 0*p 2) (headRanges (p 0) (p 2) 0 (p 1))
  -- The gate is the second half of each 2*head_dim block.
  | .sigmoidGate => rangesOf node 0 od (headRanges (p 0) (p 1) 0 (p 1))++
      rangesOf node 1 (p 0*2*p 1) (headRanges (p 0) (2*p 1) (p 1) (p 1))
  | .ssmDelta =>
    let fstride := 2*u32 (p 2*p 3)+p 1*p 3
    rangesOf node 0 fstride [(0,fstride)]++rangesOf node 1 (p 1) [(0,p 1)]++rangesOf node 2 (p 1) [(0,p 1)]
  | .mamba2Conv => rangesOf node 0 (mambaProjWidth (p 2) (p 3) (p 4) (p 5)) [(p 2,mambaConvDim (p 2) (p 3) (p 4))]
  | .mamba2Scan =>
    let channels := (mambaChannels (p 1) (p 2)).map fun i => (i,1)
    let convDim := mambaConvDim (p 5) (p 4) (p 3)
    rangesOf node 0 convDim (channels++groupRanges (p 1) (p 4) (p 3) (p 5)++
      groupRanges (p 1) (p 4) (p 3) (p 5+u32 (p 4*p 3)))++
    rangesOf node 1 (mambaProjWidth (p 5) (p 4) (p 3) (p 1)) (channels++headRanges (p 1) 1 (p 5+convDim) 1)
  | .attn => rangesOf node 0 (qDim c) (headRanges c.nHead c.headDim 0 c.kvHeadDim)++
      rangesOf node 1 (kvDim c) (headRanges c.nKvHead c.kvHeadDim 0 c.kvHeadDim)++
      rangesOf node 2 (kvDim c) (headRanges c.nKvHead c.kvHeadDim 0 c.kvHeadDim)
  | _ => rangesOf node 0 od [(0,od)]

-- Where mat_vec_mul and mat_mat_mul go on to read.
def matAccepts (w : TensorInfo) (tr : Bool) (od : Nat) : Bool :=
  let input := u32 (w.dim.getD (if tr then 0 else 1) 0)
  let last := w.dim.getD (w.ndim-1) 0
  w.ndim ≥ 2 ∧ w.dim.getD 0 0 = (if tr then input else od) ∧ last = (if tr then od else input)

-- What the executor and the op itself check before the op reads anything.
def opRuns (nState : Nat) (node : GraphNode) (od : Nat) : Bool :=
  let p := node.param
  od ≠ 0 && match node.op with
  | .matmul | .matmulArry => (node.weight 0).any fun w => matAccepts w false od
  | .matmulT => (node.weight 0).any fun w => matAccepts w true od
  | .ssmConv => p 0 < nState
  | .ssmDelta => p 0 < nState ∧ od = u32 (p 1*p 3)
  | .mamba2Conv => p 0 < nState ∧ p 1 ≠ 0 ∧ p 2 ≠ 0 ∧ p 3 ≠ 0 ∧ p 4 ≠ 0 ∧ od = mambaConvDim (p 2) (p 3) (p 4)
  | .mamba2Scan => p 0 < nState ∧ p 1 ≠ 0 ∧ p 2 ≠ 0 ∧ p 3 ≠ 0 ∧ p 4 ≠ 0 ∧ p 1%p 4 = 0 ∧ u32 (p 1*p 2) = p 5 ∧ od = p 5
  | _ => true

-- The rows an op reads of its sources: attention and the embedding take the whole batch,
-- the copies start at row 0, and the others compute local row b from row base+b.
def rowsRead (op : GraphOp) (base r n : Nat) : List Nat :=
  match op with
  | .embed | .attn => List.range n
  | .h2d | .d2h => List.range r
  | _ => (List.range r).map fun b => base+b

structure RowAccess where
  src : Nat
  row : Nat
  start : Nat
  len : Nat
deriving Repr,DecidableEq

-- A sink computes the last row of a batch of n only.
def opReads (c : ArchConfig) (g : Graph) (n i : Nat) : List RowAccess :=
  match g.nodes[i]? with
  | none => []
  | some node =>
    let od := (outDims c g.nodes).getD i 0
    let sink := isSink g.nodes i
    if opRuns g.state.length node od then
      (rowsRead node.op (if sink then n-1 else 0) (if sink then 1 else n) n).flatMap fun row =>
        (rowReads c node od).map fun read => ⟨read.src,row,row*read.stride+read.off,read.len⟩
    else []

-- A node's row count in a batch of n, and its row width.
def rowCount (g : Graph) (n j : Nat) : Nat := if isInput g.nodes j then n else if isSink g.nodes j then 1 else n
def rowWidth (c : ArchConfig) (g : Graph) (j : Nat) : Nat :=
  if isInput g.nodes j then 1 else (outDims c g.nodes).getD j 0

structure RowAccess.Inside (c : ArchConfig) (g : Graph) (n : Nat) (a : RowAccess) : Prop where
  row : a.row < rowCount g n a.src
  low : a.row*rowWidth c g a.src ≤ a.start
  high : a.start+a.len ≤ (a.row+1)*rowWidth c g a.src

-- The taps of the window, the shift and the newest row.
def convTouches (kernel channels : Nat) : List (Nat × Nat) :=
  ((List.range (kernel-1)).flatMap fun k => (List.range channels).map fun ch => (u32 (k*channels+ch),1))++
  if kernel > 1 then
    let shift := u32 ((kernel-2)*channels)
    (if shift > 0 then [(0,shift),(channels,shift)] else [])++[(shift,channels)]
  else []

-- The floats of its state buffer that an op touches at every row, as start and length.
def stateTouches (node : GraphNode) (od : Nat) : List (Nat × Nat) :=
  let p := node.param
  match node.op with
  | .ssmConv => convTouches (p 1) od
  | .mamba2Conv => convTouches (p 1) (mambaConvDim (p 2) (p 3) (p 4))
  | .ssmDelta => headRanges (p 1) (p 3*p 3) 0 (p 3*p 3)
  | .mamba2Scan => (mambaChannels (p 1) (p 2)).map fun i => (i*p 3,p 3)
  | _ => []

-- The pointer in the state slot that the op's first parameter names, and the touches.
def opTouches (c : ArchConfig) (g : Graph) (i : Nat) : List (Nat × Nat × Nat) :=
  match g.nodes[i]? with
  | none => []
  | some node =>
    let od := (outDims c g.nodes).getD i 0
    if opRuns g.state.length node od then
      (stateTouches node od).map fun t => (g.state.getD (node.param 0) 0,t.1,t.2)
    else []

end TinyLlama.Graph
