import TinyLlama.Lib.Slots
import TinyLlama.Gguf.Load

-- graph.c: graph nodes in build order, their output widths, and the static plan of their slots.
namespace TinyLlama.Graph
open Slots Gguf

inductive GraphOp where
  | input | add | mul | matmul | matmulArry | matmulT | scale | rmsNorm | rmsNormHeads | sigmoidGate
  | ropeNeox | ropeNorm | softmax | silu | gelu | embed | bias | attn | ssmConv | ssmDelta
  | mamba2Conv | mamba2Scan | softcap | h2d | d2h
deriving Repr,DecidableEq

inductive BackendType where
  | cpu | cuda | metal
deriving Repr,DecidableEq

structure ArchConfig where
  nHead : Nat
  nKvHead : Nat
  headDim : Nat
  kvHeadDim : Nat
  ropeDim : Nat
  nEmbd : Nat
  nLayer : Nat
  nVocab : Nat
deriving Repr,DecidableEq

-- A source pointer is the node's index; `ne` is ne[0]. Entries that are not
-- there are NULL pointers and zero parameters.
structure GraphNode where
  op : GraphOp
  layer : Nat
  backend : BackendType
  src : List (Option Nat)
  weights : List (Option TensorInfo)
  params : List Nat
  ne : Nat
deriving Repr,DecidableEq

def GraphNode.param (node : GraphNode) (k : Nat) : Nat := node.params.getD k 0
def GraphNode.weight (node : GraphNode) (k : Nat) : Option TensorInfo := (node.weights[k]?).join
def GraphNode.sources (node : GraphNode) : List Nat := node.src.filterMap id
def GraphNode.reads (node : GraphNode) (i : Nat) : Bool := node.src.contains (some i)

-- (u32)w->dim[k] and (u32)w->n_element of an attached weight.
def GraphNode.weightDim (node : GraphNode) (k : Nat) : Nat := u32 (((node.weight 0).map fun w => w.dim.getD k 0).getD 0)
def GraphNode.weightElements (node : GraphNode) : Nat := u32 (((node.weight 0).map fun w => w.nElement).getD 0)

def nodeOutDim (node : GraphNode) (dims : List Nat) (c : ArchConfig) : Nat :=
  match node.op with
  | .input => 0
  | .matmulT => node.weightDim 1
  | .matmul | .matmulArry => node.weightDim 0
  | .embed =>
    if (((node.weight 0).map fun w => w.dim.getD 0 0).getD 0) = c.nVocab then node.weightDim 1 else node.weightDim 0
  | .rmsNorm => node.weightElements
  | .rmsNormHeads => u32 (node.param 0*node.param 3)
  | .sigmoidGate => u32 (node.param 0*node.param 1)
  | .ssmDelta => u32 (node.param 1*node.param 3)
  | .mamba2Conv => u32 (node.param 2+2*node.param 3*node.param 4)
  | .mamba2Scan => node.param 5
  | .attn => u32 (c.nHead*c.headDim)
  | _ =>
    match (node.src[0]?).join with
    | some i => dims.getD i 0
    | none => 0

def outDims (c : ArchConfig) (g : List GraphNode) : List Nat :=
  g.foldl (fun dims node => dims++[nodeOutDim node dims c]) []

def isSink (g : List GraphNode) (i : Nat) : Bool := g.all fun node => !node.reads i

def align16 (x : Nat) : Nat := u64 (x+15)/16*16

def nodeCapRows (node : GraphNode) (sink : Bool) (nUbatch : Nat) : Nat :=
  if node.op = .input then u32 node.ne else if sink then 1 else nUbatch

-- The bytes a node's output takes at full capacity, before alignment.
def outBytes (g : List GraphNode) (c : ArchConfig) (nUbatch i : Nat) : Nat :=
  match g[i]? with
  | none => 0
  | some node =>
    if node.op = .input then node.ne*4 else nodeCapRows node (isSink g i) nUbatch*(outDims c g).getD i 0*4

def need (g : List GraphNode) (c : ArchConfig) (nUbatch i : Nat) : Nat := align16 (u64 (outBytes g c nUbatch i))

-- release[i]: the last node that reads i, else i itself.
def releaseFrom (i : Nat) : Nat → List GraphNode → Nat → Nat
  | _,[],last => last
  | j,node :: rest,last => releaseFrom i (j+1) rest (if node.reads i ∧ j > last then j else last)

def release (g : List GraphNode) (i : Nat) : Nat := releaseFrom i 0 g i

def backendOf (g : List GraphNode) (i : Nat) : BackendType := ((g[i]?).map GraphNode.backend).getD .cpu

-- node_off of the nodes placed so far, and each backend's free list and bump.
structure Sweep where
  off : List Nat
  free : BackendType → List Slot
  bump : BackendType → Nat

def Sweep.slot (s : Sweep) (g : List GraphNode) (c : ArchConfig) (nUbatch j : Nat) : Slot :=
  ⟨s.off.getD j 0,need g c nUbatch j⟩

-- The slots whose last reader was node i-1 become free.
def reclaim (g : List GraphNode) (c : ArchConfig) (nUbatch i : Nat) (s : Sweep) : BackendType → List Slot :=
  (List.range i).foldl (fun free j =>
    if release g j+1 ≠ i then free
    else Function.update free (backendOf g j) (free (backendOf g j)++[s.slot g c nUbatch j])) s.free

def sweepStep (g : List GraphNode) (c : ArchConfig) (nUbatch : Nat) (s : Sweep) (i : Nat) : Sweep :=
  let free := reclaim g c nUbatch i s
  let b := backendOf g i
  match bestFit (need g c nUbatch i) uint64Max 0 (free b) none with
  | some (best,_) =>
    ⟨s.off++[((free b).getD best ⟨0,0⟩).off],Function.update free b (swapRemove (free b) best),s.bump⟩
  | none => ⟨s.off++[s.bump b],free,Function.update s.bump b (u64 (s.bump b+need g c nUbatch i))⟩

def sweepTo (g : List GraphNode) (c : ArchConfig) (nUbatch n : Nat) : Sweep :=
  (List.range n).foldl (sweepStep g c nUbatch) ⟨[],fun _ => [],fun _ => 0⟩

def arenaPlan (g : List GraphNode) (c : ArchConfig) (nUbatch : Nat) : Sweep := sweepTo g c nUbatch g.length

end TinyLlama.Graph
