import TinyLlama.Graph.Walk
import TinyLlama.Graph.KvCache
import TinyLlama.Cpu.History

-- graph.c: graph_execute and graph_compute_locked over a planned session. Any op may fail; what the ops compute is a parameter.
namespace TinyLlama.Graph
open Slots TinyLlama.Sweep

variable {β K : Type}

structure GraphBatch where
  tokens : Nat → Nat
  pos : Nat
  n : Nat

-- What a session keeps from call to call: the caches of the attention layers, the
-- recurrent states by their handles, and the arenas of the activations.
structure SessionState (β K : Type) where
  nTokens : Nat
  tokens : Nat → Nat
  k : Nat → Nat → K
  v : Nat → Nat → K
  state : Nat → Nat → K
  mem : Memory β
  logits : Nat → β

-- The bytes of a token id; the floats from the pointer of a node's source on; and the ops, each
-- at its node, its position and its number of rows. An op may read anything of the session: what
-- lies behind its sources' rows, and every cell of every cache.
structure Ops (β K : Type) where
  idByte : Nat → Nat → β
  zero : K
  source : Nat → Nat → SessionState β K → Nat → K
  plain : Nat → Nat → Nat → SessionState β K → Nat → β
  attend : Nat → Nat → Nat → SessionState β K → Nat → β
  advance : Nat → Nat → Nat → SessionState β K → (Nat → K) → (Nat → K) × (Nat → β)

-- What a failing op may leave behind: bytes in the arenas, rows of its batch in the cache,
-- and on a device that clears its state at the start of a sequence, that state.
structure Fault (β K : Type) where
  mem : Memory β → Memory β
  keys : (Nat → K) → Nat → K
  values : (Nat → K) → Nat → K
  state : (Nat → K) → Nat → K

structure Executor (β K : Type) where
  g : List GraphNode
  c : ArchConfig
  nUbatch : Nat
  ctxSize : Nat
  ops : Ops β K

def isRecurrent (g : List GraphNode) (i : Nat) : Bool := ((g[i]?).map fun node =>
  decide (node.op = .ssmConv ∨ node.op = .ssmDelta ∨ node.op = .mamba2Conv ∨ node.op = .mamba2Scan)).getD false

def isAttn (g : List GraphNode) (i : Nat) : Bool := ((g[i]?).map fun node => decide (node.op = .attn)).getD false

def handle (g : List GraphNode) (i : Nat) : Nat := ((g[i]?).map fun node => node.param 0).getD 0

def capacity (g : List GraphNode) (i : Nat) : Nat := u32 (((g[i]?).map GraphNode.ne).getD 0)

def attnConfig (c : ArchConfig) : Cpu.AttnConfig := ⟨c.nHead,c.nKvHead,c.headDim,c.kvHeadDim⟩

namespace Executor
variable (p : Executor β K)

-- r*od*sizeof(float), and n*sizeof(u32) of an input: what a batch of n rows leaves in a slot.
def batchBytes (n i : Nat) : Nat :=
  if isInput p.g i then n*4 else (if isSink p.g i then 1 else n)*(outDims p.c p.g).getD i 0*4

def liveSlot (n i : Nat) : Slot := ⟨(planSlot p.g p.c p.nUbatch i).off,p.batchBytes n i⟩

def stride (i : Nat) : Nat := headStride (backendOf p.g i) p.ctxSize p.c.kvHeadDim

def put (n i : Nat) (bytes : Nat → β) (mem : Memory β) : Memory β := overwrite mem (backendOf p.g i) (p.liveSlot n i) bytes

-- Metal zeroes a state at position 0.
def stateAt (pos i : Nat) (s : SessionState β K) : Nat → K :=
  if pos = 0 ∧ backendOf p.g i = .metal then fun _ => p.ops.zero else s.state (handle p.g i)

-- The batch's keys and values are written through before anything is read.
def cached (pos n i : Nat) (s : SessionState β K) : SessionState β K :=
  let write k := Cpu.kvWrite (attnConfig p.c) (p.stride i) pos n (p.ops.source i k s)
  {s with
    k:=Function.update s.k (handle p.g i) (write 1 (s.k (handle p.g i)))
    v:=Function.update s.v (handle p.g i) (write 2 (s.v (handle p.g i)))}

def opAttn (pos n i : Nat) (s : SessionState β K) : SessionState β K :=
  let s := p.cached pos n i s
  {s with mem:=p.put n i (p.ops.attend i pos n s) s.mem}

def opRecurrent (pos n i : Nat) (s : SessionState β K) : SessionState β K :=
  let out := p.ops.advance i pos n s (p.stateAt pos i s)
  {s with state:=Function.update s.state (handle p.g i) out.1,mem:=p.put n i out.2 s.mem}

def opPlain (pos n i : Nat) (s : SessionState β K) : SessionState β K := {s with mem:=p.put n i (p.ops.plain i pos n s) s.mem}

def debris (pos n i : Nat) (fault : Fault β K) (s : SessionState β K) : SessionState β K :=
  let l := handle p.g i
  {s with
    mem:=fault.mem s.mem
    k:=if isAttn p.g i then Function.update s.k l (Cpu.kvWrite (attnConfig p.c) (p.stride i) pos n (fault.keys (s.k l)) (s.k l)) else s.k
    v:=if isAttn p.g i then Function.update s.v l (Cpu.kvWrite (attnConfig p.c) (p.stride i) pos n (fault.values (s.v l)) (s.v l)) else s.v
    state:=if isRecurrent p.g i ∧ pos = 0 ∧ backendOf p.g i = .metal then Function.update s.state l (fault.state (s.state l)) else s.state}

def opCompute (pos n i : Nat) (s : SessionState β K) : SessionState β K :=
  if isAttn p.g i then p.opAttn pos n i s else if isRecurrent p.g i then p.opRecurrent pos n i s else p.opPlain pos n i s

def computeNode (fault : Nat → Option (Fault β K)) (pos n i : Nat) (s : SessionState β K) : SessionState β K × Bool :=
  if isInput p.g i then (s,true)
  else if p.batchBytes n i = 0 ∨ p.batchBytes n i > (planSlot p.g p.c p.nUbatch i).size then (s,false)
  else match fault i with
    | some fault => (p.debris pos n i fault s,false)
    | none => (p.opCompute pos n i s,true)

def computeNodes (fault : Nat → Option (Fault β K)) (pos n : Nat) : List Nat → SessionState β K → SessionState β K × Bool
  | [],s => (s,true)
  | i :: rest,s =>
    match p.computeNode fault pos n i s with
    | (s,true) => computeNodes fault pos n rest s
    | (s,false) => (s,false)

-- The token ids go into the inputs; a batch larger than one of them is refused.
def bindInputs (b : GraphBatch) : List Nat → SessionState β K → SessionState β K × Bool
  | [],s => (s,true)
  | i :: rest,s =>
    if isInput p.g i then
      if b.n > capacity p.g i then (s,false)
      else bindInputs b rest {s with mem:=p.put b.n i (fun a => p.ops.idByte (b.tokens (a/4)) (a%4)) s.mem}
    else bindInputs b rest s

-- The bytes of the sink's row that are copied to the logits.
def publishedBytes (i : Nat) : Nat := (if (outDims p.c p.g).getD i 0 < p.c.nVocab then (outDims p.c p.g).getD i 0 else p.c.nVocab)*4

def publish (n : Nat) (s : SessionState β K) : SessionState β K :=
  match sinkNode p.g with
  | none => s
  | some i =>
    {s with logits:=splice s.logits 0 (p.publishedBytes i) fun a => s.mem (backendOf p.g i) ((p.liveSlot n i).off+a)}

def graphCompute (fault : Nat → Option (Fault β K)) (b : GraphBatch) (s : SessionState β K) : SessionState β K × Bool :=
  if p.g.length = 0 then (s,false)
  else if b.n = 0 then (s,true)
  else if b.pos+b.n > p.ctxSize then (s,false)
  else match p.bindInputs b (List.range p.g.length) s with
    | (s,false) => (s,false)
    | (s,true) =>
      match p.computeNodes fault b.pos b.n (List.range p.g.length) s with
      | (s,false) => (s,false)
      | (s,true) => (p.publish b.n s,true)

structure Call (β K : Type) where
  tokens : Nat → Nat
  nTokens : Nat
  fault : Nat → Nat → Option (Fault β K)

def chunkSize (call : Call β K) (done : Nat) : Nat := if call.nTokens-done > p.nUbatch then p.nUbatch else call.nTokens-done

-- Micro-batch j: its ids go into the session's token buffer, and the graph runs on them.
def microBatch (call : Call β K) (pos j done : Nat) (s : SessionState β K) : SessionState β K × Bool :=
  let s := {s with tokens:=splice s.tokens (pos+done) (p.chunkSize call done) fun t => call.tokens (done+t)}
  p.graphCompute (call.fault j) ⟨fun t => s.tokens (pos+done+t),pos+done,p.chunkSize call done⟩ s

-- The micro-batches from `done` on.
def chunks (call : Call β K) (pos : Nat) : Nat → Nat → Nat → SessionState β K → SessionState β K × Bool
  | 0,_,_,s => (s,true)
  | fuel+1,j,done,s =>
    if done < call.nTokens then
      match p.microBatch call pos j done s with
      | (s,true) => chunks call pos fuel (j+1) (done+p.chunkSize call done) s
      | (s,false) => (s,false)
    else (s,true)

-- A micro-batch has at least a token, so the tokens bound the micro-batches; no graph is
-- built for micro-batches of none.
def graphExecute (call : Call β K) (s : SessionState β K) : SessionState β K × Bool :=
  if call.nTokens = 0 ∨ p.nUbatch = 0 then (s,false)
  else if s.nTokens+call.nTokens > p.ctxSize then (s,false)
  else match p.chunks call s.nTokens call.nTokens 0 0 s with
    | (s',true) => ({s' with nTokens:=s.nTokens+call.nTokens},true)
    | (s',false) => (s',false)

def run : List (Call β K) → SessionState β K → List (Option (Nat → β)) × SessionState β K
  | [],s => ([],s)
  | call :: rest,s =>
    let out := p.graphExecute call s
    let later := run rest out.1
    ((if out.2 then some out.1.logits else none) :: later.1,later.2)

end Executor

end TinyLlama.Graph
