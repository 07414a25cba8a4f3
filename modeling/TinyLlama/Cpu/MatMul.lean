import TinyLlama.Cpu.MatMat
import TinyLlama.Gguf.Load
import TinyLlama.Lib.Interleave
import TinyLlama.Pthreads.Pool
import TinyLlama.Quants.DotExact

-- backend/cpu/cpu_op.c on x86: op_matmul, row by row or in chunks of output rows on the worker pool.
namespace TinyLlama.Cpu
open Gguf Quants Access Interleave TinyLlama.Sweep

-- The output, the transposed input, and the threads' dequantised rows and results.
inductive Cell where
  | y (p : Nat)
  | xT (p : Nat)
  | row (p : Nat)
  | tmp (p : Nat)
deriving DecidableEq

section Op
variable {K : Type} [Field K]

abbrev Work (K : Type) := Step Cell K

def slice (cell : Nat → Cell) (base : Nat) (m : Cell → K) : Nat → K := fun p => m (cell (base+p))

-- An access outside the tensor ends the process.
def tensorGetF32 (s : Source K) (t : TensorInfo) (i : Nat) : Option K :=
  if i ≥ t.nElement then none else some (value (ggufDequant t.type i) s)

def tensorGetF32Batch (s : Source K) (t : TensorInfo) (i0 nb : Nat) : Option ((Nat → K) → Nat → K) :=
  if i0+nb > t.nElement ∨ nb = 0 then none else some (ggufDequantBatch s t.type i0 nb)

structure Weight (K : Type) where
  avx2 : Bool
  stale : Nat → Nat
  source : Source K
  tensor : TensorInfo

def Weight.tr (w : Weight K) : Nat := w.tensor.dim.getD 0 0
def Weight.tc (w : Weight K) : Nat := w.tensor.dim.getD (w.tensor.ndim-1) 0

-- The test with which both routines begin.
def Weight.accepts (w : Weight K) (rows cols : Nat) (trans : Bool) : Bool :=
  w.tensor.ndim ≥ 2 && if trans then w.tr = cols && w.tc = rows else w.tr = rows && w.tc = cols

-- pthreads_parallel_for from 0 on. An index that ends the process does so on any thread.
def parallelFor (pool : Pool Cell K) (stop : Int) (work : Nat → Nat → Option (List (Work K))) (m : Cell → K) : Option (Cell → K) :=
  if stop ≤ 0 then some m
  else if ∀ tid < pool.nthreads, ∀ i < stop.toNat, (work tid i).isSome then
    some (pool.run stop.toNat (fun tid i => (work tid i).getD []) m)
  else none

def threaded (pool : Option (Pool Cell K)) (items : Nat) : Option (Pool Cell K) := pool.filter fun p => p.nthreads > 1 ∧ items > 1

def ggufDotRow (w : Weight K) (i n : Nat) (x : Nat → K) : K := ggufDotBatch w.avx2 w.stale w.source w.tensor.type i n x

def matvecWorker (w : Weight K) (x : Nat → K) (cols : Nat) (_tid i : Nat) : Option (List (Work K)) :=
  some [fun m => Function.update m (.y i) (ggufDotRow w (i*cols) cols x)]

def matVecTrans (w : Weight K) (x : Nat → K) (rows cols : Nat) (m : Cell → K) : Option (Cell → K) :=
  (List.range rows).foldlM (fun m r => do
    let wRow ← (List.range cols).mapM fun c => tensorGetF32 w.source w.tensor (c*w.tc+r)
    let sum := cols.fold (fun c _ sum => sum+wRow.getD c 0*x c) 0
    some (Function.update m (.y r) sum)) m

def matVecMul (w : Weight K) (x : Nat → K) (rows cols : Nat) (trans : Bool) (pool : Option (Pool Cell K)) (m : Cell → K) :
    Option (Bool × (Cell → K)) :=
  if !w.accepts rows cols trans then some (false,m)
  else if trans then (matVecTrans w x rows cols m).map fun m => (true,m)
  else
    match threaded pool rows with
    | some p => (parallelFor p (Pthreads.int rows) (matvecWorker w x cols) m).map fun m => (true,m)
    | none => some (true,(List.range rows).foldl (fun m r => Function.update m (.y r) (ggufDotRow w (r*cols) cols x)) m)

def matmatChunk : Nat := 16

-- Output row o of a chunk, dequantised to `at'`.
def fillRow (w : Weight K) (cols : Nat) (trans : Bool) (at' o : Nat) : Option (List (Work K)) :=
  if trans then (List.range cols).mapM fun ci => do
    let x ← tensorGetF32 w.source w.tensor (ci*w.tc+o)
    some fun m => Function.update m (.row (at'+ci)) x
  else do
    let batch ← tensorGetF32Batch w.source w.tensor (o*cols) cols
    some [fun m c =>
      match c with
      | .row p => if at' ≤ p then batch (slice .row at' m) (p-at') else m c
      | _ => m c]

def tileStep (wRow tmp : Nat) (tile : Tile K) : Work K := fun m =>
  (tile (slice .row wRow m) (slice .xT 0 m)).foldl (fun m' store => Function.update m' (.tmp (tmp+store.1)) store.2) m

def chunkSteps (w : Weight K) (batch rows cols : Nat) (trans : Bool) (r0 r1 wRow tmp : Nat) : Option (List (Work K)) := do
  let nchunk := r1-r0
  let fill ← (List.range nchunk).mapM fun r => fillRow w cols trans (wRow+r*cols) (r0+r)
  some (fill.flatten++(mulMatMat w.avx2 nchunk cols batch).map (tileStep wRow tmp)++
    (List.range nchunk).flatMap fun r => (List.range batch).map fun b =>
      fun m => Function.update m (.y (b*rows+(r0+r))) (m (.tmp (tmp+(r*batch+b)))))

def matmatWorker (w : Weight K) (batch rows cols : Nat) (trans : Bool) (tid idx : Nat) : Option (List (Work K)) :=
  let r0 := idx*matmatChunk
  let r1 := if r0+matmatChunk > rows then rows else r0+matmatChunk
  chunkSteps w batch rows cols trans r0 r1 (tid*matmatChunk*cols) (tid*matmatChunk*batch)

def transposed (x : Nat → K) (batch cols : Nat) (m : Cell → K) : Cell → K :=
  (List.range cols).foldl (fun m c =>
    (List.range batch).foldl (fun m b => Function.update m (.xT (c*batch+b)) (x (b*cols+c))) m) m

def matMatMul (w : Weight K) (x : Nat → K) (batch rows cols : Nat) (trans : Bool) (pool : Option (Pool Cell K)) (m : Cell → K) :
    Option (Bool × (Cell → K)) :=
  if !w.accepts rows cols trans then some (false,m)
  else if rows = 0 ∨ batch = 0 ∨ cols = 0 then some (true,m)
  else
    let nChunks := (rows+matmatChunk-1)/matmatChunk
    let m := transposed x batch cols m
    match threaded pool nChunks with
    | some p => (parallelFor p (Pthreads.int nChunks) (matmatWorker w batch rows cols trans) m).map fun m => (true,m)
    | none => ((List.range nChunks).foldlM (fun m ch => (matmatWorker w batch rows cols trans 0 ch).map fun steps => exec steps m) m).map
        fun m => (true,m)

-- The rows of `src` from `base` on, for r rows of the batch.
def opMatmul (w : Weight K) (trans : Bool) (src : Nat → K) (base r : Nat) (pool : Option (Pool Cell K)) (m : Cell → K) :
    Option (Bool × (Cell → K)) :=
  let od := u32 (w.tensor.dim.getD (if trans then 1 else 0) 0)
  let input := u32 (w.tensor.dim.getD (if trans then 0 else 1) 0)
  let x := fun p => src (base*input+p)
  if r = 1 then matVecMul w x od input trans pool m else matMatMul w x r od input trans pool m

end Op

end TinyLlama.Cpu
