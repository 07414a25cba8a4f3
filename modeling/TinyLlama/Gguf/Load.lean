import TinyLlama.Gguf.Cursor
import TinyLlama.Asctx.Wrappers

namespace TinyLlama.Gguf
open LittleEndian

-- How a loader ends the process: slog(ERROR, ..) with the text of a cursor failure, or
-- with a format, its numbers and the name it prints; the allocator's fatal(); a memset
-- past its block; a loop that never ends.
inductive Exit where
  | cursor (error : Option (String × Nat))
  | report (format : String) (args : List Int) (name : List UInt8)
  | fatal (msg : String)
  | overrun
  | hang
deriving Repr,DecidableEq

abbrev Load (α : Type) := Run Exit α

theorem exit_bind_ok {x : Except Exit α} {f : α → Except Exit β} :
    (x >>= f) = .ok b ↔ ∃ a, x = .ok a ∧ f a = .ok b := by
  cases x <;> simp [Bind.bind,Except.bind]

def Load.orExit (p : Parse α) : Load α := fun c =>
  match p c with
  | (.error (),c) => (.error (.cursor c.error),c)
  | (.ok a,c) => (.ok a,c)

-- if (bad) slog(ERROR, ..)
def Load.reject (bad : Bool) (exit : Exit) : Load Unit := fun c =>
  if bad then (.error exit,c) else (.ok (),c)

open Load

-- mm.c's scalloc in the loader's own run.
def allocTable (set : Nat) (h : Asctx.Heap) (n size : Nat) (answer : Asctx.Fresh) : Load Asctx.Heap := fun c =>
  match Asctx.scalloc set h n size answer with
  | .error .fatal => (.error (.fatal "Out of memory"),c)
  | .error .undefined => (.error .overrun,c)
  | .ok r =>
    if Asctx.Granted (Asctx.scallocTotal n size) r then
      (.ok r.2,{c with cleared:=c.cleared+Asctx.scallocTotal n size})
    else (.error .overrun,c)

structure KV where
  key : Key
  type : Nat
  valuePos : Nat
deriving Repr,DecidableEq

-- `data` is the pointer as an offset from the start of the mapping; none is NULL.
structure TensorInfo where
  key : Key
  ndim : Nat
  dim : List Nat
  type : Nat
  offset : Nat
  data : Option Nat
  nElement : Nat
  bytes : Nat
  paddedDim : Nat
deriving Repr,DecidableEq

def sizeofKV : Nat := 32
def sizeofTensorInfo : Nat := 136

structure GGUFTypeInfo where
  blockElems : Nat
  blockBytes : Nat
deriving Repr,DecidableEq

def ggufTypes : List (Option GGUFTypeInfo) :=
  [some ⟨1,4⟩,some ⟨1,2⟩,some ⟨32,18⟩,some ⟨32,20⟩,none,none,some ⟨32,22⟩,some ⟨32,24⟩,
   some ⟨32,34⟩,some ⟨32,40⟩,some ⟨256,84⟩,some ⟨256,110⟩,some ⟨256,144⟩,some ⟨256,176⟩,
   some ⟨256,210⟩,some ⟨256,292⟩,some ⟨256,66⟩,some ⟨256,74⟩,some ⟨256,98⟩,some ⟨256,110⟩,
   some ⟨32,18⟩,some ⟨256,110⟩,some ⟨256,82⟩,some ⟨256,136⟩,some ⟨1,1⟩,some ⟨1,2⟩,some ⟨1,4⟩,
   some ⟨1,8⟩,some ⟨1,8⟩,some ⟨256,56⟩,some ⟨1,2⟩]

def tensorType (type : Nat) : Option GGUFTypeInfo := (ggufTypes[type]?).join

def tensorBytes (type nElement : Nat) : Option Nat :=
  match tensorType type with
  | none => none
  | some info =>
    let blocks := u64 (nElement+info.blockElems-1)/info.blockElems
    if blocks > uint64Max/info.blockBytes then none else some (u64 (blocks*info.blockBytes))

def defaultAlignment : Nat := 32

-- The read behind "general.alignment", through a cursor of its own.
def readAlignment (f : MappedFile) (at' alignment : Nat) : Load Nat := fun c =>
  let tmp := {cursorAt f at' with reads:=c.reads,steps:=c.steps}
  match cursorU32 tmp with
  | (.ok value,tmp) => (.ok (if value ≠ 0 then value else alignment),{c with reads:=tmp.reads,steps:=tmp.steps})
  | (.error (),tmp) => (.ok alignment,{c with reads:=tmp.reads,steps:=tmp.steps})

def kvAlignment (f : MappedFile) (v first : KV) (alignment : Nat) : Load Nat :=
  if keyStreq v.key "general.alignment" ∧ v.type = valueUint32 then readAlignment f first.valuePos alignment
  else pure alignment

-- `kv` holds the entries filled in so far. The C code reads the alignment at
-- kv->value_pos, which is the array's first entry and not the current one.
def kvLoop (f : MappedFile) : Nat → Nat → List KV → Load (Nat × List KV)
  | 0,alignment,kv => pure (alignment,kv)
  | n+1,alignment,kv => do
    let key ← orExit cursorKey
    let type ← orExit cursorU32
    let valuePos ← Run.position
    let v : KV := ⟨key,type,valuePos⟩
    let alignment ← kvAlignment f v (kv.headD v) alignment
    orExit (cursorSkipValue type 0)
    kvLoop f n alignment (kv++[v])

def kvLoad (set : Nat) (h : Asctx.Heap) (answer : Asctx.Fresh) (f : MappedFile) (nKv : Nat) :
    Load (Asctx.Heap × Nat × List KV) := do
  let h ← allocTable set h nKv sizeofKV answer
  let r ← kvLoop f nKv defaultAlignment []
  pure (h,r)

-- The dimension loop: the dimensions read and the running element count.
def tensorDims : Nat → Nat → Load (List Nat × Nat)
  | 0,nElement => pure ([],nElement)
  | n+1,nElement => do
    let d ← orExit cursorU64
    reject (d ≠ 0 ∧ nElement > uint64Max/d) (.report "Tensor element count overflow" [] [])
    let (dim,total) ← tensorDims n (u64 (nElement*d))
    pure (d :: dim,total)

def swapDims : List Nat → List Nat
  | [a,b] => [b,a]
  | dim => dim

-- When the innermost dimension is not a multiple of the block, GGUF pads it.
def paddedDim (ndim type : Nat) (dim : List Nat) : Nat :=
  match tensorType type with
  | none => 0
  | some info =>
    let last := dim.getD (ndim-1) 0
    let pad := u64 (u64 (last+info.blockElems-1)/info.blockElems*info.blockElems)
    if ndim ≥ 2 ∧ info.blockElems > 1 ∧ pad ≠ last then pad else 0

def tensorInfo : Load TensorInfo := do
  let key ← orExit cursorKey
  let ndim ← orExit cursorU32
  reject (ndim = 0 ∨ ndim > ggufMaxDims)
    (.report "Tensor has an unsupported number of dimensions: %d" [i32 ndim] [])
  let (dim,nElement) ← tensorDims ndim 1
  let type ← orExit cursorU32
  let offset ← orExit cursorU64
  let dim := swapDims dim
  pure ⟨key,ndim,dim,type,offset,none,nElement,(tensorBytes type nElement).getD 0,paddedDim ndim type dim⟩

def tensorLoop : Nat → Load (List TensorInfo)
  | 0 => pure []
  | n+1 => do
    let t ← tensorInfo
    let rest ← tensorLoop n
    pure (t :: rest)

def tensorLoad (set : Nat) (h : Asctx.Heap) (answer : Asctx.Fresh) (nTensor : Nat) :
    Load (Asctx.Heap × List TensorInfo) := do
  let h ← allocTable set h nTensor sizeofTensorInfo answer
  let tensor ← tensorLoop nTensor
  pure (h,tensor)

def ggufMagic : Nat := 0x46554747
def ggufValidVersion : Nat := 3

structure Sections where
  version : Nat
  alignment : Nat
  kv : List KV
  tensor : List TensorInfo
deriving Repr,DecidableEq

-- The allocator as model_load finds it, with malloc's answers to the two tables.
structure Process where
  set : Nat
  heap : Asctx.Heap
  kvAnswer : Asctx.Fresh
  tensorAnswer : Asctx.Fresh

def sectionsLoad (p : Process) (f : MappedFile) : Load Sections := do
  let magic ← orExit cursorU32
  reject (magic ≠ ggufMagic) (.report "Model is not a GGUF file" [] [])
  let version ← orExit cursorU32
  reject (version ≠ ggufValidVersion) (.report "Only GGUF v3 is supported." [] [])
  let nTensor ← orExit cursorU64
  let nKv ← orExit cursorU64
  let (heap,alignment,kv) ← kvLoad p.set p.heap p.kvAnswer f nKv
  let (_,tensor) ← tensorLoad p.set heap p.tensorAnswer nTensor
  pure ⟨version,alignment,kv,tensor⟩

-- A set just created, and a malloc with room for the tables of any mapping.
def startedSet : Nat := 1000
def startedHeap : Asctx.Heap :=
  match Asctx.allocSetMemoryContextCreate ⟨fun _ => 0,[]⟩ Asctx.mmInitBlockSize ⟨startedSet,fun _ => 0⟩ with
  | .ok r => r.2
  | .error _ => ⟨fun _ => 0,[]⟩

def started : Process := ⟨startedSet,startedHeap,⟨2^20,fun _ => 0⟩,⟨2^62,fun _ => 0⟩⟩

def modelSections (f : MappedFile) : Load Sections := sectionsLoad started f

-- The data section begins at the next alignment boundary.
def dataBase (post alignment : Nat) : Nat :=
  if post % alignment ≠ 0 then u64 (post+(alignment-post % alignment)) else post

def TensorInfo.place (base : Nat) (t : TensorInfo) : TensorInfo :=
  {t with offset:=u64 (t.offset+base),data:=some (u64 (t.offset+base))}

end TinyLlama.Gguf
