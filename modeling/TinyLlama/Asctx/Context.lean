import TinyLlama.Lib.Memory
import TinyLlama.Machine

-- asctx.c and asctx.h. A pointer is its address; a header field is a little-endian word at its C offset.
namespace TinyLlama.Asctx
open Memory

-- sizeof(AllocSetContext), sizeof(AllocBlockData) and sizeof(AllocChunkData).
def allocSetCxtSize : Nat := 104
def allocBlockSize : Nat := 40
def allocChunkSize : Nat := 16

inductive Header where
  | set (a : Nat)
  | block (a : Nat)
  | chunk (a : Nat)
deriving DecidableEq

def Header.start : Header → Nat
  | .set a | .block a | .chunk a => a

def Header.size : Header → Nat
  | .set _ => allocSetCxtSize
  | .block _ => allocBlockSize
  | .chunk _ => allocChunkSize

structure Field where
  home : Header
  off : Nat
deriving DecidableEq

abbrev blocks (set : Nat) : Field := ⟨.set set,0⟩
abbrev freeList (set i : Nat) : Field := ⟨.set set,8+8*i⟩
abbrev nextBlockSize (set : Nat) : Field := ⟨.set set,96⟩
abbrev blockSet (block : Nat) : Field := ⟨.block block,0⟩
abbrev pres (block : Nat) : Field := ⟨.block block,8⟩
abbrev next (block : Nat) : Field := ⟨.block block,16⟩
abbrev freeptr (block : Nat) : Field := ⟨.block block,24⟩
abbrev endptr (block : Nat) : Field := ⟨.block block,32⟩
abbrev chunkNext (chunk : Nat) : Field := ⟨.chunk chunk,0⟩
abbrev mask (chunk : Nat) : Field := ⟨.chunk chunk,8⟩

-- next_block_size is a uint32_t, the rest are pointers and a u64.
def Field.width : Field → Nat
  | ⟨.set _,96⟩ => 4
  | _ => 8

def Field.addr (f : Field) : Nat := f.home.start+f.off
def get (m : Mem) (f : Field) : Nat := load f.width m f.addr
def put (m : Mem) (f : Field) (v : Nat) : Mem := store f.width m f.addr v

def allocMinbits : Nat := 3
def allocFreelistsNum : Nat := 11
def allocChunkLimit : Nat := 1 <<< (allocFreelistsNum+allocMinbits-1)
def defaultMaxBlockSize : Nat := 8*1024*1024
def externalBasebit : Nat := 3
def valueBasebit : Nat := externalBasebit+1
def blockOffsetBasebit : Nat := valueBasebit+30
def maxValue : Nat := 0x3FFFFFFF
def blockOffsetMask : Nat := 0x3FFFFFFF
def chunkMagic : Nat := (0xBDEADB858E77BABA >>> valueBasebit) <<< valueBasebit

def maxalign (len : Nat) : Nat := u64 (len+7)/8*8
def keeperAllocBlock (set : Nat) : Nat := set+allocSetCxtSize
def chunkGetPointer (chunk : Nat) : Nat := chunk+allocChunkSize
def pointerGetChunk (ptr : Nat) : Nat := ptr-allocChunkSize
def externalGetBlock (chunk : Nat) : Nat := chunk-allocBlockSize
def sizeFromFreeListIdx (fdx : Nat) : Nat := (1 <<< allocMinbits) <<< fdx
def isExternal (mask : Nat) : Bool := mask &&& (1 <<< externalBasebit) ≠ 0
def getOffset (mask : Nat) : Nat := (mask >>> blockOffsetBasebit) &&& blockOffsetMask
def getValue (mask : Nat) : Nat := (mask >>> valueBasebit) &&& maxValue

-- The table of 256 entries, by its runs.
def leftmostOnePos : List Nat :=
  [0,0]++List.replicate 2 1++List.replicate 4 2++List.replicate 8 3++List.replicate 16 4++List.replicate 32 5++
    List.replicate 64 6++List.replicate 128 7

-- `k` counts the bytes above the lowest; below it the C loop has no defined end.
def leftmost32From (word : Nat) : Nat → Nat
  | 0 => leftmostOnePos.getD (word &&& 255) 0
  | k+1 => if word >>> (8*(k+1)) = 0 then leftmost32From word k
    else 8*(k+1)+leftmostOnePos.getD ((word >>> (8*(k+1))) &&& 255) 0

def leftmost32Pos (word : Nat) : Nat := leftmost32From word 3

def allocSetFreeIndex (size : Nat) : Nat :=
  if size > 1 <<< allocMinbits then leftmost32Pos (size-1)-allocMinbits+1 else 0

def externalMask : Nat := chunkMagic ||| (1 <<< externalBasebit)
def chunkMask (chunk block value : Nat) : Nat :=
  ((chunk-block) <<< blockOffsetBasebit) ||| (value <<< valueBasebit)

def chunkIsExternal (m : Mem) (chunk : Nat) : Bool := isExternal (get m (mask chunk))
def chunkGetBlock (m : Mem) (chunk : Nat) : Nat := chunk-getOffset (get m (mask chunk))

-- malloc's regions are in `regions`, by base and length.
structure Heap where
  mem : Mem
  regions : List (Nat × Nat)

-- What malloc or realloc answers: a base, and whatever the region holds.
structure Fresh where
  base : Nat
  junk : Nat → UInt8

inductive Stop where
  | fatal
  | undefined
deriving DecidableEq

def Fresh.Fits (f : Fresh) (n : Nat) (regions : List (Nat × Nat)) : Prop :=
  0 < f.base ∧ f.base+n < 2^64 ∧ ∀ r ∈ regions, Apart f.base n r.1 r.2

instance (f : Fresh) (n : Nat) (regions : List (Nat × Nat)) : Decidable (f.Fits n regions) :=
  inferInstanceAs (Decidable (0 < f.base ∧ f.base+n < 2^64 ∧ ∀ r ∈ regions, f.base+n ≤ r.1 ∨ r.1+r.2 ≤ f.base))

-- An answer that is no fresh region is NULL.
def malloc (h : Heap) (n : Nat) (f : Fresh) : Except Stop Heap :=
  if f.Fits n h.regions then .ok ⟨fill h.mem f.base n f.junk,(f.base,n) :: h.regions⟩ else .error .fatal

def without (regions : List (Nat × Nat)) (p : Nat) : List (Nat × Nat) := regions.filter fun r => r.1 ≠ p

def release (h : Heap) (p : Nat) : Except Stop Heap :=
  match h.regions.find? fun r => r.1 = p with
  | none => .error .undefined
  | some _ => .ok {h with regions:=without h.regions p}

-- realloc: the common front of the region goes along.
def resize (h : Heap) (p n : Nat) (f : Fresh) : Except Stop Heap :=
  match h.regions.find? fun r => r.1 = p with
  | none => .error .undefined
  | some r =>
    if f.Fits n (without h.regions p) then
      let moved : Mem := fun x =>
        if f.base ≤ x ∧ x < f.base+min r.2 n then h.mem (p+(x-f.base)) else fill h.mem f.base n f.junk x
      .ok ⟨moved,(f.base,n) :: without h.regions p⟩
    else .error .fatal

def allocSetMemoryContextCreate (h : Heap) (blockSize : Nat) (f : Fresh) : Except Stop (Nat × Heap) := do
  let size := maxalign (u64 (allocSetCxtSize+blockSize))
  let h ← malloc h size f
  let set := f.base
  let block := keeperAllocBlock set
  let m := put h.mem (blockSet block) set
  let m := put m (pres block) 0
  let m := put m (next block) 0
  let m := put m (freeptr block) (block+allocBlockSize)
  let m := put m (endptr block) (set+size)
  let m := put m (blocks set) block
  let m := put m (nextBlockSize set) (u32 (maxalign blockSize))
  let m := (List.range allocFreelistsNum).foldl (fun m i => put m (freeList set i) 0) m
  return (set,{h with mem:=m})

def allocChunkFromBlock (m : Mem) (block chksize : Nat) : Nat × Mem :=
  let chunk := get m (freeptr block)
  let m := put m (freeptr block) (u64 (chunk+(chksize+allocChunkSize)))
  let m := put m (chunkNext chunk) 0
  let m := put m (mask chunk) (u64 (chunkMask chunk block chksize))
  (chunkGetPointer chunk,m)

def allocNewBlock (h : Heap) (set chksize : Nat) (f : Fresh) : Except Stop (Nat × Heap) := do
  let blkSize := get h.mem (nextBlockSize set)
  let m := put h.mem (nextBlockSize set)
    (if blkSize > defaultMaxBlockSize/2 then defaultMaxBlockSize else blkSize*2)
  let blkSize := if blkSize < chksize+allocBlockSize+allocChunkSize then chksize+allocBlockSize+allocChunkSize else blkSize
  let h ← malloc {h with mem:=m} blkSize f
  let block := f.base
  let m := put h.mem (freeptr block) (block+allocBlockSize)
  let m := put m (endptr block) (block+blkSize)
  let m := put m (blockSet block) set
  let m := put m (next block) (get m (blocks set))
  let m := put m (pres block) 0
  let m := if get m (next block) ≠ 0 then put m (pres (get m (next block))) block else m
  let m := put m (blocks set) block
  let (p,m) := allocChunkFromBlock m block chksize
  return (p,{h with mem:=m})

def allocLarge (h : Heap) (set size : Nat) (f : Fresh) : Except Stop (Nat × Heap) := do
  let blkSize := maxalign (u64 (size+allocBlockSize+allocChunkSize))
  let h ← malloc h blkSize f
  let block := f.base
  let m := put h.mem (blockSet block) set
  let m := put m (endptr block) (block+blkSize)
  let m := put m (freeptr block) (block+blkSize)
  let chunk := block+allocBlockSize
  let m := put m (mask chunk) externalMask
  let head := get m (blocks set)
  let m :=
    if head ≠ 0 then
      let m := put m (pres block) head
      let m := put m (next block) (get m (next head))
      let m := if get m (next block) ≠ 0 then put m (pres (get m (next block))) block else m
      put m (next head) block
    else
      let m := put m (pres block) 0
      let m := put m (next block) 0
      put m (blocks set) block
  return (chunkGetPointer chunk,{h with mem:=m})

def allocSetAlloc (h : Heap) (set size : Nat) (f : Fresh) : Except Stop (Nat × Heap) :=
  if size > allocChunkLimit then allocLarge h set size f
  else
    let block := get h.mem (blocks set)
    let fdx := allocSetFreeIndex size
    let chunk := get h.mem (freeList set fdx)
    if chunk ≠ 0 then
      .ok (chunkGetPointer chunk,{h with mem:=put h.mem (freeList set fdx) (get h.mem (chunkNext chunk))})
    else
      let chksize := sizeFromFreeListIdx fdx
      let freesize := u64 (get h.mem (endptr block)+2^64-get h.mem (freeptr block))
      if freesize < chksize+allocChunkSize then allocNewBlock h set chksize f
      else
        let (p,m) := allocChunkFromBlock h.mem block chksize
        .ok (p,{h with mem:=m})

def allocSetFree (h : Heap) (ptr : Nat) : Except Stop Heap :=
  let chunk := pointerGetChunk ptr
  if chunkIsExternal h.mem chunk then
    let block := externalGetBlock chunk
    let set := get h.mem (blockSet block)
    let m := h.mem
    let m := if get m (pres block) ≠ 0 then put m (next (get m (pres block))) (get m (next block))
      else put m (blocks set) (get m (next block))
    let m := if get m (next block) ≠ 0 then put m (pres (get m (next block))) (get m (pres block)) else m
    release {h with mem:=m} block
  else
    let block := chunkGetBlock h.mem chunk
    let set := get h.mem (blockSet block)
    let fdx := allocSetFreeIndex (getValue (get h.mem (mask chunk)))
    let m := put h.mem (chunkNext chunk) (get h.mem (freeList set fdx))
    .ok {h with mem:=put m (freeList set fdx) chunk}

def allocSetRealloc (h : Heap) (ptr size : Nat) (f : Fresh) : Except Stop (Nat × Heap) := do
  let chunk := pointerGetChunk ptr
  if chunkIsExternal h.mem chunk then
    let block := externalGetBlock chunk
    let set := get h.mem (blockSet block)
    let blksize := maxalign (u64 (size+allocBlockSize+allocChunkSize))
    let h ← resize h block blksize f
    let block := f.base
    let m := put h.mem (endptr block) (block+blksize)
    let m := put m (freeptr block) (block+blksize)
    let chunk := block+allocBlockSize
    let m := if get m (pres block) ≠ 0 then put m (next (get m (pres block))) block else put m (blocks set) block
    let m := if get m (next block) ≠ 0 then put m (pres (get m (next block))) block else m
    return (chunkGetPointer chunk,{h with mem:=m})
  else
    let block := chunkGetBlock h.mem chunk
    let set := get h.mem (blockSet block)
    let oldSize := getValue (get h.mem (mask chunk))
    if oldSize ≥ size then return (ptr,h)
    else
      let (nptr,h) ← allocSetAlloc h set size f
      let h ← allocSetFree {h with mem:=copy h.mem nptr ptr oldSize} ptr
      return (nptr,h)

end TinyLlama.Asctx
