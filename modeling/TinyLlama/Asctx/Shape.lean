import TinyLlama.Asctx.Context

-- The blocks, chunks and headers of an allocation set lie apart.
namespace TinyLlama.Asctx
open Memory

-- `free` is where the block's free space starts.
structure Block where
  base : Nat
  stop : Nat
  free : Nat
  ext : Bool

structure Chunk where
  addr : Nat
  cap : Nat
  base : Nat
  ext : Bool

def Chunk.stop (c : Chunk) : Nat := c.addr+allocChunkSize+c.cap
def Chunk.mask (c : Chunk) : Nat := if c.ext then externalMask else chunkMask c.addr c.base c.cap

def Block.Off (b c : Block) : Prop := b.stop ≤ c.base ∨ c.stop ≤ b.base
def Chunk.Off (c d : Chunk) : Prop := c.stop ≤ d.addr ∨ d.stop ≤ c.addr

instance : Std.Symm Block.Off := ⟨fun _ _ => Or.symm⟩
instance : Std.Symm Chunk.Off := ⟨fun _ _ => Or.symm⟩

-- `live` pairs a pointer with the size asked for; `free i` lists class i's chunks.
structure Shape where
  blocks : List Block
  chunks : List Chunk
  live : List (Nat × Nat)
  free : Nat → List Nat

structure Chunk.Inside (c : Chunk) (b : Block) : Prop where
  base : b.base = c.base
  ext : b.ext = c.ext
  low : b.base+allocBlockSize ≤ c.addr
  high : c.stop ≤ b.free
  only : b.ext = true → c.addr = b.base+allocBlockSize
  near : b.ext = false → (∃ i < allocFreelistsNum, c.cap = sizeFromFreeListIdx i) ∧ c.addr < b.base+2^30

structure Placed (set : Nat) (s : Shape) : Prop where
  setPositive : 0 < set
  setInside : set+allocSetCxtSize < 2^64
  blocks : s.blocks.Pairwise Block.Off
  clear : ∀ b ∈ s.blocks, b.stop ≤ set ∨ set+allocSetCxtSize ≤ b.base
  fits : ∀ b ∈ s.blocks, 0 < b.base ∧ b.base+allocBlockSize ≤ b.free ∧ b.free ≤ b.stop ∧ b.stop < 2^64
  inside : ∀ c ∈ s.chunks, ∃ b ∈ s.blocks, c.Inside b
  chunks : s.chunks.Pairwise Chunk.Off

def Shape.Has (set : Nat) (s : Shape) : Header → Prop
  | .set a => a = set
  | .block a => ∃ b ∈ s.blocks, b.base = a
  | .chunk a => ∃ c ∈ s.chunks, c.addr = a

def Field.Proper (f : Field) : Prop := f.off%8 = 0 ∧ f.off+8 ≤ f.home.size

def Shape.Valid (set : Nat) (s : Shape) (f : Field) : Prop := s.Has set f.home ∧ f.Proper

section geometry
variable {set : Nat} {s : Shape}

theorem Placed.block_apart (placed : Placed set s) (first : b ∈ s.blocks) (second : c ∈ s.blocks)
    (other : b.base ≠ c.base) : b.stop ≤ c.base ∨ c.stop ≤ b.base :=
  placed.blocks.forall first second fun same => other (by rw [same])

theorem Placed.block_unique (placed : Placed set s) (first : b ∈ s.blocks) (second : c ∈ s.blocks)
    (same : b.base = c.base) : b = c := by
  by_contra other
  have := placed.fits b first
  have := placed.fits c second
  simp only [allocBlockSize] at *
  rcases placed.blocks.forall first second other with before | after <;> omega

theorem Placed.chunk_apart (placed : Placed set s) (first : c ∈ s.chunks) (second : d ∈ s.chunks)
    (other : c.addr ≠ d.addr) : c.stop ≤ d.addr ∨ d.stop ≤ c.addr :=
  placed.chunks.forall first second fun same => other (by rw [same])

theorem Placed.chunk_unique (placed : Placed set s) (first : c ∈ s.chunks) (second : d ∈ s.chunks)
    (same : c.addr = d.addr) : c = d := by
  by_contra other
  have apart := placed.chunks.forall first second other
  simp only [Chunk.Off,Chunk.stop,allocChunkSize] at apart
  omega

theorem Placed.chunk_block (placed : Placed set s) (first : c ∈ s.chunks) (second : b ∈ s.blocks) :
    b.base+allocBlockSize ≤ c.addr ∧ c.stop ≤ b.free ∨ b.stop ≤ c.addr ∨ c.stop ≤ b.base := by
  obtain ⟨own,listed,inside⟩ := placed.inside c first
  have low := inside.low
  have high := inside.high
  by_cases same : own.base = b.base
  · obtain rfl := placed.block_unique listed second same
    exact .inl ⟨low,high⟩
  · have := placed.fits own listed
    have := placed.fits b second
    simp only [allocBlockSize] at *
    rcases placed.block_apart listed second same with before | after <;> omega

theorem Placed.chunk_set (placed : Placed set s) (listed : c ∈ s.chunks) :
    c.stop ≤ set ∨ set+allocSetCxtSize ≤ c.addr := by
  obtain ⟨own,inside',inside⟩ := placed.inside c listed
  have low := inside.low
  have high := inside.high
  have := placed.fits own inside'
  simp only [allocBlockSize] at *
  rcases placed.clear own inside' with before | after <;> omega

theorem Placed.headers_apart (placed : Placed set s) (first : s.Has set g) (second : s.Has set h) (other : g ≠ h) :
    Memory.Apart g.start g.size h.start h.size := by
  unfold Memory.Apart
  cases g with
  | set a =>
    obtain rfl : a = set := first
    cases h with
    | set b => exact absurd (congrArg Header.set (show a = b from (show b = a from second).symm)) other
    | block b =>
      obtain ⟨k,listed,rfl⟩ := second
      have := placed.fits k listed
      have := placed.clear k listed
      simp only [Header.start,Header.size,allocBlockSize,allocSetCxtSize] at *
      omega
    | chunk c =>
      obtain ⟨k,listed,rfl⟩ := second
      have := placed.chunk_set listed
      simp only [Header.start,Header.size,Chunk.stop,allocChunkSize,allocSetCxtSize] at *
      omega
  | block b =>
    obtain ⟨k,listed,rfl⟩ := first
    have := placed.fits k listed
    cases h with
    | set a =>
      obtain rfl : a = set := second
      have := placed.clear k listed
      simp only [Header.start,Header.size,allocBlockSize,allocSetCxtSize] at *
      omega
    | block c =>
      obtain ⟨k',listed',rfl⟩ := second
      have := placed.fits k' listed'
      have := placed.block_apart listed listed' fun same => other (by rw [same])
      simp only [Header.start,Header.size,allocBlockSize] at *
      omega
    | chunk c =>
      obtain ⟨k',listed',rfl⟩ := second
      have := placed.chunk_block listed' listed
      simp only [Header.start,Header.size,Chunk.stop,allocBlockSize,allocChunkSize] at *
      omega
  | chunk c =>
    obtain ⟨k,listed,rfl⟩ := first
    cases h with
    | set a =>
      obtain rfl : a = set := second
      have := placed.chunk_set listed
      simp only [Header.start,Header.size,Chunk.stop,allocChunkSize,allocSetCxtSize] at *
      omega
    | block b =>
      obtain ⟨k',listed',rfl⟩ := second
      have := placed.fits k' listed'
      have := placed.chunk_block listed listed'
      simp only [Header.start,Header.size,Chunk.stop,allocBlockSize,allocChunkSize] at *
      omega
    | chunk d =>
      obtain ⟨k',listed',rfl⟩ := second
      have := placed.chunk_apart listed listed' fun same => other (by rw [same])
      simp only [Header.start,Header.size,Chunk.stop,allocChunkSize] at *
      omega

theorem Placed.payload_apart (placed : Placed set s) (header : s.Has set g) (listed : c ∈ s.chunks) :
    Memory.Apart g.start g.size (c.addr+allocChunkSize) c.cap := by
  unfold Memory.Apart
  cases g with
  | set a =>
    obtain rfl : a = set := header
    have := placed.chunk_set listed
    simp only [Header.start,Header.size,Chunk.stop,allocSetCxtSize,allocChunkSize] at *
    omega
  | block b =>
    obtain ⟨k,listed',rfl⟩ := header
    have := placed.fits k listed'
    have := placed.chunk_block listed listed'
    simp only [Header.start,Header.size,Chunk.stop,allocBlockSize,allocChunkSize] at *
    omega
  | chunk d =>
    obtain ⟨k,listed',rfl⟩ := header
    by_cases same : k.addr = c.addr
    · simp only [Header.start,Header.size,allocChunkSize] at *
      omega
    · have := placed.chunk_apart listed' listed same
      simp only [Header.start,Header.size,Chunk.stop,allocChunkSize] at *
      omega

@[simp] theorem header_size_set (a : Nat) : (Header.set a).size = 104 := rfl
@[simp] theorem header_size_block (a : Nat) : (Header.block a).size = 40 := rfl
@[simp] theorem header_size_chunk (a : Nat) : (Header.chunk a).size = 16 := rfl
@[simp] theorem proper_mk (home : Header) (off : Nat) : (Field.mk home off).Proper ↔ off%8 = 0 ∧ off+8 ≤ home.size := Iff.rfl
@[simp] theorem valid_mk (home : Header) (off : Nat) :
    s.Valid set ⟨home,off⟩ ↔ s.Has set home ∧ (off%8 = 0 ∧ off+8 ≤ home.size) := Iff.rfl
@[simp] theorem has_set (a : Nat) : s.Has set (.set a) ↔ a = set := Iff.rfl
@[simp] theorem has_block (a : Nat) : s.Has set (.block a) ↔ ∃ b ∈ s.blocks, b.base = a := Iff.rfl
@[simp] theorem has_chunk (a : Nat) : s.Has set (.chunk a) ↔ ∃ c ∈ s.chunks, c.addr = a := Iff.rfl

theorem Field.width_le (f : Field) : f.width ≤ 8 := by
  unfold Field.width
  split <;> decide

theorem Placed.get_put (placed : Placed set s) (first : s.Valid set f) (second : s.Valid set g) (fits : v < 256^f.width) :
    get (put m f v) g = if f = g then v else get m g := by
  by_cases same : f = g
  · subst same
    rw [if_pos rfl]
    exact load_store_same fits
  · rw [if_neg same]
    refine load_store_apart ?_
    obtain ⟨header,whole,inside⟩ := first
    obtain ⟨header',whole',inside'⟩ := second
    have narrow := f.width_le
    have narrow' := g.width_le
    unfold Memory.Apart Field.addr
    by_cases home : f.home = g.home
    · have apart : f.off ≠ g.off := fun off => same (by cases f; cases g; simp_all)
      rw [home]
      omega
    · have apart := placed.headers_apart header header' home
      unfold Memory.Apart at apart
      omega

theorem Placed.put_payload (placed : Placed set s) (valid : s.Valid set f) (listed : c ∈ s.chunks)
    (low : c.addr+allocChunkSize ≤ x) (high : x < c.stop) : put m f v x = m x := by
  obtain ⟨header,_,inside⟩ := valid
  have apart := placed.payload_apart header listed
  have narrow := f.width_le
  refine store_other ?_
  simp only [Memory.Apart,Chunk.stop,Field.addr] at *
  omega

end geometry

end TinyLlama.Asctx
