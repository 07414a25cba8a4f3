import Mathlib.Data.Nat.Bitwise
import TinyLlama.Asctx.Shape
import TinyLlama.Lib.Linked

namespace TinyLlama.Asctx
open Memory Linked

def Shape.bases (s : Shape) : List Nat := s.blocks.map Block.base

def BlockRow (m : Mem) (bases : List Nat) : Prop := Row (fun b => get m (next b)) (fun b => get m (pres b)) bases

def FreeChain (m : Mem) : Nat → List Nat → Prop
  | p,[] => p = 0
  | p,a :: rest => p = a ∧ FreeChain m (get m (chunkNext a)) rest

structure Held (set : Nat) (m : Mem) (s : Shape) : Prop where
  head : get m (blocks set) = s.bases.headD 0
  row : BlockRow m s.bases
  fields : ∀ b ∈ s.blocks, get m (blockSet b.base) = set ∧ get m (freeptr b.base) = b.free ∧ get m (endptr b.base) = b.stop
  masks : ∀ c ∈ s.chunks, get m (mask c.addr) = c.mask
  lists : ∀ i < allocFreelistsNum, FreeChain m (get m (freeList set i)) (s.free i)
  grow : get m (nextBlockSize set) ≤ 2^30

structure Tracked (s : Shape) : Prop where
  live : ∀ l ∈ s.live, ∃ c ∈ s.chunks, l.1 = chunkGetPointer c.addr ∧ l.2 ≤ c.cap
  free : ∀ i, ∀ a ∈ s.free i, i < allocFreelistsNum ∧
    ∃ c ∈ s.chunks, c.addr = a ∧ c.ext = false ∧ c.cap = sizeFromFreeListIdx i
  liveOnce : (s.live.map Prod.fst).Nodup
  freeOnce : ∀ i, (s.free i).Nodup
  apart : ∀ i, ∀ a ∈ s.free i, ∀ l ∈ s.live, l.1 ≠ chunkGetPointer a

structure Backed (set : Nat) (regions : List (Nat × Nat)) (s : Shape) : Prop where
  keeper : ∃ k ∈ s.blocks, k.base = keeperAllocBlock set ∧ k.ext = false ∧ (set,k.stop-set) ∈ regions
  head : ∃ h rest, s.blocks = h :: rest ∧ h.ext = false
  given : ∀ b ∈ s.blocks, b.base ≠ keeperAllocBlock set → (b.base,b.stop-b.base) ∈ regions
  once : (regions.map Prod.fst).Nodup
  positive : ∀ r ∈ regions, 0 < r.2
  small : ∀ b ∈ s.blocks, b.ext = false → b.stop ≤ b.base+2^30

structure Inv (set : Nat) (h : Heap) (s : Shape) : Prop where
  placed : Placed set s
  held : Held set h.mem s
  tracked : Tracked s
  backed : Backed set h.regions s

section decode

theorem chunkMask_eq (off cap : Nat) (small : cap < 2^30) :
    (off <<< blockOffsetBasebit) ||| (cap <<< valueBasebit) = 2^34*off+2^4*cap := by
  have split := Nat.two_pow_add_eq_or_of_lt (show 2^4*cap < 2^34 by omega) off
  rw [split]
  simp only [blockOffsetBasebit,valueBasebit,externalBasebit,Nat.shiftLeft_eq]
  congr 1 <;> omega

theorem chunkMask_decodes (near : c < b+2^30) (low : b ≤ c) (small : k < 2^30) :
    isExternal (chunkMask c b k) = false ∧ getOffset (chunkMask c b k) = c-b ∧ getValue (chunkMask c b k) = k ∧
      chunkMask c b k < 2^64 := by
  have whole : chunkMask c b k = 2^34*(c-b)+2^4*k := chunkMask_eq (c-b) k small
  rw [whole]
  refine ⟨?_,?_,?_,by omega⟩
  · have bit : (2^34*(c-b)+2^4*k).testBit 3 = false := by
      rw [Nat.testBit_eq_decide_div_mod_eq,decide_eq_false_iff_not]
      omega
    have none' : (2^34*(c-b)+2^4*k) &&& 2^3 = 0 := by rw [Nat.and_two_pow,bit]; rfl
    have third : 1 <<< externalBasebit = 2^3 := rfl
    rw [isExternal,third,none']
    rfl
  · have ones : blockOffsetMask = 2^30-1 := rfl
    have places : blockOffsetBasebit = 34 := rfl
    rw [getOffset,ones,places,Nat.and_two_pow_sub_one_eq_mod,Nat.shiftRight_eq_div_pow]
    omega
  · have ones : maxValue = 2^30-1 := rfl
    have places : valueBasebit = 4 := rfl
    rw [getValue,ones,places,Nat.and_two_pow_sub_one_eq_mod,Nat.shiftRight_eq_div_pow]
    omega

theorem externalMask_external : isExternal externalMask = true ∧ externalMask < 2^64 := by decide

theorem sizeFromFreeListIdx_small (small : i < allocFreelistsNum) :
    0 < sizeFromFreeListIdx i ∧ sizeFromFreeListIdx i ≤ allocChunkLimit := by
  have table : ∀ i < 11, 0 < sizeFromFreeListIdx i ∧ sizeFromFreeListIdx i ≤ allocChunkLimit := by decide
  exact table i small

theorem allocSetFreeIndex_class (small : i < allocFreelistsNum) : allocSetFreeIndex (sizeFromFreeListIdx i) = i := by
  have table : ∀ i < 11, allocSetFreeIndex (sizeFromFreeListIdx i) = i := by decide +kernel
  exact table i small

theorem leftmostOnePos_table :
    leftmostOnePos.zipIdx.all (fun e => e.2 = 0 || (2^e.1 ≤ e.2 && e.2 < 2^(e.1+1))) = true := by decide +kernel

theorem leftmostOnePos_spec (b : Nat) (small : b < 256) (positive : 0 < b) :
    2^leftmostOnePos.getD b 0 ≤ b ∧ b < 2^(leftmostOnePos.getD b 0+1) := by
  have inside : b < leftmostOnePos.length := by
    simp only [leftmostOnePos,List.length_append,List.length_replicate,List.length_cons,List.length_nil]
    omega
  have entry := List.all_eq_true.mp leftmostOnePos_table (leftmostOnePos[b],b)
    (List.mem_zipIdx_iff_getElem?.mpr (List.getElem?_eq_getElem inside))
  rw [List.getD_eq_getElem _ _ inside]
  simpa [positive.ne'] using entry

theorem leftmost32Pos_spec (positive : 0 < w) (small : w < 2^16) :
    2^leftmost32Pos w ≤ w ∧ w < 2^(leftmost32Pos w+1) := by
  have byte : ∀ n : Nat, n &&& 255 = n%256 := fun n => Nat.and_two_pow_sub_one_eq_mod n 8
  have none' : w >>> 24 = 0 ∧ w >>> 16 = 0 := by
    simp only [Nat.shiftRight_eq_div_pow]
    omega
  have high : w >>> 8 = w/256 := Nat.shiftRight_eq_div_pow w 8
  simp only [leftmost32Pos,leftmost32From,Nat.reduceAdd,Nat.reduceMul,none'.1,none'.2,if_true,high,byte]
  split
  · have low : w < 256 := by omega
    rw [Nat.mod_eq_of_lt low]
    exact leftmostOnePos_spec w low positive
  · obtain ⟨above,below⟩ := leftmostOnePos_spec (w/256) (by omega) (by omega)
    rw [Nat.mod_eq_of_lt (show w/256 < 256 by omega)]
    generalize leftmostOnePos.getD (w/256) 0 = k at above below
    have step : 2^(8+k) = 256*2^k := by rw [pow_add]; rfl
    have step' : 2^(8+k+1) = 256*2^(k+1) := by rw [add_assoc,pow_add]; rfl
    rw [step,step']
    omega

theorem allocSetFreeIndex_fits (small : size ≤ allocChunkLimit) :
    allocSetFreeIndex size < allocFreelistsNum ∧ size ≤ sizeFromFreeListIdx (allocSetFreeIndex size) := by
  have limit : allocChunkLimit = 8192 := rfl
  have eight : (1 <<< allocMinbits) = 8 := rfl
  unfold allocSetFreeIndex
  rw [eight]
  split
  · rename_i large
    obtain ⟨above,below⟩ := leftmost32Pos_spec (w:=size-1) (by omega) (by omega)
    generalize leftmost32Pos (size-1) = p at above below
    have upper : p < 13 := (Nat.pow_lt_pow_iff_right (by decide)).mp (show 2^p < 2^13 by omega)
    have lower : 3 < p+1 := (Nat.pow_lt_pow_iff_right (by decide)).mp (show 2^3 < 2^(p+1) by omega)
    have size' : sizeFromFreeListIdx (p-allocMinbits+1) = 2^(p+1) := by
      have split : p+1 = 3+(p-allocMinbits+1) := by simp only [allocMinbits]; omega
      rw [sizeFromFreeListIdx,eight,Nat.shiftLeft_eq,split,pow_add 2 3]
      rfl
    rw [size']
    simp only [allocMinbits,allocFreelistsNum]
    omega
  · exact ⟨by decide,by change size ≤ 8; omega⟩

end decode

section frame
variable {set : Nat} {s : Shape} {m m' : Mem}

theorem Placed.get_frame (same : ∀ x, f.home.start ≤ x → x < f.home.start+f.home.size → m' x = m x)
    (valid : s.Valid set f) : get m' f = get m f := by
  obtain ⟨_,_,inside⟩ := valid
  have narrow := f.width_le
  refine load_congr fun x low high => same x ?_ ?_ <;> simp only [Field.addr] at low high <;> omega

theorem get_lt (m : Mem) (f : Field) : get m f < 2^64 := by
  have bound := load_lt f.width m f.addr
  have wide : 256^f.width ≤ 256^8 := Nat.pow_le_pow_right (by decide) f.width_le
  exact Nat.lt_of_lt_of_le bound wide

theorem valid_freeList (small : i < allocFreelistsNum) : s.Valid set (freeList set i) := by
  simp only [allocFreelistsNum] at small
  simp only [valid_mk,has_set,header_size_set,true_and]
  omega

theorem FreeChain.frame (as : List Nat) : ∀ p, FreeChain m p as →
    (∀ a ∈ as, get m' (chunkNext a) = get m (chunkNext a)) → FreeChain m' p as := by
  induction as with
  | nil => intro p chain _; exact chain
  | cons a rest ih =>
    intro p chain same
    refine ⟨chain.1,?_⟩
    rw [same a (List.mem_cons_self ..)]
    exact ih _ chain.2 fun b present => same b (List.mem_cons_of_mem _ present)

theorem Held.relist (held : Held set m s) (blocks : s'.blocks = s.blocks) (chunks : s'.chunks = s.chunks)
    (same : ∀ g, s.Valid set g → (∀ i < allocFreelistsNum, g ≠ freeList set i) → (∀ c, g ≠ chunkNext c) → get m' g = get m g)
    (lists : ∀ i < allocFreelistsNum, FreeChain m' (get m' (freeList set i)) (s'.free i)) : Held set m' s' := by
  have bases : s'.bases = s.bases := by simp only [Shape.bases,blocks]
  have block : ∀ a ∈ s.bases, ∃ b ∈ s.blocks, b.base = a := fun a present => List.mem_map.mp present
  refine ⟨?_,?_,?_,?_,lists,?_⟩
  · rw [same _ (by simp) (by simp; omega) (by simp),bases,held.head]
  · rw [bases]
    refine held.row.keep (fun a present => ?_) (fun a present => ?_)
    · exact same _ (by simpa using block a present) (by simp) (by simp)
    · exact same _ (by simpa using block a present) (by simp) (by simp)
  · intro b listed
    rw [blocks] at listed
    have own : ∃ k ∈ s.blocks, k.base = b.base := ⟨b,listed,rfl⟩
    rw [same _ (by simpa using own) (by simp) (by simp),same _ (by simpa using own) (by simp) (by simp),
      same _ (by simpa using own) (by simp) (by simp)]
    exact held.fields b listed
  · intro c listed
    rw [chunks] at listed
    have own : ∃ k ∈ s.chunks, k.addr = c.addr := ⟨c,listed,rfl⟩
    rw [same _ (by simpa using own) (by simp) (by simp)]
    exact held.masks c listed
  · have apart : ∀ i < allocFreelistsNum, nextBlockSize set ≠ freeList set i := by
      intro i small eq
      simp only [allocFreelistsNum,Field.mk.injEq,true_and] at small eq
      omega
    rw [same _ (by simp) apart (by simp)]
    exact held.grow

theorem Held.frame (held : Held set m s) (tracked : Tracked s) (same : ∀ g, s.Valid set g → get m' g = get m g) :
    Held set m' s := by
  refine held.relist rfl rfl (fun g valid _ _ => same g valid) fun i small => ?_
  rw [same _ (valid_freeList small)]
  refine FreeChain.frame _ _ (held.lists i small) fun a present => ?_
  obtain ⟨_,c,listed,rfl,_⟩ := tracked.free i a present
  have own : ∃ k ∈ s.chunks, k.addr = c.addr := ⟨c,listed,rfl⟩
  exact same _ (by simpa using own)

theorem width_freeList (small : i < allocFreelistsNum) : (freeList set i).width = 8 := by
  simp only [allocFreelistsNum] at small
  unfold Field.width
  split
  · rename_i off
    simp only [Field.mk.injEq] at off
    omega
  · rfl

theorem Inv.frame {h : Heap} (inv : Inv set h s)
    (same : ∀ g, s.Has set g → ∀ x, g.start ≤ x → x < g.start+g.size → m' x = h.mem x) : Inv set {h with mem:=m'} s :=
  ⟨inv.placed,inv.held.frame inv.tracked fun _ valid => Placed.get_frame (same _ valid.1) valid,inv.tracked,inv.backed⟩

end frame

section backing
variable {set : Nat} {s : Shape} {regions : List (Nat × Nat)} {f : Fresh}

theorem Backed.block_region (backed : Backed set regions s) (placed : Placed set s) (listed : b ∈ s.blocks) :
    ∃ r ∈ regions, r.1 ≤ b.base ∧ b.stop ≤ r.1+r.2 := by
  have fits := placed.fits b listed
  by_cases keeper : b.base = keeperAllocBlock set
  · obtain ⟨k,there,base,_,region⟩ := backed.keeper
    obtain rfl := placed.block_unique listed there (keeper.trans base.symm)
    refine ⟨_,region,?_,?_⟩ <;> simp only [keeperAllocBlock,allocSetCxtSize] at * <;> omega
  · exact ⟨_,backed.given b listed keeper,Nat.le_refl _,by simp only; omega⟩

theorem Backed.set_region (backed : Backed set regions s) (placed : Placed set s) :
    ∃ r ∈ regions, r.1 ≤ set ∧ set+allocSetCxtSize ≤ r.1+r.2 := by
  obtain ⟨k,there,base,_,region⟩ := backed.keeper
  have fits := placed.fits k there
  refine ⟨_,region,Nat.le_refl _,?_⟩
  simp only [keeperAllocBlock,allocBlockSize] at *
  omega

theorem Backed.fresh (backed : Backed set regions s) (placed : Placed set s) (fits : f.Fits n regions) :
    (∀ b ∈ s.blocks, f.base+n ≤ b.base ∨ b.stop ≤ f.base) ∧ (f.base+n ≤ set ∨ set+allocSetCxtSize ≤ f.base) := by
  constructor
  · intro b listed
    obtain ⟨r,given,low,high⟩ := backed.block_region placed listed
    have apart := fits.2.2 r given
    simp only [Apart] at apart
    omega
  · obtain ⟨r,given,low,high⟩ := backed.set_region placed
    have apart := fits.2.2 r given
    simp only [Apart] at apart
    omega

theorem Placed.header_in (placed : Placed set s) (header : s.Has set g) :
    (set ≤ g.start ∧ g.start+g.size ≤ set+allocSetCxtSize) ∨
      ∃ b ∈ s.blocks, b.base ≤ g.start ∧ g.start+g.size ≤ b.stop := by
  cases g with
  | set a =>
    obtain rfl : a = set := header
    exact .inl ⟨Nat.le_refl _,Nat.le_refl _⟩
  | block a =>
    obtain ⟨b,listed,rfl⟩ := header
    have fits := placed.fits b listed
    refine .inr ⟨b,listed,Nat.le_refl _,?_⟩
    simp only [Header.start,header_size_block,allocBlockSize] at *
    omega
  | chunk a =>
    obtain ⟨c,listed,rfl⟩ := header
    obtain ⟨b,own,inside⟩ := placed.inside c listed
    have fits := placed.fits b own
    have low := inside.low
    have high := inside.high
    refine .inr ⟨b,own,?_,?_⟩ <;>
      simp only [Header.start,header_size_chunk,Chunk.stop,allocBlockSize,allocChunkSize] at * <;> omega

theorem Backed.header_outside (backed : Backed set regions s) (placed : Placed set s) (fits : f.Fits n regions)
    (header : s.Has set g) (low : g.start ≤ x) (high : x < g.start+g.size) : x < f.base ∨ f.base+n ≤ x := by
  obtain ⟨clear,clearSet⟩ := backed.fresh placed fits
  rcases placed.header_in header with inSet | ⟨b,listed,inBlock⟩
  · omega
  · have := clear b listed
    omega

theorem Backed.payload_outside (backed : Backed set regions s) (placed : Placed set s) (fits : f.Fits n regions)
    (listed : c ∈ s.chunks) (low : c.addr ≤ x) (high : x < c.stop) : x < f.base ∨ f.base+n ≤ x := by
  obtain ⟨b,own,inside⟩ := placed.inside c listed
  have clear := (backed.fresh placed fits).1 b own
  have := placed.fits b own
  have := inside.low
  have := inside.high
  simp only [allocBlockSize] at *
  omega

end backing

end TinyLlama.Asctx
