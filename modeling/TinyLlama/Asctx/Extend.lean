import TinyLlama.Asctx.Invariant

namespace TinyLlama.Asctx
open Memory Linked

section shape
variable {set : Nat} {s s' : Shape} {m m' : Mem}

theorem Placed.base_positive (placed : Placed set s) : 0 ∉ s.bases := by
  intro zero
  obtain ⟨b,listed,base⟩ := List.mem_map.mp zero
  have := (placed.fits b listed).1
  omega

theorem Placed.bases_nodup (placed : Placed set s) : s.bases.Nodup := by
  have apart := placed.blocks.imp_of_mem (S:=fun b c => b.base ≠ c.base) fun {b c} first second off same => by
    have := placed.fits b first
    have := placed.fits c second
    simp only [Block.Off,allocBlockSize] at *
    omega
  exact List.pairwise_map.mpr apart

theorem Tracked.fresh_pointer (tracked : Tracked s) (absent : ∀ c ∈ s.chunks, c.addr ≠ a) (p : Nat × Nat)
    (listed : p ∈ s.live) : p.1 ≠ chunkGetPointer a := by
  obtain ⟨c,there,pointer,_⟩ := tracked.live p listed
  have other := absent c there
  simp only [chunkGetPointer] at *
  omega

theorem lists_keep (tracked : Tracked s) (held : Held set m s) (heads : ∀ i < allocFreelistsNum,
    get m' (freeList set i) = get m (freeList set i))
    (links : ∀ c ∈ s.chunks, get m' (chunkNext c.addr) = get m (chunkNext c.addr)) (small : i < allocFreelistsNum) :
    FreeChain m' (get m' (freeList set i)) (s.free i) := by
  rw [heads i small]
  refine FreeChain.frame _ _ (held.lists i small) fun a present => ?_
  obtain ⟨_,c,listed,rfl,_⟩ := tracked.free i a present
  exact links c listed

structure Extends (s s' : Shape) : Prop where
  blocks : ∀ b ∈ s.blocks, ∃ k ∈ s'.blocks, k.base = b.base
  chunks : ∀ c ∈ s.chunks, c ∈ s'.chunks
  free : s'.free = s.free

theorem Extends.base (ext : Extends s s') (present : a ∈ s.bases) : ∃ k ∈ s'.blocks, k.base = a := by
  obtain ⟨k,there,rfl⟩ := List.mem_map.mp present
  exact ext.blocks k there

theorem Extends.chunk (ext : Extends s s') (there : c ∈ s.chunks) : ∃ k ∈ s'.chunks, k.addr = c.addr :=
  ⟨c,ext.chunks c there,rfl⟩

theorem Extends.valid (ext : Extends s s') (valid : s.Valid set g) : s'.Valid set g := by
  obtain ⟨header,proper⟩ := valid
  refine ⟨?_,proper⟩
  cases home : g.home with
  | set a =>
    rw [home] at header
    exact header
  | block a =>
    rw [home] at header
    obtain ⟨b,listed,rfl⟩ := header
    exact ext.blocks b listed
  | chunk a =>
    rw [home] at header
    obtain ⟨c,there,rfl⟩ := header
    exact ext.chunk there

structure Field.Plain (set : Nat) (g : Field) : Prop where
  head : blocks set ≠ g
  next : ∀ a, Asctx.next a ≠ g
  pres : ∀ a, Asctx.pres a ≠ g

theorem Held.extend (held : Held set m s) (tracked : Tracked s) (placed : Placed set s') (ext : Extends s s')
    (head : get m' (blocks set) = s'.bases.headD 0) (row : BlockRow m' s'.bases)
    (fields : ∀ b ∈ s'.blocks, b ∉ s.blocks →
      get m' (blockSet b.base) = set ∧ get m' (freeptr b.base) = b.free ∧ get m' (endptr b.base) = b.stop)
    (masks : ∀ c ∈ s'.chunks, c ∉ s.chunks → get m' (mask c.addr) = c.mask)
    (same : ∀ g, s.Valid set g → g.Plain set → (∀ b ∈ s'.blocks, b ∉ s.blocks → g.home ≠ .block b.base) → get m' g = get m g) :
    Held set m' s' := by
  have inChunk : ∀ c ∈ s.chunks, ∃ k ∈ s.chunks, k.addr = c.addr := fun c there => ⟨c,there,rfl⟩
  refine ⟨head,row,fun b listed => ?_,fun c there => ?_,fun i small => ?_,?_⟩
  · by_cases old : b ∈ s.blocks
    · have own : ∃ k ∈ s.blocks, k.base = b.base := ⟨b,old,rfl⟩
      have other : ∀ k ∈ s'.blocks, k ∉ s.blocks → Header.block b.base ≠ .block k.base := by
        intro k present new base
        rw [placed.block_unique present listed (Header.block.inj base).symm] at new
        exact new old
      rw [same _ (by simpa using own) ⟨by simp,by simp,by simp⟩ other,same _ (by simpa using own) ⟨by simp,by simp,by simp⟩ other,
        same _ (by simpa using own) ⟨by simp,by simp,by simp⟩ other]
      exact held.fields b old
    · exact fields b listed old
  · by_cases old : c ∈ s.chunks
    · rw [same _ (by simpa using inChunk c old) ⟨by simp,by simp,by simp⟩ (by simp)]
      exact held.masks c old
    · exact masks c there old
  · rw [ext.free]
    refine lists_keep tracked held (fun j small' => ?_) (fun c there => ?_) small
    · exact same _ (valid_freeList small') ⟨by simp; omega,by simp,by simp⟩ (by simp)
    · exact same _ (by simpa using inChunk c there) ⟨by simp,by simp,by simp⟩ (by simp)
  · rw [same _ (by simp) ⟨by simp,by simp,by simp⟩ (by simp)]
    exact held.grow

theorem Tracked.allocate (tracked : Tracked s) (ext : Extends s s') {c : Chunk} (new : c ∈ s'.chunks)
    (unused : ∀ d ∈ s.chunks, d.addr ≠ c.addr) (live : s'.live = (chunkGetPointer c.addr,size) :: s.live) (asked : size ≤ c.cap) :
    Tracked s' := by
  refine ⟨?_,?_,?_,?_,?_⟩
  · rw [live]
    intro l present
    rcases List.mem_cons.mp present with rfl | there
    · exact ⟨c,new,rfl,asked⟩
    · obtain ⟨d,there',facts⟩ := tracked.live l there
      exact ⟨d,ext.chunks d there',facts⟩
  · rw [ext.free]
    intro i a present
    obtain ⟨small,d,there,facts⟩ := tracked.free i a present
    exact ⟨small,d,ext.chunks d there,facts⟩
  · rw [live]
    refine List.nodup_cons.mpr ⟨fun present => ?_,tracked.liveOnce⟩
    obtain ⟨l,there,same⟩ := List.mem_map.mp present
    exact tracked.fresh_pointer unused l there same
  · rw [ext.free]
    exact tracked.freeOnce
  · rw [ext.free,live]
    intro i a present l listed
    obtain ⟨_,d,there,rfl,_⟩ := tracked.free i a present
    rcases List.mem_cons.mp listed with rfl | there'
    · have other := unused d there
      simp only [chunkGetPointer]
      omega
    · exact tracked.apart i d.addr present l there'

theorem Placed.addBlock (placed : Placed set s) {b : Block} {all : List Block} (order : all.Perm (b :: s.blocks))
    (off : ∀ k ∈ s.blocks, b.Off k) (clear : b.stop ≤ set ∨ set+allocSetCxtSize ≤ b.base)
    (fits : 0 < b.base ∧ b.base+allocBlockSize ≤ b.free ∧ b.free ≤ b.stop ∧ b.stop < 2^64) :
    Placed set {s with blocks:=all} := by
  refine ⟨placed.setPositive,placed.setInside,?_,?_,?_,?_,placed.chunks⟩
  · exact (order.pairwise_iff (fun off => Or.symm off)).mpr (List.pairwise_cons.mpr ⟨off,placed.blocks⟩)
  · intro k present
    rcases List.mem_cons.mp (order.mem_iff.mp present) with rfl | there
    · exact clear
    · exact placed.clear k there
  · intro k present
    rcases List.mem_cons.mp (order.mem_iff.mp present) with rfl | there
    · exact fits
    · exact placed.fits k there
  · intro c there
    obtain ⟨k,listed,inside⟩ := placed.inside c there
    exact ⟨k,order.mem_iff.mpr (List.mem_cons_of_mem _ listed),inside⟩

theorem Placed.addChunk (placed : Placed set s) {c : Chunk} (inside : ∃ b ∈ s.blocks, c.Inside b)
    (off : ∀ d ∈ s.chunks, c.Off d) (live : List (Nat × Nat)) (free : Nat → List Nat) :
    Placed set ⟨s.blocks,c :: s.chunks,live,free⟩ := by
  refine ⟨placed.setPositive,placed.setInside,placed.blocks,placed.clear,placed.fits,?_,List.pairwise_cons.mpr ⟨off,placed.chunks⟩⟩
  intro d present
  rcases List.mem_cons.mp present with rfl | there
  · exact inside
  · exact placed.inside d there

end shape

section backing
variable {set : Nat} {s s' : Shape} {regions : List (Nat × Nat)} {f : Fresh} {h : Heap}

theorem Backed.grant (backed : Backed set regions s) (fits : f.Fits n regions) (positive : 0 < n) :
    Backed set ((f.base,n) :: regions) s := by
  refine ⟨?_,backed.head,fun b listed other => List.mem_cons_of_mem _ (backed.given b listed other),?_,?_,backed.small⟩
  · obtain ⟨k,there,base,normal,region⟩ := backed.keeper
    exact ⟨k,there,base,normal,List.mem_cons_of_mem _ region⟩
  · refine List.nodup_cons.mpr ⟨fun present => ?_,backed.once⟩
    obtain ⟨r,there,same⟩ := List.mem_map.mp present
    have apart := fits.2.2 r there
    have some' := backed.positive r there
    simp only [Apart] at apart
    omega
  · intro r present
    rcases List.mem_cons.mp present with rfl | there
    · exact positive
    · exact backed.positive r there

theorem Backed.addBlock (backed : Backed set regions s) {b : Block} (order : s'.blocks.Perm (b :: s.blocks))
    (head : ∃ k rest, s'.blocks = k :: rest ∧ k.ext = false) (given : (b.base,b.stop-b.base) ∈ regions)
    (small : b.ext = false → b.stop ≤ b.base+2^30) : Backed set regions s' := by
  refine ⟨?_,head,?_,backed.once,backed.positive,?_⟩
  · obtain ⟨k,there,facts⟩ := backed.keeper
    exact ⟨k,order.mem_iff.mpr (List.mem_cons_of_mem _ there),facts⟩
  · intro k present
    rcases List.mem_cons.mp (order.mem_iff.mp present) with rfl | there
    · exact fun _ => given
    · exact backed.given k there
  · intro k present
    rcases List.mem_cons.mp (order.mem_iff.mp present) with rfl | there
    · exact small
    · exact backed.small k there

-- A region of malloc's that is clear of the shape.
structure Clear (set : Nat) (s : Shape) (h : Heap) (base n : Nat) : Prop where
  given : (base,n) ∈ h.regions
  positive : 0 < base
  top : base+n < 2^64
  blocks : ∀ b ∈ s.blocks, base+n ≤ b.base ∨ b.stop ≤ base
  set : base+n ≤ set ∨ set+allocSetCxtSize ≤ base

theorem Clear.base_new (clear : Clear set s h base n) (placed : Placed set s) (room : 0 < n) (present : a ∈ s.bases) : base ≠ a := by
  obtain ⟨k,there,rfl⟩ := List.mem_map.mp present
  have := clear.blocks k there
  have := placed.fits k there
  simp only [allocBlockSize] at *
  omega

theorem Clear.chunk_new (clear : Clear set s h base n) (placed : Placed set s) (room : allocBlockSize < n) (there : c ∈ s.chunks) :
    c.addr ≠ base+allocBlockSize := by
  obtain ⟨k,listed,inside⟩ := placed.inside c there
  have := clear.blocks k listed
  have := placed.fits k listed
  have low := inside.low
  have high := inside.high
  simp only [Chunk.stop,allocBlockSize,allocChunkSize] at *
  omega

-- A block that is all one chunk.
def ownBlock (base n : Nat) : Block := ⟨base,base+n,base+n,true⟩
def ownChunk (base n : Nat) : Chunk := ⟨base+allocBlockSize,n-allocBlockSize-allocChunkSize,base,true⟩

def Shape.own (s : Shape) (all : List Block) (base n size : Nat) : Shape :=
  ⟨all,ownChunk base n :: s.chunks,(chunkGetPointer (base+allocBlockSize),size) :: s.live,s.free⟩

theorem Placed.own {all : List Block} (placed : Placed set s) (clear : Clear set s h base n)
    (roomy : allocBlockSize+allocChunkSize ≤ n) (order : all.Perm (ownBlock base n :: s.blocks)) (size : Nat) :
    Placed set (s.own all base n size) := by
  simp only [allocBlockSize,allocChunkSize] at roomy
  have blocks := placed.addBlock order clear.blocks clear.set ⟨clear.positive,by
    simp only [ownBlock,allocBlockSize]; omega,Nat.le_refl _,clear.top⟩
  refine blocks.addChunk ⟨ownBlock base n,order.mem_iff.mpr (List.mem_cons_self ..),rfl,rfl,Nat.le_refl _,?_,fun _ => rfl,
    fun normal => ?_⟩ ?_ _ _
  · simp only [ownChunk,ownBlock,Chunk.stop,allocBlockSize,allocChunkSize]
    omega
  · simp [ownBlock] at normal
  · intro d there
    obtain ⟨k,listed,inside⟩ := placed.inside d there
    have := clear.blocks k listed
    have := placed.fits k listed
    have low := inside.low
    have high := inside.high
    simp only [Chunk.Off,ownChunk,Chunk.stop,allocBlockSize,allocChunkSize] at *
    omega

theorem extends_own {all : List Block} (order : all.Perm (ownBlock base n :: s.blocks)) (size : Nat) :
    Extends s (s.own all base n size) :=
  ⟨fun b listed => ⟨b,order.mem_iff.mpr (List.mem_cons_of_mem _ listed),rfl⟩,fun _ there => List.mem_cons_of_mem _ there,rfl⟩

-- Whoever writes the new block's words and the links about it keeps the invariant.
theorem Inv.own {all : List Block} (inv : Inv set h s) (clear : Clear set s h base n)
    (roomy : allocBlockSize+allocChunkSize+size ≤ n) (order : all.Perm (ownBlock base n :: s.blocks))
    (front : ∃ k rest, all = k :: rest ∧ k.ext = false) (head : get m (blocks set) = (all.map Block.base).headD 0)
    (row : BlockRow m (all.map Block.base))
    (words : get m (blockSet base) = set ∧ get m (freeptr base) = base+n ∧ get m (endptr base) = base+n)
    (ownMask : get m (mask (base+allocBlockSize)) = externalMask)
    (same : ∀ g, s.Valid set g → g.Plain set → get m g = get h.mem g) : Inv set {h with mem:=m} (s.own all base n size) := by
  obtain ⟨placed,held,tracked,backed⟩ := inv
  have long : allocBlockSize+allocChunkSize ≤ n := Nat.le_trans (Nat.le_add_right _ _) roomy
  have placed' := placed.own clear long order size
  have ext := extends_own order size
  simp only [allocBlockSize,allocChunkSize] at roomy long
  refine ⟨placed',held.extend tracked placed' ext head row ?_ ?_ fun g valid plain _ => same g valid plain,
    tracked.allocate ext (c:=ownChunk base n) (List.mem_cons_self ..) (fun d there => ?_) rfl ?_,
    backed.addBlock order front ?_ fun normal => ?_⟩
  · intro k present new
    rcases List.mem_cons.mp (order.mem_iff.mp present) with rfl | there
    · exact words
    · exact absurd there new
  · intro c present new
    rcases List.mem_cons.mp present with rfl | there
    · exact ownMask
    · exact absurd there new
  · exact clear.chunk_new placed (by simp only [allocBlockSize]; omega) there
  · simp only [ownChunk,allocBlockSize,allocChunkSize]
    omega
  · have length : base+n-base = n := by omega
    simp only [ownBlock,length]
    exact clear.given
  · simp [ownBlock] at normal

end backing

end TinyLlama.Asctx
