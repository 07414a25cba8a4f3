import TinyLlama.Asctx.Realloc

namespace TinyLlama.Asctx
open Memory Linked

section create
variable {mem : Mem} {f : Fresh} {blockSize set size : Nat}

def firstBlock (set size : Nat) : Block := ⟨keeperAllocBlock set,set+size,keeperAllocBlock set+allocBlockSize,false⟩
def firstShape (set size : Nat) : Shape := ⟨[firstBlock set size],[],[],fun _ => []⟩

theorem Placed.first (positive : 0 < set) (top : set+size < 2^64) (room : allocSetCxtSize+allocBlockSize ≤ size) :
    Placed set (firstShape set size) := by
  simp only [allocSetCxtSize,allocBlockSize] at room
  refine ⟨positive,by simp only [allocSetCxtSize]; omega,List.pairwise_singleton _ _,?_,?_,by simp [firstShape],.nil⟩
  · intro b listed
    obtain rfl := List.mem_singleton.mp listed
    exact .inr (Nat.le_refl _)
  · intro b listed
    obtain rfl := List.mem_singleton.mp listed
    simp only [firstBlock,keeperAllocBlock,allocSetCxtSize,allocBlockSize]
    omega

def clearLists (m : Mem) (set : Nat) (is : List Nat) : Mem := is.foldl (fun m i => put m (freeList set i) 0) m

theorem clearLists_get {s : Shape} (placed : Placed set s) (is : List Nat) : ∀ m, (∀ i ∈ is, i < allocFreelistsNum) →
    ∀ g, s.Valid set g → get (clearLists m set is) g = if ∃ i ∈ is, freeList set i = g then 0 else get m g := by
  induction is with
  | nil => intro m _ g _; simp [clearLists]
  | cons i rest ih =>
    intro m small g valid
    have first := small i (List.mem_cons_self ..)
    have step := ih (put m (freeList set i) 0) (fun j present => small j (List.mem_cons_of_mem _ present)) g valid
    rw [placed.get_put (valid_freeList first) valid (Nat.pow_pos (by decide))] at step
    refine step.trans ?_
    by_cases here : freeList set i = g
    · simp [here]
    · simp [here]

-- The headers that creation writes, before it clears the free lists.
def firstHeaders (m : Mem) (set size grow : Nat) : Mem :=
  let block := keeperAllocBlock set
  let m := put m (blockSet block) set
  let m := put m (pres block) 0
  let m := put m (next block) 0
  let m := put m (freeptr block) (block+allocBlockSize)
  let m := put m (endptr block) (set+size)
  let m := put m (blocks set) block
  put m (nextBlockSize set) grow

theorem firstHeaders_get (placed : Placed set (firstShape set size)) (small : k < 2^32) (m : Mem) {g : Field}
    (valid : (firstShape set size).Valid set g) : get (firstHeaders m set size k) g =
      if nextBlockSize set = g then k
      else if blocks set = g then keeperAllocBlock set
      else if endptr (keeperAllocBlock set) = g then set+size
      else if freeptr (keeperAllocBlock set) = g then keeperAllocBlock set+allocBlockSize
      else if next (keeperAllocBlock set) = g then 0
      else if pres (keeperAllocBlock set) = g then 0
      else if blockSet (keeperAllocBlock set) = g then set else get m g := by
  have listed : firstBlock set size ∈ (firstShape set size).blocks := List.mem_singleton_self _
  obtain ⟨_,_,high,top⟩ := placed.fits _ listed
  simp only [firstBlock] at high top
  have inSet := placed.setInside
  have own : ∃ b ∈ (firstShape set size).blocks, b.base = keeperAllocBlock set := ⟨_,listed,rfl⟩
  have narrow : k < 256^(nextBlockSize set).width := small
  have word : ∀ v < 2^64, ∀ o, v < 256^(Field.mk (.block (keeperAllocBlock set)) o).width := fun v fits _ => fits
  have word' : keeperAllocBlock set < 256^(blocks set).width := show keeperAllocBlock set < 2^64 by omega
  have inSet' : (firstShape set size).Valid set (blocks set) := by simp
  have inSet'' : (firstShape set size).Valid set (nextBlockSize set) := by simp
  simp only [firstHeaders]
  generalize keeperAllocBlock set = base at own high word word' ⊢
  have block : ∀ o, o%8 = 0 ∧ o+8 ≤ 40 → (firstShape set size).Valid set ⟨.block base,o⟩ := fun o inside => ⟨own,inside⟩
  rw [placed.get_put inSet'' valid narrow,placed.get_put inSet' valid word',
    placed.get_put (block 32 (by decide)) valid (word _ top 32),
    placed.get_put (block 24 (by decide)) valid (word _ (by omega) 24),
    placed.get_put (block 16 (by decide)) valid (word 0 (by decide) 16),
    placed.get_put (block 8 (by decide)) valid (word 0 (by decide) 8),
    placed.get_put (block 0 (by decide)) valid (word _ (by omega) 0)]

theorem Held.first (placed : Placed set (firstShape set size)) (small : k ≤ 2^30) (m : Mem) :
    Held set (clearLists (firstHeaders m set size k) set (List.range allocFreelistsNum)) (firstShape set size) := by
  have listed : firstBlock set size ∈ (firstShape set size).blocks := List.mem_singleton_self _
  have own : ∃ b ∈ (firstShape set size).blocks, b.base = keeperAllocBlock set := ⟨_,listed,rfl⟩
  have positive := (placed.fits _ listed).1
  simp only [firstBlock] at positive
  have cleared := clearLists_get placed (List.range allocFreelistsNum) (firstHeaders m set size k)
    fun i present => List.mem_range.mp present
  -- A field that is no free list holds what was written before.
  have kept : ∀ g, (firstShape set size).Valid set g → (∀ i < allocFreelistsNum, freeList set i ≠ g) →
      get (clearLists (firstHeaders m set size k) set (List.range allocFreelistsNum)) g = get (firstHeaders m set size k) g := by
    intro g valid other
    rw [cleared g valid,if_neg]
    rintro ⟨i,present,same⟩
    exact other i (List.mem_range.mp present) same
  have field : ∀ g, (firstShape set size).Valid set g → _ := fun g valid => firstHeaders_get placed (k:=k) (by omega) m valid
  have block : ∀ i < allocFreelistsNum, ∀ o, freeList set i ≠ ⟨.block (keeperAllocBlock set),o⟩ := by simp
  generalize clearLists (firstHeaders m set size k) set (List.range allocFreelistsNum) = m' at cleared kept
  generalize firstHeaders m set size k = m₁ at cleared kept field
  refine ⟨?_,?_,?_,by simp [firstShape],?_,?_⟩
  · rw [kept _ (by simp) (by simp),field _ (by simp)]
    simp [Shape.bases,firstShape,firstBlock]
  · have before : get m' (pres (keeperAllocBlock set)) = 0 := by
      rw [kept _ (by simpa using own) (by simp),field _ (by simpa using own)]
      simp
    have after : get m' (next (keeperAllocBlock set)) = 0 := by
      rw [kept _ (by simpa using own) (by simp),field _ (by simpa using own)]
      simp
    exact List.isChain_cons_cons.mpr ⟨⟨fun some' => absurd rfl some',fun _ => before⟩,
      List.isChain_cons_cons.mpr ⟨⟨fun _ => after,fun some' => absurd rfl some'⟩,.singleton _⟩⟩
  · intro b present
    obtain rfl := List.mem_singleton.mp present
    rw [firstBlock]
    rw [kept _ (by simpa using own) (by simp),kept _ (by simpa using own) (by simp),kept _ (by simpa using own) (by simp),
      field _ (by simpa using own),field _ (by simpa using own),field _ (by simpa using own)]
    simp
  · intro i small'
    change get m' (freeList set i) = 0
    rw [cleared _ (valid_freeList small'),if_pos ⟨i,List.mem_range.mpr small',rfl⟩]
  · have other : ∀ i < allocFreelistsNum, freeList set i ≠ nextBlockSize set := by
      intro i small' same
      simp only [allocFreelistsNum,Field.mk.injEq,true_and] at small' same
      omega
    rw [kept _ (by simp) other,field _ (by simp),if_pos rfl]
    exact small

theorem create_spec (room : allocBlockSize ≤ blockSize) (small : blockSize ≤ 2^29) :
    Ends (fun r => ∃ s, Inv r.1 r.2 s ∧ s.live = []) (allocSetMemoryContextCreate ⟨mem,[]⟩ blockSize f) := by
  have sum : u64 (allocSetCxtSize+blockSize) = allocSetCxtSize+blockSize :=
    u64_of_lt (by simp only [allocSetCxtSize]; omega)
  obtain ⟨lower,upper⟩ := maxalign_bounds (n:=allocSetCxtSize+blockSize) (by simp only [allocSetCxtSize]; omega)
  obtain ⟨_,upper'⟩ := maxalign_bounds (n:=blockSize) (by omega)
  have grow : u32 (maxalign blockSize) ≤ 2^30 := by
    rw [u32_of_lt (by omega)]
    omega
  have grow' : u32 (maxalign blockSize) < 256^4 := u32_lt _
  unfold allocSetMemoryContextCreate
  simp only [sum]
  generalize u32 (maxalign blockSize) = first at grow grow'
  generalize maxalign (allocSetCxtSize+blockSize) = size at lower upper
  unfold malloc
  split
  · rename_i fits
    obtain ⟨positive,top,_⟩ := fits
    have roomy : allocSetCxtSize+allocBlockSize ≤ size := by omega
    have placed := Placed.first positive top roomy
    simp only [allocSetCxtSize,allocBlockSize] at lower upper roomy
    have listed : firstBlock f.base size ∈ (firstShape f.base size).blocks := List.mem_singleton_self _
    have extent : (firstBlock f.base size).stop-f.base = size := by simp only [firstBlock]; omega
    refine Ends.ok ⟨firstShape f.base size,⟨placed,Held.first placed grow _,?_,?_⟩,rfl⟩
    · exact ⟨by simp [firstShape],by simp [firstShape],List.nodup_nil,fun _ => List.nodup_nil,by simp [firstShape]⟩
    · refine ⟨⟨_,listed,rfl,rfl,by rw [extent]; exact List.mem_singleton_self _⟩,⟨_,[],rfl,rfl⟩,?_,by simp,?_,?_⟩
      · intro b present other
        obtain rfl := List.mem_singleton.mp present
        exact absurd rfl other
      · intro r present
        obtain rfl := List.mem_singleton.mp present
        exact Nat.lt_of_lt_of_le (by decide) roomy
      · intro b present _
        obtain rfl := List.mem_singleton.mp present
        simp only [firstBlock,keeperAllocBlock,allocSetCxtSize]
        omega
  · exact rfl

end create

def homeBlock (m : Mem) (chunk : Nat) : Nat := if chunkIsExternal m chunk then externalGetBlock chunk else chunkGetBlock m chunk
def capacity (m : Mem) (chunk : Nat) : Nat :=
  if chunkIsExternal m chunk then get m (endptr (externalGetBlock chunk))-chunkGetPointer chunk else getValue (get m (mask chunk))

-- The header decodes to a block of the list that the chunk lies in, and to the
-- external flag or a size class; an external chunk's block is not the first.
structure Decodes (m : Mem) (bases : List Nat) (chunk : Nat) : Prop where
  home : homeBlock m chunk ∈ bases
  low : homeBlock m chunk+allocBlockSize ≤ chunk
  high : chunkGetPointer chunk+capacity m chunk ≤ get m (endptr (homeBlock m chunk))
  sized : chunkIsExternal m chunk = false → allocSetFreeIndex (capacity m chunk) < allocFreelistsNum ∧
    sizeFromFreeListIdx (allocSetFreeIndex (capacity m chunk)) = capacity m chunk
  external : chunkIsExternal m chunk = true → homeBlock m chunk ≠ bases.headD 0

def ChunksApart (m : Mem) (c d : Nat) : Prop := Apart c (allocChunkSize+capacity m c) d (allocChunkSize+capacity m d)

-- `bases` are the blocks from the set's head on, `free i` the chunks of free list i.
structure Sound (set : Nat) (m : Mem) (live : List (Nat × Nat)) (bases : List Nat) (free : Nat → List Nat) : Prop where
  head : get m (blocks set) = bases.headD 0
  row : BlockRow m bases
  keeper : keeperAllocBlock set ∈ bases
  lists : ∀ i < allocFreelistsNum, FreeChain m (get m (freeList set i)) (free i)
  freeChunks : ∀ i < allocFreelistsNum, ∀ a ∈ free i, Decodes m bases a ∧ chunkIsExternal m a = false ∧ allocSetFreeIndex (capacity m a) = i
  liveChunks : ∀ l ∈ live, Decodes m bases (pointerGetChunk l.1) ∧ l.2 ≤ capacity m (pointerGetChunk l.1)
  liveOnce : (live.map Prod.fst).Nodup
  apart : ∀ l ∈ live, ∀ k ∈ live, l.1 ≠ k.1 → ChunksApart m (pointerGetChunk l.1) (pointerGetChunk k.1)
  freeApart : ∀ l ∈ live, ∀ i < allocFreelistsNum, ∀ a ∈ free i, ChunksApart m (pointerGetChunk l.1) a
  setApart : ∀ l ∈ live, Apart (pointerGetChunk l.1) (allocChunkSize+capacity m (pointerGetChunk l.1)) set allocSetCxtSize
  blocksApart : ∀ l ∈ live, ∀ b ∈ bases, Apart (pointerGetChunk l.1) (allocChunkSize+capacity m (pointerGetChunk l.1)) b allocBlockSize

section sound
variable {set : Nat} {s : Shape} {h : Heap}

-- Where a chunk ends: an external one takes all of its block.
def reach (b : Block) (c : Chunk) : Nat := if c.ext then b.stop else c.stop

theorem reach_bounds (placed : Placed set s) (own : b ∈ s.blocks) (inside : c.Inside b) :
    b.base+allocBlockSize ≤ c.addr ∧ c.stop ≤ reach b c ∧ reach b c ≤ b.stop := by
  have fits := placed.fits b own
  have low := inside.low
  have high := inside.high
  unfold reach
  split <;> omega

theorem reach_apart (inv : Inv set h s) (first : c ∈ s.chunks) (second : d ∈ s.chunks) (other : c.addr ≠ d.addr)
    (own : b ∈ s.blocks) (inside : c.Inside b) (own' : k ∈ s.blocks) (inside' : d.Inside k) :
    reach b c ≤ d.addr ∨ reach k d ≤ c.addr := by
  have placed := inv.placed
  have bounds := reach_bounds placed own inside
  have bounds' := reach_bounds placed own' inside'
  by_cases same : b.base = k.base
  · obtain rfl := placed.block_unique own own' same
    have normal : c.ext = false := by
      by_contra external
      obtain ⟨_,_,_,_,_,only,_⟩ := external_place inv first own inside (by simpa using external)
      exact other (by rw [only d second inside'])
    have normal' : d.ext = false := by rw [← inside'.ext,inside.ext]; exact normal
    simp only [reach,normal,normal',Bool.false_eq_true,if_false]
    exact placed.chunk_apart first second other
  · have := placed.block_apart own own' same
    simp only [allocBlockSize] at *
    omega

theorem chunk_decodes (inv : Inv set h s) (there : c ∈ s.chunks) (own : b ∈ s.blocks) (inside : c.Inside b) :
    chunkIsExternal h.mem c.addr = c.ext ∧ homeBlock h.mem c.addr = b.base ∧
      chunkGetPointer c.addr+capacity h.mem c.addr = reach b c ∧ Decodes h.mem s.bases c.addr := by
  have header := inv.held.masks c there
  obtain ⟨_,_,stop⟩ := inv.held.fields b own
  have bounds := reach_bounds inv.placed own inside
  have listed : b.base ∈ s.bases := List.mem_map.mpr ⟨b,own,rfl⟩
  have near : chunkGetPointer c.addr ≤ c.stop := Nat.le_add_right _ _
  cases external : c.ext with
  | true =>
    obtain ⟨front,back,split,behind,at',_,_⟩ := external_place inv there own inside external
    have flag : chunkIsExternal h.mem c.addr = true := by
      simp only [chunkIsExternal,header,Chunk.mask,external,if_true]
      exact externalMask_external.1
    have block : externalGetBlock c.addr = b.base := by rw [at',externalGetBlock,Nat.add_sub_cancel]
    have home : homeBlock h.mem c.addr = b.base := by simp only [homeBlock,flag,if_true,block]
    have whole : reach b c = b.stop := by simp only [reach,external,if_true]
    have room : capacity h.mem c.addr = b.stop-chunkGetPointer c.addr := by simp only [capacity,flag,if_true,block,stop]
    have full : chunkGetPointer c.addr+capacity h.mem c.addr = reach b c := by omega
    refine ⟨flag,home,full,by rw [home]; exact listed,by rw [home]; omega,by rw [home,stop,full]; omega,?_,fun _ => ?_⟩
    · rw [flag]
      exact fun normal => absurd normal (by decide)
    · cases front with
      | nil => exact absurd rfl behind
      | cons k front =>
        have first : k ∈ s.blocks := by rw [split]; exact List.mem_cons_self ..
        have off := (inv.placed.blocks)
        rw [split,List.cons_append,List.pairwise_cons] at off
        have apart := off.1 b (List.mem_append_right _ (List.mem_cons_self ..))
        have fits := inv.placed.fits k first
        have fits' := inv.placed.fits b own
        rw [home,Shape.bases,split]
        simp only [Block.Off,allocBlockSize] at *
        change b.base ≠ k.base
        omega
  | false =>
    obtain ⟨i,small,cap,plain,offset,value⟩ := mask_normal inside external
    have flag : chunkIsExternal h.mem c.addr = false := by simp only [chunkIsExternal,header,plain]
    have home : homeBlock h.mem c.addr = b.base := by
      simp only [homeBlock,flag,Bool.false_eq_true,if_false,chunkGetBlock,header,offset]
    have room : capacity h.mem c.addr = c.cap := by simp only [capacity,flag,Bool.false_eq_true,if_false,header,value]
    have whole : reach b c = c.stop := by simp only [reach,external,Bool.false_eq_true,if_false]
    have full : chunkGetPointer c.addr+capacity h.mem c.addr = reach b c := by rw [room,whole]; rfl
    refine ⟨flag,home,full,by rw [home]; exact listed,by rw [home]; omega,by rw [home,stop,full]; omega,fun _ => ?_,?_⟩
    · rw [room,cap,allocSetFreeIndex_class small]
      exact ⟨small,rfl⟩
    · rw [flag]
      exact fun wrong => absurd wrong (by decide)

theorem Inv.sound (inv : Inv set h s) : Sound set h.mem s.live s.bases s.free := by
  have placed := inv.placed
  -- The chunk of a live pointer, and of a free list's entry.
  have ofLive : ∀ l ∈ s.live, ∃ c ∈ s.chunks, pointerGetChunk l.1 = c.addr ∧ l.1 = chunkGetPointer c.addr ∧ l.2 ≤ c.cap := by
    intro l listed
    obtain ⟨c,there,pointer,room⟩ := inv.tracked.live l listed
    exact ⟨c,there,by rw [pointer,pointerGetChunk,chunkGetPointer,Nat.add_sub_cancel],pointer,room⟩
  have apart : ∀ c ∈ s.chunks, ∀ d ∈ s.chunks, c.addr ≠ d.addr → ChunksApart h.mem c.addr d.addr := by
    intro c there d there' other
    obtain ⟨b,own,inside⟩ := placed.inside c there
    obtain ⟨k,own',inside'⟩ := placed.inside d there'
    have off := reach_apart inv there there' other own inside own' inside'
    have whole := (chunk_decodes inv there own inside).2.2.1
    have whole' := (chunk_decodes inv there' own' inside').2.2.1
    simp only [ChunksApart,Apart,chunkGetPointer] at *
    omega
  refine ⟨?_,inv.held.row,?_,inv.held.lists,?_,?_,inv.tracked.liveOnce,?_,?_,?_,?_⟩
  · exact inv.held.head
  · obtain ⟨k,there,base,_⟩ := inv.backed.keeper
    exact List.mem_map.mpr ⟨k,there,base⟩
  · intro i small a present
    obtain ⟨_,c,there,rfl,normal,cap⟩ := inv.tracked.free i a present
    obtain ⟨b,own,inside⟩ := placed.inside c there
    obtain ⟨flag,_,whole,decodes⟩ := chunk_decodes inv there own inside
    refine ⟨decodes,by rw [flag]; exact normal,?_⟩
    have room : capacity h.mem c.addr = sizeFromFreeListIdx i := by
      simp only [reach,normal,Bool.false_eq_true,if_false,Chunk.stop,chunkGetPointer] at whole
      omega
    rw [room]
    exact allocSetFreeIndex_class small
  · intro l listed
    obtain ⟨c,there,chunk,_,room⟩ := ofLive l listed
    obtain ⟨b,own,inside⟩ := placed.inside c there
    obtain ⟨_,_,whole,decodes⟩ := chunk_decodes inv there own inside
    have bounds := reach_bounds placed own inside
    rw [chunk]
    refine ⟨decodes,?_⟩
    simp only [Chunk.stop,chunkGetPointer] at *
    omega
  · intro l listed k listed' other
    obtain ⟨c,there,chunk,pointer,_⟩ := ofLive l listed
    obtain ⟨d,there',chunk',pointer',_⟩ := ofLive k listed'
    rw [chunk,chunk']
    exact apart c there d there' fun same => other (by rw [pointer,pointer',same])
  · intro l listed i small a present
    obtain ⟨c,there,chunk,pointer,_⟩ := ofLive l listed
    obtain ⟨_,d,there',rfl,_⟩ := inv.tracked.free i a present
    rw [chunk]
    exact apart c there d there' fun same => inv.tracked.apart i d.addr present l listed (by rw [pointer,same])
  · intro l listed
    obtain ⟨c,there,chunk,_,_⟩ := ofLive l listed
    obtain ⟨b,own,inside⟩ := placed.inside c there
    have whole := (chunk_decodes inv there own inside).2.2.1
    have bounds := reach_bounds placed own inside
    have clear := placed.clear b own
    rw [chunk]
    simp only [Apart,chunkGetPointer] at *
    omega
  · intro l listed a present
    obtain ⟨c,there,chunk,_,_⟩ := ofLive l listed
    obtain ⟨b,own,inside⟩ := placed.inside c there
    obtain ⟨k,own',rfl⟩ := List.mem_map.mp present
    have whole := (chunk_decodes inv there own inside).2.2.1
    have bounds := reach_bounds placed own inside
    have fits := placed.fits k own'
    rw [chunk]
    by_cases same : b.base = k.base
    · obtain rfl := placed.block_unique own own' same
      simp only [Apart,chunkGetPointer] at *
      omega
    · have off := placed.block_apart own own' same
      simp only [Apart,chunkGetPointer] at *
      omega

end sound

structure State where
  heap : Heap
  live : List (Nat × Nat)

inductive Call where
  | alloc (size : Nat) (f : Fresh)
  | realloc (ptr size : Nat) (f : Fresh)
  | free (ptr : Nat)
  | write (a : Nat) (v : UInt8)

def exec (set : Nat) (σ : State) : Call → Except Stop State
  | .alloc size f => do
    let (p,h) ← allocSetAlloc σ.heap set size f
    return ⟨h,(p,size) :: σ.live⟩
  | .realloc ptr size f => do
    let (p,h) ← allocSetRealloc σ.heap ptr size f
    return ⟨h,(p,size) :: dropped σ.live ptr⟩
  | .free ptr => do
    let h ← allocSetFree σ.heap ptr
    return ⟨h,dropped σ.live ptr⟩
  | .write a v => .ok ⟨{σ.heap with mem:=fun x => if x = a then v else σ.heap.mem x},σ.live⟩

-- The rounded total of a request does not wrap.
def Fitting (size : Nat) : Prop := size+allocBlockSize+allocChunkSize+7 < 2^64

-- Calls are on live pointers; a write goes to a live pointer's bytes, or to memory
-- that malloc gave to someone else.
def Permitted (σ : State) : Call → Prop
  | .alloc size _ => Fitting size
  | .realloc ptr size _ => (∃ l ∈ σ.live, l.1 = ptr) ∧ Fitting size
  | .free ptr => ∃ l ∈ σ.live, l.1 = ptr
  | .write a _ => (∃ l ∈ σ.live, l.1 ≤ a ∧ a < l.1+l.2) ∨ ∀ r ∈ σ.heap.regions, a < r.1 ∨ r.1+r.2 ≤ a

-- What a call leaves of the live bytes.
def Preserves (σ σ' : State) : Call → Prop
  | .alloc _ _ => ∀ l ∈ σ.live, ∀ i < l.2, σ'.heap.mem (l.1+i) = σ.heap.mem (l.1+i)
  | .realloc ptr size _ => ∃ p, σ'.live = (p,size) :: dropped σ.live ptr ∧
      (∀ l ∈ σ.live, l.1 = ptr → ∀ i < min l.2 size, σ'.heap.mem (p+i) = σ.heap.mem (l.1+i)) ∧
      ∀ l ∈ σ.live, l.1 ≠ ptr → ∀ i < l.2, σ'.heap.mem (l.1+i) = σ.heap.mem (l.1+i)
  | .free ptr => ∀ l ∈ σ.live, l.1 ≠ ptr → ∀ i < l.2, σ'.heap.mem (l.1+i) = σ.heap.mem (l.1+i)
  | .write a v => ∀ x, σ'.heap.mem x = if x = a then v else σ.heap.mem x

-- The runs of a set that was created with room for a block header; mm.c asks for 8 KiB.
inductive Reachable (blockSize : Nat) : Nat → State → Prop
  | create {set : Nat} : allocSetMemoryContextCreate ⟨mem,[]⟩ blockSize f = .ok (set,h) → Reachable blockSize set ⟨h,[]⟩
  | call {set : Nat} : Reachable blockSize set σ → Permitted σ c → exec set σ c = .ok σ' → Reachable blockSize set σ'

section run
variable {set : Nat} {s : Shape} {σ : State}

def Kept (set : Nat) (σ : State) (c : Call) (σ' : State) : Prop :=
  (∃ s, Inv set σ'.heap s ∧ s.live = σ'.live) ∧ Preserves σ σ' c

theorem same_listed {live : List (Nat × Nat)} (once : (live.map Prod.fst).Nodup) {l k : Nat × Nat} (first : l ∈ live) (second : k ∈ live)
    (same : l.1 = k.1) : l = k := List.inj_on_of_nodup_map once first second same

theorem write_spec (inv : Inv set σ.heap s) (live : s.live = σ.live) (permitted : Permitted σ (.write a v)) :
    Inv set {σ.heap with mem:=fun x => if x = a then v else σ.heap.mem x} s := by
  refine inv.frame fun g header x low high => if_neg ?_
  rintro rfl
  rcases permitted with ⟨l,listed,inside⟩ | outside
  · obtain ⟨c,there,pointer,room⟩ := inv.tracked.live l (by rw [live]; exact listed)
    have off := inv.placed.payload_apart header there
    simp only [Apart,chunkGetPointer] at *
    omega
  · rcases inv.placed.header_in header with inSet | ⟨b,own,inBlock⟩
    · obtain ⟨r,given,_,_⟩ := inv.backed.set_region inv.placed
      have := outside r given
      omega
    · obtain ⟨r,given,_,_⟩ := inv.backed.block_region inv.placed own
      have := outside r given
      omega

theorem exec_spec (inv : Inv set σ.heap s) (live : s.live = σ.live) (c : Call) (permitted : Permitted σ c) :
    Ends (Kept set σ c) (exec set σ c) := by
  -- The bytes of a live pointer are kept where its chunk's are.
  have payload : ∀ l ∈ σ.live, ∃ c ∈ s.chunks, ∀ i < l.2, chunkGetPointer c.addr ≤ l.1+i ∧ l.1+i < c.stop := by
    intro l listed
    obtain ⟨c,there,pointer,room⟩ := inv.tracked.live l (by rw [live]; exact listed)
    exact ⟨c,there,fun i below => live_bytes pointer room below⟩
  cases c with
  | alloc size f =>
    refine (allocSetAlloc_spec inv permitted).bind ?_
    rintro ⟨p,h⟩ ⟨s',allocated⟩
    refine Ends.ok ⟨⟨s',allocated.inv,by rw [allocated.live,live]⟩,fun l listed i below => ?_⟩
    obtain ⟨c,there,inside⟩ := payload l listed
    exact allocated.bytes c there _ (inside i below).1 (inside i below).2
  | realloc ptr size f =>
    obtain ⟨⟨l,listed,rfl⟩,fits⟩ := permitted
    refine (allocSetRealloc_spec inv (by rw [live]; exact listed) fits).bind ?_
    rintro ⟨p,h⟩ ⟨s',resized⟩
    refine Ends.ok ⟨⟨s',resized.inv,by rw [resized.live,live]⟩,p,rfl,fun k listed' same i below => ?_,fun k listed' other => ?_⟩
    · obtain rfl := same_listed (by rw [← live]; exact inv.tracked.liveOnce) listed' listed same
      exact resized.copied i below
    · exact resized.others k (by rw [live]; exact listed') other
  | free ptr =>
    obtain ⟨l,listed,rfl⟩ := permitted
    refine (allocSetFree_spec inv (by rw [live]; exact listed)).bind ?_
    rintro h ⟨s',freed⟩
    refine Ends.ok ⟨⟨s',freed.inv,by rw [freed.live,live]⟩,fun k listed' _ i below => ?_⟩
    obtain ⟨c,there,inside⟩ := payload k listed'
    exact freed.bytes c there _ (inside i below).1 (inside i below).2
  | write a v => exact Ends.ok ⟨⟨s,write_spec inv live permitted,live⟩,fun x => rfl⟩

theorem Reachable.inv (room : allocBlockSize ≤ blockSize) (small : blockSize ≤ 2^29) (reachable : Reachable blockSize set σ) :
    ∃ s, Inv set σ.heap s ∧ s.live = σ.live := by
  induction reachable with
  | create created => exact (create_spec room small).done created
  | call _ permitted run ih =>
    obtain ⟨s,inv,live⟩ := ih
    exact ((exec_spec inv live _ permitted).done run).1

theorem allocator_sound (room : allocBlockSize ≤ blockSize) (small : blockSize ≤ 2^29) (reachable : Reachable blockSize set σ) :
    (∃ bases free, Sound set σ.heap.mem σ.live bases free) ∧
      ∀ c, Permitted σ c → Ends (fun σ' => Preserves σ σ' c) (exec set σ c) := by
  obtain ⟨s,inv,live⟩ := reachable.inv room small
  refine ⟨⟨s.bases,s.free,by rw [← live]; exact inv.sound⟩,fun c permitted => ?_⟩
  exact (exec_spec inv live c permitted).imp fun _ kept => kept.2

instance (c : Call) : Decidable (Permitted σ c) := by
  cases c <;> unfold Permitted Fitting <;> infer_instance

def calls (set : Nat) (σ : State) : List Call → Option State
  | [] => some σ
  | c :: rest => if Permitted σ c then (exec set σ c).toOption.bind fun σ' => calls set σ' rest else none

theorem Reachable.calls (cs : List Call) : ∀ σ, Reachable blockSize set σ → Asctx.calls set σ cs = some σ' → Reachable blockSize set σ' := by
  induction cs with
  | nil =>
    intro σ reachable run
    obtain rfl := Option.some.inj run
    exact reachable
  | cons c rest ih =>
    intro σ reachable run
    rw [Asctx.calls] at run
    split at run
    · rename_i permitted
      cases ran : exec set σ c with
      | error e => rw [ran] at run; cases run
      | ok σ₁ =>
        rw [ran] at run
        exact ih σ₁ (reachable.call permitted ran) run
    · cases run

def someCalls : List Call :=
  [.alloc 100 ⟨20000,fun _ => 3⟩,.alloc 9000 ⟨20000,fun _ => 3⟩,.write 1200 5,.realloc 20056 10000 ⟨60000,fun _ => 3⟩,
    .realloc 1160 10000 ⟨80000,fun _ => 3⟩,.free 60056]

theorem allocator_sound_calls : ∃ σ, σ.live = [(80056,10000)] ∧ (∃ bases free, Sound 1000 σ.heap.mem σ.live bases free) ∧
    ∀ c, Permitted σ c → Ends (fun σ' => Preserves σ σ' c) (exec 1000 σ c) := by
  have ran : (allocSetMemoryContextCreate ⟨fun _ => 7,[]⟩ 8192 ⟨1000,fun _ => 3⟩).toOption.any (fun r =>
      r.1 = 1000 ∧ (calls 1000 ⟨r.2,[]⟩ someCalls).map State.live = some [(80056,10000)]) = true := by decide +kernel
  cases created : allocSetMemoryContextCreate ⟨fun _ => 7,[]⟩ 8192 ⟨1000,fun _ => 3⟩ with
  | error e => rw [created] at ran; cases ran
  | ok r =>
    obtain ⟨set,h⟩ := r
    rw [created] at ran
    obtain ⟨rfl,done⟩ : set = 1000 ∧ (calls 1000 ⟨h,[]⟩ someCalls).map State.live = some [(80056,10000)] :=
      of_decide_eq_true ran
    obtain ⟨σ,run,live⟩ := Option.map_eq_some_iff.mp done
    exact ⟨σ,live,allocator_sound (by decide) (by decide) ((Reachable.create created).calls someCalls _ run)⟩

end run

end TinyLlama.Asctx
