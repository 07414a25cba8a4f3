import TinyLlama.Asctx.Extend

namespace TinyLlama.Asctx
open Memory Linked

-- What every allocation promises: the pointer, the invariant, and nothing lost.
structure Allocated (set : Nat) (h : Heap) (s : Shape) (size p : Nat) (h' : Heap) (s' : Shape) : Prop where
  inv : Inv set h' s'
  live : s'.live = (p,size) :: s.live
  chunks : ∀ c ∈ s.chunks, c ∈ s'.chunks
  bytes : ∀ c ∈ s.chunks, ∀ x, chunkGetPointer c.addr ≤ x → x < c.stop → h'.mem x = h.mem x

section carve
variable {set : Nat} {s : Shape} {h : Heap} {b : Block} {rest : List Block}

def cut (b : Block) (i : Nat) : Chunk := ⟨b.free,sizeFromFreeListIdx i,b.base,false⟩

def Shape.carve (s : Shape) (b : Block) (rest : List Block) (i size : Nat) : Shape :=
  {s with
    blocks:={b with free:=(cut b i).stop} :: rest
    chunks:=cut b i :: s.chunks
    live:=(chunkGetPointer b.free,size) :: s.live}

theorem Placed.free_unused (placed : Placed set s) (listed : b ∈ s.blocks) (room : b.free < b.stop) (there : c ∈ s.chunks) :
    c.addr ≠ b.free := by
  have := placed.fits b listed
  have := placed.chunk_block there listed
  simp only [Chunk.stop,allocBlockSize,allocChunkSize] at *
  omega

theorem Placed.carve (placed : Placed set s) (head : s.blocks = b :: rest) (normal : b.ext = false)
    (small : i < allocFreelistsNum) (room : (cut b i).stop ≤ b.stop) (near : b.stop ≤ b.base+2^30) (size : Nat) :
    Placed set (s.carve b rest i size) := by
  have listed : b ∈ s.blocks := by rw [head]; exact List.mem_cons_self ..
  have own := placed.fits b listed
  have room' := room
  simp only [cut,Chunk.stop,allocChunkSize] at room'
  refine ⟨placed.setPositive,placed.setInside,?_,?_,?_,?_,?_⟩
  · have all := placed.blocks
    rw [head] at all
    obtain ⟨first,later⟩ := List.pairwise_cons.mp all
    exact List.pairwise_cons.mpr ⟨first,later⟩
  · intro k present
    rcases List.mem_cons.mp present with rfl | later
    · exact placed.clear b listed
    · exact placed.clear k (by rw [head]; exact List.mem_cons_of_mem _ later)
  · intro k present
    rcases List.mem_cons.mp present with rfl | later
    · simp only [cut,Chunk.stop,allocChunkSize]
      omega
    · exact placed.fits k (by rw [head]; exact List.mem_cons_of_mem _ later)
  · intro c present
    rcases List.mem_cons.mp present with rfl | later
    · refine ⟨_,List.mem_cons_self ..,rfl,normal,own.2.1,Nat.le_refl _,?_,fun _ => ⟨⟨i,small,rfl⟩,?_⟩⟩
      · simp [normal]
      · simp only [cut]
        omega
    · obtain ⟨k,there,inside⟩ := placed.inside c later
      rw [head] at there
      rcases List.mem_cons.mp there with rfl | later'
      · refine ⟨_,List.mem_cons_self ..,inside.base,inside.ext,inside.low,?_,inside.only,inside.near⟩
        have high := inside.high
        simp only [cut,Chunk.stop,allocChunkSize] at *
        omega
      · exact ⟨k,List.mem_cons_of_mem _ later',inside⟩
  · refine List.pairwise_cons.mpr ⟨fun c there => ?_,placed.chunks⟩
    have apart := placed.chunk_block there listed
    simp only [Chunk.Off,cut,Chunk.stop,allocChunkSize,allocBlockSize] at *
    omega

theorem carve_spec (inv : Inv set h s) (head : s.blocks = b :: rest) (normal : b.ext = false)
    (small : i < allocFreelistsNum) (room : (cut b i).stop ≤ b.stop) (asked : size ≤ sizeFromFreeListIdx i) :
    ∃ m, allocChunkFromBlock h.mem b.base (sizeFromFreeListIdx i) = (chunkGetPointer b.free,m) ∧
      Allocated set h s size (chunkGetPointer b.free) {h with mem:=m} (s.carve b rest i size) := by
  obtain ⟨placed,held,tracked,backed⟩ := inv
  have listed : b ∈ s.blocks := by rw [head]; exact List.mem_cons_self ..
  have near := backed.small b listed normal
  have placed' := placed.carve head normal small room near size
  obtain ⟨positive,low,_,top⟩ := placed.fits b listed
  obtain ⟨set',free',stop'⟩ := held.fields b listed
  have limit : sizeFromFreeListIdx i ≤ 8192 := (sizeFromFreeListIdx_small small).2
  have room' := room
  simp only [cut,Chunk.stop,allocChunkSize] at room'
  simp only [allocBlockSize] at low
  have unused : ∀ c ∈ s.chunks, c.addr ≠ b.free := fun c there => placed.free_unused listed (by omega) there
  have decodes := chunkMask_decodes (c:=b.free) (b:=b.base) (k:=sizeFromFreeListIdx i) (by omega) (by omega) (by omega)
  -- The three words written, all in headers of the new shape.
  have ownBlock : ∃ k ∈ (s.carve b rest i size).blocks, k.base = b.base := ⟨_,List.mem_cons_self ..,rfl⟩
  have ownChunk : ∃ c ∈ (s.carve b rest i size).chunks, c.addr = b.free := ⟨_,List.mem_cons_self ..,rfl⟩
  have value : u64 (b.free+(sizeFromFreeListIdx i+allocChunkSize)) = (cut b i).stop := by
    rw [u64_of_lt (by simp only [allocChunkSize]; omega)]
    simp only [cut,Chunk.stop,allocChunkSize]
    omega
  obtain ⟨m,run⟩ : ∃ m, m = put (put (put h.mem (freeptr b.base) (cut b i).stop) (chunkNext b.free) 0) (mask b.free)
    (chunkMask b.free b.base (sizeFromFreeListIdx i)) := ⟨_,rfl⟩
  have reads : ∀ g, (s.carve b rest i size).Valid set g → get m g =
      if mask b.free = g then chunkMask b.free b.base (sizeFromFreeListIdx i)
      else if chunkNext b.free = g then 0 else if freeptr b.base = g then (cut b i).stop else get h.mem g := by
    intro g valid
    rw [run,placed'.get_put (by simpa using ownChunk) valid decodes.2.2.2,
      placed'.get_put (by simpa using ownChunk) valid (show 0 < 2^64 by decide),
      placed'.get_put (by simpa using ownBlock) valid (show _ < 2^64 by omega)]
  have ext : Extends s (s.carve b rest i size) := by
    refine ⟨fun k present => ?_,fun c there => List.mem_cons_of_mem _ there,rfl⟩
    rw [head] at present
    rcases List.mem_cons.mp present with rfl | later
    · exact ownBlock
    · exact ⟨k,List.mem_cons_of_mem _ later,rfl⟩
  have sameBases : (s.carve b rest i size).bases = s.bases := by
    simp only [Shape.bases,Shape.carve,head,List.map_cons]
  have grown : {b with free:=(cut b i).stop} ∉ s.blocks := by
    intro present
    have same := congrArg Block.free (placed.block_unique present listed rfl)
    simp only [cut,Chunk.stop,allocChunkSize] at same
    omega
  refine ⟨m,?_,⟨placed',held.extend tracked placed' ext ?_ ?_ ?_ ?_ ?_,
    tracked.allocate ext (c:=cut b i) (List.mem_cons_self ..) unused rfl asked,⟨?_,⟨_,_,rfl,normal⟩,?_,backed.once,backed.positive,?_⟩⟩,
    rfl,fun c there => List.mem_cons_of_mem _ there,?_⟩
  · simp only [allocChunkFromBlock,free',value,u64_of_lt decodes.2.2.2,run]
  -- What the headers hold.
  · change get m (blocks set) = _
    rw [reads _ (by simp),sameBases]
    simpa using held.head
  · rw [sameBases]
    refine held.row.keep (fun a present => ?_) (fun a present => ?_)
    · change get m (next a) = _
      rw [reads _ (by simpa using ext.base present)]
      simp
    · change get m (pres a) = _
      rw [reads _ (by simpa using ext.base present)]
      simp
  · intro k present new
    rcases List.mem_cons.mp present with rfl | later
    · change get m _ = _ ∧ get m _ = _ ∧ get m _ = _
      rw [reads _ (by simpa using ownBlock),reads _ (by simpa using ownBlock),reads _ (by simpa using ownBlock)]
      simp [set',stop']
    · exact absurd (by rw [head]; exact List.mem_cons_of_mem _ later) new
  · intro c present new
    rcases List.mem_cons.mp present with rfl | there
    · change get m _ = _
      rw [reads _ (by simpa [cut] using ownChunk)]
      simp [cut,Chunk.mask]
    · exact absurd there new
  · intro g valid plain other
    have notChunk : ∀ o,(⟨.chunk b.free,o⟩ : Field) ≠ g := by
      rintro o rfl
      obtain ⟨c,there,addr⟩ := valid.1
      exact unused c there addr
    have notFree : freeptr b.base ≠ g := fun same => other _ (List.mem_cons_self ..) grown (by rw [← same])
    change get m g = _
    rw [reads _ (ext.valid valid),if_neg (notChunk 8),if_neg (notChunk 0),if_neg notFree]
  -- What malloc gave.
  · obtain ⟨k,there,facts⟩ := backed.keeper
    rw [head] at there
    rcases List.mem_cons.mp there with rfl | later
    · exact ⟨_,List.mem_cons_self ..,facts⟩
    · exact ⟨k,List.mem_cons_of_mem _ later,facts⟩
  · intro k present
    rcases List.mem_cons.mp present with rfl | later
    · exact backed.given b listed
    · exact backed.given k (by rw [head]; exact List.mem_cons_of_mem _ later)
  · intro k present
    rcases List.mem_cons.mp present with rfl | later
    · exact fun _ => near
    · exact backed.small k (by rw [head]; exact List.mem_cons_of_mem _ later)
  · intro c there x lower upper
    have there' : c ∈ (s.carve b rest i size).chunks := List.mem_cons_of_mem _ there
    change m x = h.mem x
    rw [run,placed'.put_payload (by simpa using ownChunk) there' lower upper,
      placed'.put_payload (by simpa using ownChunk) there' lower upper,
      placed'.put_payload (by simpa using ownBlock) there' lower upper]

end carve

section pop
variable {set : Nat} {s : Shape} {h : Heap}

def Shape.pop (s : Shape) (i a size : Nat) (rest : List Nat) : Shape :=
  {s with live:=(chunkGetPointer a,size) :: s.live,free:=fun j => if j = i then rest else s.free j}

theorem pop_spec (inv : Inv set h s) (small : i < allocFreelistsNum) (list : s.free i = a :: rest)
    (asked : size ≤ sizeFromFreeListIdx i) :
    get h.mem (freeList set i) = a ∧ Allocated set h s size (chunkGetPointer a)
      {h with mem:=put h.mem (freeList set i) (get h.mem (chunkNext a))} (s.pop i a size rest) := by
  obtain ⟨placed,held,tracked,backed⟩ := inv
  have chain := held.lists i small
  rw [list] at chain
  obtain ⟨first,later⟩ := chain
  have own := tracked.free i a (by rw [list]; exact List.mem_cons_self ..)
  obtain ⟨_,c,there,rfl,_,cap⟩ := own
  have fewer : ∀ j, ∀ x ∈ (s.pop i c.addr size rest).free j, x ∈ s.free j := by
    intro j x present
    simp only [Shape.pop] at present
    split at present
    · rename_i same
      rw [same,list]
      exact List.mem_cons_of_mem _ present
    · exact present
  have once : c.addr ∉ rest := by
    have all := tracked.freeOnce i
    rw [list] at all
    exact (List.nodup_cons.mp all).1
  -- A chunk of another class is another chunk.
  have unlisted : ∀ j, c.addr ∉ (s.pop i c.addr size rest).free j := by
    intro j present
    by_cases same : j = i
    · subst same
      exact once (by simpa [Shape.pop] using present)
    · obtain ⟨small',d,there',addr,_,cap'⟩ := tracked.free j c.addr (fewer j _ present)
      have one := placed.chunk_unique there there' addr.symm
      rw [← one,cap] at cap'
      have back := congrArg allocSetFreeIndex cap'
      rw [allocSetFreeIndex_class small,allocSetFreeIndex_class small'] at back
      exact same back.symm
  have reads : ∀ g, s.Valid set g → get (put h.mem (freeList set i) (get h.mem (chunkNext c.addr))) g =
      if freeList set i = g then get h.mem (chunkNext c.addr) else get h.mem g := fun g valid =>
    placed.get_put (valid_freeList small) valid (by rw [width_freeList small]; exact get_lt _ _)
  have inChunk : ∀ d ∈ s.chunks, ∃ k ∈ s.chunks, k.addr = d.addr := fun d there => ⟨d,there,rfl⟩
  have links : ∀ d ∈ s.chunks, get (put h.mem (freeList set i) (get h.mem (chunkNext c.addr))) (chunkNext d.addr) =
      get h.mem (chunkNext d.addr) := by
    intro d there'
    rw [reads _ (by simpa using inChunk d there')]
    simp
  refine ⟨first,⟨⟨placed.setPositive,placed.setInside,placed.blocks,placed.clear,placed.fits,placed.inside,placed.chunks⟩,
    held.relist rfl rfl ?_ ?_,⟨?_,?_,?_,?_,?_⟩,backed.keeper,backed.head,backed.given,backed.once,backed.positive,backed.small⟩,
    rfl,fun _ there => there,?_⟩
  · intro g valid other _
    rw [reads _ valid,if_neg fun same => other i small same.symm]
  · intro j small'
    rw [reads _ (valid_freeList small')]
    by_cases same : i = j
    · subst same
      simp only [if_true,Shape.pop]
      refine FreeChain.frame _ _ later fun x present => ?_
      obtain ⟨_,d,there',rfl,_⟩ := tracked.free i x (by rw [list]; exact List.mem_cons_of_mem _ present)
      exact links d there'
    · have other : ¬j = i := fun eq => same eq.symm
      have apart : ¬freeList set i = freeList set j := by simp [same]
      simp only [if_neg apart,Shape.pop,if_neg other]
      refine FreeChain.frame _ _ (held.lists j small') fun x present => ?_
      obtain ⟨_,d,there',rfl,_⟩ := tracked.free j x present
      exact links d there'
  · intro l present
    rcases List.mem_cons.mp present with rfl | there'
    · exact ⟨c,there,rfl,by rw [cap]; exact asked⟩
    · exact tracked.live l there'
  · exact fun j x present => tracked.free j x (fewer j x present)
  · refine List.nodup_cons.mpr ⟨fun present => ?_,tracked.liveOnce⟩
    obtain ⟨l,there',same⟩ := List.mem_map.mp present
    exact tracked.apart i c.addr (by rw [list]; exact List.mem_cons_self ..) l there' same
  · intro j
    have all := tracked.freeOnce j
    simp only [Shape.pop]
    split
    · rename_i same
      rw [same,list] at all
      exact (List.nodup_cons.mp all).2
    · exact all
  · intro j x present l there'
    rcases List.mem_cons.mp there' with rfl | there'
    · intro same
      simp only [chunkGetPointer] at same
      obtain rfl : c.addr = x := by omega
      exact unlisted j present
    · exact tracked.apart j x (fewer j x present) l there'
  · intro d there' x low high
    exact placed.put_payload (valid_freeList small) there' low high

end pop

-- A call that is refused memory ends the process; no call does anything undefined.
def Ends (P : α → Prop) : Except Stop α → Prop
  | .ok a => P a
  | .error e => e = .fatal

theorem Ends.ok {P : α → Prop} {a : α} (holds : P a) : Ends P (.ok a) := holds

theorem Ends.bind {x : Except Stop α} {k : α → Except Stop β} (first : Ends P x) (rest : ∀ a, P a → Ends Q (k a)) :
    Ends Q (x >>= k) := by
  cases x with
  | error e => exact first
  | ok a => exact rest a first

theorem Ends.done {x : Except Stop α} (ends : Ends P x) (run : x = .ok a) : P a := by
  rw [run] at ends
  exact ends

theorem Ends.imp {x : Except Stop α} (ends : Ends P x) (weaker : ∀ a, P a → Q a) : Ends Q x := by
  cases x with
  | error e => exact ends
  | ok a => exact weaker a ends

section fresh
variable {set : Nat} {s : Shape} {h : Heap} {f : Fresh}

theorem malloc_spec (inv : Inv set h s) (positive : 0 < n) : Ends (fun h' => Inv set h' s ∧ Clear set s h' f.base n ∧
    ∀ c ∈ s.chunks, ∀ x, chunkGetPointer c.addr ≤ x → x < c.stop → h'.mem x = h.mem x) (malloc h n f) := by
  unfold malloc
  split
  · rename_i fits
    have backed := inv.backed
    obtain ⟨clear,clearSet⟩ := backed.fresh inv.placed fits
    have framed : Inv set {h with mem:=fill h.mem f.base n f.junk} s := inv.frame fun g header x low high =>
      fill_other (backed.header_outside inv.placed fits header low high)
    refine ⟨⟨framed.placed,framed.held,framed.tracked,backed.grant fits positive⟩,
      ⟨List.mem_cons_self ..,fits.1,fits.2.1,clear,clearSet⟩,fun c listed x low high => ?_⟩
    refine fill_other (backed.payload_outside inv.placed fits listed ?_ high)
    simp only [chunkGetPointer] at low
    omega
  · exact rfl

theorem setNext_spec (inv : Inv set h s) (small : v ≤ 2^30) : Inv set {h with mem:=put h.mem (nextBlockSize set) v} s ∧
    ∀ c ∈ s.chunks, ∀ x, chunkGetPointer c.addr ≤ x → x < c.stop → put h.mem (nextBlockSize set) v x = h.mem x := by
  obtain ⟨placed,held,tracked,backed⟩ := inv
  have valid : s.Valid set (nextBlockSize set) := by simp
  have reads : ∀ g, s.Valid set g → get (put h.mem (nextBlockSize set) v) g =
      if nextBlockSize set = g then v else get h.mem g := fun g valid' =>
    placed.get_put valid valid' (show v < 256^4 by omega)
  have block : ∀ a ∈ s.bases, ∃ b ∈ s.blocks, b.base = a := fun a present => List.mem_map.mp present
  have chunk : ∀ c ∈ s.chunks, ∃ k ∈ s.chunks, k.addr = c.addr := fun c there => ⟨c,there,rfl⟩
  refine ⟨⟨placed,⟨?_,?_,?_,?_,?_,?_⟩,tracked,backed⟩,fun c listed x low high => placed.put_payload valid listed low high⟩
  · rw [reads _ (by simp)]
    simpa using held.head
  · refine held.row.keep (fun a present => ?_) (fun a present => ?_)
    · rw [reads _ (by simpa using block a present)]
      simp
    · rw [reads _ (by simpa using block a present)]
      simp
  · intro b listed
    have own : ∃ k ∈ s.blocks, k.base = b.base := ⟨b,listed,rfl⟩
    rw [reads _ (by simpa using own),reads _ (by simpa using own),reads _ (by simpa using own)]
    simpa using held.fields b listed
  · intro c there
    rw [reads _ (by simpa using chunk c there)]
    simpa using held.masks c there
  · intro i small'
    refine lists_keep tracked held (fun j small => ?_) (fun c there => ?_) small'
    · rw [reads _ (valid_freeList small)]
      have apart : ¬96 = 8+8*j := by simp only [allocFreelistsNum] at small; omega
      simp [apart]
    · rw [reads _ (by simpa using chunk c there)]
      simp
  · rw [reads _ valid]
    simpa using small

def Shape.grow (s : Shape) (base n : Nat) : Shape := {s with blocks:=⟨base,base+n,base+allocBlockSize,false⟩ :: s.blocks}

def linkHead (m : Mem) (set base n : Nat) : Mem :=
  let m := put m (freeptr base) (base+allocBlockSize)
  let m := put m (endptr base) (base+n)
  let m := put m (blockSet base) set
  let m := put m (next base) (get m (blocks set))
  let m := put m (pres base) 0
  let m := if get m (next base) ≠ 0 then put m (pres (get m (next base))) base else m
  put m (blocks set) base

theorem linkHead_reads (inv : Inv set h s) (clear : Clear set s h base n) (placed : Placed set (s.grow base n))
    (head : s.blocks = b :: rest) : ∃ m, linkHead h.mem set base n = m ∧ (∀ g, (s.grow base n).Valid set g → get m g =
      if blocks set = g then base else if pres b.base = g then base else if pres base = g then 0
      else if next base = g then b.base else if blockSet base = g then set else if endptr base = g then base+n
      else if freeptr base = g then base+allocBlockSize else get h.mem g) ∧
    ∀ c ∈ s.chunks, ∀ x, chunkGetPointer c.addr ≤ x → x < c.stop → m x = h.mem x := by
  have listed : b ∈ s.blocks := by rw [head]; exact List.mem_cons_self ..
  have inSet := inv.placed.setInside
  have top := clear.top
  have own := placed.fits ⟨base,base+n,base+allocBlockSize,false⟩ (List.mem_cons_self ..)
  have ownBlock : ∃ k ∈ (s.grow base n).blocks, k.base = base := ⟨_,List.mem_cons_self ..,rfl⟩
  have headBlock : ∃ k ∈ (s.grow base n).blocks, k.base = b.base := ⟨b,List.mem_cons_of_mem _ listed,rfl⟩
  have small : b.base < 2^64 := by have := inv.placed.fits b listed; omega
  have free : base+allocBlockSize < 2^64 := by simp only at own; omega
  have first : get h.mem (blocks set) = b.base := by
    rw [inv.held.head,Shape.bases,head]
    rfl
  have headSome : b.base ≠ 0 := by have := (inv.placed.fits b listed).1; omega
  -- The words written, the last first.
  obtain ⟨m,run⟩ : ∃ m, m = put (put (put (put (put (put (put h.mem (freeptr base) (base+allocBlockSize)) (endptr base) (base+n))
    (blockSet base) set) (next base) b.base) (pres base) 0) (pres b.base) base) (blocks set) base := ⟨_,rfl⟩
  have whole : linkHead h.mem set base n = m := by
    have head' : get (put (put (put h.mem (freeptr base) (base+allocBlockSize)) (endptr base) (base+n)) (blockSet base) set)
        (blocks set) = b.base := by
      rw [placed.get_put (by simpa using ownBlock) (by simp) (show set < 2^64 by omega),
        placed.get_put (by simpa using ownBlock) (by simp) top,placed.get_put (by simpa using ownBlock) (by simp) free]
      simpa using first
    have behind : get (put (put (put (put (put h.mem (freeptr base) (base+allocBlockSize)) (endptr base) (base+n))
        (blockSet base) set) (next base) b.base) (pres base) 0) (next base) = b.base := by
      rw [placed.get_put (by simpa using ownBlock) (by simpa using ownBlock) (show 0 < 2^64 by decide),
        placed.get_put (by simpa using ownBlock) (by simpa using ownBlock) small]
      simp
    simp only [linkHead,head',behind,ne_eq,headSome,not_false_eq_true,if_true,run]
  refine ⟨m,whole,fun g valid => ?_,fun c there x low high => ?_⟩
  · rw [run,placed.get_put (by simp) valid (show base < 2^64 by omega),
      placed.get_put (by simpa using headBlock) valid (show base < 2^64 by omega),
      placed.get_put (by simpa using ownBlock) valid (show 0 < 2^64 by decide),
      placed.get_put (by simpa using ownBlock) valid small,placed.get_put (by simpa using ownBlock) valid (show set < 2^64 by omega),
      placed.get_put (by simpa using ownBlock) valid top,placed.get_put (by simpa using ownBlock) valid free]
  · have there' : c ∈ (s.grow base n).chunks := there
    rw [run,placed.put_payload (by simp) there' low high,placed.put_payload (by simpa using headBlock) there' low high,
      placed.put_payload (by simpa using ownBlock) there' low high,placed.put_payload (by simpa using ownBlock) there' low high,
      placed.put_payload (by simpa using ownBlock) there' low high,placed.put_payload (by simpa using ownBlock) there' low high,
      placed.put_payload (by simpa using ownBlock) there' low high]

theorem linkHead_spec (inv : Inv set h s) (clear : Clear set s h base n) (roomy : allocBlockSize ≤ n) (few : n ≤ 2^30) :
    Inv set {h with mem:=linkHead h.mem set base n} (s.grow base n) ∧
    ∀ c ∈ s.chunks, ∀ x, chunkGetPointer c.addr ≤ x → x < c.stop → linkHead h.mem set base n x = h.mem x := by
  obtain ⟨b,rest,head,normal⟩ := inv.backed.head
  have top := clear.top
  simp only [allocBlockSize] at roomy
  have placed' : Placed set (s.grow base n) := by
    refine inv.placed.addBlock (b:=⟨base,base+n,base+allocBlockSize,false⟩) (.refl _) clear.blocks clear.set
      ⟨clear.positive,Nat.le_refl _,?_,top⟩
    simp only [allocBlockSize]
    omega
  obtain ⟨m,whole,reads,payload⟩ := linkHead_reads inv clear placed' head
  rw [whole]
  refine ⟨?_,payload⟩
  obtain ⟨placed,held,tracked,backed⟩ := inv
  have ext : Extends s (s.grow base n) :=
    ⟨fun k there => ⟨k,List.mem_cons_of_mem _ there,rfl⟩,fun _ there => there,rfl⟩
  have ownBlock : ∃ k ∈ (s.grow base n).blocks, k.base = base := ⟨_,List.mem_cons_self ..,rfl⟩
  have bases : s.bases = b.base :: rest.map Block.base := by rw [Shape.bases,head]; rfl
  have first : b.base ∈ s.bases := by rw [bases]; exact List.mem_cons_self ..
  have other : ∀ a ∈ s.bases, base ≠ a := fun a present => clear.base_new placed (by omega) present
  refine ⟨placed',held.extend tracked placed' ext ?_ ?_ ?_ (fun c there new => absurd there new) ?_,
    ⟨tracked.live,tracked.free,tracked.liveOnce,tracked.freeOnce,tracked.apart⟩,
    backed.addBlock (.refl _) ⟨_,_,rfl,rfl⟩ ?_ fun _ => Nat.add_le_add_left few base⟩
  · rw [reads _ (by simp)]
    simp [Shape.bases,Shape.grow]
  · change BlockRow _ ([]++base :: s.bases)
    refine Row.insert held.row placed.bases_nodup placed.base_positive ?_ ?_ (fun zero => absurd rfl zero) ?_ ?_ ?_
    · rw [reads _ (by simpa using ownBlock)]
      simp [bases,(other _ first).symm]
    · rw [reads _ (by simpa using ownBlock)]
      simp [(other _ first).symm]
    · intro _
      rw [bases,List.headD_cons]
      rw [reads _ (by simpa using ext.base first)]
      simp
    · intro a present _
      rw [reads _ (by simpa using ext.base present)]
      simp [other a present]
    · intro a present apart
      rw [bases,List.headD_cons] at apart
      rw [reads _ (by simpa using ext.base present)]
      simp [other a present,apart.symm]
  · intro k present new
    rcases List.mem_cons.mp present with rfl | there
    · rw [reads _ (by simpa using ownBlock),reads _ (by simpa using ownBlock),reads _ (by simpa using ownBlock)]
      simp
    · exact absurd there new
  · intro g valid plain _
    have notOwn : ∀ o,(⟨.block base,o⟩ : Field) ≠ g := by
      rintro o rfl
      obtain ⟨k,there,same⟩ := valid.1
      exact other k.base (List.mem_map.mpr ⟨k,there,rfl⟩) same.symm
    rw [reads _ (ext.valid valid),if_neg plain.head,if_neg (plain.pres _),if_neg (plain.pres _),if_neg (plain.next _),
      if_neg (notOwn 0),if_neg (notOwn 32),if_neg (notOwn 24)]
  · have length : base+n-base = n := by omega
    simp only [length]
    exact clear.given

end fresh

end TinyLlama.Asctx
