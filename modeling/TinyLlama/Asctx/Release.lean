import TinyLlama.Asctx.Large

namespace TinyLlama.Asctx
open Memory Linked

def dropped (live : List (Nat × Nat)) (ptr : Nat) : List (Nat × Nat) := live.filter fun l => l.1 ≠ ptr

theorem mem_dropped : l ∈ dropped live ptr ↔ l ∈ live ∧ l.1 ≠ ptr := by simp [dropped]

theorem dropped_once (once : (live.map Prod.fst).Nodup) (ptr : Nat) : ((dropped live ptr).map Prod.fst).Nodup :=
  once.sublist (List.filter_sublist.map Prod.fst)

-- What releasing promises.
structure Freed (set : Nat) (h : Heap) (s : Shape) (ptr : Nat) (h' : Heap) (s' : Shape) : Prop where
  inv : Inv set h' s'
  live : s'.live = dropped s.live ptr
  chunks : ∀ c ∈ s.chunks, chunkGetPointer c.addr ≠ ptr → c ∈ s'.chunks
  bytes : ∀ c ∈ s.chunks, ∀ x, chunkGetPointer c.addr ≤ x → x < c.stop → h'.mem x = h.mem x

section free
variable {set : Nat} {s : Shape} {h : Heap}

theorem live_header (inv : Inv set h s) (listed : l ∈ s.live) : ∃ c ∈ s.chunks, ∃ b ∈ s.blocks, c.Inside b ∧
    l.1 = chunkGetPointer c.addr ∧ l.2 ≤ c.cap ∧ get h.mem (mask c.addr) = c.mask := by
  obtain ⟨c,there,pointer,room⟩ := inv.tracked.live l listed
  obtain ⟨b,own,inside⟩ := inv.placed.inside c there
  exact ⟨c,there,b,own,inside,pointer,room,inv.held.masks c there⟩

theorem mask_normal {c : Chunk} {b : Block} (inside : c.Inside b) (normal : c.ext = false) : ∃ i < allocFreelistsNum,
    c.cap = sizeFromFreeListIdx i ∧ isExternal c.mask = false ∧ c.addr-getOffset c.mask = b.base ∧ getValue c.mask = c.cap := by
  obtain ⟨⟨i,small,cap⟩,near⟩ := inside.near (by rw [inside.ext]; exact normal)
  have limit : sizeFromFreeListIdx i ≤ 8192 := (sizeFromFreeListIdx_small small).2
  have low := inside.low
  have base := inside.base
  have decodes := chunkMask_decodes (c:=c.addr) (b:=c.base) (k:=c.cap) (by omega) (by omega) (by omega)
  have same : c.mask = chunkMask c.addr c.base c.cap := by simp [Chunk.mask,normal]
  rw [same]
  exact ⟨i,small,cap,decodes.1,by rw [decodes.2.1]; omega,decodes.2.2.1⟩

def Shape.push (s : Shape) (i a ptr : Nat) : Shape :=
  {s with live:=dropped s.live ptr,free:=fun j => if j = i then a :: s.free i else s.free j}

theorem push_spec (inv : Inv set h s) (listed : l ∈ s.live) (there : c ∈ s.chunks) (pointer : l.1 = chunkGetPointer c.addr)
    (small : i < allocFreelistsNum) (normal : c.ext = false) (cap : c.cap = sizeFromFreeListIdx i) :
    Freed set h s l.1 {h with mem:=put (put h.mem (chunkNext c.addr) (get h.mem (freeList set i))) (freeList set i) c.addr}
      (s.push i c.addr l.1) := by
  obtain ⟨placed,held,tracked,backed⟩ := inv
  obtain ⟨b,own,inside⟩ := placed.inside c there
  have top := (placed.fits b own).2.2
  have high := inside.high
  have fits : c.addr < 2^64 := by simp only [Chunk.stop,allocChunkSize] at high; omega
  have inChunk : ∀ d ∈ s.chunks, ∃ k ∈ s.chunks, k.addr = d.addr := fun d there => ⟨d,there,rfl⟩
  have ownChunk := inChunk c there
  obtain ⟨m,run⟩ : ∃ m, m = put (put h.mem (chunkNext c.addr) (get h.mem (freeList set i))) (freeList set i) c.addr :=
    ⟨_,rfl⟩
  have reads : ∀ g, s.Valid set g → get m g = if freeList set i = g then c.addr
      else if chunkNext c.addr = g then get h.mem (freeList set i) else get h.mem g := by
    intro g valid
    rw [run,placed.get_put (valid_freeList small) valid (by rw [width_freeList small]; exact fits),
      placed.get_put (by simpa using ownChunk) valid (get_lt h.mem (freeList set i))]
  have unlisted : ∀ j, c.addr ∉ s.free j := fun j present => tracked.apart j c.addr present l listed pointer
  -- A list that c is not in still hangs together.
  have keeps : ∀ j < allocFreelistsNum, ∀ p, FreeChain h.mem p (s.free j) → FreeChain m p (s.free j) := by
    intro j _ p chain
    refine FreeChain.frame _ _ chain fun a present => ?_
    obtain ⟨_,d,there',rfl,_⟩ := tracked.free j a present
    have other : c.addr ≠ d.addr := fun same => unlisted j (by rw [same]; exact present)
    rw [reads _ (by simpa using inChunk d there')]
    simp [other]
  rw [← run]
  refine ⟨⟨⟨placed.setPositive,placed.setInside,placed.blocks,placed.clear,placed.fits,placed.inside,placed.chunks⟩,
    held.relist rfl rfl ?_ ?_,⟨?_,?_,?_,?_,?_⟩,backed.keeper,backed.head,backed.given,backed.once,backed.positive,backed.small⟩,
    rfl,fun c there _ => there,?_⟩
  · intro g valid other other'
    rw [reads _ valid,if_neg fun same => other i small same.symm,if_neg fun same => other' _ same.symm]
  · intro j small'
    change FreeChain m (get m (freeList set j)) (if j = i then c.addr :: s.free i else s.free j)
    rw [reads _ (valid_freeList small')]
    by_cases same : j = i
    · subst same
      simp only [if_true]
      refine ⟨rfl,?_⟩
      rw [reads _ (by simpa using ownChunk)]
      simpa using keeps j small' _ (held.lists j small')
    · have other : ¬freeList set i = freeList set j := by simpa using fun eq => same eq.symm
      rw [if_neg same,if_neg other,if_neg (by simp)]
      exact keeps j small' _ (held.lists j small')
  · intro l' present
    exact tracked.live l' (mem_dropped.mp present).1
  · intro j a present
    simp only [Shape.push] at present
    split at present
    · rename_i same
      subst same
      rcases List.mem_cons.mp present with rfl | present
      · exact ⟨small,c,there,rfl,normal,cap⟩
      · exact tracked.free j a present
    · exact tracked.free j a present
  · exact dropped_once tracked.liveOnce l.1
  · intro j
    simp only [Shape.push]
    split
    · exact List.nodup_cons.mpr ⟨unlisted i,tracked.freeOnce i⟩
    · exact tracked.freeOnce j
  · intro j a present l' present'
    obtain ⟨kept,other⟩ := mem_dropped.mp present'
    simp only [Shape.push] at present
    split at present
    · rcases List.mem_cons.mp present with rfl | present
      · rw [← pointer]; exact other
      · exact tracked.apart i a present l' kept
    · exact tracked.apart j a present l' kept
  · intro d there' x low high'
    change m x = h.mem x
    rw [run,placed.put_payload (valid_freeList small) there' low high',
      placed.put_payload (by simpa using ownChunk) there' low high']

theorem Placed.remove (placed : Placed set s) {s' : Shape} (blocks : s'.blocks.Sublist s.blocks)
    (chunks : s'.chunks.Sublist s.chunks) (inside : ∀ c ∈ s'.chunks, ∃ b ∈ s'.blocks, c.Inside b) : Placed set s' :=
  ⟨placed.setPositive,placed.setInside,placed.blocks.sublist blocks,fun b there => placed.clear b (blocks.subset there),
    fun b there => placed.fits b (blocks.subset there),inside,placed.chunks.sublist chunks⟩

def Shape.detach (s : Shape) (front back : List Block) (c : Chunk) : Shape :=
  ⟨front++back,s.chunks.filter fun d => d.addr ≠ c.addr,dropped s.live (chunkGetPointer c.addr),s.free⟩

def unlink (m : Mem) (set block : Nat) : Mem :=
  let m := if get m (pres block) ≠ 0 then put m (next (get m (pres block))) (get m (next block))
    else put m (blocks set) (get m (next block))
  if get m (next block) ≠ 0 then put m (pres (get m (next block))) (get m (pres block)) else m

theorem external_place (inv : Inv set h s) (there : c ∈ s.chunks) (own : b ∈ s.blocks) (inside : c.Inside b)
    (external : c.ext = true) : ∃ front back, s.blocks = front++b :: back ∧ front ≠ [] ∧ c.addr = b.base+allocBlockSize ∧
      (∀ d ∈ s.chunks, d.Inside b → d = c) ∧ (b.base,b.stop-b.base) ∈ h.regions := by
  obtain ⟨front,back,split⟩ := List.append_of_mem own
  have ext : b.ext = true := by rw [inside.ext]; exact external
  have at' := inside.only ext
  refine ⟨front,back,split,?_,at',fun d there' inside' => ?_,?_⟩
  · rintro rfl
    obtain ⟨k,rest,head,normal⟩ := inv.backed.head
    rw [split] at head
    obtain ⟨rfl,_⟩ := List.cons.inj head
    simp [normal] at ext
  · exact inv.placed.chunk_unique there' there ((inside'.only ext).trans at'.symm)
  · refine inv.backed.given b own fun keeper => ?_
    obtain ⟨k,listed,base,normal,_⟩ := inv.backed.keeper
    obtain rfl := inv.placed.block_unique own listed (keeper.trans base.symm)
    simp [normal] at ext

structure Between (m : Mem) (s : Shape) (front back : List Block) (b : Block) (p n : Nat) : Prop where
  bases : s.bases = front.map Block.base++b.base :: back.map Block.base
  row : BlockRow m (front.map Block.base++b.base :: back.map Block.base)
  nodup : (front.map Block.base++b.base :: back.map Block.base).Nodup
  positive : 0 ∉ front.map Block.base++b.base :: back.map Block.base
  before : get m (pres b.base) = p
  after : get m (next b.base) = n
  pSome : p ≠ 0
  pListed : p ∈ front.map Block.base
  nListed : n ≠ 0 → n ∈ back.map Block.base
  others : ∀ a ∈ front.map Block.base++back.map Block.base, a ≠ b.base
  rest : ∀ k ∈ front++back, k ∈ s.blocks ∧ k.base ≠ b.base
  same : ∀ k ∈ s.blocks, k ≠ b → k ∈ front++back

theorem between (inv : Inv set h s) (split : s.blocks = front++b :: back) (behind : front ≠ []) :
    ∃ p n, Between h.mem s front back b p n := by
  have bases : s.bases = front.map Block.base++b.base :: back.map Block.base := by
    simp only [Shape.bases,split,List.map_append,List.map_cons]
  have nodup := inv.placed.bases_nodup
  have positive := inv.placed.base_positive
  have row := inv.held.row
  rw [bases] at nodup positive row
  obtain ⟨before,after⟩ := Row.neighbours row (by rintro zero; simp [zero] at positive)
  have pListed : (front.map Block.base).getLastD 0 ∈ front.map Block.base := by
    have last : front.map Block.base ≠ [] := by simpa using behind
    rw [List.getLastD_eq_getLast?,List.getLast?_eq_getLast_of_ne_nil last]
    exact List.getLast_mem last
  have nListed : (back.map Block.base).headD 0 ≠ 0 → (back.map Block.base).headD 0 ∈ back.map Block.base := by
    intro nonzero
    cases tail : back.map Block.base with
    | nil => simp [tail] at nonzero
    | cons y more => simp
  obtain ⟨_,tailOnce,apart⟩ := List.nodup_append.mp nodup
  have others : ∀ a ∈ front.map Block.base++back.map Block.base, a ≠ b.base := by
    intro a present same
    rcases List.mem_append.mp present with left | right
    · exact apart a left b.base (List.mem_cons_self ..) same
    · exact (List.nodup_cons.mp tailOnce).1 (by rw [← same]; exact right)
  refine ⟨_,_,bases,row,nodup,positive,before,after,?_,pListed,nListed,others,fun k present => ?_,fun k listed other => ?_⟩
  · intro zero
    rw [zero] at pListed
    exact positive (List.mem_append_left _ pListed)
  · refine ⟨?_,others k.base ?_⟩
    · rw [split]
      rcases List.mem_append.mp present with left | right
      · exact List.mem_append_left _ left
      · exact List.mem_append_right _ (List.mem_cons_of_mem _ right)
    · rw [← List.map_append]
      exact List.mem_map.mpr ⟨k,present,rfl⟩
  · rw [split] at listed
    simpa [other] using listed

theorem Between.in_bases (between : Between m s front back b p n) (present : a ∈ front.map Block.base++back.map Block.base) :
    ∃ k ∈ s.blocks, k.base = a := by
  rw [← List.map_append] at present
  obtain ⟨k,there,rfl⟩ := List.mem_map.mp present
  exact ⟨k,(between.rest k there).1,rfl⟩

theorem unlink_reads (inv : Inv set h s) (own : b ∈ s.blocks) (place : Between h.mem s front back b p n) :
    ∃ m, unlink h.mem set b.base = m ∧
      (∀ g, s.Valid set g → get m g = if n ≠ 0 ∧ pres n = g then p else if next p = g then n else get h.mem g) ∧
      ∀ d ∈ s.chunks, ∀ x, chunkGetPointer d.addr ≤ x → x < d.stop → m x = h.mem x := by
  have placed := inv.placed
  have before := place.before
  have after := place.after
  have pBlock := place.in_bases (List.mem_append_left _ place.pListed)
  have nBlock : n ≠ 0 → ∃ k ∈ s.blocks, k.base = n := fun nonzero =>
    place.in_bases (List.mem_append_right _ (place.nListed nonzero))
  have ownBlock : ∃ k ∈ s.blocks, k.base = b.base := ⟨b,own,rfl⟩
  have pOther : p ≠ b.base := place.others p (List.mem_append_left _ place.pListed)
  have pSmall : p < 2^64 := by rw [← before]; exact get_lt _ _
  have nSmall : n < 2^64 := by rw [← after]; exact get_lt _ _
  have nextKept : get (put h.mem (next p) n) (next b.base) = n := by
    rw [placed.get_put (by simpa using pBlock) (by simpa using ownBlock) nSmall]
    simpa [pOther] using after
  have presKept : get (put h.mem (next p) n) (pres b.base) = p := by
    rw [placed.get_put (by simpa using pBlock) (by simpa using ownBlock) nSmall]
    simpa using before
  refine ⟨if n ≠ 0 then put (put h.mem (next p) n) (pres n) p else put h.mem (next p) n,?_,fun g valid => ?_,fun d there x low high => ?_⟩
  · simp only [unlink,before,after,ne_eq,place.pSome,not_false_eq_true,if_true,nextKept,presKept]
  · by_cases zero : n = 0
    · simp only [zero,ne_eq,not_true_eq_false,if_false,false_and]
      exact placed.get_put (by simpa using pBlock) valid (show 0 < 2^64 by decide)
    · simp only [ne_eq,zero,not_false_eq_true,if_true,true_and]
      rw [placed.get_put (by simpa using nBlock zero) valid pSmall,placed.get_put (by simpa using pBlock) valid nSmall]
  · have inner : put h.mem (next p) n x = h.mem x := placed.put_payload (by simpa using pBlock) there low high
    split
    · rename_i nonzero
      rw [placed.put_payload (by simpa using nBlock nonzero) there low high,inner]
    · exact inner

theorem unlink_spec (inv : Inv set h s) (there : c ∈ s.chunks) (external : c.ext = true) (split : s.blocks = front++b :: back)
    (behind : front ≠ []) (inside : c.Inside b) (at' : c.addr = b.base+allocBlockSize)
    (only : ∀ d ∈ s.chunks, d.Inside b → d = c) :
    Freed set h s (chunkGetPointer c.addr) ⟨unlink h.mem set b.base,without h.regions b.base⟩ (s.detach front back c) := by
  obtain ⟨p,n,place⟩ := between inv split behind
  have own : b ∈ s.blocks := by rw [split]; exact List.mem_append_right _ (List.mem_cons_self ..)
  obtain ⟨m,whole,reads,payload⟩ := unlink_reads inv own place
  obtain ⟨placed,held,tracked,backed⟩ := inv
  have ext : b.ext = true := by rw [inside.ext]; exact external
  have fewer : (front++back).Sublist s.blocks := by
    rw [split]
    exact (List.sublist_cons_self b back).append_left front
  have bases' : (s.detach front back c).bases = front.map Block.base++back.map Block.base := by
    simp only [Shape.bases,Shape.detach,List.map_append]
  have plain : ∀ g, s.Valid set g → g.Plain set → get m g = get h.mem g := by
    intro g valid plain
    rw [reads g valid,if_neg (fun both => plain.pres n both.2),if_neg (plain.next p)]
  have head : get m (blocks set) = get h.mem (blocks set) := by
    rw [reads _ (by simp)]
    simp
  have kept : ∀ d ∈ (s.detach front back c).chunks, d ∈ s.chunks ∧ d.addr ≠ c.addr := by
    intro d present
    simpa [Shape.detach] using present
  have placed' : Placed set (s.detach front back c) := by
    refine placed.remove fewer List.filter_sublist fun d present => ?_
    obtain ⟨there',other⟩ := kept d present
    obtain ⟨k,listed,inside'⟩ := placed.inside d there'
    refine ⟨k,?_,inside'⟩
    have notOwn : k ≠ b := by
      rintro rfl
      exact other (by rw [only d there' inside'])
    exact place.same k listed notOwn
  have inChunk : ∀ d ∈ s.chunks, ∃ k ∈ s.chunks, k.addr = d.addr := fun d there => ⟨d,there,rfl⟩
  rw [whole]
  refine ⟨⟨placed',⟨?_,?_,?_,?_,?_,?_⟩,⟨?_,?_,dropped_once tracked.liveOnce _,tracked.freeOnce,?_⟩,
    ⟨?_,?_,?_,?_,?_,?_⟩⟩,rfl,?_,?_⟩
  · rw [head,held.head,place.bases,bases']
    cases front with
    | nil => exact absurd rfl behind
    | cons k front => rfl
  · rw [bases']
    change BlockRow m _
    refine Row.remove place.row place.nodup place.positive ?_ ?_ ?_ ?_
    · rw [place.before,place.after]
      intro _
      rw [reads _ (by simpa using place.in_bases (List.mem_append_left _ place.pListed))]
      simp
    · rw [place.before,place.after]
      intro nonzero
      rw [reads _ (by simpa using place.in_bases (List.mem_append_right _ (place.nListed nonzero)))]
      simp [nonzero]
    · rw [place.before]
      intro a present other
      rw [reads _ (by simpa using place.in_bases present)]
      simp [Ne.symm other]
    · rw [place.after]
      intro a present other
      rw [reads _ (by simpa using place.in_bases present)]
      simp [Ne.symm other]
  · intro k present
    obtain ⟨listed,_⟩ := place.rest k present
    have known : ∃ k' ∈ s.blocks, k'.base = k.base := ⟨k,listed,rfl⟩
    rw [plain _ (by simpa using known) ⟨by simp,by simp,by simp⟩,plain _ (by simpa using known) ⟨by simp,by simp,by simp⟩,
      plain _ (by simpa using known) ⟨by simp,by simp,by simp⟩]
    exact held.fields k listed
  · intro d present
    rw [plain _ (by simpa using inChunk d (kept d present).1) ⟨by simp,by simp,by simp⟩]
    exact held.masks d (kept d present).1
  · intro i small
    change FreeChain m (get m (freeList set i)) (s.free i)
    refine lists_keep tracked held (fun j small' => ?_) (fun d there' => ?_) small
    · exact plain _ (valid_freeList small') ⟨by simp; omega,by simp,by simp⟩
    · exact plain _ (by simpa using inChunk d there') ⟨by simp,by simp,by simp⟩
  · rw [plain _ (by simp) ⟨by simp,by simp,by simp⟩]
    exact held.grow
  · intro l present
    obtain ⟨listed,other⟩ := mem_dropped.mp present
    obtain ⟨d,there',pointer,room⟩ := tracked.live l listed
    have apart' : d.addr ≠ c.addr := fun same => other (by rw [pointer,same])
    exact ⟨d,by simpa [Shape.detach] using ⟨there',apart'⟩,pointer,room⟩
  · intro i a present
    obtain ⟨small,d,there',addr,normal,cap⟩ := tracked.free i a present
    have apart' : d.addr ≠ c.addr := by
      intro same
      rw [placed.chunk_unique there' there same,external] at normal
      simp at normal
    exact ⟨small,d,by simpa [Shape.detach] using ⟨there',apart'⟩,addr,normal,cap⟩
  · intro i a present l present'
    exact tracked.apart i a present l (mem_dropped.mp present').1
  · obtain ⟨k,listed,base,normal,region⟩ := backed.keeper
    have other : k ≠ b := by rintro rfl; simp [normal] at ext
    refine ⟨k,place.same k listed other,base,normal,?_⟩
    refine List.mem_filter.mpr ⟨region,?_⟩
    have clear := placed.clear b own
    have fits := placed.fits b own
    simp only [allocBlockSize,allocSetCxtSize] at *
    simp only [ne_eq,decide_not,Bool.not_eq_true',decide_eq_false_iff_not]
    omega
  · obtain ⟨k,rest,head,normal⟩ := backed.head
    cases front with
    | nil => exact absurd rfl behind
    | cons k' front =>
      rw [split,List.cons_append] at head
      obtain ⟨rfl,_⟩ := List.cons.inj head
      exact ⟨k',front++back,rfl,normal⟩
  · intro k present other
    obtain ⟨listed,apart'⟩ := place.rest k present
    exact List.mem_filter.mpr ⟨backed.given k listed other,by simpa using apart'⟩
  · exact backed.once.sublist (List.filter_sublist.map Prod.fst)
  · exact fun r present => backed.positive r (List.mem_of_mem_filter present)
  · exact fun k present => backed.small k (place.rest k present).1
  · intro d there' other
    have apart' : d.addr ≠ c.addr := fun same => other (by rw [same])
    simpa [Shape.detach] using ⟨there',apart'⟩
  · exact payload

theorem allocSetFree_spec (inv : Inv set h s) (listed : l ∈ s.live) :
    Ends (fun h' => ∃ s', Freed set h s l.1 h' s') (allocSetFree h l.1) := by
  obtain ⟨c,there,b,own,inside,pointer,_,header⟩ := live_header inv listed
  have chunk : pointerGetChunk l.1 = c.addr := by
    rw [pointer,pointerGetChunk,chunkGetPointer,Nat.add_sub_cancel]
  obtain ⟨set',_,_⟩ := inv.held.fields b own
  unfold allocSetFree
  simp only [chunk,chunkIsExternal,chunkGetBlock,header]
  cases external : c.ext with
  | true =>
    have flag : isExternal c.mask = true := by simp only [Chunk.mask,external,if_true]; exact externalMask_external.1
    obtain ⟨front,back,split,behind,at',only,region⟩ := external_place inv there own inside external
    have block : externalGetBlock c.addr = b.base := by rw [at',externalGetBlock,Nat.add_sub_cancel]
    have freed := unlink_spec inv there external split behind inside at' only
    rw [← pointer] at freed
    rw [if_pos flag,block,set']
    have found : (h.regions.find? fun r => r.1 = b.base).isSome := by
      rw [List.find?_isSome]
      exact ⟨_,region,by simp⟩
    obtain ⟨r,found⟩ := Option.isSome_iff_exists.mp found
    change Ends _ (release {h with mem:=unlink h.mem set b.base} b.base)
    simp only [release,found]
    exact Ends.ok ⟨_,freed⟩
  | false =>
    obtain ⟨i,small,cap,flag,offset,value⟩ := mask_normal inside external
    simp only [flag,Bool.false_eq_true,if_false,offset,set',value,cap,allocSetFreeIndex_class small]
    exact Ends.ok ⟨_,push_spec inv listed there pointer small external cap⟩

end free

end TinyLlama.Asctx
