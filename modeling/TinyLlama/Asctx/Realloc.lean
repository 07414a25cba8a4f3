import TinyLlama.Asctx.Release

namespace TinyLlama.Asctx
open Memory Linked

-- What resizing promises of the live pair `l`.
structure Resized (set : Nat) (h : Heap) (s : Shape) (l : Nat × Nat) (size p : Nat) (h' : Heap) (s' : Shape) : Prop where
  inv : Inv set h' s'
  live : s'.live = (p,size) :: dropped s.live l.1
  copied : ∀ i < min l.2 size, h'.mem (p+i) = h.mem (l.1+i)
  others : ∀ k ∈ s.live, k.1 ≠ l.1 → ∀ i < k.2, h'.mem (k.1+i) = h.mem (k.1+i)

section realloc
variable {set : Nat} {s : Shape} {h : Heap} {f : Fresh}

def Shape.keep (s : Shape) (ptr size : Nat) : Shape := {s with live:=(ptr,size) :: dropped s.live ptr}

theorem keep_spec (inv : Inv set h s) (listed : l ∈ s.live) (there : c ∈ s.chunks) (pointer : l.1 = chunkGetPointer c.addr)
    (room : size ≤ c.cap) : Resized set h s l size l.1 h (s.keep l.1 size) := by
  obtain ⟨placed,held,tracked,backed⟩ := inv
  refine ⟨⟨⟨placed.setPositive,placed.setInside,placed.blocks,placed.clear,placed.fits,placed.inside,placed.chunks⟩,
    held.relist rfl rfl (fun _ _ _ _ => rfl) held.lists,⟨?_,tracked.free,?_,tracked.freeOnce,?_⟩,backed.keeper,backed.head,
    backed.given,backed.once,backed.positive,backed.small⟩,rfl,fun _ _ => rfl,fun _ _ _ _ _ => rfl⟩
  · intro k present
    rcases List.mem_cons.mp present with rfl | present
    · exact ⟨c,there,pointer,room⟩
    · exact tracked.live k (mem_dropped.mp present).1
  · refine List.nodup_cons.mpr ⟨fun present => ?_,dropped_once tracked.liveOnce _⟩
    obtain ⟨k,present,same⟩ := List.mem_map.mp present
    exact (mem_dropped.mp present).2 same
  · intro i a present k present'
    rcases List.mem_cons.mp present' with rfl | present'
    · exact tracked.apart i a present l listed
    · exact tracked.apart i a present k (mem_dropped.mp present').1

theorem live_bytes {l : Nat × Nat} {c : Chunk} (pointer : l.1 = chunkGetPointer c.addr) (room : l.2 ≤ c.cap) (inside : i < l.2) :
    chunkGetPointer c.addr ≤ l.1+i ∧ l.1+i < c.stop := by
  simp only [Chunk.stop,chunkGetPointer] at *
  omega

theorem move_spec (inv : Inv set h s) (listed : l ∈ s.live) (there : c ∈ s.chunks) (pointer : l.1 = chunkGetPointer c.addr)
    (room : l.2 ≤ c.cap) (grows : c.cap < size) (allocated : Allocated set h s size p h₁ s₁) :
    Ends (fun h' => ∃ s', Resized set h s l size p h' s') (allocSetFree {h₁ with mem:=copy h₁.mem p l.1 c.cap} l.1) := by
  obtain ⟨inv₁,live₁,chunks₁,bytes₁⟩ := allocated
  have listed₁ : l ∈ s₁.live := by rw [live₁]; exact List.mem_cons_of_mem _ listed
  obtain ⟨c',there',_,_,_,pointer',room',_⟩ := live_header inv₁ (l:=(p,size)) (by rw [live₁]; exact List.mem_cons_self ..)
  simp only at pointer' room'
  have once := inv₁.tracked.liveOnce
  rw [live₁,List.map_cons,List.nodup_cons] at once
  have apart : ∀ k ∈ s.live, k.1 ≠ p := fun k present same => once.1 (List.mem_map.mpr ⟨k,present,same⟩)
  -- The copy stays within the new payload.
  have inv₂ : Inv set {h₁ with mem:=copy h₁.mem p l.1 c.cap} s₁ := by
    refine inv₁.frame fun g header x low high => copy_other ?_
    have off := inv₁.placed.payload_apart header there'
    simp only [Memory.Apart,chunkGetPointer] at off pointer'
    omega
  have copied : ∀ d ∈ s.chunks, d.addr ≠ c'.addr → ∀ x, chunkGetPointer d.addr ≤ x → x < d.stop →
      copy h₁.mem p l.1 c.cap x = h.mem x := by
    intro d present other x low high
    have off := inv₁.placed.chunk_apart (chunks₁ d present) there' other
    rw [copy_other,bytes₁ d present x low high]
    simp only [Chunk.stop,chunkGetPointer] at *
    omega
  have run := allocSetFree_spec inv₂ listed₁
  cases freed : allocSetFree {h₁ with mem:=copy h₁.mem p l.1 c.cap} l.1 with
  | error e =>
    rw [freed] at run
    exact run
  | ok h₂ =>
    rw [freed] at run
    obtain ⟨s₂,inv',live',_,bytes'⟩ := run
    refine ⟨s₂,inv',?_,?_,?_⟩
    · rw [live',live₁,dropped,List.filter_cons_of_pos (by simpa using (apart l listed).symm)]
      rfl
    · intro i below
      have inside := live_bytes (i:=i) pointer room (by omega)
      have inside' : chunkGetPointer c'.addr ≤ p+i ∧ p+i < c'.stop := by
        simp only [Chunk.stop,chunkGetPointer] at *
        omega
      rw [bytes' c' there' _ inside'.1 inside'.2]
      change copy h₁.mem p l.1 c.cap (p+i) = _
      rw [copy_inside (by omega) (by omega),Nat.add_sub_cancel_left]
      exact bytes₁ c there _ inside.1 inside.2
    · intro k present other i below
      obtain ⟨d,present',pointer'',room''⟩ := inv.tracked.live k present
      have inside := live_bytes pointer'' room'' below
      rw [bytes' d (chunks₁ d present') _ inside.1 inside.2]
      refine copied d present' (fun same => apart k present ?_) _ inside.1 inside.2
      rw [pointer'',same,pointer']

theorem find_region {regions : List (Nat × Nat)} (once : (regions.map Prod.fst).Nodup) (given : (p,n) ∈ regions) :
    regions.find? (fun r => r.1 = p) = some (p,n) := by
  induction regions with
  | nil => simp at given
  | cons r rest ih =>
    rw [List.map_cons,List.nodup_cons] at once
    rcases List.mem_cons.mp given with rfl | later
    · simp
    · have other : r.1 ≠ p := fun same => once.1 (by rw [same]; exact List.mem_map.mpr ⟨(p,n),later,rfl⟩)
      rw [List.find?_cons_of_neg (by simpa using other)]
      exact ih once.2 later

def relink (m : Mem) (set base n : Nat) : Mem :=
  let m := put m (endptr base) (base+n)
  let m := put m (freeptr base) (base+n)
  let m := if get m (pres base) ≠ 0 then put m (next (get m (pres base))) base else put m (blocks set) base
  if get m (next base) ≠ 0 then put m (pres (get m (next base))) base else m

def Shape.reattach (s : Shape) (front back : List Block) (c : Chunk) (base n size : Nat) : Shape :=
  (s.detach front back c).own (front++ownBlock base n :: back) base n size

-- What malloc's realloc leaves in the new region and elsewhere.
structure Moved (h : Heap) (p k base n : Nat) (m : Mem) : Prop where
  front : ∀ i < min k n, m (base+i) = h.mem (p+i)
  outside : ∀ x, x < base ∨ base+n ≤ x → m x = h.mem x

theorem Moved.get (moved : Moved h p k base n m) (off : Nat) (home home' : Header) (start : home.start = base+off)
    (start' : home'.start = p+off) (inside : off+(o+8) ≤ min k n) (width : (Field.mk home o).width = (Field.mk home' o).width) :
    get m ⟨home,o⟩ = get h.mem ⟨home',o⟩ := by
  have narrow := (Field.mk home' o).width_le
  unfold Asctx.get load
  rw [width]
  congr 1
  refine List.map_congr_left fun i below => ?_
  have small := List.mem_range.mp below
  have here := moved.front (off+o+i) (by omega)
  simp only [Field.addr,start,start']
  rw [show base+off+o+i = base+(off+o+i) by omega,here]
  congr 1
  omega

theorem relink_reads {s' : Shape} (placed : Placed set s') (own : ∃ k ∈ s'.blocks, k.base = base) (top : base+n < 2^64)
    (before : get m₀ (pres base) = p) (after : get m₀ (next base) = nx) (pBlock : ∃ k ∈ s'.blocks, k.base = p)
    (nBlock : nx ≠ 0 → ∃ k ∈ s'.blocks, k.base = nx) (pSome : p ≠ 0) (pOther : p ≠ base) :
    ∃ m, relink m₀ set base n = m ∧ (∀ g, s'.Valid set g → get m g =
      if nx ≠ 0 ∧ pres nx = g then base else if next p = g then base else if freeptr base = g then base+n
      else if endptr base = g then base+n else get m₀ g) ∧
    ∀ d ∈ s'.chunks, ∀ x, chunkGetPointer d.addr ≤ x → x < d.stop → m x = m₀ x := by
  have small : base < 2^64 := by omega
  obtain ⟨m₁,run₁⟩ : ∃ m₁, m₁ = put (put (put m₀ (endptr base) (base+n)) (freeptr base) (base+n)) (next p) base := ⟨_,rfl⟩
  have reads₁ : ∀ g, s'.Valid set g → get m₁ g = if next p = g then base
      else if freeptr base = g then base+n else if endptr base = g then base+n else get m₀ g := by
    intro g valid
    rw [run₁,placed.get_put (by simpa using pBlock) valid small,placed.get_put (by simpa using own) valid top,
      placed.get_put (by simpa using own) valid top]
  have presKept : get (put (put m₀ (endptr base) (base+n)) (freeptr base) (base+n)) (pres base) = p := by
    rw [placed.get_put (by simpa using own) (by simpa using own) top,placed.get_put (by simpa using own) (by simpa using own) top]
    simpa using before
  have nextKept : get m₁ (next base) = nx := by
    rw [reads₁ _ (by simpa using own)]
    simpa [pOther] using after
  refine ⟨if nx ≠ 0 then put m₁ (pres nx) base else m₁,?_,fun g valid => ?_,fun d there x low high => ?_⟩
  · rw [run₁] at nextKept
    simp only [relink,presKept,nextKept,ne_eq,pSome,not_false_eq_true,if_true,run₁]
  · rw [← reads₁ g valid]
    by_cases zero : nx = 0
    · simp [zero]
    · simp only [ne_eq,zero,not_false_eq_true,if_true,true_and]
      rw [placed.get_put (by simpa using nBlock zero) valid small]
  · have first : m₁ x = m₀ x := by
      rw [run₁,placed.put_payload (by simpa using pBlock) there low high,placed.put_payload (by simpa using own) there low high,
        placed.put_payload (by simpa using own) there low high]
    rw [← first]
    split
    · rename_i nonzero
      exact placed.put_payload (by simpa using nBlock nonzero) there low high
    · rfl

theorem relink_spec (inv : Inv set h s) (there : c ∈ s.chunks) (external : c.ext = true)
    (split : s.blocks = front++b :: back) (behind : front ≠ []) (inside : c.Inside b) (at' : c.addr = b.base+allocBlockSize)
    (only : ∀ d ∈ s.chunks, d.Inside b → d = c) (pointer : l.1 = chunkGetPointer c.addr) (room : l.2 ≤ c.cap)
    (fits : f.Fits n (without h.regions b.base)) (roomy : allocBlockSize+allocChunkSize+size ≤ n)
    (moved : Moved h b.base (b.stop-b.base) f.base n m₀) :
    Resized set h s l size (chunkGetPointer (f.base+allocBlockSize))
      ⟨relink m₀ set f.base n,(f.base,n) :: without h.regions b.base⟩ (s.reattach front back c f.base n size) := by
  -- Without the old block, everything is as after releasing it.
  have gone := (unlink_spec inv there external split behind inside at' only).inv
  have own : b ∈ s.blocks := by rw [split]; exact List.mem_append_right _ (List.mem_cons_self ..)
  obtain ⟨p,nx,place⟩ := between inv split behind
  obtain ⟨m₁,unlinked,reads₁,_⟩ := unlink_reads inv own place
  rw [unlinked] at gone
  obtain ⟨clear,clearSet⟩ := gone.backed.fresh gone.placed fits
  have positive : 0 < n := by simp only [allocBlockSize] at roomy; omega
  have granted : Inv set ⟨m₁,(f.base,n) :: without h.regions b.base⟩ (s.detach front back c) :=
    ⟨gone.placed,gone.held,gone.tracked,gone.backed.grant fits positive⟩
  have cleared : Clear set (s.detach front back c) ⟨m₁,(f.base,n) :: without h.regions b.base⟩ f.base n :=
    ⟨List.mem_cons_self ..,fits.1,fits.2.1,clear,clearSet⟩
  have order : (front++ownBlock f.base n :: back).Perm (ownBlock f.base n :: (front++back)) := List.perm_middle
  have long : allocBlockSize+allocChunkSize ≤ n := Nat.le_trans (Nat.le_add_right _ _) roomy
  have placed' : Placed set (s.reattach front back c f.base n size) := gone.placed.own cleared long order size
  have ext : Extends (s.detach front back c) (s.reattach front back c f.base n size) := extends_own order size
  have back' : Extends (s.detach front back c) s :=
    ⟨fun k present => ⟨k,(place.rest k present).1,rfl⟩,fun d present => List.mem_of_mem_filter present,rfl⟩
  have high := inside.high
  have whole := inv.placed.fits b own
  simp only [allocBlockSize,allocChunkSize] at roomy long
  have span : 56+c.cap ≤ b.stop-b.base := by
    simp only [Chunk.stop,at',allocBlockSize,allocChunkSize] at high
    omega
  have goneBases : (s.detach front back c).bases = front.map Block.base++back.map Block.base := by
    simp only [Shape.bases,Shape.detach,List.map_append]
  have listed : ∀ a ∈ front.map Block.base++back.map Block.base, a ∈ (s.detach front back c).bases := fun a present => by rwa [goneBases]
  have others : ∀ a ∈ front.map Block.base++back.map Block.base, f.base ≠ a := fun a present =>
    cleared.base_new gone.placed positive (listed a present)
  have ownB : ∃ k ∈ (s.reattach front back c f.base n size).blocks, k.base = f.base :=
    ⟨ownBlock f.base n,List.mem_append_right _ (List.mem_cons_self ..),rfl⟩
  have ownC : ∃ d ∈ (s.reattach front back c f.base n size).chunks, d.addr = f.base+allocBlockSize := ⟨_,List.mem_cons_self ..,rfl⟩
  -- What the moved memory holds: the old block's words, and all the rest as before.
  have rest : ∀ g, (s.detach front back c).Valid set g → get m₀ g = get h.mem g := fun g valid =>
    Placed.get_frame (fun x low high => moved.outside x (gone.backed.header_outside gone.placed fits valid.1 low high)) valid
  have ownWord : ∀ o, o+8 ≤ 40 → get m₀ ⟨.block f.base,o⟩ = get h.mem ⟨.block b.base,o⟩ := fun o small =>
    moved.get 0 _ _ rfl rfl (by omega) rfl
  have ownMask : get m₀ (mask (f.base+allocBlockSize)) = externalMask := by
    have header := inv.held.masks c there
    rw [Chunk.mask,external,if_pos rfl,at'] at header
    rw [← header]
    exact moved.get allocBlockSize _ _ rfl rfl (by simp only [allocBlockSize]; omega) rfl
  have ownPres : get m₀ (pres f.base) = p := (ownWord 8 (by decide)).trans place.before
  have ownNext : get m₀ (next f.base) = nx := (ownWord 16 (by decide)).trans place.after
  have ownSet : get m₀ (blockSet f.base) = set := (ownWord 0 (by decide)).trans (inv.held.fields b own).1
  have pListed := List.mem_append_left (back.map Block.base) place.pListed
  have nListed : nx ≠ 0 → nx ∈ front.map Block.base++back.map Block.base := fun nonzero => List.mem_append_right _ (place.nListed nonzero)
  have pBlock := ext.base (listed p pListed)
  have nBlock := fun nonzero => ext.base (listed nx (nListed nonzero))
  have pOther : p ≠ f.base := (others p pListed).symm
  have nOther : nx ≠ 0 → nx ≠ f.base := fun nonzero => (others nx (nListed nonzero)).symm
  obtain ⟨m,linked,reads,payload⟩ := relink_reads placed' ownB fits.2.1 ownPres ownNext pBlock nBlock place.pSome pOther
  rw [linked]
  refine ⟨granted.own cleared (by simp only [allocBlockSize,allocChunkSize]; omega) order ?_ ?_ ?_ ?_ ?_ fun g valid plain => ?_,
    by rw [pointer]; rfl,fun i below => ?_,fun k present other i below => ?_⟩
  · obtain ⟨k,tail,head,normal⟩ := inv.backed.head
    cases front with
    | nil => exact absurd rfl behind
    | cons k' front =>
      rw [split,List.cons_append] at head
      obtain ⟨rfl,_⟩ := List.cons.inj head
      exact ⟨k',front++ownBlock f.base n :: back,rfl,normal⟩
  · have head := rest (blocks set) (by simp)
    rw [inv.held.head,place.bases] at head
    rw [reads _ (by simp)]
    cases front with
    | nil => exact absurd rfl behind
    | cons k front => simpa using head
  · rw [List.map_append,List.map_cons]
    refine Row.replace place.row place.nodup place.positive ?_ ?_ ?_ ?_ ?_ ?_
    · rw [place.after]
      change get m (next f.base) = nx
      rw [reads _ (by simpa using ownB)]
      simpa [pOther] using ownNext
    · rw [place.before]
      change get m (pres f.base) = p
      rw [reads _ (by simpa using ownB)]
      by_cases zero : nx = 0
      · simpa [zero] using ownPres
      · simpa [nOther zero] using ownPres
    · rw [place.before]
      intro _
      change get m (next p) = f.base
      rw [reads _ (by simpa using pBlock)]
      simp
    · rw [place.after]
      intro nonzero
      change get m (pres nx) = f.base
      rw [reads _ (by simpa using nBlock nonzero)]
      simp [nonzero]
    · rw [place.before]
      intro a present other
      rw [reads _ (by simpa using ext.base (listed a present))]
      have kept := rest (next a) (by simpa using List.mem_map.mp (listed a present))
      simpa [Ne.symm other] using kept
    · rw [place.after]
      intro a present other
      rw [reads _ (by simpa using ext.base (listed a present))]
      have kept := rest (pres a) (by simpa using List.mem_map.mp (listed a present))
      simpa [Ne.symm other] using kept
  · rw [reads _ (by simpa using ownB),reads _ (by simpa using ownB),reads _ (by simpa using ownB)]
    simpa using ownSet
  · rw [reads _ (by simpa using ownC)]
    simpa using ownMask
  · have notOwn : ∀ o,(⟨.block f.base,o⟩ : Field) ≠ g := by
      rintro o rfl
      obtain ⟨k,present,same⟩ := valid.1
      exact cleared.base_new gone.placed positive (List.mem_map.mpr ⟨k,present,rfl⟩) same.symm
    rw [reads _ (ext.valid valid),if_neg (fun both => plain.pres nx both.2),if_neg (plain.next p),if_neg (notOwn 24),if_neg (notOwn 32),
      rest g valid,reads₁ g (back'.valid valid),if_neg (fun both => plain.pres nx both.2),if_neg (plain.next p)]
  · -- The payload came along.
    have place' : chunkGetPointer (f.base+allocBlockSize)+i = f.base+(56+i) := by
      simp only [chunkGetPointer,allocBlockSize,allocChunkSize]
      omega
    have place'' : l.1+i = b.base+(56+i) := by
      simp only [pointer,at',chunkGetPointer,allocBlockSize,allocChunkSize]
      omega
    have copied : m₀ (chunkGetPointer (f.base+allocBlockSize)+i) = h.mem (l.1+i) := by
      rw [place',place'']
      exact moved.front _ (by omega)
    change m _ = _
    rw [← copied]
    refine payload (ownChunk f.base n) (List.mem_cons_self ..) _ (Nat.le_add_right _ _) ?_
    simp only [ownChunk,Chunk.stop,chunkGetPointer,allocBlockSize,allocChunkSize]
    omega
  · obtain ⟨d,there',pointer',room'⟩ := gone.tracked.live k (mem_dropped.mpr ⟨present,by rw [← pointer]; exact other⟩)
    have inside' := live_bytes pointer' room' below
    have out := gone.backed.payload_outside gone.placed fits there' (x:=k.1+i)
      (by have := inside'.1; simp only [chunkGetPointer] at this; omega) inside'.2
    change m _ = _
    rw [payload d (ext.chunks d there') _ inside'.1 inside'.2]
    exact moved.outside _ out

theorem resize_spec (region : (p,k) ∈ h.regions) (once : (h.regions.map Prod.fst).Nodup) (n : Nat) :
    Ends (fun h' => h'.regions = (f.base,n) :: without h.regions p ∧ f.Fits n (without h.regions p) ∧
      Moved h p k f.base n h'.mem) (resize h p n f) := by
  simp only [resize,find_region once region]
  split
  · rename_i fits
    refine Ends.ok ⟨rfl,fits,fun i below => ?_,fun x out => ?_⟩
    · have low : f.base ≤ f.base+i ∧ f.base+i < f.base+min k n := by omega
      simp only [if_pos low,Nat.add_sub_cancel_left]
    · have other : ¬(f.base ≤ x ∧ x < f.base+min k n) := by omega
      simp only [if_neg other]
      exact fill_other out
  · exact rfl

theorem realloc_external (inv : Inv set h s) (there : c ∈ s.chunks) (own : b ∈ s.blocks)
    (inside : c.Inside b) (pointer : l.1 = chunkGetPointer c.addr) (room : l.2 ≤ c.cap) (external : c.ext = true)
    (header : get h.mem (mask c.addr) = c.mask) (fits : size+allocBlockSize+allocChunkSize+7 < 2^64) :
    Ends (fun r => ∃ s', Resized set h s l size r.1 r.2 s') (allocSetRealloc h l.1 size f) := by
  have chunk : pointerGetChunk l.1 = c.addr := by
    rw [pointer,pointerGetChunk,chunkGetPointer,Nat.add_sub_cancel]
  obtain ⟨set',_,_⟩ := inv.held.fields b own
  have flag : chunkIsExternal h.mem c.addr = true := by
    simp only [chunkIsExternal,header,Chunk.mask,external,if_true]
    exact externalMask_external.1
  obtain ⟨front,back,split,behind,at',only,region⟩ := external_place inv there own inside external
  have block : externalGetBlock c.addr = b.base := by rw [at',externalGetBlock,Nat.add_sub_cancel]
  have sum : u64 (size+allocBlockSize+allocChunkSize) = size+allocBlockSize+allocChunkSize := u64_of_lt (by omega)
  obtain ⟨lower,_⟩ := maxalign_bounds (n:=size+allocBlockSize+allocChunkSize) (by omega)
  unfold allocSetRealloc
  simp only [chunk,flag,if_true,block,set',sum]
  generalize maxalign (size+allocBlockSize+allocChunkSize) = n at lower
  refine (resize_spec (f:=f) region inv.backed.once n).bind ?_
  rintro ⟨m₀,regions⟩ ⟨same,fresh,moved⟩
  simp only at same moved
  have roomy : allocBlockSize+allocChunkSize+size ≤ n := by omega
  have resized := relink_spec inv there external split behind inside at' only pointer room fresh roomy moved
  rw [← same] at resized
  exact Ends.ok ⟨_,resized⟩

theorem realloc_normal (inv : Inv set h s) (listed : l ∈ s.live) (there : c ∈ s.chunks) (own : b ∈ s.blocks)
    (inside : c.Inside b) (pointer : l.1 = chunkGetPointer c.addr) (room : l.2 ≤ c.cap) (normal : c.ext = false)
    (header : get h.mem (mask c.addr) = c.mask) (fits : size+allocBlockSize+allocChunkSize+7 < 2^64) :
    Ends (fun r => ∃ s', Resized set h s l size r.1 r.2 s') (allocSetRealloc h l.1 size f) := by
  have chunk : pointerGetChunk l.1 = c.addr := by
    rw [pointer,pointerGetChunk,chunkGetPointer,Nat.add_sub_cancel]
  obtain ⟨set',_,_⟩ := inv.held.fields b own
  obtain ⟨i,small,cap,plain,offset,value⟩ := mask_normal inside normal
  have flag : chunkIsExternal h.mem c.addr = false := by simp only [chunkIsExternal,header,plain]
  have block : chunkGetBlock h.mem c.addr = b.base := by simp only [chunkGetBlock,header,offset]
  have run := allocSetAlloc_spec (f:=f) inv fits
  unfold allocSetRealloc
  simp only [chunk,flag,Bool.false_eq_true,if_false,block,set',header,value]
  by_cases fitting : c.cap ≥ size
  · rw [if_pos fitting]
    exact Ends.ok ⟨_,keep_spec inv listed there pointer fitting⟩
  · rw [if_neg fitting]
    refine run.bind ?_
    rintro ⟨p,h₁⟩ ⟨s₁,allocated⟩
    refine (move_spec inv listed there pointer room (by omega) allocated).bind ?_
    rintro h₂ ⟨s₂,resized⟩
    exact Ends.ok ⟨s₂,resized⟩

theorem allocSetRealloc_spec (inv : Inv set h s) (listed : l ∈ s.live) (fits : size+allocBlockSize+allocChunkSize+7 < 2^64) :
    Ends (fun r => ∃ s', Resized set h s l size r.1 r.2 s') (allocSetRealloc h l.1 size f) := by
  obtain ⟨c,there,b,own,inside,pointer,room,header⟩ := live_header inv listed
  cases external : c.ext with
  | true => exact realloc_external inv there own inside pointer room external header fits
  | false => exact realloc_normal inv listed there own inside pointer room external header fits

end realloc

end TinyLlama.Asctx
