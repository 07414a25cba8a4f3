import TinyLlama.Asctx.Alloc

namespace TinyLlama.Asctx
open Memory Linked

theorem maxalign_bounds (fits : n+7 < 2^64) : n ≤ maxalign n ∧ maxalign n ≤ n+7 := by
  rw [maxalign,u64_of_lt fits]
  omega

section large
variable {set : Nat} {s : Shape} {h : Heap} {f : Fresh}

def linkLarge (m : Mem) (set base n : Nat) : Mem :=
  let m := put m (blockSet base) set
  let m := put m (endptr base) (base+n)
  let m := put m (freeptr base) (base+n)
  let m := put m (mask (base+allocBlockSize)) externalMask
  let head := get m (blocks set)
  if head ≠ 0 then
    let m := put m (pres base) head
    let m := put m (next base) (get m (next head))
    let m := if get m (next base) ≠ 0 then put m (pres (get m (next base))) base else m
    put m (next head) base
  else
    let m := put m (pres base) 0
    let m := put m (next base) 0
    put m (blocks set) base

theorem linkLarge_reads (inv : Inv set h s) (clear : Clear set s h base n) (head : s.blocks = b :: rest) {all : List Block}
    (order : all.Perm (ownBlock base n :: s.blocks)) (placed : Placed set (s.own all base n size))
    (after : get h.mem (next b.base) = nx) (nxListed : nx ≠ 0 → nx ∈ s.bases) (other : base ≠ b.base) :
    ∃ m, linkLarge h.mem set base n = m ∧ (∀ g, (s.own all base n size).Valid set g → get m g =
      if next b.base = g then base else if nx ≠ 0 ∧ pres nx = g then base else if next base = g then nx
      else if pres base = g then b.base else if mask (base+allocBlockSize) = g then externalMask
      else if freeptr base = g then base+n else if endptr base = g then base+n else if blockSet base = g then set else get h.mem g) ∧
    ∀ c ∈ s.chunks, ∀ x, chunkGetPointer c.addr ≤ x → x < c.stop → m x = h.mem x := by
  have ext := extends_own order size
  have listed : b ∈ s.blocks := by rw [head]; exact List.mem_cons_self ..
  have inSet := inv.placed.setInside
  have top := clear.top
  have own : ∃ k ∈ (s.own all base n size).blocks, k.base = base := ⟨ownBlock base n,order.mem_iff.mpr (List.mem_cons_self ..),rfl⟩
  have ownCut : ∃ c ∈ (s.own all base n size).chunks, c.addr = base+allocBlockSize := ⟨_,List.mem_cons_self ..,rfl⟩
  have headBlock := ext.blocks b listed
  have nxBlock : nx ≠ 0 → ∃ k ∈ (s.own all base n size).blocks, k.base = nx := fun some' => ext.base (nxListed some')
  have small : b.base < 2^64 := by have := inv.placed.fits b listed; omega
  have nxSmall : nx < 2^64 := by rw [← after]; exact get_lt _ _
  have fixed : externalMask < 2^64 := externalMask_external.2
  have first : get h.mem (blocks set) = b.base := by
    rw [inv.held.head,Shape.bases,head]
    rfl
  have headSome : b.base ≠ 0 := by have := (inv.placed.fits b listed).1; omega
  -- The words written, the last first.
  obtain ⟨m₁,run₁⟩ : ∃ m₁, m₁ = put (put (put (put (put (put h.mem (blockSet base) set) (endptr base) (base+n))
    (freeptr base) (base+n)) (mask (base+allocBlockSize)) externalMask) (pres base) b.base) (next base) nx := ⟨_,rfl⟩
  have reads₁ : ∀ g, (s.own all base n size).Valid set g → get m₁ g =
      if next base = g then nx else if pres base = g then b.base
      else if mask (base+allocBlockSize) = g then externalMask else if freeptr base = g then base+n
      else if endptr base = g then base+n else if blockSet base = g then set else get h.mem g := by
    intro g valid
    rw [run₁,placed.get_put (by simpa using own) valid nxSmall,placed.get_put (by simpa using own) valid small,
      placed.get_put (by simpa using ownCut) valid fixed,placed.get_put (by simpa using own) valid top,
      placed.get_put (by simpa using own) valid top,placed.get_put (by simpa using own) valid (show set < 2^64 by omega)]
  obtain ⟨m,run⟩ : ∃ m, m = put (if nx ≠ 0 then put m₁ (pres nx) base else m₁) (next b.base) base := ⟨_,rfl⟩
  have whole : linkLarge h.mem set base n = m := by
    have head' : get (put (put (put (put h.mem (blockSet base) set) (endptr base) (base+n)) (freeptr base) (base+n))
        (mask (base+allocBlockSize)) externalMask) (blocks set) = b.base := by
      rw [placed.get_put (by simpa using ownCut) (by simp) fixed,placed.get_put (by simpa using own) (by simp) top,
        placed.get_put (by simpa using own) (by simp) top,placed.get_put (by simpa using own) (by simp) (show set < 2^64 by omega)]
      simpa using first
    have headNext : get (put (put (put (put (put h.mem (blockSet base) set) (endptr base) (base+n)) (freeptr base) (base+n))
        (mask (base+allocBlockSize)) externalMask) (pres base) b.base) (next b.base) = nx := by
      rw [placed.get_put (by simpa using own) (by simpa using headBlock) small,
        placed.get_put (by simpa using ownCut) (by simpa using headBlock) fixed,
        placed.get_put (by simpa using own) (by simpa using headBlock) top,
        placed.get_put (by simpa using own) (by simpa using headBlock) top,
        placed.get_put (by simpa using own) (by simpa using headBlock) (show set < 2^64 by omega)]
      simpa [other] using after
    have behind : get m₁ (next base) = nx := by
      rw [reads₁ _ (by simpa using own)]
      simp
    rw [run₁] at behind
    rw [run,run₁]
    simp only [linkLarge,head',headNext,behind,ne_eq,headSome,not_false_eq_true,if_true]
  refine ⟨m,whole,fun g valid => ?_,fun c there x low high => ?_⟩
  · rw [run,placed.get_put (by simpa using headBlock) valid (show base < 2^64 by omega),← reads₁ g valid]
    by_cases some' : nx = 0
    · simp [some']
    · simp only [ne_eq,some',not_false_eq_true,if_true,true_and]
      rw [placed.get_put (by simpa using nxBlock some') valid (show base < 2^64 by omega)]
  · have there' := ext.chunks c there
    have first' : m₁ x = h.mem x := by
      rw [run₁,placed.put_payload (by simpa using own) there' low high,placed.put_payload (by simpa using own) there' low high,
        placed.put_payload (by simpa using ownCut) there' low high,placed.put_payload (by simpa using own) there' low high,
        placed.put_payload (by simpa using own) there' low high,placed.put_payload (by simpa using own) there' low high]
    rw [run,placed.put_payload (by simpa using headBlock) there' low high,← first']
    split
    · rename_i some'
      exact placed.put_payload (by simpa using nxBlock some') there' low high
    · rfl

theorem linkLarge_spec (inv : Inv set h s) (clear : Clear set s h base n) (roomy : allocBlockSize+allocChunkSize+size ≤ n) :
    ∃ s', Allocated set h s size (chunkGetPointer (base+allocBlockSize)) {h with mem:=linkLarge h.mem set base n} s' := by
  obtain ⟨b,rest,head,normal⟩ := inv.backed.head
  have placed := inv.placed
  have order : (b :: ownBlock base n :: rest).Perm (ownBlock base n :: s.blocks) := by
    rw [head]; exact .swap ..
  have ext := extends_own order size
  have bases : s.bases = b.base :: rest.map Block.base := by rw [Shape.bases,head]; rfl
  have first : b.base ∈ s.bases := by rw [bases]; exact List.mem_cons_self ..
  have long : 0 < n := by simp only [allocBlockSize] at roomy; omega
  have others : ∀ a ∈ s.bases, base ≠ a := fun a present => clear.base_new placed long present
  have headOther := others b.base first
  have row := inv.held.row
  have nodup := placed.bases_nodup
  have some' := placed.base_positive
  rw [bases] at row nodup some'
  have headSome : b.base ≠ 0 := fun zero => some' (by rw [zero]; exact List.mem_cons_self ..)
  -- The block behind the head, if any.
  obtain ⟨nx,after⟩ : ∃ nx, nx = (rest.map Block.base).headD 0 := ⟨_,rfl⟩
  have second : get h.mem (next b.base) = nx := by
    rw [after]
    exact (@Row.neighbours _ _ [] _ _ row headSome).2
  have nxListed : nx ≠ 0 → nx ∈ s.bases := by
    intro nonzero
    rw [bases]
    cases tail : rest.map Block.base with
    | nil => simp [after,tail] at nonzero
    | cons y more => simp [after,tail]
  have placed' := placed.own clear (Nat.le_trans (Nat.le_add_right _ _) roomy) order size
  obtain ⟨m,whole,reads,payload⟩ := linkLarge_reads inv clear head order placed' second nxListed headOther
  rw [whole]
  have own : ∃ k ∈ (s.own (b :: ownBlock base n :: rest) base n size).blocks, k.base = base :=
    ⟨_,List.mem_cons_of_mem _ (List.mem_cons_self ..),rfl⟩
  have ownCut : ∃ c ∈ (s.own (b :: ownBlock base n :: rest) base n size).chunks, c.addr = base+allocBlockSize :=
    ⟨_,List.mem_cons_self ..,rfl⟩
  refine ⟨s.own (b :: ownBlock base n :: rest) base n size,inv.own clear roomy order ⟨_,_,rfl,normal⟩ ?_ ?_ ?_ ?_ ?_,rfl,ext.chunks,payload⟩
  · rw [reads _ (by simp)]
    simpa [bases] using inv.held.head
  · change BlockRow _ ([b.base]++base :: rest.map Block.base)
    have tail : ∀ a ∈ [b.base]++rest.map Block.base, a ∈ s.bases := fun a present => by rw [bases]; exact present
    refine @Row.insert _ _ _ _ [b.base] _ _ row nodup some' ?_ ?_ ?_ ?_ ?_ ?_
    · rw [reads _ (by simpa using own),← after]
      simp [headOther.symm]
    · rw [reads _ (by simpa using own)]
      have other : nx ≠ 0 → ¬nx = base := fun nonzero same => others nx (nxListed nonzero) same.symm
      by_cases zero : nx = 0
      · simp [zero]
      · simp [other zero]
    · intro _
      change get _ (next b.base) = base
      rw [reads _ (by simpa using ext.base first)]
      simp
    · rw [← after]
      intro nonzero
      rw [reads _ (by simpa using ext.base (nxListed nonzero))]
      simp [nonzero]
    · intro a present other
      rw [reads _ (by simpa using ext.base (tail a present))]
      have apart : ¬b.base = a := fun same => other same.symm
      simp [apart,others a (tail a present)]
    · intro a present other
      rw [← after] at other
      rw [reads _ (by simpa using ext.base (tail a present))]
      simp [Ne.symm other,others a (tail a present)]
  · rw [reads _ (by simpa using own),reads _ (by simpa using own),reads _ (by simpa using own)]
    simp
  · rw [reads _ (by simpa using ownCut)]
    simp
  · intro g valid plain
    have notOwn : ∀ o,(⟨.block base,o⟩ : Field) ≠ g := by
      rintro o rfl
      obtain ⟨k,there,same⟩ := valid.1
      exact others k.base (List.mem_map.mpr ⟨k,there,rfl⟩) same.symm
    have notCut : mask (base+allocBlockSize) ≠ g := by
      rintro rfl
      obtain ⟨c,there,same⟩ := valid.1
      exact clear.chunk_new placed (by simp only [allocBlockSize,allocChunkSize] at *; omega) there same
    rw [reads _ (ext.valid valid),if_neg (plain.next _),if_neg (fun both => plain.pres nx both.2),if_neg (notOwn 16),
      if_neg (notOwn 8),if_neg notCut,if_neg (notOwn 24),if_neg (notOwn 32),if_neg (notOwn 0)]

-- Two steps of one allocation: the first changes the shape without handing anything out.
theorem Allocated.after {h₁ h' : Heap} {s₁ s' : Shape} (second : Allocated set h₁ s₁ size p h' s') (live : s₁.live = s.live)
    (chunks : s₁.chunks = s.chunks)
    (bytes : ∀ c ∈ s.chunks, ∀ x, chunkGetPointer c.addr ≤ x → x < c.stop → h₁.mem x = h.mem x) :
    Allocated set h s size p h' s' := by
  refine ⟨second.inv,by rw [second.live,live],?_,?_⟩
  · rw [← chunks]
    exact second.chunks
  · intro c there x low high
    rw [second.bytes c (by rw [chunks]; exact there) x low high]
    exact bytes c there x low high

theorem allocLarge_spec (inv : Inv set h s) (fits : size+allocBlockSize+allocChunkSize+7 < 2^64) :
    Ends (fun r => ∃ s', Allocated set h s size r.1 r.2 s') (allocLarge h set size f) := by
  have sum : u64 (size+allocBlockSize+allocChunkSize) = size+allocBlockSize+allocChunkSize := u64_of_lt (by omega)
  obtain ⟨lower,_⟩ := maxalign_bounds (n:=size+allocBlockSize+allocChunkSize) (by omega)
  rw [← sum] at lower
  rw [sum] at lower
  have positive : 0 < maxalign (u64 (size+allocBlockSize+allocChunkSize)) := by
    rw [sum]
    simp only [allocBlockSize] at *
    omega
  refine (malloc_spec (f:=f) inv positive).bind ?_
  rintro h₁ ⟨inv₁,clear,bytes⟩
  obtain ⟨s',done⟩ := linkLarge_spec inv₁ clear (show allocBlockSize+allocChunkSize+size ≤ _ by rw [sum]; omega)
  exact ⟨s',done.after rfl rfl bytes⟩

theorem allocNewBlock_spec (inv : Inv set h s) (small : i < allocFreelistsNum) (asked : size ≤ sizeFromFreeListIdx i) :
    Ends (fun r => ∃ s', Allocated set h s size r.1 r.2 s') (allocNewBlock h set (sizeFromFreeListIdx i) f) := by
  obtain ⟨_,limit⟩ := sizeFromFreeListIdx_small small
  have limit' : sizeFromFreeListIdx i ≤ 8192 := limit
  have grow := inv.held.grow
  obtain ⟨next',value⟩ : ∃ v, v = if get h.mem (nextBlockSize set) > defaultMaxBlockSize/2 then defaultMaxBlockSize
    else get h.mem (nextBlockSize set)*2 := ⟨_,rfl⟩
  have bound : next' ≤ 2^30 := by
    rw [value]
    split <;> simp only [defaultMaxBlockSize] at * <;> omega
  obtain ⟨inv₀,bytes₀⟩ := setNext_spec inv bound
  obtain ⟨n,length⟩ : ∃ n, n = if get h.mem (nextBlockSize set) < sizeFromFreeListIdx i+allocBlockSize+allocChunkSize
    then sizeFromFreeListIdx i+allocBlockSize+allocChunkSize else get h.mem (nextBlockSize set) := ⟨_,rfl⟩
  have enough : sizeFromFreeListIdx i+allocBlockSize+allocChunkSize ≤ n ∧ n ≤ 2^30 := by
    rw [length]
    split <;> simp only [allocBlockSize,allocChunkSize] at * <;> omega
  unfold allocNewBlock
  dsimp only
  rw [← value,← length]
  refine (malloc_spec (f:=f) inv₀ (show 0 < n by simp only [allocBlockSize] at enough; omega)).bind ?_
  rintro h₁ ⟨inv₁,clear,bytes₁⟩
  obtain ⟨inv₂,bytes₂⟩ := linkHead_spec inv₁ clear (by omega) enough.2
  have room : (cut ⟨f.base,f.base+n,f.base+allocBlockSize,false⟩ i).stop ≤ f.base+n := by
    simp only [cut,Chunk.stop]
    omega
  obtain ⟨m,run,done⟩ := carve_spec inv₂ rfl rfl small room asked
  change allocChunkFromBlock (linkHead h₁.mem set f.base n) f.base (sizeFromFreeListIdx i) = _ at run
  change Ends _ (pure ((allocChunkFromBlock (linkHead h₁.mem set f.base n) f.base (sizeFromFreeListIdx i)).1,
    {h₁ with mem:=(allocChunkFromBlock (linkHead h₁.mem set f.base n) f.base (sizeFromFreeListIdx i)).2}))
  rw [run]
  refine ⟨_,done.after rfl rfl fun c there x low high => ?_⟩
  exact (bytes₂ c there x low high).trans ((bytes₁ c there x low high).trans (bytes₀ c there x low high))

theorem head_left (inv : Inv set h s) (head : s.blocks = b :: rest) : get h.mem (blocks set) = b.base ∧
    u64 (get h.mem (endptr b.base)+2^64-get h.mem (freeptr b.base)) = b.stop-b.free := by
  have listed : b ∈ s.blocks := by rw [head]; exact List.mem_cons_self ..
  obtain ⟨_,free',stop'⟩ := inv.held.fields b listed
  have own := inv.placed.fits b listed
  have swap : b.stop+2^64-b.free = b.stop-b.free+2^64 := by omega
  refine ⟨?_,?_⟩
  · rw [inv.held.head,Shape.bases,head]
    rfl
  · rw [free',stop',u64,swap,Nat.add_mod_right,Nat.mod_eq_of_lt (by omega)]

theorem allocSetAlloc_spec (inv : Inv set h s) (fits : size+allocBlockSize+allocChunkSize+7 < 2^64) :
    Ends (fun r => ∃ s', Allocated set h s size r.1 r.2 s') (allocSetAlloc h set size f) := by
  by_cases large : size > allocChunkLimit
  · rw [allocSetAlloc,if_pos large]
    exact allocLarge_spec inv fits
  · obtain ⟨small,asked⟩ := allocSetFreeIndex_fits (Nat.le_of_not_lt large)
    obtain ⟨b,rest,head,normal⟩ := inv.backed.head
    obtain ⟨first,left⟩ := head_left inv head
    have own := inv.placed.fits b (by rw [head]; exact List.mem_cons_self ..)
    rw [allocSetAlloc,if_neg large]
    simp only [first,left]
    generalize allocSetFreeIndex size = i at small asked
    cases list : s.free i with
    | cons a more =>
      have popped := pop_spec inv small list asked
      have listed := inv.tracked.free i a (by rw [list]; exact List.mem_cons_self ..)
      have some' : a ≠ 0 := by
        obtain ⟨_,c,there,addr,_⟩ := listed
        obtain ⟨k,own,inside⟩ := inv.placed.inside c there
        have positive := (inv.placed.fits k own).1
        have low := inside.low
        omega
      simp only [popped.1,ne_eq,some',not_false_eq_true,if_true]
      exact Ends.ok ⟨_,popped.2⟩
    | nil =>
      have empty := inv.held.lists i small
      rw [list] at empty
      have none' : get h.mem (freeList set i) = 0 := empty
      simp only [none',ne_eq,not_true_eq_false,if_false]
      by_cases full : b.stop-b.free < sizeFromFreeListIdx i+allocChunkSize
      · rw [if_pos full]
        exact allocNewBlock_spec inv small asked
      · have room : (cut b i).stop ≤ b.stop := by
          simp only [cut,Chunk.stop]
          omega
        obtain ⟨m,run,done⟩ := carve_spec inv head normal small room asked
        rw [if_neg full,run]
        exact Ends.ok ⟨_,done⟩

end large

end TinyLlama.Asctx
