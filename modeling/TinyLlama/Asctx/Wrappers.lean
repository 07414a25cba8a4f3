import TinyLlama.Asctx.Soundness

-- mm.c: the wrappers every allocation of the process goes through. The set is created before the first of them.
namespace TinyLlama.Asctx
open Memory

def mmInitBlockSize : Nat := 8*1024

def memsetZero (h : Heap) (p n : Nat) : Heap := {h with mem:=fill h.mem p n fun _ => 0}

-- if (!p) fatal("Out of memory")
def orFatal (r : Nat × Heap) : Except Stop (Nat × Heap) := if r.1 = 0 then .error .fatal else .ok r

def smalloc (set : Nat) (h : Heap) (n : Nat) (f : Fresh) : Except Stop (Nat × Heap) := do
  let r ← allocSetAlloc h set (if n ≠ 0 then n else 1) f
  let (p,h) ← orFatal r
  return (p,memsetZero h p n)

-- n && s && n > SIZE_MAX / s
def scallocRefuses (n s : Nat) : Bool := n ≠ 0 ∧ s ≠ 0 ∧ n > (2^64-1)/s

def scallocTotal (n s : Nat) : Nat := u64 ((if n ≠ 0 then n else 1)*(if s ≠ 0 then s else 1))

def scalloc (set : Nat) (h : Heap) (n s : Nat) (f : Fresh) : Except Stop (Nat × Heap) :=
  if scallocRefuses n s then .error .fatal
  else do
    let r ← allocSetAlloc h set (scallocTotal n s) f
    let (p,h) ← orFatal r
    return (p,memsetZero h p (scallocTotal n s))

def srealloc (set : Nat) (h : Heap) (p n : Nat) (f : Fresh) : Except Stop (Nat × Heap) :=
  if p = 0 then smalloc set h n f
  else do
    let r ← allocSetRealloc h p n f
    orFatal r

-- The block of malloc's that holds the pointer has both headers in front of it and n bytes
-- from it on.
def Granted (n : Nat) (r : Nat × Heap) : Prop :=
  ∃ g ∈ r.2.regions, g.1+allocBlockSize+allocChunkSize ≤ r.1 ∧ r.1+n ≤ g.1+g.2

instance (n : Nat) (r : Nat × Heap) : Decidable (Granted n r) :=
  inferInstanceAs (Decidable (∃ g ∈ r.2.regions, g.1+allocBlockSize+allocChunkSize ≤ r.1 ∧ r.1+n ≤ g.1+g.2))

inductive Request where
  | smalloc (n : Nat)
  | scalloc (n s : Nat)
  | srealloc (n : Nat)

-- The arguments are size_t.
def Request.Words : Request → Prop
  | .smalloc n | .srealloc n => n < 2^64
  | .scalloc n s => n < 2^64 ∧ s < 2^64

def Request.refused : Request → Bool
  | .scalloc n s => scallocRefuses n s
  | _ => false

-- The bytes that the block is for: what memset clears.
def Request.total : Request → Nat
  | .smalloc n | .srealloc n => n
  | .scalloc n s => scallocTotal n s

-- Whatever has been allocated before and whatever malloc answers, the request gets its
-- bytes or the process stops. srealloc takes NULL or a live pointer.
def Request.Roomy : Request → Prop
  | .smalloc n => ∀ set σ f, Reachable mmInitBlockSize set σ → Ends (Granted n) (Asctx.smalloc set σ.heap n f)
  | .scalloc n s => ∀ set σ f, Reachable mmInitBlockSize set σ →
      Ends (fun r => Granted (n*s) r ∧ Granted (scallocTotal n s) r) (Asctx.scalloc set σ.heap n s f)
  | .srealloc n => ∀ set σ f p, Reachable mmInitBlockSize set σ → (p = 0 ∨ ∃ l ∈ σ.live, l.1 = p) →
      Ends (Granted n) (Asctx.srealloc set σ.heap p n f)

section totals
variable {n s : Nat}

theorem scallocTotal_exact (nWord : n < 2^64) (sWord : s < 2^64) (accepted : scallocRefuses n s = false) :
    scallocTotal n s = (if n ≠ 0 then n else 1)*(if s ≠ 0 then s else 1) := by
  refine u64_of_lt ?_
  unfold scallocRefuses at accepted
  by_cases none' : n = 0 <;> by_cases unit : s = 0
  · simp [none',unit]
  · simpa [none',unit] using sWord
  · simpa [none',unit] using nWord
  · have few : n ≤ (2^64-1)/s := by
      have small : ¬ (n ≠ 0 ∧ s ≠ 0 ∧ n > (2^64-1)/s) := of_decide_eq_false accepted
      exact Nat.le_of_not_lt fun more => small ⟨none',unit,more⟩
    rw [if_pos none',if_pos unit]
    have product := (Nat.le_div_iff_mul_le (Nat.pos_of_ne_zero unit)).mp few
    omega

theorem product_le_scallocTotal (nWord : n < 2^64) (sWord : s < 2^64) (accepted : scallocRefuses n s = false) :
    n*s ≤ scallocTotal n s := by
  rw [scallocTotal_exact nWord sWord accepted]
  refine Nat.mul_le_mul ?_ ?_ <;> split <;> omega

end totals

section grants
variable {set : Nat} {s : Shape} {h : Heap}

theorem live_granted (inv : Inv set h s) (listed : (p,size) ∈ s.live) : Granted size (p,h) ∧ p ≠ 0 := by
  obtain ⟨c,there,pointer,room⟩ := inv.tracked.live _ listed
  obtain ⟨b,own,inside⟩ := inv.placed.inside c there
  obtain ⟨g,given,low,high⟩ := inv.backed.block_region inv.placed own
  have fits := inv.placed.fits b own
  have front := inside.low
  have back := inside.high
  simp only [Chunk.stop,chunkGetPointer] at *
  exact ⟨⟨g,given,by dsimp only; omega,by dsimp only; omega⟩,by omega⟩

theorem Granted.less (granted : Granted n r) (fewer : k ≤ n) : Granted k r := by
  obtain ⟨g,given,low,high⟩ := granted
  exact ⟨g,given,low,by omega⟩

theorem orFatal_ends (granted : Granted n r) (some' : r.1 ≠ 0) : Ends (Granted n) (orFatal r) := by
  rw [orFatal,if_neg some']
  exact Ends.ok granted

theorem smalloc_ends (inv : Inv set h s) (fits : Fitting n) : Ends (Granted n) (smalloc set h n f) := by
  have fits' : Fitting (if n ≠ 0 then n else 1) := by
    unfold Fitting at fits ⊢
    simp only [allocBlockSize,allocChunkSize] at fits ⊢
    split <;> omega
  refine (allocSetAlloc_spec inv fits').bind fun r allocated => ?_
  obtain ⟨s',done⟩ := allocated
  obtain ⟨granted,some'⟩ := live_granted done.inv (by rw [done.live]; exact List.mem_cons_self ..)
  refine (orFatal_ends granted some').bind fun r granted => Ends.ok ?_
  exact granted.less (by split <;> omega)

theorem memsetZero_inv (inv : Inv set h s) (listed : (p,n) ∈ s.live) : Inv set (memsetZero h p n) s := by
  obtain ⟨c,there,pointer,room⟩ := inv.tracked.live _ listed
  refine inv.frame fun g header x low high => fill_other ?_
  have off := inv.placed.payload_apart header there
  simp only [Apart,chunkGetPointer] at *
  omega

theorem scalloc_spec (inv : Inv set h s) (fits : Fitting (scallocTotal n k)) :
    Ends (fun r => Granted (scallocTotal n k) r ∧ ∃ s',Inv set r.2 s') (scalloc set h n k f) := by
  unfold scalloc
  split
  · exact rfl
  · refine (allocSetAlloc_spec inv fits).bind fun r allocated => ?_
    obtain ⟨s',done⟩ := allocated
    have listed : (r.1,scallocTotal n k) ∈ s'.live := by rw [done.live]; exact List.mem_cons_self ..
    obtain ⟨granted,some'⟩ := live_granted done.inv listed
    rw [orFatal,if_neg some']
    exact Ends.ok ⟨granted,s',memsetZero_inv done.inv listed⟩

theorem srealloc_ends (inv : Inv set h s) (pointer : p = 0 ∨ ∃ l ∈ s.live, l.1 = p) (fits : Fitting n) :
    Ends (Granted n) (srealloc set h p n f) := by
  unfold srealloc
  split
  · exact smalloc_ends inv fits
  · next some' =>
    obtain ⟨l,listed,rfl⟩ := pointer.resolve_left some'
    refine (allocSetRealloc_spec inv listed fits).bind fun r resized => ?_
    obtain ⟨s',done⟩ := resized
    obtain ⟨granted,some''⟩ := live_granted done.inv (by rw [done.live]; exact List.mem_cons_self ..)
    exact orFatal_ends granted some''

end grants

section regions
variable {h : Heap} {set n : Nat} {f : Fresh}

theorem stop_bind_ok {x : Except Stop α} {k : α → Except Stop β} : (x >>= k) = .ok b ↔ ∃ a, x = .ok a ∧ k a = .ok b := by
  cases x <;> simp [Bind.bind,Except.bind]

theorem malloc_regions (run : malloc h n f = .ok h') : f.Fits n h.regions ∧ h'.regions = (f.base,n) :: h.regions := by
  unfold malloc at run
  split at run
  · next fits =>
    cases run
    exact ⟨fits,rfl⟩
  · cases run

theorem malloc_some (fits : f.Fits n h.regions) : malloc h n f = .ok ⟨fill h.mem f.base n f.junk,(f.base,n) :: h.regions⟩ := if_pos fits

-- No region reaches the top of the address space.
def Topped (regions : List (Nat × Nat)) : Prop := ∀ r ∈ regions, r.1+r.2 < 2^64

theorem Topped.more (topped : Topped regions) (fits : f.Fits n regions') : Topped ((f.base,n) :: regions) := by
  intro r listed
  rcases List.mem_cons.mp listed with rfl | before
  · exact fits.2.1
  · exact topped r before

theorem allocSetAlloc_topped (topped : Topped h.regions) (run : allocSetAlloc h set n f = .ok r) : Topped r.2.regions := by
  unfold allocSetAlloc at run
  dsimp only at run
  split at run
  · obtain ⟨h',given,rest⟩ := stop_bind_ok.mp run
    obtain ⟨fits,regions⟩ := malloc_regions given
    cases rest
    rw [regions]
    exact topped.more fits
  · split at run
    · cases run
      exact topped
    · split at run
      · obtain ⟨h',given,rest⟩ := stop_bind_ok.mp run
        obtain ⟨fits,regions⟩ := malloc_regions given
        cases rest
        rw [regions]
        exact topped.more fits
      · cases run
        exact topped

theorem release_topped (topped : Topped h.regions) (run : release h p = .ok h') : Topped h'.regions := by
  unfold release at run
  split at run
  · cases run
  · cases run
    exact fun r listed => topped r (List.mem_of_mem_filter listed)

theorem allocSetFree_topped (topped : Topped h.regions) (run : allocSetFree h p = .ok h') : Topped h'.regions := by
  unfold allocSetFree at run
  dsimp only at run
  split at run
  · refine release_topped ?_ run
    exact topped
  · cases run
    exact topped

theorem resize_topped (topped : Topped h.regions) (run : resize h p n f = .ok h') : Topped h'.regions := by
  unfold resize at run
  split at run
  · cases run
  · split at run
    · next fits =>
      cases run
      exact Topped.more (fun r listed => topped r (List.mem_of_mem_filter listed)) fits
    · cases run

theorem allocSetRealloc_topped (topped : Topped h.regions) (run : allocSetRealloc h p n f = .ok r) : Topped r.2.regions := by
  unfold allocSetRealloc at run
  dsimp only at run
  split at run
  · obtain ⟨h',resized,rest⟩ := stop_bind_ok.mp run
    have kept := resize_topped topped resized
    cases rest
    exact kept
  · split at run
    · cases run
      exact topped
    · obtain ⟨⟨q,h₁⟩,allocated,rest⟩ := stop_bind_ok.mp run
      obtain ⟨h₂,freed,done⟩ := stop_bind_ok.mp rest
      have kept : Topped h₂.regions := by
        refine allocSetFree_topped ?_ freed
        exact allocSetAlloc_topped topped allocated
      cases done
      exact kept

theorem Reachable.topped (reachable : Reachable blockSize set σ) : Topped σ.heap.regions := by
  induction reachable with
  | create created =>
    obtain ⟨h',given,rest⟩ := stop_bind_ok.mp created
    obtain ⟨fits,regions⟩ := malloc_regions given
    cases rest
    rw [regions]
    exact Topped.more (fun r none' => nomatch none') fits
  | @call σ c σ' set _ _ run ih =>
    cases c with
    | alloc size f =>
      obtain ⟨r,allocated,done⟩ := stop_bind_ok.mp run
      have kept := allocSetAlloc_topped ih allocated
      cases done
      exact kept
    | realloc ptr size f =>
      obtain ⟨r,resized,done⟩ := stop_bind_ok.mp run
      have kept := allocSetRealloc_topped ih resized
      cases done
      exact kept
    | free ptr =>
      obtain ⟨h,freed,done⟩ := stop_bind_ok.mp run
      have kept := allocSetFree_topped ih freed
      cases done
      exact kept
    | write a v =>
      cases run
      exact ih

def Ample (f : Fresh) (n : Nat) (regions : List (Nat × Nat)) : Prop := ∀ k ≤ n+2^33, f.Fits k regions

theorem allocSetAlloc_ample (small : n < 2^63) (ample : Ample f n h.regions) : ∃ r, allocSetAlloc h set n f = .ok r ∧
    ∀ g ∈ r.2.regions, g ∈ h.regions ∨ g.1 = f.base ∧ g.2 ≤ n+2^33 := by
  have added : ∀ k ≤ n+2^33, ∀ g ∈ (f.base,k) :: h.regions, g ∈ h.regions ∨ g.1 = f.base ∧ g.2 ≤ n+2^33 := by
    intro k few g listed
    rcases List.mem_cons.mp listed with rfl | before
    · exact .inr ⟨rfl,few⟩
    · exact .inl before
  unfold allocSetAlloc
  dsimp only
  split
  · have few : maxalign (u64 (n+allocBlockSize+allocChunkSize)) ≤ n+2^33 := by
      simp only [maxalign,u64,allocBlockSize,allocChunkSize]
      omega
    exact ⟨_,stop_bind_ok.mpr ⟨_,malloc_some (ample _ few),rfl⟩,added _ few⟩
  · next little =>
    have chunk := (sizeFromFreeListIdx_small (allocSetFreeIndex_fits (Nat.le_of_not_lt little)).1).2
    have limit : allocChunkLimit = 8192 := rfl
    have block : get h.mem (nextBlockSize set) < 2^32 := load_lt 4 h.mem _
    split
    · exact ⟨_,rfl,fun g listed => .inl listed⟩
    · split
      · have few : (if get h.mem (nextBlockSize set) < sizeFromFreeListIdx (allocSetFreeIndex n)+allocBlockSize+allocChunkSize
            then sizeFromFreeListIdx (allocSetFreeIndex n)+allocBlockSize+allocChunkSize
            else get h.mem (nextBlockSize set)) ≤ n+2^33 := by
          by_cases few : get h.mem (nextBlockSize set) < sizeFromFreeListIdx (allocSetFreeIndex n)+allocBlockSize+allocChunkSize
          · rw [if_pos few]
            simp only [allocBlockSize,allocChunkSize]
            omega
          · rw [if_neg few]
            omega
        exact ⟨_,stop_bind_ok.mpr ⟨_,malloc_some (ample _ few),rfl⟩,added _ few⟩
      · exact ⟨_,rfl,fun g listed => .inl listed⟩

theorem scalloc_ample {k : Nat} {s : Shape} (inv : Inv set h s) (accepted : scallocRefuses n k = false) (small : scallocTotal n k < 2^63)
    (ample : Ample f (scallocTotal n k) h.regions) : ∃ r, scalloc set h n k f = .ok r ∧ Granted (scallocTotal n k) r ∧
      (∃ s', Inv set r.2 s') ∧ ∀ g ∈ r.2.regions, g ∈ h.regions ∨ g.1 = f.base ∧ g.2 ≤ scallocTotal n k+2^33 := by
  have fits : Fitting (scallocTotal n k) := by
    simp only [Fitting,allocBlockSize,allocChunkSize]
    omega
  have spec := scalloc_spec (f:=f) inv fits
  obtain ⟨r,run,added⟩ : ∃ r, allocSetAlloc h set (scallocTotal n k) f = .ok r ∧
      ∀ g ∈ r.2.regions, g ∈ h.regions ∨ g.1 = f.base ∧ g.2 ≤ scallocTotal n k+2^33 := allocSetAlloc_ample small ample
  obtain ⟨s',done⟩ := (allocSetAlloc_spec inv fits).done run
  have some' := (live_granted done.inv (by rw [done.live]; exact List.mem_cons_self ..)).2
  have ran : scalloc set h n k f = .ok (r.1,memsetZero r.2 r.1 (scallocTotal n k)) := by
    rw [scalloc,accepted,if_neg Bool.false_ne_true,run]
    simp only [Bind.bind,Except.bind,orFatal,if_neg some']
    rfl
  obtain ⟨granted,kept⟩ := spec.done ran
  exact ⟨_,ran,granted,kept,added⟩

theorem scalloc_large {k : Nat} (accepted : scallocRefuses n k = false) (large : scallocTotal n k > allocChunkLimit) :
    (¬ f.Fits (maxalign (u64 (scallocTotal n k+allocBlockSize+allocChunkSize))) h.regions ∧ scalloc set h n k f = .error .fatal) ∨
    (f.Fits (maxalign (u64 (scallocTotal n k+allocBlockSize+allocChunkSize))) h.regions ∧ ∃ m,
      scalloc set h n k f = .ok (f.base+56,⟨m,(f.base,maxalign (u64 (scallocTotal n k+allocBlockSize+allocChunkSize))) :: h.regions⟩)) := by
  rw [scalloc,accepted,if_neg Bool.false_ne_true,allocSetAlloc,if_pos large,allocLarge]
  dsimp only
  by_cases fits : f.Fits (maxalign (u64 (scallocTotal n k+allocBlockSize+allocChunkSize))) h.regions
  · rw [malloc_some fits]
    exact .inr ⟨fits,_,rfl⟩
  · rw [malloc,if_neg fits]
    exact .inl ⟨fits,rfl⟩

end regions

section wraps

-- A set that is just created at 1000, and malloc's answer to the next request.
def firstAnswer : Fresh := ⟨1000,fun _ => 0⟩
def nextAnswer : Fresh := ⟨20000,fun _ => 0⟩

theorem first_reachable : ∃ m, Reachable mmInitBlockSize 1000 ⟨⟨m,[(1000,8296)]⟩,[]⟩ := by
  have created : ∃ m,allocSetMemoryContextCreate ⟨fun _ => 0,[]⟩ mmInitBlockSize firstAnswer = .ok (1000,⟨m,[(1000,8296)]⟩) := ⟨_,rfl⟩
  exact created.imp fun m run => Reachable.create run

-- Within 62 bytes of SIZE_MAX the total of a block wraps, and malloc is asked for at most 56 bytes.
theorem maxalign_wraps (unfit : ¬ Fitting n) (word : n < 2^64) : maxalign (u64 (n+allocBlockSize+allocChunkSize)) ≤ 56 := by
  unfold Fitting at unfit
  simp only [allocBlockSize,allocChunkSize,maxalign,u64] at unfit ⊢
  omega

theorem large_wraps (m : Mem) (unfit : ¬ Fitting n) (word : n < 2^64) : ∃ k ≤ 56, ∃ m',
    allocSetAlloc ⟨m,[(1000,8296)]⟩ 1000 n nextAnswer = .ok (20056,⟨m',[(20000,k),(1000,8296)]⟩) := by
  have wrapped := maxalign_wraps unfit word
  have large : n > allocChunkLimit := by
    have limit : allocChunkLimit = 8192 := rfl
    unfold Fitting at unfit
    simp only [allocBlockSize,allocChunkSize] at unfit
    omega
  refine ⟨_,wrapped,?_⟩
  have fits : nextAnswer.Fits (maxalign (u64 (n+allocBlockSize+allocChunkSize))) [(1000,8296)] := by
    refine ⟨by decide,by change 20000+_ < _; omega,fun r listed => ?_⟩
    obtain rfl := List.mem_singleton.mp listed
    exact .inr (by decide)
  rw [allocSetAlloc,if_pos large,allocLarge]
  dsimp only
  rw [malloc,if_pos fits]
  exact ⟨_,rfl⟩

-- No block of malloc's has room for such a request.
theorem wrapped_ungranted (unfit : ¬ Fitting n) (few : k ≤ 56) : ¬ Granted n (20056,⟨m,[(20000,k),(1000,8296)]⟩) := by
  rintro ⟨g,listed,low,high⟩
  unfold Fitting at unfit
  simp only [allocBlockSize,allocChunkSize] at unfit
  simp only [List.mem_cons,List.not_mem_nil,or_false] at listed
  rcases listed with rfl | rfl
  · dsimp only at high
    omega
  · dsimp only at high
    omega

theorem smalloc_wraps (unfit : ¬ Fitting n) (word : n < 2^64) (m : Mem) :
    ¬ Ends (Granted n) (smalloc 1000 ⟨m,[(1000,8296)]⟩ n nextAnswer) := by
  have some' : n ≠ 0 := by
    rintro rfl
    exact unfit (by unfold Fitting; decide)
  obtain ⟨k,few,m',run⟩ := large_wraps m unfit word
  rw [smalloc,if_pos some',run]
  exact wrapped_ungranted unfit few

theorem scalloc_wraps (accepted : scallocRefuses n s = false) (unfit : ¬ Fitting (scallocTotal n s)) (m : Mem) :
    ¬ Ends (Granted (scallocTotal n s)) (scalloc 1000 ⟨m,[(1000,8296)]⟩ n s nextAnswer) := by
  obtain ⟨k,few,m',run⟩ := large_wraps m unfit (u64_lt _)
  rw [scalloc,accepted,if_neg Bool.false_ne_true,run]
  exact wrapped_ungranted unfit few

end wraps

-- Every request but those whose block's total wraps.
theorem request_roomy_iff (r : Request) (words : r.Words) : r.Roomy ↔ r.refused = true ∨ Fitting r.total := by
  obtain ⟨m,first'⟩ := first_reachable
  have inv : ∀ {set σ}, Reachable mmInitBlockSize set σ → ∃ s, Inv set σ.heap s ∧ s.live = σ.live :=
    fun reachable => reachable.inv (by decide) (by decide)
  cases r with
  | smalloc n =>
    constructor
    · intro roomy
      by_contra unfit
      have ends := roomy _ _ nextAnswer first'
      exact smalloc_wraps (fun fits => unfit (.inr fits)) words m ends
    · rintro fits set σ f reachable
      obtain ⟨s,inv,_⟩ := inv reachable
      exact smalloc_ends inv (fits.resolve_left Bool.false_ne_true)
  | scalloc n k =>
    cases accepted : scallocRefuses n k with
    | true =>
      refine ⟨fun _ => .inl accepted,fun _ set σ f reachable => ?_⟩
      rw [scalloc,if_pos accepted]
      exact rfl
    | false =>
      constructor
      · intro roomy
        by_contra unfit
        have ends := (roomy _ _ nextAnswer first').imp fun r both => both.2
        exact scalloc_wraps accepted (fun fits => unfit (.inr fits)) m ends
      · rintro fits set σ f reachable
        obtain ⟨s,inv,_⟩ := inv reachable
        have fits' : Fitting (scallocTotal n k) := fits.resolve_left fun refused => nomatch accepted.symm.trans refused
        exact (scalloc_spec inv fits').imp fun r done =>
          ⟨done.1.less (product_le_scallocTotal words.1 words.2 accepted),done.1⟩
  | srealloc n =>
    constructor
    · intro roomy
      by_contra unfit
      have ends := roomy _ _ nextAnswer 0 first' (.inl rfl)
      exact smalloc_wraps (fun fits => unfit (.inr fits)) words m ends
    · rintro fits set σ f p reachable pointer
      obtain ⟨s,inv,live⟩ := inv reachable
      rw [← live] at pointer
      exact srealloc_ends inv pointer (fits.resolve_left Bool.false_ne_true)

theorem scalloc_floats : (Request.scalloc 32000 4).Roomy :=
  (request_roomy_iff (.scalloc 32000 4) ⟨by decide,by decide⟩).mpr (.inr (by unfold Fitting; decide))

-- kv_load's table of 2^59-1 entries of 32 bytes, a count that a file's header may hold.
theorem kvTable_wraps : scallocRefuses (2^59-1) 32 = false ∧ ¬ (Request.scalloc (2^59-1) 32).Roomy := by
  refine ⟨by decide,fun roomy => ?_⟩
  obtain ⟨m,first'⟩ := first_reachable
  have ends := (roomy _ _ nextAnswer first').imp fun r both => both.2
  exact scalloc_wraps (by decide) (by unfold Fitting; decide) m ends

end TinyLlama.Asctx
