import Mathlib.Tactic

-- Names given out, used again after release, and the issues behind them.
namespace TinyLlama.Ownership
variable {δ : Type}

-- The issue a name stands for now, how many were given out, and what each release hit.
structure Handles (δ : Type) where
  holder : δ → Option Nat
  issued : Nat
  closes : List (Option Nat)

def Handles.issue [DecidableEq δ] (h : Handles δ) (fd : δ) : Handles δ :=
  {h with holder:=Function.update h.holder fd (some h.issued),issued:=h.issued+1}

def Handles.close [DecidableEq δ] (h : Handles δ) (fd : δ) : Handles δ :=
  {h with holder:=Function.update h.holder fd none,closes:=h.closes++[h.holder fd]}

-- The places where a name is kept are its only users: every issue not yet released has
-- one, and a released one was released once.
structure Booked (h : Handles δ) (places : List δ) : Prop where
  distinct : places.Nodup
  held : ∀ fd, fd ∈ places ↔ ∃ k, h.holder fd = some k
  current : ∀ fd k, h.holder fd = some k → k < h.issued ∧ h.closes.count (some k) = 0
  single : ∀ fd fd' k, h.holder fd = some k → h.holder fd' = some k → fd = fd'
  all : ∀ k < h.issued, (∃ fd, h.holder fd = some k) ∨ h.closes.count (some k) = 1
  early : ∀ k, h.issued ≤ k → h.closes.count (some k) = 0
  clean : none ∉ h.closes

variable {h : Handles δ} {places : List δ} {fd : δ}

theorem Booked.perm (booked : Booked h places) (same : places.Perm places') : Booked h places' :=
  ⟨same.nodup booked.distinct,fun fd => same.mem_iff.symm.trans (booked.held fd),booked.current,booked.single,booked.all,
    booked.early,booked.clean⟩

theorem Booked.free (booked : Booked h places) (unheld : h.holder fd = none) : fd ∉ places := by
  intro listed
  obtain ⟨k,held⟩ := (booked.held fd).mp listed
  rw [unheld] at held
  cases held

theorem Booked.fate (booked : Booked h places) (issued : k < h.issued) :
    (∃ fd ∈ places, h.holder fd = some k ∧ h.closes.count (some k) = 0) ∨
      h.closes.count (some k) = 1 ∧ ∀ fd, h.holder fd ≠ some k := by
  rcases booked.all k issued with ⟨fd,holds⟩ | released
  · exact .inl ⟨fd,(booked.held fd).mpr ⟨k,holds⟩,holds,(booked.current fd k holds).2⟩
  · refine .inr ⟨released,fun fd holds => ?_⟩
    rw [(booked.current fd k holds).2] at released
    cases released

variable [DecidableEq δ]

theorem Booked.issue (booked : Booked h places) (unheld : h.holder fd = none) : Booked (h.issue fd) (fd :: places) := by
  have outside := booked.free unheld
  refine ⟨List.nodup_cons.mpr ⟨outside,booked.distinct⟩,?_,?_,?_,?_,?_,booked.clean⟩
  · intro fd'
    by_cases same : fd' = fd
    · subst same
      simp [Handles.issue]
    · simp [Handles.issue,same,booked.held fd']
  · intro fd' k holds
    by_cases same : fd' = fd
    · subst same
      obtain rfl : h.issued = k := by simpa [Handles.issue] using holds
      exact ⟨Nat.lt_succ_self _,booked.early _ (Nat.le_refl _)⟩
    · have before : h.holder fd' = some k := by simpa [Handles.issue,same] using holds
      obtain ⟨below,unclosed⟩ := booked.current fd' k before
      exact ⟨Nat.lt_succ_of_lt below,unclosed⟩
  · intro a b k first second
    by_cases same : a = fd
    · by_cases same' : b = fd
      · rw [same,same']
      · have newest : h.issued = k := by simpa [Handles.issue,same] using first
        have before : h.holder b = some k := by simpa [Handles.issue,same'] using second
        have below := (booked.current b k before).1
        omega
    · have before : h.holder a = some k := by simpa [Handles.issue,same] using first
      by_cases same' : b = fd
      · have newest : h.issued = k := by simpa [Handles.issue,same'] using second
        have below := (booked.current a k before).1
        omega
      · have before' : h.holder b = some k := by simpa [Handles.issue,same'] using second
        exact booked.single a b k before before'
  · intro k below
    rcases Nat.lt_succ_iff_lt_or_eq.mp below with earlier | newest
    · rcases booked.all k earlier with ⟨fd',holds⟩ | released
      · have other : fd' ≠ fd := by
          rintro rfl
          rw [unheld] at holds
          cases holds
        exact .inl ⟨fd',by simpa [Handles.issue,other] using holds⟩
      · exact .inr released
    · exact .inl ⟨fd,by simp [Handles.issue,newest]⟩
  · intro k late
    exact booked.early k (Nat.le_of_succ_le late)

theorem Booked.close (booked : Booked h (fd :: places)) : Booked (h.close fd) places := by
  obtain ⟨outside,distinct⟩ := List.nodup_cons.mp booked.distinct
  obtain ⟨id,holds⟩ := (booked.held fd).mp List.mem_cons_self
  obtain ⟨below,unclosed⟩ := booked.current fd id holds
  have kept : ∀ fd' k, (h.close fd).holder fd' = some k → fd' ≠ fd ∧ h.holder fd' = some k := by
    intro fd' k there
    by_cases same : fd' = fd
    · simp [Handles.close,same] at there
    · exact ⟨same,by simpa [Handles.close,same] using there⟩
  have count : ∀ k, (h.close fd).closes.count (some k) = h.closes.count (some k)+if id = k then 1 else 0 := by
    intro k
    simp [Handles.close,holds,List.count_append,List.count_singleton]
  refine ⟨distinct,?_,?_,?_,?_,?_,?_⟩
  · intro fd'
    by_cases same : fd' = fd
    · subst same
      simp [Handles.close,outside]
    · have before := booked.held fd'
      rw [List.mem_cons] at before
      simpa [Handles.close,same] using before
  · intro fd' k there
    obtain ⟨other,before⟩ := kept fd' k there
    obtain ⟨early,zero⟩ := booked.current fd' k before
    have different : id ≠ k := fun same => other (booked.single fd' fd k before (same ▸ holds))
    exact ⟨early,by rw [count,zero,if_neg different]⟩
  · intro a b k first second
    exact booked.single a b k (kept a k first).2 (kept b k second).2
  · intro k issued
    by_cases same : id = k
    · subst same
      exact .inr (by rw [count,unclosed,if_pos rfl])
    · rcases booked.all k issued with ⟨fd',before⟩ | released
      · have other : fd' ≠ fd := by
          rintro rfl
          rw [holds] at before
          exact same (Option.some.inj before)
        exact .inl ⟨fd',by simpa [Handles.close,other] using before⟩
      · exact .inr (by rw [count,released,if_neg same])
  · intro k late
    have different : id ≠ k := by
      change h.issued ≤ k at late
      omega
    rw [count,booked.early k late,if_neg different]
  · simp only [Handles.close,holds,List.mem_append,List.mem_singleton,reduceCtorEq,or_false]
    exact booked.clean

end TinyLlama.Ownership
