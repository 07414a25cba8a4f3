import Mathlib.Tactic

-- A greedy run over a list of costs, and bisection.
namespace TinyLlama.Search

section Greedy
variable {M : Type} [AddCommMonoid M] [LinearOrder M]

-- How many leading costs fit within the budget, and what is used then.
def taken (budget : M) : M → List M → Nat × M
  | used,[] => (0,used)
  | used,cost :: rest =>
    if used+cost > budget then (0,used)
    else ((taken budget (used+cost) rest).1+1,(taken budget (used+cost) rest).2)

theorem taken_le (budget : M) (costs : List M) : ∀ used, (taken budget used costs).1 ≤ costs.length := by
  induction costs with
  | nil => exact fun _ => Nat.le_refl _
  | cons cost rest ih =>
    intro used
    unfold taken
    split
    · exact Nat.zero_le _
    · exact Nat.succ_le_succ (ih (used+cost))

variable [CanonicallyOrderedAdd M] in
theorem taken_all_iff (budget : M) (costs : List M) : ∀ used, used ≤ budget →
    ((taken budget used costs).1 = costs.length ↔ used+costs.sum ≤ budget) := by
  induction costs with
  | nil =>
    intro used fits
    simpa [taken] using fits
  | cons cost rest ih =>
    intro used fits
    rw [List.sum_cons,← add_assoc]
    unfold taken
    by_cases exceeds : used+cost > budget
    · rw [if_pos exceeds]
      have more : ¬used+cost+rest.sum ≤ budget := fun within => absurd (le_self_add.trans within) (not_le.mpr exceeds)
      simp [more]
    · rw [if_neg exceeds,← ih (used+cost) (not_lt.mp exceeds)]
      simp

theorem taken_used (budget : M) (costs : List M) : ∀ used, (taken budget used costs).1 = costs.length →
    (taken budget used costs).2 = used+costs.sum := by
  induction costs with
  | nil =>
    intro used _
    simp [taken]
  | cons cost rest ih =>
    intro used all
    unfold taken at all ⊢
    by_cases exceeds : used+cost > budget
    · simp [if_pos exceeds] at all
    · rw [if_neg exceeds] at all ⊢
      have rest' := ih (used+cost) (Nat.succ.inj all)
      rw [List.sum_cons,← add_assoc]
      exact rest'

end Greedy

-- The last place in lo..hi where p holds; a round halves what is left.
def bisect (p : Nat → Bool) : Nat → Nat → Nat → Nat
  | 0,lo,_ => lo
  | rounds+1,lo,hi =>
    if lo < hi then
      let mid := lo+(hi-lo+1)/2
      if p mid then bisect p rounds mid hi else bisect p rounds lo (mid-1)
    else lo

theorem bisect_range (p : Nat → Bool) (rounds : Nat) : ∀ lo hi,
    lo ≤ bisect p rounds lo hi ∧ bisect p rounds lo hi ≤ max lo hi := by
  induction rounds with
  | zero => exact fun _ _ => ⟨Nat.le_refl _,Nat.le_max_left _ _⟩
  | succ rounds ih =>
    intro lo hi
    unfold bisect
    by_cases open' : lo < hi
    · rw [if_pos open']
      simp only
      split
      · obtain ⟨low,high⟩ := ih (lo+(hi-lo+1)/2) hi
        exact ⟨by omega,by omega⟩
      · obtain ⟨low,high⟩ := ih lo (lo+(hi-lo+1)/2-1)
        exact ⟨low,by omega⟩
    · rw [if_neg open']
      exact ⟨Nat.le_refl _,Nat.le_max_left _ _⟩

theorem bisect_last {p : Nat → Bool} (closed : ∀ a b, a ≤ b → p b → p a) (rounds : Nat) : ∀ lo hi, hi-lo < 2^rounds →
    p lo → (∀ c, p c → c ≤ max lo hi) → p (bisect p rounds lo hi) ∧ ∀ c, p c → c ≤ bisect p rounds lo hi := by
  induction rounds with
  | zero =>
    intro lo hi narrow holds above
    refine ⟨holds,fun c there => ?_⟩
    have within := above c there
    unfold bisect
    omega
  | succ rounds ih =>
    intro lo hi narrow holds above
    unfold bisect
    by_cases open' : lo < hi
    · rw [if_pos open']
      simp only
      have half : 2^(rounds+1) = 2*2^rounds := by ring
      generalize middle : lo+(hi-lo+1)/2 = mid
      by_cases there : p mid = true
      · rw [if_pos there]
        exact ih mid hi (by omega) there fun c here => by have := above c here; omega
      · rw [if_neg there]
        have below : ∀ c, p c → c ≤ mid-1 := by
          intro c here
          by_contra more
          exact there (closed mid c (by omega) here)
        exact ih lo (mid-1) (by omega) holds fun c here => by have := below c here; omega
    · rw [if_neg open']
      exact ⟨holds,fun c here => by have := above c here; omega⟩

end TinyLlama.Search
