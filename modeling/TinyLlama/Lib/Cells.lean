import Mathlib.Tactic

namespace TinyLlama.Cells

theorem cells_fit {ι : Type} {s : Finset ι} {place : ι → Nat} {width size : Nat} (some' : 0 < width)
    (aligned : ∀ i ∈ s,width ∣ place i) (inside : ∀ i ∈ s,place i+width ≤ size) (apart : Set.InjOn place s) :
    s.card*width ≤ size := by
  have fewer : s.card ≤ (Finset.range (size/width)).card := by
    refine Finset.card_le_card_of_injOn (fun i => place i/width) ?_ ?_
    · intro i member
      have room := inside i member
      rw [Finset.mem_coe,Finset.mem_range]
      exact Nat.lt_of_lt_of_le (Nat.lt_succ_self _) ((Nat.le_div_iff_mul_le some').mpr (by
        rwa [Nat.succ_mul,Nat.div_mul_cancel (aligned i member)]))
    · intro i member j member' same
      have both := congrArg (· * width) same
      dsimp only at both
      rw [Nat.div_mul_cancel (aligned i member),Nat.div_mul_cancel (aligned j member')] at both
      exact apart member member' both
  rw [Finset.card_range] at fewer
  exact le_trans (Nat.mul_le_mul_right _ fewer) (Nat.div_mul_le_self _ _)

theorem row_below {n w i j : Nat} (row : i < n) (small : j < w) : i*w+j < n*w := by
  have next := Nat.mul_le_mul_right w (Nat.succ_le_of_lt row)
  rw [Nat.succ_mul] at next
  omega

theorem exists_count {p : Nat → Prop} [DecidablePred p] {n j : Nat} (below : j < Nat.count p n) :
    ∃ l < n,p l ∧ Nat.count p l = j := by
  induction n with
  | zero => simp at below
  | succ n ih =>
    rw [Nat.count_succ] at below
    split at below
    · next here =>
      rcases Nat.lt_succ_iff_lt_or_eq.mp below with earlier | last
      · obtain ⟨l,small,holds,count⟩ := ih earlier
        exact ⟨l,by omega,holds,count⟩
      · exact ⟨n,Nat.lt_succ_self _,here,last.symm⟩
    · obtain ⟨l,small,holds,count⟩ := ih below
      exact ⟨l,by omega,holds,count⟩

theorem count_inside {n k : Nat} {p q : Nat → Prop} [DecidablePred p] [DecidablePred q] (inside : ∀ l < n,p l → l < k ∧ q l) :
    Nat.count p n ≤ Nat.count q k ∧ (Nat.count q k = Nat.count p n ↔ ∀ l < k,q l → l < n ∧ p l) := by
  rw [Nat.count_eq_card_filter_range,Nat.count_eq_card_filter_range]
  have subset : (Finset.range n).filter p ⊆ (Finset.range k).filter q := by
    intro l member
    obtain ⟨below,holds⟩ := Finset.mem_filter.mp member
    obtain ⟨below',holds'⟩ := inside l (Finset.mem_range.mp below) holds
    exact Finset.mem_filter.mpr ⟨Finset.mem_range.mpr below',holds'⟩
  refine ⟨Finset.card_le_card subset,fun same l below holds => ?_,fun all => ?_⟩
  · have equal := Finset.eq_of_subset_of_card_le subset same.le
    have member : l ∈ (Finset.range n).filter p := equal ▸ Finset.mem_filter.mpr ⟨Finset.mem_range.mpr below,holds⟩
    exact ⟨Finset.mem_range.mp (Finset.mem_filter.mp member).1,(Finset.mem_filter.mp member).2⟩
  · congr 1
    refine (Finset.Subset.antisymm subset fun l member => ?_).symm
    obtain ⟨below,holds⟩ := Finset.mem_filter.mp member
    obtain ⟨below',holds'⟩ := all l (Finset.mem_range.mp below) holds
    exact Finset.mem_filter.mpr ⟨Finset.mem_range.mpr below',holds'⟩

end TinyLlama.Cells
