import Mathlib.Tactic

namespace TinyLlama.Sampler

section Reference
variable {K : Type} [Field K] [LinearOrder K]

def greatest (n : Nat) (f : Nat → K) : K := (Finset.range n).fold max (f 0) f

-- exp (l t - max)/sum, at a temperature.
def softmax (exp : K → K) (temperature : K) (n : Nat) (logits : Nat → K) (t : Nat) : K :=
  let scaled t := logits t*(1/temperature)
  exp (scaled t-greatest n scaled)/∑ j ∈ Finset.range n,exp (scaled j-greatest n scaled)

def sortedDown (qs : List K) : List K := qs.mergeSort fun a b => decide (a ≥ b)

def topKFilter (topK : Nat) (qs : List K) : List K := if topK = 0 then qs else qs.take topK

def minPFilter (minP : K) (qs : List K) : List K := qs.filter fun q => decide (q ≥ minP*qs.headD 0)

-- The smallest prefix that adds up to the goal, or everything.
def nucleus (goal : K) : List K → List K
  | [] => []
  | q :: qs => if q ≥ goal then [q] else q :: nucleus (goal-q) qs

def reference (topK : Nat) (topP minP : K) (qs : List K) : List K := nucleus topP (minPFilter minP (topKFilter topK (sortedDown qs)))

end Reference

section Sorted
variable {K : Type} [LinearOrder K]

theorem sortedDown_perm (qs : List K) : (sortedDown qs).Perm qs := List.mergeSort_perm qs _

theorem sortedDown_sorted (qs : List K) : (sortedDown qs).Pairwise (· ≥ ·) := List.pairwise_mergeSort' (· ≥ ·) qs

theorem sortedDown_scale [Field K] [IsStrictOrderedRing K] {c : K} (positive : 0 < c) (qs : List K) :
    sortedDown (qs.map (·*c)) = (sortedDown qs).map (·*c) := by
  have perm : (sortedDown (qs.map (·*c))).Perm ((sortedDown qs).map (·*c)) :=
    (sortedDown_perm _).trans ((sortedDown_perm qs).map _).symm
  refine perm.eq_of_pairwise' (sortedDown_sorted _) (List.pairwise_map.mpr ((sortedDown_sorted qs).imp fun above => ?_))
  exact mul_le_mul_of_nonneg_right above positive.le

end Sorted

section Prefixes
variable {K : Type} [Field K] [LinearOrder K]

theorem nucleus_initial (goal : K) (qs : List K) : nucleus goal qs <+: qs := by
  induction qs generalizing goal with
  | nil => exact List.prefix_refl _
  | cons q qs ih =>
    unfold nucleus
    split
    · exact ⟨qs,rfl⟩
    · exact (List.prefix_cons_inj q).mpr (ih _)

theorem nucleus_some (goal : K) {qs : List K} (some' : qs ≠ []) : nucleus goal qs ≠ [] := by
  cases qs with
  | nil => exact absurd rfl some'
  | cons q qs =>
    unfold nucleus
    split <;> exact List.cons_ne_nil _ _

theorem nucleus_append (goal : K) (qs more : List K) (reached : (nucleus goal qs).length < qs.length) :
    nucleus goal (qs++more) = nucleus goal qs := by
  induction qs generalizing goal with
  | nil => exact absurd reached (lt_irrefl 0)
  | cons q qs ih =>
    rw [List.cons_append,nucleus,nucleus]
    rw [nucleus] at reached
    split
    · rfl
    · next small =>
      rw [if_neg small,List.length_cons,List.length_cons] at reached
      rw [ih _ (by omega)]

theorem minPFilter_initial (minP : K) {qs : List K} (sorted : qs.Pairwise (· ≥ ·)) :
    minPFilter minP qs = qs.takeWhile fun q => decide (q ≥ minP*qs.headD 0) := by
  unfold minPFilter
  generalize minP*qs.headD 0 = threshold
  induction qs with
  | nil => rfl
  | cons q qs ih =>
    obtain ⟨least,later⟩ := List.pairwise_cons.mp sorted
    by_cases high : q ≥ threshold
    · rw [List.filter_cons,List.takeWhile_cons,if_pos (decide_eq_true high),if_pos (decide_eq_true high),ih later]
    · rw [List.filter_cons,List.takeWhile_cons,decide_eq_false high,if_neg Bool.false_ne_true]
      refine List.filter_eq_nil_iff.mpr fun x member kept => high ?_
      exact (of_decide_eq_true kept).trans (least x member)

theorem minPFilter_zero {qs : List K} (positive : ∀ q ∈ qs,0 < q) : minPFilter 0 qs = qs := by
  refine List.filter_eq_self.mpr fun q member => ?_
  rw [zero_mul]
  exact decide_eq_true (positive q member).le

theorem minPFilter_append (minP : K) (qs more : List K) (some' : qs ≠ []) (sorted : (qs++more).Pairwise (· ≥ ·)) :
    minPFilter minP (qs++more) = minPFilter minP qs++
      (if minPFilter minP qs = qs then more.filter fun q => decide (q ≥ minP*qs.headD 0) else []) := by
  have same : (qs++more).headD 0 = qs.headD 0 := by
    cases qs with
    | nil => exact absurd rfl some'
    | cons q qs => rfl
  rw [minPFilter,same,List.filter_append]
  congr 1
  split
  · rfl
  · next dropped =>
    refine List.filter_eq_nil_iff.mpr fun y inMore kept => dropped ?_
    refine List.filter_eq_self.mpr fun x inFront => ?_
    have least := of_decide_eq_true kept
    exact decide_eq_true (le_trans least ((List.pairwise_append.mp sorted).2.2 x inFront y inMore))

theorem filters_append (topP minP : K) (qs more : List K) (some' : qs ≠ []) (sorted : (qs++more).Pairwise (· ≥ ·))
    (reached : (nucleus topP (minPFilter minP qs)).length < qs.length) :
    nucleus topP (minPFilter minP (qs++more)) = nucleus topP (minPFilter minP qs) := by
  rw [minPFilter_append minP qs more some' sorted]
  split
  · next whole =>
    rw [whole] at reached ⊢
    exact nucleus_append topP qs _ reached
  · rw [List.append_nil]

theorem filters_prefix (topP minP : K) {qs : List K} (sorted : qs.Pairwise (· ≥ ·)) : nucleus topP (minPFilter minP qs) <+: qs := by
  rw [minPFilter_initial minP sorted]
  exact (nucleus_initial topP _).trans (List.takeWhile_prefix _)

end Prefixes

section Masses
variable {K : Type} [Field K] [LinearOrder K] [IsStrictOrderedRing K]

theorem nucleus_all (goal : K) (qs : List K) (positive : ∀ q ∈ qs,0 < q) (short : qs.sum ≤ goal) : nucleus goal qs = qs := by
  induction qs generalizing goal with
  | nil => rfl
  | cons q qs ih =>
    rw [List.sum_cons] at short
    have later : ∀ x ∈ qs,0 < x := fun x member => positive x (List.mem_cons_of_mem q member)
    rw [nucleus]
    split
    · next reached =>
      have none' : qs = [] := by
        by_contra some'
        have more := List.sum_pos qs later some'
        linarith
      rw [none']
    · rw [ih _ later (by linarith)]

theorem minPFilter_some {minP : K} (bound : minP ≤ 1) {qs : List K} (positive : ∀ q ∈ qs,0 < q) (some' : qs ≠ []) : minPFilter minP qs ≠ [] := by
  cases qs with
  | nil => exact absurd rfl some'
  | cons q qs =>
    have kept : q ≥ minP*(q :: qs).headD 0 := mul_le_of_le_one_left (positive q List.mem_cons_self).le bound
    unfold minPFilter
    rw [List.filter_cons,if_pos (decide_eq_true kept)]
    exact List.cons_ne_nil _ _

end Masses

end TinyLlama.Sampler
