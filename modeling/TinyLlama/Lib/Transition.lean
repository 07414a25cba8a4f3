import Mathlib.Tactic

namespace TinyLlama.Transition

variable {σ α : Type} (enabled : σ → α → Prop) (apply : σ → α → σ)

inductive Reached : σ → σ → Prop where
  | refl : Reached s s
  | step : Reached s t → enabled t a → Reached s (apply t a)

theorem Reached.keeps {enabled : σ → α → Prop} {apply : σ → α → σ} (inv : σ → Prop)
    (preserved : ∀ s a, inv s → enabled s a → inv (apply s a)) (start : inv s)
    (path : Reached enabled apply s t) : inv t := by
  induction path with
  | refl => exact start
  | step _ allowed ih => exact preserved _ _ ih allowed

theorem Reached.trans {enabled : σ → α → Prop} {apply : σ → α → σ} (first : Reached enabled apply s t)
    (second : Reached enabled apply t u) : Reached enabled apply s u := by
  induction second with
  | refl => exact first
  | step _ allowed ih => exact .step ih allowed

-- A schedule, executed; none when one of its actions is not enabled.
def run [∀ s a, Decidable (enabled s a)] : σ → List α → Option σ
  | s,[] => some s
  | s,a :: rest => if enabled s a then run (apply s a) rest else none

theorem run_reached [∀ s a, Decidable (enabled s a)] (actions : List α) : ∀ s t, run enabled apply s actions = some t →
    Reached enabled apply s t := by
  induction actions with
  | nil =>
    intro s t done
    obtain rfl := Option.some.inj done
    exact .refl
  | cons a rest ih =>
    intro s t done
    rw [run] at done
    split at done
    · rename_i allowed
      exact (Reached.step .refl allowed).trans (ih _ _ done)
    · simp at done

end TinyLlama.Transition
