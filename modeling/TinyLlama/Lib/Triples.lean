import Mathlib.Tactic

-- Partial correctness of programs over a state that may fail.
namespace TinyLlama.Triples
variable {σ α β : Type}

def Triple (pre : σ → Prop) (b : StateT σ Option α) (post : α → σ → Prop) : Prop :=
  ∀ s a s',pre s → b s = some (a,s') → post a s'

variable {pre : σ → Prop} {mid post : α → σ → Prop} {done : β → σ → Prop}

theorem Triple.bind {b : StateT σ Option α} {k : α → StateT σ Option β} (first' : Triple pre b mid)
    (rest : ∀ a,Triple (mid a) (k a) done) : Triple pre (b >>= k) done := by
  intro s r s' start run
  obtain ⟨⟨a,s₁⟩,began,later⟩ := Option.bind_eq_some_iff.mp run
  exact rest a s₁ r s' (first' s a s₁ start began) later

theorem Triple.pure {a : α} (ends : ∀ s,pre s → post a s) : Triple pre (Pure.pure a : StateT σ Option α) post := by
  intro s r s' start run
  cases run
  exact ends s start

end TinyLlama.Triples
