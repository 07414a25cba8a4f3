import Mathlib.Tactic

-- What a run that succeeds makes of a view of the state.
namespace TinyLlama.Views
variable {σ τ α β γ : Type} {view : σ → τ} {f f' : τ → τ} {P : Prop} {b : StateT σ Option α} {k : α → StateT σ Option β}

def Turns (view : σ → τ) (f : τ → τ) (b : StateT σ Option α) : Prop := ∀ s a s',b s = some (a,s') → view s' = f (view s)

def Needs (P : Prop) (b : StateT σ Option α) : Prop := ∀ s a s',b s = some (a,s') → P

theorem Turns.pure (a : α) : Turns view id (Pure.pure a : StateT σ Option α) := by
  intro s r s' run
  cases run
  rfl

theorem Turns.fails : Turns view f (failure : StateT σ Option α) := fun _ _ _ run => by cases run

theorem Turns.get {k : σ → StateT σ Option β} (rest : ∀ s,Turns view f (k s)) : Turns view f (MonadState.get >>= k) :=
  fun s r s' run => rest s s r s' run

theorem Turns.bind (start : Turns view f b) (rest : ∀ a,Turns view f' (k a)) : Turns view (fun t => f' (f t)) (b >>= k) := by
  intro s r s' run
  obtain ⟨⟨a,s₁⟩,began,later⟩ := Option.bind_eq_some_iff.mp run
  rw [rest a s₁ r s' later,start s a s₁ began]

theorem Turns.before (start : Turns view id b) (rest : ∀ a,Turns view f (k a)) : Turns view f (b >>= k) := start.bind rest

theorem Turns.followed (start : Turns view f b) (rest : ∀ a,Turns view id (k a)) : Turns view f (b >>= k) := start.bind rest

theorem Turns.loop {step : γ → τ → τ} {body : α → γ → StateT σ Option α} (round : ∀ l a,Turns view (step l) (body a l)) (ls : List γ) :
    ∀ a,Turns view (fun t => ls.foldl (fun t l => step l t) t) (ls.foldlM body a) := by
  induction ls with
  | nil => exact fun a => Turns.pure a
  | cons l rest ih => exact fun a => (round l a).bind ih

theorem Needs.now (start : Needs P b) : Needs P (b >>= k) := by
  intro s r s' run
  obtain ⟨⟨a,s₁⟩,began,-⟩ := Option.bind_eq_some_iff.mp run
  exact start s a s₁ began

theorem Needs.later (rest : ∀ a,Needs P (k a)) : Needs P (b >>= k) := by
  intro s r s' run
  obtain ⟨⟨a,s₁⟩,-,later⟩ := Option.bind_eq_some_iff.mp run
  exact rest a s₁ r s' later

theorem Needs.loop {Q : γ → Prop} {body : α → γ → StateT σ Option α} (round : ∀ l a,Needs (Q l) (body a l)) {ls : List γ} {l : γ}
    (listed : l ∈ ls) : ∀ a,Needs (Q l) (ls.foldlM body a) := by
  induction ls with
  | nil => cases listed
  | cons j rest ih =>
    intro a
    rcases List.mem_cons.mp listed with rfl | inner
    · exact (round l a).now
    · exact Needs.later (ih inner)

end TinyLlama.Views
