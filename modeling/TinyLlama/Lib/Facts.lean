import Mathlib.Tactic

-- Programs over a state that may fail: the facts a run that succeeds adds to a list.
namespace TinyLlama.Facts
variable {σ φ α β : Type}

def Derives (pre post : σ → Prop) (holds : φ → σ → Prop) (known : List φ) (b : StateT σ Option α) (out : α → List φ) : Prop :=
  ∀ s a s',pre s → (∀ f ∈ known,holds f s) → b s = some (a,s') → post s' ∧ ∀ f ∈ out a++known,holds f s'

variable {pre mid post : σ → Prop} {holds : φ → σ → Prop} {known : List φ}

theorem Derives.bind {b : StateT σ Option α} {k : α → StateT σ Option β} {out : α → List φ} {out' : β → List φ}
    (first : Derives pre mid holds known b out) (rest : ∀ a,Derives mid post holds (out a++known) (k a) out') :
    Derives pre post holds known (b >>= k) out' := by
  intro s r s' start facts run
  obtain ⟨⟨a,s₁⟩,began,later⟩ := Option.bind_eq_some_iff.mp run
  obtain ⟨middle,facts₁⟩ := first s a s₁ start facts began
  obtain ⟨done,facts₂⟩ := rest a s₁ r s' middle facts₁ later
  refine ⟨done,fun f listed => facts₂ f ?_⟩
  rcases List.mem_append.mp listed with new | old
  · exact List.mem_append_left _ new
  · exact List.mem_append_right _ (List.mem_append_right _ old)

theorem Derives.pure (a : α) {out : α → List φ} (listed : ∀ f ∈ out a,f ∈ known) :
    Derives pre pre holds known (Pure.pure a : StateT σ Option α) out := by
  intro s r s' start facts run
  cases run
  refine ⟨start,fun f member => ?_⟩
  rcases List.mem_append.mp member with new | old
  · exact facts f (listed f new)
  · exact facts f old

theorem Derives.fails {out : α → List φ} : Derives pre post holds known (failure : StateT σ Option α) out :=
  fun _ _ _ _ _ run => by cases run

theorem Derives.get {k : σ → StateT σ Option β} {out : β → List φ} (rest : ∀ s,Derives pre post holds known (k s) out) :
    Derives pre post holds known (MonadState.get >>= k) out :=
  fun s r s' start facts run => rest s s r s' start facts run

theorem Derives.less {b : StateT σ Option α} {out out' : α → List φ} (derives : Derives pre post holds known b out)
    (fewer : ∀ a,∀ f ∈ out' a,f ∈ out a++known) : Derives pre post holds known b out' := by
  intro s a s' start facts run
  obtain ⟨done,facts'⟩ := derives s a s' start facts run
  refine ⟨done,fun f listed => ?_⟩
  rcases List.mem_append.mp listed with new | old
  · exact facts' f (fewer a f new)
  · exact facts' f (List.mem_append_right _ old)

theorem Derives.weaken {b : StateT σ Option α} {out : α → List φ} {pre' post' : σ → Prop} (derives : Derives pre post holds known b out)
    (start : ∀ s,pre' s → pre s) (done : ∀ s,post s → post' s) : Derives pre' post' holds known b out :=
  fun s a s' before facts run => (derives s a s' (start s before) facts run).imp_left (done s')

theorem Derives.loop {inv : Nat → σ → Prop} {fact : Nat → α → φ} {body : α → Nat → StateT σ Option α} {n : Nat}
    (round : ∀ l < n,∀ a known,fact l a ∈ known → Derives (inv l) (inv (l+1)) holds known (body a l) fun a => [fact (l+1) a])
    {a : α} (start : fact 0 a ∈ known) :
    Derives (inv 0) (inv n) holds known ((List.range n).foldlM body a) fun a => [fact n a] := by
  induction n with
  | zero =>
    refine Derives.pure a fun f listed => ?_
    rwa [List.mem_singleton.mp listed]
  | succ n ih =>
    rw [List.range_succ,List.foldlM_append]
    refine (ih fun l below => round l (by omega)).bind fun a' => ?_
    rw [List.foldlM_cons]
    simp only [List.foldlM_nil,bind_pure]
    exact round n (Nat.lt_succ_self n) a' _ List.mem_cons_self

end TinyLlama.Facts
