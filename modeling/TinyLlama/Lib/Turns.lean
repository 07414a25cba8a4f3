import TinyLlama.Lib.Sweep

-- Rounds that each replace a pair of cells by a function of the two.
namespace TinyLlama.Turns
open Sweep

section Pairs
variable {α : Type}

-- Both cells are read before either is written.
def turnPair (f : α → α → α × α) (m : Nat → α) (a b : Nat) : Nat → α :=
  Function.update (Function.update m a (f (m a) (m b)).1) b (f (m a) (m b)).2

structure PairsApart (a b : Nat → Nat) (n : Nat) : Prop where
  own : ∀ i < n,a i ≠ b i
  others : ∀ i < n,∀ j < n,i ≠ j → a i ≠ a j ∧ a i ≠ b j ∧ b i ≠ b j

-- The memory after a loop over pairs.
structure Turned (f : Nat → α → α → α × α) (a b : Nat → Nat) (n : Nat) (m m' : Nat → α) : Prop where
  pair : ∀ i < n,(m' (a i),m' (b i)) = f i (m (a i)) (m (b i))
  rest : ∀ q,(∀ i < n,q ≠ a i ∧ q ≠ b i) → m' q = m q

theorem turnPair_pair (f : α → α → α × α) (m : Nat → α) {a b : Nat} (own : a ≠ b) :
    (turnPair f m a b a,turnPair f m a b b) = f (m a) (m b) := by
  unfold turnPair
  rw [Function.update_of_ne own,Function.update_self,Function.update_self]

theorem turnPair_rest (f : α → α → α × α) (m : Nat → α) {a b q : Nat} (other : q ≠ a ∧ q ≠ b) : turnPair f m a b q = m q := by
  unfold turnPair
  rw [Function.update_of_ne other.2,Function.update_of_ne other.1]

theorem PairsApart.fewer {a b : Nat → Nat} {n k : Nat} (apart : PairsApart a b n) (up : k ≤ n) : PairsApart a b k :=
  ⟨fun i below => apart.own i (by omega),fun i below j below' => apart.others i (by omega) j (by omega)⟩

-- A pair is fresh until its round, and kept from then on.
theorem fold_turned {f : Nat → α → α → α × α} {a b : Nat → Nat} {n : Nat} (apart : PairsApart a b n) (m : Nat → α) :
    Turned f a b n m (n.fold (fun i _ m => turnPair (f i) m (a i) (b i)) m) := by
  induction n with
  | zero => exact ⟨fun i below => absurd below (Nat.not_lt_zero i),fun q _ => rfl⟩
  | succ n ih =>
    obtain ⟨pair,rest⟩ := ih (apart.fewer (Nat.le_succ n))
    rw [Nat.fold_succ]
    have last := Nat.lt_succ_self n
    refine ⟨fun i below => ?_,fun q free => ?_⟩
    · rcases Nat.lt_succ_iff_lt_or_eq.mp below with earlier | rfl
      · obtain ⟨first',cross,second⟩ := apart.others i below n last (by omega)
        obtain ⟨_,cross',_⟩ := apart.others n last i below (by omega)
        rw [turnPair_rest _ _ ⟨first',cross⟩,turnPair_rest _ _ ⟨cross'.symm,second⟩]
        exact pair i earlier
      · have fresh : ∀ j < i,(a i ≠ a j ∧ a i ≠ b j) ∧ b i ≠ a j ∧ b i ≠ b j := fun j small => by
          obtain ⟨first',cross,second⟩ := apart.others i below j (by omega) (by omega)
          obtain ⟨_,cross',_⟩ := apart.others j (by omega) i below (by omega)
          exact ⟨⟨first',cross⟩,cross'.symm,second⟩
        rw [turnPair_pair _ _ (apart.own i below),rest (a i) fun j small => (fresh j small).1,
          rest (b i) fun j small => (fresh j small).2]
    · rw [turnPair_rest _ _ (free n last)]
      exact rest q fun i below => free i (below.trans last)

theorem fold_still {σ : Type} {n : Nat} {f : Nat → σ → σ} {s : σ} (still : ∀ i < n,f i s = s) : n.fold (fun i _ s => f i s) s = s := by
  induction n with
  | zero => rfl
  | succ n ih => rw [Nat.fold_succ,ih fun i below => still i (below.trans n.lt_succ_self),still n n.lt_succ_self]

end Pairs

section Rotation
variable {K : Type} [CommRing K]

def rotate (c s x y : K) : K × K := (x*c-y*s,x*s+y*c)

theorem rotate_squares {c s : K} (unit : c*c+s*s = 1) (x y : K) :
    (rotate c s x y).1*(rotate c s x y).1+(rotate c s x y).2*(rotate c s x y).2 = x*x+y*y := by
  calc (x*c-y*s)*(x*c-y*s)+(x*s+y*c)*(x*s+y*c) = (x*x+y*y)*(c*c+s*s) := by ring
    _ = x*x+y*y := by rw [unit,mul_one]

theorem rotate_none (c s : K) : rotate c s 0 0 = (0,0) := by simp [rotate]

end Rotation

end TinyLlama.Turns
