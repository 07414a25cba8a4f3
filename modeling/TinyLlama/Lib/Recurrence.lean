import Mathlib.Tactic
import Mathlib.Algebra.BigOperators.Intervals

namespace TinyLlama.Recurrence
open Finset

variable {K : Type} [CommRing K]

def unrolled (a u : Nat → K) (n : Nat) : K := ∑ s ∈ range n,(∏ r ∈ Ico (s+1) n,a r)*u s

theorem unrolled_zero (a u : Nat → K) : unrolled a u 0 = 0 := by simp [unrolled]

theorem unrolled_succ (a u : Nat → K) (n : Nat) : unrolled a u (n+1) = a n*unrolled a u n+u n := by
  rw [unrolled,sum_range_succ,Ico_self,prod_empty,one_mul,unrolled,mul_sum]
  congr 1
  refine sum_congr rfl fun s member => ?_
  have before := mem_range.mp member
  rw [prod_Ico_succ_top (show s+1 ≤ n by omega)]
  ring

theorem sum_unrolled {m : Nat} (a : Nat → K) (b : Nat → Nat → K) (w : Nat → K) (c : Nat → K) (n : Nat) :
    ∑ i ∈ range m,unrolled a (fun s => b s i*w s) n*c i =
      ∑ s ∈ range n,(∏ r ∈ Ico (s+1) n,a r)*w s*∑ i ∈ range m,b s i*c i := by
  simp only [unrolled,sum_mul,mul_sum]
  rw [sum_comm]
  refine sum_congr rfl fun s _ => sum_congr rfl fun i _ => ?_
  ring

end TinyLlama.Recurrence
