import TinyLlama.Lib.Sweep
import Mathlib.Data.List.GetD

-- A delay line: the last n inputs as the rows of a flat store, oldest first.
namespace TinyLlama.Delay
open Sweep

variable {α : Type}

section Inputs
variable [Zero α]

-- The input `lag` steps before the last; zero before the first.
def ago (inputs : List (Nat → α)) (lag c : Nat) : α := inputs.reverse.getD lag (fun _ => 0) c

@[simp] theorem ago_nil (lag c : Nat) : ago ([] : List (Nat → α)) lag c = 0 := by simp [ago]

@[simp] theorem ago_last (inputs : List (Nat → α)) (x : Nat → α) (c : Nat) : ago (inputs++[x]) 0 c = x c := by simp [ago]

@[simp] theorem ago_succ (inputs : List (Nat → α)) (x : Nat → α) (lag c : Nat) : ago (inputs++[x]) (lag+1) c = ago inputs lag c := by
  simp [ago]

end Inputs

def push (n width : Nat) (store x : Nat → α) : Nat → α :=
  splice (splice store 0 ((n-1)*width) fun i => store (width+i)) ((n-1)*width) width x

def Keeps [Zero α] (n width : Nat) (inputs : List (Nat → α)) (store : Nat → α) : Prop :=
  ∀ k < n,∀ c < width,store (k*width+c) = ago inputs (n-1-k) c

variable [Zero α] {n width : Nat} {inputs : List (Nat → α)} {store x : Nat → α}

theorem keeps_nil (n width : Nat) : Keeps n width [] fun _ => (0 : α) := by
  intro k _ c _
  rw [ago_nil]

theorem keeps_push (kept : Keeps n width inputs store) : Keeps n width (inputs++[x]) (push n width store x) := by
  intro k below c small
  have step : (k+1)*width = k*width+width := Nat.succ_mul k width
  unfold push splice
  by_cases last : k+1 = n
  · have row : (n-1)*width = k*width := by rw [← last,Nat.add_sub_cancel]
    rw [if_pos (by omega),show n-1-k = 0 by omega,ago_last]
    congr 1
    omega
  · have room : (k+1)*width ≤ (n-1)*width := Nat.mul_le_mul_right _ (by omega)
    have older := kept (k+1) (by omega) c small
    rw [if_neg (by omega),if_pos (by omega),Nat.sub_zero,show n-1-k = n-1-(k+1)+1 by omega,ago_succ,← older]
    dsimp only
    congr 1
    omega

end TinyLlama.Delay
