import TinyLlama.Machine
import TinyLlama.Lib.Sweep

-- backend/cpu/cpu_op.c: the small kernels of the state-space operators. The arithmetic is exact, libm a parameter.
namespace TinyLlama.Cpu
open Sweep

structure Libm (K : Type) where
  exp : K → K
  log1p : K → K
  sqrt : K → K

section Kernels
variable {K : Type} [Field K] (lm : Libm K)

def softplus [LinearOrder K] (x : K) : K := if x > 20 then x else lm.log1p (lm.exp x)

def squares (x : Nat → K) (base n : Nat) : K := n.fold (fun j _ ss => ss+x (base+j)*x (base+j)) 0

def rmsNormInplace (x : Nat → K) (base : Nat) (weight : Nat → K) (n : Nat) (eps : K) : Nat → K :=
  let ss := 1/lm.sqrt (squares x base n/n+eps)
  n.fold (fun j _ x => Function.update x (base+j) (x (base+j)*ss*weight j)) x

end Kernels

section Rows
variable {K : Type} [Field K] (lm : Libm K)

theorem squares_eq (x : Nat → K) (base n : Nat) : squares x base n = ∑ j ∈ Finset.range n,x (base+j)*x (base+j) := by
  rw [squares,fold_total (m:=fun ss : K => ss) (fun _ _ _ => rfl),zero_add]

theorem rmsNormInplace_eq (x : Nat → K) (base : Nat) (weight : Nat → K) (n : Nat) (eps : K) :
    rmsNormInplace lm x base weight n eps =
      splice x base n fun j => x (base+j)*(1/lm.sqrt ((∑ i ∈ Finset.range n,x (base+i)*x (base+i))/n+eps))*weight j := by
  rw [rmsNormInplace,squares_eq]
  exact fold_modify_from n base (fun j c => c*(1/lm.sqrt ((∑ i ∈ Finset.range n,x (base+i)*x (base+i))/n+eps))*weight j) x

end Rows

end TinyLlama.Cpu
