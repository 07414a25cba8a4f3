import TinyLlama.Quants.DotExact

-- backend/cpu/cpu_x86.c: y = A x. The build with AVX2 and FMA has its own loop.
namespace TinyLlama.Cpu
open Quants Simd Sweep

section Kernels
variable {K : Type} [Field K]

def avxHsumF32x8 (v : Ps K) : K :=
  let t := hadd256Ps v v
  let t := hadd256Ps t t
  let hi := extractf128Ps t
  cvtssF32 (addPs t hi)

def matVecAvx2Row (a x : Nat → K) (k : Nat) : K :=
  let (s0,s1) := (k/16).fold (fun t _ (s : Ps K × Ps K) =>
    (fmaddPs (loaduPs a (t*16)) (loaduPs x (t*16)) s.1,fmaddPs (loaduPs a (t*16+8)) (loaduPs x (t*16+8)) s.2))
    (setzeroPs,setzeroPs)
  (k-k/16*16).fold (fun t _ sum => sum+a (k/16*16+t)*x (k/16*16+t)) (avxHsumF32x8 (addPs s0 s1))

def matVecSseRow (a x : Nat → K) (k : Nat) : K :=
  let acc := (k/16).fold (fun t _ acc => acc.mulAdd (Quad.load a (t*16)) (Quad.load x (t*16))) Quad.zero
  (k-k/16*16).fold (fun t _ sum => sum+a (k/16*16+t)*x (k/16*16+t)) acc.hsum

def mulMatVec (avx2 : Bool) (y A x : Nat → K) (m k : Nat) : Nat → K :=
  if m = 0 ∨ k = 0 then y
  else m.fold (fun i _ y =>
    let a j := A (i*k+j)
    Function.update y i (if avx2 then matVecAvx2Row a x k else matVecSseRow a x k)) y

theorem avxHsumF32x8_eq (v : Ps K) : avxHsumF32x8 v = ∑ n ∈ Finset.range 8,v n := by
  simp [avxHsumF32x8,hadd256Ps,extractf128Ps,haddPs,cvtssF32,Finset.sum_range_succ]
  ring

theorem row_split (a x : Nat → K) (k : Nat) : ∑ j ∈ Finset.range (k/16*16),a j*x j+
    ∑ t ∈ Finset.range (k-k/16*16),a (k/16*16+t)*x (k/16*16+t) = ∑ j ∈ Finset.range k,a j*x j := by
  have parts := Finset.sum_range_add (fun j => a j*x j) (k/16*16) (k-k/16*16)
  rw [Nat.add_sub_cancel' (Nat.div_mul_le_self k 16)] at parts
  exact parts.symm

theorem matVecAvx2Row_eq (a x : Nat → K) (k : Nat) : matVecAvx2Row a x k = ∑ j ∈ Finset.range k,a j*x j := by
  set both : Ps K × Ps K → K := fun s => avxHsumF32x8 (addPs s.1 s.2) with named
  have round : ∀ t < k/16,∀ s : Ps K × Ps K,both (fmaddPs (loaduPs a (t*16)) (loaduPs x (t*16)) s.1,
      fmaddPs (loaduPs a (t*16+8)) (loaduPs x (t*16+8)) s.2) = both s+∑ j ∈ Finset.range 16,a (t*16+j)*x (t*16+j) := by
    intro t _ s
    simp only [named,avxHsumF32x8_eq,addPs_at,fmaddPs,loaduPs_at]
    rw [Finset.sum_range_add (n:=8) (m:=8) fun j => a (t*16+j)*x (t*16+j)]
    simp only [Finset.sum_add_distrib,Nat.add_assoc]
    ring
  have registers := fold_total (m:=both) round (setzeroPs,setzeroPs)
  have start : both (setzeroPs,setzeroPs) = 0 := by simp [named,avxHsumF32x8_eq]
  rw [start,zero_add,sum_stride (k/16) 16 fun j => a j*x j] at registers
  unfold matVecAvx2Row
  dsimp only
  rw [fold_total (m:=fun sum : K => sum) (fun t _ sum => rfl),← row_split a x k,← registers]

theorem matVecSseRow_eq (a x : Nat → K) (k : Nat) : matVecSseRow a x k = ∑ j ∈ Finset.range k,a j*x j := by
  have registers := dot_loop (n:=k/16) (p:=0) (x:=x) (w:=fun t => Quad.load a (t*16)) (g:=a)
    fun t _ j small => Quad.load_at' _ _ small
  simp only [Nat.zero_add] at registers
  unfold matVecSseRow
  dsimp only
  rw [fold_total (m:=fun sum : K => sum) (fun t _ sum => rfl),registers,row_split a x k]

theorem mulMatVec_eq (avx2 : Bool) (y A x : Nat → K) {m k : Nat} (tall : 0 < m) (wide : 0 < k) (i : Nat) :
    mulMatVec avx2 y A x m k i = if i < m then ∑ j ∈ Finset.range k,A (i*k+j)*x j else y i := by
  have row : ∀ i,(if avx2 then matVecAvx2Row (fun j => A (i*k+j)) x k else matVecSseRow (fun j => A (i*k+j)) x k) =
      ∑ j ∈ Finset.range k,A (i*k+j)*x j := by
    intro i
    split
    · exact matVecAvx2Row_eq _ x k
    · exact matVecSseRow_eq _ x k
  unfold mulMatVec
  rw [if_neg (by omega)]
  simp only [row]
  exact fold_update m _ y i

end Kernels

end TinyLlama.Cpu
