import TinyLlama.Lib.Sweep

-- Lanes that run in step: a register is the function from lanes to its values.
namespace TinyLlama.Warp
open Sweep

variable {α : Type}

-- A lane that would read past its group of `width` lanes reads its own register.
def shflDown (width o : Nat) (v : Nat → α) (lane : Nat) : α := if lane % width+o < width then v (lane+o) else v lane

def shflXor (o : Nat) (v : Nat → α) (lane : Nat) : α := v (lane ^^^ o)

-- The rounds with offsets 2^(k-1), ..., 2, 1.
def reduceDown [Add α] (width : Nat) : Nat → (Nat → α) → Nat → α
  | 0,v => v
  | k+1,v => reduceDown width k fun lane => v lane+shflDown width (2^k) v lane

def reduceDownBy (op : α → α → α) (width : Nat) : Nat → (Nat → α) → Nat → α
  | 0,v => v
  | k+1,v => reduceDownBy op width k fun lane => op (v lane) (shflDown width (2^k) v lane)

def exchange (op : α → α → α) : Nat → (Nat → α) → Nat → α
  | 0,v => v
  | k+1,v => exchange op k fun lane => op (v lane) (shflXor (2^k) v lane)

section Reductions
variable {M : Type} [AddCommMonoid M] {k width lane : Nat}

theorem reduceDown_eq (v : Nat → M) (room : lane % width+2^k ≤ width) :
    reduceDown width k v lane = ∑ j ∈ Finset.range (2^k),v (lane+j) := by
  induction k generalizing v with
  | zero => simp [reduceDown]
  | succ k ih =>
    have double : 2^(k+1) = 2^k+2^k := by ring
    have positive : 0 < 2^k := Nat.two_pow_pos k
    have inner : ∀ j < 2^k,shflDown width (2^k) v (lane+j) = v (lane+(2^k+j)) := by
      intro j below
      have place : (lane+j) % width = lane % width+j := by
        rw [Nat.add_mod,Nat.mod_eq_of_lt (b:=width) (a:=j) (by omega),Nat.mod_eq_of_lt (by omega)]
      rw [shflDown,place,if_pos (by omega),Nat.add_assoc,Nat.add_comm j]
    rw [reduceDown,ih _ (by omega),Finset.sum_add_distrib,double,Finset.sum_range_add]
    congr 1
    exact Finset.sum_congr rfl fun j member => inner j (Finset.mem_range.mp member)

theorem reduceDown_zero (v : Nat → M) (room : 2^k ≤ width) : reduceDown width k v 0 = ∑ j ∈ Finset.range (2^k),v j := by
  rw [reduceDown_eq v (by simpa using room)]
  simp only [Nat.zero_add]

theorem reduceDownBy_max_le {K : Type} [LinearOrder K] (v : Nat → K) (c : K) (room : lane % width+2^k ≤ width) :
    reduceDownBy max width k v lane ≤ c ↔ ∀ j < 2^k,v (lane+j) ≤ c := by
  induction k generalizing v with
  | zero => simp [reduceDownBy]
  | succ k ih =>
    have double : 2^(k+1) = 2^k+2^k := by ring
    have positive : 0 < 2^k := Nat.two_pow_pos k
    have inner : ∀ j < 2^k,shflDown width (2^k) v (lane+j) = v (lane+(j+2^k)) := by
      intro j below
      have place : (lane+j) % width = lane % width+j := by
        rw [Nat.add_mod,Nat.mod_eq_of_lt (b:=width) (a:=j) (by omega),Nat.mod_eq_of_lt (by omega)]
      rw [shflDown,place,if_pos (by omega),Nat.add_assoc]
    rw [reduceDownBy,ih _ (by omega)]
    constructor
    · intro all j below
      by_cases low : j < 2^k
      · exact (max_le_iff.mp (all j low)).1
      · have far := (max_le_iff.mp (all (j-2^k) (by omega))).2
        rwa [inner (j-2^k) (by omega),Nat.sub_add_cancel (by omega)] at far
    · intro all j below
      rw [inner j below]
      exact max_le (all j (by omega)) (all _ (by omega))

theorem xor_two_pow {m : Nat} (small : m < 2^k) : m ^^^ 2^k = 2^k+m := by
  have high : (m ^^^ 2^k)/2^k = 1 := by
    have shifted : (m ^^^ 2^k) >>> k = 1 := by
      rw [Nat.shiftRight_xor_distrib,Nat.shiftRight_eq_div_pow,Nat.shiftRight_eq_div_pow,Nat.div_eq_of_lt small,
        Nat.div_self (Nat.two_pow_pos k),Nat.zero_xor]
    rwa [Nat.shiftRight_eq_div_pow] at shifted
  have low : (m ^^^ 2^k) % 2^k = m := by
    rw [Nat.xor_mod_two_pow,Nat.mod_self,Nat.xor_zero,Nat.mod_eq_of_lt small]
  have split := Nat.div_add_mod (m ^^^ 2^k) (2^k)
  rw [high,low,Nat.mul_one] at split
  exact split.symm

theorem exchange_sum (v : Nat → M) : exchange (·+·) k v lane = ∑ m ∈ Finset.range (2^k),v (lane ^^^ m) := by
  induction k generalizing v with
  | zero => simp [exchange]
  | succ k ih =>
    have double : 2^(k+1) = 2^k+2^k := by ring
    rw [exchange,ih,Finset.sum_add_distrib,double,Finset.sum_range_add]
    congr 1
    refine Finset.sum_congr rfl fun m member => ?_
    rw [shflXor,Nat.xor_assoc,xor_two_pow (Finset.mem_range.mp member)]

theorem exchange_max_le {K : Type} [LinearOrder K] (v : Nat → K) (c : K) :
    exchange max k v lane ≤ c ↔ ∀ m < 2^k,v (lane ^^^ m) ≤ c := by
  induction k generalizing v with
  | zero =>
    refine ⟨fun small m below => ?_,fun all => ?_⟩
    · rw [Nat.pow_zero,Nat.lt_one_iff] at below
      rw [below,Nat.xor_zero]
      exact small
    · have own := all 0 (by decide)
      rwa [Nat.xor_zero] at own
  | succ k ih =>
    have double : 2^(k+1) = 2^k+2^k := by ring
    rw [exchange,ih]
    refine ⟨fun small m below => ?_,fun all m below => max_le (all m (by omega)) ?_⟩
    · by_cases low : m < 2^k
      · exact (max_le_iff.mp (small m low)).1
      · have flipped : m ^^^ 2^k < 2^k := by
          have high : m >>> k = 1 := by
            rw [Nat.shiftRight_eq_div_pow]
            exact Nat.div_eq_of_lt_le (by omega) (by omega)
          have cleared : (m ^^^ 2^k) >>> k = 0 := by
            rw [Nat.shiftRight_xor_distrib,high,Nat.shiftRight_eq_div_pow,Nat.div_self (Nat.two_pow_pos k),Nat.xor_self]
          rw [Nat.shiftRight_eq_div_pow] at cleared
          exact (Nat.div_eq_zero_iff_lt (Nat.two_pow_pos k)).mp cleared
        have far := (max_le_iff.mp (small _ flipped)).2
        rwa [shflXor,← Nat.xor_assoc lane,Nat.xor_assoc (lane ^^^ m),Nat.xor_self,Nat.xor_zero] at far
    · have both : m ^^^ 2^k < 2^(k+1) := Nat.xor_lt_two_pow (by omega) (by omega)
      rw [shflXor,Nat.xor_assoc]
      exact all _ both

theorem exchange_max_le_iff {K : Type} [LinearOrder K] (v : Nat → K) (c : K) (here : lane < 2^k) :
    exchange max k v lane ≤ c ↔ ∀ j < 2^k,v j ≤ c := by
  rw [exchange_max_le]
  refine ⟨fun small j below => ?_,fun all m below => all _ (Nat.xor_lt_two_pow here below)⟩
  have partner := small (lane ^^^ j) (Nat.xor_lt_two_pow here below)
  rwa [← Nat.xor_assoc,Nat.xor_self,Nat.zero_xor] at partner

end Reductions

section Strides

-- for (c = start; c < n; c += step)
def rounds (start step n : Nat) : Nat := (n-start+step-1)/step

def strided {σ : Type} (start step n : Nat) (f : Nat → σ → σ) (s : σ) : σ :=
  (rounds start step n).fold (fun t _ s => f (start+t*step) s) s

theorem lt_rounds {start step n t : Nat} (wide : 0 < step) : t < rounds start step n ↔ start+t*step < n := by
  unfold rounds
  rw [Nat.lt_iff_add_one_le,Nat.le_div_iff_mul_le wide,Nat.succ_mul]
  omega

theorem rounds_after {start step n m : Nat} (wide : 0 < step) :
    rounds (start+m*step) step n = rounds start step n-m := by
  refine eq_of_forall_lt_iff fun t => ?_
  have later : start+m*step+t*step = start+(m+t)*step := by ring
  rw [lt_rounds wide,later,← lt_rounds wide]
  omega

theorem rounds_zero {step n : Nat} (wide : 0 < step) (whole : n % step = 0) : rounds 0 step n*step = n := by
  obtain ⟨k,rfl⟩ := Nat.dvd_of_mod_eq_zero whole
  unfold rounds
  have count : (step*k-0+step-1)/step = k := by
    refine Nat.div_eq_of_lt_le ?_ ?_
    · rw [Nat.mul_comm]
      omega
    · rw [Nat.succ_mul,Nat.mul_comm k]
      omega
  rw [count,Nat.mul_comm]

variable {M : Type} [AddCommMonoid M]

theorem strided_sum (start step n : Nat) (d : Nat → M) (s : M) :
    strided start step n (fun c acc => acc+d c) s = s+∑ t ∈ Finset.range (rounds start step n),d (start+t*step) :=
  fold_total (m:=fun s => s) (fun _ _ _ => rfl) s

theorem sum_strides {step : Nat} (wide : 0 < step) (n : Nat) (d : Nat → M) :
    ∑ o ∈ Finset.range step,∑ t ∈ Finset.range (rounds o step n),d (o+t*step) = ∑ c ∈ Finset.range n,d c := by
  have inside : ∀ o ∈ Finset.range step,∑ t ∈ Finset.range (rounds o step n),d (o+t*step) =
      ∑ t ∈ Finset.range n,if t*step+o < n then d (t*step+o) else 0 := by
    intro o member
    rw [← Finset.sum_filter]
    refine Finset.sum_congr ?_ fun t _ => by rw [Nat.add_comm]
    ext t
    rw [Finset.mem_range,lt_rounds wide,Finset.mem_filter,Finset.mem_range,Nat.add_comm o]
    refine ⟨fun below => ⟨?_,below⟩,And.right⟩
    have grown : t ≤ t*step := Nat.le_mul_of_pos_right t wide
    omega
  rw [Finset.sum_congr rfl inside,Finset.sum_comm,
    sum_stride n step fun c => if c < n then d c else 0,← Finset.sum_filter]
  refine Finset.sum_congr ?_ fun _ _ => rfl
  ext c
  rw [Finset.mem_filter,Finset.mem_range,Finset.mem_range]
  refine ⟨And.right,fun below => ⟨?_,below⟩⟩
  have grown : n ≤ n*step := Nat.le_mul_of_pos_right n wide
  omega

end Strides

end TinyLlama.Warp
