import Mathlib.Tactic

-- Little-endian integers in byte lists.
namespace TinyLlama.LittleEndian

def leBytes : Nat → Nat → List UInt8
  | 0,_ => []
  | width+1,n => UInt8.ofNat n :: leBytes width (n/256)

def leNat : List UInt8 → Nat
  | [] => 0
  | b :: rest => b.toNat + 256 * leNat rest

@[simp] theorem leBytes_length (width n : Nat) : (leBytes width n).length = width := by
  induction width generalizing n with
  | zero => rfl
  | succ width ih => simp [leBytes,ih]

theorem leNat_leBytes (width n : Nat) (fits : n < 256^width) : leNat (leBytes width n) = n := by
  induction width generalizing n with
  | zero => simp only [pow_zero] at fits; simp [leBytes,leNat]; omega
  | succ width ih =>
    have smaller : n/256 < 256^width := by
      apply Nat.div_lt_of_lt_mul
      rw [← pow_succ']; exact fits
    have low : (UInt8.ofNat n).toNat = n % 256 := by simp
    simp only [leBytes,leNat,ih _ smaller,low]
    omega

theorem leNat_leBytes_mod (width n : Nat) : leNat (leBytes width n) = n % 256^width := by
  induction width generalizing n with
  | zero => simp [leBytes,leNat,Nat.mod_one]
  | succ width ih =>
    have low : (UInt8.ofNat n).toNat = n % 256 := by simp
    rw [leBytes,leNat,ih,low,Nat.pow_succ',Nat.mod_mul]

theorem leBytes_eq_map (width n : Nat) : leBytes width n = (List.range width).map fun i => UInt8.ofNat (n/256^i) := by
  induction width generalizing n with
  | zero => rfl
  | succ width ih =>
    rw [leBytes,ih,List.range_succ_eq_map,List.map_cons,List.map_map]
    simp [Function.comp_def,Nat.div_div_eq_div_mul,Nat.pow_succ']

theorem leNat_lt (bytes : List UInt8) : leNat bytes < 256^bytes.length := by
  induction bytes with
  | nil => simp [leNat]
  | cons b rest ih =>
    have low := b.toNat_lt
    simp only [leNat,List.length_cons,pow_succ]
    omega

end TinyLlama.LittleEndian
