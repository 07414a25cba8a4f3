import Mathlib.Tactic

-- Fixed-width integers of the C code as naturals, and its C strings.
namespace TinyLlama

def u8 (n : Nat) : Nat := n % 2^8
def u32 (n : Nat) : Nat := n % 2^32
def u64 (n : Nat) : Nat := n % 2^64
def uint64Max : Nat := 2^64-1
def int32Max : Nat := 2^31-1

-- A `u32` stored in an `i32`.
def i32 (n : Nat) : Int :=
  if n % 2^32 < 2^31 then (n % 2^32 : Nat) else (n % 2^32 : Nat) - 2^32

theorem u8_of_lt (h : n < 2^8) : u8 n = n := Nat.mod_eq_of_lt h
theorem u32_of_lt (h : n < 2^32) : u32 n = n := Nat.mod_eq_of_lt h
theorem u64_of_lt (h : n < 2^64) : u64 n = n := Nat.mod_eq_of_lt h
theorem u8_lt (n : Nat) : u8 n < 2^8 := Nat.mod_lt _ (by decide)
theorem u32_lt (n : Nat) : u32 n < 2^32 := Nat.mod_lt _ (by decide)
theorem u64_lt (n : Nat) : u64 n < 2^64 := Nat.mod_lt _ (by decide)
theorem u64_le (n : Nat) : u64 n ≤ n := Nat.mod_le _ _

theorem i32_of_lt (h : n < 2^31) : i32 n = n := by
  have small : n % 2^32 = n := Nat.mod_eq_of_lt (by omega)
  simp only [i32,small,if_pos h]

-- The constants of the float formulas, each at least two as a field's literal asks.
instance four_atLeastTwo : Nat.AtLeastTwo 4 := ⟨by decide⟩
instance eight_atLeastTwo : Nat.AtLeastTwo 8 := ⟨by decide⟩
instance nine_atLeastTwo : Nat.AtLeastTwo 9 := ⟨by decide⟩
instance ten_atLeastTwo : Nat.AtLeastTwo 10 := ⟨by decide⟩
instance sixteen_atLeastTwo : Nat.AtLeastTwo 16 := ⟨by decide⟩
instance twenty_atLeastTwo : Nat.AtLeastTwo 20 := ⟨by decide⟩
instance int8Max_atLeastTwo : Nat.AtLeastTwo 127 := ⟨by decide⟩

-- The bytes of a C string literal, without its terminating NUL.
def cstr (s : String) : List UInt8 := s.toList.map fun c => UInt8.ofNat c.toNat

-- A literal is the string of its characters: no byte of it has to be decoded.
theorem cstr_ofList (l : List Char) : cstr (String.ofList l) = l.map fun c => UInt8.ofNat c.toNat := by
  rw [cstr,String.toList_ofList]

theorem cstr_length (l : List Char) : (cstr (String.ofList l)).length = l.length := by rw [cstr_ofList,List.length_map]

end TinyLlama
