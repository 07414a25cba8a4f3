import TinyLlama.Lib.LittleEndian

-- A flat memory of bytes: little-endian words, and ranges filled or copied.
namespace TinyLlama.Memory
open LittleEndian

abbrev Mem := Nat → UInt8

def load (width : Nat) (m : Mem) (a : Nat) : Nat := leNat ((List.range width).map fun i => m (a+i))

def store (width : Nat) (m : Mem) (a v : Nat) : Mem :=
  fun x => if a ≤ x ∧ x < a+width then (leBytes width v).getD (x-a) 0 else m x

def fill (m : Mem) (a n : Nat) (junk : Nat → UInt8) : Mem :=
  fun x => if a ≤ x ∧ x < a+n then junk x else m x

def copy (m : Mem) (dst src n : Nat) : Mem :=
  fun x => if dst ≤ x ∧ x < dst+n then m (src+(x-dst)) else m x

def Apart (a n b k : Nat) : Prop := a+n ≤ b ∨ b+k ≤ a

theorem Apart.symm (apart : Apart a n b k) : Apart b k a n := Or.symm apart

theorem load_congr (same : ∀ x, a ≤ x → x < a+width → m' x = m x) : load width m' a = load width m a := by
  unfold load
  congr 1
  refine List.map_congr_left fun i below => ?_
  have small := List.mem_range.mp below
  exact same (a+i) (by omega) (by omega)

theorem load_lt (width : Nat) (m : Mem) (a : Nat) : load width m a < 256^width := by
  have bound := leNat_lt ((List.range width).map fun i => m (a+i))
  rwa [List.length_map,List.length_range] at bound

theorem store_other (out : x < a ∨ a+width ≤ x) : store width m a v x = m x := by
  unfold store
  rw [if_neg]
  omega

theorem load_store_same (fits : v < 256^width) : load width (store width m a v) a = v := by
  have bytes : ((List.range width).map fun i => store width m a v (a+i)) = leBytes width v := by
    refine List.ext_getElem (by simp) fun i below _ => ?_
    simp only [List.length_map,List.length_range] at below
    have here : i < (leBytes width v).length := by rw [leBytes_length]; exact below
    have inside : a ≤ a+i ∧ a+i < a+width := by omega
    rw [List.getElem_map,List.getElem_range,store,if_pos inside,Nat.add_sub_cancel_left,List.getD_eq_getElem?_getD,
      List.getElem?_eq_getElem here,Option.getD_some]
  rw [load,bytes,leNat_leBytes width v fits]

theorem load_store_apart (apart : Apart a width b k) : load k (store width m a v) b = load k m b := by
  refine load_congr fun x low high => store_other ?_
  rcases apart with before | after <;> omega

theorem fill_other (out : x < a ∨ a+n ≤ x) : fill m a n junk x = m x := by
  unfold fill
  rw [if_neg]
  omega

theorem copy_other (out : x < dst ∨ dst+n ≤ x) : copy m dst src n x = m x := by
  unfold copy
  rw [if_neg]
  omega

theorem copy_inside (low : dst ≤ x) (high : x < dst+n) : copy m dst src n x = m (src+(x-dst)) := by
  unfold copy
  rw [if_pos ⟨low,high⟩]

end TinyLlama.Memory
