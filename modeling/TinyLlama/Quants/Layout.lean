import TinyLlama.Quants.Scalar

namespace TinyLlama.Quants
open Access Bits Memory

section Codes
variable {K : Type}

def byte (s : Source K) (p : Nat) : Nat := (s.data p).toNat

theorem byte_lt (s : Source K) (p : Nat) : byte s p < 256 := (s.data p).toNat_lt

-- Split halves: the low nibbles of sixteen bytes, then the high ones.
def nibble (s : Source K) (qs o : Nat) : Nat := if o < 16 then byte s (qs+o) % 16 else byte s (qs+(o-16))/16

def fifth (s : Source K) (qh qs o : Nat) : Nat := nibble s qs o+load 4 s.data qh/2^o % 2*16

-- Nibbles of a K-quant: 64 elements share 32 bytes.
def kNibble (s : Source K) (qs o : Nat) : Nat := byte s (qs+(o/64*32+o % 32))/2^(o/32 % 2*4) % 16

def kFifth (s : Source K) (qh qs o : Nat) : Nat := kNibble s qs o+byte s (qh+o % 32)/2^(o/32) % 2*16

def sixLow (s : Source K) (ql o : Nat) : Nat :=
  let b := byte s (ql+(o/128*64+o % 128/32 % 2*32+o % 32))
  if 2 ≤ o % 128/32 then b/16 % 16 else b % 16

def six (s : Source K) (ql qh o : Nat) : Nat :=
  sixLow s ql o+byte s (qh+(o/128*32+o % 32))/2^(o % 128/32*2) % 4*16

def three (s : Source K) (qh qs o : Nat) : Nat :=
  byte s (qs+(o/128*32+o % 32))/2^(o/32 % 4*2) % 4+byte s (qh+o % 32)/2^(o/32) % 2*4

def twoMagnitude (s : Source K) (blk o : Nat) : Nat := byte s (blk+o/4)/2^(o % 4*2) % 4
def twoSign (s : Source K) (blk o : Nat) : Nat := byte s (blk+o/8)/2^(o % 8) % 2
def twoScale (s : Source K) (blk sb : Nat) : Nat :=
  if sb % 2 = 1 then byte s (blk+(64+sb/2))/16 else byte s (blk+(64+sb/2)) % 16

def threeScale (s : Source K) (scales sb : Nat) : Int :=
  (byte s (scales+sb % 8)/2^(if 8 ≤ sb then 4 else 0) % 16+byte s (scales+(8+sb % 4))/2^(sb/4*2) % 4*16 : Nat)-32

theorem nibble_lt (s : Source K) (qs o : Nat) : nibble s qs o < 16 := by
  have small := byte_lt s (qs+(o-16))
  unfold nibble
  split <;> omega

theorem kNibble_lt (s : Source K) (qs o : Nat) : kNibble s qs o < 16 := Nat.mod_lt _ (by decide)

theorem sixLow_lt (s : Source K) (ql o : Nat) : sixLow s ql o < 16 := by
  simp only [sixLow]
  split <;> omega

theorem six_lt (s : Source K) (ql qh o : Nat) : six s ql qh o < 256 := by
  have low := sixLow_lt s ql o
  have high : byte s (qh+(o/128*32+o % 32))/2^(o % 128/32*2) % 4 < 4 := Nat.mod_lt _ (by decide)
  unfold six
  omega

theorem kFifth_lt (s : Source K) (qh qs o : Nat) : kFifth s qh qs o < 256 := by
  have low := kNibble_lt s qs o
  have high : byte s (qh+o % 32)/2^(o/32) % 2 < 2 := Nat.mod_lt _ (by decide)
  unfold kFifth
  omega

theorem three_lt (s : Source K) (qh qs o : Nat) : three s qh qs o < 256 := by
  have low : byte s (qs+(o/128*32+o % 32))/2^(o/32 % 4*2) % 4 < 4 := Nat.mod_lt _ (by decide)
  have high : byte s (qh+o % 32)/2^(o/32) % 2 < 2 := Nat.mod_lt _ (by decide)
  unfold three
  omega

theorem kNibble_sub (s : Source K) (qs sb : Nat) {m : Nat} (small : m < 32) : kNibble s qs (sb*32+m) =
    if sb % 2 = 0 then byte s (qs+(sb/2*32+m)) % 16 else byte s (qs+(sb/2*32+m))/16 := by
  have pair : (sb*32+m)/64 = sb/2 := by omega
  have inner : (sb*32+m) % 32 = m := by omega
  have group : (sb*32+m)/32 = sb := by omega
  have wide := byte_lt s (qs+(sb/2*32+m))
  rw [kNibble,pair,inner,group]
  rcases Nat.mod_two_eq_zero_or_one sb with even | odd
  · simp [even]
  · rw [if_neg (by omega),odd]
    omega

theorem kFifth_sub (s : Source K) (qh qs sb : Nat) {m : Nat} (small : m < 32) : kFifth s qh qs (sb*32+m) =
    kNibble s qs (sb*32+m)+byte s (qh+m)/2^sb % 2*16 := by
  have inner : (sb*32+m) % 32 = m := by omega
  have group : (sb*32+m)/32 = sb := by omega
  rw [kFifth,inner,group]

theorem block32 {bi o : Nat} (small : o < 32) : (bi*32+o) >>> 5 = bi := by
  rw [Nat.shiftRight_eq_div_pow]
  omega

theorem offset32 {bi o : Nat} (small : o < 32) : (bi*32+o) &&& 31 = o := by
  rw [and_31]
  omega

theorem block256 {bi o : Nat} (small : o < 256) : (bi*256+o) >>> 8 = bi := by
  rw [Nat.shiftRight_eq_div_pow]
  omega

theorem offset256 {bi o : Nat} (small : o < 256) : (bi*256+o) &&& 255 = o := by
  rw [and_255]
  omega

theorem value_q4Nibble (s : Source K) (qs : Nat) {o : Nat} (small : o < 32) :
    value (q4Nibble (K:=K) qs o) s = nibble s qs o := by
  have byte' := byte_lt s (qs+(o-16))
  by_cases low : o < 16
  · simp [q4Nibble,nibble,low,and_fifteen,Nat.mod_eq_of_lt low,byte]
  · have wrapped : o % 16 = o-16 := by omega
    simp only [q4Nibble,nibble,low,and_fifteen,wrapped,if_false,value_bind,value_byteAt,value_pure,
      Nat.shiftRight_eq_div_pow]
    exact Nat.mod_eq_of_lt (by unfold byte at byte'; omega)

variable [Field K] (s : Source K) (bi : Nat) {o : Nat}

theorem value_dequantQ8_0 (small : o < 32) : value (dequantQ8_0 (bi*32+o)) s =
    (signed 8 (byte s (bi*34+2+o)) : K)*value (f16At (bi*34)) s := by
  simp [dequantQ8_0,block32 small,offset32 small,byte]

theorem value_dequantQ8_1 (small : o < 32) : value (dequantQ8_1 (bi*32+o)) s =
    (signed 8 (byte s (bi*40+8+o)) : K)*s.f32 (load 4 s.data (bi*40)) := by
  simp [dequantQ8_1,block32 small,offset32 small,byte]

theorem value_dequantQ4_0 (small : o < 32) : value (dequantQ4_0 (bi*32+o)) s =
    ((nibble s (bi*18+2) o : K)-8)*value (f16At (bi*18)) s := by
  simp [dequantQ4_0,block32 small,offset32 small,value_q4Nibble s _ small]

theorem value_dequantQ4_1 (small : o < 32) : value (dequantQ4_1 (bi*32+o)) s =
    (nibble s (bi*20+4) o : K)*value (f16At (bi*20)) s+value (f16At (bi*20+2)) s := by
  simp [dequantQ4_1,block32 small,offset32 small,value_q4Nibble s _ small]

theorem value_dequantQ5_0 (small : o < 32) : value (dequantQ5_0 (bi*32+o)) s =
    ((fifth s (bi*22+2) (bi*22+6) o : K)-16)*value (f16At (bi*22)) s := by
  have low := nibble_lt s (bi*22+6) o
  simp [dequantQ5_0,block32 small,offset32 small,value_q4Nibble s _ small,fifth,Nat.shiftRight_eq_div_pow,
    shiftLeft_or (k:=4) _ low]

theorem value_dequantQ5_1 (small : o < 32) : value (dequantQ5_1 (bi*32+o)) s =
    (fifth s (bi*24+4) (bi*24+8) o : K)*value (f16At (bi*24)) s+value (f16At (bi*24+2)) s := by
  have low := nibble_lt s (bi*24+8) o
  simp [dequantQ5_1,block32 small,offset32 small,value_q4Nibble s _ small,fifth,Nat.shiftRight_eq_div_pow,
    shiftLeft_or (k:=4) _ low]

theorem value_dequantIq4Nl (small : o < 32) : value (dequantIq4Nl (bi*32+o)) s =
    value (f16At (bi*18)) s*s.entry .iq4NlValues (nibble s (bi*18+2) o) := by
  by_cases low : o < 16
  · simp [dequantIq4Nl,block32 small,offset32 small,low,nibble,byte,and_fifteen,Nat.add_assoc]
  · have place : 2+(o-16) = 2+o-16 := by omega
    simp [dequantIq4Nl,block32 small,offset32 small,low,nibble,byte,Nat.shiftRight_eq_div_pow,Nat.add_assoc,place]

theorem value_dequantQ8K (small : o < 256) : value (dequantQ8K (bi*256+o)) s =
    (signed 8 (byte s (bi*292+36+o)) : K)*value (f16At (bi*292+(4+2*(o/16)))) s*s.f32 (load 4 s.data (bi*292)) := by
  simp [dequantQ8K,block256 small,offset256 small,byte,Nat.shiftRight_eq_div_pow]

theorem value_dequantQ6K (small : o < 256) : value (dequantQ6K (bi*256+o)) s =
    value (f16At (bi*210+208)) s*(signed 8 (byte s (bi*210+(192+o/16))) : K)*
      (((six s (bi*210) (bi*210+128) o : Int)-32 : Int) : K) := by
  have inner : o % 128 % 32 = o % 32 := by omega
  by_cases upper : 2 ≤ o % 128/32 <;>
    simp [dequantQ6K,block256 small,offset256 small,Nat.shiftRight_eq_div_pow,Nat.shiftLeft_eq,and_127,and_31,
      and_three,and_fifteen,inner,six,sixLow,byte,upper,mod16_or,Nat.add_assoc]

theorem value_dequantQ5K (small : o < 256) : value (dequantQ5K (bi*256+o)) s =
    value (f16At (bi*176)) s*((value (q4kScaleMin (K:=K) (bi*176+4) (o/32)) s).1 : K)*
      (kFifth s (bi*176+16) (bi*176+48) o : K)-
        value (f16At (bi*176+2)) s*((value (q4kScaleMin (K:=K) (bi*176+4) (o/32)) s).2 : K) := by
  simp [dequantQ5K,block256 small,offset256 small,Nat.shiftRight_eq_div_pow,and_31,
    and_fifteen,Nat.shiftLeft_eq,kFifth,kNibble,byte,mod16_or,Nat.add_assoc]

theorem value_dequantQ4K (small : o < 256) : value (dequantQ4K (bi*256+o)) s =
    value (f16At (bi*144)) s*((value (q4kScaleMin (K:=K) (bi*144+4) (o/32)) s).1 : K)*
      (kNibble s (bi*144+16) o : K)-
        value (f16At (bi*144+2)) s*((value (q4kScaleMin (K:=K) (bi*144+4) (o/32)) s).2 : K) := by
  simp [dequantQ4K,block256 small,offset256 small,Nat.shiftRight_eq_div_pow,and_31,and_fifteen,kNibble,byte,
    Nat.add_assoc]

theorem value_dequantQ3K (small : o < 256) : value (dequantQ3K (bi*256+o)) s =
    value (f16At (bi*110+108)) s*(threeScale s (bi*110+96) (o/16) : K)*
      (((three s (bi*110) (bi*110+32) o : Int)-4 : Int) : K) := by
  simp [dequantQ3K,q3kScale,block256 small,offset256 small,Nat.shiftRight_eq_div_pow,and_31,and_fifteen,
    and_three,and_seven,Nat.shiftLeft_eq,three,threeScale,byte,mod4_or,mod16_or,Nat.add_assoc]

theorem value_dequantQ2K (small : o < 256) : value (dequantQ2K (bi*256+o)) s =
    value (f16At (bi*84+80)) s*(twoScale s (bi*84) (o/16) : K)*
      (((twoMagnitude s (bi*84) o : Int)-twoSign s (bi*84) o*4 : Int) : K)-value (f16At (bi*84+82)) s := by
  by_cases odd : o/16 % 2 = 1 <;>
    simp [dequantQ2K,block256 small,offset256 small,Nat.shiftRight_eq_div_pow,Nat.shiftLeft_eq,and_fifteen,and_three,
      and_seven,twoMagnitude,twoSign,twoScale,byte,odd]

end Codes

end TinyLlama.Quants
