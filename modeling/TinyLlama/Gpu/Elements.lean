import TinyLlama.Gpu.Matmul

namespace TinyLlama.Gpu
open Quants Memory Bits Warp Access
open Device (ldU32 ldF16 ldF32 ldI8)

section Formats
variable {K : Type} (w : Source K)

theorem value_f16At (p : Nat) : (f16At (K:=K) p).value w = ldF16 w p := by simp [f16At,ldF16]

theorem q4Nibble_small (qs : Nat) {o : Nat} (small : o < 32) : Device.q4Nibble w qs o = nibble w qs o :=
  value_q4Nibble w qs small

variable [Field K] (bi : Nat) {lane j : Nat}

theorem blkElem_short (type : Nat) (short : type ∈ [2,3,6,7,8,9]) (small : lane < 32) :
    blkElem type w (bi*(qt type).2) lane 0 (blkScale type w (bi*(qt type).2) lane) = dequantOneT type w (bi*32+lane) := by
  simp only [List.mem_cons,List.not_mem_nil,or_false] at short
  have plain : lane*1+0 = lane := by omega
  rcases short with rfl | rfl | rfl | rfl | rfl | rfl
  · rw [dequantOneT_host,show ggufDequant 2 (bi*32+lane) = dequantQ4_0 (K:=K) (bi*32+lane) from rfl,value_dequantQ4_0 w bi small,
      value_f16At]
    simp only [blkElem,blkScale,qt,ept,Nat.reduceDiv,plain]
    rw [q4Nibble_small w _ small]
  · rw [dequantOneT_host,show ggufDequant 3 (bi*32+lane) = dequantQ4_1 (K:=K) (bi*32+lane) from rfl,value_dequantQ4_1 w bi small,
      value_f16At,value_f16At]
    simp only [blkElem,blkScale,qt,ept,Nat.reduceDiv,plain]
    rw [q4Nibble_small w _ small]
  · have low := nibble_lt w (bi*22+6) lane
    rw [dequantOneT_host,show ggufDequant 6 (bi*32+lane) = dequantQ5_0 (K:=K) (bi*32+lane) from rfl,value_dequantQ5_0 w bi small,
      value_f16At]
    simp only [blkElem,blkScale,qt,ept,Nat.reduceDiv,plain]
    rw [q4Nibble_small w _ small,ldU32_load,and_one,shiftLeft_or (k:=4) _ low,Nat.shiftRight_eq_div_pow,fifth,
      show 2^4 = 16 from rfl]
  · have low := nibble_lt w (bi*24+8) lane
    rw [dequantOneT_host,show ggufDequant 7 (bi*32+lane) = dequantQ5_1 (K:=K) (bi*32+lane) from rfl,value_dequantQ5_1 w bi small,
      value_f16At,value_f16At]
    simp only [blkElem,blkScale,qt,ept,Nat.reduceDiv,plain]
    rw [q4Nibble_small w _ small,ldU32_load,and_one,shiftLeft_or (k:=4) _ low,Nat.shiftRight_eq_div_pow,fifth,
      show 2^4 = 16 from rfl]
  · rw [dequantOneT_host,show ggufDequant 8 (bi*32+lane) = dequantQ8_0 (K:=K) (bi*32+lane) from rfl,value_dequantQ8_0 w bi small,
      value_f16At]
    simp only [blkElem,blkScale,qt,ept,Nat.reduceDiv,plain,ldI8,Nat.add_assoc]
  · rw [dequantOneT_host,show ggufDequant 9 (bi*32+lane) = dequantQ8_1 (K:=K) (bi*32+lane) from rfl,value_dequantQ8_1 w bi small]
    simp only [blkElem,blkScale,qt,ept,Nat.reduceDiv,plain,ldI8,ldF32,ldU32_load,Nat.add_assoc]

-- Formats of 256 elements, eight to a lane: where the lane and its element fall.
section Long
variable (inside : lane < 32) (small : j < 8)
include inside small

theorem place_lt : lane*8+j < 256 := by omega

theorem blkElem_q2K : blkElem 10 w (bi*84) lane j (blkScale 10 w (bi*84) lane) = dequantOneT 10 w (bi*256+(lane*8+j)) := by
  have sub : (lane*8+j)/16 = lane/2 := by omega
  have quarter : (lane*8+j)/4 = 2*lane+j/4 := by omega
  have bits : (lane*8+j) % 4 = j % 4 := by omega
  have eighth : (lane*8+j)/8 = lane := by omega
  have bit : (lane*8+j) % 8 = j := by omega
  have start : lane*8/16 = lane/2 := by omega
  rw [dequantOneT_host,show ggufDequant 10 (bi*256+(lane*8+j)) = dequantQ2K (K:=K) (bi*256+(lane*8+j)) from rfl,
    value_dequantQ2K w bi (place_lt inside small),value_f16At,value_f16At,sub]
  simp only [blkElem,blkScale,ept,qt,Nat.reduceDiv,twoScale,twoMagnitude,twoSign,quarter,bits,eighth,bit,start,
    Nat.shiftRight_eq_div_pow,Nat.shiftLeft_eq,and_one,and_three,and_fifteen]
  by_cases odd : lane/2 % 2 = 1
  · simp [odd]
  · simp [Nat.mod_two_ne_one.mp odd]

theorem blkElem_q3K : blkElem 11 w (bi*110) lane j (blkScale 11 w (bi*110) lane) = dequantOneT 11 w (bi*256+(lane*8+j)) := by
  have sub : (lane*8+j)/16 = lane/2 := by omega
  have start : lane*8/16 = lane/2 := by omega
  have half : (lane*8+j)/128 = lane/16 := by omega
  have inner : (lane*8+j) % 32 = 8*(lane % 4)+j := by omega
  have group : (lane*8+j)/32 = lane/4 := by omega
  have scales : ∀ n,96+(8+n) = 104+n := by omega
  rw [dequantOneT_host,show ggufDequant 11 (bi*256+(lane*8+j)) = dequantQ3K (K:=K) (bi*256+(lane*8+j)) from rfl,
    value_dequantQ3K w bi (place_lt inside small),value_f16At,sub]
  simp [blkElem,blkScale,ept,qt,three,threeScale,half,inner,group,start,scales,Nat.shiftRight_eq_div_pow,Nat.shiftLeft_eq,
    and_three,and_seven,and_fifteen,mod4_or,mod16_or,Nat.add_assoc]

theorem blkElem_q4K : blkElem 12 w (bi*144) lane j (blkScale 12 w (bi*144) lane) = dequantOneT 12 w (bi*256+(lane*8+j)) := by
  have sub : (lane*8+j)/32 = lane/4 := by omega
  have start : lane*8/32 = lane/4 := by omega
  have group : (lane*8+j)/64 = lane/8 := by omega
  have inner : (lane*8+j) % 32 = 8*(lane % 4)+j := by omega
  rw [dequantOneT_host,show ggufDequant 12 (bi*256+(lane*8+j)) = dequantQ4K (K:=K) (bi*256+(lane*8+j)) from rfl,
    value_dequantQ4K w bi (place_lt inside small),value_f16At,value_f16At,sub]
  simp [blkElem,blkScale,ept,qt,kNibble,q4kScaleMin_host,sub,start,group,inner,Nat.shiftRight_eq_div_pow,and_three,and_fifteen,
    Nat.add_assoc]

theorem blkElem_q5K : blkElem 13 w (bi*176) lane j (blkScale 13 w (bi*176) lane) = dequantOneT 13 w (bi*256+(lane*8+j)) := by
  have sub : (lane*8+j)/32 = lane/4 := by omega
  have start : lane*8/32 = lane/4 := by omega
  have group : (lane*8+j)/64 = lane/8 := by omega
  have inner : (lane*8+j) % 32 = 8*(lane % 4)+j := by omega
  rw [dequantOneT_host,show ggufDequant 13 (bi*256+(lane*8+j)) = dequantQ5K (K:=K) (bi*256+(lane*8+j)) from rfl,
    value_dequantQ5K w bi (place_lt inside small),value_f16At,value_f16At,sub]
  simp [blkElem,blkScale,ept,qt,kFifth,kNibble,q4kScaleMin_host,sub,start,group,inner,Nat.shiftRight_eq_div_pow,Nat.shiftLeft_eq,
    and_three,and_fifteen,mod16_or,Nat.add_assoc]

theorem blkElem_q6K : blkElem 14 w (bi*210) lane j (blkScale 14 w (bi*210) lane) = dequantOneT 14 w (bi*256+(lane*8+j)) := by
  have sub : (lane*8+j)/16 = lane/2 := by omega
  have start : lane*8/16 = lane/2 := by omega
  have half : (lane*8+j)/128 = lane/16 := by omega
  have inner : (lane*8+j) % 32 = 8*(lane % 16 % 4)+j := by omega
  have which : (lane*8+j) % 128/32 = lane % 16/4 := by omega
  rw [dequantOneT_host,show ggufDequant 14 (bi*256+(lane*8+j)) = dequantQ6K (K:=K) (bi*256+(lane*8+j)) from rfl,
    value_dequantQ6K w bi (place_lt inside small),value_f16At,sub]
  by_cases upper : 2 ≤ lane % 16/4 <;>
    simp [blkElem,blkScale,ept,qt,six,sixLow,ldI8,start,half,inner,which,upper,Nat.shiftRight_eq_div_pow,Nat.shiftLeft_eq,
      and_three,and_fifteen,mod16_or,Nat.add_assoc,Nat.mul_comm 64]

theorem blkElem_q8K : blkElem 15 w (bi*292) lane j (blkScale 15 w (bi*292) lane) = dequantOneT 15 w (bi*256+(lane*8+j)) := by
  have sub : (lane*8+j)/16 = lane/2 := by omega
  have start : lane*8/16 = lane/2 := by omega
  rw [dequantOneT_host,show ggufDequant 15 (bi*256+(lane*8+j)) = dequantQ8K (K:=K) (bi*256+(lane*8+j)) from rfl,
    value_dequantQ8K w bi (place_lt inside small),value_f16At,sub]
  simp [blkElem,blkScale,ept,qt,ldI8,ldF32,start,Nat.shiftRight_eq_div_pow,Nat.add_assoc]

end Long

theorem blkElem_exact {type : Nat} (known : 0 < (qt type).1) (inside : lane < 32) (small : j < ept type) :
    blkElem type w (bi*(qt type).2) lane j (blkScale type w (bi*(qt type).2) lane) =
      dequantOneT type w (bi*(qt type).1+(lane*ept type+j)) := by
  have listed : type ∈ [2,3,6,7,8,9] ∨ type ∈ [10,11,12,13,14,15] := by
    unfold qt at known
    split at known <;> first | decide | exact absurd known (by decide)
  rcases listed with short | long
  · have shape : (qt type).1 = 32 ∧ ept type = 1 := by
      simp only [List.mem_cons,List.not_mem_nil,or_false] at short
      rcases short with rfl | rfl | rfl | rfl | rfl | rfl <;> exact ⟨rfl,rfl⟩
    obtain ⟨wide,one⟩ := shape
    have only : j = 0 := by omega
    rw [only,wide,one,Nat.mul_one,Nat.add_zero]
    exact blkElem_short w bi type short inside
  · simp only [List.mem_cons,List.not_mem_nil,or_false] at long
    rcases long with rfl | rfl | rfl | rfl | rfl | rfl
    · exact blkElem_q2K w bi inside small
    · exact blkElem_q3K w bi inside small
    · exact blkElem_q4K w bi inside small
    · exact blkElem_q5K w bi inside small
    · exact blkElem_q6K w bi inside small
    · exact blkElem_q8K w bi inside small

end Formats

end TinyLlama.Gpu
