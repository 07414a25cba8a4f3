import TinyLlama.Lib.Bits
import TinyLlama.Lib.Memory
import TinyLlama.Lib.Sweep

-- Vector registers: integers as bytes, lowest first, floats as lanes over a field that stands for exact arithmetic.
namespace TinyLlama.Simd
open Bits Memory LittleEndian Sweep

abbrev Reg := Nat → UInt8

def lane (w : Nat) (v : Reg) (n : Nat) : Nat := load w v (w*n)

def ofLanes (w : Nat) (f : Nat → Nat) : Reg := fun b => UInt8.ofNat (f (b/w)/256^(b % w))

theorem lane_ofLanes {w : Nat} (wide : 0 < w) (f : Nat → Nat) (n : Nat) :
    lane w (ofLanes w f) n = f n % 256^w := by
  rw [← leNat_leBytes_mod,leBytes_eq_map,lane,load]
  congr 1
  refine List.map_congr_left fun i below => ?_
  have small := List.mem_range.mp below
  have place : (w*n+i)/w = n := by rw [Nat.mul_add_div wide,Nat.div_eq_of_lt small,Nat.add_zero]
  have rest : (w*n+i) % w = i := by rw [Nat.mul_add_mod,Nat.mod_eq_of_lt small]
  rw [ofLanes,place,rest]

theorem lane_lt (w : Nat) (v : Reg) (n : Nat) : lane w v n < 256^w := load_lt w v (w*n)

theorem lane_congr {w n m : Nat} {v u : Reg} (same : ∀ b < w,v (w*n+b) = u (w*m+b)) : lane w v n = lane w u m := by
  unfold lane load
  congr 1
  exact List.map_congr_left fun i below => same i (List.mem_range.mp below)

def loaduSi128 (data : Mem) (p : Nat) : Reg := fun b => data (p+b)
def loadlEpi64 (data : Mem) (p : Nat) : Reg := fun b => if b < 8 then data (p+b) else 0
def cvtsi32Si128 (x : Nat) : Reg := fun b => if b < 4 then UInt8.ofNat (x/256^b) else 0

def set1Epi8 (x : Nat) : Reg := fun _ => UInt8.ofNat x
def set1Epi16 (x : Nat) : Reg := ofLanes 2 fun _ => x
def set1Epi32 (x : Int) : Reg := ofLanes 4 fun _ => unsigned 32 x
def setrEpi8 (l : List Int) : Reg := fun b => UInt8.ofNat (unsigned 8 (l.getD b 0))
def setrEpi16 (l : List Nat) : Reg := ofLanes 2 fun n => l.getD n 0

def andSi (a b : Reg) : Reg := fun k => a k &&& b k
def orSi (a b : Reg) : Reg := fun k => a k ||| b k
def srliSi128 (v : Reg) (k : Nat) : Reg := fun b => if b+k < 16 then v (b+k) else 0
def shuffleEpi8 (v places : Reg) : Reg :=
  fun b => if 128 ≤ (places b).toNat then 0 else v ((places b).toNat % 16)

def srliEpi16 (v : Reg) (k : Nat) : Reg := ofLanes 2 fun n => lane 2 v n >>> k
def slliEpi16 (v : Reg) (k : Nat) : Reg := ofLanes 2 fun n => lane 2 v n <<< k
def slliEpi32 (v : Reg) (k : Nat) : Reg := ofLanes 4 fun n => lane 4 v n <<< k
def mulloEpi16 (a b : Reg) : Reg := ofLanes 2 fun n => lane 2 a n*lane 2 b n
def subEpi16 (a b : Reg) : Reg := ofLanes 2 fun n => unsigned 16 ((lane 2 a n : Int)-lane 2 b n)
def subEpi32 (a b : Reg) : Reg := ofLanes 4 fun n => unsigned 32 ((lane 4 a n : Int)-lane 4 b n)

def cvtepu8Epi16 (v : Reg) : Reg := ofLanes 2 fun n => (v n).toNat
def cvtepi8Epi16 (v : Reg) : Reg := ofLanes 2 fun n => unsigned 16 (signed 8 (v n).toNat)
def cvtepu16Epi32 (v : Reg) : Reg := ofLanes 4 fun n => lane 2 v n
def cvtepi16Epi32 (v : Reg) : Reg := ofLanes 4 fun n => unsigned 32 (signed 16 (lane 2 v n))

theorem lane_loaduSi128 (w : Nat) (data : Mem) (p n : Nat) : lane w (loaduSi128 data p) n = load w data (p+w*n) := by
  simp [lane,load,loaduSi128,Nat.add_assoc]

theorem lane_set1Epi16 {x : Nat} (fits : x < 65536) (n : Nat) : lane 2 (set1Epi16 x) n = x := by
  rw [set1Epi16,lane_ofLanes (by decide)]
  exact Nat.mod_eq_of_lt fits

theorem lane_setrEpi16 (l : List Nat) (n : Nat) : lane 2 (setrEpi16 l) n = l.getD n 0 % 65536 :=
  lane_ofLanes (by decide) _ n

theorem lane_srliEpi16 (v : Reg) (k n : Nat) : lane 2 (srliEpi16 v k) n = lane 2 v n/2^k := by
  have below := lane_lt 2 v n
  rw [srliEpi16,lane_ofLanes (by decide),Nat.shiftRight_eq_div_pow]
  exact Nat.mod_eq_of_lt (Nat.lt_of_le_of_lt (Nat.div_le_self _ _) below)

theorem lane_slliEpi16 {v : Reg} {k n : Nat} (fits : lane 2 v n*2^k < 65536) :
    lane 2 (slliEpi16 v k) n = lane 2 v n*2^k := by
  rw [slliEpi16,lane_ofLanes (by decide),Nat.shiftLeft_eq]
  exact Nat.mod_eq_of_lt fits

theorem lane_mulloEpi16 {a b : Reg} {n : Nat} (fits : lane 2 a n*lane 2 b n < 65536) :
    lane 2 (mulloEpi16 a b) n = lane 2 a n*lane 2 b n := by
  rw [mulloEpi16,lane_ofLanes (by decide)]
  exact Nat.mod_eq_of_lt fits

theorem signed_subEpi16 {a b : Reg} {n : Nat} (low : -2^15 ≤ (lane 2 a n : Int)-lane 2 b n)
    (high : (lane 2 a n : Int)-lane 2 b n < 2^15) :
    signed 16 (lane 2 (subEpi16 a b) n) = (lane 2 a n : Int)-lane 2 b n := by
  have fits := unsigned_lt 16 ((lane 2 a n : Int)-lane 2 b n)
  rw [subEpi16,lane_ofLanes (by decide),show 256^2 = 2^16 from rfl,Nat.mod_eq_of_lt fits]
  exact signed_unsigned (by decide) low high

theorem lane_two (v : Reg) (n : Nat) : lane 2 v n = (v (2*n+1)).toNat <<< 8 ||| (v (2*n)).toNat := by
  rw [Bits.shiftLeft_or _ (v (2*n)).toNat_lt]
  simp [lane,load,leNat,List.range_succ]
  omega

theorem lane_andSi (a b : Reg) (n : Nat) : lane 2 (andSi a b) n = lane 2 a n &&& lane 2 b n := by
  simp only [lane_two,andSi,UInt8.toNat_and]
  apply Nat.eq_of_testBit_eq
  intro k
  simp only [Nat.testBit_and,Nat.testBit_or,Nat.testBit_shiftLeft]
  by_cases high : 8 ≤ k
  · have beyond (x : UInt8) : x.toNat.testBit k = false :=
      Nat.testBit_lt_two_pow (x.toNat_lt.trans_le (Nat.pow_le_pow_right (by decide) high))
    simp [high,beyond]
  · simp [high]

theorem lane_orSi (a b : Reg) (n : Nat) : lane 2 (orSi a b) n = lane 2 a n ||| lane 2 b n := by
  simp only [lane_two,orSi,UInt8.toNat_or]
  apply Nat.eq_of_testBit_eq
  intro k
  simp only [Nat.testBit_or,Nat.testBit_shiftLeft]
  by_cases high : 8 ≤ k
  · simp only [high,decide_true,Bool.true_and]
    ac_rfl
  · simp [high]

theorem srliSi128_eight (v : Reg) {b : Nat} (low : b < 8) : srliSi128 v 8 b = v (b+8) := by
  unfold srliSi128
  rw [if_pos]
  omega

theorem lane_srliSi128 (v : Reg) {n : Nat} (low : n < 4) : lane 2 (srliSi128 v 8) n = lane 2 v (n+4) := by
  refine lane_congr fun b small => ?_
  rw [srliSi128_eight v (by omega)]
  congr 1
  omega

theorem lane_cvtepu8Epi16 (v : Reg) (n : Nat) : lane 2 (cvtepu8Epi16 v) n = (v n).toNat := by
  have fits := (v n).toNat_lt
  rw [cvtepu8Epi16,lane_ofLanes (by decide)]
  omega

theorem signed_cvtepi8Epi16 (v : Reg) (n : Nat) :
    signed 16 (lane 2 (cvtepi8Epi16 v) n) = signed 8 (v n).toNat := by
  have fits := unsigned_lt 16 (signed 8 (v n).toNat)
  obtain ⟨low,high⟩ := signed_range (w:=8) (by decide) (v n).toNat_lt
  rw [cvtepi8Epi16,lane_ofLanes (by decide),show 256^2 = 2^16 from rfl,Nat.mod_eq_of_lt fits]
  exact signed_unsigned (by decide) (le_trans (by decide) low) (lt_of_lt_of_le high (by decide))

theorem signed_cvtepi16Epi32 (v : Reg) (n : Nat) :
    signed 32 (lane 4 (cvtepi16Epi32 v) n) = signed 16 (lane 2 v n) := by
  have fits := unsigned_lt 32 (signed 16 (lane 2 v n))
  obtain ⟨low,high⟩ := signed_range (w:=16) (by decide) (lane_lt 2 v n)
  rw [cvtepi16Epi32,lane_ofLanes (by decide),show 256^4 = 2^32 from rfl,Nat.mod_eq_of_lt fits]
  exact signed_unsigned (by decide) (le_trans (by decide) low) (lt_of_lt_of_le high (by decide))

theorem lane_cvtepi16Epi32 {v : Reg} {n : Nat} (small : lane 2 v n < 2^15) :
    lane 4 (cvtepi16Epi32 v) n = lane 2 v n := by
  rw [cvtepi16Epi32,lane_ofLanes (by decide),signed_of_lt small,unsigned]
  omega

theorem lane_set1Epi32 {x : Int} (low : 0 ≤ x) (high : x < 2^32) (n : Nat) :
    (lane 4 (set1Epi32 x) n : Int) = x := by
  rw [set1Epi32,lane_ofLanes (by decide),unsigned]
  omega

theorem signed_subEpi32 {a b : Reg} {n : Nat} (low : -2^31 ≤ (lane 4 a n : Int)-lane 4 b n)
    (high : (lane 4 a n : Int)-lane 4 b n < 2^31) :
    signed 32 (lane 4 (subEpi32 a b) n) = (lane 4 a n : Int)-lane 4 b n := by
  have fits := unsigned_lt 32 ((lane 4 a n : Int)-lane 4 b n)
  rw [subEpi32,lane_ofLanes (by decide),show 256^4 = 2^32 from rfl,Nat.mod_eq_of_lt fits]
  exact signed_unsigned (by decide) low high

theorem lane_widen_second (v : Reg) {l : Nat} (small : l < 4) :
    lane 2 (srliSi128 (cvtepu8Epi16 v) 8) l = (v (4+l)).toNat := by
  rw [lane_srliSi128 _ small,lane_cvtepu8Epi16,Nat.add_comm]

theorem lane_widen_third (v : Reg) {l : Nat} (small : l < 4) :
    lane 2 (cvtepu8Epi16 (srliSi128 v 8)) l = (v (8+l)).toNat := by
  rw [lane_cvtepu8Epi16,srliSi128_eight v (by omega),Nat.add_comm]

theorem lane_widen_fourth (v : Reg) {l : Nat} (small : l < 4) :
    lane 2 (srliSi128 (cvtepu8Epi16 (srliSi128 v 8)) 8) l = (v (12+l)).toNat := by
  rw [lane_srliSi128 _ small,lane_cvtepu8Epi16,srliSi128_eight v (by omega),show l+4+8 = 12+l by omega]

theorem signed_widen_second (v : Reg) {l : Nat} (small : l < 4) :
    signed 16 (lane 2 (srliSi128 (cvtepi8Epi16 v) 8) l) = signed 8 (v (4+l)).toNat := by
  rw [lane_srliSi128 _ small,signed_cvtepi8Epi16,Nat.add_comm]

theorem signed_widen_third (v : Reg) {l : Nat} (small : l < 4) :
    signed 16 (lane 2 (cvtepi8Epi16 (srliSi128 v 8)) l) = signed 8 (v (8+l)).toNat := by
  rw [signed_cvtepi8Epi16,srliSi128_eight v (by omega),Nat.add_comm]

theorem signed_widen_fourth (v : Reg) {l : Nat} (small : l < 4) :
    signed 16 (lane 2 (srliSi128 (cvtepi8Epi16 (srliSi128 v 8)) 8) l) = signed 8 (v (12+l)).toNat := by
  rw [lane_srliSi128 _ small,signed_cvtepi8Epi16,srliSi128_eight v (by omega),show l+4+8 = 12+l by omega]

theorem srliEpi16_byte {v : Reg} {k : Nat} (clear : ∀ b,2^k ∣ (v b).toNat) (b : Nat) :
    (srliEpi16 v k b).toNat = (v b).toNat/2^k := by
  have positive : 0 < 2^k := by positivity
  obtain ⟨high,exact'⟩ := clear (2*(b/2)+1)
  have low := (v (2*(b/2))).toNat_lt
  have upper := (v (2*(b/2)+1)).toNat_lt
  have shifted : lane 2 v (b/2) >>> k = (v (2*(b/2))).toNat/2^k+256*high := by
    rw [lane_two,Bits.shiftLeft_or _ low,Nat.shiftRight_eq_div_pow,exact',
      show 2^k*high*2^8 = 2^k*(256*high) by ring,Nat.add_mul_div_left _ _ positive]
  have smaller := Nat.div_le_self (v (2*(b/2))).toNat (2^k)
  have bounded : high ≤ 2^k*high := Nat.le_mul_of_pos_left high positive
  rw [srliEpi16,ofLanes,shifted,UInt8.toNat_ofNat']
  rcases Nat.mod_two_eq_zero_or_one b with even | odd
  · rw [even,show 2*(b/2) = b by omega,Nat.pow_zero,Nat.div_one]
    rw [show 2*(b/2) = b by omega] at low smaller
    generalize (v b).toNat/2^k = field at smaller ⊢
    omega
  · rw [odd,Nat.pow_one]
    have here : (v b).toNat/2^k = high := by
      rw [show b = 2*(b/2)+1 by omega,exact',Nat.mul_div_cancel_left _ positive]
    rw [here]
    generalize (v (2*(b/2))).toNat/2^k = field at smaller ⊢
    omega

section Floats
variable {K : Type}

abbrev Ps (K : Type) := Nat → K

def loaduPs (x : Nat → K) (p : Nat) : Ps K := fun n => x (p+n)
def storeuPs (out : Nat → K) (p : Nat) (v : Ps K) : Nat → K := splice out p 4 v
def set1Ps (x : K) : Ps K := fun _ => x
def cvtssF32 (v : Ps K) : K := v 0
def extractf128Ps (v : Ps K) : Ps K := fun n => v (4+n)

@[simp] theorem loaduPs_at (x : Nat → K) (p n : Nat) : loaduPs x p n = x (p+n) := rfl
@[simp] theorem set1Ps_at (x : K) (n : Nat) : set1Ps x n = x := rfl

variable [CommRing K]

def setzeroPs : Ps K := fun _ => 0
def addPs (a b : Ps K) : Ps K := fun n => a n+b n
def subPs (a b : Ps K) : Ps K := fun n => a n-b n
def mulPs (a b : Ps K) : Ps K := fun n => a n*b n
def fmaddPs (a b c : Ps K) : Ps K := fun n => a n*b n+c n
def haddPs (a b : Ps K) : Ps K
  | 0 => a 0+a 1
  | 1 => a 2+a 3
  | 2 => b 0+b 1
  | _ => b 2+b 3
def hadd256Ps (a b : Ps K) : Ps K := fun n => if n < 4 then haddPs a b n else haddPs (extractf128Ps a) (extractf128Ps b) (n-4)
def cvtepi32Ps (v : Reg) : Ps K := fun n => (signed 32 (lane 4 v n) : K)

@[simp] theorem setzeroPs_at (n : Nat) : (setzeroPs : Ps K) n = 0 := rfl
@[simp] theorem addPs_at (a b : Ps K) (n : Nat) : addPs a b n = a n+b n := rfl
@[simp] theorem subPs_at (a b : Ps K) (n : Nat) : subPs a b n = a n-b n := rfl
@[simp] theorem mulPs_at (a b : Ps K) (n : Nat) : mulPs a b n = a n*b n := rfl

@[simp] theorem addPs_setzeroPs (x : Ps K) : addPs setzeroPs x = x := by
  funext n
  simp

theorem cvtepi32Ps_cvtepi16Epi32 (v : Reg) (n : Nat) :
    (cvtepi32Ps (cvtepi16Epi32 v) : Ps K) n = (signed 16 (lane 2 v n) : K) := by
  rw [cvtepi32Ps,signed_cvtepi16Epi32]

end Floats

end TinyLlama.Simd
