import TinyLlama.Quants.BatchExact
import TinyLlama.Quants.Dot

namespace TinyLlama.Quants
open Access Bits Memory Simd Sweep Finset

section Sums
variable {K : Type} [Field K]

theorem sseHsumF32x4_eq (v : Ps K) : sseHsumF32x4 v = ∑ l ∈ range 4,v l := by
  simp [sseHsumF32x4,haddPs,cvtssF32,sum_range_succ]
  ring

theorem sseHsumF32x4_addPs (a b : Ps K) : sseHsumF32x4 (addPs a b) = sseHsumF32x4 a+sseHsumF32x4 b := by
  simp only [sseHsumF32x4_eq,addPs_at,sum_add_distrib]

theorem sseHsumF32x4_zero : sseHsumF32x4 (setzeroPs : Ps K) = 0 := by
  simp [sseHsumF32x4_eq]

theorem Quad.hsum_eq (q : Quad K) : q.hsum = ∑ n ∈ range 16,q.at' n := by
  simp [Quad.hsum,sseHsumF32x4_eq,sum_range_succ,Quad.at']
  ring

theorem Quad.hsum_zero : (Quad.zero : Quad K).hsum = 0 := by
  simp [Quad.hsum,Quad.zero,sseHsumF32x4_eq]

theorem Quad.hsum_add (acc a : Quad K) : (acc.add a).hsum = acc.hsum+a.hsum := by
  simp only [Quad.hsum,Quad.add,sseHsumF32x4_addPs]
  ring

theorem Quad.hsum_mulAdd (acc a b : Quad K) :
    (acc.mulAdd a b).hsum = acc.hsum+∑ n ∈ range 16,a.at' n*b.at' n := by
  have products := Quad.hsum_eq ⟨mulPs a.r0 b.r0,mulPs a.r1 b.r1,mulPs a.r2 b.r2,mulPs a.r3 b.r3⟩
  rw [Quad.mulAdd,Quad.hsum_add,products]
  congr 1

omit [Field K] in
theorem Quad.load_at' (x : Nat → K) (p : Nat) {n : Nat} (small : n < 16) : (Quad.load x p).at' n = x (p+n) := by
  have place (c l : Nat) : loaduPs x (p+c) l = x (p+(c+l)) := congrArg x (Nat.add_assoc p c l)
  exact Quad.at'_cases (g:=fun n => x (p+n)) (fun _ _ => rfl) (fun l _ => place 4 l) (fun l _ => place 8 l)
    (fun l _ => place 12 l) small

theorem Quad.ofU8_at' (v : Reg) {n : Nat} (small : n < 16) : (Quad.ofU8 v : Quad K).at' n = ((v n).toNat : K) := by
  have float (w : Reg) (l b : Nat) (byte : lane 2 w l = (v b).toNat) :
      (cvtepi32Ps (cvtepi16Epi32 w) : Ps K) l = ((v b).toNat : K) := by
    rw [cvtepi32Ps_cvtepi16Epi32,byte,signed_of_lt ((v b).toNat_lt.trans (by decide)),Int.cast_natCast]
  exact Quad.at'_cases (g:=fun n => ((v n).toNat : K)) (fun l _ => float _ l l (lane_cvtepu8Epi16 v l))
    (fun l small => float _ l _ (lane_widen_second v small)) (fun l small => float _ l _ (lane_widen_third v small))
    (fun l small => float _ l _ (lane_widen_fourth v small)) small

theorem Quad.ofS8_at' (v : Reg) {n : Nat} (small : n < 16) :
    (Quad.ofS8 v : Quad K).at' n = (signed 8 (v n).toNat : K) := by
  refine Quad.at'_cases (g:=fun n => (signed 8 (v n).toNat : K)) ?_ ?_ ?_ ?_ small <;>
    intro l small <;> simp only [Quad.ofS8,cvtepi32Ps_cvtepi16Epi32]
  · rw [signed_cvtepi8Epi16]
  · rw [signed_widen_second v small]
  · rw [signed_widen_third v small]
  · rw [signed_widen_fourth v small]

theorem sseI16DotX8_sum (v : Reg) (x : Nat → K) (p : Nat) :
    sseHsumF32x4 (sseI16DotX8 v x p) = ∑ k ∈ range 8,(signed 16 (lane 2 v k) : K)*x (p+k) := by
  have lower : sseHsumF32x4 (mulPs (cvtepi32Ps (cvtepi16Epi32 v)) (loaduPs x p)) =
      ∑ l ∈ range 4,(signed 16 (lane 2 v l) : K)*x (p+l) := by
    rw [sseHsumF32x4_eq]
    exact sum_congr rfl fun l _ => by rw [mulPs_at,cvtepi32Ps_cvtepi16Epi32,loaduPs_at]
  have upper : sseHsumF32x4 (mulPs (cvtepi32Ps (cvtepi16Epi32 (srliSi128 v 8))) (loaduPs x (p+4))) =
      ∑ l ∈ range 4,(signed 16 (lane 2 v (4+l)) : K)*x (p+(4+l)) := by
    rw [sseHsumF32x4_eq]
    refine sum_congr rfl fun l below => ?_
    rw [mulPs_at,cvtepi32Ps_cvtepi16Epi32,lane_srliSi128 v (mem_range.mp below),loaduPs_at,Nat.add_comm l,
      Nat.add_assoc p]
  rw [sseI16DotX8,sseHsumF32x4_addPs,lower,upper,← sum_range_add]

theorem avx2HsumF32x8_eq (v : Ps K) : avx2HsumF32x8 v = ∑ k ∈ range 8,v k := by
  simp [avx2HsumF32x8,extractf128Ps,haddPs,cvtssF32,sum_range_succ]
  ring

theorem avx2HsumF32x8_zero : avx2HsumF32x8 (setzeroPs : Ps K) = 0 := by
  simp [avx2HsumF32x8_eq]

theorem avx2HsumF32x8_fmaddPs (a b c : Ps K) :
    avx2HsumF32x8 (fmaddPs a b c) = avx2HsumF32x8 c+∑ k ∈ range 8,a k*b k := by
  simp only [avx2HsumF32x8_eq,fmaddPs,sum_add_distrib]
  ring

theorem avx2HsumF32x8_addPs (a b : Ps K) : avx2HsumF32x8 (addPs a b) = avx2HsumF32x8 a+avx2HsumF32x8 b := by
  simp only [avx2HsumF32x8_eq,addPs_at,sum_add_distrib]

end Sums

section Lanes

-- A byte shifted right through a multiplication: the lane cannot overflow.
theorem lane_sseU8ShrX8Var {v mul : Reg} {n b k : Nat} (byte' : lane 2 v n = b) (small : b < 256) (short : k ≤ 8)
    (factor : lane 2 mul n = 2^(8-k)) : lane 2 (sseU8ShrX8Var v mul) n = b/2^k := by
  have power : 2^(8-k)*2^k = 2^8 := by rw [← pow_add,Nat.sub_add_cancel short]
  have bounded : 2^(8-k) ≤ 2^8 := Nat.pow_le_pow_right (by decide) (Nat.sub_le 8 k)
  have fits : b*2^(8-k) < 65536 := by
    calc b*2^(8-k) ≤ 255*2^8 := Nat.mul_le_mul (by omega) bounded
      _ < 65536 := by decide
  have product : lane 2 (mulloEpi16 v mul) n = b*2^(8-k) := by
    rw [lane_mulloEpi16 (by rwa [factor,byte']),factor,byte']
  rw [sseU8ShrX8Var,lane_srliEpi16,product,← power,Nat.mul_comm (2^(8-k)),Nat.mul_div_mul_right _ _ (by positivity)]

theorem lane_sseU8ShrX8 (v : Reg) {k : Nat} (short : k ≤ 8) (n : Nat) :
    lane 2 (sseU8ShrX8 v k) n = (v n).toNat/2^k := by
  have bounded : 2^(8-k) ≤ 2^8 := Nat.pow_le_pow_right (by decide) (Nat.sub_le 8 k)
  refine lane_sseU8ShrX8Var (lane_cvtepu8Epi16 v n) (v n).toNat_lt short ?_
  rw [lane_set1Epi16 (by rw [Nat.one_shiftLeft]; omega),Nat.one_shiftLeft]

theorem avx2U8ShrX8_eq : avx2U8ShrX8 = sseU8ShrX8 := rfl

theorem loadlEpi64_byte {K : Type} (s : Source K) (p : Nat) {n : Nat} (small : n < 8) :
    (loadlEpi64 s.data p n).toNat = byte s (p+n) := by
  rw [loadlEpi64,if_pos small,byte]

theorem lane_masked {v : Reg} {n a m b : Nat} (known : lane 2 v n = a) (full : b = 2^m-1) (fits : b < 65536) :
    lane 2 (andSi v (set1Epi16 b)) n = a % 2^m := by
  rw [lane_andSi,known,lane_set1Epi16 fits,full,Nat.and_two_pow_sub_one_eq_mod]

theorem lane_field {K : Type} (s : Source K) (p : Nat) {k n m mask : Nat} (short : k ≤ 8) (small : n < 8)
    (full : mask = 2^m-1) (fits : mask < 65536) :
    lane 2 (andSi (sseU8ShrX8 (loadlEpi64 s.data p) k) (set1Epi16 mask)) n = byte s (p+n)/2^k % 2^m := by
  rw [lane_masked (lane_sseU8ShrX8 _ short n) full fits,loadlEpi64_byte s p small]

theorem lane_joined {lo hi : Reg} {n a b k : Nat} (low : lane 2 lo n = a) (small : a < 2^k) (high : lane 2 hi n = b)
    (fits : b*2^k < 65536) : lane 2 (orSi lo (slliEpi16 hi k)) n = a+b*2^k := by
  have shifted : lane 2 (slliEpi16 hi k) n = b <<< k := by
    rw [lane_slliEpi16 (by rwa [high]),high,Nat.shiftLeft_eq]
  rw [lane_orSi,low,shifted,or_shiftLeft b small]

theorem signed_difference {u v : Reg} {n a b : Nat} (left : lane 2 u n = a) (right : lane 2 v n = b) (small : a < 2^15)
    (low : b < 2^15) : signed 16 (lane 2 (subEpi16 u v) n) = (a : Int)-b := by
  rw [signed_subEpi16 (by omega) (by omega),left,right]

theorem signed_biased {v : Reg} {n a b : Nat} (code : lane 2 v n = a) (small : a < 2^15) (low : b < 2^15) :
    signed 16 (lane 2 (subEpi16 v (set1Epi16 b)) n) = (a : Int)-b :=
  signed_difference code (lane_set1Epi16 (low.trans (by decide)) n) small low

end Lanes

section Loops
variable {K : Type} [Field K]

theorem dot_loop {n p : Nat} {w : Nat → Quad K} {g x : Nat → K} (codes : ∀ t < n,∀ k < 16,(w t).at' k = g (t*16+k)) :
    (n.fold (fun t _ acc => acc.mulAdd (w t) (Quad.load x (p+t*16))) Quad.zero).hsum =
      ∑ o ∈ range (n*16),g o*x (p+o) := by
  rw [fold_total (m:=Quad.hsum) (b:=fun t acc => acc.mulAdd (w t) (Quad.load x (p+t*16)))
    (d:=fun t => ∑ k ∈ range 16,(w t).at' k*(Quad.load x (p+t*16)).at' k) (fun t _ acc => Quad.hsum_mulAdd acc _ _),
    Quad.hsum_zero,zero_add,← sum_stride]
  refine sum_congr rfl fun t below => sum_congr rfl fun k small => ?_
  rw [codes t (mem_range.mp below) k (mem_range.mp small),Quad.load_at' _ _ (mem_range.mp small),Nat.add_assoc]

theorem sum_loop (n p : Nat) (x : Nat → K) :
    (n.fold (fun t _ acc => acc.add (Quad.load x (p+t*16))) Quad.zero).hsum = ∑ o ∈ range (n*16),x (p+o) := by
  rw [fold_total (m:=Quad.hsum) (b:=fun t acc => acc.add (Quad.load x (p+t*16)))
    (d:=fun t => (Quad.load x (p+t*16)).hsum) (fun t _ acc => Quad.hsum_add acc _),Quad.hsum_zero,zero_add,
    ← sum_stride]
  refine sum_congr rfl fun t _ => ?_
  rw [Quad.hsum_eq]
  refine sum_congr rfl fun k small => ?_
  rw [Quad.load_at' _ _ (mem_range.mp small),Nat.add_assoc]

theorem lanes_loop {n p : Nat} {v : Nat → Reg} {q : Nat → Int} {x : Nat → K}
    (codes : ∀ c < n,∀ k < 8,signed 16 (lane 2 (v c) k) = q (c*8+k)) :
    sseHsumF32x4 (n.fold (fun c _ acc => addPs acc (sseI16DotX8 (v c) x (p+c*8))) setzeroPs) =
      ∑ o ∈ range (n*8),(q o : K)*x (p+o) := by
  rw [fold_total (m:=sseHsumF32x4) (b:=fun c acc => addPs acc (sseI16DotX8 (v c) x (p+c*8)))
    (d:=fun c => sseHsumF32x4 (sseI16DotX8 (v c) x (p+c*8))) (fun c _ acc => sseHsumF32x4_addPs acc _),
    sseHsumF32x4_zero,zero_add,← sum_stride]
  refine sum_congr rfl fun c below => ?_
  rw [sseI16DotX8_sum]
  refine sum_congr rfl fun k small => ?_
  rw [codes c (mem_range.mp below) k (mem_range.mp small),Nat.add_assoc]

theorem avx2_lanes_loop {n p : Nat} {v : Nat → Reg} {q : Nat → Int} {x : Nat → K}
    (codes : ∀ c < n,∀ k < 8,signed 16 (lane 2 (v c) k) = q (c*8+k)) :
    avx2HsumF32x8 (n.fold (fun c _ acc => fmaddPs (avx2I16ToF32X8 (v c)) (loaduPs x (p+c*8)) acc) setzeroPs) =
      ∑ o ∈ range (n*8),(q o : K)*x (p+o) := by
  rw [fold_total (m:=avx2HsumF32x8) (b:=fun c acc => fmaddPs (avx2I16ToF32X8 (v c)) (loaduPs x (p+c*8)) acc)
    (d:=fun c => ∑ k ∈ range 8,avx2I16ToF32X8 (v c) k*loaduPs x (p+c*8) k)
    (fun c _ acc => avx2HsumF32x8_fmaddPs _ _ acc),avx2HsumF32x8_zero,zero_add,← sum_stride]
  refine sum_congr rfl fun c below => sum_congr rfl fun k small => ?_
  rw [avx2I16ToF32X8,cvtepi32Ps_cvtepi16Epi32,codes c (mem_range.mp below) k (mem_range.mp small),loaduPs_at,
    Nat.add_assoc]

theorem avx2_sum_loop (n p : Nat) (x : Nat → K) :
    avx2HsumF32x8 (n.fold (fun c _ acc => addPs acc (loaduPs x (p+c*8))) setzeroPs) = ∑ o ∈ range (n*8),x (p+o) := by
  rw [fold_total (m:=avx2HsumF32x8) (b:=fun c acc => addPs acc (loaduPs x (p+c*8)))
    (d:=fun c => avx2HsumF32x8 (loaduPs x (p+c*8))) (fun c _ acc => avx2HsumF32x8_addPs acc _),avx2HsumF32x8_zero,
    zero_add,← sum_stride]
  refine sum_congr rfl fun c _ => ?_
  rw [avx2HsumF32x8_eq]
  exact sum_congr rfl fun k _ => by rw [loaduPs_at,Nat.add_assoc]

theorem pairs_sum_loop (n p : Nat) (x : Nat → K) :
    sseHsumF32x4 (n.fold (fun c _ acc => addPs acc (addPs (loaduPs x (p+c*8)) (loaduPs x (p+c*8+4)))) setzeroPs) =
      ∑ o ∈ range (n*8),x (p+o) := by
  rw [fold_total (m:=sseHsumF32x4) (b:=fun c acc => addPs acc (addPs (loaduPs x (p+c*8)) (loaduPs x (p+c*8+4))))
    (d:=fun c => sseHsumF32x4 (addPs (loaduPs x (p+c*8)) (loaduPs x (p+c*8+4))))
    (fun c _ acc => sseHsumF32x4_addPs acc _),sseHsumF32x4_zero,zero_add,← sum_stride]
  refine sum_congr rfl fun c _ => ?_
  rw [sseHsumF32x4_addPs,sseHsumF32x4_eq,sseHsumF32x4_eq,sum_range_add (n:=4) (m:=4)]
  simp only [loaduPs_at,Nat.add_assoc]

theorem scaled_blocks (n w p : Nat) (wide : 0 < w) (d : K) (scale code x : Nat → K) :
    ∑ o ∈ range (n*w),d*scale (o/w)*code o*x (p+o) =
      d*∑ sb ∈ range n,scale sb*∑ k ∈ range w,code (sb*w+k)*x (p+(sb*w+k)) := by
  rw [← sum_stride,mul_sum]
  refine sum_congr rfl fun sb _ => ?_
  rw [mul_sum,mul_sum]
  refine sum_congr rfl fun k small => ?_
  have group : (sb*w+k)/w = sb := by
    rw [Nat.mul_comm,Nat.mul_add_div wide,Nat.div_eq_of_lt (mem_range.mp small),Nat.add_zero]
  rw [group]
  ring

end Loops

section Blocks
variable {K : Type} [Field K]

theorem sseDotQ8_0Block_exact (s : Source K) (bi : Nat) (x : Nat → K) (p : Nat) :
    sseDotQ8_0Block s (bi*34) x p = ∑ o ∈ range 32,value (dequantQ8_0 (bi*32+o)) s*x (p+o) := by
  have dot := dot_loop (n:=2) (p:=p) (x:=x) (w:=fun t => Quad.ofS8 (loaduSi128 s.data (bi*34+2+t*16)))
    (g:=fun o => (signed 8 (byte s (bi*34+2+o)) : K)) (fun t _ k small => by
      rw [Quad.ofS8_at' _ small,loaduSi128,byte,Nat.add_assoc _ (t*16)])
  simp only [sseDotQ8_0Block]
  rw [dot,mul_sum]
  refine sum_congr rfl fun o small => ?_
  rw [value_dequantQ8_0 s bi (mem_range.mp small)]
  ring

theorem nibble_lanes (s : Source K) (qs : Nat) {h k : Nat} (half' : h < 2) (small : k < 16) :
    (Quad.ofU8 (if h = 0 then sseLoNibbles (loaduSi128 s.data qs) else sseHiNibbles (loaduSi128 s.data qs)) :
      Quad K).at' k = (nibble s qs (h*16+k) : K) := by
  rw [Quad.ofU8_at' _ small]
  interval_cases h
  · rw [if_pos rfl,low_nibble s qs small,Nat.zero_mul,Nat.zero_add]
  · rw [if_neg (by decide),high_nibble,Nat.one_mul]

theorem sseDotQ4_0Block_exact (s : Source K) (bi : Nat) (x : Nat → K) (p : Nat) :
    sseDotQ4_0Block s (bi*18) x p = ∑ o ∈ range 32,value (dequantQ4_0 (bi*32+o)) s*x (p+o) := by
  have dot := dot_loop (n:=2) (p:=p) (x:=x) (g:=fun o => (nibble s (bi*18+2) o : K))
    (fun h below k small => nibble_lanes s (bi*18+2) below small)
  simp only [sseDotQ4_0Block]
  rw [dot,sum_loop 2 p x,mul_sum,← sum_sub_distrib,mul_sum]
  refine sum_congr rfl fun o small => ?_
  rw [value_dequantQ4_0 s bi (mem_range.mp small)]
  ring

theorem sseDotQ4_1Block_exact (s : Source K) (bi : Nat) (x : Nat → K) (p : Nat) :
    sseDotQ4_1Block s (bi*20) x p = ∑ o ∈ range 32,value (dequantQ4_1 (bi*32+o)) s*x (p+o) := by
  have dot := dot_loop (n:=2) (p:=p) (x:=x) (g:=fun o => (nibble s (bi*20+4) o : K))
    (fun h below k small => nibble_lanes s (bi*20+4) below small)
  simp only [sseDotQ4_1Block]
  rw [fold_pair 2 (fun h acc => Quad.mulAdd acc _ _) (fun h acc => Quad.add acc _)]
  rw [dot,sum_loop 2 p x,mul_sum,mul_sum,← sum_add_distrib]
  refine sum_congr rfl fun o small => ?_
  rw [value_dequantQ4_1 s bi (mem_range.mp small)]
  ring

theorem sseDotIq4NlBlock_exact (s : Source K) (bi : Nat) (x : Nat → K) (p : Nat) :
    sseDotIq4NlBlock s (bi*18) x p = ∑ o ∈ range 32,value (dequantIq4Nl (bi*32+o)) s*x (p+o) := by
  have high (j : Nat) : (s.data (bi*18+2+j)).toNat >>> 4 = nibble s (bi*18+2) (16+j) := by
    rw [nibble,if_neg (by omega),Nat.add_sub_cancel_left,Nat.shiftRight_eq_div_pow]
    rfl
  simp only [sseDotIq4NlBlock]
  rw [fold_total (m:=fun sum : K => sum) (d:=fun j =>
    s.entry .iq4NlValues ((s.data (bi*18+2+j)).toNat &&& 0xF)*x (p+j)+
      s.entry .iq4NlValues ((s.data (bi*18+2+j)).toNat >>> 4)*x (p+(16+j))) (fun j _ sum => add_assoc sum _ _),
    zero_add,sum_add_distrib,sum_range_add (n:=16) (m:=16),mul_add,mul_sum,mul_sum]
  congr 1
  · refine sum_congr rfl fun o small => ?_
    have below := mem_range.mp small
    have low : (s.data (bi*18+2+o)).toNat &&& 0xF = nibble s (bi*18+2) o := by
      rw [nibble,if_pos below,and_fifteen]
      rfl
    rw [low,value_dequantIq4Nl s bi (by omega),mul_assoc]
  · refine sum_congr rfl fun o small => ?_
    have below := mem_range.mp small
    rw [high,value_dequantIq4Nl s bi (by omega),mul_assoc]

theorem sseDotQ8KBlock_exact (s : Source K) (bi : Nat) (x : Nat → K) (p : Nat) :
    sseDotQ8KBlock s (bi*292) x p = ∑ o ∈ range 256,value (dequantQ8K (bi*256+o)) s*x (p+o) := by
  have elements : ∑ o ∈ range 256,value (dequantQ8K (bi*256+o)) s*x (p+o) = ∑ o ∈ range (16*16),
      s.f32 (load 4 s.data (bi*292))*value (f16At (bi*292+(4+2*(o/16)))) s*
        (signed 8 (byte s (bi*292+36+o)) : K)*x (p+o) := by
    refine sum_congr rfl fun o small => ?_
    rw [value_dequantQ8K s bi (mem_range.mp small)]
    ring
  rw [elements,scaled_blocks 16 16 p (by decide) _ (fun sb => value (f16At (bi*292+(4+2*sb))) s)]
  simp only [sseDotQ8KBlock]
  rw [fold_total (m:=fun acc : K => acc) (fun sb _ acc => rfl),zero_add]
  congr 1
  refine sum_congr rfl fun sb _ => ?_
  rw [Quad.hsum_mulAdd,Quad.hsum_zero,zero_add,mul_comm,Nat.add_assoc _ 4]
  congr 1
  refine sum_congr rfl fun k small => ?_
  rw [Quad.ofS8_at' _ (mem_range.mp small),Quad.load_at' _ _ (mem_range.mp small),loaduSi128,byte,Nat.add_assoc _ (sb*16),
    Nat.add_assoc p]

theorem six_lanes {K : Type} (s : Source K) (blk : Nat) {sb c k : Nat} (chunk : c < 2) (small : k < 8) :
    signed 16 (lane 2 (subEpi16 (orSi
      (andSi (sseU8ShrX8 (loadlEpi64 s.data (blk+((sb >>> 3) <<< 6+((((sb &&& 7) >>> 1) &&& 1) <<< 5)+
        (((sb &&& 7) &&& 1) <<< 4))+c*8)) (if (sb &&& 7) >>> 1 ≥ 2 then 4 else 0)) (set1Epi16 0x0F))
      (slliEpi16 (andSi (sseU8ShrX8 (loadlEpi64 s.data (blk+128+((sb >>> 3) <<< 5+(((sb &&& 7) &&& 1) <<< 4))+c*8))
        (((sb &&& 7) >>> 1)*2)) (set1Epi16 0x03)) 4)) (set1Epi16 32)) k) =
      (six s blk (blk+128) (sb*16+(c*8+k)) : Int)-32 := by
  have half' : (sb*16+(c*8+k))/128 = sb/8 := by omega
  have which : (sb*16+(c*8+k)) % 128/32 = sb % 8/2 := by omega
  have inner : (sb*16+(c*8+k)) % 32 = sb % 8 % 2*16+(c*8+k) := by omega
  have low : lane 2 (andSi (sseU8ShrX8 (loadlEpi64 s.data (blk+((sb >>> 3) <<< 6+((((sb &&& 7) >>> 1) &&& 1) <<< 5)+
      (((sb &&& 7) &&& 1) <<< 4))+c*8)) (if (sb &&& 7) >>> 1 ≥ 2 then 4 else 0)) (set1Epi16 0x0F)) k =
        sixLow s blk (sb*16+(c*8+k)) := by
    rw [lane_field (m:=4) s _ (by split <;> omega) small (by decide) (by decide)]
    simp only [sixLow,half',which,inner,and_seven,and_one,Nat.shiftRight_eq_div_pow,Nat.shiftLeft_eq,Nat.reducePow,
      ge_iff_le,Nat.pow_one,Nat.add_assoc]
    by_cases upper : 2 ≤ sb % 8/2 <;> simp [upper]
  have high : lane 2 (andSi (sseU8ShrX8 (loadlEpi64 s.data (blk+128+((sb >>> 3) <<< 5+
      (((sb &&& 7) &&& 1) <<< 4))+c*8)) (((sb &&& 7) >>> 1)*2)) (set1Epi16 0x03)) k =
        byte s (blk+128+((sb*16+(c*8+k))/128*32+(sb*16+(c*8+k)) % 32))/2^((sb*16+(c*8+k)) % 128/32*2) % 4 := by
    rw [lane_field (m:=2) s _ (by rw [and_seven,Nat.shiftRight_eq_div_pow]; omega) small (by decide) (by decide)]
    simp only [half',which,inner,and_seven,and_one,Nat.shiftRight_eq_div_pow,Nat.shiftLeft_eq,Nat.reducePow,
      Nat.pow_one,Nat.add_assoc]
  have field : byte s (blk+128+((sb*16+(c*8+k))/128*32+(sb*16+(c*8+k)) % 32))/2^((sb*16+(c*8+k)) % 128/32*2) % 4 < 4 :=
    Nat.mod_lt _ (by decide)
  have joined := lane_joined (k:=4) low (sixLow_lt ..) high (by omega)
  have code := six_lt s blk (blk+128) (sb*16+(c*8+k))
  exact signed_biased (a:=six s blk (blk+128) (sb*16+(c*8+k))) (b:=32) joined (by omega) (by decide)

theorem q6K_sum (s : Source K) (bi : Nat) (x : Nat → K) (p : Nat) :
    ∑ o ∈ range 256,value (dequantQ6K (bi*256+o)) s*x (p+o) =
      value (f16At (bi*210+208)) s*∑ sb ∈ range 16,(signed 8 (byte s (bi*210+(192+sb))) : K)*
        ∑ k ∈ range 16,(((six s (bi*210) (bi*210+128) (sb*16+k) : Int)-32 : Int) : K)*x (p+(sb*16+k)) := by
  rw [← scaled_blocks 16 16 p (by decide) _ (fun sb => (signed 8 (byte s (bi*210+(192+sb))) : K))
    (fun o => (((six s (bi*210) (bi*210+128) o : Int)-32 : Int) : K))]
  refine sum_congr rfl fun o small => ?_
  rw [value_dequantQ6K s bi (mem_range.mp small)]

theorem sseDotQ6KBlock_exact (s : Source K) (bi : Nat) (x : Nat → K) (p : Nat) :
    sseDotQ6KBlock s (bi*210) x p = ∑ o ∈ range 256,value (dequantQ6K (bi*256+o)) s*x (p+o) := by
  simp only [sseDotQ6KBlock]
  rw [q6K_sum,fold_total (m:=fun acc : K => acc) (fun sb _ acc => rfl),zero_add]
  congr 1
  refine sum_congr rfl fun sb _ => ?_
  rw [lanes_loop (q:=fun o => (six s (bi*210) (bi*210+128) (sb*16+o) : Int)-32)
    (fun c chunk k small => six_lanes s (bi*210) chunk small)]
  simp only [byte,Nat.add_assoc]

theorem avx2DotQ6KBlock_exact (s : Source K) (bi : Nat) (x : Nat → K) (p : Nat) :
    avx2DotQ6KBlock s (bi*210) x p = ∑ o ∈ range 256,value (dequantQ6K (bi*256+o)) s*x (p+o) := by
  simp only [avx2DotQ6KBlock,avx2U8ShrX8_eq]
  rw [q6K_sum,fold_total (m:=avx2HsumF32x8) (fun sb _ acc => avx2HsumF32x8_fmaddPs _ _ acc),avx2HsumF32x8_zero,
    zero_add]
  congr 1
  refine sum_congr rfl fun sb _ => ?_
  simp only [set1Ps_at]
  rw [← mul_sum,← avx2HsumF32x8_eq,avx2_lanes_loop (q:=fun o => (six s (bi*210) (bi*210+128) (sb*16+o) : Int)-32)
    (fun c chunk k small => six_lanes s (bi*210) chunk small)]
  simp only [byte,Nat.add_assoc]

theorem kNibble_lane {K : Type} (s : Source K) (qs : Nat) {j c k : Nat} (chunk : c < 4) (small : k < 8) :
    lane 2 (andSi (sseU8ShrX8 (loadlEpi64 s.data (qs+j >>> 1*32+c*8)) (if j &&& 1 ≠ 0 then 4 else 0))
      (set1Epi16 0x0F)) k = kNibble s qs (j*32+(c*8+k)) := by
  have wide := byte_lt s (qs+(j/2*32+(c*8+k)))
  rw [lane_field (m:=4) s _ (by split <;> omega) small (by decide) (by decide),kNibble_sub s qs j (by omega),and_one,
    Nat.shiftRight_eq_div_pow]
  rcases Nat.mod_two_eq_zero_or_one j with even | odd
  · simp [even,Nat.add_assoc]
  · simp only [odd,Nat.add_assoc,Nat.pow_one]
    norm_num
    omega

theorem kFifth_lane {K : Type} (s : Source K) (qh qs : Nat) {sb c k : Nat} (sub : sb < 8) (chunk : c < 4)
    (small : k < 8) : signed 16 (lane 2 (orSi
      (andSi (sseU8ShrX8 (loadlEpi64 s.data (qs+sb >>> 1*32+c*8)) (if sb &&& 1 ≠ 0 then 4 else 0)) (set1Epi16 0x0F))
      (slliEpi16 (andSi (sseU8ShrX8 (loadlEpi64 s.data (qh+c*8)) sb) (set1Epi16 0x01)) 4)) k) =
      (kFifth s qh qs (sb*32+(c*8+k)) : Int) := by
  have high : lane 2 (andSi (sseU8ShrX8 (loadlEpi64 s.data (qh+c*8)) sb) (set1Epi16 0x01)) k =
      byte s (qh+(c*8+k))/2^sb % 2 := by
    rw [lane_field (m:=1) s _ (by omega) small (by decide) (by decide),Nat.add_assoc,Nat.pow_one]
  have field : byte s (qh+(c*8+k))/2^sb % 2 < 2 := Nat.mod_lt _ (by decide)
  have joined := lane_joined (k:=4) (kNibble_lane s qs (j:=sb) chunk small) (kNibble_lt ..) high (by omega)
  have code := kFifth_lt s qh qs (sb*32+(c*8+k))
  rw [joined,show 2^4 = 16 from rfl,← kFifth_sub s qh qs sb (by omega)]
  exact signed_of_lt (code.trans (by decide))

theorem min_blocks (p : Nat) (d dmin : K) (scale min' code x : Nat → K) :
    ∑ o ∈ range 256,(d*scale (o/32)*code o-dmin*min' (o/32))*x (p+o) =
      d*∑ sb ∈ range 8,scale sb*∑ k ∈ range 32,code (sb*32+k)*x (p+(sb*32+k))-
        dmin*∑ sb ∈ range 8,min' sb*∑ k ∈ range 32,x (p+(sb*32+k)) := by
  have scaled := scaled_blocks 8 32 p (by decide) d scale code x
  have mins := scaled_blocks 8 32 p (by decide) dmin min' (fun _ => 1) x
  simp only [one_mul] at mins
  rw [← scaled,← mins,← sum_sub_distrib]
  refine sum_congr rfl fun o _ => ?_
  ring

theorem q4K_sum (s : Source K) (bi : Nat) (x : Nat → K) (p : Nat) :
    ∑ o ∈ range 256,value (dequantQ4K (bi*256+o)) s*x (p+o) =
      value (f16At (bi*144)) s*∑ sb ∈ range 8,((value (q4kScaleMin (K:=K) (bi*144+4) sb) s).1 : K)*
        ∑ k ∈ range 32,(kNibble s (bi*144+16) (sb*32+k) : K)*x (p+(sb*32+k))-
      value (f16At (bi*144+2)) s*∑ sb ∈ range 8,((value (q4kScaleMin (K:=K) (bi*144+4) sb) s).2 : K)*
        ∑ k ∈ range 32,x (p+(sb*32+k)) := by
  rw [← min_blocks p _ _ (fun sb => ((value (q4kScaleMin (K:=K) (bi*144+4) sb) s).1 : K))
    (fun sb => ((value (q4kScaleMin (K:=K) (bi*144+4) sb) s).2 : K)) (fun o => (kNibble s (bi*144+16) o : K))]
  refine sum_congr rfl fun o small => ?_
  rw [value_dequantQ4K s bi (mem_range.mp small)]

theorem kNibble_quad (s : Source K) (qs : Nat) {sb t k : Nat} (half' : t < 2) (small : k < 16) :
    (Quad.ofU8 (if sb &&& 1 = 0 then sseLoNibbles (loaduSi128 s.data (qs+sb >>> 1*32+t*16))
      else sseHiNibbles (loaduSi128 s.data (qs+sb >>> 1*32+t*16))) : Quad K).at' k =
        (kNibble s qs (sb*32+(t*16+k)) : K) := by
  rw [Quad.ofU8_at' _ small,kNibble_sub s qs sb (by omega),and_one,Nat.shiftRight_eq_div_pow,Nat.pow_one]
  split
  · rw [sseLoNibbles_byte,loaduSi128,byte]
    simp only [Nat.add_assoc]
  · rw [sseHiNibbles_byte,loaduSi128,byte]
    simp only [Nat.add_assoc]

theorem sseDotQ4KBlock_exact (s : Source K) (bi : Nat) (x : Nat → K) (p : Nat) :
    sseDotQ4KBlock s (bi*144) x p = ∑ o ∈ range 256,value (dequantQ4K (bi*256+o)) s*x (p+o) := by
  simp only [sseDotQ4KBlock]
  rw [q4K_sum,fold_pair 8 (fun sb (acc : K) => acc+_) (fun sb (acc : K) => acc+_)]
  rw [fold_total (m:=fun acc : K => acc) (fun sb _ acc => rfl),
    fold_total (m:=fun acc : K => acc) (fun sb _ acc => rfl),zero_add,zero_add]
  dsimp only
  congr 2 <;> refine sum_congr rfl fun sb _ => ?_ <;>
    rw [fold_pair 2 (fun t (acc : Quad K) => Quad.mulAdd acc _ _) (fun t (acc : Quad K) => Quad.add acc _)]
  · rw [dot_loop (g:=fun o => (kNibble s (bi*144+16) (sb*32+o) : K)) (fun t half' k small => kNibble_quad s _ half' small)]
    simp only [Nat.add_assoc]
  · rw [sum_loop]
    simp only [Nat.add_assoc]

theorem avx2DotQ4KBlock_exact (s : Source K) (bi : Nat) (x : Nat → K) (p : Nat) :
    avx2DotQ4KBlock s (bi*144) x p = ∑ o ∈ range 256,value (dequantQ4K (bi*256+o)) s*x (p+o) := by
  simp only [avx2DotQ4KBlock,avx2U8ShrX8_eq]
  rw [q4K_sum,fold_pair 8 (fun sb (acc : Ps K) => fmaddPs _ _ acc) (fun sb (acc : Ps K) => fmaddPs _ _ acc)]
  rw [fold_total (m:=avx2HsumF32x8) (fun sb _ acc => avx2HsumF32x8_fmaddPs _ _ acc),
    fold_total (m:=avx2HsumF32x8) (fun sb _ acc => avx2HsumF32x8_fmaddPs _ _ acc),avx2HsumF32x8_zero,zero_add,zero_add]
  congr 2 <;> refine sum_congr rfl fun sb _ => ?_ <;> simp only [set1Ps_at] <;>
    rw [← mul_sum,← avx2HsumF32x8_eq,
      fold_pair 4 (fun c (acc : Ps K) => fmaddPs _ _ acc) (fun c (acc : Ps K) => addPs acc _)]
  · rw [avx2_lanes_loop (q:=fun o => (kNibble s (bi*144+16) (sb*32+o) : Int)) (fun c chunk k small => by
      rw [kNibble_lane s _ chunk small]
      exact signed_of_lt ((kNibble_lt ..).trans (by decide)))]
    simp only [Nat.add_assoc,Int.cast_natCast]
  · rw [avx2_sum_loop]
    simp only [Nat.add_assoc]

theorem sseDotQ5KBlock_exact (s : Source K) (bi : Nat) (x : Nat → K) (p : Nat) :
    sseDotQ5KBlock s (bi*176) x p = ∑ o ∈ range 256,value (dequantQ5K (bi*256+o)) s*x (p+o) := by
  have elements : ∑ o ∈ range 256,value (dequantQ5K (bi*256+o)) s*x (p+o) =
      value (f16At (bi*176)) s*∑ sb ∈ range 8,((value (q4kScaleMin (K:=K) (bi*176+4) sb) s).1 : K)*
        ∑ k ∈ range 32,(kFifth s (bi*176+16) (bi*176+48) (sb*32+k) : K)*x (p+(sb*32+k))-
      value (f16At (bi*176+2)) s*∑ sb ∈ range 8,((value (q4kScaleMin (K:=K) (bi*176+4) sb) s).2 : K)*
        ∑ k ∈ range 32,x (p+(sb*32+k)) := by
    rw [← min_blocks p _ _ (fun sb => ((value (q4kScaleMin (K:=K) (bi*176+4) sb) s).1 : K))
      (fun sb => ((value (q4kScaleMin (K:=K) (bi*176+4) sb) s).2 : K))
      (fun o => (kFifth s (bi*176+16) (bi*176+48) o : K))]
    refine sum_congr rfl fun o small => ?_
    rw [value_dequantQ5K s bi (mem_range.mp small)]
  simp only [sseDotQ5KBlock]
  rw [elements,fold_pair 8 (fun sb (acc : K) => acc+_) (fun sb (acc : K) => acc+_)]
  rw [fold_total (m:=fun acc : K => acc) (fun sb _ acc => rfl),
    fold_total (m:=fun acc : K => acc) (fun sb _ acc => rfl),zero_add,zero_add]
  dsimp only
  congr 2 <;> refine sum_congr rfl fun sb below => ?_ <;>
    rw [fold_pair 4 (fun c (acc : Ps K) => addPs acc _) (fun c (acc : Ps K) => addPs acc _)]
  · rw [lanes_loop (q:=fun o => (kFifth s (bi*176+16) (bi*176+48) (sb*32+o) : Int))
      (fun c chunk k small => kFifth_lane s _ _ (mem_range.mp below) chunk small)]
    simp only [Nat.add_assoc,Int.cast_natCast]
  · rw [pairs_sum_loop]
    simp only [Nat.add_assoc]

theorem three_lanes {K : Type} (s : Source K) (blk : Nat) {sb c k : Nat} (sub : sb < 16) (chunk : c < 2) (small : k < 8) :
    signed 16 (lane 2 (subEpi16 (orSi
      (andSi (sseU8ShrX8 (loadlEpi64 s.data (blk+32+((sb >>> 3) <<< 5+((sb &&& 1) <<< 4))+c*8)) (((sb >>> 1) &&& 3)*2))
        (set1Epi16 0x03))
      (slliEpi16 (andSi (sseU8ShrX8 (loadlEpi64 s.data (blk+((sb &&& 1) <<< 4)+c*8)) (sb >>> 1)) (set1Epi16 0x01)) 2))
      (set1Epi16 4)) k) = (three s blk (blk+32) (sb*16+(c*8+k)) : Int)-4 := by
  have half' : (sb*16+(c*8+k))/128 = sb/8 := by omega
  have group : (sb*16+(c*8+k))/32 = sb/2 := by omega
  have inner : (sb*16+(c*8+k)) % 32 = sb % 2*16+(c*8+k) := by omega
  have low : lane 2 (andSi (sseU8ShrX8 (loadlEpi64 s.data (blk+32+((sb >>> 3) <<< 5+((sb &&& 1) <<< 4))+c*8))
      (((sb >>> 1) &&& 3)*2)) (set1Epi16 0x03)) k =
        byte s (blk+32+((sb*16+(c*8+k))/128*32+(sb*16+(c*8+k)) % 32))/2^((sb*16+(c*8+k))/32 % 4*2) % 4 := by
    rw [lane_field (m:=2) s _ (by rw [and_three]; omega) small (by decide) (by decide)]
    simp only [half',group,inner,and_one,and_three,Nat.shiftRight_eq_div_pow,Nat.shiftLeft_eq,Nat.reducePow,
      Nat.pow_one,Nat.add_assoc]
  have high : lane 2 (andSi (sseU8ShrX8 (loadlEpi64 s.data (blk+((sb &&& 1) <<< 4)+c*8)) (sb >>> 1))
      (set1Epi16 0x01)) k = byte s (blk+(sb*16+(c*8+k)) % 32)/2^((sb*16+(c*8+k))/32) % 2 := by
    rw [lane_field (m:=1) s _ (by rw [Nat.shiftRight_eq_div_pow]; omega) small (by decide) (by decide)]
    simp only [group,inner,and_one,Nat.shiftRight_eq_div_pow,Nat.shiftLeft_eq,Nat.reducePow,Nat.pow_one,Nat.add_assoc]
  have field : byte s (blk+(sb*16+(c*8+k)) % 32)/2^((sb*16+(c*8+k))/32) % 2 < 2 := Nat.mod_lt _ (by decide)
  have joined := lane_joined (k:=2) low (Nat.mod_lt _ (by decide)) high (by omega)
  have code := three_lt s blk (blk+32) (sb*16+(c*8+k))
  exact signed_biased (a:=three s blk (blk+32) (sb*16+(c*8+k))) (b:=4) joined (by omega) (by decide)

theorem sseDotQ3KBlock_exact (s : Source K) (bi : Nat) (x : Nat → K) (p : Nat) :
    sseDotQ3KBlock s (bi*110) x p = ∑ o ∈ range 256,value (dequantQ3K (bi*256+o)) s*x (p+o) := by
  have elements : ∑ o ∈ range 256,value (dequantQ3K (bi*256+o)) s*x (p+o) =
      value (f16At (bi*110+108)) s*∑ sb ∈ range 16,(threeScale s (bi*110+96) sb : K)*
        ∑ k ∈ range 16,(((three s (bi*110) (bi*110+32) (sb*16+k) : Int)-4 : Int) : K)*x (p+(sb*16+k)) := by
    rw [← scaled_blocks 16 16 p (by decide) _ (fun sb => (threeScale s (bi*110+96) sb : K))
      (fun o => (((three s (bi*110) (bi*110+32) o : Int)-4 : Int) : K))]
    refine sum_congr rfl fun o small => ?_
    rw [value_dequantQ3K s bi (mem_range.mp small)]
  simp only [sseDotQ3KBlock]
  rw [elements,fold_total (m:=fun acc : K => acc) (fun sb _ acc => rfl),zero_add]
  congr 1
  refine sum_congr rfl fun sb below => ?_
  have sub := mem_range.mp below
  rw [threeScale_bits s _ sub,lanes_loop (q:=fun o => (three s (bi*110) (bi*110+32) (sb*16+o) : Int)-4)
    (fun c chunk k small => three_lanes s (bi*110) sub chunk small)]
  simp only [Nat.add_assoc]

theorem cvtsi32Si128_byte {x b : Nat} (small : b < 4) : (cvtsi32Si128 x b).toNat = x/256^b % 256 := by
  rw [cvtsi32Si128,if_pos small,UInt8.toNat_ofNat']

theorem magnitude_word {K : Type} (s : Source K) (a : Nat) {b : Nat} (small : b < 4) :
    (cvtsi32Si128 (load 4 s.data a) b).toNat = byte s (a+b) := by
  have b0 := byte_lt s a
  have b1 := byte_lt s (a+1)
  have b2 := byte_lt s (a+2)
  have b3 := byte_lt s (a+3)
  rw [cvtsi32Si128_byte small]
  simp only [load,List.range_succ,List.range_zero,List.nil_append,List.cons_append,List.map_cons,List.map_nil,
    LittleEndian.leNat,← byte.eq_def,Nat.add_zero]
  interval_cases b <;> simp only [Nat.reducePow,Nat.add_zero] <;> omega

theorem sign_word {K : Type} (s : Source K) (a stale : Nat) {b : Nat} (small : b < 2) :
    (cvtsi32Si128 (load 2 s.data a+2^16*stale) b).toNat = byte s (a+b) := by
  have b0 := byte_lt s a
  have b1 := byte_lt s (a+1)
  rw [cvtsi32Si128_byte (by omega)]
  simp only [load,List.range_succ,List.range_zero,List.nil_append,List.cons_append,List.map_cons,List.map_nil,
    LittleEndian.leNat,← byte.eq_def,Nat.add_zero]
  interval_cases b <;> simp only [Nat.reducePow,Nat.add_zero] <;> omega

theorem lane_shuffleEpi8 {v : Reg} {l : List Int} {k b : Nat} (even : l.getD (2*k) 0 = (b : Int)) (small : b < 16)
    (odd : l.getD (2*k+1) 0 = -1) : lane 2 (shuffleEpi8 v (setrEpi8 l)) k = (v b).toNat := by
  have low : shuffleEpi8 v (setrEpi8 l) (2*k) = v b := by
    have place : (setrEpi8 l (2*k)).toNat = b := by
      rw [setrEpi8,even,UInt8.toNat_ofNat',unsigned]
      omega
    rw [shuffleEpi8,place,if_neg (by omega),Nat.mod_eq_of_lt small]
  have high : shuffleEpi8 v (setrEpi8 l) (2*k+1) = 0 := by
    have place : (setrEpi8 l (2*k+1)).toNat = 255 := by
      rw [setrEpi8,odd]
      rfl
    rw [shuffleEpi8,place,if_pos (by decide)]
  rw [lane_two,low,high]
  simp

theorem two_lanes {K : Type} (s : Source K) (blk stale : Nat) {sb c k : Nat} (chunk : c < 2) (small : k < 8) :
    signed 16 (lane 2 (subEpi16
      (andSi (sseU8ShrX8Var (shuffleEpi8 (cvtsi32Si128 (load 4 s.data (blk+sb <<< 2)))
        ([setrEpi8 [0,-1,0,-1,0,-1,0,-1,1,-1,1,-1,1,-1,1,-1],setrEpi8 [2,-1,2,-1,2,-1,2,-1,3,-1,3,-1,3,-1,3,-1]].getD c
          (cvtsi32Si128 (load 4 s.data (blk+sb <<< 2))))) (setrEpi16 [256,64,16,4,256,64,16,4])) (set1Epi16 0x03))
      (slliEpi16 (andSi (sseU8ShrX8Var (shuffleEpi8 (cvtsi32Si128 (load 2 s.data (blk+sb <<< 1)+2^16*stale))
        ([setrEpi8 [0,-1,0,-1,0,-1,0,-1,0,-1,0,-1,0,-1,0,-1],setrEpi8 [1,-1,1,-1,1,-1,1,-1,1,-1,1,-1,1,-1,1,-1]].getD c
          (cvtsi32Si128 (load 2 s.data (blk+sb <<< 1)+2^16*stale)))) (setrEpi16 [256,128,64,32,16,8,4,2]))
          (set1Epi16 0x01)) 2)) k) =
      (twoMagnitude s blk (sb*16+(c*8+k)) : Int)-twoSign s blk (sb*16+(c*8+k))*4 := by
  have quarter : (sb*16+(c*8+k))/4 = sb*4+(c*8+k)/4 := by omega
  have eighth : (sb*16+(c*8+k))/8 = sb*2+c := by omega
  have place4 : (sb*16+(c*8+k)) % 4 = k % 4 := by omega
  have place8 : (sb*16+(c*8+k)) % 8 = k := by omega
  have magByte : lane 2 (shuffleEpi8 (cvtsi32Si128 (load 4 s.data (blk+sb <<< 2)))
      ([setrEpi8 [0,-1,0,-1,0,-1,0,-1,1,-1,1,-1,1,-1,1,-1],setrEpi8 [2,-1,2,-1,2,-1,2,-1,3,-1,3,-1,3,-1,3,-1]].getD c
        (cvtsi32Si128 (load 4 s.data (blk+sb <<< 2))))) k = byte s (blk+(sb*16+(c*8+k))/4) := by
    have window := magnitude_word s (blk+sb <<< 2) (b:=(c*8+k)/4) (by omega)
    rw [quarter,← Nat.add_assoc,← Nat.shiftLeft_eq sb 2,← window]
    interval_cases c <;> interval_cases k <;> exact lane_shuffleEpi8 rfl (by decide) rfl
  have sgnByte : lane 2 (shuffleEpi8 (cvtsi32Si128 (load 2 s.data (blk+sb <<< 1)+2^16*stale))
      ([setrEpi8 [0,-1,0,-1,0,-1,0,-1,0,-1,0,-1,0,-1,0,-1],setrEpi8 [1,-1,1,-1,1,-1,1,-1,1,-1,1,-1,1,-1,1,-1]].getD c
        (cvtsi32Si128 (load 2 s.data (blk+sb <<< 1)+2^16*stale)))) k = byte s (blk+(sb*16+(c*8+k))/8) := by
    have window := sign_word s (blk+sb <<< 1) stale (b:=c) (by omega)
    rw [eighth,← Nat.add_assoc,← Nat.shiftLeft_eq sb 1,← window]
    interval_cases c <;> interval_cases k <;> exact lane_shuffleEpi8 rfl (by decide) rfl
  have magMul : lane 2 (setrEpi16 [256,64,16,4,256,64,16,4]) k = 2^(8-k % 4*2) := by
    rw [lane_setrEpi16]
    interval_cases k <;> rfl
  have sgnMul : lane 2 (setrEpi16 [256,128,64,32,16,8,4,2]) k = 2^(8-k) := by
    rw [lane_setrEpi16]
    interval_cases k <;> rfl
  have mag := lane_sseU8ShrX8Var magByte (byte_lt ..) (by omega) magMul
  have sgn := lane_sseU8ShrX8Var sgnByte (byte_lt ..) (by omega) sgnMul
  have magField := lane_masked (m:=2) (b:=0x03) mag (by decide) (by decide)
  have sgnField := lane_masked (m:=1) (b:=0x01) sgn (by decide) (by decide)
  have magCode : byte s (blk+(sb*16+(c*8+k))/4)/2^(k % 4*2) % 2^2 = twoMagnitude s blk (sb*16+(c*8+k)) := by
    rw [twoMagnitude,place4]
    rfl
  have sgnCode : byte s (blk+(sb*16+(c*8+k))/8)/2^k % 2^1 = twoSign s blk (sb*16+(c*8+k)) := by
    rw [twoSign,place8,Nat.pow_one]
  rw [magCode] at magField
  rw [sgnCode] at sgnField
  have magnitude : twoMagnitude s blk (sb*16+(c*8+k)) < 4 := Nat.mod_lt _ (by decide)
  have sign : twoSign s blk (sb*16+(c*8+k)) < 2 := Nat.mod_lt _ (by decide)
  have shifted := lane_slliEpi16 (k:=2) (by rw [sgnField]; omega)
  rw [sgnField] at shifted
  have difference := signed_difference magField shifted (by omega) (by omega)
  push_cast at difference
  exact difference

theorem sseDotQ2KBlock_exact (stale : Nat → Nat) (s : Source K) (bi : Nat) (x : Nat → K) (p : Nat) :
    sseDotQ2KBlock stale s (bi*84) x p = ∑ o ∈ range 256,value (dequantQ2K (bi*256+o)) s*x (p+o) := by
  have elements : ∑ o ∈ range 256,value (dequantQ2K (bi*256+o)) s*x (p+o) =
      value (f16At (bi*84+80)) s*∑ sb ∈ range 16,(twoScale s (bi*84) sb : K)*
        ∑ k ∈ range 16,(((twoMagnitude s (bi*84) (sb*16+k) : Int)-twoSign s (bi*84) (sb*16+k)*4 : Int) : K)*
          x (p+(sb*16+k))-value (f16At (bi*84+82)) s*∑ o ∈ range (16*16),x (p+o) := by
    rw [← scaled_blocks 16 16 p (by decide) _ (fun sb => (twoScale s (bi*84) sb : K))
      (fun o => (((twoMagnitude s (bi*84) o : Int)-twoSign s (bi*84) o*4 : Int) : K)),mul_sum,← sum_sub_distrib]
    refine sum_congr rfl fun o small => ?_
    rw [value_dequantQ2K s bi (mem_range.mp small)]
    ring
  simp only [sseDotQ2KBlock]
  rw [elements,fold_pair 16 (fun sb (acc : K) => acc+_) (fun sb (acc : Quad K) => Quad.add acc _)]
  rw [fold_total (m:=fun acc : K => acc) (fun sb _ acc => rfl),zero_add,sum_loop]
  dsimp only
  congr 2
  refine sum_congr rfl fun sb _ => ?_
  rw [twoScale_bits,lanes_loop
    (q:=fun o => (twoMagnitude s (bi*84) (sb*16+o) : Int)-twoSign s (bi*84) (sb*16+o)*4)
    (fun c chunk k small => two_lanes s (bi*84) (stale (bi*84+sb)) chunk small)]
  simp only [Nat.add_assoc]

theorem blockDot_exact {avx2 : Bool} {stale : Nat → Nat} {type elems bytes : Nat}
    {fn : Source K → Nat → (Nat → K) → Nat → K} (shape : blockShape type = some (elems,bytes))
    (dot : blockDot avx2 stale type = some fn) (s : Source K) (bi : Nat) (x : Nat → K) (p : Nat) :
    0 < elems ∧ fn s (bi*bytes) x p = ∑ o ∈ range elems,value (ggufDequant type (bi*elems+o)) s*x (p+o) := by
  have known : type < 21 := by
    by_contra large
    simp only [blockDot] at dot
    split at dot <;> simp_all
  interval_cases type <;> cases shape <;> cases dot
  · exact ⟨by decide,sseDotQ4_0Block_exact s bi x p⟩
  · exact ⟨by decide,sseDotQ4_1Block_exact s bi x p⟩
  · exact ⟨by decide,sseDotQ8_0Block_exact s bi x p⟩
  · exact ⟨by decide,sseDotQ2KBlock_exact stale s bi x p⟩
  · exact ⟨by decide,sseDotQ3KBlock_exact s bi x p⟩
  · cases avx2
    · exact ⟨by decide,sseDotQ4KBlock_exact s bi x p⟩
    · exact ⟨by decide,avx2DotQ4KBlock_exact s bi x p⟩
  · exact ⟨by decide,sseDotQ5KBlock_exact s bi x p⟩
  · cases avx2
    · exact ⟨by decide,sseDotQ6KBlock_exact s bi x p⟩
    · exact ⟨by decide,avx2DotQ6KBlock_exact s bi x p⟩
  · exact ⟨by decide,sseDotQ8KBlock_exact s bi x p⟩
  · exact ⟨by decide,sseDotIq4NlBlock_exact s bi x p⟩

theorem scalarDot_eq (s : Source K) (type i low high : Nat) (x : Nat → K) (result : K) :
    scalarDot s type i low high x result =
      result+∑ k ∈ range (high-low),value (ggufDequant type (low+k)) s*x (low+k-i) := by
  rw [scalarDot,fold_total (m:=fun acc : K => acc) (fun k _ acc => rfl)]

theorem dotF32_exact (s : Source K) (i n : Nat) (x : Nat → K) :
    dotF32 s (i*4) x n = ∑ k ∈ range n,value (dequantF32 (i+k)) s*x k := by
  have element (k : Nat) : floatsAt s (i*4) k = value (dequantF32 (i+k)) s := by
    simp [floatsAt,dequantF32,Nat.mul_add,Nat.mul_comm i]
  have whole := dot_loop (n:=n/16) (p:=0) (x:=x) (w:=fun t => Quad.load (floatsAt s (i*4)) (t*16))
    (g:=fun k => value (dequantF32 (i+k)) s) (fun t _ k small => by rw [Quad.load_at' _ _ small,element])
  simp only [Nat.zero_add] at whole
  simp only [dotF32]
  rw [fold_total (m:=fun acc : K => acc) (fun t _ acc => rfl),whole]
  have parts := sum_range_add (fun k => value (dequantF32 (i+k)) s*x k) (n/16*16) (n-n/16*16)
  rw [Nat.add_sub_cancel' (Nat.div_mul_le_self n 16)] at parts
  rw [parts]
  congr 1
  exact sum_congr rfl fun k _ => by rw [element]

theorem dotF16_exact (s : Source K) (i n : Nat) (x : Nat → K) :
    dotF16 s (i*2) x n = ∑ k ∈ range n,value (dequantF16 (i+k)) s*x k := by
  rw [dotF16,fold_total (m:=fun acc : K => acc) (fun k _ acc => rfl),zero_add]
  exact sum_congr rfl fun k _ => by simp [dequantF16,f16At,Nat.mul_add,Nat.mul_comm i]

-- The loop over blocks adds up the pieces between the block borders.
theorem blockRun_sum {s : Source K} {type elems bytes : Nat} {fn : Source K → Nat → (Nat → K) → Nat → K}
    (wide : 0 < elems) (whole : ∀ bi x p,fn s (bi*bytes) x p =
      ∑ o ∈ range elems,value (ggufDequant type (bi*elems+o)) s*x (p+o)) (i n : Nat) (x : Nat → K) :
    ((i+n+elems-1)/elems-i/elems).fold (fun t _ result =>
      let bi := i/elems+t
      let bs := bi*elems
      let be := bs+elems
      let cs := if i > bs then i else bs
      let ce := if i+n < be then i+n else be
      if cs = bs ∧ ce = be then result+fn s (bi*bytes) x (cs-i) else scalarDot s type i cs ce x result) 0 =
      ∑ j ∈ range n,value (ggufDequant type (i+j)) s*x j := by
  have round : ∀ t < blockCount elems i n,∀ result : K,
      (let bi := i/elems+t
       let bs := bi*elems
       let be := bs+elems
       let cs := if i > bs then i else bs
       let ce := if i+n < be then i+n else be
       if cs = bs ∧ ce = be then result+fn s (bi*bytes) x (cs-i) else scalarDot s type i cs ce x result) =
        result+∑ k ∈ range (blockCut elems i n (t+1)-blockCut elems i n t),
          value (ggufDequant type (i+(blockCut elems i n t+k))) s*x (blockCut elems i n t+k) := by
    intro t below result
    have low := blockCut_low wide below
    have high := blockCut_high wide below
    simp only [← low,← high,Nat.add_sub_cancel_left]
    split
    · next aligned =>
      have size : blockCut elems i n (t+1)-blockCut elems i n t = elems := by omega
      rw [whole,size]
      congr 1
      refine sum_congr rfl fun k _ => ?_
      rw [← aligned.1,Nat.add_assoc]
    · rw [scalarDot_eq,Nat.add_sub_add_left]
      congr 1
      refine sum_congr rfl fun k _ => ?_
      rw [Nat.add_assoc,Nat.add_sub_cancel_left]
  have pieces := (sum_cuts (n:=blockCount elems i n) (fun t _ => blockCut_ordered (w:=elems) (i:=i) (n:=n) t)
    (fun j => value (ggufDequant type (i+j)) s*x j)).2
  rw [blockCut_zero,blockCut_count wide,Nat.sub_zero] at pieces
  simp only [Nat.zero_add] at pieces
  rw [← pieces]
  exact (fold_total (m:=fun acc : K => acc) round 0).trans (zero_add _)

theorem ggufDotBatch_sum (avx2 : Bool) (stale : Nat → Nat) (s : Source K) (type i n : Nat) (x : Nat → K) :
    ggufDotBatch avx2 stale s type i n x = ∑ j ∈ range n,value (ggufDequant type (i+j)) s*x j := by
  unfold ggufDotBatch
  split
  · exact dotF32_exact s i n x
  · exact dotF16_exact s i n x
  · split
    · next elems bytes fn shape dot =>
      obtain ⟨wide,_⟩ := blockDot_exact shape dot s 0 x 0
      exact blockRun_sum wide (fun bi x p => (blockDot_exact shape dot s bi x p).2) i n x
    · have run := scalarDot_eq s type i i (i+n) x 0
      simpa only [Nat.add_sub_cancel_left,zero_add] using run

-- The fused dot is the dot of the dequantised elements, in both builds.
theorem ggufDotBatch_exact (avx2 : Bool) (stale : Nat → Nat) (s : Source K) (type i n : Nat) (x : Nat → K) :
    ggufDotBatch avx2 stale s type i n x = ∑ j ∈ range n,value (ggufDequant type (i+j)) s*x j :=
  ggufDotBatch_sum avx2 stale s type i n x

end Blocks

end TinyLlama.Quants
