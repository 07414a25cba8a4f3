import TinyLlama.Quants.Batch
import TinyLlama.Quants.Layout

namespace TinyLlama.Quants
open Access Bits Memory Simd Sweep

section Pieces
variable {K : Type}

def Quad.at' (q : Quad K) (n : Nat) : K :=
  match n/4 with
  | 0 => q.r0 (n % 4)
  | 1 => q.r1 (n % 4)
  | 2 => q.r2 (n % 4)
  | _ => q.r3 (n % 4)

theorem sseLoNibbles_byte (v : Reg) (b : Nat) : (sseLoNibbles v b).toNat = (v b).toNat % 16 := by
  rw [sseLoNibbles,andSi,UInt8.toNat_and]
  exact and_fifteen _

theorem mask_high (x : UInt8) : (x &&& UInt8.ofNat 0xF0).toNat = 16*(x.toNat/16) := by
  have all : ∀ n < 256,n &&& 0xF0 = 16*(n/16) := by decide +kernel
  exact all x.toNat x.toNat_lt

theorem sseHiNibbles_byte (v : Reg) (b : Nat) : (sseHiNibbles v b).toNat = (v b).toNat/16 := by
  have masked (b : Nat) : (andSi v (set1Epi8 0xF0) b).toNat = 16*((v b).toNat/16) := mask_high (v b)
  have small := (v b).toNat_lt
  have nibble := and_fifteen ((v b).toNat/16)
  rw [sseHiNibbles,andSi,UInt8.toNat_and,srliEpi16_byte (fun b => ⟨_,masked b⟩),masked]
  simp only [set1Epi8]
  rw [show 16*((v b).toNat/16)/2^4 = (v b).toNat/16 by omega]
  exact nibble.trans (Nat.mod_eq_of_lt (by omega))

theorem sseStoreF32X16_splice (out : Nat → K) (p : Nat) (q : Quad K) :
    sseStoreF32X16 out p q = splice out p 16 q.at' := by
  have first (k : Nat) (small : k < 4) : q.r0 k = q.at' k := by interval_cases k <;> rfl
  have second (k : Nat) (small : k < 4) : q.r1 k = q.at' (4+k) := by interval_cases k <;> rfl
  have third (k : Nat) (small : k < 4) : q.r2 k = q.at' (8+k) := by interval_cases k <;> rfl
  have fourth (k : Nat) (small : k < 4) : q.r3 k = q.at' (12+k) := by interval_cases k <;> rfl
  unfold sseStoreF32X16 storeuPs
  rw [splice_congr first,splice_congr second,splice_congr third,splice_congr fourth]
  rw [splice_append out p 4 4,splice_append out p 8 4,splice_append out p 12 4]

theorem Quad.at'_cases {q : Quad K} {g : Nat → K} (first : ∀ l < 4,q.r0 l = g l)
    (second : ∀ l < 4,q.r1 l = g (4+l)) (third : ∀ l < 4,q.r2 l = g (8+l)) (fourth : ∀ l < 4,q.r3 l = g (12+l))
    {n : Nat} (small : n < 16) : q.at' n = g n := by
  have split : n = 4*(n/4)+n % 4 := (Nat.div_add_mod n 4).symm
  have lane' : n % 4 < 4 := Nat.mod_lt _ (by decide)
  have register : n/4 < 4 := by omega
  unfold Quad.at'
  interval_cases n/4
  · have place : n % 4 = n := by omega
    exact (first _ lane').trans (congrArg g place)
  · have place : 4+n % 4 = n := by omega
    exact (second _ lane').trans (congrArg g place)
  · have place : 8+n % 4 = n := by omega
    exact (third _ lane').trans (congrArg g place)
  · have place : 12+n % 4 = n := by omega
    exact (fourth _ lane').trans (congrArg g place)

theorem two_halves (out : Nat → K) (p : Nat) {q0 q1 : Quad K} {g : Nat → K} (first : ∀ n < 16,q0.at' n = g n)
    (second : ∀ n < 16,q1.at' n = g (16+n)) :
    sseStoreF32X16 (sseStoreF32X16 out p q0) (p+16) q1 = splice out p 32 g := by
  rw [sseStoreF32X16_splice,sseStoreF32X16_splice,splice_congr first,splice_congr second,splice_append out p 16 16]

theorem low_nibble (s : Source K) (qs : Nat) {n : Nat} (small : n < 16) :
    (sseLoNibbles (loaduSi128 s.data qs) n).toNat = nibble s qs n := by
  rw [sseLoNibbles_byte,nibble,if_pos small]
  rfl

theorem high_nibble (s : Source K) (qs n : Nat) :
    (sseHiNibbles (loaduSi128 s.data qs) n).toNat = nibble s qs (16+n) := by
  rw [sseHiNibbles_byte,nibble,if_neg (by omega),Nat.add_sub_cancel_left]
  rfl

theorem fifth_array (qh o : Nat) : (UInt8.ofNat (((qh >>> o) &&& 1) <<< 4)).toNat = (qh/2^o % 2) <<< 4 := by
  rw [UInt8.toNat_ofNat',and_one,Nat.shiftRight_eq_div_pow,Nat.shiftLeft_eq]
  omega

theorem orSi_fields {v hi : Reg} {n x b : Nat} (low : (v n).toNat = x) (small : x < 2^4)
    (high : (hi n).toNat = b <<< 4) : (orSi v hi n).toNat = x+b*16 := by
  rw [orSi,UInt8.toNat_or,low,high]
  exact or_shiftLeft b small

theorem fifth_lanes (s : Source K) (qh ql : Nat) {h n : Nat} (half : h < 2) (small : n < 16) :
    (orSi (if h = 0 then sseLoNibbles (loaduSi128 s.data ql) else sseHiNibbles (loaduSi128 s.data ql))
      (if h = 0 then loaduSi128 (fun o => UInt8.ofNat (((load 4 s.data qh >>> o) &&& 1) <<< 4)) 0
        else loaduSi128 (fun o => UInt8.ofNat (((load 4 s.data qh >>> o) &&& 1) <<< 4)) 16) n).toNat =
      fifth s qh ql (h*16+n) := by
  have low := nibble_lt s ql (h*16+n)
  interval_cases h
  · rw [Nat.zero_mul,Nat.zero_add] at low ⊢
    refine orSi_fields (low_nibble s ql small) low ?_
    simpa [loaduSi128] using fifth_array (load 4 s.data qh) n
  · rw [Nat.one_mul] at low ⊢
    exact orSi_fields (high_nibble s ql n) low (fifth_array (load 4 s.data qh) (16+n))

theorem array_lane {f : Nat → Nat} {p n a : Nat} (same : f (p+n) = a) (small : a < 256) :
    (loaduSi128 (fun j => UInt8.ofNat (f j)) p n).toNat = a := by
  rw [loaduSi128,UInt8.toNat_ofNat',same]
  exact Nat.mod_eq_of_lt small

theorem kNibble_bits (s : Source K) (qs sb : Nat) {m : Nat} (small : m < 32) :
    (if sb &&& 1 ≠ 0 then (s.data (qs+sb >>> 1*32+m)).toNat >>> 4 else (s.data (qs+sb >>> 1*32+m)).toNat &&& 15) =
      kNibble s qs (sb*32+m) := by
  rw [kNibble_sub s qs sb small,and_one,and_fifteen,Nat.shiftRight_eq_div_pow,Nat.shiftRight_eq_div_pow]
  rcases Nat.mod_two_eq_zero_or_one sb with even | odd
  · simp [even,byte,Nat.add_assoc]
  · simp [odd,byte,Nat.add_assoc]

theorem threeScale_bits (s : Source K) (scales : Nat) {sb : Nat} (small : sb < 16) :
    (((s.data (scales+(sb &&& 7))).toNat >>> (if sb ≥ 8 then 4 else 0)) &&& 15 |||
      (((s.data (scales+(8+(sb &&& 3)))).toNat >>> (((sb >>> 2) &&& 3)*2)) &&& 3) <<< 4 : Nat)-32 =
      threeScale s scales sb := by
  have quarter : sb/4 % 4 = sb/4 := by omega
  simp only [threeScale,byte,and_seven,and_three,and_fifteen,Nat.shiftRight_eq_div_pow,Nat.shiftLeft_eq,Nat.reducePow,
    quarter,mod16_or]

theorem three_bits (s : Source K) (qh qs o : Nat) :
    ((s.data (qs+(o >>> 7*32+(o &&& 31)))).toNat >>> (((o >>> 5) &&& 3)*2)) &&& 3 |||
      (((s.data (qh+(o &&& 31))).toNat >>> (o >>> 5)) &&& 1) <<< 2 = three s qh qs o := by
  simp only [three,byte,and_31,and_three,and_one,Nat.shiftRight_eq_div_pow,Nat.shiftLeft_eq,Nat.reducePow,mod4_or]

theorem signed_byte {x : Int} (low : -128 ≤ x) (high : x < 128) :
    signed 8 (UInt8.ofNat (unsigned 32 x)).toNat = x := by
  have kept : (UInt8.ofNat (unsigned 32 x)).toNat = unsigned 8 x := by
    rw [UInt8.toNat_ofNat']
    unfold unsigned
    omega
  rw [kept]
  exact signed_unsigned (by decide) low high

theorem two_bits (s : Source K) (blk o : Nat) :
    ((((s.data (blk+o >>> 2)).toNat >>> ((o &&& 3) <<< 1)) &&& 3 : Nat) : Int)-
      ((((s.data (blk+o >>> 3)).toNat >>> (o &&& 7)) &&& 1 : Nat) : Int)*4 =
        (twoMagnitude s blk o : Int)-twoSign s blk o*4 := by
  simp only [twoMagnitude,twoSign,byte,and_seven,and_three,and_one,Nat.shiftRight_eq_div_pow,Nat.shiftLeft_eq,
    Nat.reducePow]

theorem twoScale_bits (s : Source K) (blk sb : Nat) :
    (if sb &&& 1 ≠ 0 then (s.data (blk+64+sb >>> 1)).toNat >>> 4 else (s.data (blk+64+sb >>> 1)).toNat &&& 15) =
      twoScale s blk sb := by
  rcases Nat.mod_two_eq_zero_or_one sb with even | odd
  · simp [twoScale,byte,and_fifteen,even,Nat.shiftRight_eq_div_pow,Nat.add_assoc]
  · simp [twoScale,byte,odd,Nat.shiftRight_eq_div_pow,Nat.add_assoc]

theorem fold_storeF32 {n p : Nat} {e g : Nat → K} (same : ∀ o < n,e o = g o) (out : Nat → K) :
    n.fold (fun o _ out => storeF32 out (p+o) (e o)) out = splice out p n g := by
  refine fold_splice (w:=1) (Nat.mul_one n).symm (fun o below out => ?_) out
  rw [Nat.mul_one]
  refine splice_congr fun k small => ?_
  obtain rfl : k = 0 := by omega
  exact same o below

theorem rest_exact {n width : Nat} {body : Nat → (Nat → K) → Nat → K} {element g : Nat → K} {out : Nat → K}
    (registers : ∀ t < n/width,∀ out,body t out = splice out (t*width) width fun k => g (t*width+k))
    (last : ∀ k < n,element k = g k) :
    rest n width element ((n/width).fold (fun t _ out => body t out) out) = splice out 0 n g := by
  have whole := Nat.div_mul_le_self n width
  have first : (n/width).fold (fun t _ out => body t out) out = splice out 0 (n/width*width) g :=
    fold_splice rfl (fun t below out => by rw [registers t below,Nat.zero_add]) out
  have tail := fold_storeF32 (p:=n/width*width) (n:=n-n/width*width) (e:=fun t => element (n/width*width+t))
    (g:=fun t => g (n/width*width+t)) (fun o small => last _ (by omega)) (splice out 0 (n/width*width) g)
  have joined := splice_append out 0 (n/width*width) (n-n/width*width) g
  rw [Nat.zero_add] at joined
  rw [rest,first,tail,joined,Nat.add_sub_cancel' whole]

theorem batchF32_exact (s : Source K) (i0 nb : Nat) (out : Nat → K) :
    batchF32 s (i0*4) nb out = splice out 0 nb fun k => value (dequantF32 (i0+k)) s := by
  have element (k : Nat) : floatsAt s (i0*4) k = value (dequantF32 (i0+k)) s := by
    simp [floatsAt,dequantF32,Nat.mul_add,Nat.mul_comm i0]
  refine rest_exact (fun t _ out => ?_) fun k _ => element k
  refine (sseStoreF32X16_splice out (t*16) ⟨_,_,_,_⟩).trans (splice_congr fun n small => ?_)
  have place (c l : Nat) : floatsAt s (i0*4) (t*16+c+l) = value (dequantF32 (i0+(t*16+(c+l)))) s := by
    rw [element,Nat.add_assoc (t*16)]
  exact Quad.at'_cases (g:=fun n => value (dequantF32 (i0+(t*16+n))) s) (fun l _ => element (t*16+l))
    (fun l _ => place 4 l) (fun l _ => place 8 l) (fun l _ => place 12 l) small

theorem batchF16_exact (s : Source K) (i0 nb : Nat) (out : Nat → K) :
    batchF16 s (i0*2) nb out = splice out 0 nb fun k => value (dequantF16 (i0+k)) s := by
  have all := fold_storeF32 (p:=0) (n:=nb) (e:=fun i => s.f16 (load 2 s.data (i0*2+2*i)))
    (g:=fun k => value (dequantF16 (i0+k)) s)
    (fun o _ => by simp [dequantF16,f16At,Nat.mul_add,Nat.mul_comm i0]) out
  simpa [batchF16] using all

theorem batchF64_exact (s : Source K) (i0 nb : Nat) (out : Nat → K) :
    batchF64 s (i0*8) nb out = splice out 0 nb fun k => value (dequantF64 (i0+k)) s := by
  have all := fold_storeF32 (p:=0) (n:=nb) (e:=fun i => s.f64 (load 8 s.data (i0*8+8*i)))
    (g:=fun k => value (dequantF64 (i0+k)) s)
    (fun o _ => by simp [dequantF64,Nat.mul_add,Nat.mul_comm i0]) out
  simpa [batchF64] using all

theorem two_registers (out : Nat → K) (p : Nat) {a b : Ps K} {g : Nat → K} (first : ∀ l < 4,a l = g l)
    (second : ∀ l < 4,b l = g (4+l)) : storeuPs (storeuPs out p a) (p+4) b = splice out p 8 g := by
  rw [storeuPs,storeuPs,splice_congr first,splice_congr second,splice_append out p 4 4]

theorem batchBf16_exact (s : Source K) (i0 nb : Nat) (out : Nat → K) :
    batchBf16 s (i0*2) nb out = splice out 0 nb fun k => value (dequantBf16 (i0+k)) s := by
  have element (k : Nat) : s.f32 (load 2 s.data (i0*2+2*k) <<< 16) = value (dequantBf16 (i0+k)) s := by
    simp [dequantBf16,Nat.mul_add,Nat.mul_comm i0]
  have shifted (v : Reg) (l : Nat) : lane 4 (slliEpi32 (cvtepu16Epi32 v) 16) l = lane 2 v l <<< 16 := by
    have small := lane_lt 2 v l
    rw [slliEpi32,lane_ofLanes (by decide),cvtepu16Epi32,lane_ofLanes (by decide),Nat.shiftLeft_eq,Nat.shiftLeft_eq]
    omega
  refine rest_exact (fun t _ out => ?_) fun k _ => element k
  refine two_registers out (t*8) (fun l small => ?_) fun l small => ?_
  · rw [castsi128Ps,shifted,lane_loaduSi128,← element (t*8+l),Nat.mul_add,Nat.add_assoc]
  · rw [castsi128Ps,shifted,lane_srliSi128 _ small,lane_loaduSi128,← element (t*8+(4+l)),Nat.mul_add 2 (t*8),
      Nat.add_assoc,Nat.add_comm l 4]

end Pieces

section Kernels
variable {K : Type} [Field K]

theorem sseU8ToF32X16_at (v : Reg) (scale add : Ps K) {bias : Int} (low : 0 ≤ bias) (high : bias ≤ 2^15) {n : Nat}
    (small : n < 16) : (sseU8ToF32X16 v scale add bias).at' n =
      add (n % 4)+((((v n).toNat : Int)-bias : Int) : K)*scale (n % 4) := by
  have biased (w : Reg) (l : Nat) (byte : lane 2 w l < 256) :
      (cvtepi32Ps (if bias ≠ 0 then subEpi32 (cvtepi16Epi32 w) (set1Epi32 bias) else cvtepi16Epi32 w) : Ps K) l =
        (((lane 2 w l : Int)-bias : Int) : K) := by
    have wide : lane 4 (cvtepi16Epi32 w) l = lane 2 w l := lane_cvtepi16Epi32 (byte.trans (by decide))
    split
    · have set' : (lane 4 (set1Epi32 bias) l : Int) = bias := lane_set1Epi32 low (by omega) l
      rw [cvtepi32Ps,signed_subEpi32 (by omega) (by omega),wide,set']
    · next zero =>
      rw [cvtepi32Ps_cvtepi16Epi32,signed_of_lt (byte.trans (by decide)),not_not.mp zero,Int.sub_zero]
  have byte (b : Nat) := (v b).toNat_lt
  refine Quad.at'_cases (g:=fun n => add (n % 4)+((((v n).toNat : Int)-bias : Int) : K)*scale (n % 4)) ?_ ?_ ?_ ?_
    small <;> intro l small
  · have at' := lane_cvtepu8Epi16 v l
    simp only [sseU8ToF32X16,addPs_at,mulPs_at]
    rw [biased _ _ (at' ▸ byte l),at',Nat.mod_eq_of_lt small]
  · have at' := lane_widen_second v small
    simp only [sseU8ToF32X16,addPs_at,mulPs_at]
    rw [biased _ _ (at' ▸ byte _),at',Nat.add_mod_left,Nat.mod_eq_of_lt small]
  · have at' := lane_widen_third v small
    simp only [sseU8ToF32X16,addPs_at,mulPs_at]
    rw [biased _ _ (at' ▸ byte _),at',show (8+l) % 4 = l by omega]
  · have at' := lane_widen_fourth v small
    simp only [sseU8ToF32X16,addPs_at,mulPs_at]
    rw [biased _ _ (at' ▸ byte _),at',show (12+l) % 4 = l by omega]

theorem sseS8ToF32X16_at (v : Reg) (scale add : Ps K) {n : Nat} (small : n < 16) :
    (sseS8ToF32X16 v scale add).at' n = add (n % 4)+(signed 8 (v n).toNat : K)*scale (n % 4) := by
  refine Quad.at'_cases (g:=fun n => add (n % 4)+(signed 8 (v n).toNat : K)*scale (n % 4)) ?_ ?_ ?_ ?_ small <;>
    intro l small <;> simp only [sseS8ToF32X16,addPs_at,mulPs_at,cvtepi32Ps_cvtepi16Epi32]
  · rw [signed_cvtepi8Epi16,Nat.mod_eq_of_lt small]
  · rw [signed_widen_second v small,Nat.add_mod_left,Nat.mod_eq_of_lt small]
  · rw [signed_widen_third v small,show (8+l) % 4 = l by omega]
  · rw [signed_widen_fourth v small,show (12+l) % 4 = l by omega]

theorem sseBlockQ8_0_exact (s : Source K) (bi : Nat) (out : Nat → K) (p : Nat) :
    sseBlockQ8_0 s (bi*34) out p = splice out p 32 fun o => value (dequantQ8_0 (bi*32+o)) s := by
  refine two_halves out p (fun n small => ?_) fun n small => ?_
  · rw [sseS8ToF32X16_at _ _ _ small,value_dequantQ8_0 s bi (by omega)]
    simp [loaduSi128,byte]
  · rw [sseS8ToF32X16_at _ _ _ small,value_dequantQ8_0 s bi (by omega)]
    simp [loaduSi128,byte,← Nat.add_assoc]

theorem sseBlockQ8_1_exact (s : Source K) (bi : Nat) (out : Nat → K) (p : Nat) :
    sseBlockQ8_1 s (bi*40) out p = splice out p 32 fun o => value (dequantQ8_1 (bi*32+o)) s := by
  refine two_halves out p (fun n small => ?_) fun n small => ?_
  · rw [sseS8ToF32X16_at _ _ _ small,value_dequantQ8_1 s bi (by omega)]
    simp [loaduSi128,byte]
  · rw [sseS8ToF32X16_at _ _ _ small,value_dequantQ8_1 s bi (by omega)]
    simp [loaduSi128,byte,← Nat.add_assoc]

theorem sseBlockQ4_0_exact (s : Source K) (bi : Nat) (out : Nat → K) (p : Nat) :
    sseBlockQ4_0 s (bi*18) out p = splice out p 32 fun o => value (dequantQ4_0 (bi*32+o)) s := by
  refine two_halves out p (fun n small => ?_) fun n small => ?_
  · rw [sseU8ToF32X16_at _ _ _ (by decide) (by decide) small,low_nibble s _ small,value_dequantQ4_0 s bi (by omega)]
    simp
  · rw [sseU8ToF32X16_at _ _ _ (by decide) (by decide) small,high_nibble,value_dequantQ4_0 s bi (by omega)]
    simp

theorem sseBlockQ4_1_exact (s : Source K) (bi : Nat) (out : Nat → K) (p : Nat) :
    sseBlockQ4_1 s (bi*20) out p = splice out p 32 fun o => value (dequantQ4_1 (bi*32+o)) s := by
  refine two_halves out p (fun n small => ?_) fun n small => ?_
  · rw [sseU8ToF32X16_at _ _ _ (by decide) (by decide) small,low_nibble s _ small,value_dequantQ4_1 s bi (by omega)]
    simp [add_comm]
  · rw [sseU8ToF32X16_at _ _ _ (by decide) (by decide) small,high_nibble,value_dequantQ4_1 s bi (by omega)]
    simp [add_comm]

theorem sseBlockQ5_0_exact (s : Source K) (bi : Nat) (out : Nat → K) (p : Nat) :
    sseBlockQ5_0 s (bi*22) out p = splice out p 32 fun o => value (dequantQ5_0 (bi*32+o)) s := by
  simp only [sseBlockQ5_0]
  refine fold_splice (w:=16) rfl (fun h below out => ?_) out
  rw [sseStoreF32X16_splice]
  refine splice_congr fun n small => ?_
  rw [sseU8ToF32X16_at _ _ _ (by decide) (by decide) small,fifth_lanes s _ _ below small,
    value_dequantQ5_0 s bi (by omega)]
  simp

theorem sseBlockQ5_1_exact (s : Source K) (bi : Nat) (out : Nat → K) (p : Nat) :
    sseBlockQ5_1 s (bi*24) out p = splice out p 32 fun o => value (dequantQ5_1 (bi*32+o)) s := by
  simp only [sseBlockQ5_1]
  refine fold_splice (w:=16) rfl (fun h below out => ?_) out
  rw [sseStoreF32X16_splice]
  refine splice_congr fun n small => ?_
  rw [sseU8ToF32X16_at _ _ _ (by decide) (by decide) small,fifth_lanes s _ _ below small,
    value_dequantQ5_1 s bi (by omega)]
  simp [add_comm]

theorem sseBlockQ8K_exact (s : Source K) (bi : Nat) (out : Nat → K) (p : Nat) :
    sseBlockQ8K s (bi*292) out p = splice out p 256 fun o => value (dequantQ8K (bi*256+o)) s := by
  simp only [sseBlockQ8K]
  refine fold_splice (w:=16) rfl (fun sb below out => ?_) out
  rw [sseStoreF32X16_splice]
  refine splice_congr fun n small => ?_
  have group : (sb*16+n)/16 = sb := by omega
  rw [sseS8ToF32X16_at _ _ _ small,value_dequantQ8K s bi (by omega),group]
  simp only [loaduSi128,byte,setzeroPs_at,mulPs_at,set1Ps_at,Nat.add_assoc]
  ring

theorem sseBiasedF32X16_at (v : Reg) (scale : Ps K) {bias : Int} (low : 0 < bias) (high : bias ≤ 2^15) {n : Nat}
    (small : n < 16) : (sseBiasedF32X16 v (set1Epi32 bias) scale).at' n =
      ((((v n).toNat : Int)-bias : Int) : K)*scale (n % 4) := by
  have same : (sseU8ToF32X16 v scale setzeroPs bias).at' n = (sseBiasedF32X16 v (set1Epi32 bias) scale).at' n := by
    have nonzero : bias ≠ 0 := ne_of_gt low
    simp only [sseU8ToF32X16,sseBiasedF32X16,if_pos nonzero,addPs_setzeroPs]
  rw [← same,sseU8ToF32X16_at _ _ _ (le_of_lt low) high small,setzeroPs_at,zero_add]

theorem sseBlockQ6K_exact (s : Source K) (bi : Nat) (out : Nat → K) (p : Nat) :
    sseBlockQ6K s (bi*210) out p = splice out p 256 fun o => value (dequantQ6K (bi*256+o)) s := by
  simp only [sseBlockQ6K]
  refine fold_splice (w:=16) rfl (fun sb below out => ?_) out
  rw [sseStoreF32X16_splice]
  refine splice_congr fun n small => ?_
  have group : (sb*16+n)/16 = sb := by omega
  have inner : (sb*16+n) % 128 % 32 = (sb*16+n) % 32 := by omega
  rw [sseBiasedF32X16_at _ _ (by decide) (by decide) small,value_dequantQ6K s bi (by omega),group]
  rw [array_lane (a:=six s (bi*210) (bi*210+128) (sb*16+n)) ?_ (six_lt ..)]
  · simp only [set1Ps_at,byte,Nat.add_assoc]
    ring
  · by_cases upper : 2 ≤ (sb*16+n) % 128/32 <;>
      simp [six,sixLow,byte,upper,inner,and_127,and_31,and_three,and_fifteen,mod16_or,Nat.shiftRight_eq_div_pow,
        Nat.shiftLeft_eq,Nat.add_assoc]

theorem sseBlockQ4K_exact (s : Source K) (bi : Nat) (out : Nat → K) (p : Nat) :
    sseBlockQ4K s (bi*144) out p = splice out p 256 fun o => value (dequantQ4K (bi*256+o)) s := by
  simp only [sseBlockQ4K]
  refine fold_splice (w:=32) rfl (fun sb below out => ?_) out
  refine fold_splice (w:=16) rfl (fun half' below' out => ?_) out
  rw [← Nat.add_assoc p,sseStoreF32X16_splice]
  refine splice_congr fun n small => ?_
  have group : (sb*32+(half'*16+n))/32 = sb := by omega
  rw [sseU8ToF32X16_at _ _ _ (by decide) (by decide) small,value_dequantQ4K s bi (by omega),group]
  rw [array_lane (kNibble_bits s _ sb (by omega)) ((kNibble_lt ..).trans (by decide))]
  simp only [set1Ps_at,subPs_at,setzeroPs_at]
  push_cast
  ring

theorem sseBlockQ5K_exact (s : Source K) (bi : Nat) (out : Nat → K) (p : Nat) :
    sseBlockQ5K s (bi*176) out p = splice out p 256 fun o => value (dequantQ5K (bi*256+o)) s := by
  simp only [sseBlockQ5K]
  refine fold_splice (w:=32) rfl (fun sb below out => ?_) out
  refine fold_splice (w:=16) rfl (fun half' below' out => ?_) out
  rw [← Nat.add_assoc p,sseStoreF32X16_splice]
  refine splice_congr fun n small => ?_
  have group : (sb*32+(half'*16+n))/32 = sb := by omega
  have inner : (sb*32+(half'*16+n)) % 32 = half'*16+n := by omega
  rw [sseU8ToF32X16_at _ _ _ (by decide) (by decide) small,value_dequantQ5K s bi (by omega),group]
  rw [array_lane (a:=kFifth s (bi*176+16) (bi*176+48) (sb*32+(half'*16+n))) ?_ (kFifth_lt ..)]
  · simp only [set1Ps_at,subPs_at,setzeroPs_at]
    push_cast
    ring
  · rw [kNibble_bits s _ sb (by omega),and_31,Nat.shiftRight_eq_div_pow,Nat.shiftRight_eq_div_pow,
      show 2^5 = 32 from rfl,inner,group,or_shiftLeft (k:=4) _ (kNibble_lt ..),and_one,kFifth_sub s _ _ sb (by omega)]
    rfl

theorem sseBlockQ3K_exact (s : Source K) (bi : Nat) (out : Nat → K) (p : Nat) :
    sseBlockQ3K s (bi*110) out p = splice out p 256 fun o => value (dequantQ3K (bi*256+o)) s := by
  simp only [sseBlockQ3K,addPs_setzeroPs]
  refine fold_splice (w:=16) rfl (fun sb below out => ?_) out
  rw [threeScale_bits s _ below,sseStoreF32X16_splice]
  refine splice_congr fun n small => ?_
  have group : (sb*16+n)/16 = sb := by omega
  rw [value_dequantQ3K s bi (by omega),group]
  refine (sseBiasedF32X16_at _ _ (by decide) (by decide) small).trans ?_
  rw [array_lane (a:=three s (bi*110) (bi*110+32) (sb*16+n)) ?_ (three_lt ..)]
  · rw [set1Ps_at]
    ring
  · rw [Nat.zero_add]
    exact three_bits s ..

theorem sseBlockQ2K_exact (s : Source K) (bi : Nat) (out : Nat → K) (p : Nat) :
    sseBlockQ2K s (bi*84) out p = splice out p 256 fun o => value (dequantQ2K (bi*256+o)) s := by
  simp only [sseBlockQ2K]
  refine fold_splice (w:=16) rfl (fun sb below out => ?_) out
  rw [sseStoreF32X16_splice]
  refine splice_congr fun n small => ?_
  have group : (sb*16+n)/16 = sb := by omega
  have magnitude : twoMagnitude s (bi*84) (sb*16+n) < 4 := Nat.mod_lt _ (by decide)
  have sign : twoSign s (bi*84) (sb*16+n) < 2 := Nat.mod_lt _ (by decide)
  rw [sseS8ToF32X16_at _ _ _ small,value_dequantQ2K s bi (by omega),group,twoScale_bits]
  simp only [loaduSi128,Nat.zero_add,two_bits]
  rw [signed_byte (by omega) (by omega)]
  simp only [set1Ps_at,subPs_at,setzeroPs_at]
  ring

theorem scalarBlockIq2Xxs_exact (s : Source K) (bi : Nat) (out : Nat → K) (p : Nat) :
    scalarBlockIq2Xxs s (bi*66) out p = splice out p 256 fun o => value (dequantIq2Xxs (bi*256+o)) s :=
  fold_storeF32 (fun o small => by simp [dequantIq2Xxs,block256 small,offset256 small]) out

theorem scalarBlockIq2Xs_exact (s : Source K) (bi : Nat) (out : Nat → K) (p : Nat) :
    scalarBlockIq2Xs s (bi*74) out p = splice out p 256 fun o => value (dequantIq2Xs (bi*256+o)) s :=
  fold_storeF32 (fun o small => by simp [dequantIq2Xs,block256 small,offset256 small]) out

theorem scalarBlockIq3Xxs_exact (s : Source K) (bi : Nat) (out : Nat → K) (p : Nat) :
    scalarBlockIq3Xxs s (bi*98) out p = splice out p 256 fun o => value (dequantIq3Xxs (bi*256+o)) s :=
  fold_storeF32 (fun o small => by simp [dequantIq3Xxs,block256 small,offset256 small]) out

theorem scalarBlockIq1S_exact (s : Source K) (bi : Nat) (out : Nat → K) (p : Nat) :
    scalarBlockIq1S s (bi*110) out p = splice out p 256 fun o => value (dequantIq1S (bi*256+o)) s :=
  fold_storeF32 (fun o small => by simp [dequantIq1S,block256 small,offset256 small]) out

theorem scalarBlockIq4Nl_exact (s : Source K) (bi : Nat) (out : Nat → K) (p : Nat) :
    scalarBlockIq4Nl s (bi*18) out p = splice out p 32 fun o => value (dequantIq4Nl (bi*32+o)) s :=
  fold_storeF32 (fun o small => by
    by_cases low : o < 16 <;> simp [dequantIq4Nl,block32 small,offset32 small,low]) out

theorem scalarBlockIq1M_exact (s : Source K) (bi : Nat) (out : Nat → K) (p : Nat) :
    scalarBlockIq1M s (bi*56) out p = splice out p 256 fun o => value (dequantIq1M (bi*256+o)) s :=
  fold_storeF32 (fun o small => by
    by_cases negative : (s.data (bi*56+(40+o >>> 3))).toNat >>> (o &&& 7) % 2 = 1 <;>
      simp [dequantIq1M,block256 small,offset256 small,negative]) out

theorem scalarBlockIq3S_exact (s : Source K) (bi : Nat) (out : Nat → K) (p : Nat) :
    scalarBlockIq3S s (bi*110) out p = splice out p 256 fun o => value (dequantIq3S (bi*256+o)) s :=
  fold_storeF32 (fun o small => by simp [dequantIq3S,block256 small,offset256 small]) out

theorem scalarBlockIq2S_exact (s : Source K) (bi : Nat) (out : Nat → K) (p : Nat) :
    scalarBlockIq2S s (bi*82) out p = splice out p 256 fun o => value (dequantIq2S (bi*256+o)) s :=
  fold_storeF32 (fun o small => by simp [dequantIq2S,block256 small,offset256 small]) out

theorem scalarBlockIq4Xs_exact (s : Source K) (bi : Nat) (out : Nat → K) (p : Nat) :
    scalarBlockIq4Xs s (bi*136) out p = splice out p 256 fun o => value (dequantIq4Xs (bi*256+o)) s :=
  fold_storeF32 (fun o small => by simp [dequantIq4Xs,block256 small,offset256 small]) out

theorem batchI64_exact (s : Source K) (i0 nb : Nat) (out : Nat → K) :
    batchI64 s (i0*8) nb out = splice out 0 nb fun k => value (dequantI64 (i0+k)) s := by
  have all := fold_storeF32 (p:=0) (n:=nb) (e:=fun i => (signed 64 (load 8 s.data (i0*8+8*i)) : K))
    (g:=fun k => value (dequantI64 (i0+k)) s)
    (fun o _ => by simp [dequantI64,Nat.mul_add,Nat.mul_comm i0]) out
  simpa [batchI64] using all

theorem batchI8_exact (s : Source K) (i0 nb : Nat) (out : Nat → K) :
    batchI8 s i0 nb out = splice out 0 nb fun k => value (dequantI8 (i0+k)) s := by
  refine rest_exact (fun t _ out => ?_) fun k _ => by simp [dequantI8]
  refine (sseStoreF32X16_splice out (t*16) _).trans (splice_congr fun n small => ?_)
  rw [sseS8ToF32X16_at _ _ _ small]
  simp [dequantI8,loaduSi128,Nat.add_assoc]

theorem batchI16_exact (s : Source K) (i0 nb : Nat) (out : Nat → K) :
    batchI16 s (i0*2) nb out = splice out 0 nb fun k => value (dequantI16 (i0+k)) s := by
  have element (k : Nat) : (signed 16 (load 2 s.data (i0*2+2*k)) : K) = value (dequantI16 (i0+k)) s := by
    simp [dequantI16,Nat.mul_add,Nat.mul_comm i0]
  refine rest_exact (fun t _ out => ?_) fun k _ => element k
  refine two_registers out (t*8) (fun l small => ?_) fun l small => ?_
  · rw [cvtepi32Ps_cvtepi16Epi32,lane_loaduSi128,← element (t*8+l),Nat.mul_add 2 (t*8),Nat.add_assoc]
  · rw [cvtepi32Ps_cvtepi16Epi32,lane_srliSi128 _ small,lane_loaduSi128,← element (t*8+(4+l)),Nat.mul_add 2 (t*8),
      Nat.add_assoc,Nat.add_comm l 4]

theorem batchI32_exact (s : Source K) (i0 nb : Nat) (out : Nat → K) :
    batchI32 s (i0*4) nb out = splice out 0 nb fun k => value (dequantI32 (i0+k)) s := by
  have element (k : Nat) : (signed 32 (load 4 s.data (i0*4+4*k)) : K) = value (dequantI32 (i0+k)) s := by
    simp [dequantI32,Nat.mul_add,Nat.mul_comm i0]
  refine rest_exact (fun t _ out => ?_) fun k _ => element k
  refine splice_congr fun l small => ?_
  rw [cvtepi32Ps,lane_loaduSi128,← element (t*4+l),Nat.mul_add 4 (t*4),Nat.add_assoc]

theorem block_exact {type elems bytes : Nat} {fn : Source K → Nat → (Nat → K) → Nat → Nat → K}
    (shape : blockShape type = some (elems,bytes)) (decoder : blockTable type = some fn) (s : Source K) (bi : Nat)
    (out : Nat → K) (p : Nat) :
    0 < elems ∧ fn s (bi*bytes) out p = splice out p elems fun o => value (ggufDequant type (bi*elems+o)) s := by
  have known : type < 30 := by
    by_contra large
    simp only [blockTable] at decoder
    split at decoder <;> simp_all
  interval_cases type <;> cases shape <;> cases decoder
  · exact ⟨by decide,sseBlockQ4_0_exact s bi out p⟩
  · exact ⟨by decide,sseBlockQ4_1_exact s bi out p⟩
  · exact ⟨by decide,sseBlockQ5_0_exact s bi out p⟩
  · exact ⟨by decide,sseBlockQ5_1_exact s bi out p⟩
  · exact ⟨by decide,sseBlockQ8_0_exact s bi out p⟩
  · exact ⟨by decide,sseBlockQ8_1_exact s bi out p⟩
  · exact ⟨by decide,sseBlockQ2K_exact s bi out p⟩
  · exact ⟨by decide,sseBlockQ3K_exact s bi out p⟩
  · exact ⟨by decide,sseBlockQ4K_exact s bi out p⟩
  · exact ⟨by decide,sseBlockQ5K_exact s bi out p⟩
  · exact ⟨by decide,sseBlockQ6K_exact s bi out p⟩
  · exact ⟨by decide,sseBlockQ8K_exact s bi out p⟩
  · exact ⟨by decide,scalarBlockIq2Xxs_exact s bi out p⟩
  · exact ⟨by decide,scalarBlockIq2Xs_exact s bi out p⟩
  · exact ⟨by decide,scalarBlockIq3Xxs_exact s bi out p⟩
  · exact ⟨by decide,scalarBlockIq1S_exact s bi out p⟩
  · exact ⟨by decide,scalarBlockIq4Nl_exact s bi out p⟩
  · exact ⟨by decide,scalarBlockIq3S_exact s bi out p⟩
  · exact ⟨by decide,scalarBlockIq2S_exact s bi out p⟩
  · exact ⟨by decide,scalarBlockIq4Xs_exact s bi out p⟩
  · exact ⟨by decide,scalarBlockIq1M_exact s bi out p⟩

theorem scalarRun_exact (s : Source K) (type : Nat) {i0 low : Nat} (after : i0 ≤ low) (high : Nat) (out : Nat → K) :
    scalarRun s type i0 low high out =
      splice out (low-i0) (high-low) fun k => value (ggufDequant type (low+k)) s := by
  have all := fold_storeF32 (p:=low-i0) (n:=high-low) (e:=fun k => value (ggufDequant type (low+k)) s)
    (fun _ _ => rfl) out
  have place (k : Nat) : low+k-i0 = low-i0+k := by omega
  simpa only [scalarRun,place] using all

-- The loop over blocks cuts the range at the block borders, wherever it starts and
-- ends; a piece that is a whole block is decoded at once.
theorem blockRun_exact {s : Source K} {type elems bytes : Nat} {fn : Source K → Nat → (Nat → K) → Nat → Nat → K}
    (wide : 0 < elems)
    (whole : ∀ bi out p,fn s (bi*bytes) out p = splice out p elems fun o => value (ggufDequant type (bi*elems+o)) s)
    (i0 nb : Nat) (out : Nat → K) :
    blockRun s type elems bytes fn i0 nb out = splice out 0 nb fun k => value (ggufDequant type (i0+k)) s := by
  have all := (fold_splice_cuts (n:=blockCount elems i0 nb) (c:=blockCut elems i0 nb)
    (g:=fun k => value (ggufDequant type (i0+k)) s)
    (b:=fun t out =>
      let bi := i0/elems+t
      let bs := bi*elems
      let be := bs+elems
      let cs := if i0 > bs then i0 else bs
      let ce := if i0+nb < be then i0+nb else be
      if cs = bs ∧ ce = be then fn s (bi*bytes) out (cs-i0) else scalarRun s type i0 cs ce out)
    (fun t _ => blockCut_ordered t)
    (fun t below out => by
      have low := blockCut_low wide below
      have high := blockCut_high wide below
      simp only [← low,← high,Nat.add_sub_cancel_left]
      split
      · next aligned =>
        have size : blockCut elems i0 nb (t+1)-blockCut elems i0 nb t = elems := by omega
        rw [whole,size]
        refine splice_congr fun k _ => ?_
        rw [← aligned.1,Nat.add_assoc]
      · have ordered := blockCut_ordered (w:=elems) (i:=i0) (n:=nb) t
        rw [scalarRun_exact s type (Nat.le_add_right _ _),Nat.add_sub_cancel_left,Nat.add_sub_add_left]
        simp only [Nat.add_assoc])
    out).2
  rw [blockCut_zero,blockCut_count wide,Nat.sub_zero] at all
  simpa only [blockRun,blockCount,Nat.zero_add] using all

theorem ggufDequantBatch_splice (s : Source K) (type i0 nb : Nat) (out : Nat → K) :
    ggufDequantBatch s type i0 nb out = splice out 0 nb fun k => value (ggufDequant type (i0+k)) s := by
  unfold ggufDequantBatch
  split
  · exact batchF32_exact s i0 nb out
  · exact batchF16_exact s i0 nb out
  · exact batchBf16_exact s i0 nb out
  · exact batchF64_exact s i0 nb out
  · exact batchI8_exact s i0 nb out
  · exact batchI16_exact s i0 nb out
  · exact batchI32_exact s i0 nb out
  · exact batchI64_exact s i0 nb out
  · split
    · next elems bytes fn shape decoder =>
      obtain ⟨wide,_⟩ := block_exact shape decoder s 0 out 0
      exact blockRun_exact wide (fun bi out p => (block_exact shape decoder s bi out p).2) i0 nb out
    · have run := scalarRun_exact s type (Nat.le_refl i0) (i0+nb) out
      rwa [Nat.sub_self,Nat.add_sub_cancel_left] at run

-- The batch decoder writes the scalar decoder's elements, and nothing else.
theorem ggufDequantBatch_exact (s : Source K) (type i0 nb : Nat) (out : Nat → K) (k : Nat) :
    ggufDequantBatch s type i0 nb out k = if k < nb then value (ggufDequant type (i0+k)) s else out k := by
  rw [ggufDequantBatch_splice,splice]
  simp

end Kernels

end TinyLlama.Quants
