import TinyLlama.Quants.DotExact

-- cpu_arm.c: the int8 dot of Q8_0 and Q8_K, with a scale taken once for the whole tensor.
namespace TinyLlama.Quants
open Access Bits Finset Memory Simd Sweep

section Instructions

def vld1qS8 (m : Mem) (p : Nat) : Reg := loaduSi128 m p
def vdupqNS32 (x : Int) : Reg := set1Epi32 x

-- Each 32-bit lane gains the products of its four bytes.
def vdotqS32 (acc a b : Reg) : Reg := ofLanes 4 fun l => unsigned 32 (signed 32 (lane 4 acc l)+
  ∑ k ∈ range 4,signed 8 (a (4*l+k)).toNat*signed 8 (b (4*l+k)).toNat)

def vaddS32 (a b : Reg) : Reg := ofLanes 4 fun l => unsigned 32 (signed 32 (lane 4 a l)+signed 32 (lane 4 b l))
def vgetLowS32 (v : Reg) : Reg := v
def vgetHighS32 (v : Reg) : Reg := fun b => v (b+8)
def vpaddS32 (a b : Reg) : Reg := ofLanes 4 fun l =>
  let v := if l = 0 then a else b
  unsigned 32 (signed 32 (lane 4 v 0)+signed 32 (lane 4 v 1))
def vgetLaneS32 (v : Reg) (l : Nat) : Int := signed 32 (lane 4 v l)

theorem signed_lane {f : Nat → Int} {l : Nat} (small : |f l| < 2^31) :
    signed 32 (lane 4 (ofLanes 4 fun l => unsigned 32 (f l)) l) = f l := by
  have fits := unsigned_lt 32 (f l)
  obtain ⟨low,high⟩ := abs_lt.mp small
  rw [lane_ofLanes (by decide),show 256^4 = 2^32 from rfl,Nat.mod_eq_of_lt fits]
  exact signed_unsigned (by decide) (by simpa using low.le) (by simpa using high)

theorem lane_vgetHighS32 (v : Reg) (l : Nat) : lane 4 (vgetHighS32 v) l = lane 4 v (l+2) :=
  lane_congr fun b _ => congrArg v (by omega)

theorem lane_vdupqNS32_zero (l : Nat) : signed 32 (lane 4 (vdupqNS32 0) l) = 0 :=
  signed_lane (f:=fun _ => 0) (by decide)

def quadDot (m : Mem) (p : Nat) (m' : Mem) (p' : Nat) (l : Nat) : Int :=
  ∑ k ∈ range 4,signed 8 (m (p+(l*4+k))).toNat*signed 8 (m' (p'+(l*4+k))).toNat

theorem abs_quadDot_le (m : Mem) (p : Nat) (m' : Mem) (p' : Nat) (l : Nat) : |quadDot m p m' p' l| ≤ 2^16 := by
  refine (abs_sum_le_sum_abs _ _).trans ?_
  refine (sum_le_card_nsmul _ _ (2^14) fun k _ => abs_signed_mul (UInt8.toNat_lt _) (UInt8.toNat_lt _)).trans ?_
  simp

theorem vdotqS32_lane (m : Mem) (p : Nat) (m' : Mem) (p' : Nat) (l : Nat) :
    signed 32 (lane 4 (vdotqS32 (vdupqNS32 0) (vld1qS8 m p) (vld1qS8 m' p')) l) = quadDot m p m' p' l := by
  have zero := lane_vdupqNS32_zero l
  have sum : signed 32 (lane 4 (vdupqNS32 0) l)+
      ∑ k ∈ range 4,signed 8 (vld1qS8 m p (4*l+k)).toNat*signed 8 (vld1qS8 m' p' (4*l+k)).toNat = quadDot m p m' p' l := by
    rw [zero,zero_add]
    unfold quadDot vld1qS8 loaduSi128
    exact sum_congr rfl fun k _ => by rw [Nat.mul_comm 4 l]
  have bound := abs_quadDot_le m p m' p' l
  rw [vdotqS32,signed_lane,sum]
  rw [sum]
  omega

theorem hsum_lanes {v : Reg} (small : ∀ l < 4,|signed 32 (lane 4 v l)| ≤ 2^17) :
    let s2 := vaddS32 (vgetLowS32 v) (vgetHighS32 v)
    vgetLaneS32 (vpaddS32 s2 s2) 0 = ∑ l ∈ range 4,signed 32 (lane 4 v l) := by
  have h0 := small 0 (by decide)
  have h1 := small 1 (by decide)
  have h2 := small 2 (by decide)
  have h3 := small 3 (by decide)
  rw [abs_le] at h0 h1 h2 h3
  have pair : ∀ l < 2,signed 32 (lane 4 (vaddS32 (vgetLowS32 v) (vgetHighS32 v)) l) =
      signed 32 (lane 4 v l)+signed 32 (lane 4 v (l+2)) := by
    intro l below
    have near := abs_le.mp (small l (by omega))
    have far := abs_le.mp (small (l+2) (by omega))
    rw [vaddS32,signed_lane,vgetLowS32,lane_vgetHighS32]
    rw [vgetLowS32,lane_vgetHighS32,abs_lt]
    omega
  intro s2
  rw [vgetLaneS32,vpaddS32,signed_lane]
  · simp only [if_true]
    rw [pair 0 (by decide),pair 1 (by decide)]
    simp only [sum_range_succ,range_zero,sum_empty]
    ring
  · simp only [if_true]
    rw [pair 0 (by decide),pair 1 (by decide),abs_lt]
    simp only [Nat.reduceAdd]
    omega

end Instructions

section Dot
variable {K : Type} [Field K]

def vdotDotQ8_0Block (s : Source K) (data : Nat) (x : Mem) (p : Nat) (d xScale : K) : K :=
  let qs := data+2
  let acc0 := vdotqS32 (vdupqNS32 0) (vld1qS8 s.data qs) (vld1qS8 x p)
  let acc1 := vdotqS32 (vdupqNS32 0) (vld1qS8 s.data (qs+16)) (vld1qS8 x (p+16))
  let acc := vaddS32 acc0 acc1
  let s2 := vaddS32 (vgetLowS32 acc) (vgetHighS32 acc)
  let dot := vgetLaneS32 (vpaddS32 s2 s2) 0
  d/xScale*(dot : K)

def vdotDotQ8KBlock (s : Source K) (data : Nat) (x : Mem) (p : Nat) (d xScale : K) : K :=
  let bs := data+4
  let qs := data+36
  let acc := Nat.fold 16 (fun sb _ acc =>
    let off := sb*16
    let a0 := vdotqS32 (vdupqNS32 0) (vld1qS8 s.data (qs+off)) (vld1qS8 x (p+off))
    let s2 := vaddS32 (vgetLowS32 a0) (vgetHighS32 a0)
    let dot := vgetLaneS32 (vpaddS32 s2 s2) 0
    acc+(dot : K)*value (f16At (bs+2*sb)) s) 0
  d/xScale*acc

-- Elements and bytes of a block, its dot function and the scale of the tensor's first block.
def i8Block (s : Source K) (type : Nat) : Option (Nat × Nat × (Nat → Mem → Nat → K → K → K) × K) :=
  match type with
  | 8 => some (32,34,vdotDotQ8_0Block s,value (f16At 0) s)
  | 15 => some (256,292,vdotDotQ8KBlock s,s.f32 (load 4 s.data 0))
  | _ => none

-- The int8 input as the scalar path reads it.
def rescaled (x : Mem) (xScale : K) (j : Nat) : K := (signed 8 (x j).toNat : K)/xScale

def ggufDotI8Batch (s : Source K) (type i n : Nat) (x : Mem) (xScale : K) : K :=
  match i8Block s type with
  | some (elems,bytes,fn,dScale) =>
    let stop := i+n
    let bi0 := i/elems
    let bi1 := (stop+elems-1)/elems
    (bi1-bi0).fold (fun t _ result =>
      let bi := bi0+t
      let bs := bi*elems
      let be := bs+elems
      let cs := if i > bs then i else bs
      let ce := if stop < be then stop else be
      if cs = bs ∧ ce = be then result+fn (bi*bytes) x (cs-i) dScale xScale
      else scalarDot s type i cs ce (rescaled x xScale) result) 0
  | none => scalarDot s type i i (i+n) (rescaled x xScale) 0

end Dot

section Exactness
variable {K : Type} [Field K] {s : Source K} {type : Nat}

-- An element of these formats is a scale of its block times a code.
def i8Scale (s : Source K) (type bi : Nat) : K :=
  if type = 8 then value (f16At (bi*34)) s else s.f32 (load 4 s.data (bi*292))

def i8Code (s : Source K) (type bi o : Nat) : K :=
  if type = 8 then (signed 8 (byte s (bi*34+2+o)) : K)
  else (signed 8 (byte s (bi*292+36+o)) : K)*value (f16At (bi*292+(4+2*(o/16)))) s

def i8Elems (type : Nat) : Nat := if type = 8 then 32 else 256

def i8Int (x : Mem) (j : Nat) : K := (signed 8 (x j).toNat : K)

theorem vdotDotQ8_0Block_eq (bi : Nat) (x : Mem) (p : Nat) (d xScale : K) :
    vdotDotQ8_0Block s (bi*34) x p d xScale = d/xScale*∑ o ∈ range 32,i8Code s 8 bi o*i8Int x (p+o) := by
  have small : ∀ l < 4,|quadDot s.data (bi*34+2) x p l+quadDot s.data (bi*34+2+16) x (p+16) l| ≤ 2^17 := by
    intro l _
    have first' := abs_quadDot_le s.data (bi*34+2) x p l
    have second' := abs_quadDot_le s.data (bi*34+2+16) x (p+16) l
    rw [abs_le] at *
    omega
  have lanes : ∀ l < 4,signed 32 (lane 4 (vaddS32 (vdotqS32 (vdupqNS32 0) (vld1qS8 s.data (bi*34+2)) (vld1qS8 x p))
      (vdotqS32 (vdupqNS32 0) (vld1qS8 s.data (bi*34+2+16)) (vld1qS8 x (p+16)))) l) =
      quadDot s.data (bi*34+2) x p l+quadDot s.data (bi*34+2+16) x (p+16) l := by
    intro l below
    have bound := small l below
    rw [vaddS32,signed_lane,vdotqS32_lane,vdotqS32_lane]
    rw [vdotqS32_lane,vdotqS32_lane]
    omega
  have dot := hsum_lanes (fun l below => by
    rw [lanes l below]
    exact small l below)
  unfold vdotDotQ8_0Block
  dsimp only at dot ⊢
  rw [dot,sum_congr rfl fun l member => lanes l (mem_range.mp member),sum_add_distrib]
  unfold quadDot
  rw [sum_stride 4 4 fun o => signed 8 (s.data (bi*34+2+o)).toNat*signed 8 (x (p+o)).toNat,
    sum_stride 4 4 fun o => signed 8 (s.data (bi*34+2+16+o)).toNat*signed 8 (x (p+16+o)).toNat,
    sum_range_add (n:=16) (m:=16)]
  push_cast
  simp only [i8Code,i8Int,byte,if_true,Nat.add_assoc]

theorem vdotDotQ8KBlock_eq (bi : Nat) (x : Mem) (p : Nat) (d xScale : K) :
    vdotDotQ8KBlock s (bi*292) x p d xScale = d/xScale*∑ o ∈ range 256,i8Code s 15 bi o*i8Int x (p+o) := by
  have dot : ∀ sb,vgetLaneS32 (vpaddS32 (vaddS32
      (vgetLowS32 (vdotqS32 (vdupqNS32 0) (vld1qS8 s.data (bi*292+36+sb*16)) (vld1qS8 x (p+sb*16))))
      (vgetHighS32 (vdotqS32 (vdupqNS32 0) (vld1qS8 s.data (bi*292+36+sb*16)) (vld1qS8 x (p+sb*16)))))
      (vaddS32 (vgetLowS32 (vdotqS32 (vdupqNS32 0) (vld1qS8 s.data (bi*292+36+sb*16)) (vld1qS8 x (p+sb*16))))
      (vgetHighS32 (vdotqS32 (vdupqNS32 0) (vld1qS8 s.data (bi*292+36+sb*16)) (vld1qS8 x (p+sb*16)))))) 0 =
      ∑ k ∈ range 16,signed 8 (s.data (bi*292+36+sb*16+k)).toNat*signed 8 (x (p+sb*16+k)).toNat := by
    intro sb
    have lanes := vdotqS32_lane s.data (bi*292+36+sb*16) x (p+sb*16)
    have sum := hsum_lanes (v:=vdotqS32 (vdupqNS32 0) (vld1qS8 s.data (bi*292+36+sb*16)) (vld1qS8 x (p+sb*16))) (fun l _ => by
      rw [lanes]
      exact (abs_quadDot_le _ _ _ _ _).trans (by decide))
    dsimp only at sum
    rw [sum,sum_congr rfl fun l _ => lanes l]
    exact sum_stride 4 4 fun k => signed 8 (s.data (bi*292+36+sb*16+k)).toNat*signed 8 (x (p+sb*16+k)).toNat
  have blocks := sum_stride 16 16 fun o => i8Code s 15 bi o*(i8Int x (p+o) : K)
  unfold vdotDotQ8KBlock
  dsimp only
  rw [fold_total (m:=fun acc : K => acc) (fun sb _ acc => rfl),zero_add,← blocks]
  congr 1
  refine sum_congr rfl fun sb _ => ?_
  rw [dot,Int.cast_sum,sum_mul]
  refine sum_congr rfl fun k small => ?_
  have group : (sb*16+k)/16 = sb := by
    have below := mem_range.mp small
    omega
  simp only [i8Code,i8Int,byte,group,Nat.add_assoc,Int.cast_mul,if_neg (by decide : ¬ 15 = 8)]
  ring

theorem i8Element (known : type = 8 ∨ type = 15) (bi : Nat) {o : Nat} (small : o < i8Elems type) :
    value (ggufDequant type (bi*i8Elems type+o)) s = i8Code s type bi o*i8Scale s type bi := by
  rcases known with rfl | rfl
  · exact value_dequantQ8_0 s bi small
  · exact value_dequantQ8K s bi small

theorem walk_total (type elems i n : Nat) (x : Nat → K) (fn : Nat → Nat → K) :
    (blockCount elems i n).fold (fun t _ result =>
      let bi := i/elems+t
      let bs := bi*elems
      let be := bs+elems
      let cs := if i > bs then i else bs
      let ce := if i+n < be then i+n else be
      if cs = bs ∧ ce = be then result+fn bi (cs-i) else scalarDot s type i cs ce x result) 0 =
    ∑ t ∈ range (blockCount elems i n),
      let bi := i/elems+t
      let bs := bi*elems
      let be := bs+elems
      let cs := if i > bs then i else bs
      let ce := if i+n < be then i+n else be
      if cs = bs ∧ ce = be then fn bi (cs-i) else ∑ k ∈ range (ce-cs),value (ggufDequant type (cs+k)) s*x (cs+k-i) := by
  refine (fold_total (m:=fun acc : K => acc) (fun t _ result => ?_) 0).trans (zero_add _)
  dsimp only
  rw [scalarDot_eq]
  exact (apply_ite (fun part => result+part) _ _ _).symm

def Whole (elems i n bi : Nat) : Prop := i ≤ bi*elems ∧ bi*elems+elems ≤ i+n

instance (elems i n bi : Nat) : Decidable (Whole elems i n bi) := inferInstanceAs (Decidable (_ ∧ _))

theorem whole_iff {elems i n bi : Nat} : (if i > bi*elems then i else bi*elems) = bi*elems ∧
    (if i+n < bi*elems+elems then i+n else bi*elems+elems) = bi*elems+elems ↔ Whole elems i n bi := by
  unfold Whole
  split <;> split <;> omega

theorem ggufDotI8Batch_eq (known : type = 8 ∨ type = 15) (i n : Nat) (x : Mem) (xScale : K) :
    ggufDotI8Batch s type i n x xScale = ∑ j ∈ range n,value (ggufDequant type (i+j)) s*rescaled x xScale j+
      ∑ t ∈ range (blockCount (i8Elems type) i n),
        let bi := i/i8Elems type+t
        if Whole (i8Elems type) i n bi then (i8Scale s type 0-i8Scale s type bi)/xScale*
          ∑ o ∈ range (i8Elems type),i8Code s type bi o*i8Int x (bi*i8Elems type-i+o) else 0 := by
  have wide : 0 < i8Elems type := by
    unfold i8Elems
    split <;> decide
  have code : ggufDotI8Batch s type i n x xScale = (blockCount (i8Elems type) i n).fold (fun t _ result =>
      let bi := i/i8Elems type+t
      let bs := bi*i8Elems type
      let be := bs+i8Elems type
      let cs := if i > bs then i else bs
      let ce := if i+n < be then i+n else be
      if cs = bs ∧ ce = be then result+(i8Scale s type 0/xScale*∑ o ∈ range (i8Elems type),i8Code s type bi o*i8Int x (cs-i+o))
      else scalarDot s type i cs ce (rescaled x xScale) result) 0 := by
    rcases known with rfl | rfl
    · simp only [← vdotDotQ8_0Block_eq,i8Elems,if_true]
      rfl
    · simp only [← vdotDotQ8KBlock_eq,i8Elems,if_neg (by decide : ¬ 15 = 8)]
      rfl
  have reference := @blockRun_sum K _ s type (i8Elems type) 1 (fun s data x p => ∑ o ∈ range (i8Elems type),
    value (ggufDequant type (data/1*i8Elems type+o)) s*x (p+o)) wide (fun bi x p => by rw [Nat.mul_one,Nat.div_one]) i n
    (rescaled x xScale)
  simp only [Nat.mul_one,Nat.div_one] at reference
  rw [code,walk_total type (i8Elems type) i n (rescaled x xScale) fun bi p =>
    i8Scale s type 0/xScale*∑ o ∈ range (i8Elems type),i8Code s type bi o*i8Int x (p+o)]
  rw [← reference]
  have walk := walk_total (s:=s) type (i8Elems type) i n (rescaled x xScale) fun bi p =>
    ∑ o ∈ range (i8Elems type),value (ggufDequant type (bi*i8Elems type+o)) s*rescaled x xScale (p+o)
  rw [blockCount] at walk
  rw [walk,← blockCount,← sum_add_distrib]
  refine sum_congr rfl fun t member => ?_
  have meets := block_meets wide (mem_range.mp member)
  simp only [whole_iff]
  by_cases inside : Whole (i8Elems type) i n (i/i8Elems type+t)
  · rw [if_pos inside,if_pos inside,if_pos inside,if_neg (not_lt.mpr inside.1)]
    have own : ∑ o ∈ range (i8Elems type),value (ggufDequant type ((i/i8Elems type+t)*i8Elems type+o)) s*
        rescaled x xScale ((i/i8Elems type+t)*i8Elems type-i+o) = i8Scale s type (i/i8Elems type+t)/xScale*
          ∑ o ∈ range (i8Elems type),i8Code s type (i/i8Elems type+t) o*i8Int x ((i/i8Elems type+t)*i8Elems type-i+o) := by
      rw [mul_sum]
      refine sum_congr rfl fun o small => ?_
      rw [i8Element known _ (mem_range.mp small),rescaled,i8Int]
      ring
    rw [own]
    ring
  · rw [if_neg inside,if_neg inside,if_neg inside,add_zero]

-- The fast path is exact where every whole block has the first block's scale, or nothing
-- but zeros for it to scale.
theorem ggufDotI8Batch_exact_iff [CharZero K] (known : type = 8 ∨ type = 15) (s : Source K) (i n : Nat) :
    (∀ (x : Mem) (xScale : K),xScale ≠ 0 → ggufDotI8Batch s type i n x xScale =
      ∑ j ∈ range n,value (ggufDequant type (i+j)) s*(signed 8 (x j).toNat : K)/xScale) ↔
    ∀ bi,Whole (i8Elems type) i n bi → i8Scale s type bi = i8Scale s type 0 ∨ ∀ o < i8Elems type,i8Code s type bi o = 0 := by
  have reference : ∀ (x : Mem) (xScale : K),∑ j ∈ range n,value (ggufDequant type (i+j)) s*(signed 8 (x j).toNat : K)/xScale =
      ∑ j ∈ range n,value (ggufDequant type (i+j)) s*rescaled x xScale j :=
    fun x xScale => sum_congr rfl fun j _ => mul_div_assoc _ _ _
  have wide : 0 < i8Elems type := by
    unfold i8Elems
    split <;> decide
  constructor
  · intro exact' bi inside
    by_contra apart
    obtain ⟨scales,codes⟩ := not_or.mp apart
    push Not at codes
    obtain ⟨o,small,code⟩ := codes
    obtain ⟨low,high⟩ := inside
    -- One, at the place of that code, and zeros.
    have got := exact' (fun j => if j = bi*i8Elems type-i+o then 1 else 0) 1 one_ne_zero
    rw [reference,ggufDotI8Batch_eq known,add_eq_left] at got
    have row : i/i8Elems type ≤ bi := Nat.div_le_of_le_mul (by rwa [Nat.mul_comm])
    have below : bi-i/i8Elems type < blockCount (i8Elems type) i n := by
      have last : bi+1 ≤ (i+n+i8Elems type-1)/i8Elems type := by
        rw [Nat.le_div_iff_mul_le wide,Nat.succ_mul]
        omega
      unfold blockCount
      omega
    rw [sum_eq_single_of_mem (bi-i/i8Elems type) (mem_range.mpr below) ?_] at got
    · dsimp only at got
      rw [Nat.add_sub_cancel' row,if_pos ⟨low,high⟩,sum_eq_single_of_mem o (mem_range.mpr small) ?_] at got
      · have unit : (i8Int (fun j => if j = bi*i8Elems type-i+o then 1 else 0) (bi*i8Elems type-i+o) : K) = 1 := by
          simp [i8Int,signed]
        rw [unit,mul_one,div_one,mul_eq_zero] at got
        rcases got with same | none'
        · exact scales (sub_eq_zero.mp same).symm
        · exact code none'
      · intro o' _ other
        have zero : (i8Int (fun j => if j = bi*i8Elems type-i+o then 1 else 0) (bi*i8Elems type-i+o') : K) = 0 := by
          simp [i8Int,signed,other]
        rw [zero,mul_zero]
    · intro t member other
      dsimp only
      split
      · next inside =>
        have zeros : ∀ o' ∈ range (i8Elems type),i8Code s type (i/i8Elems type+t) o'*
            (i8Int (fun j => if j = bi*i8Elems type-i+o then 1 else 0) ((i/i8Elems type+t)*i8Elems type-i+o') : K) = 0 := by
          intro o' small'
          have place : (i/i8Elems type+t)*i8Elems type-i+o' ≠ bi*i8Elems type-i+o := by
            intro same
            have aligned : (i/i8Elems type+t)*i8Elems type+o' = bi*i8Elems type+o := by
              have low' := inside.1
              omega
            have rows := (row_inj (mem_range.mp small') small aligned).1
            omega
          simp [i8Int,signed,place]
        rw [sum_eq_zero zeros,mul_zero]
      · rfl
  · intro same x xScale _
    rw [reference,ggufDotI8Batch_eq known,add_eq_left]
    refine sum_eq_zero fun t _ => ?_
    dsimp only
    split
    · next inside =>
      rcases same _ inside with scale | zeros
      · rw [scale,sub_self,zero_div,zero_mul]
      · rw [sum_eq_zero fun o small => by rw [zeros o (mem_range.mp small),zero_mul],mul_zero]
    · rfl

end Exactness

def twoScales : Source ℚ :=
  ⟨fun p => if p = 1 then 0x3C else if p = 35 then 0x40 else if p = 34 then 0 else if p = 0 then 0 else 3,
    fun h => if h = 0x3C00 then 1 else if h = 0x4000 then 2 else 0,fun _ => 0,fun _ => 0,fun _ _ => 0⟩

def evenScales : Source ℚ :=
  ⟨fun p => if p%34 = 1 then 0x3C else if p%34 = 0 then 0 else 3,fun h => if h = 0x3C00 then 1 else 0,fun _ => 0,fun _ => 0,fun _ _ => 0⟩

-- A range with two whole blocks between its ends.
theorem acrossBlocks_exact : Whole 32 5 100 1 ∧ Whole 32 5 100 2 ∧ ggufDotI8Batch evenScales 8 5 100 (fun j => UInt8.ofNat j) 2 =
    ∑ j ∈ range 100,value (ggufDequant 8 (5+j)) evenScales*(signed 8 (UInt8.ofNat j).toNat : ℚ)/2 := by
  refine ⟨⟨by decide,by decide⟩,⟨by decide,by decide⟩,?_⟩
  refine (ggufDotI8Batch_exact_iff (Or.inl rfl) evenScales 5 100).mpr (fun bi inside => .inl ?_) (fun j => UInt8.ofNat j) 2 (by decide)
  obtain ⟨low,high⟩ := inside
  change 5 ≤ bi*32 at low
  change bi*32+32 ≤ 5+100 at high
  obtain rfl | rfl : bi = 1 ∨ bi = 2 := by omega
  · decide +kernel
  · decide +kernel

-- The second block, decoded with the first one's scale.
theorem secondBlock_halved : ¬ ∀ (s : Source ℚ) (type i n : Nat) (x : Mem) (xScale : ℚ),type = 8 ∨ type = 15 → xScale ≠ 0 →
    ggufDotI8Batch s type i n x xScale = ∑ j ∈ range n,value (ggufDequant type (i+j)) s*(signed 8 (x j).toNat : ℚ)/xScale := by
  intro all
  have same := all twoScales 8 32 32 (fun _ => 1) 1 (Or.inl rfl) one_ne_zero
  have code : ggufDotI8Batch twoScales 8 32 32 (fun _ => 1) 1 = 96 := by decide +kernel
  have reference : ∑ j ∈ range 32,value (ggufDequant 8 (32+j)) twoScales*(signed 8 ((fun _ => 1 : Mem) j).toNat : ℚ)/1 = 192 := by
    decide +kernel
  rw [code,reference] at same
  norm_num at same

end TinyLlama.Quants
