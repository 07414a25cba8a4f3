import TinyLlama.Gpu.FloatKernels

namespace TinyLlama.Gpu
open Quants Memory Bits Warp Sweep Access Grid
open Device (ldU32 ldF16 ldF32 ldI8)

section Words

theorem abs_dp4a_le (a b : Nat) : |dp4a a b 0| ≤ 2^16 := by
  have small : ∀ v k : Nat,v >>> (8*k) &&& 0xFF < 2^8 := fun v k => Nat.and_lt_two_pow _ (by decide)
  have h0 := abs_signed_mul (small a 0) (small b 0)
  have h1 := abs_signed_mul (small a 1) (small b 1)
  have h2 := abs_signed_mul (small a 2) (small b 2)
  have h3 := abs_signed_mul (small a 3) (small b 3)
  simp only [abs_le] at h0 h1 h2 h3 ⊢
  simp only [dp4a]
  omega

theorem masked_byte {raw shift k : Nat} (half : shift = 0 ∨ shift = 4) (small : k < 4) :
    (raw >>> shift &&& 0x0F0F0F0F) >>> (8*k) &&& 0xFF = (raw >>> (8*k) &&& 0xFF)/2^shift % 16 := by
  have mask : (0x0F0F0F0F : Nat) >>> (8*k) &&& 0xFF = 0xF := by interval_cases k <;> rfl
  rw [Nat.shiftRight_and_distrib,Nat.and_assoc,mask,← Nat.shiftRight_add,Nat.add_comm,Nat.shiftRight_add,and_fifteen,and_255,
    Nat.shiftRight_eq_div_pow _ shift]
  rcases half with rfl | rfl <;> omega

theorem abs_reduceDown_le (width k : Nat) {v : Nat → Int} {c : Int} (each : ∀ lane,|v lane| ≤ c) (lane : Nat) :
    |reduceDown width k v lane| ≤ 2^k*c := by
  induction k generalizing v c lane with
  | zero => simpa [reduceDown] using each lane
  | succ k ih =>
    have doubled : ∀ lane,|v lane+shflDown width (2^k) v lane| ≤ 2*c := by
      intro lane
      have far : |shflDown width (2^k) v lane| ≤ c := by
        unfold shflDown
        split
        · exact each _
        · exact each _
      have near := each lane
      exact (abs_add_le _ _).trans (by omega)
    have rest := ih doubled lane
    rwa [← mul_assoc,← pow_succ] at rest

theorem dp4a_nibbles {m m' : Mem} {p p' shift : Nat} (half : shift = 0 ∨ shift = 4) :
    dp4a (load 4 m p >>> shift &&& 0x0F0F0F0F) (load 4 m' p') 0 =
      ∑ k ∈ Finset.range 4,(((m (p+k)).toNat/2^shift % 16 : Nat) : Int)*signed 8 (m' (p'+k)).toNat := by
  have nibble : ∀ k < 4,signed 8 ((load 4 m p >>> shift &&& 0x0F0F0F0F) >>> (8*k) &&& 0xFF) =
      (((m (p+k)).toNat/2^shift % 16 : Nat) : Int) := by
    intro k small
    rw [masked_byte half small,load_byte small]
    exact signed_of_lt (lt_trans (Nat.mod_lt _ (by decide)) (by decide))
  simp only [Finset.sum_range_succ,Finset.sum_range_zero,dp4a]
  rw [nibble 0 (by decide),nibble 1 (by decide),nibble 2 (by decide),nibble 3 (by decide),load_byte (by decide),
    load_byte (by decide),load_byte (by decide),load_byte (by decide)]
  ring

theorem signed_i8Byte {q : Int} (low : -128 ≤ q) (high : q < 128) : signed 8 (i8Byte q).toNat = q := by
  have wrapped : (i8Byte q).toNat = unsigned 8 q := by
    unfold i8Byte
    rw [UInt8.toNat_ofNat']
    exact Nat.mod_eq_of_lt (unsigned_lt 8 q)
  rw [wrapped]
  exact signed_unsigned (by decide) low high

end Words

section Quantiser
variable {K : Type} [Field K] [LinearOrder K] [FloorRing K]

theorem abs_le_scale (xr : Nat → K) (p : Nat) : |xr p| ≤ 127*rowBlockScale xr (p/32) := by
  have most := (fold_max_le (fun k => |xr (p/32*32+k)|) 32 _).mp le_rfl
  have own := most.2 (p % 32) (Nat.mod_lt p (by decide))
  rw [Nat.div_add_mod'] at own
  rw [rowBlockScale,mul_div_cancel₀ _ (by norm_num : (127 : K) ≠ 0)]
  exact own

variable [IsStrictOrderedRing K]

theorem float2intRn_range {v : K} {m : Int} (low : -(m : K) ≤ v) (high : v ≤ m) : -m ≤ float2intRn v ∧ float2intRn v ≤ m := by
  have under := Int.floor_le v
  have below : -m ≤ ⌊v⌋ := Int.le_floor.mpr (by push_cast; exact low)
  have above : ⌊v⌋ ≤ m := by
    have cast : ((⌊v⌋ : Int) : K) ≤ (m : K) := under.trans high
    exact_mod_cast cast
  -- The next integer is only taken past the middle, so it is not past m.
  have next : ¬v-⌊v⌋ < 1/2 → ⌊v⌋+1 ≤ m := by
    intro past
    have strict : ((⌊v⌋ : Int) : K) < (m : K) := by linarith
    exact Int.add_one_le_iff.mpr (by exact_mod_cast strict)
  unfold float2intRn
  dsimp only
  split
  · exact ⟨below,above⟩
  · next past =>
    have up := next past
    split
    · exact ⟨by omega,up⟩
    · split
      · exact ⟨below,above⟩
      · exact ⟨by omega,up⟩

-- The int8 values of an activation row.
def quantised (xr : Nat → K) (p : Nat) : Int := float2intRn (xr p*inverseScale (rowBlockScale xr (p/32)))

theorem quantised_range (xr : Nat → K) (p : Nat) : -127 ≤ quantised xr p ∧ quantised xr p ≤ 127 := by
  have bounded : |xr p*inverseScale (rowBlockScale xr (p/32))| ≤ 127 := by
    unfold inverseScale
    split
    · next positive =>
      rw [abs_mul,abs_of_pos (one_div_pos.mpr positive),mul_one_div,div_le_iff₀ positive]
      exact abs_le_scale xr p
    · norm_num
  obtain ⟨low,high⟩ := abs_le.mp bounded
  exact float2intRn_range (m:=127) (by push_cast; exact low) (by push_cast; exact high)

theorem signed_quantised (xr : Nat → K) (p : Nat) : signed 8 (i8Byte (quantised xr p)).toNat = quantised xr p := by
  obtain ⟨low,high⟩ := quantised_range xr p
  exact signed_i8Byte (by omega) (by omega)

-- Q4_K's quantiser clamps what is already inside.
theorem q8_32_eq (xr : Nat → K) (p : Nat) : q8_32 xr p = quantised xr p := by
  obtain ⟨low,high⟩ := quantised_range xr p
  have same : float2intRn (xr p*inverseScale (q8BlockScale xr (p/32) (p % 32))) = quantised xr p := by
    rw [quantised,blockScale_eq xr _ (Nat.mod_lt p (by decide))]
  unfold q8_32
  rw [same,min_eq_right high,max_eq_right low]

end Quantiser

theorem sum_words {M : Type} [AddCommMonoid M] (f : Nat → M) :
    ∑ l ∈ Finset.range 8,∑ k ∈ Finset.range 4,f (4*l+k) = ∑ o ∈ Finset.range 32,f o := by
  have all := sum_stride 8 4 f
  simpa only [Nat.mul_comm _ 4] using all

section Products
variable {K : Type} [Field K] [LinearOrder K] [FloorRing K] [IsStrictOrderedRing K] {w : Source K} {cols r : Nat}

-- The product of row r with the quantised activation.
def int8Product (type : Nat) (w : Source K) (xr : Nat → K) (cols r : Nat) : K :=
  ∑ c ∈ Finset.range cols,(ggufDequant type (r*cols+c)).value w*rowBlockScale xr (c/32)*(quantised xr c : K)

theorem mmvq_exact (xr : Nat → K) (qs : Mem) (ds : Nat → K) (whole : cols % 32 = 0) (counts : cols/32 < 2^32) :
    matmulKernelQ8_0Mmvq w (quantizeQ8_0Kernel xr (cols/32) qs ds).1 (quantizeQ8_0Kernel xr (cols/32) qs ds).2 cols r =
      int8Product 8 w xr cols r := by
  have shifts : ∀ n : Nat,n >>> 5 = n/32 := fun n => Nat.shiftRight_eq_div_pow n 5
  have block : ∀ b ∈ Finset.range (cols/32),∑ l ∈ Finset.range 8,q8_0MmvqBlock w (quantizeQ8_0Kernel xr (cols/32) qs ds).1
      (quantizeQ8_0Kernel xr (cols/32) qs ds).2 (r*cols/32) b (4*l) =
      ∑ o ∈ Finset.range 32,(ggufDequant 8 (r*cols+(b*32+o))).value w*rowBlockScale xr ((b*32+o)/32)*(quantised xr (b*32+o) : K) := by
    intro b member
    have below := Finset.mem_range.mp member
    rw [← sum_words]
    refine Finset.sum_congr rfl fun l small => ?_
    have inner := Finset.mem_range.mp small
    unfold q8_0MmvqBlock
    dsimp only
    rw [ldU32_load,quantised_word xr qs ds below inner,quantised_scale xr qs ds below,dp4a_load,Int.cast_sum,Finset.sum_mul]
    refine Finset.sum_congr rfl fun k tiny => ?_
    have near := Finset.mem_range.mp tiny
    have place : b*32+4*l+k = b*32+(4*l+k) := by omega
    have group : (b*32+(4*l+k))/32 = b := by omega
    have decoded : (ggufDequant (K:=K) 8 (r*cols+(b*32+(4*l+k)))).value w =
        (signed 8 (byte w ((r*cols/32+b)*34+2+(4*l+k))) : K)*ldF16 w ((r*cols/32+b)*34) := by
      rw [← block_place whole,← value_f16At]
      exact value_dequantQ8_0 w _ (by omega)
    rw [decoded,group,place,show i8Byte (float2intRn (xr (b*32+(4*l+k))*inverseScale (rowBlockScale xr ((b*32+(4*l+k))/32)))) =
      i8Byte (quantised xr (b*32+(4*l+k))) from rfl,signed_quantised,← Nat.add_assoc ((r*cols/32+b)*34+2),byte]
    push_cast
    ring
  rw [mmvq_eq _ _ _ counts,shifts,shifts,Finset.sum_congr rfl block,
    sum_stride (cols/32) 32 fun c => (ggufDequant 8 (r*cols+c)).value w*rowBlockScale xr (c/32)*(quantised xr c : K),
    Nat.div_mul_cancel (Nat.dvd_of_mod_eq_zero whole)]
  rfl

theorem dp4a_exact (x : Nat → K) (whole : cols % 128 = 0) (counts : cols/32 < 2^32) (b : Nat) :
    matmulKernelQ8_0Dp4a w x cols b r = int8Product 8 w (fun c => x (b*cols+c)) cols r := by
  rw [q8_0_rows_agree w x (fun _ => 0) (fun _ => 0) whole counts b r]
  exact mmvq_exact _ _ _ (by omega) counts

end Products

-- Q4_K: a group of eight lanes owns two sub-blocks of its super-block.
section Nibbles
variable {K : Type} {w : Source K} {bp base g half : Nat}

theorem kNibble_half (qs : Nat) {m : Nat} (two : half < 2) (small : m < 32) :
    kNibble w qs ((2*g+half)*32+m) = byte w (qs+(g*32+m))/2^(4*half) % 16 := by
  have pair : ((2*g+half)*32+m)/64 = g := by omega
  have inner : ((2*g+half)*32+m) % 32 = m := by omega
  have parity : ((2*g+half)*32+m)/32 % 2 = half := by omega
  rw [kNibble,pair,inner,parity,Nat.mul_comm half]

theorem group_products (qx : Mem) (two : half < 2) :
    reduceDown 8 3 (fun lane => dp4a (load 4 w.data (bp+16+(lane >>> 3)*32+4*(lane &&& 7)) >>> (4*half) &&& 0x0F0F0F0F)
      (load 4 qx (base+(2*(lane >>> 3)+half)*32+4*(lane &&& 7))) 0) (g*8) =
      ∑ m ∈ Finset.range 32,(kNibble w (bp+16) ((2*g+half)*32+m) : Int)*signed 8 (qx (base+(2*g+half)*32+m)).toNat := by
  rw [reduceDown_eq _ (by omega),← sum_words]
  refine Finset.sum_congr rfl fun l member => ?_
  have below := Finset.mem_range.mp member
  have group : (g*8+l) >>> 3 = g := by
    rw [Nat.shiftRight_eq_div_pow]
    omega
  have slice : (g*8+l) &&& 7 = l := by
    rw [and_seven]
    omega
  rw [group,slice,dp4a_nibbles (by omega)]
  refine Finset.sum_congr rfl fun k tiny => ?_
  have near := Finset.mem_range.mp tiny
  rw [kNibble_half _ two (by omega),byte]
  simp only [Nat.add_assoc]

end Nibbles

section SuperBlocks
variable {K : Type} [Field K] [LinearOrder K] [FloorRing K] {w : Source K} {scratch : Scratch K} {cols nblk r : Nat} (xr : Nat → K)

def q4kSubBlock (w : Source K) (xr : Nat → K) (blk0 t sb : Nat) : K :=
  let bp := (blk0+t)*144
  let (sc,mn) := (q4kScaleMin (bp+4) sb).value w
  rowBlockScale xr (t*8+sb)*(ldF16 w bp*(sc : K)*
    ((∑ m ∈ Finset.range 32,(kNibble w (bp+16) (sb*32+m) : Int)*quantised xr (t*256+sb*32+m) : Int) : K)-
    ldF16 w (bp+2)*(mn : K)*((∑ m ∈ Finset.range 32,quantised xr ((t*8+sb)*32+m) : Int) : K))

theorem subBlock_product (whole : cols % 256 = 0) {t sb : Nat} (eight : sb < 8) :
    q4kSubBlock w xr (r*cols/256) t sb = ∑ m ∈ Finset.range 32,(ggufDequant 12 (r*cols+(t*256+(sb*32+m)))).value w*
      rowBlockScale xr ((t*256+(sb*32+m))/32)*(quantised xr (t*256+(sb*32+m)) : K) := by
  unfold q4kSubBlock
  dsimp only
  rw [Int.cast_sum,Int.cast_sum,Finset.mul_sum,Finset.mul_sum,← Finset.sum_sub_distrib,Finset.mul_sum]
  refine Finset.sum_congr rfl fun m member => ?_
  have small := Finset.mem_range.mp member
  have group : (t*256+(sb*32+m))/32 = t*8+sb := by omega
  have flat : (t*8+sb)*32+m = t*256+(sb*32+m) := by omega
  have sub : (sb*32+m)/32 = sb := by omega
  have decoded : (ggufDequant (K:=K) 12 (r*cols+(t*256+(sb*32+m)))).value w =
      ldF16 w ((r*cols/256+t)*144)*(((q4kScaleMin (K:=K) ((r*cols/256+t)*144+4) sb).value w).1 : K)*
        (kNibble w ((r*cols/256+t)*144+16) (sb*32+m) : K)-
      ldF16 w ((r*cols/256+t)*144+2)*(((q4kScaleMin (K:=K) ((r*cols/256+t)*144+4) sb).value w).2 : K) := by
    rw [← block_place whole,← value_f16At,← value_f16At]
    have shape := value_dequantQ4K (K:=K) w (r*cols/256+t) (o:=sb*32+m) (by omega)
    rwa [sub] at shape
  rw [decoded,group,flat,Nat.add_assoc (t*256)]
  push_cast
  ring

theorem sub_pairs (n : Nat) : ∑ g ∈ Finset.range 4,∑ t ∈ Finset.range n,
    (q4kSubBlock w xr (r*cols/256) t (2*g)+q4kSubBlock w xr (r*cols/256) t (2*g+1)) =
    ∑ t ∈ Finset.range n,∑ sb ∈ Finset.range 8,q4kSubBlock w xr (r*cols/256) t sb := by
  rw [Finset.sum_comm]
  refine Finset.sum_congr rfl fun t _ => ?_
  rw [← sum_stride 4 2 fun sb => q4kSubBlock w xr (r*cols/256) t sb]
  refine Finset.sum_congr rfl fun g _ => ?_
  rw [Finset.sum_range_succ,Finset.sum_range_one,Nat.mul_comm g]
  rfl

theorem blocks_product (whole : cols % 256 = 0) : ∑ t ∈ Finset.range (cols/256),∑ sb ∈ Finset.range 8,q4kSubBlock w xr (r*cols/256) t sb =
    int8Product 12 w xr cols r := by
  set term := fun c => (ggufDequant 12 (r*cols+c)).value w*rowBlockScale xr (c/32)*(quantised xr c : K) with named
  have inner : ∀ t,∑ sb ∈ Finset.range 8,q4kSubBlock w xr (r*cols/256) t sb = ∑ o ∈ Finset.range 256,term (t*256+o) := by
    intro t
    rw [Finset.sum_congr rfl fun sb member => subBlock_product xr whole (Finset.mem_range.mp member)]
    exact sum_stride 8 32 fun o => term (t*256+o)
  rw [Finset.sum_congr rfl fun t _ => inner t,sum_stride (cols/256) 256 term,Nat.div_mul_cancel (Nat.dvd_of_mod_eq_zero whole)]
  rfl

variable [IsStrictOrderedRing K]

theorem quantised_byte {p : Nat} (below : p/32 < nblk) :
    signed 8 ((quantizeQ8_32Kernel xr nblk scratch).q4kQx p).toNat = quantised xr p := by
  simp only [quantizeQ8_32Kernel]
  rw [if_pos below,q8_32_eq,signed_quantised]

theorem group_scale {blk : Nat} (below : blk < nblk) :
    (quantizeQ8_32Kernel xr nblk scratch).q4kDx blk = rowBlockScale xr blk := by
  simp only [quantizeQ8_32Kernel]
  rw [if_pos below,blockScale_eq xr blk (by decide)]

theorem group_sum {blk : Nat} (below : blk < nblk) :
    (quantizeQ8_32Kernel xr nblk scratch).q4kBs blk = ∑ m ∈ Finset.range 32,quantised xr (blk*32+m) := by
  simp only [quantizeQ8_32Kernel]
  rw [if_pos below,exchange_sum]
  refine Finset.sum_congr rfl fun m _ => ?_
  rw [Nat.zero_xor,q8_32_eq]

theorem leader_product (w : Source K) (scratch : Scratch K) (bp : Nat) (enough : cols/32 ≤ nblk) (whole : cols % 256 = 0)
    {t g half : Nat} (below : t < cols/256) (four : g < 4) (two : half < 2) :
    reduceDown 8 3 (fun lane => dp4a (load 4 w.data (bp+16+(lane >>> 3)*32+4*(lane &&& 7)) >>> (4*half) &&& 0x0F0F0F0F)
      (load 4 (quantizeQ8_32Kernel xr nblk scratch).q4kQx (t*256+(2*(lane >>> 3)+half)*32+4*(lane &&& 7))) 0) (g*8) =
      ∑ m ∈ Finset.range 32,(kNibble w (bp+16) ((2*g+half)*32+m) : Int)*quantised xr (t*256+(2*g+half)*32+m) := by
  rw [group_products _ two]
  refine Finset.sum_congr rfl fun m member => ?_
  have small := Finset.mem_range.mp member
  rw [quantised_byte xr (by omega)]

theorem q4kDp4a_exact (scratch : Scratch K) (w : Source K) (x : Nat → K) {cols batch b : Nat} (whole : cols % 256 = 0) (row : b < batch)
    (counts : batch*(cols/32) < 2^32) (r : Nat) :
    gpuQ4kDp4a scratch w x cols batch b r = int8Product 12 w (fun c => x (b*cols+c)) cols r := by
  have alone : gpuQ4kDp4a scratch w x cols batch b r = gpuQ4kDp4a scratch w (fun c => x (b*cols+c)) cols 1 0 r :=
    gpuQ4kDp4a_row whole row counts r
  rw [alone,← blocks_product _ whole]
  set xr := fun c => x (b*cols+c) with named
  have enough : cols/32 ≤ 1*(cols/32) := by omega
  have single : 1*(cols/32) < 2^32 := lt_of_le_of_lt (Nat.mul_le_mul_right _ (Nat.one_le_of_lt row)) counts
  unfold gpuQ4kDp4a gemvQ4kDp4aKernel
  dsimp only
  rw [u32_of_lt single,warpTotal_eq,← sum_stride 4 8,← sub_pairs]
  refine Finset.sum_congr rfl fun g member => ?_
  have four := Finset.mem_range.mp member
  rw [Finset.sum_eq_single 0]
  · -- the leader
    refine (fold_congr (g:=fun t acc => acc+(q4kSubBlock w xr (r*cols/256) t (2*g)+q4kSubBlock w xr (r*cols/256) t (2*g+1)))
      (fun t below acc => ?_) 0).trans ?_
    · rw [Nat.shiftRight_eq_div_pow] at below
      have slice : g*8 &&& 7 = 0 := by
        rw [and_seven]
        omega
      have group : (g*8) >>> 3 = g := by
        rw [Nat.shiftRight_eq_div_pow]
        omega
      have low := leader_product xr w scratch ((r*cols/256+t)*144) enough whole below four zero_lt_two
      have high := leader_product xr w scratch ((r*cols/256+t)*144) enough whole below four one_lt_two
      simp only [Nat.mul_zero,Nat.mul_one,Nat.add_zero] at low high
      have start : (r*cols) >>> 8 = r*cols/256 := Nat.shiftRight_eq_div_pow _ 8
      have place : 0*(cols >>> 5)+t <<< 3+2*g = t*8+2*g := by
        rw [Nat.shiftLeft_eq]
        omega
      have base : 0*cols+t <<< 8 = t*256 := by
        rw [Nat.shiftLeft_eq]
        omega
      simp only [Nat.add_zero,slice,group,start,base,if_true,place,← Nat.add_assoc,low,high]
      rw [group_scale xr (by omega),group_scale xr (by omega),group_sum xr (by omega),group_sum xr (by omega)]
      simp only [q4kSubBlock,Nat.add_assoc]
      exact add_assoc _ _ _
    · rw [fold_add,zero_add,Nat.shiftRight_eq_div_pow]
  · -- the others
    intro l inside other
    have eight := Finset.mem_range.mp inside
    have slice : (g*8+l) &&& 7 = l := by
      rw [and_seven]
      omega
    refine (fold_congr (g:=fun _ acc => acc+0) (fun t _ acc => ?_) 0).trans ?_
    · rw [slice,if_neg other,add_zero]
    · rw [fold_add,zero_add,Finset.sum_const_zero]
  · intro out
    exact absurd (Finset.mem_range.mpr (by decide)) out

end SuperBlocks

inductive Int8Kernel where
  | mmvq | dp4a | q4k
deriving Repr,DecidableEq

-- The kernel matmul_launch takes, where it is one of those on quantised activations.
def int8Route (type rows cols batch : Nat) (trans : Bool) : Option Int8Kernel :=
  match type with
  | 8 =>
    if !(trans || batch ≠ 1 || rows = 0 || cols = 0 || cols % 32 ≠ 0) then some .mmvq
    else if !trans && dp4aFits cols then some .dp4a
    else none
  | 12 => if !trans && cols % 256 = 0 then some .q4k else none
  | _ => none

namespace Int8Kernel

def grid (k : Int8Kernel) (rows : Nat) : Nat :=
  match k with
  | .mmvq => rows
  | .dp4a | .q4k => (rows+7)/8

def Covers (k : Int8Kernel) (gx rows : Nat) : Prop :=
  match k with
  | .mmvq | .q4k => 0 < gx
  | .dp4a => rows ≤ gx*8

def order (k : Int8Kernel) (gx rows : Nat) : List Nat :=
  match k with
  | .mmvq => gridStride gx 1 rows
  | .dp4a => gridOnce gx 8 rows
  | .q4k => gridStride gx 8 rows

variable {K : Type} [Field K] [LinearOrder K] [FloorRing K]

def value (k : Int8Kernel) (scratch : Scratch K) (w : Source K) (x : Nat → K) (cols batch b r : Nat) : K :=
  match k with
  | .mmvq =>
    let (qs,ds) := quantizeQ8_0Kernel x (u32 (cols/32)) scratch.q8X scratch.q8D
    matmulKernelQ8_0Mmvq w qs ds cols r
  | .dp4a => matmulKernelQ8_0Dp4a w x cols b r
  | .q4k => gpuQ4kDp4a scratch w x cols batch b r

def launch (k : Int8Kernel) (scratch : Scratch K) (w : Source K) (x : Nat → K) (rows cols batch gx : Nat) : List (Nat × K) :=
  gridWrites batch rows (k.order gx rows) (k.value scratch w x cols batch)

end Int8Kernel

section Routes
variable {K : Type} [Field K] [LinearOrder K] [FloorRing K] {w : Source K} {x : Nat → K} {scratch : Scratch K}
variable {k : Int8Kernel} {type rows cols batch gx : Nat} {trans : Bool}

theorem int8Order_perm (covers : k.Covers gx rows) : (k.order gx rows).Perm (List.range rows) := by
  cases k with
  | mmvq => exact gridStride_perm covers (by decide) rows
  | dp4a => exact (gridOnce_eq covers).symm ▸ List.Perm.refl _
  | q4k => exact gridStride_perm covers (by decide) rows

theorem int8Grid_covers (k : Int8Kernel) {rows : Nat} (tall : 0 < rows) : k.Covers (k.grid rows) rows := by
  cases k <;> simp only [Int8Kernel.Covers,Int8Kernel.grid] <;> omega

theorem matmulLaunch_int8 (route : int8Route type rows cols batch trans = some k) (b r : Nat) :
    matmulLaunch scratch type w x rows cols batch trans b r = k.value scratch w x cols batch b r := by
  unfold int8Route at route
  split at route
  · split at route
    · next taken =>
      cases route
      have some' : q8_0MmvqLaunch scratch w x rows cols batch trans =
          some fun r => (Int8Kernel.mmvq).value scratch w x cols batch 0 r := by
        unfold q8_0MmvqLaunch
        rw [if_neg (by simpa only [Bool.not_eq_true,Bool.not_eq_true'] using taken)]
        rfl
      simp only [matmulLaunch,some']
      rfl
    · next refused =>
      have none' : q8_0MmvqLaunch scratch w x rows cols batch trans = none :=
        if_pos (by simpa only [Bool.not_eq_true,Bool.not_eq_false'] using refused)
      simp only [matmulLaunch,none']
      split at route
      · next gate =>
        cases route
        exact if_pos gate
      · cases route
  · split at route
    · next gate =>
      cases route
      exact if_pos gate
    · cases route
  · cases route

variable [IsStrictOrderedRing K]

theorem int8Value_exact (route : int8Route type rows cols batch trans = some k) (launches : Launches type batch cols) {b : Nat} (row : b < batch)
    (r : Nat) : k.value scratch w x cols batch b r = int8Product type w (fun c => x (b*cols+c)) cols r := by
  unfold int8Route at route
  split at route
  · have counts : cols/32 < 2^32 := by have := launches.2.1 rfl; omega
    split at route
    · next taken =>
      cases route
      simp only [Bool.not_eq_true',Bool.or_eq_false_iff,decide_eq_false_iff_not,not_not] at taken
      obtain ⟨⟨⟨⟨_,single⟩,_⟩,_⟩,whole⟩ := taken
      have only : b = 0 := by omega
      subst only
      simp only [Nat.zero_mul,Nat.zero_add]
      unfold Int8Kernel.value
      dsimp only
      rw [u32_of_lt counts]
      exact mmvq_exact x scratch.q8X scratch.q8D whole counts
    · split at route
      · next gate =>
        cases route
        simp only [Bool.and_eq_true,dp4aFits,decide_eq_true_eq] at gate
        exact dp4a_exact x gate.2.1 counts b
      · cases route
  · split at route
    · next gate =>
      cases route
      simp only [Bool.and_eq_true,decide_eq_true_eq] at gate
      exact q4kDp4a_exact scratch w x gate.2 row (launches.2.2 rfl) r
    · cases route
  · cases route

-- Any covering grid writes every output element once, with the product of its row and the
-- quantised activation; no integer sum leaves 32 bits.
theorem int8Kernels_exact (route : int8Route type rows cols batch trans = some k) (launches : Launches type batch cols)
    (covers : k.Covers gx rows) :
    ((k.launch scratch w x rows cols batch gx).map Prod.fst).Perm (List.range (batch*rows)) ∧
      (∀ b < batch,∀ r < rows,(b*rows+r,∑ c ∈ Finset.range cols,(ggufDequant type (r*cols+c)).value w*
        rowBlockScale (fun c => x (b*cols+c)) (c/32)*(quantised (fun c => x (b*cols+c)) c : K)) ∈
          k.launch scratch w x rows cols batch gx) ∧
      (∀ b < batch,∀ r < rows,matmulLaunch scratch type w x rows cols batch trans b r = ∑ c ∈ Finset.range cols,
        (ggufDequant type (r*cols+c)).value w*rowBlockScale (fun c => x (b*cols+c)) (c/32)*
          (quantised (fun c => x (b*cols+c)) c : K)) ∧
      (∀ b c,-127 ≤ quantised (fun c => x (b*cols+c)) c ∧ quantised (fun c => x (b*cols+c)) c ≤ 127) ∧
      (∀ v v' : Nat → Nat,∀ lane,|dp4a (v lane) (v' lane) 0| < 2^31 ∧
        |reduceDown 8 3 (fun lane => dp4a (v lane) (v' lane) 0) lane| < 2^31) ∧
      (∀ b g,|∑ m ∈ Finset.range 32,quantised (fun c => x (b*cols+c)) (g*32+m)| < 2^31) := by
  refine ⟨gridWrites_once _ (int8Order_perm covers),fun b row r below => ?_,fun b row r _ => ?_,
    fun b c => quantised_range _ c,fun v v' lane => ⟨?_,?_⟩,fun b g => ?_⟩
  · have written := gridWrites_value (k.value scratch w x cols batch) (int8Order_perm covers) row below
    rwa [int8Value_exact route launches row] at written
  · rw [matmulLaunch_int8 route,int8Value_exact route launches row]
    rfl
  · exact lt_of_le_of_lt (abs_dp4a_le _ _) (by decide)
  · exact lt_of_le_of_lt (abs_reduceDown_le 8 3 (fun lane => abs_dp4a_le (v lane) (v' lane)) lane) (by decide)
  · have each : ∀ m ∈ Finset.range 32,|quantised (fun c => x (b*cols+c)) (g*32+m)| ≤ 127 := fun m _ =>
      abs_le.mpr (quantised_range _ _)
    exact lt_of_le_of_lt ((Finset.abs_sum_le_sum_abs _ _).trans (Finset.sum_le_card_nsmul _ _ _ each)) (by decide)

end Routes

-- Three rows of a Q4_K super-block against two rows of activation.
theorem threeRows_exact : matmulLaunch emptyScratch 12 exactOne (fun j => (j : ℚ)) 3 256 2 false 1 2 =
    ∑ c ∈ Finset.range 256,(ggufDequant 12 (2*256+c)).value exactOne*
      rowBlockScale (fun c => ((1*256+c : Nat) : ℚ)) (c/32)*(quantised (fun c => ((1*256+c : Nat) : ℚ)) c : ℚ) := by
  have route : int8Route 12 3 256 2 false = some .q4k := rfl
  have covers : Int8Kernel.q4k.Covers 1 3 := one_pos
  exact (int8Kernels_exact (w:=exactOne) (x:=fun j => (j : ℚ)) route (by decide) covers).2.2.1 1 (by decide) 2 (by decide)

end TinyLlama.Gpu
