import TinyLlama.Gpu.Matmul

namespace TinyLlama.Gpu
open Quants Memory Bits Warp Sweep
open Device (ldU32 ldF16 ldF32 ldI8)

section Words
variable {m m' : Mem} {p p' : Nat}

theorem load_byte {k : Nat} (small : k < 4) : load 4 m p >>> (8*k) &&& 0xFF = (m (p+k)).toNat := by
  have bytes : load 4 m p = (m p).toNat+256*((m (p+1)).toNat+256*((m (p+2)).toNat+256*((m (p+3)).toNat+256*0))) := rfl
  have b0 := (m p).toNat_lt
  have b1 := (m (p+1)).toNat_lt
  have b2 := (m (p+2)).toNat_lt
  have b3 := (m (p+3)).toNat_lt
  rw [and_255,Nat.shiftRight_eq_div_pow,bytes]
  interval_cases k <;> simp only [Nat.mul_zero,Nat.add_zero,Nat.reduceMul,Nat.reducePow] <;> omega

theorem dp4a_load : dp4a (load 4 m p) (load 4 m' p') 0 =
    ∑ k ∈ Finset.range 4,signed 8 (m (p+k)).toNat*signed 8 (m' (p'+k)).toNat := by
  simp only [Finset.sum_range_succ,Finset.sum_range_zero,dp4a]
  rw [load_byte (by decide),load_byte (by decide),load_byte (by decide),load_byte (by decide),
    load_byte (by decide),load_byte (by decide),load_byte (by decide),load_byte (by decide)]
  ring

end Words

section Sums
variable {K : Type} [Field K]

theorem warpTotal_eq (v : Nat → K) : warpTotal v = ∑ lane ∈ Finset.range 32,v lane :=
  reduceDown_zero (k:=5) v (by decide)

theorem sum_lanes (f : Nat → Nat → K) : ∑ lane ∈ Finset.range 32,f (lane >>> 3) (lane &&& 7) =
    ∑ sub ∈ Finset.range 4,∑ l ∈ Finset.range 8,f sub l := by
  rw [← sum_stride 4 8 fun lane => f (lane >>> 3) (lane &&& 7)]
  refine Finset.sum_congr rfl fun sub _ => Finset.sum_congr rfl fun l member => ?_
  have below := Finset.mem_range.mp member
  rw [and_seven,Nat.shiftRight_eq_div_pow]
  congr 1 <;> omega

-- The two interleaved sums are the plain one.
theorem twoSums_eq (f : Nat → K) {b step n : Nat} (wide : 0 < step) :
    twoSums f b step n = ∑ t ∈ Finset.range (rounds b step n),f (b+t*step) := by
  set pairs := rounds b (2*step) (n-step) with count
  have fits : 2*pairs ≤ rounds b step n := by
    rcases Nat.eq_zero_or_pos pairs with none' | some'
    · omega
    · have last : pairs-1 < rounds b (2*step) (n-step) := by omega
      rw [lt_rounds (by omega)] at last
      have place : b+(2*pairs-1)*step = b+(pairs-1)*(2*step)+step := by
        obtain ⟨k,same⟩ : ∃ k,pairs = k+1 := ⟨pairs-1,by omega⟩
        rw [same,Nat.add_sub_cancel,show 2*(k+1)-1 = 2*k+1 by omega]
        ring
      have inside : 2*pairs-1 < rounds b step n := by
        rw [lt_rounds wide,place]
        omega
      omega
  have both : strided b (2*step) (n-step) (fun b (s : K × K) => (s.1+f b,s.2+f (b+step))) (0,0) =
      (∑ t ∈ Finset.range pairs,f (b+t*(2*step)),∑ t ∈ Finset.range pairs,f (b+t*(2*step)+step)) := by
    unfold strided
    rw [fold_pair _ (fun t s => s+f (b+t*(2*step))) fun t s => s+f (b+t*(2*step)+step)]
    congr 1
    · simpa using fold_total (n:=pairs) (m:=fun s => s) (d:=fun t => f (b+t*(2*step))) (fun _ _ _ => rfl) 0
    · simpa using fold_total (n:=pairs) (m:=fun s => s) (d:=fun t => f (b+t*(2*step)+step)) (fun _ _ _ => rfl) 0
  have front : ∑ t ∈ Finset.range (2*pairs),f (b+t*step) =
      ∑ t ∈ Finset.range pairs,f (b+t*(2*step))+∑ t ∈ Finset.range pairs,f (b+t*(2*step)+step) := by
    rw [Nat.mul_comm,← sum_stride pairs 2 fun t => f (b+t*step),← Finset.sum_add_distrib]
    refine Finset.sum_congr rfl fun t _ => ?_
    rw [Finset.sum_range_succ,Finset.sum_range_one]
    congr 2 <;> ring
  have rest : b+pairs*(2*step) = b+2*pairs*step := by ring
  unfold twoSums
  simp only [both,strided_sum]
  rw [← count,rest,rounds_after wide,← Nat.add_sub_cancel' fits,Finset.sum_range_add,front,Nat.add_sub_cancel_left]
  have later : ∀ t,b+2*pairs*step+t*step = b+(2*pairs+t)*step := fun t => by ring
  simp only [later]
  ring

theorem mmvq_eq (w : Source K) (xq : Mem) (xd : Nat → K) {cols : Nat} (counts : cols/32 < 2^32) (r : Nat) : matmulKernelQ8_0Mmvq w xq xd cols r =
    ∑ b ∈ Finset.range (cols >>> 5),∑ l ∈ Finset.range 8,q8_0MmvqBlock w xq xd ((r*cols) >>> 5) b (4*l) := by
  set block := fun b l => q8_0MmvqBlock w xq xd ((r*cols) >>> 5) b (4*l) with named
  have warp : ∀ o,warpTotal (fun lane => twoSums (fun b => block b (lane &&& 7)) (o*4+(lane >>> 3)) 16 (cols >>> 5)) =
      ∑ sub ∈ Finset.range 4,∑ t ∈ Finset.range (rounds (o*4+sub) 16 (cols >>> 5)),∑ l ∈ Finset.range 8,
        block (o*4+sub+t*16) l := by
    intro o
    simp only [warpTotal_eq,twoSums_eq (K:=K) _ (show 0 < 16 by decide)]
    rw [sum_lanes fun sub l => ∑ t ∈ Finset.range (rounds (o*4+sub) 16 (cols >>> 5)),block (o*4+sub+t*16) l]
    exact Finset.sum_congr rfl fun sub _ => Finset.sum_comm
  have warps : ∀ f : Nat → K,f 0+f 1+f 2+f 3 = ∑ o ∈ Finset.range 4,f o := by
    intro f
    simp [Finset.sum_range_succ]
  have count : u32 (cols >>> 5) = cols >>> 5 := u32_of_lt (by rwa [Nat.shiftRight_eq_div_pow])
  unfold matmulKernelQ8_0Mmvq
  dsimp only
  rw [count]
  rw [warps fun o => warpTotal fun lane => twoSums (fun b => block b (lane &&& 7)) (o*4+(lane >>> 3)) 16 (cols >>> 5)]
  simp only [warp]
  rw [sum_stride 4 4 fun o => ∑ t ∈ Finset.range (rounds o 16 (cols >>> 5)),∑ l ∈ Finset.range 8,block (o+t*16) l]
  exact sum_strides (by decide) _ fun b => ∑ l ∈ Finset.range 8,block b l

theorem fourBlocks_eq (block : Nat → Nat → K) {n : Nat} (whole : n % 4 = 0) :
    warpTotal (fun lane => strided 0 4 n (fun t sum => sum+block (t+(lane >>> 3)) (lane &&& 7)) 0) =
      ∑ b ∈ Finset.range n,∑ l ∈ Finset.range 8,block b l := by
  rw [warpTotal_eq]
  simp only [strided_sum,zero_add]
  rw [sum_lanes fun sub l => ∑ t ∈ Finset.range (rounds 0 4 n),block (t*4+sub) l]
  have swapped : ∀ sub,∑ l ∈ Finset.range 8,∑ t ∈ Finset.range (rounds 0 4 n),block (t*4+sub) l =
      ∑ t ∈ Finset.range (rounds 0 4 n),∑ l ∈ Finset.range 8,block (t*4+sub) l := fun _ => Finset.sum_comm
  simp only [swapped]
  rw [Finset.sum_comm,sum_stride _ 4 fun b => ∑ l ∈ Finset.range 8,block b l,rounds_zero (by decide) whole]

end Sums

section Quantisers

theorem fold_max_le {K : Type} [Field K] [LinearOrder K] (f : Nat → K) (n : Nat) (c : K) :
    Nat.fold n (fun k _ amax => max amax (f k)) 0 ≤ c ↔ 0 ≤ c ∧ ∀ k < n,f k ≤ c := by
  induction n with
  | zero => simp
  | succ n ih =>
    rw [Nat.fold_succ,max_le_iff,ih,Nat.forall_lt_succ_right,and_assoc]

variable {K : Type} [Field K] [LinearOrder K] [IsStrictOrderedRing K]

-- The all-reduce of a warp and the loop of a thread find one maximum.
theorem blockScale_eq (x : Nat → K) (bi : Nat) {lane : Nat} (here : lane < 32) :
    q8BlockScale x bi lane = rowBlockScale x bi := by
  unfold q8BlockScale rowBlockScale
  congr 1
  refine eq_of_forall_ge_iff fun c => ?_
  rw [exchange_max_le_iff (k:=5) _ c here,fold_max_le]
  exact ⟨fun all => ⟨(abs_nonneg _).trans (all 0 (by decide)),all⟩,And.right⟩

variable [FloorRing K]

theorem quantised_word (x : Nat → K) {nblk b l : Nat} (qs : Mem) (ds : Nat → K) (below : b < nblk) (small : l < 8) :
    load 4 (quantizeQ8_0Kernel x nblk qs ds).1 (b*32+4*l) =
      load 4 (fun p => i8Byte (float2intRn (x p*inverseScale (rowBlockScale x (p/32))))) (b*32+4*l) := by
  refine load_congr fun p low high => ?_
  have block : p/32 = b := by omega
  have lane : p % 32 < 32 := Nat.mod_lt _ (by decide)
  simp only [quantizeQ8_0Kernel]
  rw [if_pos (by omega),blockScale_eq x _ lane]

theorem quantised_scale (x : Nat → K) {nblk b : Nat} (qs : Mem) (ds : Nat → K) (below : b < nblk) :
    (quantizeQ8_0Kernel x nblk qs ds).2 b = rowBlockScale x b := by
  simp only [quantizeQ8_0Kernel]
  rw [if_pos below,blockScale_eq x b (by decide)]

theorem q8_0_rows_agree (w : Source K) (x : Nat → K) {cols : Nat} (qs : Mem) (ds : Nat → K) (whole : cols % 128 = 0)
    (counts : cols/32 < 2^32) (b r : Nat) :
    matmulKernelQ8_0Dp4a w x cols b r =
      matmulKernelQ8_0Mmvq w (quantizeQ8_0Kernel (fun c => x (b*cols+c)) (cols/32) qs ds).1
        (quantizeQ8_0Kernel (fun c => x (b*cols+c)) (cols/32) qs ds).2 cols r := by
  have shifts : ∀ n : Nat,n >>> 5 = n/32 := fun n => Nat.shiftRight_eq_div_pow n 5
  rw [mmvq_eq _ _ _ counts,shifts,shifts]
  unfold matmulKernelQ8_0Dp4a
  dsimp only
  rw [u32_of_lt counts]
  rw [fourBlocks_eq (fun bb l => (dp4a (ldU32 w ((r*cols/32+bb)*34+2+4*l)) (load 4 _ (bb*32+4*l)) 0 : K)*
    ldF16 w ((r*cols/32+bb)*34)*rowBlockScale (fun c => x (b*cols+c)) bb) (by omega)]
  refine Finset.sum_congr rfl fun bb member => Finset.sum_congr rfl fun l small => ?_
  unfold q8_0MmvqBlock
  rw [quantised_word _ qs ds (Finset.mem_range.mp member) (Finset.mem_range.mp small),
    quantised_scale _ qs ds (Finset.mem_range.mp member)]
  ring

-- What an earlier call left in the scratch is not read.
theorem mmvq_scratch (w : Source K) (x : Nat → K) (qs qs' : Mem) (ds ds' : Nat → K) {cols : Nat} (counts : cols/32 < 2^32) (r : Nat) :
    matmulKernelQ8_0Mmvq w (quantizeQ8_0Kernel x (cols/32) qs ds).1 (quantizeQ8_0Kernel x (cols/32) qs ds).2 cols r =
      matmulKernelQ8_0Mmvq w (quantizeQ8_0Kernel x (cols/32) qs' ds').1 (quantizeQ8_0Kernel x (cols/32) qs' ds').2 cols r := by
  rw [mmvq_eq _ _ _ counts,mmvq_eq _ _ _ counts,Nat.shiftRight_eq_div_pow]
  refine Finset.sum_congr rfl fun b member => Finset.sum_congr rfl fun l small => ?_
  have below := Finset.mem_range.mp member
  have inner := Finset.mem_range.mp small
  unfold q8_0MmvqBlock
  rw [quantised_word x qs ds below inner,quantised_word x qs' ds' below inner,quantised_scale x qs ds below,
    quantised_scale x qs' ds' below]

end Quantisers

section Rows
variable {K : Type} [Field K] {w : Source K} {x : Nat → K} {cols b : Nat}

theorem nontrans_row (type r : Nat) : matmulKernelNontrans type w x cols b r =
    matmulKernelNontrans type w (fun c => x (b*cols+c)) cols 0 r := by simp [matmulKernelNontrans]

theorem trans_row (type rows r : Nat) : matmulKernelTrans type w x rows cols b r =
    matmulKernelTrans type w (fun c => x (b*cols+c)) rows cols 0 r := by simp [matmulKernelTrans]

theorem gemvBlock_row (type r : Nat) : gemvBlockKernel type w x cols b r =
    gemvBlockKernel type w (fun c => x (b*cols+c)) cols 0 r := by simp [gemvBlockKernel]

theorem gemvIq4Nl_row (r : Nat) : gemvIq4NlKernel w x cols b r =
    gemvIq4NlKernel w (fun c => x (b*cols+c)) cols 0 r := by simp [gemvIq4NlKernel]

theorem dp4a_row [LinearOrder K] [FloorRing K] (r : Nat) : matmulKernelQ8_0Dp4a w x cols b r =
    matmulKernelQ8_0Dp4a w (fun c => x (b*cols+c)) cols 0 r := by simp [matmulKernelQ8_0Dp4a]

theorem generic_row (type rows r : Nat) (trans : Bool) : matmulGeneric type w x rows cols trans b r =
    matmulGeneric type w (fun c => x (b*cols+c)) rows cols trans 0 r := by
  unfold matmulGeneric
  rw [gemvBlock_row,trans_row,nontrans_row]

theorem gemvQ4k_row {qx qx' : Mem} {dx dx' : Nat → K} {bs bs' : Nat → Int} (whole : cols % 256 = 0)
    (bytes : ∀ p < cols,qx (b*cols+p) = qx' p) (scales : ∀ g < cols/32,dx (b*(cols/32)+g) = dx' g)
    (sums : ∀ g < cols/32,bs (b*(cols/32)+g) = bs' g) (r : Nat) :
    gemvQ4kDp4aKernel w qx dx bs cols b r = gemvQ4kDp4aKernel w qx' dx' bs' cols 0 r := by
  unfold gemvQ4kDp4aKernel
  dsimp only
  rw [warpTotal_eq,warpTotal_eq]
  refine Finset.sum_congr rfl fun lane member => ?_
  have here := Finset.mem_range.mp member
  refine fold_congr (fun t below acc => ?_) 0
  rw [Nat.shiftRight_eq_div_pow] at below
  simp only [and_seven,Nat.shiftRight_eq_div_pow,Nat.shiftLeft_eq,Nat.zero_mul,Nat.zero_add]
  by_cases leader : lane % 8 = 0
  · rw [if_pos leader,if_pos leader]
    have ip : ∀ f : Nat → Nat,∀ half < 2,
        reduceDown 8 3 (fun lane => dp4a (f lane) (load 4 qx (b*cols+t*2^8+(2*(lane/2^3)+half)*32+4*(lane % 8))) 0) lane =
        reduceDown 8 3 (fun lane => dp4a (f lane) (load 4 qx' (t*2^8+(2*(lane/2^3)+half)*32+4*(lane % 8))) 0) lane := by
      intro f half small
      rw [reduceDown_eq _ (by omega),reduceDown_eq _ (by omega)]
      refine Finset.sum_congr rfl fun j inside => ?_
      have near := Finset.mem_range.mp inside
      congr 1
      have moved : load 4 (fun p => qx (b*cols+p)) (t*2^8+(2*((lane+j)/2^3)+half)*32+4*((lane+j) % 8)) =
          load 4 qx' (t*2^8+(2*((lane+j)/2^3)+half)*32+4*((lane+j) % 8)) := load_congr fun p low high => bytes p (by omega)
      rw [← moved]
      simp only [load,Nat.add_assoc]
    rw [ip _ 0 (by decide),ip _ 1 (by decide),scales (t*2^3+2*(lane/2^3)) (by omega),
      sums (t*2^3+2*(lane/2^3)) (by omega),scales (t*2^3+2*(lane/2^3)+1) (by omega),
      sums (t*2^3+2*(lane/2^3)+1) (by omega)]
  · rw [if_neg leader,if_neg leader]

end Rows

section Quantised
variable {K : Type} [Field K] [LinearOrder K] {x : Nat → K} {cols b : Nat}

theorem blockScale_row (whole : cols % 32 = 0) (g lane : Nat) :
    q8BlockScale x (b*(cols/32)+g) lane = q8BlockScale (fun c => x (b*cols+c)) g lane := by
  have start : b*(cols/32)*32 = b*cols := by rw [Nat.mul_assoc,Nat.div_mul_cancel (Nat.dvd_of_mod_eq_zero whole)]
  have place : ∀ lane,(b*(cols/32)+g)*32+lane = b*cols+(g*32+lane) := by
    intro lane
    rw [Nat.add_mul,start]
    omega
  simp only [q8BlockScale,place]

variable [FloorRing K]

theorem q8_32_row (whole : cols % 32 = 0) (p : Nat) : q8_32 x (b*cols+p) = q8_32 (fun c => x (b*cols+c)) p := by
  have start : b*cols = 32*(b*(cols/32)) := by
    rw [← Nat.mul_assoc,Nat.mul_comm 32 b,Nat.mul_assoc,Nat.mul_div_cancel' (Nat.dvd_of_mod_eq_zero whole)]
  have block : (b*cols+p)/32 = b*(cols/32)+p/32 := by
    rw [start]
    omega
  have lane : (b*cols+p) % 32 = p % 32 := by
    rw [start]
    omega
  simp only [q8_32,block,lane,blockScale_row whole]

-- The groups of row b lie after those of the rows before it, whatever was in the scratch.
theorem gpuQ4kDp4a_row {scratch scratch' : Scratch K} {w : Source K} {batch : Nat} (whole : cols % 256 = 0) (row : b < batch)
    (counts : batch*(cols/32) < 2^32) (r : Nat) : gpuQ4kDp4a scratch w x cols batch b r = gpuQ4kDp4a scratch' w (fun c => x (b*cols+c)) cols 1 0 r := by
  have part : cols % 32 = 0 := by omega
  have count : cols/32*32 = cols := Nat.div_mul_cancel (Nat.dvd_of_mod_eq_zero part)
  have inside : ∀ g < cols/32,b*(cols/32)+g < batch*(cols/32) := by
    intro g below
    have room := Nat.mul_le_mul_right (cols/32) (Nat.succ_le_of_lt row)
    rw [Nat.succ_mul] at room
    omega
  have alone : 1*(cols/32) < 2^32 := lt_of_le_of_lt (Nat.mul_le_mul_right _ (Nat.one_le_of_lt row)) counts
  unfold gpuQ4kDp4a
  rw [u32_of_lt counts,u32_of_lt alone]
  refine gemvQ4k_row whole (fun p below => ?_) (fun g below => ?_) (fun g below => ?_) r
  · have start : b*cols = 32*(b*(cols/32)) := by rw [← Nat.mul_assoc,Nat.mul_comm 32 b,Nat.mul_assoc,Nat.mul_comm 32,count]
    have block : (b*cols+p)/32 = b*(cols/32)+p/32 := by
      rw [start]
      omega
    have within := inside (p/32) (by omega)
    simp only [quantizeQ8_32Kernel]
    rw [if_pos (by omega),if_pos (by omega),q8_32_row part]
  · have within := inside g below
    simp only [quantizeQ8_32Kernel]
    rw [if_pos within,if_pos (by omega),blockScale_row part]
  · have within := inside g below
    have place : ∀ lane,(b*(cols/32)+g)*32+lane = b*cols+(g*32+lane) := by
      intro lane
      rw [Nat.add_mul,Nat.mul_assoc,count]
      omega
    simp only [quantizeQ8_32Kernel]
    rw [if_pos within,if_pos (by omega)]
    simp only [place,q8_32_row part]

end Quantised

-- A row is quantised when it comes alone and not in the batch.
def FallsBack (type batch cols : Nat) (trans : Bool) : Prop :=
  type = 8 ∧ trans = false ∧ cols % 32 = 0 ∧ 1 < batch ∧ dp4aFits cols = false
deriving Decidable

-- A grid's second direction holds 65535 blocks; block counts are u32, and so is mmvq's counter, which goes on by 16.
def Launches (type batch cols : Nat) : Prop :=
  batch ≤ 65535 ∧ (type = 8 → cols/32+16 ≤ 2^32) ∧ (type = 12 → batch*(cols/32) < 2^32)
deriving Decidable

def GpuAccepts (type nElement batch rows cols : Nat) : Prop :=
  0 < batch ∧ 0 < rows ∧ 0 < cols ∧ u64 (rows*cols) ≤ nElement ∧ type ∈ gpuTypes
deriving Decidable

section Agreement
variable {K : Type} [Field K] [LinearOrder K] [FloorRing K] {scratch scratch' : Scratch K} {w : Source K} {x : Nat → K}
  {type nElement batch rows cols b r : Nat} {trans : Bool}

theorem gpuMatmulDev_some (accepted : GpuAccepts type nElement batch rows cols) :
    gpuMatmulDev scratch type nElement w x batch rows cols trans = some (matmulLaunch scratch type w x rows cols batch trans) := by
  obtain ⟨some',tall,wide,fits,known⟩ := accepted
  unfold gpuMatmulDev
  rw [if_neg (by simp only [Bool.or_eq_true,decide_eq_true_eq]; omega),if_neg (by omega),if_neg (not_not_intro known)]

theorem mmvq_some (alone : batch = 1) (straight : trans = false) (tall : 0 < rows) (wide : 0 < cols) (whole : cols % 32 = 0)
    (counts : cols/32 < 2^32) :
    q8_0MmvqLaunch scratch w x rows cols batch trans =
      some fun r => matmulKernelQ8_0Mmvq w (quantizeQ8_0Kernel x (cols/32) scratch.q8X scratch.q8D).1
        (quantizeQ8_0Kernel x (cols/32) scratch.q8X scratch.q8D).2 cols r := by
  unfold q8_0MmvqLaunch
  rw [u32_of_lt counts,if_neg]
  simp only [straight,alone,whole,Bool.or_eq_true,decide_eq_true_eq]
  simp
  omega

theorem mmvq_none (other : batch ≠ 1 ∨ trans = true ∨ cols % 32 ≠ 0) :
    q8_0MmvqLaunch scratch w x rows cols batch trans = none := by
  unfold q8_0MmvqLaunch
  rw [if_pos]
  simp only [Bool.or_eq_true,decide_eq_true_eq]
  tauto

theorem q8_0_row [IsStrictOrderedRing K] (counts : cols/32 < 2^32) (tall : 0 < rows) (wide : 0 < cols) (row : b < batch)
    (stays : ¬ FallsBack 8 batch cols trans) : matmulLaunch scratch 8 w x rows cols batch trans b r =
      matmulLaunch scratch' 8 w (fun c => x (b*cols+c)) rows cols 1 trans 0 r := by
  simp only [matmulLaunch]
  by_cases shape : trans = false ∧ cols % 32 = 0
  · obtain ⟨straight,whole⟩ := shape
    rw [mmvq_some (show 1 = 1 from rfl) straight tall wide whole counts]
    by_cases alone : batch = 1
    · rw [mmvq_some alone straight tall wide whole counts]
      have only : b = 0 := by omega
      subst only
      simp only [Nat.zero_mul,Nat.zero_add]
      exact mmvq_scratch w x _ _ _ _ counts r
    · rw [mmvq_none (.inl alone)]
      have quantised : dp4aFits cols = true := by
        by_contra falls
        exact stays ⟨rfl,straight,whole,by omega,by simpa using falls⟩
      have even : cols % 128 = 0 := by
        unfold dp4aFits at quantised
        simp only [Bool.and_eq_true,decide_eq_true_eq] at quantised
        exact quantised.1
      simp only [straight,quantised,Bool.not_false,Bool.and_self,if_true]
      exact q8_0_rows_agree w x _ _ even counts b r
  · have other : trans = true ∨ cols % 32 ≠ 0 := by
      cases trans
      · exact .inr fun whole => shape ⟨rfl,whole⟩
      · exact .inl rfl
    rw [mmvq_none (.inr other),mmvq_none (.inr other)]
    dsimp only
    rw [dp4a_row,generic_row]

theorem launch_row [IsStrictOrderedRing K] (launches : Launches type batch cols) (tall : 0 < rows) (wide : 0 < cols) (row : b < batch)
    (stays : ¬ FallsBack type batch cols trans) : matmulLaunch scratch type w x rows cols batch trans b r =
      matmulLaunch scratch' type w (fun c => x (b*cols+c)) rows cols 1 trans 0 r := by
  by_cases q8 : type = 8
  · subst q8
    exact q8_0_row (by have := launches.2.1 rfl; omega) tall wide row stays
  by_cases iq4 : type = 20
  · subst iq4
    simp only [matmulLaunch]
    rw [gemvIq4Nl_row,generic_row]
  by_cases q4k : type = 12
  · subst q4k
    simp only [matmulLaunch]
    split
    · next kernel =>
      refine gpuQ4kDp4a_row ?_ row (launches.2.2 rfl) r
      simp only [Bool.and_eq_true,decide_eq_true_eq] at kernel
      exact kernel.2
    · exact generic_row _ _ _ _
  · have plain : ∀ (s : Scratch K) (y : Nat → K) (n b : Nat),
        matmulLaunch s type w y rows cols n trans b r = matmulGeneric type w y rows cols trans b r := by
      intro s y n b
      unfold matmulLaunch
      split <;> first | contradiction | rfl
    rw [plain,plain,generic_row]

end Agreement

-- An activation whose second entry rounds to zero, against a payload that reads only it.
section Stray
variable {K : Type} [Field K]

def stray (c : Nat) : K := if c = 0 then 127 else if c = 1 then 1/4 else 0

def strayData (p : Nat) : UInt8 := if p = 1 then 0x3C else if p = 3 then 1 else 0

theorem stray_plain {s : Source K} {cols : Nat} (one : s.f16 0x3C00 = 1) (wide : 1 < cols) :
    matmulKernelNontrans 8 {s with data := strayData} stray cols 0 0 = 1/4 := by
  have total : matmulKernelNontrans 8 {s with data := strayData} stray cols 0 0 =
      ∑ c ∈ Finset.range cols,dequantOneT 8 {s with data := strayData} c*stray c := by
    unfold matmulKernelNontrans
    simp only [warpTotal_eq,strided_sum,Nat.zero_mul,zero_add]
    exact sum_strides (by decide) _ fun c => dequantOneT 8 {s with data := strayData} c*stray c
  have header : s.f16 (load 2 strayData 0) = 1 := one
  rw [total,Finset.sum_eq_single 1]
  · have weight : dequantOneT 8 {s with data := strayData} 1 = 1 := by
      rw [dequantOneT_host]
      change (signed 8 (strayData 3).toNat : K)*s.f16 (load 2 strayData 0) = 1
      have byte : signed 8 (strayData 3).toNat = 1 := rfl
      rw [header,byte,Int.cast_one,one_mul]
    rw [weight]
    norm_num [stray]
  · intro c _ other
    by_cases start : c = 0
    · subst start
      have weight : dequantOneT 8 {s with data := strayData} 0 = 0 := by
        rw [dequantOneT_host]
        change (signed 8 (strayData 2).toNat : K)*s.f16 (load 2 strayData 0) = 0
        have byte : signed 8 (strayData 2).toNat = 0 := rfl
        rw [byte,Int.cast_zero,zero_mul]
      rw [weight,zero_mul]
    · rw [stray,if_neg start,if_neg other,mul_zero]
  · intro out
    exact absurd (Finset.mem_range.mpr wide) out

variable [LinearOrder K] [IsStrictOrderedRing K]

theorem stray_scale : rowBlockScale (stray : Nat → K) 0 = 1 := by
  have most : Nat.fold 32 (fun k _ amax => max amax |(stray (0*32+k) : K)|) 0 = 127 := by
    refine eq_of_forall_ge_iff fun c => ?_
    rw [fold_max_le (fun k => |(stray (0*32+k) : K)|)]
    constructor
    · rintro ⟨_,all⟩
      have first' := all 0 (by decide)
      simpa [stray] using first'
    · intro large
      have positive : (0 : K) ≤ c := le_trans (by norm_num) large
      refine ⟨positive,fun k _ => ?_⟩
      unfold stray
      split
      · simpa using large
      · split
        · rw [abs_of_nonneg (by norm_num)]
          exact le_trans (by norm_num) large
        · simpa using positive
  rw [rowBlockScale,most]
  norm_num

variable [FloorRing K]

theorem rounded_zero {v : K} (low : 0 ≤ v) (small : v < 1/2) : float2intRn v = 0 := by
  have floor : ⌊v⌋ = 0 := by
    rw [Int.floor_eq_zero_iff]
    exact ⟨low,lt_trans small (by norm_num)⟩
  unfold float2intRn
  dsimp only
  rw [floor,Int.cast_zero,sub_zero,if_pos small]

theorem stray_byte {p : Nat} (later : 0 < p) :
    i8Byte (float2intRn ((stray p : K)*inverseScale (rowBlockScale stray (p/32)))) = 0 := by
  have rounded : float2intRn ((stray p : K)*inverseScale (rowBlockScale stray (p/32))) = 0 := by
    refine rounded_zero ?_ ?_
    all_goals
      unfold stray
      rw [if_neg (by omega)]
      split
      · next second =>
        subst second
        have scale := stray_scale (K:=K)
        unfold stray at scale
        simp only [Nat.reduceDiv,scale,inverseScale]
        norm_num
      · norm_num
  rw [rounded]
  decide

theorem stray_quantised {s : Source K} {cols : Nat} (qs : Mem) (ds : Nat → K) (counts : cols/32 < 2^32) :
    matmulKernelQ8_0Mmvq {s with data := strayData} (quantizeQ8_0Kernel stray (cols/32) qs ds).1
      (quantizeQ8_0Kernel stray (cols/32) qs ds).2 cols 0 = 0 := by
  rw [mmvq_eq _ _ _ counts,Nat.shiftRight_eq_div_pow cols]
  refine Finset.sum_eq_zero fun b member => Finset.sum_eq_zero fun l small => ?_
  unfold q8_0MmvqBlock
  rw [quantised_word _ qs ds (Finset.mem_range.mp member) (Finset.mem_range.mp small)]
  have still : dp4a (load 4 strayData (((0*cols) >>> 5+b)*34+2+4*l))
      (load 4 (fun p => i8Byte (float2intRn ((stray p : K)*inverseScale (rowBlockScale stray (p/32))))) (b*32+4*l)) 0 = 0 := by
    rw [dp4a_load]
    refine Finset.sum_eq_zero fun k _ => ?_
    by_cases start : b*32+4*l+k = 0
    · have here : ((0*cols) >>> 5+b)*34+2+4*l+k = 2 := by
        rw [Nat.zero_mul,Nat.zero_shiftRight]
        omega
      rw [here]
      exact Int.zero_mul _
    · rw [stray_byte (Nat.pos_of_ne_zero start)]
      exact Int.mul_zero _
  dsimp only
  rw [ldU32_load,still,Int.cast_zero,zero_mul]

end Stray

section Claim
variable {K : Type} [Field K] [LinearOrder K] [FloorRing K] [IsStrictOrderedRing K]

-- Where the batch falls back, its first row is 1/4 and the row alone 0.
theorem stray_differs {s : Source K} {type rows cols batch : Nat} {trans : Bool} (scratch : Scratch K) (counts : cols/32 < 2^32)
    (one : s.f16 0x3C00 = 1) (tall : 0 < rows) (wide : 0 < cols) (falls : FallsBack type batch cols trans) :
    matmulLaunch scratch type {s with data := strayData} stray rows cols batch trans 0 0 = 1/4 ∧
      matmulLaunch scratch type {s with data := strayData} stray rows cols 1 trans 0 0 = 0 := by
  obtain ⟨rfl,rfl,whole,several,plain⟩ := falls
  have wider : 1 < cols := by omega
  refine ⟨?_,?_⟩
  · simp only [matmulLaunch]
    rw [mmvq_none (.inl (by omega))]
    simp only [plain,Bool.and_false,Bool.false_eq_true,if_false,matmulGeneric]
    simpa using stray_plain one wider
  · simp only [matmulLaunch]
    rw [mmvq_some rfl rfl tall wide whole counts]
    exact stray_quantised _ _ counts

-- 0x3C00 is the half-precision 1.
theorem rows_agree_iff {s : Source K} {type nElement batch rows cols : Nat} {trans : Bool} (one : s.f16 0x3C00 = 1)
    (accepted : GpuAccepts type nElement batch rows cols) (launches : Launches type batch cols) :
    (∀ (data : Mem) (scratch scratch' : Scratch K) (x : Nat → K),∀ b < batch,∀ r < rows,
      (gpuMatmulDev scratch type nElement {s with data} x batch rows cols trans).map (fun y => y b r) =
        (gpuMatmulDev scratch' type nElement {s with data} (fun c => x (b*cols+c)) 1 rows cols trans).map (fun y => y 0 r)) ↔
      ¬ FallsBack type batch cols trans := by
  obtain ⟨some',tall,wide,fits,known⟩ := accepted
  have batched : GpuAccepts type nElement batch rows cols := ⟨some',tall,wide,fits,known⟩
  have alone : GpuAccepts type nElement 1 rows cols := ⟨one_pos,tall,wide,fits,known⟩
  refine ⟨fun agree falls => ?_,fun stays data scratch scratch' x b row r _ => ?_⟩
  · have scratch : Scratch K := ⟨fun _ => 0,fun _ => 0,fun _ => 0,fun _ => 0,fun _ => 0⟩
    have same := agree strayData scratch scratch stray 0 some' 0 tall
    obtain ⟨plain,quantised⟩ := stray_differs scratch (by have := launches.2.1 falls.1; omega) one tall wide falls
    simp only [gpuMatmulDev_some batched,gpuMatmulDev_some alone,Nat.zero_mul,Nat.zero_add,Option.map_some,plain,quantised,
      Option.some.injEq] at same
    norm_num at same
  · rw [gpuMatmulDev_some batched,gpuMatmulDev_some alone,Option.map_some,Option.map_some,launch_row launches tall wide row stays]

end Claim

-- Q8_0 blocks of scale 1; of binary16 as much as the examples need.
def exactOne : Source ℚ :=
  ⟨fun p => if p % 34 = 0 then 0 else if p % 34 = 1 then 0x3C else UInt8.ofNat (p % 7+1),
    fun h => if h = 0x3C00 then 1 else h % 5+1,fun _ => 1,fun _ => 1,fun _ index => index+1⟩

def emptyScratch : Scratch ℚ := ⟨fun _ => 0,fun _ => 0,fun _ => 0,fun _ => 0,fun _ => 0⟩

theorem evenRows_agree : (gpuMatmulDev emptyScratch 8 384 exactOne (fun j => (j : ℚ)) 2 3 128 false).map (fun y => y 1 2) =
    (gpuMatmulDev emptyScratch 8 384 exactOne (fun c => ((1*128+c : Nat) : ℚ)) 1 3 128 false).map (fun y => y 0 2) :=
  (rows_agree_iff (s:=exactOne) (rfl : exactOne.f16 0x3C00 = 1) (by decide) (by decide)).mpr (by decide) exactOne.data emptyScratch emptyScratch
    (fun j => (j : ℚ)) 1 (by decide) 2 (by decide)

-- One row of 32 Q8_0 weights: alone 0, as the first of two 1/4.
theorem narrowRows_differ : ¬ ∀ (type nElement batch rows cols : Nat) (trans : Bool) (w : Source ℚ) (scratch : Scratch ℚ)
    (x : Nat → ℚ),∀ b < batch,∀ r < rows,
    (gpuMatmulDev scratch type nElement w x batch rows cols trans).map (fun y => y b r) =
      (gpuMatmulDev scratch type nElement w (fun c => x (b*cols+c)) 1 rows cols trans).map (fun y => y 0 r) := by
  intro agree
  have same := agree 8 32 2 1 32 false {exactOne with data := strayData} emptyScratch stray 0 two_pos 0 one_pos
  have falls : FallsBack 8 2 32 false := by decide
  obtain ⟨plain,quantised⟩ := stray_differs emptyScratch (s:=exactOne) (by decide) rfl (one_pos : 0 < 1) (by decide : 0 < 32) falls
  rw [gpuMatmulDev_some (by decide),gpuMatmulDev_some (by decide)] at same
  simp only [Nat.zero_mul,Nat.zero_add,Option.map_some,plain,quantised,Option.some.injEq] at same
  norm_num at same

end TinyLlama.Gpu
