import TinyLlama.Gpu.Batches
import TinyLlama.Gpu.Elements
import TinyLlama.Gpu.Uploads
import TinyLlama.Lib.Cells
import TinyLlama.Lib.Grid

namespace TinyLlama.Gpu
open Quants Memory Bits Access Warp Sweep Grid Gguf
open Device (ldF16)

inductive FloatKernel where
  | block | iq4Nl | nontrans | trans
deriving Repr,DecidableEq

def genericRoute (type cols : Nat) (trans : Bool) : FloatKernel :=
  if (qt type).1 > 0 && type ≠ 8 && !trans && cols % (qt type).1 = 0 then .block
  else if trans then .trans
  else .nontrans

-- The kernel matmul_launch takes, where it is none of those on quantised activations.
def matmulRoute (type rows cols batch : Nat) (trans : Bool) : Option FloatKernel :=
  match type with
  | 8 =>
    if !(trans || batch ≠ 1 || rows = 0 || cols = 0 || cols % 32 ≠ 0) then none
    else if !trans && dp4aFits cols then none
    else some (genericRoute 8 cols trans)
  | 20 => if !trans && cols % 32 = 0 then some .iq4Nl else some (genericRoute 20 cols trans)
  | 12 => if !trans && cols % 256 = 0 then none else some (genericRoute 12 cols trans)
  | type => some (genericRoute type cols trans)

namespace FloatKernel

def gpuMaxBlocks : Nat := 65535

-- The launcher's grid: blocks of eight warps, the transposed kernel's of 256 threads.
def grid (k : FloatKernel) (rows : Nat) : Nat :=
  match k with
  | .block => min ((rows+7)/8) gpuMaxBlocks
  | .iq4Nl => min ((rows+31)/32) gpuMaxBlocks
  | .nontrans => (rows+7)/8
  | .trans => (rows+255)/256

-- A grid-stride kernel needs a block, the others one warp (or thread) for each row.
def Covers (k : FloatKernel) (gx rows : Nat) : Prop :=
  match k with
  | .block | .iq4Nl => 0 < gx
  | .nontrans => rows ≤ gx*8
  | .trans => rows ≤ gx*256

def order (k : FloatKernel) (gx rows : Nat) : List Nat :=
  match k with
  | .block => gridStride gx 8 rows
  | .iq4Nl => gridGroups gx 8 4 rows
  | .nontrans => gridOnce gx 8 rows
  | .trans => gridOnce gx 256 rows

variable {K : Type} [Field K]

def value (k : FloatKernel) (type : Nat) (w : Source K) (x : Nat → K) (rows cols b r : Nat) : K :=
  match k with
  | .block => gemvBlockKernel type w x cols b r
  | .iq4Nl => gemvIq4NlKernel w x cols b r
  | .nontrans => matmulKernelNontrans type w x cols b r
  | .trans => matmulKernelTrans type w x rows cols b r

def launch (k : FloatKernel) (type : Nat) (w : Source K) (x : Nat → K) (rows cols batch gx : Nat) : List (Nat × K) :=
  gridWrites batch rows (k.order gx rows) (k.value type w x rows cols)

end FloatKernel

section Coverage

theorem grid_covers (k : FloatKernel) {rows : Nat} (tall : 0 < rows) : k.Covers (k.grid rows) rows := by
  cases k <;> simp only [FloatKernel.Covers,FloatKernel.grid,FloatKernel.gpuMaxBlocks] <;> omega

theorem order_perm {k : FloatKernel} {gx rows : Nat} (covers : k.Covers gx rows) : (k.order gx rows).Perm (List.range rows) := by
  cases k with
  | block => exact gridStride_perm covers (by decide) rows
  | iq4Nl => exact gridGroups_perm covers (by decide) (by decide) rows
  | nontrans => exact (gridOnce_eq covers).symm ▸ List.Perm.refl _
  | trans => exact (gridOnce_eq covers).symm ▸ List.Perm.refl _

end Coverage

section Products
variable {K : Type} [Field K] {w : Source K} {x : Nat → K} {rows cols b r : Nat}

def weightIndex (rows cols : Nat) (trans : Bool) (r c : Nat) : Nat := if trans then c*rows+r else r*cols+c

def decodedProduct (type : Nat) (w : Source K) (x : Nat → K) (rows cols : Nat) (trans : Bool) (b r : Nat) : K :=
  ∑ c ∈ Finset.range cols,dequantOneT type w (weightIndex rows cols trans r c)*x (b*cols+c)

theorem fold_add (n : Nat) (d : Nat → K) (s : K) : n.fold (fun t _ sum => sum+d t) s = s+∑ t ∈ Finset.range n,d t :=
  fold_total (m:=fun s => s) (fun _ _ _ => rfl) s

theorem nontrans_exact (type : Nat) :
    matmulKernelNontrans type w x cols b r = decodedProduct type w x rows cols false b r := by
  unfold matmulKernelNontrans decodedProduct
  simp only [warpTotal_eq,strided_sum,zero_add]
  exact sum_strides (by decide) cols fun c => dequantOneT type w (r*cols+c)*x (b*cols+c)

theorem trans_exact (type : Nat) :
    matmulKernelTrans type w x rows cols b r = decodedProduct type w x rows cols true b r := by
  unfold matmulKernelTrans
  dsimp only
  rw [fold_add,zero_add]
  rfl

theorem block_place {width : Nat} (whole : cols % width = 0) (t o : Nat) :
    (r*cols/width+t)*width+o = r*cols+(t*width+o) := by
  have row : r*cols/width*width = r*cols :=
    Nat.div_mul_cancel (Dvd.dvd.mul_left (Nat.dvd_of_mod_eq_zero whole) r)
  rw [Nat.add_mul,row]
  omega

theorem ept_split (type : Nat) : 32*ept type = (qt type).1 := by
  unfold ept qt
  split <;> rfl

theorem gemvBlock_exact {type : Nat} (known : 0 < (qt type).1) (whole : cols % (qt type).1 = 0) :
    gemvBlockKernel type w x cols b r = decodedProduct type w x rows cols false b r := by
  set qk := (qt type).1 with width
  have split : 32*ept type = qk := ept_split type
  have lanes : ∀ lane ∈ Finset.range 32,(cols/qk).fold (fun t _ sum =>
      (ept type).fold (fun j _ sum => sum+blkElem type w ((r*cols/qk+t)*(qt type).2) lane j
        (blkScale type w ((r*cols/qk+t)*(qt type).2) lane)*x (b*cols+(t*qk+lane*ept type+j))) sum) 0 =
      ∑ t ∈ Finset.range (cols/qk),∑ j ∈ Finset.range (ept type),
        dequantOneT type w (r*cols+(t*qk+(lane*ept type+j)))*x (b*cols+(t*qk+(lane*ept type+j))) := by
    intro lane member
    simp only [fold_add]
    rw [zero_add]
    refine Finset.sum_congr rfl fun t _ => Finset.sum_congr rfl fun j inside => ?_
    rw [blkElem_exact w _ known (Finset.mem_range.mp member) (Finset.mem_range.mp inside),← width,block_place whole,
      Nat.add_assoc]
  unfold gemvBlockKernel decodedProduct
  dsimp only
  rw [← width,warpTotal_eq,Finset.sum_congr rfl lanes,Finset.sum_comm]
  have block : ∀ t,∑ lane ∈ Finset.range 32,∑ j ∈ Finset.range (ept type),
      dequantOneT type w (r*cols+(t*qk+(lane*ept type+j)))*x (b*cols+(t*qk+(lane*ept type+j))) =
      ∑ o ∈ Finset.range qk,dequantOneT type w (r*cols+(t*qk+o))*x (b*cols+(t*qk+o)) := by
    intro t
    rw [sum_stride 32 (ept type) fun o => dequantOneT type w (r*cols+(t*qk+o))*x (b*cols+(t*qk+o)),split]
  rw [Finset.sum_congr rfl fun t _ => block t,
    sum_stride (cols/qk) qk fun c => dequantOneT type w (r*cols+c)*x (b*cols+c),
    Nat.div_mul_cancel (Nat.dvd_of_mod_eq_zero whole)]
  rfl

theorem sum_quads (f : Nat → K) : ∑ l ∈ Finset.range 8,(f (2*l)+f (16+2*l)+f (2*l+1)+f (16+2*l+1)) =
    ∑ o ∈ Finset.range 32,f o := by
  simp only [Finset.sum_range_succ,Finset.sum_range_zero,Nat.reduceMul,Nat.reduceAdd]
  ring

theorem gemvIq4Nl_exact (whole : cols % 32 = 0) :
    gemvIq4NlKernel w x cols b r = decodedProduct 20 w x rows cols false b r := by
  have shifts : ∀ n : Nat,n >>> 5 = n/32 := fun n => Nat.shiftRight_eq_div_pow n 5
  have lane : ∀ t,∀ l ∈ Finset.range 8,ldF16 w ((r*cols/32+t)*18)*
      (w.entry .iq4NlValues (byte w ((r*cols/32+t)*18+(2+2*l)) &&& 0xF)*x (b*cols+(t*32+2*l))+
        w.entry .iq4NlValues (byte w ((r*cols/32+t)*18+(2+2*l)) >>> 4)*x (b*cols+(t*32+(16+2*l)))+
        w.entry .iq4NlValues (byte w ((r*cols/32+t)*18+(2+2*l+1)) &&& 0xF)*x (b*cols+(t*32+(2*l+1)))+
        w.entry .iq4NlValues (byte w ((r*cols/32+t)*18+(2+2*l+1)) >>> 4)*x (b*cols+(t*32+(16+2*l+1)))) =
      let f o := (ggufDequant 20 (r*cols+(t*32+o))).value w*x (b*cols+(t*32+o))
      f (2*l)+f (16+2*l)+f (2*l+1)+f (16+2*l+1) := by
    intro t l member
    have below := Finset.mem_range.mp member
    have decoded : ∀ o < 32,(ggufDequant (K:=K) 20 (r*cols+(t*32+o))).value w =
        ldF16 w ((r*cols/32+t)*18)*w.entry .iq4NlValues (nibble w ((r*cols/32+t)*18+2) o) := by
      intro o small
      rw [← block_place whole,← value_f16At]
      exact value_dequantIq4Nl w _ small
    dsimp only
    rw [decoded _ (by omega),decoded _ (by omega),decoded _ (by omega),decoded _ (by omega)]
    have first' : ∀ p,nibble w p (2*l) = byte w (p+2*l) % 16 := fun p => if_pos (by omega)
    have second' : ∀ p,nibble w p (2*l+1) = byte w (p+(2*l+1)) % 16 := fun p => if_pos (by omega)
    have third' : ∀ p,nibble w p (16+2*l) = byte w (p+2*l)/16 := fun p => by
      rw [nibble,if_neg (by omega),show 16+2*l-16 = 2*l by omega]
    have fourth' : ∀ p,nibble w p (16+2*l+1) = byte w (p+(2*l+1))/16 := fun p => by
      rw [nibble,if_neg (by omega),show 16+2*l+1-16 = 2*l+1 by omega]
    simp only [first',second',third',fourth']
    simp only [and_fifteen,Nat.shiftRight_eq_div_pow,Nat.add_assoc,Nat.reducePow]
    ring
  unfold gemvIq4NlKernel decodedProduct
  dsimp only
  rw [reduceDown_zero (k:=3) _ (by decide)]
  simp only [fold_add,shifts]
  rw [Finset.sum_congr rfl fun l member => by rw [zero_add,Finset.sum_congr rfl fun t _ => lane t l member],Finset.sum_comm]
  dsimp only
  rw [show (2 : Nat)^3 = 8 from rfl,
    Finset.sum_congr rfl fun t _ => sum_quads fun o => (ggufDequant 20 (r*cols+(t*32+o))).value w*x (b*cols+(t*32+o)),
    sum_stride (cols/32) 32 fun c => (ggufDequant 20 (r*cols+c)).value w*x (b*cols+c),
    Nat.div_mul_cancel (Nat.dvd_of_mod_eq_zero whole)]
  exact Finset.sum_congr rfl fun c _ => by rw [dequantOneT_host]; rfl

end Products

section Routes
variable {K : Type} [Field K] {w : Source K} {x : Nat → K} {type rows cols batch gx : Nat} {trans : Bool} {k : FloatKernel}

theorem genericRoute_exact (b r : Nat) : (genericRoute type cols trans).value type w x rows cols b r =
    decodedProduct type w x rows cols trans b r := by
  unfold genericRoute
  split
  · next shape =>
    simp only [Bool.and_eq_true,decide_eq_true_eq,Bool.not_eq_true'] at shape
    obtain ⟨⟨⟨known,_⟩,straight⟩,whole⟩ := shape
    rw [straight]
    exact gemvBlock_exact known whole
  · cases trans with
    | false => exact nontrans_exact type
    | true => exact trans_exact type

theorem route_exact (route : matmulRoute type rows cols batch trans = some k) (b r : Nat) :
    k.value type w x rows cols b r = decodedProduct type w x rows cols trans b r := by
  unfold matmulRoute at route
  split at route
  · split at route
    · cases route
    · split at route
      · cases route
      · cases route
        exact genericRoute_exact b r
  · split at route
    · next shape =>
      cases route
      simp only [Bool.and_eq_true,decide_eq_true_eq,Bool.not_eq_true'] at shape
      rw [shape.1]
      exact gemvIq4Nl_exact shape.2
    · cases route
      exact genericRoute_exact b r
  · split at route
    · cases route
    · cases route
      exact genericRoute_exact b r
  · cases route
    exact genericRoute_exact b r

theorem generic_route [LinearOrder K] [FloorRing K] (b r : Nat) : matmulGeneric type w x rows cols trans b r =
    (genericRoute type cols trans).value type w x rows cols b r := by
  unfold matmulGeneric genericRoute
  split
  · rfl
  · split <;> rfl

theorem matmulLaunch_generic [LinearOrder K] [FloorRing K] {scratch : Scratch K} (q8 : type ≠ 8) (iq4 : type ≠ 20) (q4k : type ≠ 12)
    (b r : Nat) : matmulLaunch scratch type w x rows cols batch trans b r = matmulGeneric type w x rows cols trans b r := by
  unfold matmulLaunch
  split <;> first | contradiction | rfl

theorem matmulLaunch_route [LinearOrder K] [FloorRing K] {scratch : Scratch K}
    (route : matmulRoute type rows cols batch trans = some k) (b r : Nat) :
    matmulLaunch scratch type w x rows cols batch trans b r = k.value type w x rows cols b r := by
  unfold matmulRoute at route
  split at route
  · split at route
    · cases route
    · next refused =>
      have none' : q8_0MmvqLaunch scratch w x rows cols batch trans = none :=
        if_pos (by simpa only [Bool.not_eq_true,Bool.not_eq_false'] using refused)
      simp only [matmulLaunch,none']
      split at route
      · cases route
      · next gate =>
        cases route
        rw [if_neg gate]
        exact generic_route b r
  · split at route
    · next gate =>
      cases route
      exact if_pos gate
    · next gate =>
      cases route
      exact (if_neg gate).trans (generic_route b r)
  · split at route
    · cases route
    · next gate =>
      cases route
      exact (if_neg gate).trans (generic_route b r)
  · next q8 iq4 q4k =>
    cases route
    exact (matmulLaunch_generic q8 iq4 q4k b r).trans (generic_route b r)

theorem weightIndex_lt {r c : Nat} (tall : r < rows) (wide : c < cols) : weightIndex rows cols trans r c < rows*cols := by
  unfold weightIndex
  split
  · rw [Nat.mul_comm rows]
    exact Cells.row_below wide tall
  · exact Cells.row_below tall wide

theorem weightIndex_onto (trans : Bool) {i : Nat} (inside : i < rows*cols) : ∃ r < rows,∃ c < cols,weightIndex rows cols trans r c = i := by
  have tall : 0 < rows := Nat.pos_of_mul_pos_right (Nat.zero_lt_of_lt inside)
  have wide : 0 < cols := Nat.pos_of_mul_pos_left (Nat.zero_lt_of_lt inside)
  cases trans with
  | false => exact ⟨i/cols,Nat.div_lt_of_lt_mul (by rwa [Nat.mul_comm]),i % cols,Nat.mod_lt _ wide,Nat.div_add_mod' i cols⟩
  | true => exact ⟨i % rows,Nat.mod_lt _ tall,i/rows,Nat.div_lt_of_lt_mul inside,Nat.div_add_mod' i rows⟩

theorem decodedProduct_single (w : Source K) (rows : Nat) {r c : Nat} (inside : c < cols) :
    decodedProduct type w (fun j => if j = c then 1 else 0) rows cols trans 0 r =
      (ggufDequant type (weightIndex rows cols trans r c)).value w := by
  unfold decodedProduct
  rw [Finset.sum_eq_single c,Nat.zero_mul,Nat.zero_add,dequantOneT_host]
  · simp only [if_true,mul_one]
  · intro j _ other
    simp only [Nat.zero_mul,Nat.zero_add,if_neg other,mul_zero]
  · intro out
    exact absurd (Finset.mem_range.mpr inside) out

variable {info : GGUFTypeInfo} {blocks : Nat} {host dev : Source K}

theorem upload_decodes (known : tensorType type = some info) (up : Uploaded (blocks*info.blockBytes) host dev)
    (reach : UploadReaches type blocks count) (below : i < count) : dequantOneT type dev i = (ggufDequant type i).value host := by
  rw [dequantOneT_host]
  exact ggufDequant_copied type i _ host dev up (ggufDequant_carried host known reach below)

theorem block_decodes (known : tensorType type = some info) (up : Uploaded (blocks*info.blockBytes) host dev)
    (wide : 0 < (qt type).1) {bi o : Nat} (uploaded : bi < blocks) (inner : o < (qt type).1) :
    dequantOneT type dev (bi*(qt type).1+o) = (ggufDequant type (bi*(qt type).1+o)).value host := by
  have shape : type ∉ [17,18,21,22,23] ∧ type ≠ 29 ∧ info.blockElems = (qt type).1 := by
    have small := tensorType_lt known
    interval_cases type <;> first | exact absurd wide (by decide) | (cases known; decide)
  obtain ⟨plain,half,elems⟩ := shape
  rw [dequantOneT_host]
  refine ggufDequant_copied type _ _ host dev up fun t touched => inBlock_carried (i:=bi*(qt type).1+o) ?_ ?_
  · rw [elems,Nat.mul_comm,Nat.mul_add_div wide,Nat.div_eq_of_lt inner]
    exact uploaded
  · exact (ggufDequant_inside_iff host type _ info known).mpr ⟨plain,fun same => absurd same half⟩ t touched

end Routes

end TinyLlama.Gpu
