import Mathlib
import TinyLlama.Lib.Warp
import TinyLlama.Machine
import TinyLlama.Gpu.Decoders

-- The kernels behind gpu_matmul_dev: each is the value it writes to y[b*rows + r].
namespace TinyLlama.Gpu
open Quants Memory Bits Warp
open Device (ldU32 ldF16 ldF32 ldI8)

section Device
variable {K : Type} [Field K]

def dp4a (a b : Nat) (c : Int) : Int :=
  let byte (v k : Nat) : Int := signed 8 (v >>> (8*k) &&& 0xFF)
  byte a 0*byte b 0+byte a 1*byte b 1+byte a 2*byte b 2+byte a 3*byte b 3+c

-- Sums the registers of a warp; lane 0 has the total.
def warpTotal (v : Nat → K) : K := reduceDown 32 5 v 0

def matmulKernelNontrans (type : Nat) (w : Source K) (x : Nat → K) (cols b r : Nat) : K :=
  let xr c := x (b*cols+c)
  warpTotal fun lane => strided lane 32 cols (fun c sum => sum+dequantOneT type w (r*cols+c)*xr c) 0

def matmulKernelTrans (type : Nat) (w : Source K) (x : Nat → K) (rows cols b idx : Nat) : K :=
  let xr c := x (b*cols+c)
  cols.fold (fun c _ sum => sum+dequantOneT type w (c*rows+idx)*xr c) 0

-- Elements and bytes of a quant block; 0 for the types without blocks and for those the
-- block kernel does not know.
def qt : Nat → Nat × Nat
  | 2 => (32,18)
  | 3 => (32,20)
  | 6 => (32,22)
  | 7 => (32,24)
  | 8 => (32,34)
  | 9 => (32,40)
  | 10 => (256,84)
  | 11 => (256,110)
  | 12 => (256,144)
  | 13 => (256,176)
  | 14 => (256,210)
  | 15 => (256,292)
  | _ => (0,0)

def ept (type : Nat) : Nat := (qt type).1/32

structure BlkS (K : Type) where
  v0 : K
  v1 : K
  v2 : K
  v3 : K

-- The header of the block at blk, for the elements the lane owns.
def blkScale (type : Nat) (w : Source K) (blk lane : Nat) : BlkS K :=
  let o0 := lane*ept type
  match type with
  | 12 | 13 =>
    let (sc,mn) := Device.q4kScaleMin w (blk+4) (o0 >>> 5)
    ⟨ldF16 w blk,ldF16 w (blk+2),(sc : K),(mn : K)⟩
  | 14 => ⟨ldF16 w (blk+208),(ldI8 w (blk+(192+(o0 >>> 4))) : K),0,0⟩
  | 15 => ⟨ldF32 w blk,ldF16 w (blk+(4+2*(o0 >>> 4))),0,0⟩
  | 10 =>
    let sb := o0 >>> 4
    let sc := byte w (blk+(64+(sb >>> 1)))
    let sc := if sb &&& 1 ≠ 0 then sc >>> 4 else sc &&& 0xF
    ⟨ldF16 w (blk+80),ldF16 w (blk+82),(sc : K),0⟩
  | 11 =>
    let t := o0 >>> 4
    let scLow := (byte w (blk+(96+(t &&& 7))) >>> (if t ≥ 8 then 4 else 0)) &&& 0xF
    let scHigh := (byte w (blk+(104+(t &&& 3))) >>> ((t >>> 2)*2)) &&& 0x3
    ⟨ldF16 w (blk+108),(((scLow ||| (scHigh <<< 4) : Nat) : Int)-32 : Int),0,0⟩
  | 8 | 2 | 6 => ⟨ldF16 w blk,0,0,0⟩
  | 3 | 7 => ⟨ldF16 w blk,ldF16 w (blk+2),0,0⟩
  | 9 => ⟨ldF32 w blk,0,0,0⟩
  | _ => ⟨0,0,0,0⟩

def blkElem (type : Nat) (w : Source K) (blk lane j : Nat) (s : BlkS K) : K :=
  let o := lane*ept type+j
  match type with
  | 12 =>
    let q := (byte w (blk+(16+(lane >>> 3)*32+(8*(lane &&& 3)+j))) >>> (((lane >>> 2) &&& 1)*4)) &&& 0xF
    s.v0*s.v2*(q : K)-s.v1*s.v3
  | 13 =>
    let bc := 8*(lane &&& 3)+j
    let lo := (byte w (blk+(48+(lane >>> 3)*32+bc)) >>> (((lane >>> 2) &&& 1)*4)) &&& 0xF
    let hi := (byte w (blk+(16+bc)) >>> (lane >>> 2)) &&& 1
    s.v0*s.v2*((lo ||| (hi <<< 4) : Nat) : K)-s.v1*s.v3
  | 14 =>
    let m := lane &&& 15
    let which := m >>> 2
    let l := 8*(m &&& 3)+j
    let ql := byte w (blk+(64*(lane >>> 4)+((which &&& 1) <<< 5)+l))
    let lo := if which ≥ 2 then (ql >>> 4) &&& 0xF else ql &&& 0xF
    let hi := (byte w (blk+(128+(lane >>> 4)*32+l)) >>> (which*2)) &&& 0x3
    s.v0*s.v1*((((lo ||| (hi <<< 4) : Nat) : Int)-32 : Int) : K)
  | 15 => (ldI8 w (blk+(36+o)) : K)*s.v1*s.v0
  | 10 =>
    let q2 := (byte w (blk+(2*lane+(j >>> 2))) >>> ((j &&& 3) <<< 1)) &&& 0x3
    let q : Int := (q2 : Int)-(((byte w (blk+lane) >>> j) &&& 1 : Nat) : Int)*4
    s.v0*s.v2*(q : K)-s.v1
  | 11 =>
    let bc := 8*(lane &&& 3)+j
    let lo := (byte w (blk+(32+(lane >>> 4)*32+bc)) >>> (((lane >>> 2) &&& 3)*2)) &&& 0x3
    let hi := (byte w (blk+bc) >>> (lane >>> 2)) &&& 1
    s.v0*s.v1*((((lo ||| (hi <<< 2) : Nat) : Int)-4 : Int) : K)
  | 8 => (ldI8 w (blk+(2+o)) : K)*s.v0
  | 9 => (ldI8 w (blk+(8+o)) : K)*s.v0
  | 2 => ((Device.q4Nibble w (blk+2) o : K)-8)*s.v0
  | 3 => (Device.q4Nibble w (blk+4) o : K)*s.v0+s.v1
  | 6 =>
    let hi := (ldU32 w (blk+2) >>> o) &&& 1
    let lo := Device.q4Nibble w (blk+6) o
    ((((hi <<< 4) ||| lo : Nat) : K)-16)*s.v0
  | 7 =>
    let hi := (ldU32 w (blk+4) >>> o) &&& 1
    let lo := Device.q4Nibble w (blk+8) o
    (((hi <<< 4) ||| lo : Nat) : K)*s.v0+s.v1
  | _ => 0

def gemvBlockKernel (type : Nat) (w : Source K) (x : Nat → K) (cols b r : Nat) : K :=
  let (qk,bs) := qt type
  let xr c := x (b*cols+c)
  let blk0 := r*cols/qk
  warpTotal fun lane => (cols/qk).fold (fun t _ sum =>
    let bp := (blk0+t)*bs
    let s := blkScale type w bp lane
    (ept type).fold (fun j _ sum => sum+blkElem type w bp lane j s*xr (t*qk+lane*ept type+j)) sum) 0

-- Four rows to a warp and eight lanes to a row, counted from the row's first.
def gemvIq4NlKernel (w : Source K) (x : Nat → K) (cols b r : Nat) : K :=
  let xb c := x (b*cols+c)
  let tbl i := w.entry .iq4NlValues i
  let blk0 := (r*cols) >>> 5
  reduceDown 8 3 (fun l => (cols >>> 5).fold (fun t _ sum =>
    let bp := (blk0+t)*18
    let d := ldF16 w bp
    let qa := byte w (bp+(2+2*l))
    let qb := byte w (bp+(2+2*l+1))
    let xbk c := xb (t*32+c)
    sum+d*(tbl (qa &&& 0xF)*xbk (2*l)+tbl (qa >>> 4)*xbk (16+2*l)+
      tbl (qb &&& 0xF)*xbk (2*l+1)+tbl (qb >>> 4)*xbk (16+2*l+1))) 0) 0

end Device

-- The persistent scratch of the activation quantisation, as earlier calls left it.
structure Scratch (K : Type) where
  q8X : Mem
  q8D : Nat → K
  q4kQx : Mem
  q4kDx : Nat → K
  q4kBs : Nat → Int

section Quantised
variable {K : Type} [Field K] [LinearOrder K] [FloorRing K]

-- To the nearest integer, from the middle to the even one.
def float2intRn (x : K) : Int :=
  let n := ⌊x⌋
  if x-n < 1/2 then n else if 1/2 < x-n then n+1 else if n % 2 = 0 then n else n+1

def i8Byte (q : Int) : UInt8 := UInt8.ofNat (unsigned 8 q)

def inverseScale (d : K) : K := if d > 0 then 1/d else 0

-- The scale as every lane of the block's warp has it after the all-reduce.
def q8BlockScale (x : Nat → K) (bi lane : Nat) : K :=
  exchange max 5 (fun lane => |x (bi*32+lane)|) lane/127

def quantizeQ8_0Kernel (x : Nat → K) (nblk : Nat) (qs : Mem) (ds : Nat → K) : Mem × (Nat → K) :=
  (fun p => if p/32 < nblk then i8Byte (float2intRn (x p*inverseScale (q8BlockScale x (p/32) (p % 32)))) else qs p,
   fun bi => if bi < nblk then q8BlockScale x bi 0 else ds bi)

def q8_0MmvqBlock (w : Source K) (xq : Mem) (xd : Nat → K) (blk0 b eo : Nat) : K :=
  let blk := (blk0+b)*34
  let wq := ldU32 w (blk+2+eo)
  let xq4 := load 4 xq (b*32+eo)
  let d := ldF16 w blk*xd b
  (dp4a wq xq4 0 : K)*d

-- for (; b + step < n; b += 2*step) into two sums, then the rest into the first.
def twoSums (f : Nat → K) (b step n : Nat) : K :=
  let (sum0,sum1) := strided b (2*step) (n-step) (fun b s => (s.1+f b,s.2+f (b+step))) (0,0)
  let b := b+rounds b (2*step) (n-step)*(2*step)
  strided b step n (fun b sum0 => sum0+f b) sum0+sum1

def matmulKernelQ8_0Mmvq (w : Source K) (xq : Mem) (xd : Nat → K) (cols r : Nat) : K :=
  let nblk := u32 (cols >>> 5)
  let blk0 := (r*cols) >>> 5
  let warpSum warp := warpTotal fun lane =>
    twoSums (fun b => q8_0MmvqBlock w xq xd blk0 b (4*(lane &&& 7))) (warp*4+(lane >>> 3)) 16 nblk
  warpSum 0+warpSum 1+warpSum 2+warpSum 3

def q8_0MmvqLaunch (scratch : Scratch K) (w : Source K) (x : Nat → K) (rows cols batch : Nat) (trans : Bool) :
    Option (Nat → K) :=
  if trans || batch ≠ 1 || rows = 0 || cols = 0 || cols % 32 ≠ 0 then none
  else
    let (qs,ds) := quantizeQ8_0Kernel x (u32 (cols/32)) scratch.q8X scratch.q8D
    some fun r => matmulKernelQ8_0Mmvq w qs ds cols r

def rowBlockScale (xr : Nat → K) (bi : Nat) : K :=
  Nat.fold 32 (fun k _ amax => max amax |xr (bi*32+k)|) 0/127

def matmulKernelQ8_0Dp4a (w : Source K) (x : Nat → K) (cols b r : Nat) : K :=
  let xr c := x (b*cols+c)
  let nblk := u32 (cols/32)
  let sxd := rowBlockScale xr
  let sxq p := i8Byte (float2intRn (xr p*inverseScale (sxd (p/32))))
  let blk0 := r*cols/32
  warpTotal fun lane =>
    let sub := lane >>> 3
    let eo := 4*(lane &&& 7)
    strided 0 4 nblk (fun t sum =>
      let bb := t+sub
      let blk := (blk0+bb)*34
      let wq := ldU32 w (blk+2+eo)
      let xq := load 4 sxq (bb*32+eo)
      let d := ldF16 w blk
      sum+(dp4a wq xq 0 : K)*d*sxd bb) 0

def q8_32 (x : Nat → K) (p : Nat) : Int :=
  max (-127) (min 127 (float2intRn (x p*inverseScale (q8BlockScale x (p/32) (p % 32)))))

def quantizeQ8_32Kernel (x : Nat → K) (nblk : Nat) (s : Scratch K) : Scratch K :=
  {s with
    q4kQx := fun p => if p/32 < nblk then i8Byte (q8_32 x p) else s.q4kQx p
    q4kDx := fun blk => if blk < nblk then q8BlockScale x blk 0 else s.q4kDx blk
    q4kBs := fun blk => if blk < nblk then exchange (·+·) 5 (fun lane => q8_32 x (blk*32+lane)) 0 else s.q4kBs blk}

def gemvQ4kDp4aKernel (w : Source K) (qx : Mem) (dx : Nat → K) (bs : Nat → Int) (cols b r : Nat) : K :=
  let xr := b*cols
  let dr gb := dx (b*(cols >>> 5)+gb)
  let br gb := bs (b*(cols >>> 5)+gb)
  let blk0 := (r*cols) >>> 8
  warpTotal fun lane => (cols >>> 8).fold (fun t _ acc =>
    let bp := (blk0+t)*144
    let d := ldF16 w bp
    let dmin := ldF16 w (bp+2)
    let ip (shift half : Nat) : Int := reduceDown 8 3 (fun lane =>
      let raw := load 4 w.data (bp+16+(lane >>> 3)*32+4*(lane &&& 7))
      dp4a ((raw >>> shift) &&& 0x0F0F0F0F) (load 4 qx (xr+(t <<< 8)+(2*(lane >>> 3)+half)*32+4*(lane &&& 7))) 0) lane
    let sbLo := 2*(lane >>> 3)
    let (scLo,mnLo) := Device.q4kScaleMin w (bp+4) sbLo
    let (scHi,mnHi) := Device.q4kScaleMin w (bp+4) (sbLo+1)
    if lane &&& 7 = 0 then
      let gb := (t <<< 3)+sbLo
      acc+dr gb*(d*(scLo : K)*(ip 0 0 : K)-dmin*(mnLo : K)*(br gb : K))+
        dr (gb+1)*(d*(scHi : K)*(ip 4 1 : K)-dmin*(mnHi : K)*(br (gb+1) : K))
    else acc) 0

def gpuQ4kDp4a (scratch : Scratch K) (w : Source K) (x : Nat → K) (cols batch b r : Nat) : K :=
  let s := quantizeQ8_32Kernel x (u32 (batch*(cols/32))) scratch
  gemvQ4kDp4aKernel w s.q4kQx s.q4kDx s.q4kBs cols b r

def gpuDp4aSmemMaxBytes : Nat := 48*1024

def dp4aFits (cols : Nat) : Bool := cols % 128 = 0 && cols+cols/32*4 ≤ gpuDp4aSmemMaxBytes

-- The kernels for the odd shapes of every type.
def matmulGeneric (type : Nat) (w : Source K) (x : Nat → K) (rows cols : Nat) (trans : Bool) (b r : Nat) : K :=
  if (qt type).1 > 0 && type ≠ 8 && !trans && cols % (qt type).1 = 0 then gemvBlockKernel type w x cols b r
  else if trans then matmulKernelTrans type w x rows cols b r
  else matmulKernelNontrans type w x cols b r

def matmulLaunch (scratch : Scratch K) (type : Nat) (w : Source K) (x : Nat → K) (rows cols batch : Nat) (trans : Bool)
    (b r : Nat) : K :=
  match type with
  | 8 => match q8_0MmvqLaunch scratch w x rows cols batch trans with
    | some y => y r
    | none =>
      if !trans && dp4aFits cols then matmulKernelQ8_0Dp4a w x cols b r
      else matmulGeneric 8 w x rows cols trans b r
  | 20 =>
    if !trans && cols % 32 = 0 then gemvIq4NlKernel w x cols b r
    else matmulGeneric 20 w x rows cols trans b r
  | 12 =>
    if !trans && cols % 256 = 0 then gpuQ4kDp4a scratch w x cols batch b r
    else matmulGeneric 12 w x rows cols trans b r
  | type => matmulGeneric type w x rows cols trans b r

def gpuTypes : List Nat := [0,1,2,3,6,7,8,9,10,11,12,13,14,15,16,17,18,19,20,21,22,23,24,25,26,27,28,29,30]

-- The written part of y; a refused call is left to the CPU. The upload of the weight is
-- taken to succeed.
def gpuMatmulDev (scratch : Scratch K) (type nElement : Nat) (w : Source K) (x : Nat → K) (batch rows cols : Nat)
    (trans : Bool) : Option (Nat → Nat → K) :=
  if batch = 0 || rows = 0 || cols = 0 then none
  else if u64 (rows*cols) > nElement then none
  else if type ∉ gpuTypes then none
  else some (matmulLaunch scratch type w x rows cols batch trans)

end Quantised

end TinyLlama.Gpu
