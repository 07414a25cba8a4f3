import TinyLlama.Lib.Simd
import TinyLlama.Quants.Scalar

-- cpu_x86.c: batch dequantisation.
namespace TinyLlama.Quants
open Access Bits Memory Simd Sweep

section Kernels
variable {K : Type}

structure Quad (K : Type) where
  r0 : Ps K
  r1 : Ps K
  r2 : Ps K
  r3 : Ps K

def sseStoreF32X16 (out : Nat → K) (p : Nat) (q : Quad K) : Nat → K :=
  storeuPs (storeuPs (storeuPs (storeuPs out p q.r0) (p+4) q.r1) (p+8) q.r2) (p+12) q.r3

-- out[k] = x
def storeF32 (out : Nat → K) (k : Nat) (x : K) : Nat → K := splice out k 1 fun _ => x

def sseHiNibbles (v : Reg) : Reg :=
  andSi (srliEpi16 (andSi v (set1Epi8 0xF0)) 4) (set1Epi8 0x0F)

def sseLoNibbles (v : Reg) : Reg := andSi v (set1Epi8 0x0F)

-- A float array seen through its bytes.
def floatsAt (s : Source K) (data k : Nat) : K := s.f32 (load 4 s.data (data+4*k))

def castsi128Ps (s : Source K) (v : Reg) : Ps K := fun n => s.f32 (lane 4 v n)

def rest (n width : Nat) (element : Nat → K) (out : Nat → K) : Nat → K :=
  (n-n/width*width).fold (fun t _ out => storeF32 out (n/width*width+t) (element (n/width*width+t))) out

def batchF32 (s : Source K) (data n : Nat) (out : Nat → K) : Nat → K :=
  let w := floatsAt s data
  rest n 16 w ((n/16).fold (fun t _ out =>
    let i := t*16
    storeuPs (storeuPs (storeuPs (storeuPs out i (loaduPs w i)) (i+4) (loaduPs w (i+4))) (i+8) (loaduPs w (i+8)))
      (i+12) (loaduPs w (i+12))) out)

def batchF16 (s : Source K) (data n : Nat) (out : Nat → K) : Nat → K :=
  n.fold (fun i _ out => storeF32 out i (s.f16 (load 2 s.data (data+2*i)))) out

def batchBf16 (s : Source K) (data n : Nat) (out : Nat → K) : Nat → K :=
  rest n 8 (fun i => s.f32 (load 2 s.data (data+2*i) <<< 16)) ((n/8).fold (fun t _ out =>
    let i := t*8
    let vh := loaduSi128 s.data (data+2*i)
    let lo := slliEpi32 (cvtepu16Epi32 vh) 16
    let hi := slliEpi32 (cvtepu16Epi32 (srliSi128 vh 8)) 16
    storeuPs (storeuPs out i (castsi128Ps s lo)) (i+4) (castsi128Ps s hi)) out)

def batchF64 (s : Source K) (data n : Nat) (out : Nat → K) : Nat → K :=
  n.fold (fun i _ out => storeF32 out i (s.f64 (load 8 s.data (data+8*i)))) out

variable [Field K]

def sseU8ToF32X16 (vu8 : Reg) (scale add : Ps K) (bias : Int) : Quad K :=
  let v160 := cvtepu8Epi16 vu8
  let v161 := cvtepu8Epi16 (srliSi128 vu8 8)
  let v320 := cvtepi16Epi32 v160
  let v321 := cvtepi16Epi32 (srliSi128 v160 8)
  let v322 := cvtepi16Epi32 v161
  let v323 := cvtepi16Epi32 (srliSi128 v161 8)
  let biased (v : Reg) := if bias ≠ 0 then subEpi32 v (set1Epi32 bias) else v
  ⟨addPs add (mulPs (cvtepi32Ps (biased v320)) scale),addPs add (mulPs (cvtepi32Ps (biased v321)) scale),
    addPs add (mulPs (cvtepi32Ps (biased v322)) scale),addPs add (mulPs (cvtepi32Ps (biased v323)) scale)⟩

def sseS8ToF32X16 (vs8 : Reg) (scale add : Ps K) : Quad K :=
  let v160 := cvtepi8Epi16 vs8
  let v161 := cvtepi8Epi16 (srliSi128 vs8 8)
  let v320 := cvtepi16Epi32 v160
  let v321 := cvtepi16Epi32 (srliSi128 v160 8)
  let v322 := cvtepi16Epi32 v161
  let v323 := cvtepi16Epi32 (srliSi128 v161 8)
  ⟨addPs add (mulPs (cvtepi32Ps v320) scale),addPs add (mulPs (cvtepi32Ps v321) scale),
    addPs add (mulPs (cvtepi32Ps v322) scale),addPs add (mulPs (cvtepi32Ps v323) scale)⟩

def batchI8 (s : Source K) (data n : Nat) (out : Nat → K) : Nat → K :=
  rest n 16 (fun i => (signed 8 (s.data (data+i)).toNat : K)) ((n/16).fold (fun t _ out =>
    let i := t*16
    sseStoreF32X16 out i (sseS8ToF32X16 (loaduSi128 s.data (data+i)) (set1Ps 1) setzeroPs)) out)

def batchI16 (s : Source K) (data n : Nat) (out : Nat → K) : Nat → K :=
  rest n 8 (fun i => (signed 16 (load 2 s.data (data+2*i)) : K)) ((n/8).fold (fun t _ out =>
    let i := t*8
    let v := loaduSi128 s.data (data+2*i)
    let v0 := cvtepi16Epi32 v
    let v1 := cvtepi16Epi32 (srliSi128 v 8)
    storeuPs (storeuPs out i (cvtepi32Ps v0)) (i+4) (cvtepi32Ps v1)) out)

def batchI32 (s : Source K) (data n : Nat) (out : Nat → K) : Nat → K :=
  rest n 4 (fun i => (signed 32 (load 4 s.data (data+4*i)) : K)) ((n/4).fold (fun t _ out =>
    let i := t*4
    storeuPs out i (cvtepi32Ps (loaduSi128 s.data (data+4*i)))) out)

def batchI64 (s : Source K) (data n : Nat) (out : Nat → K) : Nat → K :=
  n.fold (fun i _ out => storeF32 out i (signed 64 (load 8 s.data (data+8*i)) : K)) out

def sseBlockQ8_0 (s : Source K) (data : Nat) (out : Nat → K) (p : Nat) : Nat → K :=
  let d := value (f16At data) s
  let vd := set1Ps d
  let qs := data+2
  let v0 := loaduSi128 s.data qs
  let v1 := loaduSi128 s.data (qs+16)
  sseStoreF32X16 (sseStoreF32X16 out p (sseS8ToF32X16 v0 vd setzeroPs)) (p+16) (sseS8ToF32X16 v1 vd setzeroPs)

def sseBlockQ8_1 (s : Source K) (data : Nat) (out : Nat → K) (p : Nat) : Nat → K :=
  let d := s.f32 (load 4 s.data data)
  let vd := set1Ps d
  let qs := data+8
  let v0 := loaduSi128 s.data qs
  let v1 := loaduSi128 s.data (qs+16)
  sseStoreF32X16 (sseStoreF32X16 out p (sseS8ToF32X16 v0 vd setzeroPs)) (p+16) (sseS8ToF32X16 v1 vd setzeroPs)

def sseBlockQ4_0 (s : Source K) (data : Nat) (out : Nat → K) (p : Nat) : Nat → K :=
  let d := value (f16At data) s
  let vd := set1Ps d
  let qs := data+2
  let vq := loaduSi128 s.data qs
  let vlo := sseLoNibbles vq
  let vhi := sseHiNibbles vq
  sseStoreF32X16 (sseStoreF32X16 out p (sseU8ToF32X16 vlo vd setzeroPs 8)) (p+16) (sseU8ToF32X16 vhi vd setzeroPs 8)

def sseBlockQ4_1 (s : Source K) (data : Nat) (out : Nat → K) (p : Nat) : Nat → K :=
  let d := value (f16At data) s
  let m := value (f16At (data+2)) s
  let vd := set1Ps d
  let vm := set1Ps m
  let qs := data+4
  let vq := loaduSi128 s.data qs
  let vlo := sseLoNibbles vq
  let vhi := sseHiNibbles vq
  sseStoreF32X16 (sseStoreF32X16 out p (sseU8ToF32X16 vlo vd vm 0)) (p+16) (sseU8ToF32X16 vhi vd vm 0)

def sseBlockQ5_0 (s : Source K) (data : Nat) (out : Nat → K) (p : Nat) : Nat → K :=
  let d := value (f16At data) s
  let vd := set1Ps d
  let qh := load 4 s.data (data+2)
  let ql := data+6
  let hi : Mem := fun o => UInt8.ofNat (((qh >>> o) &&& 1) <<< 4)
  let vql := loaduSi128 s.data ql
  let vlo := sseLoNibbles vql
  let vhiNb := sseHiNibbles vql
  let vhi0 := loaduSi128 hi 0
  let vhi1 := loaduSi128 hi 16
  Nat.fold 2 (fun h _ out =>
    let vnib := orSi (if h = 0 then vlo else vhiNb) (if h = 0 then vhi0 else vhi1)
    sseStoreF32X16 out (p+h*16) (sseU8ToF32X16 vnib vd setzeroPs 16)) out

def sseBlockQ5_1 (s : Source K) (data : Nat) (out : Nat → K) (p : Nat) : Nat → K :=
  let d := value (f16At data) s
  let m := value (f16At (data+2)) s
  let vd := set1Ps d
  let vm := set1Ps m
  let qh := load 4 s.data (data+4)
  let ql := data+8
  let hi : Mem := fun o => UInt8.ofNat (((qh >>> o) &&& 1) <<< 4)
  let vql := loaduSi128 s.data ql
  let vlo := sseLoNibbles vql
  let vhiNb := sseHiNibbles vql
  let vhi0 := loaduSi128 hi 0
  let vhi1 := loaduSi128 hi 16
  Nat.fold 2 (fun h _ out =>
    let vnib := orSi (if h = 0 then vlo else vhiNb) (if h = 0 then vhi0 else vhi1)
    sseStoreF32X16 out (p+h*16) (sseU8ToF32X16 vnib vd vm 0)) out

def sseBlockQ8K (s : Source K) (data : Nat) (out : Nat → K) (p : Nat) : Nat → K :=
  let d := s.f32 (load 4 s.data data)
  let vd := set1Ps d
  let bs := data+4
  let qs := data+36
  Nat.fold 16 (fun sb _ out =>
    let vscale := mulPs vd (set1Ps (value (f16At (bs+2*sb)) s))
    let off := sb*16
    let vq := loaduSi128 s.data (qs+off)
    sseStoreF32X16 out (p+off) (sseS8ToF32X16 vq vscale setzeroPs)) out

-- Sixteen bytes minus a bias, converted and scaled: the body that the Q6_K and Q3_K
-- decoders write out for themselves.
def sseBiasedF32X16 (vu8 : Reg) (vbias : Reg) (vscale : Ps K) : Quad K :=
  let v160 := cvtepu8Epi16 vu8
  let v161 := cvtepu8Epi16 (srliSi128 vu8 8)
  let v320 := subEpi32 (cvtepi16Epi32 v160) vbias
  let v321 := subEpi32 (cvtepi16Epi32 (srliSi128 v160 8)) vbias
  let v322 := subEpi32 (cvtepi16Epi32 v161) vbias
  let v323 := subEpi32 (cvtepi16Epi32 (srliSi128 v161 8)) vbias
  ⟨mulPs (cvtepi32Ps v320) vscale,mulPs (cvtepi32Ps v321) vscale,mulPs (cvtepi32Ps v322) vscale,
    mulPs (cvtepi32Ps v323) vscale⟩

def sseBlockQ6K (s : Source K) (data : Nat) (out : Nat → K) (p : Nat) : Nat → K :=
  let d := value (f16At (data+208)) s
  let scales := data+192
  let ql := data
  let qh := data+128
  Nat.fold 16 (fun sb _ out =>
    let sc := signed 8 (s.data (scales+sb)).toNat
    let start := sb*16
    let vals : Mem := fun j =>
      let o := start+j
      let half := o >>> 7
      let hl := o &&& 127
      let which := hl >>> 5
      let l := hl &&& 31
      let qlOff := (half <<< 6)+((which &&& 1) <<< 5)+l
      let lo := if which ≥ 2 then ((s.data (ql+qlOff)).toNat >>> 4) &&& 0xF else (s.data (ql+qlOff)).toNat &&& 0xF
      let qhOff := (half <<< 5)+l
      let hi := ((s.data (qh+qhOff)).toNat >>> (which*2)) &&& 0x3
      UInt8.ofNat (lo ||| (hi <<< 4))
    let vscale := set1Ps (d*(sc : K))
    sseStoreF32X16 out (p+start) (sseBiasedF32X16 (loaduSi128 vals 0) (set1Epi32 32) vscale)) out

def sseBlockQ4K (s : Source K) (data : Nat) (out : Nat → K) (p : Nat) : Nat → K :=
  let d := value (f16At data) s
  let dmin := value (f16At (data+2)) s
  let sm := data+4
  let qs := data+16
  Nat.fold 8 (fun sb _ out =>
    let (sc,mn) := value (q4kScaleMin (K:=K) sm sb) s
    let vscale := set1Ps (d*(sc : K))
    let vmin := set1Ps (dmin*(mn : K))
    let g := sb >>> 1
    let nb := sb &&& 1
    let src := qs+g*32
    let buf : Mem := fun j =>
      UInt8.ofNat (if nb ≠ 0 then (s.data (src+j)).toNat >>> 4 else (s.data (src+j)).toNat &&& 0xF)
    Nat.fold 2 (fun half _ out =>
      let vu8 := loaduSi128 buf (half*16)
      let negVmin := subPs setzeroPs vmin
      sseStoreF32X16 out (p+(sb*32+half*16)) (sseU8ToF32X16 vu8 vscale negVmin 0)) out) out

def sseBlockQ5K (s : Source K) (data : Nat) (out : Nat → K) (p : Nat) : Nat → K :=
  let d := value (f16At data) s
  let dmin := value (f16At (data+2)) s
  let sm := data+4
  let qh := data+16
  let qs := data+48
  Nat.fold 8 (fun sb _ out =>
    let (sc,mn) := value (q4kScaleMin (K:=K) sm sb) s
    let vscale := set1Ps (d*(sc : K))
    let vmin := set1Ps (dmin*(mn : K))
    let g := sb >>> 1
    let nb := sb &&& 1
    let srcLo := qs+g*32
    let vals : Mem := fun j =>
      let o := sb*32+j
      let hi := ((s.data (qh+(o &&& 31))).toNat >>> (o >>> 5)) &&& 1
      let lo := if nb ≠ 0 then (s.data (srcLo+j)).toNat >>> 4 else (s.data (srcLo+j)).toNat &&& 0xF
      UInt8.ofNat (lo ||| (hi <<< 4))
    Nat.fold 2 (fun half _ out =>
      let vu8 := loaduSi128 vals (half*16)
      let negVmin := subPs setzeroPs vmin
      sseStoreF32X16 out (p+(sb*32+half*16)) (sseU8ToF32X16 vu8 vscale negVmin 0)) out) out

def sseBlockQ3K (s : Source K) (data : Nat) (out : Nat → K) (p : Nat) : Nat → K :=
  let d := value (f16At (data+108)) s
  let qh := data
  let qs := data+32
  let scales := data+96
  Nat.fold 16 (fun sb _ out =>
    let scLow := ((s.data (scales+(sb &&& 7))).toNat >>> (if sb ≥ 8 then 4 else 0)) &&& 0xF
    let scHigh := ((s.data (scales+(8+(sb &&& 3)))).toNat >>> (((sb >>> 2) &&& 3)*2)) &&& 0x3
    let sc : Int := (scLow ||| (scHigh <<< 4) : Nat)-32
    let vscale := set1Ps (d*(sc : K))
    let start := sb*16
    let vals : Mem := fun j =>
      let o := start+j
      let g := o >>> 7
      let pr := (o >>> 5) &&& 3
      let bc := o &&& 31
      let lo := ((s.data (qs+(g*32+bc))).toNat >>> (pr*2)) &&& 0x3
      let hi := ((s.data (qh+(o &&& 31))).toNat >>> (o >>> 5)) &&& 1
      UInt8.ofNat (lo ||| (hi <<< 2))
    let q := sseBiasedF32X16 (loaduSi128 vals 0) (set1Epi32 4) vscale
    sseStoreF32X16 out (p+start) ⟨addPs setzeroPs q.r0,addPs setzeroPs q.r1,addPs setzeroPs q.r2,
      addPs setzeroPs q.r3⟩) out

-- The subtraction in u32 wraps, and the byte kept of it is two's complement.
def sseBlockQ2K (s : Source K) (data : Nat) (out : Nat → K) (p : Nat) : Nat → K :=
  let d := value (f16At (data+80)) s
  let mn := value (f16At (data+82)) s
  let scales := data+64
  Nat.fold 16 (fun sb _ out =>
    let sc := (s.data (scales+(sb >>> 1))).toNat
    let sc := if sb &&& 1 ≠ 0 then sc >>> 4 else sc &&& 0xF
    let vscale := set1Ps (d*(sc : K))
    let vmn := set1Ps mn
    let start := sb*16
    let vals : Mem := fun j =>
      let o := start+j
      let q2 := ((s.data (data+(o >>> 2))).toNat >>> ((o &&& 3) <<< 1)) &&& 0x3
      let sign := ((s.data (data+(o >>> 3))).toNat >>> (o &&& 7)) &&& 1
      let q := unsigned 32 ((q2 : Int)-(sign : Int)*4)
      UInt8.ofNat q
    let negVmn := subPs setzeroPs vmn
    sseStoreF32X16 out (p+start) (sseS8ToF32X16 (loaduSi128 vals 0) vscale negVmn)) out

def scalarBlockIq2Xxs (s : Source K) (data : Nat) (out : Nat → K) (p : Nat) : Nat → K :=
  let d := value (f16At data) s
  Nat.fold 256 (fun o _ out =>
    let q := ((s.data (data+(2+(o >>> 2)))).toNat >>> ((o &&& 3) <<< 1)) &&& 0x3
    let sb := ((s.data (data+(2+(o >>> 3)))).toNat >>> (o &&& 7)) &&& 1
    storeF32 out (p+o) (s.entry .iq2XxsGrid (q ||| (sb <<< 2))*d)) out

def scalarBlockIq2Xs (s : Source K) (data : Nat) (out : Nat → K) (p : Nat) : Nat → K :=
  let d := value (f16At data) s
  Nat.fold 256 (fun o _ out =>
    let sh := ((s.data (data+(2+(o >>> 3)))).toNat >>> (o &&& 7)) &&& 1
    let q := ((s.data (data+(2+32+(o >>> 2)))).toNat >>> ((o &&& 3) <<< 1)) &&& 0x3
    let sc := signed 8 (s.data (data+(2+32+64+(o >>> 4)))).toNat
    storeF32 out (p+o) (d*(sc : K)*s.entry .iq2XsGrid (q ||| (sh <<< 2)))) out

def scalarBlockIq3Xxs (s : Source K) (data : Nat) (out : Nat → K) (p : Nat) : Nat → K :=
  let d := value (f16At data) s
  Nat.fold 256 (fun o _ out =>
    let qh := ((s.data (data+(2+(o >>> 5)))).toNat >>> (o &&& 31)) &&& 1
    let qm := ((s.data (data+(10+(o >>> 3)))).toNat >>> (o &&& 7)) &&& 1
    let ql := ((s.data (data+(42+(o >>> 1)))).toNat >>> ((o &&& 1) <<< 2)) &&& 0xF
    let grp := ((s.data (data+(42+128+(o >>> 3)))).toNat >>> ((o &&& 7) <<< 1)) &&& 0x3
    let sc := signed 8 (s.data (data+(42+128+64+(o >>> 4)))).toNat
    storeF32 out (p+o) (d*(sc : K)*s.entry .iq3XxsGrid (ql ||| (qm <<< 4) ||| (qh <<< 5) ||| (grp <<< 6)))) out

def scalarBlockIq1S (s : Source K) (data : Nat) (out : Nat → K) (p : Nat) : Nat → K :=
  let d := value (f16At data) s
  Nat.fold 256 (fun o _ out =>
    let q := (((s.data (data+(2+(o >>> 3)))).toNat >>> (o &&& 7)) &&& 1) |||
      ((((s.data (data+(34+(o >>> 3)))).toNat >>> (o &&& 7)) &&& 1) <<< 1)
    let idx := q ||| (((o >>> 4) &&& 0xF) <<< 2)
    storeF32 out (p+o) (d*s.entry .iq1SGrid idx)) out

def scalarBlockIq4Nl (s : Source K) (data : Nat) (out : Nat → K) (p : Nat) : Nat → K :=
  let d := value (f16At data) s
  Nat.fold 32 (fun o _ out =>
    let q := if o < 16 then (s.data (data+(2+o))).toNat &&& 0xF else (s.data (data+(2+o-16))).toNat >>> 4
    storeF32 out (p+o) (d*s.entry .iq4NlValues q)) out

def scalarBlockIq1M (s : Source K) (data : Nat) (out : Nat → K) (p : Nat) : Nat → K :=
  let d := value (f16At (data+54)) s
  Nat.fold 256 (fun o _ out =>
    let sb := o >>> 4
    let sc := ((s.data (data+(sb >>> 1))).toNat >>> ((sb &&& 1) <<< 2)) &&& 0xF
    let val := ((s.data (data+(8+(o >>> 3)))).toNat >>> (o &&& 7)) &&& 1
    let sign := ((s.data (data+(40+(o >>> 3)))).toNat >>> (o &&& 7)) &&& 1
    storeF32 out (p+o) ((if sign ≠ 0 then -(val : K) else (val : K))*((sc : K)+1)*d)) out

def scalarBlockIq3S (s : Source K) (data : Nat) (out : Nat → K) (p : Nat) : Nat → K :=
  let d := value (f16At data) s
  Nat.fold 256 (fun o _ out =>
    let sign := ((s.data (data+(2+(o >>> 3)))).toNat >>> (o &&& 7)) &&& 1
    let qh := ((s.data (data+(34+(o >>> 5)))).toNat >>> (o &&& 31)) &&& 1
    let qm := ((s.data (data+(42+(o >>> 3)))).toNat >>> (o &&& 7)) &&& 1
    let ql := ((s.data (data+(74+(o >>> 1)))).toNat >>> ((o &&& 1) <<< 2)) &&& 0xF
    let sc := signed 8 (s.data (data+(74+128+(o >>> 4)))).toNat
    storeF32 out (p+o) (d*(sc : K)*s.entry .iq3SGrid (ql ||| (qm <<< 4) ||| (qh <<< 5) ||| (sign <<< 6)))) out

def scalarBlockIq2S (s : Source K) (data : Nat) (out : Nat → K) (p : Nat) : Nat → K :=
  let d := value (f16At data) s
  Nat.fold 256 (fun o _ out =>
    let sign := ((s.data (data+(2+(o >>> 3)))).toNat >>> (o &&& 7)) &&& 1
    let qh := ((s.data (data+(34+(o >>> 5)))).toNat >>> (o &&& 31)) &&& 1
    let ql := ((s.data (data+(42+(o >>> 1)))).toNat >>> ((o &&& 1) <<< 2)) &&& 0xF
    let sc := signed 8 (s.data (data+(42+128+(o >>> 4)+((o >>> 4) &&& 1)*16))).toNat
    let scL := ((s.data (data+(42+128+(o >>> 5)))).toNat >>> ((o &&& 31) >>> 2)) &&& 0x3
    storeF32 out (p+o) (d*((sc : K)+1/8*(scL : K))*s.entry .iq2XsGrid (ql ||| (qh <<< 4) ||| (sign <<< 5)))) out

def scalarBlockIq4Xs (s : Source K) (data : Nat) (out : Nat → K) (p : Nat) : Nat → K :=
  let d := value (f16At data) s
  Nat.fold 256 (fun o _ out =>
    let qh := ((s.data (data+(2+(o >>> 5)))).toNat >>> (o &&& 31)) &&& 1
    let ql := ((s.data (data+(10+(o >>> 1)))).toNat >>> ((o &&& 1) <<< 2)) &&& 0xF
    let scL := signed 8 (s.data (data+(10+128+(o >>> 4)))).toNat
    let scH := signed 8 (s.data (data+(10+128+16+(o >>> 4)))).toNat
    storeF32 out (p+o) (d*((scL : K)+(scH : K)/127)*s.entry .iq4NlValues (ql ||| (qh <<< 4)))) out

-- The types with a block decoder; the others hold NULL.
def blockTable (type : Nat) : Option (Source K → Nat → (Nat → K) → Nat → Nat → K) :=
  match type with
  | 2 => some sseBlockQ4_0
  | 3 => some sseBlockQ4_1
  | 6 => some sseBlockQ5_0
  | 7 => some sseBlockQ5_1
  | 8 => some sseBlockQ8_0
  | 9 => some sseBlockQ8_1
  | 10 => some sseBlockQ2K
  | 11 => some sseBlockQ3K
  | 12 => some sseBlockQ4K
  | 13 => some sseBlockQ5K
  | 14 => some sseBlockQ6K
  | 15 => some sseBlockQ8K
  | 16 => some scalarBlockIq2Xxs
  | 17 => some scalarBlockIq2Xs
  | 18 => some scalarBlockIq3Xxs
  | 19 => some scalarBlockIq1S
  | 20 => some scalarBlockIq4Nl
  | 21 => some scalarBlockIq3S
  | 22 => some scalarBlockIq2S
  | 23 => some scalarBlockIq4Xs
  | 29 => some scalarBlockIq1M
  | _ => none

-- The elements and bytes of a block, or none where the switch jumps to the fallback.
def blockShape (type : Nat) : Option (Nat × Nat) :=
  if type ≤ 9 ∨ type = 20 then
    match type with
    | 2 => some (32,18)
    | 3 => some (32,20)
    | 6 => some (32,22)
    | 7 => some (32,24)
    | 8 => some (32,34)
    | 9 => some (32,40)
    | 20 => some (32,18)
    | _ => none
  else
    match type with
    | 10 => some (256,84)
    | 11 => some (256,110)
    | 12 => some (256,144)
    | 13 => some (256,176)
    | 14 => some (256,210)
    | 15 => some (256,292)
    | 16 => some (256,66)
    | 17 => some (256,74)
    | 18 => some (256,98)
    | 19 => some (256,110)
    | 21 => some (256,110)
    | 22 => some (256,82)
    | 23 => some (256,136)
    | 29 => some (256,56)
    | _ => none

-- for (j = low; j < high; j++) out[j - i0] = gguf_dequant(ti, j);
def scalarRun (s : Source K) (type i0 low high : Nat) (out : Nat → K) : Nat → K :=
  (high-low).fold (fun k _ out => storeF32 out (low+k-i0) (value (ggufDequant type (low+k)) s)) out

-- Whole blocks go through their decoder, cut ones element by element.
def blockRun (s : Source K) (type elems bytes : Nat) (fn : Source K → Nat → (Nat → K) → Nat → Nat → K) (i0 nb : Nat)
    (out : Nat → K) : Nat → K :=
  let stop := i0+nb
  let bi0 := i0/elems
  let bi1 := (stop+elems-1)/elems
  (bi1-bi0).fold (fun t _ out =>
    let bi := bi0+t
    let bs := bi*elems
    let be := bs+elems
    let cs := if i0 > bs then i0 else bs
    let ce := if stop < be then stop else be
    if cs = bs ∧ ce = be then fn s (bi*bytes) out (cs-i0) else scalarRun s type i0 cs ce out) out

def ggufDequantBatch (s : Source K) (type i0 nb : Nat) (out : Nat → K) : Nat → K :=
  match type with
  | 0 => batchF32 s (i0*4) nb out
  | 1 => batchF16 s (i0*2) nb out
  | 30 => batchBf16 s (i0*2) nb out
  | 28 => batchF64 s (i0*8) nb out
  | 24 => batchI8 s i0 nb out
  | 25 => batchI16 s (i0*2) nb out
  | 26 => batchI32 s (i0*4) nb out
  | 27 => batchI64 s (i0*8) nb out
  | _ =>
    match blockShape type,blockTable type with
    | some (elems,bytes),some fn => blockRun s type elems bytes fn i0 nb out
    | _,_ => scalarRun s type i0 i0 (i0+nb) out

end Kernels

end TinyLlama.Quants
