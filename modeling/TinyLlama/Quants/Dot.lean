import Mathlib
import TinyLlama.Quants.Batch

-- cpu_x86.c: fused dequantisation and dot product; AVX2 has its own functions for Q6_K and Q4_K.
namespace TinyLlama.Quants
open Access Bits Memory Simd

section Dot
variable {K : Type} [Field K]

def sseHsumF32x4 (v : Ps K) : K :=
  let v := haddPs v v
  let v := haddPs v v
  cvtssF32 v

def Quad.zero : Quad K := ⟨setzeroPs,setzeroPs,setzeroPs,setzeroPs⟩

def Quad.load (x : Nat → K) (p : Nat) : Quad K := ⟨loaduPs x p,loaduPs x (p+4),loaduPs x (p+8),loaduPs x (p+12)⟩

def Quad.add (acc a : Quad K) : Quad K :=
  ⟨addPs acc.r0 a.r0,addPs acc.r1 a.r1,addPs acc.r2 a.r2,addPs acc.r3 a.r3⟩

def Quad.mulAdd (acc a b : Quad K) : Quad K :=
  acc.add ⟨mulPs a.r0 b.r0,mulPs a.r1 b.r1,mulPs a.r2 b.r2,mulPs a.r3 b.r3⟩

def Quad.hsum (acc : Quad K) : K := sseHsumF32x4 (addPs (addPs acc.r0 acc.r1) (addPs acc.r2 acc.r3))

def Quad.ofU8 (v : Reg) : Quad K :=
  let v160 := cvtepu8Epi16 v
  let v161 := cvtepu8Epi16 (srliSi128 v 8)
  ⟨cvtepi32Ps (cvtepi16Epi32 v160),cvtepi32Ps (cvtepi16Epi32 (srliSi128 v160 8)),
    cvtepi32Ps (cvtepi16Epi32 v161),cvtepi32Ps (cvtepi16Epi32 (srliSi128 v161 8))⟩

def Quad.ofS8 (v : Reg) : Quad K :=
  let v160 := cvtepi8Epi16 v
  let v161 := cvtepi8Epi16 (srliSi128 v 8)
  ⟨cvtepi32Ps (cvtepi16Epi32 v160),cvtepi32Ps (cvtepi16Epi32 (srliSi128 v160 8)),
    cvtepi32Ps (cvtepi16Epi32 v161),cvtepi32Ps (cvtepi16Epi32 (srliSi128 v161 8))⟩

def dotF32 (s : Source K) (data : Nat) (x : Nat → K) (n : Nat) : K :=
  let w := floatsAt s data
  let acc := (n/16).fold (fun t _ acc => acc.mulAdd (Quad.load w (t*16)) (Quad.load x (t*16))) Quad.zero
  (n-n/16*16).fold (fun t _ sum => sum+w (n/16*16+t)*x (n/16*16+t)) acc.hsum

def dotF16 (s : Source K) (data : Nat) (x : Nat → K) (n : Nat) : K :=
  n.fold (fun i _ sum => sum+s.f16 (load 2 s.data (data+2*i))*x i) 0

def sseDotQ8_0Block (s : Source K) (data : Nat) (x : Nat → K) (p : Nat) : K :=
  let d := value (f16At data) s
  let qs := data+2
  let acc := Nat.fold 2 (fun t _ acc =>
    let j := t*16
    acc.mulAdd (Quad.ofS8 (loaduSi128 s.data (qs+j))) (Quad.load x (p+j))) Quad.zero
  d*acc.hsum

def sseDotQ4_0Block (s : Source K) (data : Nat) (x : Nat → K) (p : Nat) : K :=
  let d := value (f16At data) s
  let qs := data+2
  let vq := loaduSi128 s.data qs
  let vlo := sseLoNibbles vq
  let vhi := sseHiNibbles vq
  let dot := Nat.fold 2 (fun h _ dot =>
    let vn := if h = 0 then vlo else vhi
    let jj := h*16
    dot.mulAdd (Quad.ofU8 vn) (Quad.load x (p+jj))) Quad.zero
  let sx := Nat.fold 2 (fun t _ sx =>
    let j := t*16
    sx.add (Quad.load x (p+j))) Quad.zero
  let sumX := sx.hsum
  let dotAll := dot.hsum
  d*(dotAll-8*sumX)

def sseDotQ4_1Block (s : Source K) (data : Nat) (x : Nat → K) (p : Nat) : K :=
  let d := value (f16At data) s
  let m := value (f16At (data+2)) s
  let qs := data+4
  let vq := loaduSi128 s.data qs
  let vlo := sseLoNibbles vq
  let vhi := sseHiNibbles vq
  let (dot,sx) := Nat.fold 2 (fun h _ acc =>
    let vn := if h = 0 then vlo else vhi
    let jj := h*16
    let xv := Quad.load x (p+jj)
    (acc.1.mulAdd (Quad.ofU8 vn) xv,acc.2.add xv)) (Quad.zero,Quad.zero)
  d*dot.hsum+m*sx.hsum

def sseDotIq4NlBlock (s : Source K) (data : Nat) (x : Nat → K) (p : Nat) : K :=
  let d := value (f16At data) s
  let qs := data+2
  let sum := Nat.fold 16 (fun j _ sum =>
    sum+s.entry .iq4NlValues ((s.data (qs+j)).toNat &&& 0xF)*x (p+j)+
      s.entry .iq4NlValues ((s.data (qs+j)).toNat >>> 4)*x (p+(16+j))) 0
  d*sum

def sseDotQ8KBlock (s : Source K) (data : Nat) (x : Nat → K) (p : Nat) : K :=
  let d := s.f32 (load 4 s.data data)
  let bs := data+4
  let qs := data+36
  let acc := Nat.fold 16 (fun sb _ acc =>
    let off := sb*16
    let dotQs := (Quad.zero.mulAdd (Quad.ofS8 (loaduSi128 s.data (qs+off))) (Quad.load x (p+off))).hsum
    acc+dotQs*value (f16At (bs+2*sb)) s) 0
  d*acc

def sseU8ShrX8 (v8 : Reg) (k : Nat) : Reg :=
  let mul := set1Epi16 (1 <<< (8-k))
  srliEpi16 (mulloEpi16 (cvtepu8Epi16 v8) mul) 8

def sseU8ShrX8Var (v8 mul : Reg) : Reg := srliEpi16 (mulloEpi16 v8 mul) 8

def sseI16DotX8 (v : Reg) (x : Nat → K) (p : Nat) : Ps K :=
  let f0 := mulPs (cvtepi32Ps (cvtepi16Epi32 v)) (loaduPs x p)
  let f1 := mulPs (cvtepi32Ps (cvtepi16Epi32 (srliSi128 v 8))) (loaduPs x (p+4))
  addPs f0 f1

def sseDotQ6KBlock (s : Source K) (data : Nat) (x : Nat → K) (p : Nat) : K :=
  let d := value (f16At (data+208)) s
  let scales := data+192
  let ql := data
  let qh := data+128
  let nib := set1Epi16 0x0F
  let hi2 := set1Epi16 0x03
  let bias := set1Epi16 32
  let acc := Nat.fold 16 (fun sb _ acc =>
    let sc := signed 8 (s.data (scales+sb)).toNat
    let start := sb*16
    let sub7 := sb &&& 7
    let half := sb >>> 3
    let which := sub7 >>> 1
    let sbpar := sub7 &&& 1
    let qsrc := ql+((half <<< 6)+((which &&& 1) <<< 5)+(sbpar <<< 4))
    let hsrc := qh+((half <<< 5)+(sbpar <<< 4))
    let sum := Nat.fold 2 (fun c _ sum =>
      let lo := andSi (sseU8ShrX8 (loadlEpi64 s.data (qsrc+c*8)) (if which ≥ 2 then 4 else 0)) nib
      let hi := andSi (sseU8ShrX8 (loadlEpi64 s.data (hsrc+c*8)) (which*2)) hi2
      let v := subEpi16 (orSi lo (slliEpi16 hi 4)) bias
      addPs sum (sseI16DotX8 v x (p+start+c*8))) setzeroPs
    acc+(sc : K)*sseHsumF32x4 sum) 0
  d*acc

def sseDotQ4KBlock (s : Source K) (data : Nat) (x : Nat → K) (p : Nat) : K :=
  let d := value (f16At data) s
  let dmin := value (f16At (data+2)) s
  let sm := data+4
  let qs := data+16
  let (dotAcc,sumAcc) := Nat.fold 8 (fun sb _ acc =>
    let (sc,mn) := value (q4kScaleMin (K:=K) sm sb) s
    let g := sb >>> 1
    let nb := sb &&& 1
    let src := qs+g*32
    let off := sb*32
    let (dot,sx) := Nat.fold 2 (fun t _ acc =>
      let j := t*16
      let vbytes := loaduSi128 s.data (src+j)
      let vnibs := if nb = 0 then sseLoNibbles vbytes else sseHiNibbles vbytes
      let xv := Quad.load x (p+off+j)
      (acc.1.mulAdd (Quad.ofU8 vnibs) xv,acc.2.add xv)) (Quad.zero,Quad.zero)
    let dotNib := dot.hsum
    let sumX := sx.hsum
    (acc.1+(sc : K)*dotNib,acc.2+(mn : K)*sumX)) (0,0)
  d*dotAcc-dmin*sumAcc

def sseDotQ5KBlock (s : Source K) (data : Nat) (x : Nat → K) (p : Nat) : K :=
  let d := value (f16At data) s
  let dmin := value (f16At (data+2)) s
  let sm := data+4
  let qh := data+16
  let qs := data+48
  let nib := set1Epi16 0x0F
  let hi1 := set1Epi16 0x01
  let (dotAcc,sumAcc) := Nat.fold 8 (fun sb _ acc =>
    let (sc,mn) := value (q4kScaleMin (K:=K) sm sb) s
    let g := sb >>> 1
    let nb := sb &&& 1
    let srcLo := qs+g*32
    let start := sb*32
    let (dot,sx) := Nat.fold 4 (fun c _ acc =>
      let lo := andSi (sseU8ShrX8 (loadlEpi64 s.data (srcLo+c*8)) (if nb ≠ 0 then 4 else 0)) nib
      let hi := andSi (sseU8ShrX8 (loadlEpi64 s.data (qh+c*8)) sb) hi1
      let v := orSi lo (slliEpi16 hi 4)
      (addPs acc.1 (sseI16DotX8 v x (p+start+c*8)),
        addPs acc.2 (addPs (loaduPs x (p+start+c*8)) (loaduPs x (p+start+c*8+4))))) (setzeroPs,setzeroPs)
    (acc.1+(sc : K)*sseHsumF32x4 dot,acc.2+(mn : K)*sseHsumF32x4 sx)) (0,0)
  d*dotAcc-dmin*sumAcc

def sseDotQ3KBlock (s : Source K) (data : Nat) (x : Nat → K) (p : Nat) : K :=
  let d := value (f16At (data+108)) s
  let qh := data
  let qs := data+32
  let scales := data+96
  let lo2 := set1Epi16 0x03
  let hi1 := set1Epi16 0x01
  let bias := set1Epi16 4
  let acc := Nat.fold 16 (fun sb _ acc =>
    let scLow := ((s.data (scales+(sb &&& 7))).toNat >>> (if sb ≥ 8 then 4 else 0)) &&& 0xF
    let scHigh := ((s.data (scales+(8+(sb &&& 3)))).toNat >>> (((sb >>> 2) &&& 3)*2)) &&& 0x3
    let sc : Int := (scLow ||| (scHigh <<< 4) : Nat)-32
    let start := sb*16
    let lsrc := qs+(((sb >>> 3) <<< 5)+((sb &&& 1) <<< 4))
    let hsrc := qh+((sb &&& 1) <<< 4)
    let dot := Nat.fold 2 (fun c _ dot =>
      let lo := andSi (sseU8ShrX8 (loadlEpi64 s.data (lsrc+c*8)) (((sb >>> 1) &&& 3)*2)) lo2
      let hi := andSi (sseU8ShrX8 (loadlEpi64 s.data (hsrc+c*8)) (sb >>> 1)) hi1
      let v := subEpi16 (orSi lo (slliEpi16 hi 2)) bias
      addPs dot (sseI16DotX8 v x (p+start+c*8))) setzeroPs
    acc+(sc : K)*sseHsumF32x4 dot) 0
  d*acc

-- Only the lower two bytes of sw are written; `stale` is what the upper two hold then.
def sseDotQ2KBlock (stale : Nat → Nat) (s : Source K) (data : Nat) (x : Nat → K) (p : Nat) : K :=
  let d := value (f16At (data+80)) s
  let mn := value (f16At (data+82)) s
  let scales := data+64
  let magMul := setrEpi16 [256,64,16,4,256,64,16,4]
  let sgnMul := setrEpi16 [256,128,64,32,16,8,4,2]
  let magIdx := [setrEpi8 [0,-1,0,-1,0,-1,0,-1,1,-1,1,-1,1,-1,1,-1],
    setrEpi8 [2,-1,2,-1,2,-1,2,-1,3,-1,3,-1,3,-1,3,-1]]
  let sgnIdx := [setrEpi8 [0,-1,0,-1,0,-1,0,-1,0,-1,0,-1,0,-1,0,-1],
    setrEpi8 [1,-1,1,-1,1,-1,1,-1,1,-1,1,-1,1,-1,1,-1]]
  let mag2 := set1Epi16 0x03
  let sgn1 := set1Epi16 0x01
  let (dotAcc,totalSx) := Nat.fold 16 (fun sb _ acc =>
    let sc := (s.data (scales+(sb >>> 1))).toNat
    let sc := if sb &&& 1 ≠ 0 then sc >>> 4 else sc &&& 0xF
    let start := sb*16
    let mw := load 4 s.data (data+(sb <<< 2))
    let sw := load 2 s.data (data+(sb <<< 1))+2^16*stale (data+sb)
    let mwv := cvtsi32Si128 mw
    let swv := cvtsi32Si128 sw
    let sum := Nat.fold 2 (fun c _ sum =>
      let mag := andSi (sseU8ShrX8Var (shuffleEpi8 mwv (magIdx.getD c mwv)) magMul) mag2
      let sgn := andSi (sseU8ShrX8Var (shuffleEpi8 swv (sgnIdx.getD c swv)) sgnMul) sgn1
      let v := subEpi16 mag (slliEpi16 sgn 2)
      addPs sum (sseI16DotX8 v x (p+start+c*8))) setzeroPs
    (acc.1+(sc : K)*sseHsumF32x4 sum,acc.2.add (Quad.load x (p+start)))) (0,Quad.zero)
  d*dotAcc-mn*totalSx.hsum

def avx2HsumF32x8 (v : Ps K) : K :=
  let lo := v
  let hi := extractf128Ps v
  let s := addPs lo hi
  let s := haddPs s s
  let s := haddPs s s
  cvtssF32 s

def avx2U8ShrX8 (v8 : Reg) (k : Nat) : Reg :=
  let mul := set1Epi16 (1 <<< (8-k))
  srliEpi16 (mulloEpi16 (cvtepu8Epi16 v8) mul) 8

def avx2I16ToF32X8 (v : Reg) : Ps K := cvtepi32Ps (cvtepi16Epi32 v)

def avx2DotQ6KBlock (s : Source K) (data : Nat) (x : Nat → K) (p : Nat) : K :=
  let d := value (f16At (data+208)) s
  let scales := data+192
  let ql := data
  let qh := data+128
  let nib := set1Epi16 0x0F
  let hi2 := set1Epi16 0x03
  let bias := set1Epi16 32
  let acc := Nat.fold 16 (fun sb _ acc =>
    let sc := signed 8 (s.data (scales+sb)).toNat
    let start := sb*16
    let sub7 := sb &&& 7
    let half := sb >>> 3
    let which := sub7 >>> 1
    let sbpar := sub7 &&& 1
    let qsrc := ql+((half <<< 6)+((which &&& 1) <<< 5)+(sbpar <<< 4))
    let hsrc := qh+((half <<< 5)+(sbpar <<< 4))
    let sum := Nat.fold 2 (fun c _ sum =>
      let lo := andSi (avx2U8ShrX8 (loadlEpi64 s.data (qsrc+c*8)) (if which ≥ 2 then 4 else 0)) nib
      let hi := andSi (avx2U8ShrX8 (loadlEpi64 s.data (hsrc+c*8)) (which*2)) hi2
      let v := subEpi16 (orSi lo (slliEpi16 hi 4)) bias
      fmaddPs (avx2I16ToF32X8 v) (loaduPs x (p+start+c*8)) sum) setzeroPs
    fmaddPs (set1Ps (sc : K)) sum acc) setzeroPs
  d*avx2HsumF32x8 acc

def avx2DotQ4KBlock (s : Source K) (data : Nat) (x : Nat → K) (p : Nat) : K :=
  let d := value (f16At data) s
  let dmin := value (f16At (data+2)) s
  let sm := data+4
  let qs := data+16
  let nib := set1Epi16 0x0F
  let (dotAcc,sumAcc) := Nat.fold 8 (fun sb _ acc =>
    let (sc,mn) := value (q4kScaleMin (K:=K) sm sb) s
    let g := sb >>> 1
    let nb := sb &&& 1
    let src := qs+g*32
    let off := sb*32
    let (dot,sx) := Nat.fold 4 (fun c _ acc =>
      let w := andSi (avx2U8ShrX8 (loadlEpi64 s.data (src+c*8)) (if nb ≠ 0 then 4 else 0)) nib
      let xv := loaduPs x (p+off+c*8)
      (fmaddPs (avx2I16ToF32X8 w) xv acc.1,addPs acc.2 xv)) (setzeroPs,setzeroPs)
    (fmaddPs (set1Ps (sc : K)) dot acc.1,fmaddPs (set1Ps (mn : K)) sx acc.2)) (setzeroPs,setzeroPs)
  d*avx2HsumF32x8 dotAcc-dmin*avx2HsumF32x8 sumAcc

-- The block shapes are those of the batch decoder; not every type has a dot function.
def blockDot (avx2 : Bool) (stale : Nat → Nat) (type : Nat) : Option (Source K → Nat → (Nat → K) → Nat → K) :=
  match type with
  | 2 => some sseDotQ4_0Block
  | 3 => some sseDotQ4_1Block
  | 8 => some sseDotQ8_0Block
  | 20 => some sseDotIq4NlBlock
  | 10 => some (sseDotQ2KBlock stale)
  | 11 => some sseDotQ3KBlock
  | 12 => some (if avx2 then avx2DotQ4KBlock else sseDotQ4KBlock)
  | 13 => some sseDotQ5KBlock
  | 14 => some (if avx2 then avx2DotQ6KBlock else sseDotQ6KBlock)
  | 15 => some sseDotQ8KBlock
  | _ => none

-- for (j = low; j < high; j++) result += gguf_dequant(ti, j) * x[j - i];
def scalarDot (s : Source K) (type i low high : Nat) (x : Nat → K) (result : K) : K :=
  (high-low).fold (fun k _ result => result+value (ggufDequant type (low+k)) s*x (low+k-i)) result

def ggufDotBatch (avx2 : Bool) (stale : Nat → Nat) (s : Source K) (type i n : Nat) (x : Nat → K) : K :=
  match type with
  | 0 => dotF32 s (i*4) x n
  | 1 => dotF16 s (i*2) x n
  | _ =>
    match blockShape type,blockDot avx2 stale type with
    | some (elems,bytes),some dotFn =>
      let stop := i+n
      let bi0 := i/elems
      let bi1 := (stop+elems-1)/elems
      (bi1-bi0).fold (fun t _ result =>
        let bi := bi0+t
        let bs := bi*elems
        let be := bs+elems
        let cs := if i > bs then i else bs
        let ce := if stop < be then stop else be
        if cs = bs ∧ ce = be then result+dotFn s (bi*bytes) x (cs-i) else scalarDot s type i cs ce x result) 0
    | _,_ => scalarDot s type i i (i+n) x 0

end Dot

end TinyLlama.Quants
