import TinyLlama.Machine
import TinyLlama.Lib.Memory
import TinyLlama.Lib.Bits

-- quants.c: the scalar decoders. Arithmetic on floats is exact, over a field; what bit patterns stand for is left open.
namespace TinyLlama.Quants
open Memory

inductive Codebook where
  | iq2XxsGrid | iq2XsGrid | iq3XxsGrid | iq1SGrid | iq4NlValues | iq3SGrid
deriving Repr,DecidableEq

def Codebook.length : Codebook → Nat
  | .iq2XxsGrid => 256
  | .iq2XsGrid => 512
  | .iq3XxsGrid => 256
  | .iq1SGrid => 256
  | .iq4NlValues => 16
  | .iq3SGrid => 512

-- A tensor's payload from its data pointer on, and the reading of floats.
structure Source (K : Type) where
  data : Mem
  f16 : Nat → K
  f32 : Nat → K
  f64 : Nat → K
  entry : Codebook → Nat → K

inductive Touch where
  | byte (position : Nat)
  | entry (book : Codebook) (index : Nat)
deriving Repr,DecidableEq

def Access (K α : Type) := Source K → α × List Touch

namespace Access
variable {K α β : Type}

def value (x : Access K α) (s : Source K) : α := (x s).1
def touches (x : Access K α) (s : Source K) : List Touch := (x s).2

instance : Monad (Access K) where
  pure a := fun _ => (a,[])
  bind x f := fun s => ((f (x s).1 s).1,(x s).2++(f (x s).1 s).2)

def byteAt (p : Nat) : Access K Nat := fun s => ((s.data p).toNat,[.byte p])

def wordAt (width p : Nat) : Access K Nat := fun s => (load width s.data p,(List.range width).map fun b => .byte (p+b))

def lookup (book : Codebook) (index : Nat) : Access K K := fun s => (s.entry book index,[.entry book index])

def f16ToF32 (h : Nat) : Access K K := fun s => (s.f16 h,[])
def f32OfBits (w : Nat) : Access K K := fun s => (s.f32 w,[])
def f64OfBits (w : Nat) : Access K K := fun s => (s.f64 w,[])

@[simp] theorem value_pure (a : α) (s : Source K) : value (pure a : Access K α) s = a := rfl
@[simp] theorem value_bind (x : Access K α) (f : α → Access K β) (s : Source K) :
    value (x >>= f) s = value (f (value x s)) s := rfl
@[simp] theorem value_byteAt (p : Nat) (s : Source K) : value (byteAt p) s = (s.data p).toNat := rfl
@[simp] theorem value_wordAt (width p : Nat) (s : Source K) : value (wordAt width p) s = load width s.data p := rfl
@[simp] theorem value_lookup (book : Codebook) (index : Nat) (s : Source K) :
    value (lookup book index) s = s.entry book index := rfl
@[simp] theorem value_f16ToF32 (h : Nat) (s : Source K) : value (f16ToF32 h) s = s.f16 h := rfl
@[simp] theorem value_f32OfBits (w : Nat) (s : Source K) : value (f32OfBits w) s = s.f32 w := rfl
@[simp] theorem value_f64OfBits (w : Nat) (s : Source K) : value (f64OfBits w) s = s.f64 w := rfl

def Within (P : Touch → Prop) (x : Access K α) (s : Source K) : Prop := ∀ t ∈ touches x s,P t

variable {P : Touch → Prop} {s : Source K}

@[simp] theorem within_pure (a : α) : Within P (pure a : Access K α) s ↔ True := by
  simp [Within,touches,pure]

@[simp] theorem within_bind (x : Access K α) (f : α → Access K β) :
    Within P (x >>= f) s ↔ Within P x s ∧ Within P (f (value x s)) s := by
  simp only [Within,touches,bind,List.mem_append]
  exact ⟨fun all => ⟨fun t first => all t (.inl first),fun t later => all t (.inr later)⟩,
    fun ⟨before,after⟩ t member => member.elim (before t) (after t)⟩

@[simp] theorem within_byteAt (p : Nat) : Within P (byteAt p) s ↔ P (.byte p) := by
  simp [Within,touches,byteAt]

@[simp] theorem within_wordAt (width p : Nat) : Within P (wordAt width p) s ↔ ∀ b < width,P (.byte (p+b)) := by
  simp [Within,touches,wordAt]

@[simp] theorem within_lookup (book : Codebook) (index : Nat) :
    Within P (lookup book index) s ↔ P (.entry book index) := by
  simp [Within,touches,lookup]

@[simp] theorem within_f16ToF32 (h : Nat) : Within P (f16ToF32 h) s ↔ True := by simp [Within,touches,f16ToF32]
@[simp] theorem within_f32OfBits (w : Nat) : Within P (f32OfBits w) s ↔ True := by simp [Within,touches,f32OfBits]
@[simp] theorem within_f64OfBits (w : Nat) : Within P (f64OfBits w) s ↔ True := by simp [Within,touches,f64OfBits]

end Access

open Access Bits

section Decoders
variable {K : Type} [Field K]

def f16At (p : Nat) : Access K K := do f16ToF32 (← wordAt 2 p)

def dequantF32 (i : Nat) : Access K K := do f32OfBits (← wordAt 4 (4*i))
def dequantF16 (i : Nat) : Access K K := f16At (2*i)
def dequantBf16 (i : Nat) : Access K K := do f32OfBits ((← wordAt 2 (2*i)) <<< 16)
def dequantF64 (i : Nat) : Access K K := do f64OfBits (← wordAt 8 (8*i))
def dequantI8 (i : Nat) : Access K K := do return (signed 8 (← byteAt i) : K)
def dequantI16 (i : Nat) : Access K K := do return (signed 16 (← wordAt 2 (2*i)) : K)
def dequantI32 (i : Nat) : Access K K := do return (signed 32 (← wordAt 4 (4*i)) : K)
def dequantI64 (i : Nat) : Access K K := do return (signed 64 (← wordAt 8 (8*i)) : K)

def dequantQ8_0 (i : Nat) : Access K K := do
  let bi := i >>> 5
  let o := i &&& 31
  let blk := bi*34
  let d ← f16At blk
  return (signed 8 (← byteAt (blk+2+o)) : K)*d

def dequantQ8_1 (i : Nat) : Access K K := do
  let bi := i >>> 5
  let o := i &&& 31
  let blk := bi*40
  let d ← f32OfBits (← wordAt 4 blk)
  return (signed 8 (← byteAt (blk+8+o)) : K)*d

def q4Nibble (qs o : Nat) : Access K Nat := do
  return ((← byteAt (qs+(o &&& 15))) >>> (if o < 16 then 0 else 4)) &&& 0xF

def dequantQ4_0 (i : Nat) : Access K K := do
  let bi := i >>> 5
  let o := i &&& 31
  let blk := bi*18
  let d ← f16At blk
  let nib ← q4Nibble (blk+2) o
  return ((nib : K)-8)*d

def dequantQ4_1 (i : Nat) : Access K K := do
  let bi := i >>> 5
  let o := i &&& 31
  let blk := bi*20
  let d ← f16At blk
  let m ← f16At (blk+2)
  let nib ← q4Nibble (blk+4) o
  return (nib : K)*d+m

def dequantQ5_0 (i : Nat) : Access K K := do
  let bi := i >>> 5
  let o := i &&& 31
  let blk := bi*22
  let d ← f16At blk
  let qh ← wordAt 4 (blk+2)
  let hi := (qh >>> o) &&& 1
  let lo ← q4Nibble (blk+6) o
  return ((((hi <<< 4) ||| lo : Nat) : K)-16)*d

def dequantQ5_1 (i : Nat) : Access K K := do
  let bi := i >>> 5
  let o := i &&& 31
  let blk := bi*24
  let d ← f16At blk
  let m ← f16At (blk+2)
  let qh ← wordAt 4 (blk+4)
  let hi := (qh >>> o) &&& 1
  let lo ← q4Nibble (blk+8) o
  return (((hi <<< 4) ||| lo : Nat) : K)*d+m

def q4kScaleMin (s sb : Nat) : Access K (Nat × Nat) := do
  let d ← byteAt (s+(sb &&& 3))
  let m ← byteAt (s+(4+(sb &&& 3)))
  let md ← byteAt (s+(8+(sb &&& 3)))
  return if sb < 4 then (d &&& 0x3F,m &&& 0x3F)
    else ((md &&& 0x0F) ||| ((d >>> 2) &&& 0x30),(md >>> 4) ||| ((m >>> 2) &&& 0x30))

def dequantQ8K (i : Nat) : Access K K := do
  let bi := i >>> 8
  let o := i &&& 255
  let blk := bi*292
  let d ← f32OfBits (← wordAt 4 blk)
  let bs ← f16At (blk+(4+2*(o >>> 4)))
  return (signed 8 (← byteAt (blk+36+o)) : K)*bs*d

def dequantQ6K (i : Nat) : Access K K := do
  let bi := i >>> 8
  let o := i &&& 255
  let blk := bi*210
  let d ← f16At (blk+208)
  let sc := signed 8 (← byteAt (blk+(192+(o >>> 4))))
  let hl := o &&& 127
  let which := hl >>> 5
  let l := hl &&& 31
  let half := o >>> 7
  let qlOff := (half <<< 6)+((which &&& 1) <<< 5)+l
  let ql ← byteAt (blk+qlOff)
  let lo := if which ≥ 2 then (ql >>> 4) &&& 0xF else ql &&& 0xF
  let qhOff := 128+(half <<< 5)+l
  let hi := ((← byteAt (blk+qhOff)) >>> (which*2)) &&& 0x3
  let q : Int := (lo ||| (hi <<< 4) : Nat)-32
  return d*(sc : K)*(q : K)

def dequantQ5K (i : Nat) : Access K K := do
  let bi := i >>> 8
  let o := i &&& 255
  let blk := bi*176
  let d ← f16At blk
  let dmin ← f16At (blk+2)
  let sb := o >>> 5
  let (sc,mn) ← q4kScaleMin (blk+4) sb
  let g := o >>> 6
  let nb := (o >>> 5) &&& 1
  let bc := o &&& 31
  let lo := ((← byteAt (blk+(48+g*32+bc))) >>> (nb*4)) &&& 0xF
  let hi := ((← byteAt (blk+(16+(o &&& 31)))) >>> (o >>> 5)) &&& 1
  let q : Nat := lo ||| (hi <<< 4)
  return d*(sc : K)*(q : K)-dmin*(mn : K)

def dequantQ4K (i : Nat) : Access K K := do
  let bi := i >>> 8
  let o := i &&& 255
  let blk := bi*144
  let d ← f16At blk
  let dmin ← f16At (blk+2)
  let sb := o >>> 5
  let (sc,mn) ← q4kScaleMin (blk+4) sb
  let g := o >>> 6
  let nb := (o >>> 5) &&& 1
  let bc := o &&& 31
  let nib := ((← byteAt (blk+(16+g*32+bc))) >>> (nb*4)) &&& 0xF
  return d*(sc : K)*(nib : K)-dmin*(mn : K)

def q3kScale (scales s : Nat) : Access K Int := do
  let low := ((← byteAt (scales+(s &&& 7))) >>> (if s ≥ 8 then 4 else 0)) &&& 0xF
  let high := ((← byteAt (scales+(8+(s &&& 3)))) >>> ((s >>> 2)*2)) &&& 0x3
  return (low ||| (high <<< 4) : Nat)-32

def dequantQ3K (i : Nat) : Access K K := do
  let bi := i >>> 8
  let o := i &&& 255
  let blk := bi*110
  let d ← f16At (blk+108)
  let s := o >>> 4
  let g := o >>> 7
  let pr := (o >>> 5) &&& 3
  let bc := o &&& 31
  let lo := ((← byteAt (blk+(32+g*32+bc))) >>> (pr*2)) &&& 3
  let hi := ((← byteAt (blk+(o &&& 31))) >>> (o >>> 5)) &&& 1
  let sc ← q3kScale (blk+96) s
  let q : Int := (lo ||| (hi <<< 2) : Nat)-4
  return d*(sc : K)*(q : K)

def dequantQ2K (i : Nat) : Access K K := do
  let bi := i >>> 8
  let o := i &&& 255
  let blk := bi*84
  let d ← f16At (blk+(64+16))
  let mn ← f16At (blk+(64+16+2))
  let sb := o >>> 4
  let sc ← byteAt (blk+(64+(sb >>> 1)))
  let sc := if sb &&& 1 ≠ 0 then sc >>> 4 else sc &&& 0xF
  let q2 := ((← byteAt (blk+(o >>> 2))) >>> ((o &&& 3) <<< 1)) &&& 0x3
  let sign := ((← byteAt (blk+(o >>> 3))) >>> (o &&& 7)) &&& 1
  let q : Int := (q2 : Int)-(sign : Int)*4
  return d*(sc : K)*(q : K)-mn

def dequantIq2Xxs (i : Nat) : Access K K := do
  let bi := i >>> 8
  let o := i &&& 255
  let blk := bi*66
  let d ← f16At blk
  let q := ((← byteAt (blk+(2+(o >>> 2)))) >>> ((o &&& 3) <<< 1)) &&& 0x3
  let signBit := ((← byteAt (blk+(2+(o >>> 3)))) >>> (o &&& 7)) &&& 1
  let v ← lookup .iq2XxsGrid (q ||| (signBit <<< 2))
  return v*d

def dequantIq2Xs (i : Nat) : Access K K := do
  let bi := i >>> 8
  let o := i &&& 255
  let blk := bi*74
  let d ← f16At blk
  let sh := ((← byteAt (blk+(2+(o >>> 3)))) >>> (o &&& 7)) &&& 1
  let q := ((← byteAt (blk+(2+32+(o >>> 2)))) >>> ((o &&& 3) <<< 1)) &&& 0x3
  let idx := q ||| (sh <<< 2)
  let sc := signed 8 (← byteAt (blk+(2+32+64+(o >>> 4))))
  return d*(sc : K)*(← lookup .iq2XsGrid idx)

def dequantIq3Xxs (i : Nat) : Access K K := do
  let bi := i >>> 8
  let o := i &&& 255
  let blk := bi*98
  let d ← f16At blk
  let qh := ((← byteAt (blk+(2+(o >>> 5)))) >>> (o &&& 31)) &&& 1
  let qm := ((← byteAt (blk+(2+8+(o >>> 3)))) >>> (o &&& 7)) &&& 1
  let ql := ((← byteAt (blk+(2+8+32+(o >>> 1)))) >>> ((o &&& 1) <<< 2)) &&& 0xF
  let grp := ((← byteAt (blk+(2+8+32+128+(o >>> 3)))) >>> ((o &&& 7) <<< 1)) &&& 0x3
  let idx := ql ||| (qm <<< 4) ||| (qh <<< 5) ||| (grp <<< 6)
  let sc := signed 8 (← byteAt (blk+(2+8+32+128+64+(o >>> 4))))
  return d*(sc : K)*(← lookup .iq3XxsGrid idx)

def dequantIq1S (i : Nat) : Access K K := do
  let bi := i >>> 8
  let o := i &&& 255
  let blk := bi*110
  let d ← f16At blk
  let low := ((← byteAt (blk+(2+(o >>> 3)))) >>> (o &&& 7)) &&& 1
  let high := ((← byteAt (blk+(2+32+(o >>> 3)))) >>> (o &&& 7)) &&& 1
  let q := low ||| (high <<< 1)
  let idx := q ||| (((o >>> 4) &&& 0xF) <<< 2)
  return d*(← lookup .iq1SGrid idx)

def dequantIq4Nl (i : Nat) : Access K K := do
  let bi := i >>> 5
  let o := i &&& 31
  let blk := bi*18
  let d ← f16At blk
  let q ← if o < 16 then (do return (← byteAt (blk+(2+o))) &&& 0xF) else (do return (← byteAt (blk+(2+o-16))) >>> 4)
  return d*(← lookup .iq4NlValues q)

def dequantIq1M (i : Nat) : Access K K := do
  let bi := i >>> 8
  let o := i &&& 255
  let blk := bi*56
  let d ← f16At (blk+54)
  let sb := o >>> 4
  let sc := ((← byteAt (blk+(sb >>> 1))) >>> ((sb &&& 1) <<< 2)) &&& 0xF
  let val := ((← byteAt (blk+(8+(o >>> 3)))) >>> (o &&& 7)) &&& 1
  let sign := ((← byteAt (blk+(8+32+(o >>> 3)))) >>> (o &&& 7)) &&& 1
  let v : K := if sign ≠ 0 then -(val : K) else (val : K)
  return v*((sc : K)+1)*d

def dequantIq3S (i : Nat) : Access K K := do
  let bi := i >>> 8
  let o := i &&& 255
  let blk := bi*110
  let d ← f16At blk
  let sign := ((← byteAt (blk+(2+(o >>> 3)))) >>> (o &&& 7)) &&& 1
  let qh := ((← byteAt (blk+(2+32+(o >>> 5)))) >>> (o &&& 31)) &&& 1
  let qm := ((← byteAt (blk+(2+32+8+(o >>> 3)))) >>> (o &&& 7)) &&& 1
  let ql := ((← byteAt (blk+(2+32+8+32+(o >>> 1)))) >>> ((o &&& 1) <<< 2)) &&& 0xF
  let idx := ql ||| (qm <<< 4) ||| (qh <<< 5) ||| (sign <<< 6)
  let sc := signed 8 (← byteAt (blk+(2+32+8+32+128+(o >>> 4))))
  return d*(sc : K)*(← lookup .iq3SGrid idx)

def dequantIq2S (i : Nat) : Access K K := do
  let bi := i >>> 8
  let o := i &&& 255
  let blk := bi*82
  let d ← f16At blk
  let sign := ((← byteAt (blk+(2+(o >>> 3)))) >>> (o &&& 7)) &&& 1
  let qh := ((← byteAt (blk+(2+32+(o >>> 5)))) >>> (o &&& 31)) &&& 1
  let ql := ((← byteAt (blk+(2+32+8+(o >>> 1)))) >>> ((o &&& 1) <<< 2)) &&& 0xF
  let idx := ql ||| (qh <<< 4) ||| (sign <<< 5)
  let sc := signed 8 (← byteAt (blk+(2+32+8+128+(o >>> 4)+((o >>> 4) &&& 1)*16)))
  let scL := ((← byteAt (blk+(2+32+8+128+(o >>> 5)))) >>> ((o &&& 31) >>> 2)) &&& 0x3
  let scF : K := (sc : K)+1/8*(scL : K)
  return d*scF*(← lookup .iq2XsGrid idx)

def dequantIq4Xs (i : Nat) : Access K K := do
  let bi := i >>> 8
  let o := i &&& 255
  let blk := bi*136
  let d ← f16At blk
  let qh := ((← byteAt (blk+(2+(o >>> 5)))) >>> (o &&& 31)) &&& 1
  let ql := ((← byteAt (blk+(2+8+(o >>> 1)))) >>> ((o &&& 1) <<< 2)) &&& 0xF
  let q := ql ||| (qh <<< 4)
  let scL := signed 8 (← byteAt (blk+(2+8+128+(o >>> 4))))
  let scH := signed 8 (← byteAt (blk+(2+8+128+16+(o >>> 4))))
  let sc : K := (scL : K)+(scH : K)/127
  return d*sc*(← lookup .iq4NlValues q)

-- A type outside the dispatch is reported and read as zero.
def ggufDequant (type i : Nat) : Access K K :=
  match type with
  | 0 => dequantF32 i
  | 1 => dequantF16 i
  | 30 => dequantBf16 i
  | 28 => dequantF64 i
  | 24 => dequantI8 i
  | 25 => dequantI16 i
  | 26 => dequantI32 i
  | 27 => dequantI64 i
  | 8 => dequantQ8_0 i
  | 9 => dequantQ8_1 i
  | 2 => dequantQ4_0 i
  | 3 => dequantQ4_1 i
  | 6 => dequantQ5_0 i
  | 7 => dequantQ5_1 i
  | 15 => dequantQ8K i
  | 14 => dequantQ6K i
  | 13 => dequantQ5K i
  | 12 => dequantQ4K i
  | 11 => dequantQ3K i
  | 10 => dequantQ2K i
  | 16 => dequantIq2Xxs i
  | 17 => dequantIq2Xs i
  | 18 => dequantIq3Xxs i
  | 19 => dequantIq1S i
  | 20 => dequantIq4Nl i
  | 29 => dequantIq1M i
  | 21 => dequantIq3S i
  | 22 => dequantIq2S i
  | 23 => dequantIq4Xs i
  | _ => pure 0

end Decoders

end TinyLlama.Quants
