import TinyLlama.Quants.Layout

-- gpu.cu's decoders of single elements, over the device's own memory and tables.
namespace TinyLlama.Gpu
open Quants Memory Bits Access

namespace Device
variable {K : Type} (w : Source K)

def ldU16 (p : Nat) : Nat := byte w p ||| (byte w (p+1) <<< 8)
def ldU32 (p : Nat) : Nat := byte w p ||| (byte w (p+1) <<< 8) ||| (byte w (p+2) <<< 16) ||| (byte w (p+3) <<< 24)
def ldU64 (p : Nat) : Nat := ldU32 w p ||| (ldU32 w (p+4) <<< 32)
def ldF16 (p : Nat) : K := w.f16 (ldU16 w p)
def ldF32 (p : Nat) : K := w.f32 (ldU32 w p)
def ldF64 (p : Nat) : K := w.f64 (ldU64 w p)
def ldI8 (p : Nat) : Int := signed 8 (byte w p)

def q4kScaleMin (s sb : Nat) : Nat × Nat :=
  let d := byte w (s+(sb &&& 3))
  let m := byte w (s+(4+(sb &&& 3)))
  let md := byte w (s+(8+(sb &&& 3)))
  if sb < 4 then (d &&& 0x3F,m &&& 0x3F)
  else ((md &&& 0x0F) ||| ((d >>> 2) &&& 0x30),(md >>> 4) ||| ((m >>> 2) &&& 0x30))

def q4Nibble (qs o : Nat) : Nat := (byte w (qs+(o &&& 15)) >>> (if o < 16 then 0 else 4)) &&& 0xF

variable [Field K]

def dequantF32 (i : Nat) : K := ldF32 w (i*4)
def dequantF16 (i : Nat) : K := ldF16 w (i*2)
def dequantBf16 (i : Nat) : K := w.f32 (ldU16 w (i*2) <<< 16)
def dequantF64 (i : Nat) : K := ldF64 w (i*8)
def dequantI8 (i : Nat) : K := (ldI8 w i : K)
def dequantI16 (i : Nat) : K := (signed 16 (ldU16 w (i*2)) : K)
def dequantI32 (i : Nat) : K := (signed 32 (ldU32 w (i*4)) : K)
def dequantI64 (i : Nat) : K := (signed 64 (ldU64 w (i*8)) : K)

def dequantQ8_0 (i : Nat) : K :=
  let bi := i >>> 5
  let o := i &&& 31
  let blk := bi*34
  let d := ldF16 w blk
  (ldI8 w (blk+2+o) : K)*d

def dequantQ8_1 (i : Nat) : K :=
  let bi := i >>> 5
  let o := i &&& 31
  let blk := bi*40
  let d := ldF32 w blk
  (ldI8 w (blk+8+o) : K)*d

def dequantQ4_0 (i : Nat) : K :=
  let bi := i >>> 5
  let o := i &&& 31
  let blk := bi*18
  let d := ldF16 w blk
  let nib := q4Nibble w (blk+2) o
  ((nib : K)-8)*d

def dequantQ4_1 (i : Nat) : K :=
  let bi := i >>> 5
  let o := i &&& 31
  let blk := bi*20
  let d := ldF16 w blk
  let m := ldF16 w (blk+2)
  let nib := q4Nibble w (blk+4) o
  (nib : K)*d+m

def dequantQ5_0 (i : Nat) : K :=
  let bi := i >>> 5
  let o := i &&& 31
  let blk := bi*22
  let d := ldF16 w blk
  let qh := ldU32 w (blk+2)
  let hi := (qh >>> o) &&& 1
  let lo := q4Nibble w (blk+6) o
  ((((hi <<< 4) ||| lo : Nat) : K)-16)*d

def dequantQ5_1 (i : Nat) : K :=
  let bi := i >>> 5
  let o := i &&& 31
  let blk := bi*24
  let d := ldF16 w blk
  let m := ldF16 w (blk+2)
  let qh := ldU32 w (blk+4)
  let hi := (qh >>> o) &&& 1
  let lo := q4Nibble w (blk+8) o
  (((hi <<< 4) ||| lo : Nat) : K)*d+m

def dequantQ8K (i : Nat) : K :=
  let bi := i >>> 8
  let o := i &&& 255
  let blk := bi*292
  let d := ldF32 w blk
  let bs := ldF16 w (blk+(4+2*(o >>> 4)))
  (ldI8 w (blk+36+o) : K)*bs*d

def dequantQ6K (i : Nat) : K :=
  let bi := i >>> 8
  let o := i &&& 255
  let blk := bi*210
  let d := ldF16 w (blk+208)
  let sc := ldI8 w (blk+(192+(o >>> 4)))
  let hl := o &&& 127
  let which := hl >>> 5
  let l := hl &&& 31
  let half := o >>> 7
  let qlOff := (half <<< 6)+((which &&& 1) <<< 5)+l
  let lo := if which ≥ 2 then (byte w (blk+qlOff) >>> 4) &&& 0xF else byte w (blk+qlOff) &&& 0xF
  let qhOff := 128+(half <<< 5)+l
  let hi := (byte w (blk+qhOff) >>> (which*2)) &&& 0x3
  let q : Int := (lo ||| (hi <<< 4) : Nat)-32
  d*(sc : K)*(q : K)

def dequantQ5K (i : Nat) : K :=
  let bi := i >>> 8
  let o := i &&& 255
  let blk := bi*176
  let d := ldF16 w blk
  let dmin := ldF16 w (blk+2)
  let sb := o >>> 5
  let (sc,mn) := q4kScaleMin w (blk+4) sb
  let g := o >>> 6
  let nb := (o >>> 5) &&& 1
  let bc := o &&& 31
  let lo := (byte w (blk+(48+g*32+bc)) >>> (nb*4)) &&& 0xF
  let hi := (byte w (blk+(16+(o &&& 31))) >>> (o >>> 5)) &&& 1
  let q : Nat := lo ||| (hi <<< 4)
  d*(sc : K)*(q : K)-dmin*(mn : K)

def dequantQ4K (i : Nat) : K :=
  let bi := i >>> 8
  let o := i &&& 255
  let blk := bi*144
  let d := ldF16 w blk
  let dmin := ldF16 w (blk+2)
  let sb := o >>> 5
  let (sc,mn) := q4kScaleMin w (blk+4) sb
  let g := o >>> 6
  let nb := (o >>> 5) &&& 1
  let bc := o &&& 31
  let nib := (byte w (blk+(16+g*32+bc)) >>> (nb*4)) &&& 0xF
  d*(sc : K)*(nib : K)-dmin*(mn : K)

def dequantQ3K (i : Nat) : K :=
  let bi := i >>> 8
  let o := i &&& 255
  let blk := bi*110
  let d := ldF16 w (blk+108)
  let s := o >>> 4
  let g := o >>> 7
  let pr := (o >>> 5) &&& 3
  let bc := o &&& 31
  let lo := (byte w (blk+(32+g*32+bc)) >>> (pr*2)) &&& 3
  let hi := (byte w (blk+(o &&& 31)) >>> (o >>> 5)) &&& 1
  let scLow := (byte w (blk+(96+(s &&& 7))) >>> (if s ≥ 8 then 4 else 0)) &&& 0xF
  let scHigh := (byte w (blk+(104+(s &&& 3))) >>> ((s >>> 2)*2)) &&& 0x3
  let sc : Int := (scLow ||| (scHigh <<< 4) : Nat)-32
  let q : Int := (lo ||| (hi <<< 2) : Nat)-4
  d*(sc : K)*(q : K)

def dequantQ2K (i : Nat) : K :=
  let bi := i >>> 8
  let o := i &&& 255
  let blk := bi*84
  let d := ldF16 w (blk+(64+16))
  let mn := ldF16 w (blk+(64+16+2))
  let sb := o >>> 4
  let sc := byte w (blk+(64+(sb >>> 1)))
  let sc := if sb &&& 1 ≠ 0 then sc >>> 4 else sc &&& 0xF
  let q2 := (byte w (blk+(o >>> 2)) >>> ((o &&& 3) <<< 1)) &&& 0x3
  let q : Int := (q2 : Int)-(((byte w (blk+(o >>> 3)) >>> (o &&& 7)) &&& 1 : Nat) : Int)*4
  d*(sc : K)*(q : K)-mn

def dequantIq2Xxs (i : Nat) : K :=
  let bi := i >>> 8
  let o := i &&& 255
  let blk := bi*66
  let d := ldF16 w blk
  let q := (byte w (blk+(2+(o >>> 2))) >>> ((o &&& 3) <<< 1)) &&& 0x3
  let signBit := (byte w (blk+(2+(o >>> 3))) >>> (o &&& 7)) &&& 1
  let v := w.entry .iq2XxsGrid (q ||| (signBit <<< 2))
  v*d

def dequantIq2Xs (i : Nat) : K :=
  let bi := i >>> 8
  let o := i &&& 255
  let blk := bi*74
  let d := ldF16 w blk
  let sh := (byte w (blk+(2+(o >>> 3))) >>> (o &&& 7)) &&& 1
  let q := (byte w (blk+(2+32+(o >>> 2))) >>> ((o &&& 3) <<< 1)) &&& 0x3
  let idx := q ||| (sh <<< 2)
  let sc := ldI8 w (blk+(2+32+64+(o >>> 4)))
  d*(sc : K)*w.entry .iq2XsGrid idx

def dequantIq3Xxs (i : Nat) : K :=
  let bi := i >>> 8
  let o := i &&& 255
  let blk := bi*98
  let d := ldF16 w blk
  let qh := (byte w (blk+(2+(o >>> 5))) >>> (o &&& 31)) &&& 1
  let qm := (byte w (blk+(2+8+(o >>> 3))) >>> (o &&& 7)) &&& 1
  let ql := (byte w (blk+(2+8+32+(o >>> 1))) >>> ((o &&& 1) <<< 2)) &&& 0xF
  let grp := (byte w (blk+(2+8+32+128+(o >>> 3))) >>> ((o &&& 7) <<< 1)) &&& 0x3
  let idx := ql ||| (qm <<< 4) ||| (qh <<< 5) ||| (grp <<< 6)
  let sc := ldI8 w (blk+(2+8+32+128+64+(o >>> 4)))
  d*(sc : K)*w.entry .iq3XxsGrid idx

def dequantIq1S (i : Nat) : K :=
  let bi := i >>> 8
  let o := i &&& 255
  let blk := bi*110
  let d := ldF16 w blk
  let q := ((byte w (blk+(2+(o >>> 3))) >>> (o &&& 7)) &&& 1) ||| (((byte w (blk+(2+32+(o >>> 3))) >>> (o &&& 7)) &&& 1) <<< 1)
  let idx := q ||| (((o >>> 4) &&& 0xF) <<< 2)
  d*w.entry .iq1SGrid idx

def dequantIq4Nl (i : Nat) : K :=
  let bi := i >>> 5
  let o := i &&& 31
  let blk := bi*18
  let d := ldF16 w blk
  let q := if o < 16 then byte w (blk+(2+o)) &&& 0xF else byte w (blk+(2+o-16)) >>> 4
  d*w.entry .iq4NlValues q

def dequantIq1M (i : Nat) : K :=
  let bi := i >>> 8
  let o := i &&& 255
  let blk := bi*56
  let d := ldF16 w (blk+54)
  let sb := o >>> 4
  let sc := (byte w (blk+(sb >>> 1)) >>> ((sb &&& 1) <<< 2)) &&& 0xF
  let scF := (sc : K)+1
  let val := (byte w (blk+(8+(o >>> 3))) >>> (o &&& 7)) &&& 1
  let sign := (byte w (blk+(8+32+(o >>> 3))) >>> (o &&& 7)) &&& 1
  let v : K := if sign ≠ 0 then -(val : K) else (val : K)
  v*scF*d

def dequantIq3S (i : Nat) : K :=
  let bi := i >>> 8
  let o := i &&& 255
  let blk := bi*110
  let d := ldF16 w blk
  let sign := (byte w (blk+(2+(o >>> 3))) >>> (o &&& 7)) &&& 1
  let qh := (byte w (blk+(2+32+(o >>> 5))) >>> (o &&& 31)) &&& 1
  let qm := (byte w (blk+(2+32+8+(o >>> 3))) >>> (o &&& 7)) &&& 1
  let ql := (byte w (blk+(2+32+8+32+(o >>> 1))) >>> ((o &&& 1) <<< 2)) &&& 0xF
  let idx := ql ||| (qm <<< 4) ||| (qh <<< 5) ||| (sign <<< 6)
  let sc := ldI8 w (blk+(2+32+8+32+128+(o >>> 4)))
  d*(sc : K)*w.entry .iq3SGrid idx

def dequantIq2S (i : Nat) : K :=
  let bi := i >>> 8
  let o := i &&& 255
  let blk := bi*82
  let d := ldF16 w blk
  let sign := (byte w (blk+(2+(o >>> 3))) >>> (o &&& 7)) &&& 1
  let qh := (byte w (blk+(2+32+(o >>> 5))) >>> (o &&& 31)) &&& 1
  let ql := (byte w (blk+(2+32+8+(o >>> 1))) >>> ((o &&& 1) <<< 2)) &&& 0xF
  let idx := ql ||| (qh <<< 4) ||| (sign <<< 5)
  let sc := ldI8 w (blk+(2+32+8+128+(o >>> 4)+((o >>> 4) &&& 1)*16))
  let scL := (byte w (blk+(2+32+8+128+(o >>> 5))) >>> ((o &&& 31) >>> 2)) &&& 0x3
  let scF : K := (sc : K)+1/8*(scL : K)
  d*scF*w.entry .iq2XsGrid idx

def dequantIq4Xs (i : Nat) : K :=
  let bi := i >>> 8
  let o := i &&& 255
  let blk := bi*136
  let d := ldF16 w blk
  let qh := (byte w (blk+(2+(o >>> 5))) >>> (o &&& 31)) &&& 1
  let ql := (byte w (blk+(2+8+(o >>> 1))) >>> ((o &&& 1) <<< 2)) &&& 0xF
  let q := ql ||| (qh <<< 4)
  let scL := ldI8 w (blk+(2+8+128+(o >>> 4)))
  let scH := ldI8 w (blk+(2+8+128+16+(o >>> 4)))
  let sc : K := (scL : K)+(scH : K)/127
  d*sc*w.entry .iq4NlValues q

end Device

section Dispatch
variable {K : Type} [Field K] (w : Source K)
open Device

def dequantOneT (type : Nat) (w : Source K) (i : Nat) : K :=
  match type with
  | 0 => Device.dequantF32 w i
  | 1 => Device.dequantF16 w i
  | 30 => Device.dequantBf16 w i
  | 28 => Device.dequantF64 w i
  | 24 => Device.dequantI8 w i
  | 25 => Device.dequantI16 w i
  | 26 => Device.dequantI32 w i
  | 27 => Device.dequantI64 w i
  | 8 => Device.dequantQ8_0 w i
  | 9 => Device.dequantQ8_1 w i
  | 2 => Device.dequantQ4_0 w i
  | 3 => Device.dequantQ4_1 w i
  | 6 => Device.dequantQ5_0 w i
  | 7 => Device.dequantQ5_1 w i
  | 15 => Device.dequantQ8K w i
  | 14 => Device.dequantQ6K w i
  | 13 => Device.dequantQ5K w i
  | 12 => Device.dequantQ4K w i
  | 11 => Device.dequantQ3K w i
  | 10 => Device.dequantQ2K w i
  | 16 => Device.dequantIq2Xxs w i
  | 17 => Device.dequantIq2Xs w i
  | 18 => Device.dequantIq3Xxs w i
  | 19 => Device.dequantIq1S w i
  | 20 => Device.dequantIq4Nl w i
  | 29 => Device.dequantIq1M w i
  | 21 => Device.dequantIq3S w i
  | 22 => Device.dequantIq2S w i
  | 23 => Device.dequantIq4Xs w i
  | _ => 0

omit [Field K] in
theorem or_shift {x y k : Nat} (small : x < 2^k) : x ||| (y <<< k) = x+2^k*y := by
  rw [Nat.or_comm,Nat.shiftLeft_eq,Nat.mul_comm,← Nat.two_pow_add_eq_or_of_lt small y,Nat.add_comm]

omit [Field K] in
@[simp] theorem ldU16_load (p : Nat) : ldU16 w p = load 2 w.data p := by
  rw [ldU16,or_shift (k:=8) (byte_lt w p)]
  simp [load,byte,LittleEndian.leNat,List.range_succ]

omit [Field K] in
@[simp] theorem ldU32_load (p : Nat) : ldU32 w p = load 4 w.data p := by
  have b₀ := byte_lt w p
  have b₁ := byte_lt w (p+1)
  have b₂ := byte_lt w (p+2)
  rw [ldU32,or_shift (k:=8) b₀,or_shift (k:=16) (by omega),or_shift (k:=24) (by omega)]
  simp [load,byte,LittleEndian.leNat,List.range_succ]
  omega

omit [Field K] in
@[simp] theorem ldU64_load (p : Nat) : ldU64 w p = load 8 w.data p := by
  have low : load 4 w.data p < 2^32 := load_lt 4 w.data p
  rw [ldU64,ldU32_load,ldU32_load,or_shift low]
  simp [load,LittleEndian.leNat,List.range_succ,Nat.add_assoc]
  omega

omit [Field K] in
theorem q4kScaleMin_host (s sb : Nat) : Device.q4kScaleMin w s sb = (Quants.q4kScaleMin (K:=K) s sb).value w := rfl

theorem dequantQ3K_host (i : Nat) : Device.dequantQ3K w i = (Quants.dequantQ3K i).value w := by
  have high : ∀ k,(i >>> 8)*110+(104+k) = (i >>> 8)*110+96+(8+k) := fun k => by omega
  have low : ∀ k,(i >>> 8)*110+(96+k) = (i >>> 8)*110+96+k := fun k => by omega
  simp only [Device.dequantQ3K,ldF16,ldU16_load,high,low]
  rfl

theorem dequantIq4Nl_host (i : Nat) : Device.dequantIq4Nl w i = (Quants.dequantIq4Nl i).value w := by
  by_cases low : i &&& 31 < 16 <;> simp [Device.dequantIq4Nl,Quants.dequantIq4Nl,f16At,ldF16,byte,low]

theorem dequantOneT_host (type i : Nat) : dequantOneT type w i = (ggufDequant type i).value w := by
  unfold dequantOneT ggufDequant
  split
  case h_1 | h_2 | h_3 | h_4 | h_5 | h_6 | h_7 | h_8 =>
    simp [Device.dequantF32,Device.dequantF16,Device.dequantBf16,Device.dequantF64,Device.dequantI8,Device.dequantI16,
      Device.dequantI32,Device.dequantI64,Quants.dequantF32,Quants.dequantF16,Quants.dequantBf16,Quants.dequantF64,
      Quants.dequantI8,Quants.dequantI16,Quants.dequantI32,Quants.dequantI64,f16At,ldF16,ldF32,ldF64,ldI8,byte,Nat.mul_comm]
  case h_19 => exact dequantQ3K_host w i
  case h_25 => exact dequantIq4Nl_host w i
  all_goals
    try simp only [Device.dequantQ8_0,Device.dequantQ8_1,Device.dequantQ4_0,Device.dequantQ4_1,Device.dequantQ5_0,
      Device.dequantQ5_1,Device.dequantQ8K,Device.dequantQ6K,Device.dequantQ5K,Device.dequantQ4K,Device.dequantQ2K,
      Device.dequantIq2Xxs,Device.dequantIq2Xs,Device.dequantIq3Xxs,Device.dequantIq1S,Device.dequantIq1M,Device.dequantIq3S,
      Device.dequantIq2S,Device.dequantIq4Xs,ldF16,ldF32,ldU16_load,ldU32_load]
    rfl

end Dispatch

end TinyLlama.Gpu
