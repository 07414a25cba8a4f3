import TinyLlama.Quants.Scalar
import TinyLlama.Gguf.Load

namespace TinyLlama.Quants
open Access Bits Gguf
variable {K : Type}

-- The bytes of the block that holds element i, and the entries a codebook has.
def InBlock (info : GGUFTypeInfo) (i : Nat) : Touch → Prop
  | .byte position =>
    info.blockBytes*(i/info.blockElems) ≤ position ∧ position < info.blockBytes*(i/info.blockElems+1)
  | .entry book index => index < book.length

attribute [local simp] InBlock Codebook.length f16At q4Nibble q4kScaleMin q3kScale
  and_one and_three and_seven and_fifteen and_31 and_63 and_127 and_255 or_lt_256 or_lt_512
  Nat.shiftRight_eq_div_pow Nat.shiftLeft_eq

@[simp] theorem dequantF32_inside (s : Source K) (i : Nat) : Within (InBlock ⟨1,4⟩ i) (dequantF32 i) s := by
  simp [dequantF32]
  intros
  omega

@[simp] theorem dequantF16_inside (s : Source K) (i : Nat) : Within (InBlock ⟨1,2⟩ i) (dequantF16 i) s := by
  simp [dequantF16]
  intros
  omega

@[simp] theorem dequantBf16_inside (s : Source K) (i : Nat) : Within (InBlock ⟨1,2⟩ i) (dequantBf16 i) s := by
  simp [dequantBf16]
  intros
  omega

@[simp] theorem dequantF64_inside (s : Source K) (i : Nat) : Within (InBlock ⟨1,8⟩ i) (dequantF64 i) s := by
  simp [dequantF64]
  intros
  omega

variable [Field K]

@[simp] theorem dequantI8_inside (s : Source K) (i : Nat) : Within (InBlock ⟨1,1⟩ i) (dequantI8 i) s := by
  simp [dequantI8]

@[simp] theorem dequantI16_inside (s : Source K) (i : Nat) : Within (InBlock ⟨1,2⟩ i) (dequantI16 i) s := by
  simp [dequantI16]
  intros
  omega

@[simp] theorem dequantI32_inside (s : Source K) (i : Nat) : Within (InBlock ⟨1,4⟩ i) (dequantI32 i) s := by
  simp [dequantI32]
  intros
  omega

@[simp] theorem dequantI64_inside (s : Source K) (i : Nat) : Within (InBlock ⟨1,8⟩ i) (dequantI64 i) s := by
  simp [dequantI64]
  intros
  omega

@[simp] theorem dequantQ8_0_inside (s : Source K) (i : Nat) : Within (InBlock ⟨32,34⟩ i) (dequantQ8_0 i) s := by
  simp [dequantQ8_0]
  and_intros <;> intros <;> omega

@[simp] theorem dequantQ8_1_inside (s : Source K) (i : Nat) : Within (InBlock ⟨32,40⟩ i) (dequantQ8_1 i) s := by
  simp [dequantQ8_1]
  and_intros <;> intros <;> omega

@[simp] theorem dequantQ4_0_inside (s : Source K) (i : Nat) : Within (InBlock ⟨32,18⟩ i) (dequantQ4_0 i) s := by
  simp [dequantQ4_0]
  and_intros <;> intros <;> omega

@[simp] theorem dequantQ4_1_inside (s : Source K) (i : Nat) : Within (InBlock ⟨32,20⟩ i) (dequantQ4_1 i) s := by
  simp [dequantQ4_1]
  and_intros <;> intros <;> omega

@[simp] theorem dequantQ5_0_inside (s : Source K) (i : Nat) : Within (InBlock ⟨32,22⟩ i) (dequantQ5_0 i) s := by
  simp [dequantQ5_0]
  and_intros <;> intros <;> omega

@[simp] theorem dequantQ5_1_inside (s : Source K) (i : Nat) : Within (InBlock ⟨32,24⟩ i) (dequantQ5_1 i) s := by
  simp [dequantQ5_1]
  and_intros <;> intros <;> omega

@[simp] theorem dequantQ8K_inside (s : Source K) (i : Nat) : Within (InBlock ⟨256,292⟩ i) (dequantQ8K i) s := by
  simp [dequantQ8K]
  and_intros <;> intros <;> omega

@[simp] theorem dequantQ6K_inside (s : Source K) (i : Nat) : Within (InBlock ⟨256,210⟩ i) (dequantQ6K i) s := by
  simp [dequantQ6K]
  and_intros <;> intros <;> omega

@[simp] theorem dequantQ5K_inside (s : Source K) (i : Nat) : Within (InBlock ⟨256,176⟩ i) (dequantQ5K i) s := by
  simp [dequantQ5K]
  and_intros <;> intros <;> omega

@[simp] theorem dequantQ4K_inside (s : Source K) (i : Nat) : Within (InBlock ⟨256,144⟩ i) (dequantQ4K i) s := by
  simp [dequantQ4K]
  and_intros <;> intros <;> omega

@[simp] theorem dequantQ3K_inside (s : Source K) (i : Nat) : Within (InBlock ⟨256,110⟩ i) (dequantQ3K i) s := by
  simp [dequantQ3K]
  and_intros <;> intros <;> omega

@[simp] theorem dequantQ2K_inside (s : Source K) (i : Nat) : Within (InBlock ⟨256,84⟩ i) (dequantQ2K i) s := by
  simp [dequantQ2K]
  and_intros <;> intros <;> omega

@[simp] theorem dequantIq2Xxs_inside (s : Source K) (i : Nat) : Within (InBlock ⟨256,66⟩ i) (dequantIq2Xxs i) s := by
  simp [dequantIq2Xxs]
  and_intros <;> intros <;> omega

@[simp] theorem dequantIq1S_inside (s : Source K) (i : Nat) : Within (InBlock ⟨256,110⟩ i) (dequantIq1S i) s := by
  simp [dequantIq1S]
  and_intros <;> intros <;> omega

@[simp] theorem dequantIq4Nl_inside (s : Source K) (i : Nat) : Within (InBlock ⟨32,18⟩ i) (dequantIq4Nl i) s := by
  have fits := (s.data (i/32*18+(2+i % 32-16))).toNat_lt
  by_cases low : i % 32 < 16
  all_goals
    simp [dequantIq4Nl,low]
    and_intros <;> intros <;> omega

@[simp] theorem dequantIq2Xs_outside (s : Source K) (i : Nat) : ¬Within (InBlock ⟨256,74⟩ i) (dequantIq2Xs i) s := by
  intro inside
  simp [dequantIq2Xs] at inside
  omega

@[simp] theorem dequantIq3Xxs_outside (s : Source K) (i : Nat) : ¬Within (InBlock ⟨256,98⟩ i) (dequantIq3Xxs i) s := by
  intro inside
  simp [dequantIq3Xxs] at inside
  omega

@[simp] theorem dequantIq3S_outside (s : Source K) (i : Nat) : ¬Within (InBlock ⟨256,110⟩ i) (dequantIq3S i) s := by
  intro inside
  simp [dequantIq3S] at inside
  omega

@[simp] theorem dequantIq2S_outside (s : Source K) (i : Nat) : ¬Within (InBlock ⟨256,82⟩ i) (dequantIq2S i) s := by
  intro inside
  simp [dequantIq2S] at inside
  omega

@[simp] theorem dequantIq4Xs_outside (s : Source K) (i : Nat) : ¬Within (InBlock ⟨256,136⟩ i) (dequantIq4Xs i) s := by
  intro inside
  simp [dequantIq4Xs] at inside
  omega

@[simp] theorem dequantIq1M_inside_iff (s : Source K) (i : Nat) :
    Within (InBlock ⟨256,56⟩ i) (dequantIq1M i) s ↔ i % 256 < 128 := by
  constructor
  · intro inside
    simp [dequantIq1M] at inside
    omega
  · intro small
    simp [dequantIq1M]
    and_intros <;> intros <;> omega

theorem tensorType_lt {type : Nat} {info : GGUFTypeInfo} (known : tensorType type = some info) : type < 31 := by
  by_contra large
  have absent : ggufTypes[type]? = none := List.getElem?_eq_none (not_lt.mp large)
  simp [tensorType,absent] at known

-- Five decoders read past their block on every element and one on half of them;
-- all others stay inside.
theorem ggufDequant_inside_iff (s : Source K) (type i : Nat) (info : GGUFTypeInfo)
    (known : tensorType type = some info) : Within (InBlock info i) (ggufDequant type i) s ↔
      type ∉ [17,18,21,22,23] ∧ (type = 29 → i % 256 < 128) := by
  have small := tensorType_lt known
  interval_cases type <;> cases known
  all_goals simp [ggufDequant]

theorem ggufDequant_inside_q4 : Within (InBlock ⟨32,18⟩ 40) (ggufDequant 2 40)
    (⟨fun _ => 0,fun _ => 0,fun _ => 0,fun _ => 0,fun _ _ => 0⟩ : Source ℚ) :=
  (ggufDequant_inside_iff _ 2 40 ⟨32,18⟩ (by decide)).mpr (by decide)

-- The first element of an IQ2_XS tensor of one block: its scale lies at byte 98 of 74.
theorem iq2Xs_strays : ¬∀ (s : Source ℚ) (type i : Nat) (info : GGUFTypeInfo),tensorType type = some info →
    Within (InBlock info i) (ggufDequant type i) s := by
  intro all
  have scale := all ⟨fun _ => 0,fun _ => 0,fun _ => 0,fun _ => 0,fun _ _ => 0⟩ 17 0 ⟨256,74⟩ (by decide) (.byte 98)
    (by decide)
  exact absurd scale.2 (by decide)

end TinyLlama.Quants
