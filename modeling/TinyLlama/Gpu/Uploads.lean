import TinyLlama.Gpu.Decoders
import TinyLlama.Quants.Inside

namespace TinyLlama.Gpu
open Quants Access Bits Memory Gguf

-- gpu_cache_upload copies the tensor's own bytes, gpu_load_tables the tables; what lies
-- behind either is the device's.
structure Uploaded {K : Type} (bytes : Nat) (host dev : Source K) : Prop where
  payload : ∀ p < bytes,dev.data p = host.data p
  f16 : dev.f16 = host.f16
  f32 : dev.f32 = host.f32
  f64 : dev.f64 = host.f64
  tables : ∀ book index,index < book.length → dev.entry book index = host.entry book index

def Carried (bytes : Nat) : Touch → Prop
  | .byte position => position < bytes
  | .entry book index => index < book.length

-- Blocks of the upload that reads up to the matrix's last element need.
def UploadReaches (type blocks count : Nat) : Prop :=
  let last := count-1
  match tensorType type with
  | none => True
  | some info => last/info.blockElems < blocks ∧ match type with
    | 17 | 21 => last/256+1 < blocks
    | 18 | 22 => last/256+2 < blocks
    | 23 => False
    | 29 => last/256+1 < blocks ∨ last % 256 < 128
    | _ => True

section Copies
variable {K α β : Type}

-- What reads only copied bytes and entries finds on the device what it finds on the host.
def Copied (x : Access K α) : Prop :=
  ∀ bytes host dev,Uploaded bytes host dev → Within (Carried bytes) x host → value x dev = value x host

theorem copied_pure (a : α) : Copied (pure a : Access K α) := fun _ _ _ _ _ => rfl

theorem copied_bind {x : Access K α} {f : α → Access K β} (first : Copied x) (rest : ∀ a,Copied (f a)) : Copied (x >>= f) := by
  intro bytes host dev up within
  rw [within_bind] at within
  rw [value_bind,value_bind,first bytes host dev up within.1]
  exact rest _ bytes host dev up within.2

theorem copied_byteAt (p : Nat) : Copied (byteAt (K:=K) p) := by
  intro bytes host dev up within
  exact congrArg UInt8.toNat (up.payload p ((within_byteAt p).mp within))

theorem copied_wordAt (width p : Nat) : Copied (wordAt (K:=K) width p) := by
  intro bytes host dev up within
  rw [within_wordAt] at within
  refine load_congr fun q low high => up.payload q ?_
  have carried : p+(q-p) < bytes := within (q-p) (by omega)
  omega

theorem copied_lookup (book : Codebook) (index : Nat) : Copied (lookup (K:=K) book index) := by
  intro bytes host dev up within
  exact up.tables book index ((within_lookup book index).mp within)

theorem copied_f16ToF32 (h : Nat) : Copied (f16ToF32 (K:=K) h) := fun _ _ _ up _ => congrFun up.f16 h
theorem copied_f32OfBits (b : Nat) : Copied (f32OfBits (K:=K) b) := fun _ _ _ up _ => congrFun up.f32 b
theorem copied_f64OfBits (b : Nat) : Copied (f64OfBits (K:=K) b) := fun _ _ _ up _ => congrFun up.f64 b

theorem copied_f16At (p : Nat) : Copied (f16At (K:=K) p) := copied_bind (copied_wordAt 2 p) copied_f16ToF32

theorem copied_q4Nibble (qs o : Nat) : Copied (q4Nibble (K:=K) qs o) := copied_bind (copied_byteAt _) fun _ => copied_pure _

theorem copied_q4kScaleMin (s sb : Nat) : Copied (q4kScaleMin (K:=K) s sb) :=
  copied_bind (copied_byteAt _) fun _ => copied_bind (copied_byteAt _) fun _ => copied_bind (copied_byteAt _) fun _ => copied_pure _

theorem copied_q3kScale (scales s : Nat) : Copied (q3kScale (K:=K) scales s) :=
  copied_bind (copied_byteAt _) fun _ => copied_bind (copied_byteAt _) fun _ => copied_pure _

variable [Field K]

theorem ggufDequant_copied (type i : Nat) : Copied (ggufDequant (K:=K) type i) := by
  unfold ggufDequant
  split
  case h_30 => exact copied_pure 0
  all_goals
    first
      | unfold dequantF32 | unfold dequantF16 | unfold dequantBf16 | unfold dequantF64 | unfold dequantI8 | unfold dequantI16
      | unfold dequantI32 | unfold dequantI64 | unfold dequantQ8_0 | unfold dequantQ8_1 | unfold dequantQ4_0 | unfold dequantQ4_1
      | unfold dequantQ5_0 | unfold dequantQ5_1 | unfold dequantQ8K | unfold dequantQ6K | unfold dequantQ5K | unfold dequantQ4K
      | unfold dequantQ3K | unfold dequantQ2K | unfold dequantIq2Xxs | unfold dequantIq2Xs | unfold dequantIq3Xxs | unfold dequantIq1S
      | unfold dequantIq4Nl | unfold dequantIq1M | unfold dequantIq3S | unfold dequantIq2S | unfold dequantIq4Xs
    repeat' with_reducible first
      | exact copied_pure _ | exact copied_byteAt _ | exact copied_wordAt _ _ | exact copied_lookup _ _ | exact copied_f16At _
      | exact copied_f32OfBits _ | exact copied_f64OfBits _ | exact copied_q4Nibble _ _ | exact copied_q4kScaleMin _ _
      | exact copied_q3kScale _ _ | refine copied_bind ?_ fun _ => ?_ | split

end Copies

section Reads
variable {K : Type} [Field K] {info : GGUFTypeInfo} {type blocks count i : Nat}

theorem inBlock_carried {t : Touch} (here : i/info.blockElems < blocks) (inside : InBlock info i t) : Carried (blocks*info.blockBytes) t := by
  cases t with
  | entry book index => exact inside
  | byte position =>
    have whole : info.blockBytes*(i/info.blockElems+1) ≤ blocks*info.blockBytes := by
      rw [Nat.mul_comm]
      exact Nat.mul_le_mul_right _ here
    exact inside.2.trans_le whole

attribute [local simp] Carried Codebook.length f16At and_one and_three and_seven and_fifteen and_31 and_255 or_lt_256 or_lt_512
  Nat.shiftRight_eq_div_pow Nat.shiftLeft_eq

theorem ggufDequant_carried (s : Source K) (known : tensorType type = some info) (reach : UploadReaches type blocks count)
    (below : i < count) : Within (Carried (blocks*info.blockBytes)) (ggufDequant type i) s := by
  simp only [UploadReaches,known] at reach
  obtain ⟨here,behind⟩ := reach
  have first' : i/info.blockElems < blocks := (Nat.div_le_div_right (by omega)).trans_lt here
  have inside : type ∉ [17,18,21,22,23] → (type = 29 → i % 256 < 128) →
      Within (Carried (blocks*info.blockBytes)) (ggufDequant type i) s := fun plain half t touched =>
    inBlock_carried first' ((ggufDequant_inside_iff s type i info known).mpr ⟨plain,half⟩ t touched)
  have block : i/256 ≤ (count-1)/256 := Nat.div_le_div_right (by omega)
  split at behind
  case h_5 => exact behind.elim
  case h_6 =>
    rcases behind with next' | half
    · cases known
      simp [ggufDequant,dequantIq1M]
      and_intros <;> intros <;> omega
    · by_cases before : i % 256 < 128
      · exact inside (by decide) fun _ => before
      · cases known
        change (count-1)/256 < blocks at here
        simp [ggufDequant,dequantIq1M]
        and_intros <;> intros <;> omega
  case h_7 plain _ _ _ half => exact inside (by simp; tauto) fun same => absurd same half
  all_goals
    cases known
    simp [ggufDequant,dequantIq2Xs,dequantIq3Xxs,dequantIq3S,dequantIq2S]
    and_intros <;> intros <;> omega

end Reads

section Strays
variable {K : Type} [Field K] {info : GGUFTypeInfo} {type blocks : Nat}

def nonzero (bits : Nat) : K := if bits = 0 then 0 else 1

def onesPayload (bytes : Nat) : Source K :=
  ⟨fun p => if p < bytes then 0xFF else 0,nonzero,nonzero,nonzero,fun _ _ => 1⟩

def onesDevice : Source K :=
  ⟨fun _ => 0xFF,nonzero,nonzero,nonzero,fun book index => if index < book.length then 1 else -1⟩

theorem ones_uploaded (bytes : Nat) : Uploaded bytes (onesPayload (K:=K) bytes) onesDevice where
  payload _ below := (if_pos below).symm
  f16 := rfl
  f32 := rfl
  f64 := rfl
  tables _ _ below := if_pos below

theorem ones_byte (p : Nat) : ((onesDevice (K:=K)).data p).toNat = 255 := rfl

theorem ones_load (width p : Nat) : load (width+1) (onesDevice (K:=K)).data p = 255+256*load width (onesDevice (K:=K)).data p := by
  simp [load,LittleEndian.leNat,onesDevice,List.replicate_succ]

theorem ones_float (width p shift : Nat) (some' : 0 < width) :
    nonzero (K:=K) (load width (onesDevice (K:=K)).data p <<< shift) = 1 := by
  obtain ⟨width,rfl⟩ := Nat.exists_eq_add_of_lt some'
  have positive := Nat.two_pow_pos shift
  rw [nonzero,if_neg]
  rw [Nat.zero_add,ones_load,Nat.shiftLeft_eq,Nat.mul_eq_zero]
  omega

theorem ones_bit (p : Nat) : load 4 (onesDevice (K:=K)).data p % 2 = 1 := by
  rw [ones_load]
  omega

theorem ones_signed (p : Nat) : signed 16 (load 2 (onesDevice (K:=K)).data p) = -1 ∧
    signed 32 (load 4 (onesDevice (K:=K)).data p) = -1 ∧ signed 64 (load 8 (onesDevice (K:=K)).data p) = -1 := by
  have none' : load 0 (onesDevice (K:=K)).data p = 0 := rfl
  simp only [ones_load,none']
  decide

theorem ones_entry (book : Codebook) (index : Nat) :
    (onesDevice (K:=K)).entry book index = if index < book.length then 1 else -1 := rfl

theorem ones_floats : (onesDevice (K:=K)).f16 = nonzero ∧ (onesDevice (K:=K)).f32 = nonzero ∧ (onesDevice (K:=K)).f64 = nonzero :=
  ⟨rfl,rfl,rfl⟩

theorem value_dequantI16 (s : Source K) (i : Nat) : (dequantI16 i).value s = (signed 16 (load 2 s.data (2*i)) : K) := rfl
theorem value_dequantI32 (s : Source K) (i : Nat) : (dequantI32 i).value s = (signed 32 (load 4 s.data (4*i)) : K) := rfl
theorem value_dequantI64 (s : Source K) (i : Nat) : (dequantI64 i).value s = (signed 64 (load 8 s.data (8*i)) : K) := rfl

variable {p bytes : Nat}

theorem full_byte (inside : p < bytes) : ((onesPayload (K:=K) bytes).data p).toNat = 255 := by
  simp [onesPayload,inside]

theorem full_half (inside : p+2 ≤ bytes) : nonzero (K:=K) (load 2 (onesPayload (K:=K) bytes).data p) = 1 := by
  have first' : p < bytes := by omega
  have second' : p+1 < bytes := by omega
  simp [load,LittleEndian.leNat,List.range_succ,onesPayload,first',second',nonzero]

theorem past_byte (past : bytes ≤ p) : ((onesPayload (K:=K) bytes).data p).toNat = 0 := by
  simp [onesPayload,Nat.not_lt.mpr past]

theorem past_load (width : Nat) (past : bytes ≤ p) : load width (onesPayload (K:=K) bytes).data p = 0 := by
  have blank : ∀ i ∈ List.range width,(onesPayload (K:=K) bytes).data (p+i) = 0 := by
    intro i _
    exact if_neg (by omega)
  rw [load,List.map_congr_left blank,List.map_const',List.length_range]
  clear blank
  induction width with
  | zero => rfl
  | succ width ih => simpa [List.replicate_succ,LittleEndian.leNat] using ih

theorem payload_entry (book : Codebook) (index : Nat) : (onesPayload (K:=K) bytes).entry book index = 1 := rfl

theorem payload_floats : (onesPayload (K:=K) bytes).f16 = nonzero ∧ (onesPayload (K:=K) bytes).f32 = nonzero ∧
    (onesPayload (K:=K) bytes).f64 = nonzero := ⟨rfl,rfl,rfl⟩

theorem nonzero_zero : nonzero (K:=K) 0 = 0 := rfl

theorem signed_zero (bits : Nat) : signed bits 0 = 0 := signed_of_lt (Nat.two_pow_pos _)

theorem signed_ones : signed 8 255 = -1 := rfl

attribute [local irreducible] onesDevice onesPayload

attribute [local simp] f16At q4Nibble q4kScaleMin q3kScale Codebook.length and_one and_three and_seven and_fifteen and_31 and_63
  and_127 and_255 Nat.shiftRight_eq_div_pow ones_byte ones_bit ones_signed ones_entry ones_floats payload_entry payload_floats
  nonzero_zero signed_zero signed_ones

theorem payload_past (known : tensorType type = some info) {b : Nat} (past : blocks ≤ b) :
    (ggufDequant type (b*info.blockElems)).value (onesPayload (K:=K) (blocks*info.blockBytes)) = 0 := by
  have small := tensorType_lt known
  interval_cases type <;> cases known
  all_goals
    simp (disch := omega) [ggufDequant,dequantF32,dequantF16,dequantBf16,dequantF64,dequantI8,value_dequantI16,
      value_dequantI32,value_dequantI64,dequantQ8_0,dequantQ8_1,dequantQ4_0,dequantQ4_1,dequantQ5_0,dequantQ5_1,dequantQ8K,
      dequantQ6K,dequantQ5K,dequantQ4K,dequantQ3K,dequantQ2K,dequantIq2Xxs,dequantIq2Xs,dequantIq3Xxs,dequantIq1S,dequantIq4Nl,
      dequantIq1M,dequantIq3S,dequantIq2S,dequantIq4Xs,past_byte,past_load]

-- A scale that lies in a block behind its own.
theorem payload_behind {b : Nat} :
    (blocks ≤ b+1 → (dequantIq2Xs (b*256)).value (onesPayload (K:=K) (blocks*74)) = 0 ∧
      (dequantIq3S (b*256)).value (onesPayload (K:=K) (blocks*110)) = 0 ∧
      (dequantIq4Xs (b*256)).value (onesPayload (K:=K) (blocks*136)) = 0) ∧
    (blocks ≤ b+2 → (dequantIq3Xxs (b*256)).value (onesPayload (K:=K) (blocks*98)) = 0 ∧
      (dequantIq2S (b*256)).value (onesPayload (K:=K) (blocks*82)) = 0) := by
  refine ⟨fun last => ⟨?_,?_,?_⟩,fun last => ⟨?_,?_⟩⟩ <;>
    simp (disch := omega) [dequantIq2Xs,dequantIq3S,dequantIq4Xs,dequantIq3Xxs,dequantIq2S,past_byte]

theorem iq2Xs_ones (b : Nat) : (dequantIq2Xs (b*256)).value (onesDevice (K:=K)) = -1 := by
  have single : ∀ p,nonzero (K:=K) (load 2 (onesDevice (K:=K)).data p) = 1 := fun p => ones_float 2 p 0 two_pos
  simp [dequantIq2Xs,single]

variable [LinearOrder K] [IsStrictOrderedRing K]

theorem ones_nonzero (known : tensorType type = some info) (b : Nat) :
    (ggufDequant type (b*info.blockElems)).value (onesDevice (K:=K)) ≠ 0 := by
  have single : ∀ width p,0 < width → nonzero (K:=K) (load width (onesDevice (K:=K)).data p) = 1 := fun width p some' =>
    ones_float width p 0 some'
  have small := tensorType_lt known
  by_cases five : type = 6 ∨ type = 7
  · rcases five with rfl | rfl <;> cases known <;> rw [← Nat.add_zero (b*_)]
    · rw [show ggufDequant 6 (b*32+0) = dequantQ5_0 (K:=K) (b*32+0) from rfl,value_dequantQ5_0 _ b (by decide)]
      norm_num [fifth,nibble,byte,single]
    · rw [show ggufDequant 7 (b*32+0) = dequantQ5_1 (K:=K) (b*32+0) from rfl,value_dequantQ5_1 _ b (by decide)]
      norm_num [fifth,nibble,byte,single]
  · interval_cases type <;> cases known <;> try exact absurd (by decide) five
    all_goals
      simp [ggufDequant,dequantF32,dequantF16,dequantBf16,dequantF64,dequantI8,value_dequantI16,value_dequantI32,
        value_dequantI64,dequantQ8_0,dequantQ8_1,dequantQ4_0,dequantQ4_1,dequantQ8K,dequantQ6K,dequantQ5K,dequantQ4K,dequantQ3K,
        dequantQ2K,dequantIq2Xxs,dequantIq2Xs,dequantIq3Xxs,dequantIq1S,dequantIq4Nl,dequantIq1M,dequantIq3S,dequantIq2S,
        dequantIq4Xs,single,ones_float]
    all_goals norm_num

theorem iq4Xs_differs (wide : 2 ≤ blocks) : (dequantIq4Xs 0).value (onesPayload (K:=K) (blocks*136)) ≠
    (dequantIq4Xs 0).value (onesDevice (K:=K)) := by
  have single : nonzero (K:=K) (load 2 (onesDevice (K:=K)).data 0) = 1 := ones_float 2 0 0 two_pos
  simp (disch := omega) [dequantIq4Xs,full_byte,full_half,single]
  norm_num

theorem iq1M_differs (b : Nat) : (dequantIq1M (b*256+128)).value (onesPayload (K:=K) ((b+1)*56)) ≠
    (dequantIq1M (b*256+128)).value (onesDevice (K:=K)) := by
  have single : ∀ p,nonzero (K:=K) (load 2 (onesDevice (K:=K)).data p) = 1 := fun p => ones_float 2 p 0 two_pos
  simp (disch := omega) [dequantIq1M,full_byte,full_half,past_byte,single]
  norm_num

theorem strays_differ {count : Nat} (known : tensorType type = some info) (some' : 0 < count)
    (short : ¬ UploadReaches type blocks count) : ∃ i < count,
      (ggufDequant type i).value (onesPayload (K:=K) (blocks*info.blockBytes)) ≠ (ggufDequant type i).value (onesDevice (K:=K)) := by
  have empty : ∀ b,b*info.blockElems < count →
      (ggufDequant type (b*info.blockElems)).value (onesPayload (K:=K) (blocks*info.blockBytes)) = 0 → ∃ i < count,
      (ggufDequant type i).value (onesPayload (K:=K) (blocks*info.blockBytes)) ≠ (ggufDequant type i).value (onesDevice (K:=K)) :=
    fun b below zero => ⟨_,below,by rw [zero]; exact (ones_nonzero known b).symm⟩
  have start : (count-1)/info.blockElems*info.blockElems < count := by
    have low := Nat.div_mul_le_self (count-1) info.blockElems
    omega
  simp only [UploadReaches,known,not_and] at short
  by_cases here : (count-1)/info.blockElems < blocks
  · have behind := short here
    split at behind
    case h_1 => cases known; exact empty _ start (payload_behind.1 (not_lt.mp behind)).1
    case h_2 => cases known; exact empty _ start (payload_behind.1 (not_lt.mp behind)).2.1
    case h_3 => cases known; exact empty _ start (payload_behind.2 (not_lt.mp behind)).1
    case h_4 => cases known; exact empty _ start (payload_behind.2 (not_lt.mp behind)).2
    case h_5 =>
      cases known
      by_cases wide : 2 ≤ blocks
      · exact ⟨0,some',iq4Xs_differs wide⟩
      · exact empty _ start (payload_behind.1 (by change blocks ≤ (count-1)/256+1; omega)).2.2
    case h_6 =>
      cases known
      change (count-1)/256 < blocks at here
      clear short empty start
      have below : (count-1)/256*256+128 < count := by omega
      obtain rfl : blocks = (count-1)/256+1 := by omega
      exact ⟨_,below,iq1M_differs (K:=K) ((count-1)/256)⟩
    case h_7 => exact (behind trivial).elim
  · exact empty _ start (payload_past known (not_lt.mp here))

end Strays

end TinyLlama.Gpu
