import TinyLlama.Machine

-- chat.c: utf8_valid, against the encodings of the Unicode scalar values.
namespace TinyLlama.Chat

-- The inner loop: every continuation byte adds six bits to the code point.
def continuations : Nat → List UInt8 → Option Nat
  | cp,[] => some cp
  | cp,cc :: rest => if cc &&& 0xC0 ≠ 0x80 then none else continuations (cp <<< 6 ||| (cc &&& 0x3F).toNat) rest

-- n, and what the lead byte gives of cp.
def leadByte (c : UInt8) : Option (Nat × Nat) :=
  if c &&& 0xE0 = 0xC0 then some (2,(c &&& 0x1F).toNat)
  else if c &&& 0xF0 = 0xE0 then some (3,(c &&& 0x0F).toNat)
  else if c &&& 0xF8 = 0xF0 then some (4,(c &&& 0x07).toNat)
  else none

-- Overlong, above U+10FFFF, or a surrogate.
def refused (n cp : Nat) : Bool :=
  (n = 2 ∧ cp < 0x80) ∨ (n = 3 ∧ cp < 0x800) ∨ (n = 4 ∧ cp < 0x10000) ∨ cp > 0x10FFFF ∨ (cp ≥ 0xD800 ∧ cp ≤ 0xDFFF)

-- The bytes that one round of the loop passes; `none` where it returns false.
def characterLength (c : UInt8) (rest : List UInt8) : Option Nat :=
  if c < 0x80 then some 1
  else match leadByte c with
    | none => none
    | some (n,cp) =>
      if n > rest.length+1 then none
      else match continuations cp (rest.take (n-1)) with
        | none => none
        | some cp => if refused n cp then none else some n

-- A round passes at least one byte, so the length bounds the rounds.
def utf8ValidFrom : Nat → List UInt8 → Bool
  | _,[] => true
  | 0,_ => false
  | fuel+1,c :: rest =>
    match characterLength c rest with
    | none => false
    | some n => utf8ValidFrom fuel (rest.drop (n-1))

def utf8Valid (s : List UInt8) : Bool := utf8ValidFrom s.length s

section Bytes

theorem leadByte_table : ∀ n < 256,leadByte (UInt8.ofNat n) =
    if 192 ≤ n ∧ n < 224 then some (2,n-192) else if 224 ≤ n ∧ n < 240 then some (3,n-224)
    else if 240 ≤ n ∧ n < 248 then some (4,n-240) else none := by
  decide +kernel

theorem leadByte_eq (c : UInt8) : leadByte c =
    if 192 ≤ c.toNat ∧ c.toNat < 224 then some (2,c.toNat-192) else if 224 ≤ c.toNat ∧ c.toNat < 240 then some (3,c.toNat-224)
    else if 240 ≤ c.toNat ∧ c.toNat < 248 then some (4,c.toNat-240) else none := by
  have entry := leadByte_table c.toNat c.toNat_lt
  rwa [UInt8.ofNat_toNat] at entry

theorem continuation_table : ∀ n < 256,(UInt8.ofNat n &&& 0xC0 = 0x80 ↔ 128 ≤ n ∧ n < 192) ∧ (UInt8.ofNat n &&& 0x3F).toNat = n%64 := by
  decide +kernel

theorem continuations_nil (cp : Nat) : continuations cp [] = some cp := rfl

theorem continuations_cons (cp : Nat) (cc : UInt8) (rest : List UInt8) : continuations cp (cc :: rest) =
    if 128 ≤ cc.toNat ∧ cc.toNat < 192 then continuations (cp*64+cc.toNat%64) rest else none := by
  obtain ⟨tail,bits⟩ := continuation_table cc.toNat cc.toNat_lt
  rw [UInt8.ofNat_toNat] at tail bits
  have low : cc.toNat%64 < 2^6 := Nat.mod_lt _ (by decide)
  have joined : cp <<< 6 ||| cc.toNat%64 = cp*64+cc.toNat%64 := by
    rw [← Nat.shiftLeft_add_eq_or_of_lt low,Nat.shiftLeft_eq]
  rw [continuations,bits,joined]
  by_cases inside : 128 ≤ cc.toNat ∧ cc.toNat < 192
  · rw [if_neg (not_not.mpr (tail.mpr inside)),if_pos inside]
  · rw [if_pos fun same => inside (tail.mp same),if_neg inside]

theorem byte_of (value : x = b.toNat) : UInt8.ofNat x = b := by
  rw [value,UInt8.ofNat_toNat]

end Bytes

section Characters

theorem scalar_char (v : Nat) (valid : v < 0xD800 ∨ 0xDFFF < v ∧ v < 0x110000) : ∃ ch : Char,ch.val.toNat = v :=
  ⟨Char.ofNat v,by
    rw [Char.ofNat,dif_pos valid]
    exact UInt32.toNat_ofNatLT⟩

theorem characterLength_lead (high : ¬ c < 0x80) (lead : leadByte c = some (n,cp)) : characterLength c rest = some m ↔
    m = n ∧ n ≤ rest.length+1 ∧ ∃ v,continuations cp (rest.take (n-1)) = some v ∧ refused n v = false := by
  rw [characterLength,if_neg high,lead]
  dsimp only
  by_cases short : n > rest.length+1
  · rw [if_pos short]
    exact ⟨fun none' => (by cases none'),fun all => absurd all.2.1 (by omega)⟩
  · rw [if_neg short]
    cases read : continuations cp (rest.take (n-1)) with
    | none => simp
    | some v =>
      cases bad : refused n v with
      | true => simp [bad]
      | false =>
        simp only [Bool.false_eq_true,if_false,Option.some.injEq,exists_eq_left',bad,and_true]
        exact ⟨fun same => ⟨same.symm,by omega⟩,fun both => both.1.symm⟩

theorem byte_high {c : UInt8} : ¬ c < 0x80 ↔ 128 ≤ c.toNat := by
  rw [UInt8.lt_iff_toNat_lt,Nat.not_lt]
  rfl

theorem characterLength_sound (found : characterLength c rest = some n) :
    ∃ ch : Char,String.utf8EncodeChar ch = c :: rest.take (n-1) := by
  by_cases ascii : c < 0x80
  · rw [characterLength,if_pos ascii] at found
    cases found
    have small : c.toNat < 128 := UInt8.lt_iff_toNat_lt.mp ascii
    obtain ⟨ch,value⟩ := scalar_char c.toNat (by omega)
    refine ⟨ch,?_⟩
    rw [String.utf8EncodeChar,value,if_pos (by omega),UInt8.ofNat_toNat,List.take_zero]
  cases lead : leadByte c with
  | none =>
    rw [characterLength,if_neg ascii,lead] at found
    cases found
  | some parts =>
    obtain ⟨width,cp⟩ := parts
    obtain ⟨rfl,long,v,read,legal⟩ := (characterLength_lead ascii lead).mp found
    have bits := leadByte_eq c
    rw [lead] at bits
    have legal' := of_decide_eq_false legal
    split_ifs at bits with two three four
    · cases bits
      obtain ⟨b,tail,rfl⟩ : ∃ b tail,rest = b :: tail := List.exists_cons_of_length_pos (by omega)
      simp only [Nat.add_one_sub_one,List.take_succ_cons,List.take_zero,continuations_cons,continuations_nil] at read ⊢
      split_ifs at read with first'
      cases read
      obtain ⟨ch,value⟩ := scalar_char ((c.toNat-192)*64+b.toNat%64) (by omega)
      refine ⟨ch,?_⟩
      rw [String.utf8EncodeChar,value,if_neg (by omega),if_pos (by omega),List.cons.injEq,List.cons.injEq]
      exact ⟨byte_of (by omega),byte_of (by omega),rfl⟩
    · cases bits
      obtain ⟨b,tail,rfl⟩ : ∃ b tail,rest = b :: tail := List.exists_cons_of_length_pos (by omega)
      obtain ⟨d,tail,rfl⟩ : ∃ d tail',tail = d :: tail' := List.exists_cons_of_length_pos (by simp only [List.length_cons] at long; omega)
      simp only [Nat.add_one_sub_one,List.take_succ_cons,List.take_zero,continuations_cons,continuations_nil] at read ⊢
      split_ifs at read with first' second
      cases read
      obtain ⟨ch,value⟩ := scalar_char (((c.toNat-224)*64+b.toNat%64)*64+d.toNat%64) (by omega)
      refine ⟨ch,?_⟩
      rw [String.utf8EncodeChar,value,if_neg (by omega),if_neg (by omega),if_pos (by omega),List.cons.injEq,List.cons.injEq,List.cons.injEq]
      exact ⟨byte_of (by omega),byte_of (by omega),byte_of (by omega),rfl⟩
    · cases bits
      obtain ⟨b,tail,rfl⟩ : ∃ b tail,rest = b :: tail := List.exists_cons_of_length_pos (by omega)
      obtain ⟨d,tail,rfl⟩ : ∃ d tail',tail = d :: tail' := List.exists_cons_of_length_pos (by simp only [List.length_cons] at long; omega)
      obtain ⟨e,tail,rfl⟩ : ∃ e tail',tail = e :: tail' := List.exists_cons_of_length_pos (by simp only [List.length_cons] at long; omega)
      simp only [Nat.add_one_sub_one,List.take_succ_cons,List.take_zero,continuations_cons,continuations_nil] at read ⊢
      split_ifs at read with first' second third
      cases read
      obtain ⟨ch,value⟩ := scalar_char ((((c.toNat-240)*64+b.toNat%64)*64+d.toNat%64)*64+e.toNat%64) (by omega)
      refine ⟨ch,?_⟩
      rw [String.utf8EncodeChar,value,if_neg (by omega),if_neg (by omega),if_neg (by omega),List.cons.injEq,List.cons.injEq,
        List.cons.injEq,List.cons.injEq]
      exact ⟨byte_of (by omega),byte_of (by omega),byte_of (by omega),byte_of (by omega),rfl⟩

theorem toNat_ofNat_byte (small : x < 256) : (UInt8.ofNat x).toNat = x := by
  rw [UInt8.toNat_ofNat',Nat.mod_eq_of_lt small]

theorem characterLength_complete (ch : Char) (tail : List UInt8) : ∃ c rest,String.utf8EncodeChar ch = c :: rest ∧
    characterLength c (rest++tail) = some (rest.length+1) := by
  have scalar : ch.val.toNat < 0xD800 ∨ 0xDFFF < ch.val.toNat ∧ ch.val.toNat < 0x110000 := ch.valid
  rw [String.utf8EncodeChar]
  generalize ch.val.toNat = v at scalar
  split
  · refine ⟨_,_,rfl,?_⟩
    rw [characterLength,if_pos]
    · rfl
    · rw [UInt8.lt_iff_toNat_lt,toNat_ofNat_byte (by omega)]
      exact Nat.lt_succ_of_le ‹_›
  · split
    · have lead : leadByte (UInt8.ofNat (v/64%0x20+0xC0)) = some (2,v/64) := by
        rw [leadByte_eq,toNat_ofNat_byte (by omega),if_pos (by omega),Option.some.injEq,Prod.mk.injEq]
        omega
      refine ⟨_,_,rfl,(characterLength_lead (byte_high.mpr ?_) lead).mpr ⟨rfl,by simp,v,?_,?_⟩⟩
      · rw [toNat_ofNat_byte (by omega)]
        omega
      · simp only [Nat.add_one_sub_one,List.cons_append,List.take_succ_cons,List.take_zero]
        rw [continuations_cons,toNat_ofNat_byte (by omega),if_pos (by omega),continuations_nil,Option.some.injEq]
        omega
      · exact decide_eq_false (by omega)
    · split
      · have lead : leadByte (UInt8.ofNat (v/4096%0x10+0xE0)) = some (3,v/4096) := by
          rw [leadByte_eq,toNat_ofNat_byte (by omega),if_neg (by omega),if_pos (by omega),Option.some.injEq,Prod.mk.injEq]
          omega
        refine ⟨_,_,rfl,(characterLength_lead (byte_high.mpr ?_) lead).mpr ⟨rfl,by simp,v,?_,?_⟩⟩
        · rw [toNat_ofNat_byte (by omega)]
          omega
        · simp only [Nat.add_one_sub_one,List.cons_append,List.take_succ_cons,List.take_zero]
          rw [continuations_cons,toNat_ofNat_byte (by omega),if_pos (by omega),continuations_cons,toNat_ofNat_byte (by omega),
            if_pos (by omega),continuations_nil,Option.some.injEq]
          omega
        · exact decide_eq_false (by omega)
      · have lead : leadByte (UInt8.ofNat (v/262144%0x08+0xF0)) = some (4,v/262144) := by
          rw [leadByte_eq,toNat_ofNat_byte (by omega),if_neg (by omega),if_neg (by omega),if_pos (by omega),Option.some.injEq,
            Prod.mk.injEq]
          omega
        refine ⟨_,_,rfl,(characterLength_lead (byte_high.mpr ?_) lead).mpr ⟨rfl,by simp,v,?_,?_⟩⟩
        · rw [toNat_ofNat_byte (by omega)]
          omega
        · simp only [Nat.add_one_sub_one,List.cons_append,List.take_succ_cons,List.take_zero]
          rw [continuations_cons,toNat_ofNat_byte (by omega),if_pos (by omega),continuations_cons,toNat_ofNat_byte (by omega),
            if_pos (by omega),continuations_cons,toNat_ofNat_byte (by omega),if_pos (by omega),continuations_nil,Option.some.injEq]
          omega
        · exact decide_eq_false (by omega)

end Characters

theorem utf8ValidFrom_iff (fuel : Nat) : ∀ s : List UInt8,s.length ≤ fuel →
    (utf8ValidFrom fuel s = true ↔ ∃ cs : List Char,s = cs.flatMap String.utf8EncodeChar) := by
  induction fuel with
  | zero =>
    intro s few
    obtain rfl := List.length_eq_zero_iff.mp (Nat.le_zero.mp few)
    exact iff_of_true rfl ⟨[],rfl⟩
  | succ fuel ih =>
    intro s few
    cases s with
    | nil => exact iff_of_true rfl ⟨[],rfl⟩
    | cons c rest =>
      rw [List.length_cons] at few
      rw [utf8ValidFrom]
      constructor
      · intro valid
        cases found : characterLength c rest with
        | none =>
          rw [found] at valid
          cases valid
        | some n =>
          rw [found] at valid
          obtain ⟨ch,encoded⟩ := characterLength_sound found
          obtain ⟨cs,later⟩ := (ih (rest.drop (n-1)) (by rw [List.length_drop]; omega)).mp valid
          refine ⟨ch :: cs,?_⟩
          rw [List.flatMap_cons,encoded,← later,List.cons_append,List.take_append_drop]
      · rintro ⟨cs,spelled⟩
        cases cs with
        | nil => cases spelled
        | cons ch cs =>
          rw [List.flatMap_cons] at spelled
          obtain ⟨lead,more,encoded,accepted⟩ := characterLength_complete ch (cs.flatMap String.utf8EncodeChar)
          rw [encoded,List.cons_append] at spelled
          obtain ⟨rfl,rfl⟩ := List.cons.inj spelled
          rw [accepted]
          dsimp only
          rw [Nat.add_sub_cancel,List.drop_left]
          exact (ih _ (by rw [List.length_append] at few; omega)).mpr ⟨cs,rfl⟩

theorem utf8Valid_iff (s : List UInt8) : utf8Valid s = true ↔ ∃ cs : List Char,s = cs.flatMap String.utf8EncodeChar :=
  utf8ValidFrom_iff s.length s (Nat.le_refl _)

-- An overlong NUL, a surrogate and a cut character.
example : [[0xC0,0x80],[0xED,0xA0,0x80],[0xF0,0x9F,0x98]].map utf8Valid = [false,false,false] := by decide

end TinyLlama.Chat
