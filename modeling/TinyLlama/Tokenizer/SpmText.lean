import TinyLlama.Tokenizer.Spm

-- UTF-8 text as a row of characters: each a lead byte and the continuation bytes its width calls for.
namespace TinyLlama.Tokenizer
open Vocabulary

def Continuation (c : UInt8) : Prop := 0x80 ≤ c.toNat ∧ c.toNat ≤ 0xBF

def IsChar (u : List UInt8) : Prop :=
  ∃ lead rest, u = lead :: rest ∧ utf8CharLen lead = u.length ∧ ∀ c ∈ rest, Continuation c

def ValidUtf8 (text : List UInt8) : Prop := ∃ cs : List Char, text = cs.flatMap String.utf8EncodeChar

-- "<0xHH>" somewhere in the text.
def HasLiteral (text : List UInt8) : Prop :=
  ∃ hi lo, (spmHexDigit hi).isSome ∧ (spmHexDigit lo).isSome ∧ [60,48,120,hi,lo,62] <:+: text

theorem utf8CharLen_width : ∀ n < 256, utf8CharLen (UInt8.ofNat n) =
    if n < 0xC0 then 1 else if n < 0xE0 then 2 else if n < 0xF0 then 3 else if n < 0xF8 then 4 else 1 := by
  decide +kernel

theorem continuation_ofNat (n : Nat) : Continuation (UInt8.ofNat (n%64+128)) := by
  have small : n%64+128 < 256 := by omega
  have value : (UInt8.ofNat (n%64+128)).toNat = n%64+128 := by
    rw [UInt8.toNat_ofNat',Nat.mod_eq_of_lt small]
  exact ⟨by omega,by omega⟩

theorem continuations (ns : List Nat) : ∀ c ∈ ns.map fun n => UInt8.ofNat (n%64+128), Continuation c := by
  intro c present
  obtain ⟨n,_,rfl⟩ := List.mem_map.mp present
  exact continuation_ofNat n

theorem utf8EncodeChar_isChar (c : Char) : IsChar (String.utf8EncodeChar c) := by
  have top : c.val.toNat < 0x110000 := by
    rcases c.valid with low | ⟨_,high⟩
    · exact Nat.lt_trans low (by decide)
    · exact high
  rw [String.utf8EncodeChar]
  generalize c.val.toNat = v at top
  split
  · refine ⟨_,_,rfl,?_,by simp⟩
    rw [utf8CharLen_width _ (by omega)]
    simp only [List.length_singleton]; grind
  · split
    · refine ⟨_,_,rfl,?_,continuations [v]⟩
      rw [utf8CharLen_width _ (by omega)]
      simp only [List.length_cons,List.length_nil]; grind
    · split
      · refine ⟨_,_,rfl,?_,continuations [v/64,v]⟩
        rw [utf8CharLen_width _ (by omega)]
        simp only [List.length_cons,List.length_nil]; grind
      · refine ⟨_,_,rfl,?_,continuations [v/4096,v/64,v]⟩
        rw [utf8CharLen_width _ (by omega)]
        simp only [List.length_cons,List.length_nil]; grind

theorem ValidUtf8.chars (valid : ValidUtf8 text) : ∃ us : List (List UInt8), (∀ u ∈ us, IsChar u) ∧ text = us.flatten := by
  obtain ⟨cs,rfl⟩ := valid
  refine ⟨cs.map String.utf8EncodeChar,fun u present => ?_,rfl⟩
  obtain ⟨c,_,rfl⟩ := List.mem_map.mp present
  exact utf8EncodeChar_isChar c

theorem isChar_spaceMark : IsChar spaceMark :=
  ⟨0xE2,[0x96,0x81],rfl,by decide,by simp [Continuation]⟩

theorem IsChar.positive (char : IsChar u) : 0 < u.length := by
  obtain ⟨lead,rest,rfl,_⟩ := char
  simp

theorem utf8CharLen_le (c : UInt8) : utf8CharLen c ≤ 4 := by
  unfold utf8CharLen
  repeat' split
  all_goals omega

theorem IsChar.short (char : IsChar u) : u.length ≤ 4 := by
  obtain ⟨lead,rest,rfl,width,_⟩ := char
  rw [← width]
  exact utf8CharLen_le lead

theorem Continuation.ne (tail : Continuation c) (other : d.toNat < 0x80 ∨ 0xBF < d.toNat) : c ≠ d := by
  rintro rfl
  have := tail.1
  have := tail.2
  omega

theorem IsChar.space (char : IsChar u) (inside : 32 ∈ u) : u = [32] := by
  obtain ⟨lead,rest,rfl,width,tail⟩ := char
  rcases List.mem_cons.mp inside with rfl | later
  · have one : (32 :: rest).length = 1 := by rw [← width]; decide
    cases rest with
    | nil => rfl
    | cons => simp at one
  · exact absurd rfl ((tail 32 later).ne (.inl (by decide)))

theorem normalize_chars (us : List (List UInt8)) (chars : ∀ u ∈ us, IsChar u) (addPrefixSpace : Bool) :
    normalize us.flatten addPrefixSpace =
      ((if addPrefixSpace then [spaceMark] else [])++us.map fun u => if u = [32] then spaceMark else u).flatten := by
  have body : (us.flatten.flatMap fun c => if c = 32 then spaceMark else [c]) =
      (us.map fun u => if u = [32] then spaceMark else u).flatten := by
    induction us with
    | nil => rfl
    | cons u rest ih =>
      rw [List.flatten_cons,List.flatMap_append,ih fun u' present => chars u' (List.mem_cons_of_mem _ present),
        List.map_cons,List.flatten_cons]
      congr 1
      by_cases space : u = [32]
      · subst space; rfl
      · rw [if_neg space]
        have absent : ∀ c ∈ u, c ≠ 32 := by
          rintro c inside rfl
          exact space ((chars u (List.mem_cons_self ..)).space inside)
        rw [List.flatMap_congr (g:=fun c => [c]) fun c inside => if_neg (absent c inside)]
        simp
  rw [normalize,body,List.flatten_append]
  cases addPrefixSpace <;> simp

def unmarkChar (u : List UInt8) : List UInt8 := if u = spaceMark then [32] else u

theorem unmark_bytes (u : List UInt8) (plain : ∀ c ∈ u, c ≠ 0xE2) (rest : List UInt8) : ∀ room, u.length ≤ room →
    unmark room (u++rest) = u++unmark (room-u.length) rest := by
  induction u with
  | nil => intro room _; rfl
  | cons c u ih =>
    intro room enough
    cases room with
    | zero => simp at enough
    | succ room =>
      have other := plain c (List.mem_cons_self ..)
      simp only [List.cons_append,unmark,other,false_and,if_false]
      rw [ih (fun c present => plain c (List.mem_cons_of_mem _ present)) room (by simpa using enough)]
      simp

theorem unmark_char (char : IsChar u) (rest : List UInt8) (room : Nat) (enough : u.length ≤ room) :
    ∃ left, room-u.length ≤ left ∧ unmark room (u++rest) = unmarkChar u++unmark left rest := by
  by_cases mark : u = spaceMark
  · subst mark
    obtain ⟨room,rfl⟩ : ∃ r, room = r+1 := ⟨room-1,by simp only [spaceMark,List.length_cons] at enough; omega⟩
    refine ⟨room,by simp [spaceMark],?_⟩
    have opens : [0x96,0x81] <+: [0x96,0x81]++rest := List.prefix_append ..
    change unmark (room+1) (0xE2 :: ([0x96,0x81]++rest)) = _
    rw [unmark,if_pos ⟨rfl,opens⟩]
    rfl
  · refine ⟨room-u.length,Nat.le_refl _,?_⟩
    rw [unmarkChar,if_neg mark]
    obtain ⟨lead,tl,rfl,width,tail⟩ := char
    have plain : ∀ c ∈ tl, c ≠ 0xE2 := fun c present => (tail c present).ne (.inr (by decide))
    obtain ⟨room,rfl⟩ : ∃ r, room = r+1 := ⟨room-1,by simp only [List.length_cons] at enough; omega⟩
    have other : ¬(lead = 0xE2 ∧ [0x96,0x81] <+: tl++rest) := by
      rintro ⟨rfl,opens⟩
      have three : tl.length = 2 := by
        have wide : utf8CharLen 0xE2 = 3 := by decide
        rw [wide,List.length_cons] at width
        omega
      obtain ⟨more,same⟩ := opens
      have exact' : [0x96,0x81] = tl := (List.append_inj same (by simp [three])).1
      exact mark (by rw [← exact']; rfl)
    rw [List.cons_append,unmark,if_neg other,unmark_bytes tl plain rest room (by simpa using enough)]
    simp

theorem unmark_chars (us : List (List UInt8)) (chars : ∀ u ∈ us, IsChar u) : ∀ room, us.flatten.length ≤ room →
    unmark room us.flatten = us.flatMap unmarkChar := by
  induction us with
  | nil => intro room _; cases room <;> rfl
  | cons u rest ih =>
    intro room enough
    rw [List.flatten_cons,List.length_append] at enough
    obtain ⟨left,roomy,step⟩ := unmark_char (chars u (List.mem_cons_self ..)) rest.flatten room (by omega)
    rw [List.flatten_cons,step,ih (fun u' present => chars u' (List.mem_cons_of_mem _ present)) left (by omega),
      List.flatMap_cons]

theorem normalized_opening (lit : List UInt8) (plain : ∀ c ∈ lit, c ≠ 0xE2) : ∀ text : List UInt8,
    lit <+: (text.flatMap fun c => if c = 32 then spaceMark else [c]) → lit <+: text := by
  induction lit with
  | nil => intro text _; exact List.nil_prefix
  | cons c lit ih =>
    intro text opens
    cases text with
    | nil => simp at opens
    | cons d text =>
      rw [List.flatMap_cons] at opens
      by_cases space : d = 32
      · rw [if_pos space] at opens
        have first := (List.cons_prefix_cons.mp opens).1
        exact absurd first (plain c (List.mem_cons_self ..))
      · rw [if_neg space] at opens
        obtain ⟨rfl,later⟩ := List.cons_prefix_cons.mp opens
        exact List.cons_prefix_cons.mpr ⟨rfl,ih (fun c present => plain c (List.mem_cons_of_mem _ present)) text later⟩

theorem infix_past_mark (lit rest : List UInt8) (c : UInt8) (tl : List UInt8) (form : lit = c :: tl)
    (other : c ∉ spaceMark) (inside : lit <:+: spaceMark++rest) : lit <:+: rest := by
  subst form
  simp only [spaceMark,List.mem_cons,List.not_mem_nil,or_false,not_or] at other
  have skip : ∀ d more, c ≠ d → c :: tl <:+: d :: more → c :: tl <:+: more := by
    intro d more apart inside
    rcases List.infix_cons_iff.mp inside with opens | later
    · exact absurd (List.cons_prefix_cons.mp opens).1 apart
    · exact later
  exact skip _ _ other.2.2 (skip _ _ other.2.1 (skip _ _ other.1 inside))

theorem normalized_segment (c : UInt8) (tl : List UInt8) (other : c ∉ spaceMark) (plain : ∀ d ∈ c :: tl, d ≠ 0xE2)
    (addPrefixSpace : Bool) (inside : c :: tl <:+: normalize text addPrefixSpace) : c :: tl <:+: text := by
  have body : ∀ text : List UInt8, c :: tl <:+: (text.flatMap fun c => if c = 32 then spaceMark else [c]) → c :: tl <:+: text := by
    intro text
    induction text with
    | nil => intro inside; exact inside
    | cons d text ih =>
      intro inside
      by_cases space : d = 32
      · rw [List.flatMap_cons,if_pos space] at inside
        exact (ih (infix_past_mark _ _ c _ rfl other inside)).trans (List.suffix_cons ..).isInfix
      · rw [List.flatMap_cons,if_neg space] at inside
        rcases List.infix_cons_iff.mp inside with opens | later
        · exact (normalized_opening _ plain (d :: text) (by rw [List.flatMap_cons,if_neg space]; exact opens)).isInfix
        · exact (ih later).trans (List.suffix_cons ..).isInfix
  cases addPrefixSpace with
  | false => exact body text inside
  | true => exact body text (infix_past_mark _ _ c _ rfl other inside)

theorem normalized_literal (text : List UInt8) (addPrefixSpace : Bool)
    (literal : HasLiteral (normalize text addPrefixSpace)) : HasLiteral text := by
  obtain ⟨hi,lo,digit,digit',inside⟩ := literal
  have hex : ∀ c, (spmHexDigit c).isSome → c ≠ 0xE2 := by
    rintro c digit rfl
    exact absurd digit (by decide)
  have plain : ∀ c ∈ [60,48,120,hi,lo,62], c ≠ 0xE2 := by
    intro c present
    simp only [List.mem_cons,List.not_mem_nil,or_false] at present
    rcases present with rfl | rfl | rfl | rfl | rfl | rfl
    · decide
    · decide
    · decide
    · exact hex _ digit
    · exact hex _ digit'
    · decide
  exact ⟨hi,lo,digit,digit',normalized_segment 60 _ (by decide) plain addPrefixSpace inside⟩

end TinyLlama.Tokenizer
