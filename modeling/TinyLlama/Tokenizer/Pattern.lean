import TinyLlama.Lib.Regex
import TinyLlama.Tokenizer.Cuts

namespace TinyLlama.Tokenizer
open Gguf Vocabulary Regex

def isLetter (c : UInt8) : Bool := (65 ≤ c && c ≤ 90) || (97 ≤ c && c ≤ 122)
def isDigit (c : UInt8) : Bool := 48 ≤ c && c ≤ 57
def isSpace (c : UInt8) : Bool := c == 32 || (9 ≤ c && c ≤ 13)
def isSymbol (c : UInt8) : Bool := !isSpace c && !isLetter c && !isDigit c

def literal (c : UInt8) : Pattern UInt8 := .one (· == c)

-- 's|'t|'re|'ve|'m|'ll|'d
def contractionPattern : Pattern UInt8 :=
  let after rest := Pattern.seq (literal 39) rest
  .alt (after (literal 115)) (.alt (after (literal 116)) (.alt (after (.seq (literal 114) (literal 101)))
    (.alt (after (.seq (literal 118) (literal 101))) (.alt (after (literal 109)) (.alt (after (.seq (literal 108) (literal 108)))
      (after (literal 100)))))))

def spacedPattern (p : UInt8 → Bool) : Pattern UInt8 := .seq (.opt (literal 32)) (.plus p)

-- ... | ?[A-Za-z]+| ?[0-9]+| ?[^\sA-Za-z0-9]+|\s+(?!\S)|\s+
def gpt2Pattern : Pattern UInt8 :=
  .alt contractionPattern (.alt (spacedPattern isLetter) (.alt (spacedPattern isDigit) (.alt (spacedPattern isSymbol)
    (.alt (.seq (.plus isSpace) (.notAhead (.one fun c => !isSpace c))) (.plus isSpace)))))

section Pattern

theorem literal_ways (c d : UInt8) (rest : List UInt8) : (literal c).ways (d :: rest) = if d = c then [rest] else [] := by
  simp [literal,Pattern.ways]

theorem literal_seq (c d : UInt8) (r : Pattern UInt8) (rest : List UInt8) :
    (Pattern.seq (literal c) r).ways (d :: rest) = if d = c then r.ways rest else [] := by
  rw [seq_ways,literal_ways]
  split
  · exact List.flatMap_singleton ..
  · rfl

theorem literal_end (c : UInt8) : (literal c).ways [] = [] := rfl

theorem contraction_head (text : List UInt8) : (contractionPattern.ways text).head? =
    if contractionLen text > 0 then some (text.drop (contractionLen text)) else none := by
  match text with
  | [] => rfl
  | c :: rest =>
    by_cases quote : c = 39
    · subst quote
      match rest with
      | [] => rfl
      | nxt :: tail =>
        simp only [contractionPattern,alt_ways,literal_seq,if_true,literal_ways,contractionLen]
        by_cases short : nxt = 115 ∨ nxt = 116 ∨ nxt = 109 ∨ nxt = 100
        · rcases short with rfl | rfl | rfl | rfl <;> simp
        · obtain ⟨s,t,m,d⟩ : nxt ≠ 115 ∧ nxt ≠ 116 ∧ nxt ≠ 109 ∧ nxt ≠ 100 := by tauto
          match tail with
          | [] => simp [s,t,m,d,literal_end]
          | e :: tail =>
            simp only [s,t,m,d,if_false,literal_ways,or_self,List.head?_cons]
            by_cases r : nxt = 114
            · subst r
              by_cases last : e = 101 <;> simp [last]
            by_cases ve : nxt = 118
            · subst ve
              by_cases last : e = 101 <;> simp [last]
            by_cases l : nxt = 108
            · subst l
              by_cases last : e = 108 <;> simp [last]
            · simp [r,ve,l]
    · simp [contractionPattern,Pattern.ways,literal,contractionLen,quote]

theorem spacedPattern_head (p : UInt8 → Bool) (unspaced : p 32 = false) (c : UInt8) (rest : List UInt8) :
    ((spacedPattern p).ways (c :: rest)).head? =
      if c = 32 then if rest.head?.any p then some (rest.dropWhile p) else none
      else if p c then some (rest.dropWhile p) else none := by
  rw [spacedPattern,seq_ways,opt_ways,literal_ways]
  by_cases space : c = 32
  · subst space
    rw [if_pos rfl,if_pos rfl]
    simp only [List.cons_append,List.nil_append,List.flatMap_cons,List.flatMap_nil,plus_ways,List.append_nil]
    have stop : plusWays p (32 :: rest) = [] := plusWays_none p (by simpa using unspaced)
    rw [stop,List.append_nil]
    cases rest with
    | nil => rfl
    | cons d rest =>
      rw [plusWays_head]
      by_cases here : p d <;> simp [here]
  · rw [if_neg space,if_neg space]
    simp only [List.nil_append,List.flatMap_cons,List.flatMap_nil,plus_ways,List.append_nil]
    exact plusWays_head p c rest

-- How far a match of the pattern reaches, by what stands at the head of the text.
def patternLen (text : List UInt8) : Nat :=
  if contractionLen text > 0 then contractionLen text
  else
    let ws := span 3 text
    if ws = 0 then wordLen 0 text
    else if ws = text.length then ws
    else if ws > 1 then ws-1
    else if text.head? = some 32 then wordLen 1 text
    else 1

def classed (c : UInt8) : Bool :=
  (isLetter c == (charCategory c == 1)) && (isDigit c == (charCategory c == 2)) && (isSpace c == (charCategory c == 3)) &&
    (isSymbol c == (charCategory c == 4))

theorem classed_ascii {c : UInt8} (ascii : c.toNat < 128) : isLetter c = (charCategory c == 1) ∧
    isDigit c = (charCategory c == 2) ∧ isSpace c = (charCategory c == 3) ∧ isSymbol c = (charCategory c == 4) := by
  have table : ∀ n < 128,classed (UInt8.ofNat n) = true := by decide +kernel
  have byte := table c.toNat ascii
  rw [UInt8.ofNat_toNat] at byte
  simp only [classed,Bool.and_eq_true,beq_iff_eq] at byte
  exact ⟨byte.1.1.1,byte.1.1.2,byte.1.2,byte.2⟩

theorem dropWhile_class {p : UInt8 → Bool} {cat : Nat} {text : List UInt8} (same : ∀ c ∈ text,p c = (charCategory c == cat)) :
    text.dropWhile p = text.dropWhile fun c => charCategory c = cat := by
  induction text with
  | nil => rfl
  | cons c text ih =>
    rw [List.dropWhile_cons,List.dropWhile_cons,same c List.mem_cons_self,ih fun d member => same d (List.mem_cons_of_mem c member)]
    simp

theorem word_head {c d : UInt8} {rest tail : List UInt8} (ascii : ∀ b ∈ d :: tail,b.toNat < 128) (word : charCategory d ≠ 3)
    (place : c = 32 ∧ rest = d :: tail ∨ c = d ∧ c ≠ 32 ∧ rest = tail) :
    ((spacedPattern isLetter).ways (c :: rest)++((spacedPattern isDigit).ways (c :: rest)++
      (spacedPattern isSymbol).ways (c :: rest))).head? =
      some ((d :: tail).drop (span (if charCategory d = 1 then 1 else if charCategory d = 2 then 2 else 4) (d :: tail))) := by
  have here := classed_ascii (ascii d List.mem_cons_self)
  have later : ∀ p cat,(∀ b : UInt8,b.toNat < 128 → p b = (charCategory b == cat)) → charCategory d = cat →
      tail.dropWhile p = (d :: tail).drop (span cat (d :: tail)) := by
    intro p cat same first'
    rw [drop_span,List.dropWhile_cons,if_pos (by simpa using first')]
    exact dropWhile_class fun b member => same b (ascii b (List.mem_cons_of_mem d member))
  rw [List.head?_append,List.head?_append,spacedPattern_head isLetter rfl,spacedPattern_head isDigit rfl,spacedPattern_head isSymbol rfl]
  have reach : ∀ p : UInt8 → Bool,(if c = 32 then if rest.head?.any p then some (rest.dropWhile p) else none
      else if p c then some (rest.dropWhile p) else none) =
      if p d then some (tail.dropWhile p) else none := by
    intro p
    rcases place with ⟨space,behind⟩ | ⟨same,unspaced,behind⟩
    · subst space behind
      by_cases inside : p d <;> simp [inside]
    · subst same behind
      rw [if_neg unspaced]
  rw [reach,reach,reach,here.1,here.2.1,here.2.2.2]
  rcases charCategory_cases d with one | two | three | four
  · simp only [one]
    simp [later isLetter 1 (fun b ascii => (classed_ascii ascii).1) one]
  · simp only [two]
    simp [later isDigit 2 (fun b ascii => (classed_ascii ascii).2.1) two]
  · exact absurd three word
  · simp only [four]
    simp [later isSymbol 4 (fun b ascii => (classed_ascii ascii).2.2.2) four]

theorem word_none {c : UInt8} {rest : List UInt8} (ascii : ∀ b ∈ c :: rest,b.toNat < 128) (space : charCategory c = 3)
    (apart : c ≠ 32 ∨ ∀ d ∈ rest.head?,charCategory d = 3) :
    ((spacedPattern isLetter).ways (c :: rest)++((spacedPattern isDigit).ways (c :: rest)++
      (spacedPattern isSymbol).ways (c :: rest))).head? = none := by
  rw [List.head?_append,List.head?_append,spacedPattern_head isLetter rfl,spacedPattern_head isDigit rfl,spacedPattern_head isSymbol rfl]
  have here := classed_ascii (ascii c List.mem_cons_self)
  simp only [space] at here
  by_cases blank : c = 32
  · have next := apart.resolve_left (not_not.mpr blank)
    cases rest with
    | nil => simp [blank]
    | cons d rest =>
      have after := classed_ascii (ascii d (by simp))
      simp only [next d rfl] at after
      simp [blank,after]
  · simp [blank,here]

theorem span_takeWhile {text : List UInt8} (same : ∀ b ∈ text,isSpace b = (charCategory b == 3)) :
    text.takeWhile isSpace = text.take (span 3 text) ∧ text.dropWhile isSpace = text.drop (span 3 text) := by
  have cut : text.dropWhile isSpace = text.drop (span 3 text) := by rw [drop_span,dropWhile_class same]
  have whole := List.takeWhile_append_dropWhile (p:=isSpace) (l:=text)
  rw [cut] at whole
  refine ⟨List.append_cancel_right (whole.trans (List.take_append_drop (span 3 text) text).symm),cut⟩

theorem space_head {c : UInt8} {rest : List UInt8} (ascii : ∀ b ∈ c :: rest,b.toNat < 128) (space : charCategory c = 3)
    (separate : c ≠ 32 ∨ ∀ d ∈ rest.head?,charCategory d = 3) :
    ((plusWays isSpace (c :: rest)).find? fun rest => rest.head?.all isSpace).or (plusWays isSpace (c :: rest)).head? =
      some ((c :: rest).drop (if span 3 rest = rest.length then span 3 rest+1 else if span 3 rest+1 > 1 then span 3 rest+1-1
        else if (c :: rest).head? = some 32 then wordLen 1 (c :: rest) else 1)) := by
  have same : ∀ b ∈ c :: rest,isSpace b = (charCategory b == 3) := fun b member => (classed_ascii (ascii b member)).2.2.1
  obtain ⟨run,tail⟩ := span_takeWhile same
  have whole := List.take_append_drop (span 3 (c :: rest)) (c :: rest)
  have blank : ∀ b ∈ (c :: rest).take (span 3 (c :: rest)),isSpace b = true := by
    rw [← run]
    have every : ((c :: rest).takeWhile isSpace).all isSpace = true := List.all_takeWhile
    exact List.all_eq_true.mp every
  have count : span 3 (c :: rest) = span 3 rest+1 := span_cons space
  have most := span_le 3 (c :: rest)
  cases left : (c :: rest).drop (span 3 (c :: rest)) with
  | nil =>
    have all := List.drop_eq_nil_iff.mp left
    simp only [List.length_cons] at all most
    rw [left,List.append_nil] at whole
    rw [whole] at blank
    rw [plusWays_within isSpace _ blank (List.cons_ne_nil c rest),Option.some_or,if_pos (by omega),← count,left]
  | cons d after =>
    have stop : isSpace d = false := by
      have head := List.head?_dropWhile_not isSpace (c :: rest)
      rwa [tail,left] at head
    have short : (c :: rest).length ≠ span 3 (c :: rest) := fun full => by
      rw [List.drop_of_length_le (by omega)] at left
      cases left
    simp only [List.length_cons] at short most
    have length : ((c :: rest).take (span 3 (c :: rest))).length = span 3 rest+1 := by
      rw [List.length_take,count,List.length_cons]
      omega
    rw [left] at whole
    have ways := plusWays_before isSpace _ blank d after stop
    rw [whole,length] at ways
    have here : isSpace c = true := blank c (by rw [count]; exact List.mem_cons_self)
    rw [ways,if_neg (by omega : ¬span 3 rest = rest.length),plusWays_head,if_pos here]
    by_cases alone : span 3 rest = 0
    · have next : rest = d :: after := by rw [← left,count,alone]; rfl
      have colour : c ≠ 32 := by
        refine separate.resolve_right fun all => ?_
        have spaced := all d (by rw [next]; rfl)
        rw [same d (by simp [next]),spaced] at stop
        cases stop
      rw [if_pos (by omega),if_neg (by omega),if_neg (by simpa using colour),Option.none_or,next]
      simp [stop]
    · rw [if_neg (by omega),if_pos (by omega),Option.some_or]
      conv_rhs => rw [← whole]
      rw [List.drop_append_of_le_length (by omega)]

theorem gpt2Pattern_head {c : UInt8} {rest : List UInt8} (ascii : ∀ b ∈ c :: rest,b.toNat < 128) :
    (gpt2Pattern.ways (c :: rest)).head? = some ((c :: rest).drop (patternLen (c :: rest))) := by
  have apart : gpt2Pattern.ways (c :: rest) = contractionPattern.ways (c :: rest)++
      (((spacedPattern isLetter).ways (c :: rest)++((spacedPattern isDigit).ways (c :: rest)++(spacedPattern isSymbol).ways (c :: rest)))++
        ((Pattern.seq (.plus isSpace) (.notAhead (.one fun c => !isSpace c))).ways (c :: rest)++(Pattern.plus isSpace).ways (c :: rest))) := by
    simp only [gpt2Pattern,alt_ways,List.append_assoc]
  rw [apart,List.head?_append,contraction_head,patternLen]
  by_cases contraction : contractionLen (c :: rest) > 0
  · rw [if_pos contraction,if_pos contraction]
    rfl
  rw [if_neg contraction,if_neg contraction,Option.none_or,List.head?_append]
  by_cases word : charCategory c ≠ 3
  · have unspaced : c ≠ 32 := fun same => word (by rw [same]; rfl)
    rw [word_head ascii word (.inr ⟨rfl,unspaced,rfl⟩)]
    simp only [span_other word,if_true,wordLen,List.drop_zero,Nat.zero_add,Option.some_or]
  have space : charCategory c = 3 := not_not.mp word
  have class' : ∀ b ∈ c :: rest,isSpace b = (charCategory b == 3) := fun b member => (classed_ascii (ascii b member)).2.2.1
  simp only [span_cons space,Nat.succ_ne_zero,if_false,List.length_cons,Nat.add_right_cancel_iff]
  by_cases joined : c = 32 ∧ ∃ d tail,rest = d :: tail ∧ charCategory d ≠ 3
  · obtain ⟨blank,d,tail,rfl,other⟩ := joined
    rw [word_head (fun b member => ascii b (List.mem_cons_of_mem c member)) other (.inl ⟨blank,rfl⟩)]
    simp only [span_other other,List.length_cons,(Nat.succ_ne_zero _).symm,if_false,Nat.lt_irrefl,blank,List.head?_cons,if_true,wordLen,
      List.drop_succ_cons,List.drop_zero,Option.some_or,Nat.zero_add,gt_iff_lt]
    rw [Nat.add_comm 1,List.drop_succ_cons]
  · have separate : c ≠ 32 ∨ ∀ d ∈ rest.head?,charCategory d = 3 := by
      by_cases blank : c = 32
      · refine .inr fun d member => by_contra fun other => joined ⟨blank,d,rest.tail,?_,other⟩
        cases rest with
        | nil => cases member
        | cons e rest => cases member; rfl
      · exact .inl blank
    rw [word_none ascii space separate,Option.none_or,List.head?_append,seq_notAhead_head,plus_ways]
    exact space_head ascii space separate

end Pattern

section Fitting
variable {v : Vocab}

-- Where the cuts agree, from a byte on; prev is the category of the byte before, 0 at the
-- start. Whitespace with text behind it is one space, and no entry opens a run of symbols.
def Fits (v : Vocab) : Nat → List UInt8 → Prop
  | _,[] => True
  | prev,c :: rest =>
    (charCategory c = 3 → ∀ d ∈ rest.head?,charCategory d ≠ 3 → c = 32 ∧ prev ≠ 3) ∧
      (prev < 3 → specialAt v (c :: rest) = none) ∧ Fits v (charCategory c) rest

def Starts (prev : Nat) (text : List UInt8) : Prop := ∀ c ∈ text.head?,prev < 3 ∨ prev = 4 ∧ charCategory c ≠ 4

theorem fits_span {cat : Nat} (word : cat ≠ 3) (text : List UInt8) : Fits v cat text ↔ Fits v cat (text.drop (span cat text)) := by
  induction text with
  | nil => rfl
  | cons c rest ih =>
    by_cases same : charCategory c = cat
    · rw [span_cons same,List.drop_succ_cons,← ih,Fits,same]
      refine ⟨fun fits => fits.2.2,fun fits => ⟨fun space => absurd space word,fun low => specialAt_none (symbol_open ?_),fits⟩⟩
      omega
    · rw [span_other same]
      rfl

theorem fits_spaces (text : List UInt8) : ∀ prev,span 3 text = text.length → Fits v prev text := by
  induction text with
  | nil => exact fun _ _ => trivial
  | cons c rest ih =>
    intro prev all
    by_cases space : charCategory c = 3
    · rw [span_cons space,List.length_cons,Nat.add_right_cancel_iff] at all
      refine ⟨fun _ d member word => ?_,fun _ => specialAt_none (symbol_open (by omega)),ih _ all⟩
      cases rest with
      | nil => cases member
      | cons e rest =>
        cases member
        rw [span_other word] at all
        cases all
    · rw [span_other space] at all
      cases all

theorem fits_spaces_end (text : List UInt8) : Fits v 3 text → 0 < span 3 text → span 3 text = text.length := by
  induction text with
  | nil => exact fun _ _ => rfl
  | cons c rest ih =>
    intro fits some'
    have space : charCategory c = 3 := by_contra fun other => by
      rw [span_other other] at some'
      exact lt_irrefl 0 some'
    rw [span_cons space,List.length_cons]
    cases rest with
    | nil => rfl
    | cons d rest =>
      by_cases next : charCategory d = 3
      · have later := fits.2.2
        rw [space] at later
        rw [ih later (by rw [span_cons next]; exact Nat.succ_pos _)]
      · exact absurd rfl (fits.1 space d rfl next).2

theorem fits_letters (letters rest : List UInt8) (some' : letters ≠ []) (all : ∀ d ∈ letters,charCategory d = 1) :
    ∀ prev,Fits v prev (letters++rest) ↔ Fits v 1 rest := by
  induction letters with
  | nil => exact absurd rfl some'
  | cons c letters ih =>
    intro prev
    have letter := all c List.mem_cons_self
    have here : Fits v prev (c :: (letters++rest)) ↔ Fits v 1 (letters++rest) := by
      rw [Fits,letter]
      exact ⟨fun fits => fits.2.2,fun fits => ⟨fun space => by omega,fun _ => specialAt_none (symbol_open (by omega)),fits⟩⟩
    rw [List.cons_append,here]
    by_cases last : letters = []
    · rw [last]
      rfl
    · exact ih last (fun d member => all d (List.mem_cons_of_mem c member)) 1

variable {prev : Nat} {c : UInt8} {rest : List UInt8}

theorem fits_word (starts : Starts prev (c :: rest)) (word : charCategory c ≠ 3) :
    ∃ k,(Fits v prev (c :: rest) ↔ (specialAt v (c :: rest) = none ∧ chunkLen (c :: rest) = patternLen (c :: rest)) ∧
        Fits v k ((c :: rest).drop (patternLen (c :: rest)))) ∧
      (chunkLen (c :: rest) = patternLen (c :: rest) → Starts k ((c :: rest).drop (patternLen (c :: rest)))) := by
  by_cases contraction : contractionLen (c :: rest) > 0
  · obtain ⟨rfl,letters,after,rfl,some',all,length⟩ := contraction_letters contraction
    have low : prev < 3 := (starts 39 rfl).resolve_right fun late => late.2 rfl
    refine ⟨1,?_,fun _ d _ => .inl (by decide)⟩
    rw [chunkLen,patternLen,if_pos contraction,if_pos contraction,length,List.drop_succ_cons,List.drop_left,Fits]
    have later := fits_letters (v:=v) letters after some' all (charCategory 39)
    have opened : specialAt v (39 :: (letters++after)) = none := specialAt_none (by decide)
    exact ⟨fun fits => ⟨⟨opened,rfl⟩,later.mp fits.2.2⟩,fun fits => ⟨fun space => absurd space (by decide),fun _ => opened,later.mpr fits.2⟩⟩
  · have same : chunkLen (c :: rest) = patternLen (c :: rest) := by
      rw [chunkLen,patternLen,if_neg contraction,if_neg contraction,span_other word]
      rfl
    have length : patternLen (c :: rest) = span (charCategory c) (c :: rest) := by
      rw [patternLen,if_neg contraction,span_other word,if_pos rfl,wordLen_word (List.drop_zero ..) word,Nat.zero_add]
    refine ⟨charCategory c,?_,fun _ d member => ?_⟩
    · rw [length,span_cons rfl,List.drop_succ_cons,← fits_span word,Fits]
      constructor
      · intro fits
        refine ⟨⟨?_,by rw [same,length,span_cons rfl]⟩,fits.2.2⟩
        cases starts c rfl with
        | inl low => exact fits.2.1 low
        | inr late => exact specialAt_none (symbol_open late.2)
      · rintro ⟨⟨opened,_⟩,fits⟩
        exact ⟨fun space => absurd space word,fun _ => opened,fits⟩
    · rw [length] at member
      have other := span_stop _ _ d member
      rcases charCategory_cases c with one | two | three | four
      · exact .inl (by omega)
      · exact .inl (by omega)
      · exact absurd three word
      · exact .inr ⟨four,by omega⟩

theorem fits_space (starts : Starts prev (c :: rest)) (space : charCategory c = 3) :
    ∃ k,(Fits v prev (c :: rest) ↔ (specialAt v (c :: rest) = none ∧ chunkLen (c :: rest) = patternLen (c :: rest)) ∧
        Fits v k ((c :: rest).drop (patternLen (c :: rest)))) ∧
      (chunkLen (c :: rest) = patternLen (c :: rest) → Starts k ((c :: rest).drop (patternLen (c :: rest)))) := by
  have opened : specialAt v (c :: rest) = none := specialAt_none (symbol_open (by omega))
  have unquoted : ¬contractionLen (c :: rest) > 0 := contractionLen_space space
  have count : span 3 (c :: rest) = span 3 rest+1 := span_cons space
  have most := span_le 3 rest
  have before : prev ≠ 3 := by
    cases starts c rfl with
    | inl low => omega
    | inr late => omega
  by_cases whole : span 3 rest = rest.length
  · have own : patternLen (c :: rest) = rest.length+1 := by
      rw [patternLen,if_neg unquoted,count,if_neg (Nat.succ_ne_zero _),if_pos (by rw [whole,List.length_cons]),whole]
    have same : chunkLen (c :: rest) = patternLen (c :: rest) := by
      rw [own,chunkLen,if_neg unquoted,count,if_pos ⟨Nat.succ_pos _,.inr (by rw [whole,List.length_cons])⟩,whole]
    have done : (c :: rest).drop (patternLen (c :: rest)) = [] := by
      rw [own,← List.length_cons (a:=c)]
      exact List.drop_length
    rw [done]
    exact ⟨0,⟨fun _ => ⟨⟨opened,same⟩,trivial⟩,fun _ => fits_spaces _ prev (by rw [count,whole,List.length_cons])⟩,
      fun _ d member => by cases member⟩
  by_cases run : 0 < span 3 rest
  · have differ : chunkLen (c :: rest) ≠ patternLen (c :: rest) := by
      rw [chunkLen,patternLen,if_neg unquoted,if_neg unquoted,count,if_pos ⟨Nat.succ_pos _,.inl (by omega)⟩,if_neg (Nat.succ_ne_zero _),
        if_neg (by rw [List.length_cons]; omega),if_pos (by omega)]
      omega
    refine ⟨0,⟨fun fits => ?_,fun agree => absurd agree.1.2 differ⟩,fun same => absurd same differ⟩
    have later := fits.2.2
    rw [space] at later
    exact absurd (fits_spaces_end rest later run) whole
  · cases rest with
    | nil => exact absurd rfl whole
    | cons d tail =>
      have word : charCategory d ≠ 3 := fun same => run (by rw [span_cons same]; exact Nat.succ_pos _)
      have none' : span 3 (d :: tail) = 0 := span_other word
      have chunk : chunkLen (c :: d :: tail) = wordLen 1 (c :: d :: tail) := by
        rw [chunkLen,if_neg unquoted,count,none',if_neg (by simp)]
      have reach : wordLen 1 (c :: d :: tail) = 1+(span (charCategory d) tail+1) := by
        rw [wordLen_word rfl word,span_cons rfl]
      by_cases blank : c = 32
      · have same : chunkLen (c :: d :: tail) = patternLen (c :: d :: tail) := by
          rw [chunk,patternLen,if_neg unquoted,count,none',if_neg (by omega),if_neg (by simp),if_neg (by omega),
            if_pos (by rw [blank]; rfl)]
        refine ⟨charCategory d,?_,fun _ e member => ?_⟩
        · rw [← same,chunk,reach,Nat.add_comm 1,List.drop_succ_cons,List.drop_succ_cons,← fits_span word,Fits,space]
          rw [Fits]
          constructor
          · exact fun fits => ⟨⟨opened,rfl⟩,fits.2.2.2.2⟩
          · exact fun agree => ⟨fun _ _ _ _ => ⟨blank,before⟩,fun _ => opened,fun three => absurd three word,
              fun low => absurd low (lt_irrefl 3),agree.2⟩
        · rw [← same,chunk,reach,Nat.add_comm 1,List.drop_succ_cons,List.drop_succ_cons] at member
          have other := span_stop _ _ e member
          rcases charCategory_cases d with one | two | three | four
          · exact .inl (by omega)
          · exact .inl (by omega)
          · exact absurd three word
          · exact .inr ⟨four,by omega⟩
      · have differ : chunkLen (c :: d :: tail) ≠ patternLen (c :: d :: tail) := by
          rw [chunk,patternLen,if_neg unquoted,count,none',if_neg (by omega),if_neg (by simp),if_neg (by omega),
            if_neg (by simpa using blank),reach]
          omega
        exact ⟨0,⟨fun fits => absurd (fits.1 space d rfl word).1 blank,fun agree => absurd agree.1.2 differ⟩,fun same => absurd same differ⟩

end Fitting

section Cuts

theorem patternLen_bounds (c : UInt8) (rest : List UInt8) : 0 < patternLen (c :: rest) ∧ patternLen (c :: rest) ≤ rest.length+1 := by
  have spaces := span_le 3 (c :: rest)
  have chunk := chunkLen_pos (c :: rest) (List.cons_ne_nil c rest)
  unfold patternLen
  by_cases contraction : contractionLen (c :: rest) > 0
  · rw [if_pos contraction]
    exact ⟨contraction,contractionLen_le contraction⟩
  rw [if_neg contraction]
  dsimp only
  by_cases word : span 3 (c :: rest) = 0
  · rw [if_pos word]
    rw [chunkLen,if_neg contraction,word,if_neg (by omega)] at chunk
    exact ⟨chunk,wordLen_le (Nat.zero_le _)⟩
  rw [if_neg word]
  have behind : 0 < wordLen 1 (c :: rest) ∧ wordLen 1 (c :: rest) ≤ rest.length+1 := by
    refine ⟨?_,wordLen_le (Nat.succ_pos _)⟩
    unfold wordLen
    split
    · exact Nat.one_pos
    · dsimp only
      omega
  rw [List.length_cons] at spaces ⊢
  split
  · exact ⟨by omega,spaces⟩
  · split
    · omega
    · split
      · exact behind
      · omega

theorem matchesFrom_cons {c : UInt8} {rest : List UInt8} (ascii : ∀ b ∈ c :: rest,b.toNat < 128) (fuel : Nat) :
    matchesFrom gpt2Pattern (fuel+1) (c :: rest) =
      (c :: rest).take (patternLen (c :: rest)) :: matchesFrom gpt2Pattern fuel ((c :: rest).drop (patternLen (c :: rest))) := by
  have bounds := patternLen_bounds c rest
  have left : ((c :: rest).drop (patternLen (c :: rest))).length = rest.length+1-patternLen (c :: rest) := by
    rw [List.length_drop,List.length_cons]
  rw [matchesFrom,gpt2Pattern_head ascii]
  dsimp only
  rw [left,if_pos (by omega),Nat.sub_sub_self bounds.2]

theorem bpeEncodeChunk_room (v : Vocab) (chunk : List UInt8) {room : Nat} (below : room ≤ bpeMaxSymbols) :
    (bpeEncodeChunk v chunk room).length = min room (bpeEncodeChunk v chunk bpeMaxSymbols).length := by
  simp only [bpeEncodeChunk,List.length_take]
  omega

theorem matchesFrom_nil {text : List UInt8} (ascii : ∀ b ∈ text,b.toNat < 128) {fuel : Nat} (enough : text.length ≤ fuel) :
    matchesFrom gpt2Pattern fuel text = [] ↔ text = [] := by
  cases text with
  | nil => cases fuel <;> exact ⟨fun _ => rfl,fun _ => rfl⟩
  | cons c rest =>
    cases fuel with
    | zero => exact absurd enough (Nat.not_succ_le_zero _)
    | succ fuel =>
      rw [matchesFrom_cons ascii]
      exact ⟨fun none' => (by cases none'),fun none' => (by cases none')⟩

-- The symbols before the last chunk, one chunk further.
theorem room_cons (v : Vocab) {symbols : List Nat} (below : symbols.length < bpeMaxSymbols) (piece : List UInt8) (chunks : List (List UInt8)) :
    (chunks = [] ∨ (symbols++bpeEncodeChunk v piece (bpeMaxSymbols-symbols.length)).length+
        (chunks.dropLast.flatMap fun chunk => bpeEncodeChunk v chunk bpeMaxSymbols).length < bpeMaxSymbols) ↔
      symbols.length+((piece :: chunks).dropLast.flatMap fun chunk => bpeEncodeChunk v chunk bpeMaxSymbols).length < bpeMaxSymbols := by
  have length := bpeEncodeChunk_room v piece (Nat.sub_le bpeMaxSymbols symbols.length)
  cases chunks with
  | nil => exact ⟨fun _ => below,fun _ => .inl rfl⟩
  | cons chunk chunks =>
    rw [List.dropLast_cons_cons,List.flatMap_cons,List.length_append,List.length_append,length]
    constructor
    · intro room
      have less := room.resolve_left (List.cons_ne_nil chunk chunks)
      omega
    · exact fun less => .inr (by omega)

variable {v : Vocab}

-- The cuts are the matches where every cut is one and the buffer has room for the symbols
-- before the last.
theorem bpeCuts_iff (fuel : Nat) : ∀ (text : List UInt8) (symbols : List Nat) (prev : Nat),text.length ≤ fuel → (∀ c ∈ text,c.toNat < 128) →
    Starts prev text → (bpeCuts v fuel text symbols = (matchesFrom gpt2Pattern fuel text).map .chunk ↔
      Fits v prev text ∧ (text = [] ∨ symbols.length+((matchesFrom gpt2Pattern fuel text).dropLast.flatMap fun chunk =>
        bpeEncodeChunk v chunk bpeMaxSymbols).length < bpeMaxSymbols)) := by
  induction fuel with
  | zero =>
    intro text symbols prev enough _ _
    obtain rfl := List.length_eq_zero_iff.mp (Nat.le_zero.mp enough)
    exact ⟨fun _ => ⟨trivial,.inl rfl⟩,fun _ => rfl⟩
  | succ fuel ih =>
    intro text symbols prev enough ascii starts
    cases text with
    | nil => exact ⟨fun _ => ⟨trivial,.inl rfl⟩,fun _ => by rw [bpeCuts,if_pos (.inl rfl)]; rfl⟩
    | cons c rest =>
      rw [matchesFrom_cons ascii,bpeCuts]
      by_cases full : symbols.length ≥ bpeMaxSymbols
      · rw [if_pos (.inr full)]
        refine ⟨fun same => (by cases same),fun agree => ?_⟩
        have room := agree.2.resolve_left (List.cons_ne_nil c rest)
        omega
      rw [if_neg (not_or.mpr ⟨List.cons_ne_nil c rest,full⟩)]
      obtain ⟨k,fits,next⟩ : ∃ k,_ ∧ _ :=
        if word : charCategory c ≠ 3 then fits_word (v:=v) starts word else fits_space (v:=v) starts (not_not.mp word)
      rw [fits]
      have bounds := patternLen_bounds c rest
      cases opened : specialAt v (c :: rest) with
      | some hit => exact ⟨fun same => (by cases same),fun agree => (by cases agree.1.1.1)⟩
      | none =>
        dsimp only
        rw [List.map_cons,List.cons_eq_cons,Cut.chunk.injEq]
        by_cases same : chunkLen (c :: rest) = patternLen (c :: rest)
        · rw [same]
          have shorter : ((c :: rest).drop (patternLen (c :: rest))).length ≤ fuel := by
            rw [List.length_drop]
            rw [List.length_cons] at enough ⊢
            omega
          have ascii' : ∀ b ∈ (c :: rest).drop (patternLen (c :: rest)),b.toNat < 128 := fun b member => ascii b (List.mem_of_mem_drop member)
          rw [ih _ _ k shorter ascii' (next same),← matchesFrom_nil ascii' shorter,room_cons v (not_le.mp full)]
          exact ⟨fun agree => ⟨⟨⟨rfl,rfl⟩,agree.2.1⟩,.inr agree.2.2⟩,
            fun agree => ⟨rfl,agree.1.2,agree.2.resolve_left (List.cons_ne_nil c rest)⟩⟩
        · have differ : (c :: rest).take (chunkLen (c :: rest)) ≠ (c :: rest).take (patternLen (c :: rest)) := by
            intro equal
            have lengths := congrArg List.length equal
            have most := chunkLen_le c rest
            rw [List.length_take,List.length_take,List.length_cons] at lengths
            omega
          exact ⟨fun agree => absurd agree.1 differ,fun agree => absurd agree.1.1.2 same⟩

-- Every ASCII text: the passes are those of any run with enough fuel, and they take off the
-- matches of the pattern exactly where the text fits it and the buffer does not fill up.
theorem bpeCuts_pattern_iff (v : Vocab) (text : List UInt8) (ascii : ∀ c ∈ text,c.toNat < 128) (fuel : Nat) (enough : text.length ≤ fuel)
    (maxTokens : Nat) :
    tokenizeBpe v text maxTokens = ((bpeCuts v fuel text []).foldl (emitCut v) []).take maxTokens ∧
      (bpeCuts v fuel text [] = (matchesOf gpt2Pattern text).map .chunk ↔
        Fits v 0 text ∧ ((matchesOf gpt2Pattern text).dropLast.flatMap fun chunk =>
          bpeEncodeChunk v chunk bpeMaxSymbols).length < bpeMaxSymbols) := by
  refine ⟨tokenizeBpe_cuts enough maxTokens,?_⟩
  rw [bpeCuts_enough fuel text.length text [] enough le_rfl,matchesOf,
    bpeCuts_iff text.length text [] 0 le_rfl ascii fun c _ => .inl (by decide),List.length_nil,Nat.zero_add]
  refine and_congr_right fun _ => ⟨fun room => ?_,.inr⟩
  cases room with
  | inl empty =>
    subst empty
    exact Nat.succ_pos 4095
  | inr below => exact below

theorem mergeLoop_length (v : Vocab) (fuel : Nat) : ∀ syms,(mergeLoop v fuel syms).length ≤ syms.length := by
  induction fuel with
  | zero => exact fun _ => le_rfl
  | succ fuel ih =>
    intro syms
    unfold mergeLoop
    split
    · exact le_rfl
    · split
      · exact le_rfl
      · next merged =>
        refine (ih _).trans ?_
        unfold mergeAt at merged
        split at merged
        · next a b rest left =>
          obtain ⟨id,_,rfl⟩ := Option.map_eq_some_iff.mp merged
          have size := congrArg List.length left
          rw [List.length_drop,List.length_cons,List.length_cons] at size
          simp only [List.length_append,List.length_take,List.length_cons]
          omega
        · cases merged

theorem bpeEncodeChunk_le (v : Vocab) (chunk : List UInt8) (room : Nat) : (bpeEncodeChunk v chunk room).length ≤ chunk.length := by
  have merged := mergeLoop_length v ((chunk.filterMap (byteSymbol v)).take chunkSymbols).length
    ((chunk.filterMap (byteSymbol v)).take chunkSymbols)
  have bytes := List.length_filterMap_le (byteSymbol v) chunk
  have few : ((chunk.filterMap (byteSymbol v)).take chunkSymbols).length ≤ chunk.length := (List.length_take_le' _ _).trans bytes
  rw [bpeEncodeChunk,List.length_take]
  exact (Nat.min_le_right _ _).trans (merged.trans few)

-- a, a space and b.
theorem spacedWord_cut : ∃ m v,modelLoad bytesFile = .ok m ∧ vocabLoad m = .ok v ∧
    bpeCuts v 3 [97,32,98] [] = [.chunk [97],.chunk [32,98]] := by
  obtain ⟨v,loaded,_,_⟩ := bytesModel_loads
  have fits : Fits v 0 [97,32,98] :=
    ⟨fun space => absurd space (by decide),fun _ => specialAt_none (by decide),fun _ d _ _ => ⟨rfl,by decide⟩,
      fun _ => specialAt_none (by decide),fun space => absurd space (by decide),fun late => absurd late (by decide),trivial⟩
  have matches' : matchesOf gpt2Pattern [97,32,98] = [[97],[32,98]] := by decide
  have cuts := (bpeCuts_pattern_iff v [97,32,98] (by simp) 3 le_rfl 3).2.mpr ⟨fits,by
    rw [matches']
    have one := bpeEncodeChunk_le v [97] bpeMaxSymbols
    simp only [List.dropLast_cons_cons,List.dropLast_singleton,List.flatMap_singleton,List.length_singleton] at one ⊢
    exact lt_of_le_of_lt one (by decide)⟩
  rw [matches'] at cuts
  exact ⟨bytesModel,v,bytesModel_accepted,loaded,cuts⟩

-- a, two spaces and b: the pattern leaves the second space to the word.
theorem doubleSpace_differs : ∃ m v,modelLoad bytesFile = .ok m ∧ vocabLoad m = .ok v ∧
    matchesOf gpt2Pattern [97,32,32,98] = [[97],[32],[32,98]] ∧
      bpeCuts v 4 [97,32,32,98] [] ≠ [.chunk [97],.chunk [32],.chunk [32,98]] := by
  obtain ⟨v,loaded,_,_⟩ := bytesModel_loads
  have matches' : matchesOf gpt2Pattern [97,32,32,98] = [[97],[32],[32,98]] := by decide
  refine ⟨bytesModel,v,bytesModel_accepted,loaded,matches',fun same => ?_⟩
  have fits := ((bpeCuts_iff 4 [97,32,32,98] [] 0 le_rfl (by simp) fun c _ => .inl (by decide)).mp (same.trans
    (congrArg (List.map Cut.chunk) matches'.symm))).1
  exact (fits.2.2.2.2.1 rfl 98 rfl (by decide)).2 rfl

end Cuts

end TinyLlama.Tokenizer
