import TinyLlama.Server.Answer
import TinyLlama.Server.Http

namespace TinyLlama.Server

-- The control bytes json_escape_str has no short escape for.
def wideEscape (c : UInt8) : Prop := c < 0x20 ∧ c ≠ 10 ∧ c ≠ 13 ∧ c ≠ 9

instance : DecidablePred wideEscape := fun c => inferInstanceAs (Decidable (c < 0x20 ∧ c ≠ 10 ∧ c ≠ 13 ∧ c ≠ 9))

-- json_unescape writes one '?' for \uXXXX.
def simplified (c : UInt8) : UInt8 := if wideEscape c then 63 else c

-- \b and \f have no case of their own there and lose their backslash.
def readBack (c : UInt8) : UInt8 :=
  if c = 8 then 98 else if c = 12 then 102 else simplified c

theorem readBack_simplified (notB : c ≠ 8) (notF : c ≠ 12) : readBack c = simplified c := by
  rw [readBack,if_neg notB,if_neg notF]

theorem simplified_eq_iff (c : UInt8) : simplified c = c ↔ ¬wideEscape c := by
  unfold simplified
  split
  · rename_i wide
    refine iff_of_false ?_ (not_not.mpr wide)
    rintro rfl
    exact absurd wide.1 (by decide)
  · rename_i narrow
    exact iff_of_true rfl narrow

theorem jsonUnescapeFrom_escape (c : UInt8) (fuel : Nat) (rest : List UInt8) :
    jsonUnescapeFrom (fuel+1) (jsonEscapeByte c++rest) = readBack c :: jsonUnescapeFrom fuel rest := by
  unfold jsonEscapeByte
  split
  · subst c; rfl
  split
  · subst c; rfl
  split
  · subst c; rfl
  split
  · subst c; rfl
  split
  · subst c; rfl
  split
  · subst c; rfl
  split
  · subst c; rfl
  rename_i quote' slash line return' tab back feed
  rw [readBack_simplified back feed]
  split
  · rename_i control
    rw [simplified,if_pos ⟨control,line,return',tab⟩]
    rfl
  · rename_i printable
    rw [simplified,if_neg fun wide => printable wide.1]
    exact if_neg slash

theorem jsonUnescapeFrom_escapeAll (s : List UInt8) : ∀ fuel, s.length ≤ fuel →
    jsonUnescapeFrom fuel (escapeAll s) = s.map readBack := by
  induction s with
  | nil =>
    intro fuel _
    cases fuel <;> rfl
  | cons c rest ih =>
    intro fuel enough
    obtain ⟨fuel,rfl⟩ : ∃ f, fuel = f+1 := ⟨fuel-1,by simp only [List.length_cons] at enough; omega⟩
    have cut : escapeAll (c :: rest) = jsonEscapeByte c++escapeAll rest := rfl
    rw [cut,jsonUnescapeFrom_escape,ih fuel (by simpa using enough),List.map_cons]

theorem expansion_bounds (c : UInt8) : 1 ≤ expansion c ∧ expansion c ≤ 6 := by
  unfold expansion jsonEscapeByte
  split_ifs <;> simp

theorem escapedSize_bounds (s : List UInt8) : s.length ≤ escapedSize s ∧ escapedSize s ≤ 6*s.length := by
  induction s with
  | nil => simp [escapedSize]
  | cons c rest ih =>
    have one := expansion_bounds c
    simp only [escapedSize,List.map_cons,List.sum_cons,List.length_cons] at ih ⊢
    omega

-- With room for six bytes each and one more, nothing is cut.
theorem jsonEscapeStr_roomy (s : List UInt8) (room : 6*s.length < outLen) : jsonEscapeStr outLen 0 s = escapeAll s := by
  refine (jsonEscapeStr_whole outLen s 0).mpr ?_
  cases s with
  | nil => exact .inl rfl
  | cons c rest =>
    have size := (escapedSize_bounds (c :: rest).dropLast).2
    simp only [List.length_dropLast,List.length_cons] at size room
    exact .inr (by omega)

theorem jsonUnescape_escape (s : List UInt8) (room : 6*s.length < outLen) :
    jsonUnescape (jsonEscapeStr outLen 0 s) = s.map readBack := by
  rw [jsonEscapeStr_roomy s room]
  refine jsonUnescapeFrom_escapeAll s _ ?_
  rw [escapeAll_length]
  exact (escapedSize_bounds s).1

theorem unescape_escape_simplified (s : List UInt8) (outLen : Nat) (room : 6*s.length+7 ≤ outLen)
    (plain : ∀ c ∈ s, c ≠ 8 ∧ c ≠ 12) :
    jsonUnescape (jsonEscapeStr outLen 0 s) = s.map simplified ∧
      (jsonUnescape (jsonEscapeStr outLen 0 s) = s ↔ ∀ c ∈ s, ¬wideEscape c) := by
  have whole : jsonUnescape (jsonEscapeStr outLen 0 s) = s.map simplified := by
    rw [jsonUnescape_escape s (by omega)]
    exact List.map_congr_left fun c listed => readBack_simplified (plain c listed).1 (plain c listed).2
  refine ⟨whole,?_⟩
  have same : s.map simplified = s.map id ↔ ∀ c ∈ s, simplified c = id c := List.map_inj_left
  rw [List.map_id] at same
  rw [whole,same]
  exact forall₂_congr fun c _ => simplified_eq_iff c

-- A tab comes back, a vertical tab does not.
theorem tabs_simplified : jsonUnescape (jsonEscapeStr 30 0 [97,9,11]) = [97,9,63] :=
  (unescape_escape_simplified [97,9,11] 30 (by decide) (by simp)).1

theorem startOfHeading_lost : ¬∀ (s : List UInt8) (outLen : Nat), 6*s.length+7 ≤ outLen →
    jsonUnescape (jsonEscapeStr outLen 0 s) = s := by
  intro undone
  have back := undone [1] 13 (by decide)
  exact absurd back (by decide)

end TinyLlama.Server
