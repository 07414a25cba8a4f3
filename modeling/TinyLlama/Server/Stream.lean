import TinyLlama.Server.Answer
import TinyLlama.Tokenizer.SpmText

-- server.c, the streamed answer of handle_request: the carry buffer, the split at a code point, and the events.
namespace TinyLlama.Server
open Tokenizer

def pieceCap : Nat := 2048
def mergedCap : Nat := 2048+8
def escCap : Nat := 16384
def eventCap : Nat := 16384+512

-- The bytes a lead byte announces; a stray byte announces nothing.
def codePointNeed (c : UInt8) : Option Nat :=
  if c < 0x80 then some 1
  else if c &&& 0xE0 = 0xC0 then some 2
  else if c &&& 0xF0 = 0xE0 then some 3
  else if c &&& 0xF8 = 0xF0 then some 4
  else none

-- Every pass moves on at least one byte, so the buffer bounds the passes.
def completeFrom : Nat → List UInt8 → Nat
  | 0,_ => 0
  | _,[] => 0
  | fuel+1,c :: rest =>
    match codePointNeed c with
    | none => 1+completeFrom fuel rest
    | some need => if need > (c :: rest).length then 0 else need+completeFrom fuel ((c :: rest).drop need)

def utf8CompletePrefix (buf : List UInt8) : Nat := completeFrom buf.length buf

-- `texts` is what sse_emit_content has been called with.
structure Stream where
  texts : List (List UInt8)
  pending : List UInt8

def Stream.push (s : Stream) (piece : List UInt8) : Stream :=
  let piece := piece.take (pieceCap-1)
  let merged := s.pending++piece.take (mergedCap-s.pending.length)
  let emit := utf8CompletePrefix merged
  ⟨s.texts++(if emit > 0 then [merged.take emit] else []),merged.drop emit⟩

def Stream.flush (s : Stream) : List (List UInt8) := s.texts++(if s.pending.length > 0 then [s.pending] else [])

-- The <think> that the prompt opened is echoed before the loop.
def streamStart (showThink : Bool) : Stream := ⟨if showThink then [cstr "<think>\n"] else [],[]⟩

def streamPieces (showThink : Bool) (pieces : List (List UInt8)) : Stream := pieces.foldl Stream.push (streamStart showThink)

def streamTexts (showThink : Bool) (pieces : List (List UInt8)) : List (List UInt8) := (streamPieces showThink pieces).flush

-- The text snprintf is to write for one event; `created` is time(NULL).
def contentEvent (created : Int) (esc : List UInt8) : List UInt8 :=
  cstr "data: \x7b\"id\":\"chatcmpl-"++printed created++
  cstr "\",\"object\":\"chat.completion.chunk\",\"created\":"++printed created++
  cstr ",\"model\":\"default\",\"choices\":[\x7b\"index\":0,\"delta\":\x7b\"content\":\""++esc++
  cstr "\"\x7d,\"finish_reason\":null\x7d]\x7d\n\n"

-- esc[16384] and buf[16384+512].
def sseEmitContent (created : Int) (text : List UInt8) : List UInt8 :=
  (contentEvent created (jsonEscapeStr (escCap-1) 0 text)).take (eventCap-1)

theorem codePointNeed_bounds (found : codePointNeed c = some need) : 1 ≤ need ∧ need ≤ 4 := by
  unfold codePointNeed at found
  split_ifs at found <;> cases found <;> decide

theorem codePointNeed_all : ∀ n < 256, codePointNeed (UInt8.ofNat n) =
    if n < 0x80 then some 1 else if n < 0xC0 then none else if n < 0xE0 then some 2
    else if n < 0xF0 then some 3 else if n < 0xF8 then some 4 else none := by
  decide +kernel

theorem codePointNeed_lead (c : Char) : ∃ lead rest, String.utf8EncodeChar c = lead :: rest ∧
    codePointNeed lead = some (rest.length+1) := by
  have top : c.val.toNat < 0x110000 := by
    rcases c.valid with low | ⟨_,high⟩
    · exact Nat.lt_trans low (by decide)
    · exact high
  rw [String.utf8EncodeChar]
  generalize c.val.toNat = v at top
  split
  · refine ⟨_,_,rfl,?_⟩
    rw [codePointNeed_all _ (by omega)]
    simp only [List.length_nil]; grind
  · split
    · refine ⟨_,_,rfl,?_⟩
      rw [codePointNeed_all _ (by omega)]
      simp only [List.length_cons,List.length_nil]; grind
    · split
      · refine ⟨_,_,rfl,?_⟩
        rw [codePointNeed_all _ (by omega)]
        simp only [List.length_cons,List.length_nil]; grind
      · refine ⟨_,_,rfl,?_⟩
        rw [codePointNeed_all _ (by omega)]
        simp only [List.length_cons,List.length_nil]; grind

-- The scan stays inside the buffer and holds back less than a code point.
theorem completeFrom_bounds (fuel : Nat) : ∀ buf : List UInt8, buf.length ≤ fuel →
    completeFrom fuel buf ≤ buf.length ∧ buf.length ≤ completeFrom fuel buf+3 := by
  induction fuel with
  | zero =>
    intro buf few
    exact ⟨Nat.zero_le _,by omega⟩
  | succ fuel ih =>
    intro buf few
    cases buf with
    | nil => exact ⟨Nat.le_refl _,by simp⟩
    | cons c rest =>
      simp only [List.length_cons] at few
      unfold completeFrom
      cases found : codePointNeed c with
      | none =>
        obtain ⟨inside,near⟩ := ih rest (by omega)
        simp only [List.length_cons]
        omega
      | some need =>
        obtain ⟨low,high⟩ := codePointNeed_bounds found
        have dropped : ((c :: rest).drop need).length = rest.length+1-need := by simp
        obtain ⟨inside,near⟩ := ih ((c :: rest).drop need) (by omega)
        simp only [List.length_cons]
        split <;> omega

theorem completeFrom_chars (fuel : Nat) : ∀ (cs : List Char) (buf more : List UInt8), buf.length ≤ fuel →
    buf++more = cs.flatMap String.utf8EncodeChar →
    ∃ j, buf.take (completeFrom fuel buf) = (cs.take j).flatMap String.utf8EncodeChar ∧
      buf.drop (completeFrom fuel buf)++more = (cs.drop j).flatMap String.utf8EncodeChar := by
  induction fuel with
  | zero =>
    intro cs buf more few whole
    exact ⟨0,rfl,whole⟩
  | succ fuel ih =>
    intro cs buf more few whole
    cases buf with
    | nil => exact ⟨0,rfl,whole⟩
    | cons c rest =>
      cases cs with
      | nil => simp at whole
      | cons d cs =>
        obtain ⟨lead,conts,encoded,need⟩ := codePointNeed_lead d
        rw [List.flatMap_cons,encoded] at whole
        obtain ⟨rfl,tail⟩ := List.cons.inj whole
        change rest++more = conts++cs.flatMap String.utf8EncodeChar at tail
        unfold completeFrom
        rw [need]
        dsimp only
        split
        · exact ⟨0,rfl,by rw [List.drop_zero,List.drop_zero,List.flatMap_cons,encoded]; exact whole⟩
        · rename_i fits
          simp only [List.length_cons,gt_iff_lt,Nat.not_lt] at fits few
          obtain ⟨more',split'⟩ : ∃ more', rest = conts++more' := by
            refine ⟨rest.drop conts.length,?_⟩
            have front : rest.take conts.length = conts := by
              have cut := congrArg (List.take conts.length) tail
              rwa [List.take_append_of_le_length (by omega),List.take_left] at cut
            conv_lhs => rw [← List.take_append_drop conts.length rest,front]
          subst split'
          have rest' : more'++more = cs.flatMap String.utf8EncodeChar := by
            rw [List.append_assoc] at tail
            exact List.append_cancel_left tail
          have dropped : (c :: (conts++more')).drop (conts.length+1) = more' := by
            rw [List.drop_succ_cons,List.drop_left]
          rw [dropped]
          obtain ⟨j,taken,left⟩ := ih cs more' more (by simp only [List.length_append] at few; omega) rest'
          have reach : conts.length+1+completeFrom fuel more' = (c :: conts).length+completeFrom fuel more' := rfl
          refine ⟨j+1,?_,?_⟩
          · rw [List.take_succ_cons,List.flatMap_cons,encoded,← taken,reach,← List.cons_append,
              List.take_length_add_append]
          · rw [List.drop_succ_cons,← left,reach,← List.cons_append,List.drop_length_add_append]

section stream
variable {s : Stream} {piece : List UInt8}

-- No cut of push ever takes effect.
theorem push_merged (small : s.pending.length ≤ 3) (short : piece.length ≤ 2047) :
    s.push piece = ⟨s.texts++(if utf8CompletePrefix (s.pending++piece) > 0 then
        [(s.pending++piece).take (utf8CompletePrefix (s.pending++piece))] else []),
      (s.pending++piece).drop (utf8CompletePrefix (s.pending++piece))⟩ := by
  have fits : piece.take (mergedCap-s.pending.length) = piece :=
    List.take_of_length_le (by simp only [mergedCap]; omega)
  simp only [Stream.push,List.take_of_length_le (show piece.length ≤ pieceCap-1 from short),fits]

theorem push_pending (small : s.pending.length ≤ 3) (short : piece.length ≤ 2047) : (s.push piece).pending.length ≤ 3 := by
  rw [push_merged small short,List.length_drop]
  have := (completeFrom_bounds _ (s.pending++piece) (Nat.le_refl _)).2
  change _ ≤ utf8CompletePrefix _+3 at this
  omega

theorem push_flatten (small : s.pending.length ≤ 3) (short : piece.length ≤ 2047) :
    (s.push piece).texts.flatten++(s.push piece).pending = s.texts.flatten++s.pending++piece := by
  rw [push_merged small short,List.flatten_append,List.append_assoc,List.append_assoc]
  congr 1
  split
  · rw [List.flatten_singleton,List.take_append_drop]
  · rename_i none'
    rw [Nat.eq_zero_of_not_pos none',List.drop_zero]
    rfl

theorem push_short (small : s.pending.length ≤ 3) (short : piece.length ≤ 2047)
    (texts : ∀ t ∈ s.texts, t.length ≤ 2050) : ∀ t ∈ (s.push piece).texts, t.length ≤ 2050 := by
  intro t present
  rw [push_merged small short] at present
  rcases List.mem_append.mp present with before | now
  · exact texts t before
  · split at now
    · obtain rfl := List.mem_singleton.mp now
      rw [List.length_take,List.length_append]
      omega
    · cases now

theorem push_whole (small : s.pending.length ≤ 3) (short : piece.length ≤ 2047) (cs : List Char)
    (ahead : s.pending++(piece++more) = cs.flatMap String.utf8EncodeChar) (texts : ∀ t ∈ s.texts, ValidUtf8 t) :
    (∀ t ∈ (s.push piece).texts, ValidUtf8 t) ∧
      ∃ cs' : List Char, (s.push piece).pending++more = cs'.flatMap String.utf8EncodeChar := by
  rw [← List.append_assoc] at ahead
  obtain ⟨j,taken,left⟩ := completeFrom_chars _ cs (s.pending++piece) more (Nat.le_refl _) ahead
  rw [push_merged small short]
  refine ⟨fun t present => ?_,⟨_,left⟩⟩
  rcases List.mem_append.mp present with before | now
  · exact texts t before
  · split at now
    · obtain rfl := List.mem_singleton.mp now
      exact ⟨_,taken⟩
    · cases now

end stream

section run
variable (showThink : Bool)

theorem streamPieces_append (pieces : List (List UInt8)) (piece : List UInt8) :
    streamPieces showThink (pieces++[piece]) = (streamPieces showThink pieces).push piece := by
  rw [streamPieces,List.foldl_append]
  rfl

theorem streamPieces_pending (pieces : List (List UInt8)) (short : ∀ p ∈ pieces, p.length ≤ 2047) :
    (streamPieces showThink pieces).pending.length ≤ 3 := by
  induction pieces using List.reverseRecOn with
  | nil => exact Nat.zero_le _
  | append_singleton pieces piece ih =>
    rw [streamPieces_append]
    exact push_pending (ih fun p present => short p (List.mem_append_left _ present)) (short piece (by simp))

theorem streamPieces_flatten (pieces : List (List UInt8)) (short : ∀ p ∈ pieces, p.length ≤ 2047) :
    (streamPieces showThink pieces).texts.flatten++(streamPieces showThink pieces).pending =
      (streamStart showThink).texts.flatten++pieces.flatten := by
  induction pieces using List.reverseRecOn with
  | nil => simp [streamPieces,streamStart]
  | append_singleton pieces piece ih =>
    have before : ∀ p ∈ pieces, p.length ≤ 2047 := fun p present => short p (List.mem_append_left _ present)
    rw [streamPieces_append,push_flatten (streamPieces_pending showThink pieces before) (short piece (by simp)),ih before]
    simp

theorem streamPieces_short (pieces : List (List UInt8)) (short : ∀ p ∈ pieces, p.length ≤ 2047) :
    ∀ t ∈ (streamPieces showThink pieces).texts, t.length ≤ 2050 := by
  induction pieces using List.reverseRecOn with
  | nil =>
    intro t present
    cases showThink with
    | false => cases present
    | true =>
      obtain rfl := List.mem_singleton.mp present
      decide
  | append_singleton pieces piece ih =>
    have before : ∀ p ∈ pieces, p.length ≤ 2047 := fun p present => short p (List.mem_append_left _ present)
    rw [streamPieces_append]
    exact push_short (streamPieces_pending showThink pieces before) (short piece (by simp)) (ih before)

-- The carry and the pieces to come are always whole characters.
theorem streamPieces_whole (pieces : List (List UInt8)) : ∀ more : List UInt8, (∀ p ∈ pieces, p.length ≤ 2047) →
    ValidUtf8 (pieces.flatten++more) → (∀ t ∈ (streamPieces showThink pieces).texts, ValidUtf8 t) ∧
      ∃ cs : List Char, (streamPieces showThink pieces).pending++more = cs.flatMap String.utf8EncodeChar := by
  induction pieces using List.reverseRecOn with
  | nil =>
    intro more _ valid
    refine ⟨fun t present => ?_,valid⟩
    cases showThink with
    | false => cases present
    | true =>
      obtain rfl := List.mem_singleton.mp present
      exact ⟨"<think>\n".toList,by decide +kernel⟩
  | append_singleton pieces piece ih =>
    intro more short valid
    have before : ∀ p ∈ pieces, p.length ≤ 2047 := fun p present => short p (List.mem_append_left _ present)
    rw [List.flatten_append,List.flatten_singleton,List.append_assoc] at valid
    obtain ⟨texts,cs,ahead⟩ := ih (piece++more) before valid
    rw [streamPieces_append]
    exact push_whole (streamPieces_pending showThink pieces before) (short piece (by simp)) cs ahead texts

end run

theorem escapedSize_le (text : List UInt8) : escapedSize text ≤ 6*text.length := by
  induction text with
  | nil => exact Nat.le_refl _
  | cons c rest ih =>
    have one : expansion c ≤ 6 := by
      unfold expansion jsonEscapeByte
      split_ifs <;> simp
    simp only [escapedSize,List.map_cons,List.sum_cons,List.length_cons] at ih ⊢
    omega

theorem escape_fits (text : List UInt8) (short : text.length ≤ 2050) : jsonEscapeStr (escCap-1) 0 text = escapeAll text := by
  rw [jsonEscapeStr_whole]
  have size := escapedSize_le text.dropLast
  have less : text.dropLast.length ≤ 2050 := by rw [List.length_dropLast]; omega
  exact .inr (by simp only [escCap]; omega)

theorem printed_length (z : Int) (low : -2^63 ≤ z) (high : z < 2^63) : (printed z).length ≤ 20 := by
  have digits : ∀ n : Nat, n ≤ 2^63 → (cstr (toString n)).length ≤ 19 := by
    intro n small
    rw [cstr,List.length_map]
    change ((Nat.repr n).toList).length ≤ 19
    rw [Nat.toList_repr]
    exact Nat.toDigits_length 10 n 19 (by decide) (by omega)
  cases z with
  | ofNat n =>
    have := digits n (by simp at high; omega)
    simp only [printed]
    omega
  | negSucc n =>
    have := digits (n+1) (by omega)
    simp only [printed,List.length_cons]
    omega

theorem sseEmitContent_whole (created : Int) (low : -2^63 ≤ created) (high : created < 2^63) (text : List UInt8)
    (short : text.length ≤ 2050) : sseEmitContent created text = contentEvent created (escapeAll text) := by
  rw [sseEmitContent,escape_fits text short,List.take_of_length_le]
  have name := printed_length created low high
  have size := escapedSize_le text
  rw [← escapeAll_length] at size
  have fixed : (contentEvent created (escapeAll text)).length =
      (cstr "data: \x7b\"id\":\"chatcmpl-").length+(printed created).length+
      (cstr "\",\"object\":\"chat.completion.chunk\",\"created\":").length+(printed created).length+
      (cstr ",\"model\":\"default\",\"choices\":[\x7b\"index\":0,\"delta\":\x7b\"content\":\"").length+(escapeAll text).length+
      (cstr "\"\x7d,\"finish_reason\":null\x7d]\x7d\n\n").length := by
    simp only [contentEvent,List.length_append]
  rw [fixed]
  have words : (cstr "data: \x7b\"id\":\"chatcmpl-").length+
      (cstr "\",\"object\":\"chat.completion.chunk\",\"created\":").length+
      (cstr ",\"model\":\"default\",\"choices\":[\x7b\"index\":0,\"delta\":\x7b\"content\":\"").length+
      (cstr "\"\x7d,\"finish_reason\":null\x7d]\x7d\n\n").length ≤ 200 := by decide +kernel
  simp only [eventCap]
  omega

-- Every text reaches its event escaped as a whole, the texts spell the echo and the
-- pieces, the carry stays below a code point, and valid output is never cut inside one.
theorem stream_lossless (showThink : Bool) (created : Int) (low : -2^63 ≤ created) (high : created < 2^63)
    (pieces : List (List UInt8)) (short : ∀ p ∈ pieces, p.length ≤ 2047) :
    (streamTexts showThink pieces).flatten = (if showThink then cstr "<think>\n" else [])++pieces.flatten ∧
    (∀ t ∈ streamTexts showThink pieces, sseEmitContent created t = contentEvent created (escapeAll t)) ∧
    (∀ n, (streamPieces showThink (pieces.take n)).pending.length ≤ 3) ∧
    (ValidUtf8 pieces.flatten → ∀ t ∈ streamTexts showThink pieces, ValidUtf8 t) := by
  have small := streamPieces_pending showThink pieces short
  refine ⟨?_,fun t present => ?_,fun n => ?_,fun valid t present => ?_⟩
  · have spelled := streamPieces_flatten showThink pieces short
    rw [streamTexts,Stream.flush,List.flatten_append]
    have carry : (if (streamPieces showThink pieces).pending.length > 0 then [(streamPieces showThink pieces).pending]
        else []).flatten = (streamPieces showThink pieces).pending := by
      split
      · exact List.flatten_singleton
      · rename_i none'
        rw [List.length_eq_zero_iff.mp (Nat.eq_zero_of_not_pos none')]
        rfl
    rw [carry,spelled]
    cases showThink <;> simp [streamStart]
  · refine sseEmitContent_whole created low high t ?_
    rcases List.mem_append.mp present with before | last
    · exact streamPieces_short showThink pieces short t before
    · split at last
      · obtain rfl := List.mem_singleton.mp last
        omega
      · cases last
  · exact streamPieces_pending showThink _ fun p there => short p (List.mem_of_mem_take there)
  · obtain ⟨texts,cs,rest⟩ := streamPieces_whole showThink pieces [] short (by rw [List.append_nil]; exact valid)
    rcases List.mem_append.mp present with before | last
    · exact texts t before
    · split at last
      · obtain rfl := List.mem_singleton.mp last
        exact ⟨cs,by rw [← rest,List.append_nil]⟩
      · cases last

-- "é" cut between its two bytes.
theorem stream_lossless_cut : (streamTexts true [[0xC3],[0xA9]]).flatten = cstr "<think>\n"++[0xC3,0xA9] ∧
    (∀ t ∈ streamTexts true [[0xC3],[0xA9]], ValidUtf8 t) := by
  obtain ⟨spelled,_,_,whole⟩ := stream_lossless true 1700000000 (by decide) (by decide) [[0xC3],[0xA9]] (by decide)
  exact ⟨spelled,whole ⟨['é'],by decide +kernel⟩⟩

end TinyLlama.Server
