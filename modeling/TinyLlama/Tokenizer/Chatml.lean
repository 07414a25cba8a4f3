import TinyLlama.Tokenizer.Chat
import TinyLlama.Tokenizer.Lossless
import TinyLlama.Tokenizer.SpmPieces

namespace TinyLlama.Tokenizer
open Gguf Vocabulary

def Closes (v : Vocab) (noThink : Bool) (userMsg : List UInt8) (out : List Nat) : Prop :=
  ∃ front, out = front++textTokens v (cText userMsg) true++
    [idWord (imEnd v),idWord (newline v),idWord (imStart v)]++textTokens v (cText (cstr "assistant")) true++
    [idWord (newline v)]++reasoning v noThink

structure CompletePrompt (v : Vocab) (noThink : Bool) (userMsg : List UInt8) (sysMsg : Option (List UInt8))
    (out : List Nat) : Prop where
  whole : out = chatmlTemplate v noThink userMsg sysMsg
  closes : Closes v noThink userMsg out

theorem chatmlTemplate_closes (v : Vocab) (noThink : Bool) (userMsg : List UInt8) (sysMsg : Option (List UInt8)) :
    Closes v noThink userMsg (chatmlTemplate v noThink userMsg sysMsg) := by
  refine ⟨(((given sysMsg).map (chatmlSystem v)).getD []).flatMap (Part.tokens v)++
    [idWord (imStart v)]++textTokens v (cText (cstr "user")) true++[idWord (newline v)],?_⟩
  simp only [chatmlTemplate,chatmlParts,chatmlTurn,List.flatMap_append,List.flatMap_cons,List.flatMap_nil,Part.tokens,
    List.append_assoc,List.append_nil,List.cons_append,List.nil_append]

theorem chatmlPrompt_complete_iff (v : Vocab) (noThink : Bool) (userMsg : List UInt8) (sysMsg : Option (List UInt8))
    (maxTokens : Nat) (markers : HasChatml v) :
    CompletePrompt v noThink userMsg sysMsg (chatmlPrompt v noThink userMsg sysMsg maxTokens) ↔
      (chatmlTemplate v noThink userMsg sysMsg).length ≤ maxTokens := by
  rw [chatmlPrompt_cut v noThink userMsg sysMsg maxTokens markers]
  constructor
  · intro complete
    by_cases fits : (chatmlTemplate v noThink userMsg sysMsg).length ≤ maxTokens
    · exact fits
    · have whole := complete.whole
      rw [if_neg fits] at whole
      have short := congrArg List.length whole
      rw [List.length_take] at short
      omega
  · intro fits
    rw [if_pos fits]
    exact ⟨rfl,chatmlTemplate_closes v noThink userMsg sysMsg⟩

def chatTokens : List (List UInt8) := [cstr "<|im_start|>",cstr "<|im_end|>",bytePiece 10,cstr "a",cstr "1"]

def gpt2Layout (tokens : List (List UInt8)) : Layout :=
  ⟨[⟨cstr "tokenizer.ggml.model",.string (cstr "gpt2")⟩,⟨cstr "tokenizer.ggml.merges",.array valueString []⟩,
    ⟨cstr "tokenizer.ggml.tokens",.array valueString (tokens.map Value.string)⟩],
   [⟨cstr "token_embd.weight",[1],0,0⟩],List.replicate 64 0⟩

def chatFile : MappedFile := ⟨(gpt2Layout chatTokens).encode,by decide +kernel⟩

theorem vocab_runs (f : MappedFile) (g : Vocab → α) (x : α)
    (ran : (modelLoad f >>= vocabLoad).toOption.map g = some x) :
    ∃ m v, modelLoad f = .ok m ∧ vocabLoad m = .ok v ∧ g v = x := by
  cases accepted : modelLoad f with
  | error e => simp [accepted,Bind.bind,Except.bind,Except.toOption] at ran
  | ok m =>
    cases loaded : vocabLoad m with
    | error e => simp [accepted,loaded,Bind.bind,Except.bind,Except.toOption] at ran
    | ok v =>
      refine ⟨m,v,rfl,loaded,?_⟩
      simpa [accepted,loaded,Bind.bind,Except.bind,Except.toOption] using ran

def chatFacts (v : Vocab) : List Int × List (List Nat) × Bool :=
  ([imStart v,imEnd v,newline v,thinkStart v,v.byteTokenIds 97,v.byteTokenIds 49],
   [textTokens v (cText (cstr "user")) true,textTokens v (cText (cstr "assistant")) true],v.tokenizerType == .bpe)

theorem chatFile_loads : ∃ m v, modelLoad chatFile = .ok m ∧ vocabLoad m = .ok v ∧
    chatFacts v = ([0,1,2,-1,3,4],[[],[3,3]],true) :=
  vocab_runs chatFile chatFacts _ (by decide +kernel)

theorem chatFile_complete : ∃ m v, modelLoad chatFile = .ok m ∧ vocabLoad m = .ok v ∧
    CompletePrompt v true [97] (some [49]) (chatmlPrompt v true [97] (some [49]) 4096) := by
  obtain ⟨m,v,accepted,loaded,facts⟩ := vocab_runs chatFile
    (fun v => (decide (HasChatml v),(chatmlTemplate v true [97] (some [49])).length)) (true,14) (by decide +kernel)
  obtain ⟨markers,size⟩ := Prod.mk.inj facts
  refine ⟨m,v,accepted,loaded,?_⟩
  exact (chatmlPrompt_complete_iff v true [97] (some [49]) 4096 (of_decide_eq_true markers)).mpr (by rw [size]; decide)

-- A letter and a digit in turn, every byte a chunk of its own.
def alternating : Nat → List UInt8
  | 0 => []
  | n+1 => 97 :: 49 :: alternating n

def alternated (a b : Nat) : Nat → List Nat
  | 0 => []
  | n+1 => a :: b :: alternated a b n

theorem alternating_length (n : Nat) : (alternating n).length = 2*n := by
  induction n with
  | zero => rfl
  | succ n ih => simp only [alternating,List.length_cons,ih]; omega

theorem alternated_length (a b n : Nat) : (alternated a b n).length = 2*n := by
  induction n with
  | zero => rfl
  | succ n ih => simp only [alternated,List.length_cons,ih]; omega

theorem bpeEncodeChunk_one {sym : Nat} (found : byteSymbol v c = some sym) (room : 0 < maxOut) :
    bpeEncodeChunk v [c] maxOut = [sym] := by
  have syms : [c].filterMap (byteSymbol v) = [sym] := by simp [found]
  have alone : mergeLoop v 1 [sym] = [sym] := by simp [mergeLoop,bestPair]
  have kept : [sym].take chunkSymbols = [sym] := List.take_of_length_le (by simp [chunkSymbols])
  rw [bpeEncodeChunk,syms,kept]
  exact (congrArg (List.take maxOut) alone).trans (List.take_of_length_le room)

theorem bpeLoop_one {sym : Nat} (found : byteSymbol v c = some sym) (plain : c ≠ 60) (alone : chunkLen (c :: rest) = 1)
    (room : symbols.length < bpeMaxSymbols) :
    bpeLoop v (fuel+1) (c :: rest) symbols = bpeLoop v fuel rest (symbols++[sym]) := by
  have ordinary : matchSpecialToken v (c :: rest) = none := by
    unfold matchSpecialToken
    split
    · rfl
    · split
      · rename_i opened
        exact absurd (List.cons.inj opened).1 plain
      · rfl
  rw [bpeLoop,if_neg (by simp only [reduceCtorEq,false_or]; omega),ordinary,alone]
  simp only [Option.filter_none,List.drop_succ_cons,List.drop_zero,List.take_succ_cons,List.take_zero]
  rw [bpeEncodeChunk_one found (by omega)]

theorem bpeLoop_alternating (letter : byteSymbol v 97 = some a) (digit : byteSymbol v 49 = some b) (n : Nat) :
    ∀ fuel symbols, 2*n ≤ fuel → symbols.length+2*n ≤ bpeMaxSymbols →
      bpeLoop v fuel (alternating n) symbols = symbols++alternated a b n := by
  induction n with
  | zero =>
    intro fuel symbols _ _
    cases fuel <;> simp [bpeLoop,alternating,alternated]
  | succ n ih =>
    intro fuel symbols enough room
    obtain ⟨fuel,rfl⟩ : ∃ k, fuel = k+2 := ⟨fuel-2,by omega⟩
    have first : chunkLen (97 :: 49 :: alternating n) = 1 := rfl
    have second : chunkLen (49 :: alternating n) = 1 := by cases n <;> rfl
    rw [alternating,bpeLoop_one letter (by decide) first (by omega),
      bpeLoop_one digit (by decide) second (by rw [List.length_append]; simp only [List.length_singleton]; omega),
      ih fuel _ (by omega) (by simp only [List.length_append,List.length_singleton]; omega)]
    simp [alternated]

theorem alternated_last (a b n : Nat) : alternated a b (n+1) = alternated a b n++[a,b] := by
  induction n with
  | zero => rfl
  | succ n ih => exact congrArg (fun l => a :: b :: l) ih

theorem alternating_text (n : Nat) : cText (alternating n) = alternating n := by
  induction n with
  | zero => rfl
  | succ n ih =>
    rw [cText] at ih ⊢
    rw [alternating,List.takeWhile_cons_of_pos (by decide),List.takeWhile_cons_of_pos (by decide),ih]

-- 4094 bytes of user text and the prompt ends in the middle of the message.
theorem longMessage_unfinished : ∃ m v, modelLoad chatFile = .ok m ∧ vocabLoad m = .ok v ∧ HasChatml v ∧
    newline v ≠ vocabIdNone ∧ (alternating 2047).length ≤ 4095 ∧
    ¬Closes v false (alternating 2047) (chatmlPrompt v false (alternating 2047) none 4096) := by
  obtain ⟨m,v,accepted,loaded,facts⟩ := chatFile_loads
  simp only [chatFacts,Prod.mk.injEq,List.cons.injEq,and_true,beq_iff_eq] at facts
  obtain ⟨⟨start,stop,nl,think,letter,digit⟩,⟨user,assistant⟩,bpe⟩ := facts
  have markers : HasChatml v := ⟨by rw [start]; decide,by rw [stop]; decide⟩
  have marker : reasoning v false = [] := by rw [reasoning,if_pos (.inl think)]
  have message : textTokens v (cText (alternating 2047)) true = alternated 3 4 2047 := by
    have one : byteSymbol v 97 = some 3 := by rw [byteSymbol,letter]; rfl
    have two : byteSymbol v 49 = some 4 := by rw [byteSymbol,digit]; rfl
    rw [alternating_text,textTokens,if_neg (by rw [bpe]; decide),bpeTokens,alternating_length,
      bpeLoop_alternating one two 2047 _ [] (Nat.le_refl _) (by decide)]
    rfl
  have laid : (chatmlParts v (alternating 2047) none).flatMap (Part.tokens v) =
      [0,2]++alternated 3 4 2047++[1,2,0,3,3,2] := by
    simp only [chatmlParts,given,Option.filter_none,Option.map_none,Option.getD_none,List.nil_append,chatmlTurn,
      List.flatMap_cons,List.flatMap_nil,Part.tokens,start,stop,nl,user,assistant,message,idWord]
    simp
  have size := alternated_length 3 4 2047
  have long : ¬(chatmlTemplate v false (alternating 2047) none).length ≤ 4096 := by
    rw [chatmlTemplate,laid,marker,List.append_nil,List.length_append,List.length_append,size]
    decide
  refine ⟨m,v,accepted,loaded,markers,by rw [nl]; decide,by rw [alternating_length]; decide,?_⟩
  rintro ⟨front,whole⟩
  have cut : ([0,2]++alternated 3 4 2047++[1,2,0,3,3,2]).take 4096 = [0,2]++alternated 3 4 2047 :=
    List.take_left' (by rw [List.length_append,size]; rfl)
  rw [chatmlPrompt_cut v false _ none 4096 markers,if_neg long,laid,cut,marker,List.append_nil,nl,
    alternated_last 3 4 2046] at whole
  have last := congrArg List.getLast? whole
  have word : idWord 2 = 2 := by decide
  rw [word,List.getLast?_concat,← List.append_assoc,List.append_cons,List.getLast?_concat] at last
  exact absurd last (by decide)

-- The turn markers of a token list, in order.
def marks (v : Vocab) (ids : List Nat) : List Nat := ids.filter fun id => id = idWord (imStart v) ∨ id = idWord (imEnd v)

-- The markers that tokenising a message by itself yields.
def ownMarks (v : Vocab) (msg : List UInt8) : List Nat := marks v (textTokens v (cText msg) true)

-- The markers of a prompt: those of the template around those of the messages.
def turnMarks (v : Vocab) (noThink : Bool) (sysMarks : Option (List Nat)) (userMarks : List Nat) : List Nat :=
  let role := fun name => marks v [idWord (imStart v)]++ownMarks v (cstr name)++marks v [idWord (newline v)]
  let close := marks v [idWord (imEnd v),idWord (newline v)]
  (sysMarks.map fun own => role "system"++own++close).getD []++role "user"++userMarks++close++role "assistant"++
    marks v (reasoning v noThink)

theorem marks_append (v : Vocab) (xs ys : List Nat) : marks v (xs++ys) = marks v xs++marks v ys := List.filter_append xs ys

theorem chatmlTemplate_marks (v : Vocab) (noThink : Bool) (userMsg : List UInt8) (sysMsg : Option (List UInt8)) :
    marks v (chatmlTemplate v noThink userMsg sysMsg) =
      turnMarks v noThink ((given sysMsg).map (ownMarks v)) (ownMarks v userMsg) := by
  have two : ∀ a b : Nat, [a,b] = [a]++[b] := fun _ _ => rfl
  cases sys : given sysMsg with
  | none =>
    simp only [chatmlTemplate,chatmlParts,sys,Option.map_none,Option.getD_none,List.nil_append,chatmlTurn,turnMarks,
      List.flatMap_cons,List.flatMap_nil,Part.tokens,marks_append,ownMarks,two,List.append_assoc,List.append_nil]
  | some msg =>
    simp only [chatmlTemplate,chatmlParts,sys,Option.map_some,Option.getD_some,chatmlSystem,chatmlTurn,turnMarks,
      List.flatMap_append,List.flatMap_cons,List.flatMap_nil,Part.tokens,marks_append,ownMarks,two,List.append_assoc,
      List.append_nil]

theorem Spells.segment (spells : Spells v ids text) : ∀ sym ∈ ids, ∃ (k : Key) (segment : List UInt8),
    v.token[sym]? = some k ∧ k.bytes = spelling segment ∧ segment <:+: text := by
  induction spells with
  | nil => intro sym present; cases present
  | @cons sym k segment ids text listed spelled _ _ ih =>
    intro other present
    rcases List.mem_cons.mp present with rfl | later
    · exact ⟨k,segment,listed,spelled,(List.prefix_append _ _).isInfix⟩
    · obtain ⟨k',segment',listed',spelled',inside⟩ := ih other later
      exact ⟨k',segment',listed',spelled',inside.trans (List.suffix_append _ _).isInfix⟩

theorem preTokens_inside (fuel : Nat) : ∀ text : List UInt8, ∀ chunk ∈ preTokens fuel text, chunk <:+: text := by
  induction fuel with
  | zero => intro text chunk present; cases present
  | succ fuel ih =>
    intro text chunk present
    unfold preTokens at present
    split at present
    · cases present
    · rcases List.mem_cons.mp present with rfl | later
      · exact (List.take_prefix _ _).isInfix
      · exact (ih _ chunk later).trans (List.drop_suffix _ _).isInfix

theorem bpeTokens_segment (loaded : vocabLoad m = .ok v) (bpe : v.tokenizerType = .bpe) (all : HasBytes v)
    (plain : ¬[60,124] <:+: text) : ∀ sym ∈ bpeTokens v text, ∃ (k : Key) (segment : List UInt8),
      v.token[sym]? = some k ∧ k.bytes = spelling segment ∧ segment <:+: text := by
  have indexed := vocabLoad_indexed loaded
  have table := vocabLoad_bytes loaded bpe
  have symbols : ∀ b, ∃ id, byteSymbol v b = some id := fun b =>
    (byteSymbol_spells indexed table all b).imp fun _ found => found.1
  intro sym present
  rw [bpeTokens,bpeLoop_eq v (fun chunk => chunkTokens v (chunk.take chunkSymbols)) (bpeEncodeChunk_eq symbols)
    text.length text [] plain (Nat.zero_le _),List.nil_append] at present
  obtain ⟨chunk,listed,inside⟩ := List.mem_flatMap.mp (List.mem_of_mem_take present)
  have spells := (byteSymbols_spell indexed table all (chunk.take chunkSymbols)).1
  obtain ⟨k,segment,there,spelled,part⟩ := (mergeLoop_spells indexed _ _ spells).segment sym inside
  exact ⟨k,segment,there,spelled,
    (part.trans (List.take_prefix _ _).isInfix).trans (preTokens_inside _ text chunk listed)⟩

-- The piece of a marker id spells the marker, so only a text that holds it yields it.
theorem lookup_piece {sym : Nat} {k : Key} (indexed : v.Indexed) (found : vocabLookup v name = (sym : Int))
    (short : (utf8Bytes name).length ≤ 255) (listed : v.token[sym]? = some k) : k.bytes = utf8Bytes name := by
  unfold vocabLookup vocabTryLookup at found
  cases hit : vocabLookupLen v.tokens (utf8Bytes name) (utf8Bytes name).length with
  | none =>
    rw [hit] at found
    simp [vocabIdNone] at found
  | some id =>
    obtain ⟨i,s,there,named,value⟩ := indexed.sound hit
    have same : (i : Int) = sym := by rw [← value,← found,hit,Option.getD_some]
    obtain rfl : i = sym := by exact_mod_cast same
    rw [listed] at there
    obtain rfl := Option.some.inj there
    have bytes := (Prod.mk.inj named).2
    rw [u8_of_lt (show (utf8Bytes name).length < 2^8 by omega)] at bytes
    rw [bytes]
    exact List.take_length

theorem lookup_word (indexed : v.Indexed) (found : vocabLookup v name ≠ vocabIdNone) :
    vocabLookup v name = (idWord (vocabLookup v name) : Int) ∧ idWord (vocabLookup v name) < v.nVocab := by
  unfold vocabLookup vocabTryLookup at found ⊢
  cases hit : vocabLookupLen v.tokens (utf8Bytes name) (utf8Bytes name).length with
  | none =>
    rw [hit] at found
    exact absurd rfl found
  | some id =>
    obtain ⟨i,s,there,_,rfl⟩ := indexed.sound hit
    have below := (List.getElem?_eq_some_iff.mp there).1
    have count := indexed.count
    simp only [int32Max] at count
    have word : idWord (i : Int) = i := by
      unfold idWord
      omega
    rw [Option.getD_some,word]
    exact ⟨rfl,below⟩

theorem marker_inside {sym : Nat} {k : Key} {bytes : List UInt8} (indexed : v.Indexed)
    (found : vocabLookup v name ≠ vocabIdNone) (same : sym = idWord (vocabLookup v name))
    (short : (utf8Bytes name).length ≤ 255) (plain : decodeLoop 255 (utf8Bytes name) = utf8Bytes name)
    (listed : v.token[sym]? = some k) (spelled : k.bytes = spelling bytes) : bytes = utf8Bytes name := by
  have spells := spelled.symm.trans (lookup_piece indexed (same ▸ (lookup_word indexed found).1) short listed)
  have fewer := spelling_length bytes
  rw [spells] at fewer
  have decoded := decode_spelling bytes 255 (by omega)
  rw [spells,plain] at decoded
  exact decoded.symm

theorem ownMarks_plain (loaded : vocabLoad m = .ok v) (bpe : v.tokenizerType = .bpe) (all : HasBytes v)
    (markers : HasChatml v) (plain : ¬[60,124] <:+: cText text) : ownMarks v text = [] := by
  have indexed := vocabLoad_indexed loaded
  have ids := vocabLoad_ids loaded
  obtain ⟨start,stop⟩ := markers
  have marker := idOr_lookup v ids.imStart
  have marker' := idOr_lookup v ids.imEnd
  rw [imStart,marker] at start
  rw [imEnd,marker'] at stop
  refine List.filter_eq_nil_iff.mpr fun sym present chosen => ?_
  rw [textTokens,if_neg (by rw [bpe]; decide)] at present
  obtain ⟨k,bytes,listed,spelled,part⟩ := bpeTokens_segment loaded bpe all plain sym present
  rw [decide_eq_true_iff,imStart,imEnd,marker,marker'] at chosen
  rcases chosen with same | same
  · have whole := marker_inside indexed start same (by decide +kernel) (by decide +kernel) listed spelled
    have opened : [60,124] <:+: bytes := whole ▸ ⟨[],cstr "im_start|>",by decide +kernel⟩
    exact plain (opened.trans part)
  · have whole := marker_inside indexed stop same (by decide +kernel) (by decide +kernel) listed spelled
    have opened : [60,124] <:+: bytes := whole ▸ ⟨[],cstr "im_end|>",by decide +kernel⟩
    exact plain (opened.trans part)

theorem ownMarks_spm (loaded : vocabLoad m = .ok v) (spm : v.tokenizerType = .spm) (scored : v.scores = some scores)
    (markers : HasChatml v) (plain : ¬[60,124] <:+: cText text) : ownMarks v text = [] := by
  have indexed := vocabLoad_indexed loaded
  have ids := vocabLoad_ids loaded
  obtain ⟨start,stop⟩ := markers
  have marker := idOr_lookup v ids.imStart
  have marker' := idOr_lookup v ids.imEnd
  rw [imStart,marker] at start
  rw [imEnd,marker'] at stop
  have apart : ∀ (k : Key) (tl : List UInt8),(k.bytes <:+: normalize (cText text) true ∨ (spmByteTokenValue k).isSome) →
      k.bytes ≠ 60 :: 124 :: tl := by
    rintro k tl (part | byte) whole
    · rw [whole] at part
      have opens : [60,124] <:+: normalize (cText text) true := (List.prefix_append [60,124] tl).isInfix.trans part
      exact plain (normalized_segment 60 [124] (by decide) (by simp) true opens)
    · obtain ⟨n,value⟩ := Option.isSome_iff_exists.mp byte
      obtain ⟨hi,lo,bytes,_⟩ := spmByteTokenValue_some value
      rw [bytes] at whole
      exact absurd (List.cons.inj (List.cons.inj whole).2).1 (by decide)
  refine List.filter_eq_nil_iff.mpr fun sym present chosen => ?_
  rw [textTokens,if_pos spm,spmIds,scored] at present
  obtain ⟨k,listed,piece⟩ := spmTokens_piece loaded scored _ sym present
  rw [decide_eq_true_iff,imStart,imEnd,marker,marker'] at chosen
  rcases chosen with same | same
  · have whole := lookup_piece indexed (same ▸ (lookup_word indexed start).1) (by decide +kernel) listed
    exact apart k _ piece (whole.trans (by decide +kernel : _ = 60 :: 124 :: cstr "im_start|>"))
  · have whole := lookup_piece indexed (same ▸ (lookup_word indexed stop).1) (by decide +kernel) listed
    exact apart k _ piece (whole.trans (by decide +kernel : _ = 60 :: 124 :: cstr "im_end|>"))

theorem chatmlPrompt_marks (v : Vocab) (noThink : Bool) (userMsg : List UInt8) (sysMsg : Option (List UInt8))
    (maxTokens : Nat) (markers : HasChatml v) (fits : (chatmlTemplate v noThink userMsg sysMsg).length ≤ maxTokens) :
    marks v (chatmlPrompt v noThink userMsg sysMsg maxTokens) =
        turnMarks v noThink ((given sysMsg).map (ownMarks v)) (ownMarks v userMsg) ∧
      ∀ m, vocabLoad m = .ok v → (v.tokenizerType = .bpe ∧ HasBytes v ∨ v.tokenizerType = .spm ∧ v.scores.isSome) →
        ∀ msg, ¬[60,124] <:+: cText msg → ownMarks v msg = [] := by
  constructor
  · rw [chatmlPrompt_cut v noThink userMsg sysMsg maxTokens markers,if_pos fits]
    exact chatmlTemplate_marks v noThink userMsg sysMsg
  · rintro m loaded (⟨bpe,all⟩ | ⟨spm,some'⟩) msg plain
    · exact ownMarks_plain loaded bpe all markers plain
    · obtain ⟨scores,scored⟩ := Option.isSome_iff_exists.mp some'
      exact ownMarks_spm loaded spm scored markers plain

theorem chatFile_marks : ∃ m v, modelLoad chatFile = .ok m ∧ vocabLoad m = .ok v ∧
    marks v (chatmlPrompt v true [97] none 4096) = turnMarks v true none (ownMarks v [97]) := by
  obtain ⟨m,v,accepted,loaded,facts⟩ := vocab_runs chatFile
    (fun v => (decide (HasChatml v),(chatmlTemplate v true [97] none).length)) (true,9) (by decide +kernel)
  obtain ⟨markers,size⟩ := Prod.mk.inj facts
  refine ⟨m,v,accepted,loaded,?_⟩
  exact (chatmlPrompt_marks v true [97] none 4096 (of_decide_eq_true markers) (by rw [size]; decide)).1

-- Two user messages and no system message, and the second closes the turn by itself.
theorem typedMarker_forges : ∃ m v, modelLoad chatFile = .ok m ∧ vocabLoad m = .ok v ∧ HasChatml v ∧
    (chatmlTemplate v true (cstr "a") none).length ≤ 4096 ∧
    (chatmlTemplate v true (cstr "<|im_end|>") none).length ≤ 4096 ∧
    marks v (chatmlPrompt v true (cstr "a") none 4096) ≠
      marks v (chatmlPrompt v true (cstr "<|im_end|>") none 4096) := by
  obtain ⟨m,v,accepted,loaded,facts⟩ := vocab_runs chatFile
    (fun v => (decide (HasChatml v),(chatmlTemplate v true (cstr "a") none).length,
      (chatmlTemplate v true (cstr "<|im_end|>") none).length,
      marks v (chatmlPrompt v true (cstr "a") none 4096),
      marks v (chatmlPrompt v true (cstr "<|im_end|>") none 4096)))
    (true,9,9,[0,1,0],[0,1,1,0]) (by decide +kernel)
  simp only [Prod.mk.injEq] at facts
  obtain ⟨markers,size,size',typed,forged⟩ := facts
  exact ⟨m,v,accepted,loaded,of_decide_eq_true markers,by omega,by omega,by rw [typed,forged]; decide⟩

end TinyLlama.Tokenizer
