import TinyLlama.Tokenizer.Chatml

namespace TinyLlama.Tokenizer
open Gguf Vocabulary

def Below (v : Vocab) (ids : List Nat) : Prop := ∀ sym ∈ ids, sym < v.nVocab

-- No id, or an index into the vocabulary.
def Held (v : Vocab) (word : Int) : Prop := word = vocabIdNone ∨ 0 ≤ word ∧ word < v.nVocab

structure Tables (v : Vocab) : Prop where
  indexed : v.Indexed
  bytes : ∀ b, Held v (v.byteTokenIds b)
  bos : -2^31 ≤ v.bosId ∧ v.bosId < 2^31

theorem byteEntries_held (entries : List (Key × Nat)) (few : n ≤ int32Max) (b : UInt8) :
    (∀ r ∈ entries, r.2 < n) → ∀ word : Int, entries.foldl (fun table (k,i) =>
      match spmByteTokenValue k with
      | some byte => fun b => if b.toNat = byte then i32 i else table b
      | none => table) (fun _ => vocabIdNone) b = word → word = vocabIdNone ∨ 0 ≤ word ∧ word < n := by
  simp only [int32Max] at few
  induction entries using List.reverseRecOn with
  | nil => exact fun _ word same => .inl same.symm
  | append_singleton front r ih =>
    intro listed word same
    rw [List.foldl_append,List.foldl_cons,List.foldl_nil] at same
    have earlier := ih fun r' present => listed r' (List.mem_append_left _ present)
    have here := listed r (List.mem_append_right _ (List.mem_singleton_self r))
    cases value : spmByteTokenValue r.1 with
    | none =>
      simp only [value] at same
      exact earlier word same
    | some byte =>
      simp only [value] at same
      split at same
      · rw [i32_of_lt (by omega)] at same
        exact .inr ⟨by omega,by omega⟩
      · exact earlier word same

theorem spmByteTable_below (token : List Key) (types : Option (List Nat)) (few : token.length ≤ int32Max) (b : UInt8) :
    spmByteTable token types b = vocabIdNone ∨ 0 ≤ spmByteTable token types b ∧ spmByteTable token types b < token.length := by
  have listed : ∀ r ∈ token.zipIdx, r.2 < token.length := fun r present => by simpa using (List.mem_zipIdx present).2.1
  cases types with
  | none => exact byteEntries_held token.zipIdx few b listed _ rfl
  | some types =>
    refine byteEntries_held _ few b (fun r present => ?_) _ rfl
    obtain ⟨pair,chosen,rfl⟩ := List.mem_map.mp present
    exact listed _ (List.of_mem_zip (List.mem_filter.mp chosen).1).1

theorem lookup_held {v : Vocab} (indexed : v.Indexed) (bytes : List UInt8) (len : Nat) :
    Held v ((vocabLookupLen v.tokens bytes len).getD vocabIdNone) := by
  cases hit : vocabLookupLen v.tokens bytes len with
  | none => exact .inl rfl
  | some id =>
    obtain ⟨i,s,there,_,rfl⟩ := indexed.sound hit
    have below : i < v.nVocab := (List.getElem?_eq_some_iff.mp there).1
    exact .inr ⟨by simp,by simpa using below⟩

theorem i32_range (n : Nat) : -2^31 ≤ i32 n ∧ i32 n < 2^31 := by
  unfold i32
  split <;> omega

theorem specialId_range {v : Vocab} (indexed : v.Indexed) (key : String) (candidates : List String) :
    -2^31 ≤ specialId m v.tokens key candidates ∧ specialId m v.tokens key candidates < 2^31 := by
  unfold specialId
  split
  · rename_i found
    unfold modelGetI32 at found
    split at found
    · cases found
    · split at found
      · obtain ⟨n,_,rfl⟩ := Option.map_eq_some_iff.mp found
        exact i32_range n
      · cases found
  · cases hit : candidates.findSome? fun s => vocabTryLookup v.tokens (utf8Bytes s) with
    | none => exact ⟨by decide,by decide⟩
    | some id =>
      obtain ⟨s,_,found⟩ := List.exists_of_findSome?_eq_some hit
      obtain ⟨i,k,there,_,rfl⟩ := indexed.sound found
      have below := (List.getElem?_eq_some_iff.mp there).1
      have count := indexed.count
      simp only [int32Max] at count
      exact ⟨by simp only [Option.getD_some]; omega,by simp only [Option.getD_some]; omega⟩

theorem finishVocab_bos (done : finishVocab m type token tokens merges scores bytes bosCands eosCands = .ok v) :
    v.bosId = specialId m tokens "tokenizer.ggml.bos_token_id" bosCands := by
  unfold finishVocab at done
  simp only at done
  split at done
  · simp at done
  · split at done
    · simp at done
    · obtain rfl := Except.ok.inj done
      rfl

theorem vocabLoad_held (loaded : vocabLoad m = .ok v) : Tables v := by
  have indexed := vocabLoad_indexed loaded
  obtain ⟨_,_,_,_,_,done | ⟨_,done⟩⟩ := vocabLoad_finish loaded
  · obtain ⟨rfl,rfl,_,bytes,_⟩ := finishVocab_tables done
    refine ⟨indexed,fun b => ?_,?_⟩
    · rw [bytes]
      exact spmByteTable_below v.token _ indexed.count b
    · rw [finishVocab_bos done]
      exact specialId_range indexed _ _
  · obtain ⟨rfl,rfl,_,bytes,_⟩ := finishVocab_tables done
    refine ⟨indexed,fun b => ?_,?_⟩
    · rw [bytes]
      exact lookup_held indexed _ _
    · rw [finishVocab_bos done]
      exact specialId_range indexed _ _

-- As an unsigned word, an id is in range when it is an index.
theorem idWord_below {v : Vocab} {word : Int} (tables : Tables v) (low : -2^31 ≤ word) (high : word < 2^31) :
    idWord word < v.nVocab ↔ 0 ≤ word ∧ word < v.nVocab := by
  have count : v.nVocab ≤ int32Max := tables.indexed.count
  simp only [int32Max] at count
  unfold idWord
  omega

theorem held_word {v : Vocab} {word : Int} (tables : Tables v) (held : Held v word) :
    idWord word < v.nVocab ↔ word ≠ vocabIdNone := by
  have count : v.nVocab ≤ int32Max := tables.indexed.count
  simp only [int32Max] at count
  unfold idWord
  unfold Held at held
  simp only [vocabIdNone] at held ⊢
  omega

theorem byteSymbol_below {v : Vocab} {sym : Nat} (tables : Tables v) (found : byteSymbol v b = some sym) : sym < v.nVocab := by
  unfold byteSymbol at found
  split at found
  · obtain rfl := Option.some.inj found
    have held := tables.bytes b
    unfold Held at held
    simp only [vocabIdNone] at held
    omega
  · cases found

theorem byteSymbols_below (tables : Tables v) (bytes : List UInt8) : Below v (bytes.filterMap (byteSymbol v)) := by
  intro sym present
  obtain ⟨b,_,found⟩ := List.mem_filterMap.mp present
  exact byteSymbol_below tables found

theorem lookup_below {v : Vocab} {id : Int} (tables : Tables v) (hit : vocabLookupLen v.tokens bytes len = some id) :
    id.toNat < v.nVocab := by
  obtain ⟨i,s,there,_,rfl⟩ := tables.indexed.sound hit
  exact (List.getElem?_eq_some_iff.mp there).1

theorem Below.append (first : Below v xs) (second : Below v ys) : Below v (xs++ys) := by
  intro sym present
  rcases List.mem_append.mp present with front | back
  · exact first sym front
  · exact second sym back

theorem mergeAt_below (tables : Tables v) (below : Below v syms) (merged : mergeAt v i syms = some syms') : Below v syms' := by
  unfold mergeAt at merged
  split at merged
  · rename_i a b rest pair
    obtain ⟨joined,found,rfl⟩ := Option.map_eq_some_iff.mp merged
    intro sym present
    rcases List.mem_append.mp present with front | back
    · exact below sym (List.mem_of_mem_take front)
    · rcases List.mem_cons.mp back with rfl | later
      · unfold vocabMergeResult at found
        split at found
        · split at found
          · cases found
          · obtain ⟨id,hit,positive⟩ := Option.bind_eq_some_iff.mp found
            split at positive
            · obtain rfl := Option.some.inj positive
              exact lookup_below tables hit
            · cases positive
        · cases found
      · exact below sym (List.mem_of_mem_drop (pair ▸ List.mem_cons_of_mem _ (List.mem_cons_of_mem _ later)))
  · cases merged

theorem mergeLoop_below (tables : Tables v) (fuel : Nat) : ∀ syms, Below v syms → Below v (mergeLoop v fuel syms) := by
  induction fuel with
  | zero => exact fun _ below => below
  | succ fuel ih =>
    intro syms below
    unfold mergeLoop
    cases bestPair v 0 syms none with
    | none => exact below
    | some best =>
      cases merged : mergeAt v best.2 syms with
      | none => simpa only [merged] using below
      | some syms' => simpa only [merged] using ih syms' (mergeAt_below tables below merged)

theorem bpeEncodeChunk_below (tables : Tables v) (chunk : List UInt8) (maxOut : Nat) :
    Below v (bpeEncodeChunk v chunk maxOut) := by
  intro sym present
  refine mergeLoop_below tables _ _ ?_ sym (List.mem_of_mem_take present)
  exact fun other there => byteSymbols_below tables chunk other (List.mem_of_mem_take there)

theorem tries_found (v : Vocab) (text : List UInt8) (lens : List Nat) : ∀ best : Option (Int × Nat),
    (∀ r, best = some r → vocabLookupLen v.tokens text r.2 = some r.1) → ∀ r,
    lens.foldl (fun best len => match vocabLookupLen v.tokens text len with
      | some id => some (id,len)
      | none => best) best = some r → vocabLookupLen v.tokens text r.2 = some r.1 := by
  induction lens with
  | nil => exact fun _ before => before
  | cons len lens ih =>
    intro best before
    refine ih _ fun r chosen => ?_
    cases hit : vocabLookupLen v.tokens text len with
    | none =>
      simp only [hit] at chosen
      exact before r chosen
    | some id =>
      simp only [hit] at chosen
      obtain rfl := Option.some.inj chosen
      exact hit

theorem matchSpecialToken_found {word : Int} (found : matchSpecialToken v text = some (word,len)) :
    vocabLookupLen v.tokens text len = some word := by
  unfold matchSpecialToken at found
  split at found
  · cases found
  · split at found
    · exact tries_found v _ _ none (fun _ impossible => by cases impossible) _ found
    · cases found

theorem bpeLoop_below (tables : Tables v) (fuel : Nat) : ∀ text symbols, Below v symbols →
    Below v (bpeLoop v fuel text symbols) := by
  induction fuel with
  | zero => exact fun _ _ below => below
  | succ fuel ih =>
    intro text symbols below
    unfold bpeLoop
    split
    · exact below
    · split
      · rename_i word len special
        obtain ⟨found,_⟩ := Option.filter_eq_some_iff.mp special
        have hit := matchSpecialToken_found found
        refine ih _ _ (below.append fun sym present => ?_)
        obtain rfl := List.mem_singleton.mp present
        exact lookup_below tables hit
      · exact ih _ _ (below.append (bpeEncodeChunk_below tables _ _))

theorem emit_below (tables : Tables v) (text : List UInt8) (s : SpmSym) : Below v (emit v text s) := by
  unfold emit
  split
  · exact fun _ impossible => by cases impossible
  · split
    · rename_i word hit
      intro sym present
      obtain rfl := List.mem_singleton.mp present
      exact lookup_below tables hit
    · exact byteSymbols_below tables _

theorem textTokens_below (tables : Tables v) (text : List UInt8) (space : Bool) : Below v (textTokens v text space) := by
  have bpe : Below v (bpeTokens v text) := bpeLoop_below tables _ text [] fun _ impossible => by cases impossible
  unfold textTokens
  split
  · unfold spmIds
    split
    · exact bpe
    · intro sym present
      obtain ⟨s,_,emitted⟩ := List.mem_flatMap.mp present
      exact emit_below tables _ s sym emitted
  · exact bpe

-- The six builders behind ops.chat_prompt and ops.chat_continuation.
inductive Template where
  | chatmlPrompt | chatmlContinuation | llama3Prompt | llama3Continuation | gemmaPrompt | gemmaContinuation

def Template.run (v : Vocab) (noThink : Bool) (userMsg : List UInt8) (sysMsg : Option (List UInt8)) (maxTokens : Nat) :
    Template → List Nat
  | .chatmlPrompt => Tokenizer.chatmlPrompt v noThink userMsg sysMsg maxTokens
  | .chatmlContinuation => Tokenizer.chatmlContinuation v noThink userMsg maxTokens
  | .llama3Prompt => llama3ChatPrompt v userMsg sysMsg maxTokens
  | .llama3Continuation => llama3ChatContinuation v userMsg maxTokens
  | .gemmaPrompt => gemmaChatPrompt v userMsg sysMsg maxTokens
  | .gemmaContinuation => gemmaChatContinuation v userMsg maxTokens

def BosInside (v : Vocab) : Prop := 0 ≤ v.bosId ∧ v.bosId < v.nVocab

-- The ids a builder writes without a check are ids of the vocabulary.
def Template.Safe (v : Vocab) : Template → Prop
  | .chatmlPrompt | .chatmlContinuation => HasChatml v → newline v ≠ vocabIdNone
  | .llama3Prompt => llama3Markers v → newline v ≠ vocabIdNone ∧ BosInside v
  | .llama3Continuation => llama3Markers v → newline v ≠ vocabIdNone
  | .gemmaPrompt => HasTurns v → BosInside v
  | .gemmaContinuation => True

-- The ids among the parts are ids of the vocabulary.
def Words (v : Vocab) (parts : List Part) : Prop := ∀ word, Part.id word ∈ parts → idWord word < v.nVocab

@[simp] theorem words_nil (v : Vocab) : Words v [] := fun _ impossible => by cases impossible

@[simp] theorem words_id (v : Vocab) (word : Int) (parts : List Part) :
    Words v (.id word :: parts) ↔ idWord word < v.nVocab ∧ Words v parts := by
  simp [Words,or_imp,forall_and]

@[simp] theorem words_text (v : Vocab) (txt : List UInt8) (parts : List Part) : Words v (.text txt :: parts) ↔ Words v parts := by
  simp [Words]

@[simp] theorem words_fragment (v : Vocab) (txt : List UInt8) (space : Bool) (parts : List Part) :
    Words v (.fragment txt space :: parts) ↔ Words v parts := by
  simp [Words]

@[simp] theorem words_append (v : Vocab) (xs ys : List Part) : Words v (xs++ys) ↔ Words v xs ∧ Words v ys := by
  simp [Words,or_imp,forall_and]

theorem layOut_below_iff (tables : Tables v) (parts : List Part) :
    (∀ maxTokens, Below v (layOut v maxTokens parts)) ↔ Words v parts := by
  constructor
  · intro below word present
    have whole := below (parts.flatMap (Part.tokens v)).length
    rw [layOut_eq,List.take_length] at whole
    exact whole _ (List.mem_flatMap.mpr ⟨_,present,List.mem_singleton_self _⟩)
  · intro words maxTokens sym present
    rw [layOut_eq] at present
    obtain ⟨part,listed,inside⟩ := List.mem_flatMap.mp (List.mem_of_mem_take present)
    cases part with
    | id word =>
      obtain rfl := List.mem_singleton.mp inside
      exact words word listed
    | text txt => exact textTokens_below tables _ _ sym inside
    | fragment txt space => exact textTokens_below tables _ _ sym inside

theorem vocabLookup_held {v : Vocab} (tables : Tables v) (text : String) : Held v (vocabLookup v text) :=
  lookup_held tables.indexed _ _

theorem idOr_held {v : Vocab} {word : Int} (tables : Tables v) (looked : word = vocabLookup v text) : Held v (idOr v word text) := by
  rw [idOr_lookup v looked]
  exact vocabLookup_held tables text

theorem reasoning_below (tables : Tables v) (ids : SpecialIds v) (noThink : Bool) : Below v (reasoning v noThink) := by
  have start := held_word tables (idOr_held tables ids.thinkStart)
  have stop := held_word tables (idOr_held tables ids.thinkEnd)
  have nl := held_word tables (tables.bytes 10)
  intro sym present
  unfold reasoning at present
  simp only at present
  split at present
  · cases present
  · rename_i both
    obtain ⟨opened,line⟩ := not_or.mp both
    have opened' := start.mpr opened
    have line' := nl.mpr line
    split at present
    · rcases List.mem_cons.mp present with rfl | later
      · exact opened'
      · obtain rfl := List.mem_singleton.mp later
        exact line'
    · split at present
      · cases present
      · rename_i closed
        have closed' := stop.mpr closed
        simp only [List.mem_cons,List.not_mem_nil,or_false] at present
        rcases present with rfl | rfl | rfl | rfl | rfl | rfl
        · exact opened'
        · exact line'
        · exact line'
        · exact closed'
        · exact line'
        · exact line'

theorem addReasoning_below_iff (tables : Tables v) (ids : SpecialIds v) (parts : List Part) :
    (∀ noThink maxTokens, Below v (chatmlAddReasoning v noThink maxTokens (layOut v maxTokens parts))) ↔ Words v parts := by
  rw [← layOut_below_iff tables]
  constructor
  · intro below maxTokens sym present
    refine below true maxTokens sym ?_
    unfold chatmlAddReasoning
    split
    · exact present
    · exact List.mem_append_left _ present
  · intro below noThink maxTokens
    unfold chatmlAddReasoning
    split
    · exact below maxTokens
    · exact (below maxTokens).append (reasoning_below tables ids noThink)

theorem guarded_below_iff {safe markers : Prop} [Decidable markers] {parts : List UInt8 → Option (List UInt8) → List Part}
    {run : Bool → List UInt8 → Option (List UInt8) → Nat → List Nat}
    (laid : ∀ user sys, (∀ noThink maxTokens, Below v (run noThink user sys maxTokens)) ↔ Words v (parts user sys))
    (same : markers → ∀ user sys, Words v (parts user sys) ↔ safe) :
    (∀ noThink user sys maxTokens, Below v (if markers then run noThink user sys maxTokens else [])) ↔ (markers → safe) := by
  by_cases held : markers
  · have opened : ∀ noThink user sys maxTokens,
        (if markers then run noThink user sys maxTokens else []) = run noThink user sys maxTokens := fun _ _ _ _ => if_pos held
    simp only [opened]
    constructor
    · intro below _
      exact (same held [] none).mp ((laid [] none).mp fun noThink maxTokens => below noThink [] none maxTokens)
    · intro fine noThink user sys maxTokens
      exact (laid user sys).mpr ((same held user sys).mpr (fine held)) noThink maxTokens
  · have closed : ∀ noThink user sys maxTokens,
        (if markers then run noThink user sys maxTokens else []) = [] := fun _ _ _ _ => if_neg held
    simp only [closed]
    exact ⟨fun _ there => absurd there held,fun _ _ _ _ _ _ impossible => by cases impossible⟩

theorem layOut_laid (tables : Tables v) (parts : List UInt8 → Option (List UInt8) → List Part) :
    ∀ user sys, (∀ (_ : Bool) maxTokens, Below v (layOut v maxTokens (parts user sys))) ↔ Words v (parts user sys) := by
  intro user sys
  rw [← layOut_below_iff tables]
  exact ⟨fun below => below true,fun below _ => below⟩

theorem newline_word (tables : Tables v) : idWord (newline v) < v.nVocab ↔ newline v ≠ vocabIdNone :=
  held_word tables (tables.bytes 10)

theorem chatmlTurn_words (tables : Tables v) (ids : SpecialIds v) (markers : HasChatml v) (userMsg : List UInt8) :
    Words v (chatmlTurn v userMsg) ↔ newline v ≠ vocabIdNone := by
  have start : idWord (imStart v) < v.nVocab := (held_word tables (idOr_held tables ids.imStart)).mpr markers.1
  have stop : idWord (imEnd v) < v.nVocab := (held_word tables (idOr_held tables ids.imEnd)).mpr markers.2
  simp [chatmlTurn,start,stop,newline_word tables]

theorem chatmlParts_words (tables : Tables v) (ids : SpecialIds v) (markers : HasChatml v) (userMsg : List UInt8)
    (sysMsg : Option (List UInt8)) : Words v (chatmlParts v userMsg sysMsg) ↔ newline v ≠ vocabIdNone := by
  have start : idWord (imStart v) < v.nVocab := (held_word tables (idOr_held tables ids.imStart)).mpr markers.1
  have stop : idWord (imEnd v) < v.nVocab := (held_word tables (idOr_held tables ids.imEnd)).mpr markers.2
  have turn := chatmlTurn_words tables ids markers userMsg
  cases sys : given sysMsg with
  | none => simp [chatmlParts,sys,turn]
  | some msg => simp [chatmlParts,sys,chatmlSystem,turn,start,stop,newline_word tables]

theorem bosPart_words (tables : Tables v) (ids : SpecialIds v) : Words v (bosPart v) ↔ BosInside v := by
  rw [bosPart,if_pos ids.bos,words_id]
  simp [BosInside,idWord_below tables tables.bos.1 tables.bos.2]

theorem llama3_words (tables : Tables v) (markers : llama3Markers v) :
    idWord (startHeader v) < v.nVocab ∧ idWord (endHeader v) < v.nVocab ∧ idWord (eot v) < v.nVocab :=
  ⟨(held_word tables (vocabLookup_held tables _)).mpr markers.1,
    (held_word tables (vocabLookup_held tables _)).mpr markers.2.1,
    (held_word tables (vocabLookup_held tables _)).mpr markers.2.2⟩

theorem looked_word {v : Vocab} {word : Int} (tables : Tables v) (looked : word = vocabLookup v name) (there : word ≠ vocabIdNone) :
    idWord word < v.nVocab :=
  (held_word tables (looked ▸ vocabLookup_held tables name)).mpr there

theorem Template.below_iff (t : Template) (m : Model) (v : Vocab) (loaded : vocabLoad m = .ok v) :
    (∀ noThink userMsg sysMsg maxTokens, Below v (t.run v noThink userMsg sysMsg maxTokens)) ↔ t.Safe v := by
  have tables := vocabLoad_held loaded
  have ids := vocabLoad_ids loaded
  have nl := newline_word tables
  cases t with
  | chatmlPrompt =>
    simp only [Template.run,Template.Safe,Tokenizer.chatmlPrompt]
    exact guarded_below_iff (fun user sys => addReasoning_below_iff tables ids (chatmlParts v user sys))
      fun markers user sys => chatmlParts_words tables ids markers user sys
  | chatmlContinuation =>
    simp only [Template.run,Template.Safe,Tokenizer.chatmlContinuation]
    have laid := fun user (_ : Option (List UInt8)) =>
      addReasoning_below_iff tables ids ([Part.id (imEnd v),Part.id (newline v)]++chatmlTurn v user)
    refine guarded_below_iff laid fun markers user _ => ?_
    have stop : idWord (imEnd v) < v.nVocab := looked_word tables (idOr_lookup v ids.imEnd) markers.2
    simp [stop,nl,chatmlTurn_words tables ids markers user]
  | llama3Prompt =>
    simp only [Template.run,Template.Safe,llama3ChatPrompt]
    refine guarded_below_iff
      (layOut_laid tables fun user sys =>
        bosPart v++llama3Header v "system"++((given sys).map Part.text).toList++[.id (eot v)]++
          llama3Header v "user"++[.text user,.id (eot v)]++llama3Header v "assistant")
      fun markers user sys => ?_
    obtain ⟨start,stop,turn⟩ := llama3_words tables markers
    cases given sys with
    | none => simp [llama3Header,start,stop,turn,nl,bosPart_words tables ids]; tauto
    | some msg => simp [llama3Header,start,stop,turn,nl,bosPart_words tables ids]; tauto
  | llama3Continuation =>
    simp only [Template.run,Template.Safe,llama3ChatContinuation]
    refine guarded_below_iff
      (layOut_laid tables fun user _ =>
        [.id (eot v)]++llama3Header v "user"++[.text user,.id (eot v)]++llama3Header v "assistant")
      fun markers user _ => ?_
    obtain ⟨start,stop,turn⟩ := llama3_words tables markers
    simp [llama3Header,start,stop,turn,nl]
  | gemmaPrompt =>
    simp only [Template.run,Template.Safe,gemmaChatPrompt]
    refine guarded_below_iff
      (layOut_laid tables fun user sys =>
        bosPart v++gemmaOpen v "user"++((given sys).map gemmaSystem).getD []++[.fragment user false]++gemmaClose v++
          gemmaOpen v "model")
      fun markers user sys => ?_
    have start := looked_word tables ids.startOfTurn markers.1
    have stop := looked_word tables ids.endOfTurn markers.2
    cases given sys with
    | none => simp [gemmaOpen,gemmaClose,start,stop,bosPart_words tables ids]
    | some msg => simp [gemmaOpen,gemmaClose,gemmaSystem,start,stop,bosPart_words tables ids]
  | gemmaContinuation =>
    have always : (∀ noThink userMsg sysMsg maxTokens,
        Below v (Template.run v noThink userMsg sysMsg maxTokens .gemmaContinuation)) ↔ (HasTurns v → True) := by
      simp only [Template.run,gemmaChatContinuation]
      refine guarded_below_iff
        (layOut_laid tables fun user _ =>
          gemmaClose v++gemmaOpen v "user"++[.fragment user false]++gemmaClose v++gemmaOpen v "model")
        fun markers user _ => ?_
      have start := looked_word tables ids.startOfTurn markers.1
      have stop := looked_word tables ids.endOfTurn markers.2
      simp [gemmaOpen,gemmaClose,start,stop]
    exact always.trans (by simp [Template.Safe])

theorem chatFile_below : ∃ m v, modelLoad chatFile = .ok m ∧ vocabLoad m = .ok v ∧
    Below v (Template.run v true [97] (some [49]) 4096 .chatmlPrompt) := by
  obtain ⟨m,v,accepted,loaded,nl⟩ := vocab_runs chatFile newline 2 (by decide +kernel)
  have safe : Template.Safe v .chatmlPrompt := by
    intro _
    rw [nl]
    decide
  exact ⟨m,v,accepted,loaded,(Template.below_iff .chatmlPrompt m v loaded).mpr safe true [97] (some [49]) 4096⟩

def bareTokens : List (List UInt8) := [cstr "<|im_start|>",cstr "<|im_end|>",cstr "a"]

def bareFile : MappedFile := ⟨(gpt2Layout bareTokens).encode,by decide +kernel⟩

theorem bareFile_outside : ∃ m v, modelLoad bareFile = .ok m ∧ vocabLoad m = .ok v ∧
    ∃ sym ∈ Template.run v true (cstr "a") none 4096 .chatmlPrompt, ¬sym < v.nVocab := by
  obtain ⟨m,v,accepted,loaded,facts⟩ := vocab_runs bareFile
    (fun v => (v.nVocab,Template.run v true (cstr "a") none 4096 .chatmlPrompt))
    (3,[0,4294967295,2,1,4294967295,0,2,2,4294967295]) (by decide +kernel)
  simp only [Prod.mk.injEq] at facts
  refine ⟨m,v,accepted,loaded,4294967295,?_,?_⟩
  · rw [facts.2]
    decide
  · rw [facts.1]
    decide

end TinyLlama.Tokenizer
