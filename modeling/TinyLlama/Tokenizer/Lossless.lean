import TinyLlama.Tokenizer.ByteCodec
import TinyLlama.Vocabulary.Lookup
import TinyLlama.Gguf.Placement

namespace TinyLlama.Tokenizer
open Gguf Vocabulary

-- Symbols whose pieces, one after the other, spell the text byte by byte.
inductive Spells (v : Vocab) : List Nat → List UInt8 → Prop
  | nil : Spells v [] []
  | cons {id : Nat} {k : Key} {segment : List UInt8} {ids : List Nat} {text : List UInt8} :
      v.token[id]? = some k → k.bytes = spelling segment → segment ≠ [] → Spells v ids text →
      Spells v (id :: ids) (segment++text)

theorem Spells.append (first : Spells v ids text) (second : Spells v ids' text') :
    Spells v (ids++ids') (text++text') := by
  induction first with
  | nil => exact second
  | cons listed spelled some' _ ih =>
    rw [List.cons_append,List.append_assoc]
    exact .cons listed spelled some' ih

theorem Spells.split (i : Nat) (spells : Spells v ids text) :
    ∃ front back, text = front++back ∧ Spells v (ids.take i) front ∧ Spells v (ids.drop i) back := by
  induction spells generalizing i with
  | nil => exact ⟨[],[],rfl,by simpa using Spells.nil,by simpa using Spells.nil⟩
  | @cons id k segment ids text listed spelled some' rest ih =>
    cases i with
    | zero => exact ⟨[],segment++text,rfl,.nil,.cons listed spelled some' rest⟩
    | succ i =>
      obtain ⟨front,back,rfl,before,after⟩ := ih i
      exact ⟨segment++front,back,by rw [List.append_assoc],.cons listed spelled some' before,after⟩

theorem Spells.length_le (spells : Spells v ids text) : ids.length ≤ text.length := by
  induction spells with
  | nil => simp
  | cons _ _ some' _ ih =>
    have long := List.length_pos_iff.mpr some'
    simp only [List.length_cons,List.length_append]
    omega

theorem vocabMergeResult_spells {v : Vocab} {id : Nat} (indexed : v.Indexed) (first : v.token[a]? = some k₁) (second : v.token[b]? = some k₂)
    (merged : vocabMergeResult v a b = some id) : ∃ k, v.token[id]? = some k ∧ k.bytes = k₁.bytes++k₂.bytes := by
  unfold vocabMergeResult at merged
  simp only [first,second] at merged
  by_cases long : k₁.len+k₂.len > 255
  · simp [long] at merged
  · rw [if_neg long] at merged
    obtain ⟨id',hit,positive⟩ := Option.bind_eq_some_iff.mp merged
    obtain ⟨i,s,listed,named,value⟩ := indexed.sound hit
    have bytes : s.bytes = k₁.bytes++k₂.bytes := by
      have exact' : u8 (k₁.len+k₂.len) = k₁.len+k₂.len := u8_of_lt (by omega)
      have whole := (Prod.mk.inj named).2
      rw [whole,Key.bytes,exact']
      refine List.take_of_length_le ?_
      simp only [List.length_append,Key.bytes,List.length_take]
      omega
    obtain rfl : i = id := by simpa [value] using positive
    exact ⟨s,listed,bytes⟩

theorem mergeAt_spells (indexed : v.Indexed) (spells : Spells v syms text) (merged : mergeAt v i syms = some syms') :
    Spells v syms' text := by
  obtain ⟨front,back,rfl,before,after⟩ := spells.split i
  unfold mergeAt at merged
  cases rest : syms.drop i with
  | nil => simp [rest] at merged
  | cons a tail =>
    cases tail with
    | nil => simp [rest] at merged
    | cons b rest' =>
      rw [rest] at after merged
      simp only [Option.map_eq_some_iff] at merged
      obtain ⟨id,result,rfl⟩ := merged
      obtain _ | ⟨listedA,spelledA,someA,tailSpells⟩ := after
      obtain _ | ⟨listedB,spelledB,someB,restSpells⟩ := tailSpells
      obtain ⟨k,listed,bytes⟩ := vocabMergeResult_spells indexed listedA listedB result
      refine before.append ?_
      rw [← List.append_assoc]
      refine .cons listed ?_ (by simp [someA]) restSpells
      rw [bytes,spelledA,spelledB,spelling_append]

theorem mergeLoop_spells (indexed : v.Indexed) (fuel : Nat) : ∀ syms, Spells v syms text →
    Spells v (mergeLoop v fuel syms) text := by
  induction fuel with
  | zero => intro syms spells; exact spells
  | succ fuel ih =>
    intro syms spells
    unfold mergeLoop
    cases bestPair v 0 syms none with
    | none => exact spells
    | some best =>
      cases merged : mergeAt v best.2 syms with
      | none => simpa [merged] using spells
      | some syms' => simpa [merged] using ih syms' (mergeAt_spells indexed spells merged)

-- The 256 single-byte pieces are in the vocabulary.
def HasBytes (v : Vocab) : Prop := ∀ b : UInt8, ∃ k ∈ v.token, keyName k = ((bytePiece b).length,bytePiece b)

theorem byteSymbol_spells (indexed : v.Indexed) (table : v.byteTokenIds = bpeByteTable v.tokens) (all : HasBytes v)
    (b : UInt8) : ∃ id, byteSymbol v b = some id ∧ Spells v [id] [b] := by
  have short := bytePiece_length b
  obtain ⟨k,present,named⟩ := all b
  have same : keyName k = keyName ⟨u8 (bytePiece b).length,bytePiece b⟩ := by
    rw [named]
    simp [keyName,Key.bytes,u8_of_lt (show (bytePiece b).length < 2^8 by omega)]
  have hit := lastPut_present v.token 0 ⟨u8 (bytePiece b).length,bytePiece b⟩ none (.inr ⟨k,present,same⟩)
  rw [← indexed.get] at hit
  obtain ⟨id,hit⟩ := Option.isSome_iff_exists.mp hit
  obtain ⟨i,s,listed,named',value⟩ := indexed.sound hit
  have id' : v.byteTokenIds b = i := by
    rw [table,bpeByteTable,vocabLookupLen,hit,value]; rfl
  refine ⟨i,by simp [byteSymbol,id'],?_⟩
  have bytes : s.bytes = spelling [b] := by
    rw [← same,named] at named'
    simpa [spelling] using (Prod.mk.inj named').2
  have spells : Spells v [i] ([b]++[]) := .cons listed bytes (by simp) .nil
  exact spells

theorem byteSymbols_spell (indexed : v.Indexed) (table : v.byteTokenIds = bpeByteTable v.tokens) (all : HasBytes v)
    (chunk : List UInt8) : Spells v (chunk.filterMap (byteSymbol v)) chunk ∧
      (chunk.filterMap (byteSymbol v)).length = chunk.length := by
  induction chunk with
  | nil => exact ⟨.nil,rfl⟩
  | cons b rest ih =>
    obtain ⟨id,symbol,spells⟩ := byteSymbol_spells indexed table all b
    rw [List.filterMap_cons_some symbol]
    exact ⟨spells.append ih.1,by simp [ih.2]⟩

-- Pieces are at most 255 bytes, so any buffer of that size holds their bytes.
theorem Spells.decoded (indexed : v.Indexed) (roomy : 255 ≤ maxLen) (spells : Spells v ids text) :
    ids.flatMap (decodeToken v maxLen) = text := by
  induction spells with
  | nil => rfl
  | @cons id k segment ids text listed spelled some' _ ih =>
    have short := indexed.lens k (List.mem_of_getElem? listed)
    have bytes : k.bytes.length ≤ k.len := by simp [Key.bytes]
    have fewer := spelling_length segment
    rw [← spelled] at fewer
    have token : decodeToken v maxLen id = segment := by
      simp only [decodeToken,listed,qwen25Decode,spelled]
      exact decode_spelling segment maxLen (by omega)
    rw [List.flatMap_cons,token,ih]

-- The chunks the pre-tokeniser cuts when no special token is met.
def preTokens : Nat → List UInt8 → List (List UInt8)
  | 0,_ => []
  | fuel+1,text => if text = [] then [] else text.take (chunkLen text) :: preTokens fuel (text.drop (chunkLen text))

-- All symbols of a chunk, as if the buffers had room for them.
def chunkTokens (v : Vocab) (chunk : List UInt8) : List Nat :=
  mergeLoop v (chunk.filterMap (byteSymbol v)).length (chunk.filterMap (byteSymbol v))

theorem span_le (cat : Nat) (text : List UInt8) : span cat text ≤ text.length :=
  (List.takeWhile_sublist _).length_le

theorem span_pos (cat : Nat) (c : UInt8) (rest : List UInt8) (same : charCategory c = cat) :
    0 < span cat (c :: rest) := by
  simp [span,same]

theorem charCategory_cases (c : UInt8) :
    charCategory c = 1 ∨ charCategory c = 2 ∨ charCategory c = 3 ∨ charCategory c = 4 := by
  unfold charCategory
  grind

theorem chunkLen_pos (text : List UInt8) (some' : text ≠ []) : 0 < chunkLen text := by
  unfold chunkLen
  by_cases contraction : contractionLen text > 0
  · simp only [contraction,if_true]
  rw [if_neg contraction]
  by_cases run : span 3 text > 0 ∧ (span 3 text ≠ 1 ∨ span 3 text ≥ text.length)
  · rw [if_pos run]; exact run.1
  rw [if_neg run]
  by_cases leading : 0 < span 3 text
  · unfold wordLen
    split
    · exact leading
    · simp only
      omega
  · cases text with
    | nil => exact absurd rfl some'
    | cons c rest =>
      have none : span 3 (c :: rest) = 0 := by omega
      have word : charCategory c ≠ 3 := fun same => leading (span_pos 3 c rest same)
      rw [none]
      simp only [wordLen,List.drop_zero,Nat.zero_add]
      apply span_pos
      rcases charCategory_cases c with one | two | three | four
      · simp [one]
      · simp [two]
      · exact absurd three word
      · simp [four]

theorem preTokens_flatten (fuel : Nat) : ∀ text : List UInt8, text.length ≤ fuel → (preTokens fuel text).flatten = text := by
  induction fuel with
  | zero =>
    intro text enough
    obtain rfl : text = [] := List.length_eq_zero_iff.mp (by omega)
    rfl
  | succ fuel ih =>
    intro text enough
    by_cases done : text = []
    · simp [preTokens,done]
    · have moved := chunkLen_pos text done
      have shorter : (text.drop (chunkLen text)).length ≤ fuel := by
        simp only [List.length_drop]
        omega
      rw [preTokens,if_neg done,List.flatten_cons,ih _ shorter,List.take_append_drop]

theorem noSpecialToken (v : Vocab) (plain : ¬[60,124] <:+: text) : matchSpecialToken v text = none := by
  unfold matchSpecialToken
  split
  · rfl
  · split
    · rename_i rest _
      exact absurd ⟨[],rest,rfl⟩ plain
    · rfl

theorem take_absorb (s xs ys : List α) (below : s.length ≤ n) :
    (s++xs.take (n-s.length)++ys).take n = (s++(xs++ys)).take n := by
  rw [List.append_assoc,List.take_append,List.take_append,List.take_append,List.take_append,List.take_take,
    Nat.min_self,List.length_take]
  congr 3
  omega

-- The loop collects every chunk's symbols until the buffer is full.
theorem bpeLoop_eq (v : Vocab) (encode : List UInt8 → List Nat)
    (chunks : ∀ chunk out, bpeEncodeChunk v chunk out = (encode chunk).take out) (fuel : Nat) :
    ∀ text symbols, ¬[60,124] <:+: text → symbols.length ≤ bpeMaxSymbols →
    bpeLoop v fuel text symbols = (symbols++(preTokens fuel text).flatMap encode).take bpeMaxSymbols := by
  induction fuel with
  | zero =>
    intro text symbols _ below
    simp [bpeLoop,preTokens,List.take_of_length_le below]
  | succ fuel ih =>
    intro text symbols plain below
    by_cases done : text = []
    · simp [bpeLoop,preTokens,done,List.take_of_length_le below]
    by_cases full : symbols.length ≥ bpeMaxSymbols
    · have exact' : symbols.length = bpeMaxSymbols := by omega
      rw [bpeLoop,if_pos (.inr full),List.take_left' exact']
    · rw [bpeLoop,if_neg (by simp [done,full]),noSpecialToken v plain]
      simp only [Option.filter_none,chunks]
      have later : ¬[60,124] <:+: text.drop (chunkLen text) := fun inside =>
        plain (inside.trans (List.drop_suffix _ _).isInfix)
      rw [ih _ _ later (by simp only [List.length_append,List.length_take]; omega),take_absorb _ _ _ below]
      rw [preTokens,if_neg done,List.flatMap_cons]

theorem bpeEncodeChunk_eq (table : ∀ b, ∃ id, byteSymbol v b = some id) (chunk : List UInt8) (out : Nat) :
    bpeEncodeChunk v chunk out = (chunkTokens v (chunk.take chunkSymbols)).take out := by
  have all : ∀ xs : List UInt8, xs.filterMap (byteSymbol v) = xs.map fun b => (byteSymbol v b).getD 0 := by
    intro xs
    rw [← List.filterMap_eq_map]
    refine List.filterMap_congr fun b _ => ?_
    obtain ⟨id,symbol⟩ := table b
    simp [symbol]
  unfold bpeEncodeChunk chunkTokens
  simp only [all,List.map_take]

theorem chunks_spell (indexed : v.Indexed) (table : v.byteTokenIds = bpeByteTable v.tokens) (all : HasBytes v)
    (chunks : List (List UInt8)) : Spells v (chunks.flatMap (chunkTokens v)) chunks.flatten := by
  induction chunks with
  | nil => exact .nil
  | cons chunk rest ih =>
    rw [List.flatMap_cons,List.flatten_cons]
    exact (mergeLoop_spells indexed _ _ (byteSymbols_spell indexed table all chunk).1).append ih

theorem cut_flatten (n : Nat) (chunks : List (List α)) : (chunks.map (List.take n)).flatten.length ≤ chunks.flatten.length ∧
    ((chunks.map (List.take n)).flatten.length = chunks.flatten.length → ∀ chunk ∈ chunks, chunk.length ≤ n) := by
  induction chunks with
  | nil => simp
  | cons chunk rest ih =>
    obtain ⟨below,tight⟩ := ih
    simp only [List.map_cons,List.flatten_cons,List.length_append,List.length_take] at below tight ⊢
    refine ⟨by omega,fun same other present => ?_⟩
    rcases List.mem_cons.mp present with rfl | later
    · omega
    · exact tight (by omega) other later

-- What the tokens decode to is a prefix of what the chunk buffer left, and the
-- symbols the text buffer dropped spell the rest.
theorem tokenize_decodes (maxLen : Nat) (loaded : vocabLoad m = .ok v) (bpe : v.tokenizerType = .bpe) (all : HasBytes v)
    (plain : ¬[60,124] <:+: text) (enough : text.length ≤ maxTokens) (roomy : 255 ≤ maxLen)
    (kept : (preTokens text.length text).map (List.take chunkSymbols) = chunks) :
    ∃ front back, chunks.flatten = front++back ∧
      (tokenizeBpe v text maxTokens).flatMap (decodeToken v maxLen) = front ∧
      Spells v ((chunks.flatMap (chunkTokens v)).drop bpeMaxSymbols) back := by
  have indexed := vocabLoad_indexed loaded
  have table := vocabLoad_bytes loaded bpe
  have symbols : ∀ b, ∃ id, byteSymbol v b = some id := fun b =>
    (byteSymbol_spells indexed table all b).imp fun _ found => found.1
  have spells := chunks_spell indexed table all chunks
  have shorter := (cut_flatten chunkSymbols (preTokens text.length text)).1
  rw [kept,preTokens_flatten _ text (Nat.le_refl _)] at shorter
  have few := spells.length_le
  have run : tokenizeBpe v text maxTokens = (chunks.flatMap (chunkTokens v)).take bpeMaxSymbols := by
    have loop := bpeLoop_eq v (fun chunk => chunkTokens v (chunk.take chunkSymbols)) (bpeEncodeChunk_eq symbols)
      text.length text [] plain (by simp)
    have collected : (preTokens text.length text).flatMap (fun chunk => chunkTokens v (chunk.take chunkSymbols)) =
        chunks.flatMap (chunkTokens v) := by rw [← kept,List.flatMap_map]
    rw [tokenizeBpe,loop,List.nil_append,collected]
    refine List.take_of_length_le ?_
    simp only [List.length_take]
    omega
  obtain ⟨front,back,cut,before,after⟩ := spells.split bpeMaxSymbols
  exact ⟨front,back,cut,by rw [run,before.decoded indexed roomy],after⟩

theorem tokenize_lossless_iff (m : Model) (v : Vocab) (text : List UInt8) (maxTokens maxLen : Nat)
    (loaded : vocabLoad m = .ok v) (bpe : v.tokenizerType = .bpe) (all : HasBytes v) (plain : ¬[60,124] <:+: text)
    (enough : text.length ≤ maxTokens) (roomy : 255 ≤ maxLen) :
    (tokenizeBpe v text maxTokens).flatMap (decodeToken v maxLen) = text ↔
      (∀ chunk ∈ preTokens text.length text, chunk.length ≤ chunkSymbols) ∧
      ((preTokens text.length text).flatMap (chunkTokens v)).length ≤ bpeMaxSymbols := by
  obtain ⟨front,back,cut,decoded,after⟩ := tokenize_decodes maxLen loaded bpe all plain enough roomy rfl
  have whole := preTokens_flatten _ text (Nat.le_refl _)
  obtain ⟨shorter,tight⟩ := cut_flatten chunkSymbols (preTokens text.length text)
  rw [whole] at shorter tight
  have uncut : (∀ chunk ∈ preTokens text.length text, chunk.length ≤ chunkSymbols) →
      (preTokens text.length text).map (List.take chunkSymbols) = preTokens text.length text := by
    intro short
    refine (List.map_congr_left fun chunk present => ?_).trans (List.map_id _)
    exact List.take_of_length_le (short chunk present)
  have lengths := congrArg List.length cut
  have left := after.length_le
  simp only [List.length_append] at lengths
  rw [List.length_drop] at left
  rw [decoded]
  constructor
  · intro same
    have size := congrArg List.length same
    have short := tight (by omega)
    rw [uncut short] at left
    exact ⟨short,by omega⟩
  · rintro ⟨short,fits⟩
    rw [uncut short] at after cut
    rw [List.drop_eq_nil_of_le fits] at after
    cases after
    rw [← whole,cut,List.append_nil]

def bytesTokens : List (List UInt8) := (List.range 256).map fun n => bytePiece (UInt8.ofNat n)

def bytesLayout : Layout :=
  ⟨[⟨cstr "tokenizer.ggml.model",.string (cstr "gpt2")⟩,⟨cstr "tokenizer.ggml.merges",.array valueString []⟩,
    entryU32 "tokenizer.ggml.bos_token_id" 1,entryU32 "tokenizer.ggml.eos_token_id" 1,
    ⟨cstr "tokenizer.ggml.tokens",.array valueString (bytesTokens.map Value.string)⟩],
   [⟨cstr "token_embd.weight",[1],0,0⟩],List.replicate 64 0⟩

def bytesFile : MappedFile := ⟨bytesLayout.encode,by decide +kernel⟩

theorem bytesLayout_wellFormed : bytesLayout.WellFormed := by
  refine ⟨?_,?_,by decide +kernel,?_⟩
  · intro e present
    simp only [bytesLayout,List.mem_cons,List.not_mem_nil,or_false] at present
    rcases present with rfl | rfl | rfl | rfl | rfl
    · exact show (cstr "gpt2").length < 2^64 by decide
    · simp [Value.Fits,ggufMaxDims,valueString]
    · simp [entryU32,Value.Fits,ggufMaxDims,scalarWidth,valueUint32]
    · simp [entryU32,Value.Fits,ggufMaxDims,scalarWidth,valueUint32]
    · refine ⟨by decide,by decide +kernel,fun v listed => ?_⟩
      obtain ⟨t,token,rfl⟩ := List.mem_map.mp listed
      have short : ∀ t ∈ bytesTokens, t.length < 2^64 := by decide +kernel
      exact ⟨rfl,short t token⟩
  · intro t present
    obtain rfl := List.mem_singleton.mp present
    refine ⟨by decide,by decide,by decide,?_,by decide,by decide⟩
    intro k
    rcases k with _ | k <;> simp
  · intro e present named
    have other : ∀ e ∈ bytesLayout.kvs, e.name ≠ cstr "general.alignment" := by decide +kernel
    exact absurd named (other e present)

def bytesModel : Model := placeTensors bytesFile (bytesLayout.loaded bytesFile) bytesLayout.sectionsEnd

theorem bytesModel_accepted : modelLoad bytesFile = .ok bytesModel := by
  obtain ⟨c,parsed,post⟩ := modelSections_takes bytesLayout bytesLayout_wellFormed bytesFile rfl
  have large : ¬bytesFile.size < 32 := by decide +kernel
  have complete : modelCompletenessCheck bytesModel = .ok () := by decide +kernel
  have arch : modelDetectArch bytesModel = .ok bytesModel := by decide +kernel
  have placed : placeTensors bytesFile (bytesLayout.loaded bytesFile) c.post = bytesModel := by rw [post]; rfl
  exact modelLoad_detected large parsed (placed.symm ▸ arch) complete

theorem bytesModel_tokens : tokenArray bytesModel = .ok ⟨8,256,244⟩ ∧
    bytesTokens.flatMap encodeString <+: bytesModel.file.bytes.drop 244 := by decide +kernel

theorem bytesTokens_all (b : UInt8) : bytePiece b ∈ bytesTokens :=
  List.mem_map.mpr ⟨b.toNat,List.mem_range.mpr b.toNat_lt,by rw [UInt8.ofNat_toNat]⟩

theorem bytesModel_tables : ∃ v, vocabLoad bytesModel = .ok v ∧ v.tokenizerType = .bpe := by
  have type : tokenizerType bytesModel = .ok .bpe := by decide +kernel
  have merges : mergeArray bytesModel = .ok ⟨8,0,113⟩ := by decide +kernel
  have bos : modelGetI32 bytesModel "tokenizer.ggml.bos_token_id" = some 1 := by decide +kernel
  have eos : modelGetI32 bytesModel "tokenizer.ggml.eos_token_id" = some 1 := by decide +kernel
  have inside : 244 ≤ bytesModel.file.size := by decide +kernel
  obtain ⟨array,stored⟩ := bytesModel_tokens
  have count : bytesTokens.length = 256 := by rw [bytesTokens,List.length_map,List.length_range]
  obtain ⟨keys,table,read⟩ := loadStrings_takes bytesModel ⟨8,256,244⟩ bytesTokens count.symm (by decide) inside stored
  obtain ⟨none',table',read'⟩ := loadStrings_takes bytesModel ⟨8,0,113⟩ [] rfl (by decide)
    (Nat.le_trans (by decide) inside) List.nil_prefix
  rw [count] at read
  obtain ⟨v,done⟩ : ∃ v, finishVocab bytesModel .bpe keys table table' none (bpeByteTable table) bpeBosCands
      bpeEosCands = .ok v := by
    simp only [finishVocab,specialId,bos,eos]
    exact ⟨_,rfl⟩
  exact ⟨v,by rw [vocabLoad_bpe type array merges read read',done],(finishVocab_tables done).2.2.2.2⟩

theorem bytesModel_loads : ∃ v, vocabLoad bytesModel = .ok v ∧ v.tokenizerType = .bpe ∧ HasBytes v := by
  obtain ⟨v,loaded,bpe⟩ := bytesModel_tables
  obtain ⟨array,stored⟩ := bytesModel_tokens
  refine ⟨v,loaded,bpe,fun b => ?_⟩
  have count : 256 = bytesTokens.length := by rw [bytesTokens,List.length_map,List.length_range]
  have short := bytePiece_length b
  have named : ((bytePiece b).length,bytePiece b) ∈ v.token.map keyName := by
    rw [loaded_keys loaded (tokenArray_ok array).1 count stored,storedKeys_names _ _ _ stored]
    exact List.mem_map.mpr ⟨bytePiece b,bytesTokens_all b,by rw [u8_of_lt (by omega),cutQuery_short (by omega)]⟩
  obtain ⟨k,there,name⟩ := List.mem_map.mp named
  exact ⟨k,there,name⟩

def aSpaceB : List UInt8 := [97,32,98]

theorem aSpaceB_lossless : ∃ m v, modelLoad bytesFile = .ok m ∧ vocabLoad m = .ok v ∧
    (tokenizeBpe v aSpaceB 3).flatMap (decodeToken v 255) = aSpaceB := by
  obtain ⟨v,loaded,bpe,all⟩ := bytesModel_loads
  refine ⟨bytesModel,v,bytesModel_accepted,loaded,(tokenize_lossless_iff bytesModel v aSpaceB 3 255 loaded bpe all
    (by decide) (by decide) (by decide)).mpr ⟨by decide,?_⟩⟩
  have spells := chunks_spell (vocabLoad_indexed loaded) (vocabLoad_bytes loaded bpe) all
    (preTokens aSpaceB.length aSpaceB)
  have few := spells.length_le
  rw [preTokens_flatten _ aSpaceB (Nat.le_refl _)] at few
  exact Nat.le_trans few (by decide)

-- A word one byte longer than the chunk buffer loses its last byte.
def longWord : List UInt8 := List.replicate 513 97

theorem longWord_cut : ∃ m v, modelLoad bytesFile = .ok m ∧ vocabLoad m = .ok v ∧ v.tokenizerType = .bpe ∧
    HasBytes v ∧ ¬[60,124] <:+: longWord ∧
    (tokenizeBpe v longWord longWord.length).flatMap (decodeToken v 256) ≠ longWord := by
  obtain ⟨v,loaded,bpe,all⟩ := bytesModel_loads
  have plain : ¬[60,124] <:+: longWord := by
    rintro ⟨front,back,eq⟩
    have inside : (60 : UInt8) ∈ longWord := by rw [← eq]; simp
    exact absurd (List.eq_of_mem_replicate inside) (by decide)
  refine ⟨bytesModel,v,bytesModel_accepted,loaded,bpe,all,plain,fun same => ?_⟩
  have kept : (preTokens longWord.length longWord).map (List.take chunkSymbols) = [List.replicate 512 97] := by
    decide +kernel
  obtain ⟨front,back,cut,decoded,_⟩ := tokenize_decodes 256 loaded bpe all plain (Nat.le_refl _) (by decide) kept
  have lengths := congrArg List.length cut
  rw [← decoded,same] at lengths
  simp only [longWord,List.flatten_singleton,List.length_append,List.length_replicate] at lengths
  omega

end TinyLlama.Tokenizer
