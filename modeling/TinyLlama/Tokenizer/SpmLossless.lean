import TinyLlama.Tokenizer.SpmMerge
import TinyLlama.Gguf.Placement

namespace TinyLlama.Tokenizer
open LittleEndian Gguf Vocabulary

-- The 256 <0xHH> pieces, as BYTE entries where the file types its tokens.
def HasByteTokens (m : Model) (v : Vocab) : Prop :=
  ∀ b : UInt8, ∃ (i : Nat) (k : Key), v.token[i]? = some k ∧ spmByteTokenValue k = some b.toNat ∧
    ∀ types, tokenTypes m v.token.length = some types → types[i]? = some 6

theorem finishVocab_scores (done : finishVocab m type token tokens merges scores byteTokenIds bos eos = .ok v) :
    v.scores = scores := by
  unfold finishVocab at done
  simp only at done
  split at done
  · simp at done
  · split at done
    · simp at done
    · obtain rfl := Except.ok.inj done
      rfl

theorem vocabLoad_scored (loaded : vocabLoad m = .ok v) (scored : v.scores = some scores) :
    v.byteTokenIds = spmByteTable v.token (tokenTypes m v.token.length) := by
  obtain ⟨type,_,loaded⟩ := exit_bind_ok.mp loaded
  cases type with
  | spm =>
    obtain ⟨a,_,loaded⟩ := exit_bind_ok.mp loaded
    obtain ⟨⟨token,tokens⟩,_,loaded⟩ := exit_bind_ok.mp loaded
    obtain ⟨same,_,_,bytes,_⟩ := finishVocab_tables loaded
    rw [bytes,same]
  | bpe =>
    obtain ⟨a,_,loaded⟩ := exit_bind_ok.mp loaded
    obtain ⟨b,_,loaded⟩ := exit_bind_ok.mp loaded
    obtain ⟨⟨token,tokens⟩,_,loaded⟩ := exit_bind_ok.mp loaded
    obtain ⟨⟨_,merges⟩,_,loaded⟩ := exit_bind_ok.mp loaded
    rw [finishVocab_scores loaded] at scored
    simp at scored
  | _ => simp [throw,throwThe,MonadExceptOf.throw] at loaded

theorem byteEntries_fold (b : UInt8) (all entries : List (Key × Nat)) : ∀ table : UInt8 → Int, entries ⊆ all →
    ((∃ e ∈ entries, spmByteTokenValue e.1 = some b.toNat) ∨
      ∃ e ∈ all, spmByteTokenValue e.1 = some b.toNat ∧ table b = i32 e.2) →
    ∃ e ∈ all, spmByteTokenValue e.1 = some b.toNat ∧
      entries.foldl (fun table (k,i) =>
        match spmByteTokenValue k with
        | some byte => fun b => if b.toNat = byte then i32 i else table b
        | none => table) table b = i32 e.2 := by
  induction entries with
  | nil =>
    intro table _ known
    rcases known with ⟨e,impossible,_⟩ | known
    · simp at impossible
    · exact known
  | cons e rest ih =>
    intro table inside known
    obtain ⟨here,later⟩ := List.cons_subset.mp inside
    rw [List.foldl_cons]
    refine ih _ later ?_
    by_cases own : spmByteTokenValue e.1 = some b.toNat
    · exact .inr ⟨e,here,own,by simp [own]⟩
    · rcases known with ⟨e',present,value⟩ | ⟨e',present,value,held⟩
      · rcases List.mem_cons.mp present with rfl | present
        · exact absurd value own
        · exact .inl ⟨e',present,value⟩
      · refine .inr ⟨e',present,value,?_⟩
        cases other : spmByteTokenValue e.1 with
        | none => simpa [other] using held
        | some byte =>
          have apart : ¬b.toNat = byte := fun same => own (by rw [other,same])
          simpa [other,apart] using held

theorem spmByteTable_held {v : Vocab} (all : HasByteTokens m v) (b : UInt8) :
    ∃ (i : Nat) (k : Key), v.token[i]? = some k ∧ spmByteTokenValue k = some b.toNat ∧
      spmByteTable v.token (tokenTypes m v.token.length) b = i32 i := by
  obtain ⟨i,k,listed,value,typed⟩ := all b
  have entry : (k,i) ∈ v.token.zipIdx := List.mem_zipIdx_iff_getElem?.mpr listed
  cases types : tokenTypes m v.token.length with
  | none =>
    obtain ⟨e,present,value',held⟩ := byteEntries_fold b v.token.zipIdx v.token.zipIdx (fun _ => vocabIdNone)
      (List.Subset.refl _) (.inl ⟨(k,i),entry,value⟩)
    exact ⟨e.2,e.1,List.mem_zipIdx_iff_getElem?.mp present,value',held⟩
  | some types' =>
    have six := typed types' types
    generalize byteEntries : ((v.token.zipIdx.zip types').filter fun (r : (Key × Nat) × Nat) => r.2 = 6).map Prod.fst = entries
    have among : (k,i) ∈ entries := by
      rw [← byteEntries]
      refine List.mem_map.mpr ⟨((k,i),6),List.mem_filter.mpr ⟨?_,by simp⟩,rfl⟩
      have pair : (v.token.zipIdx.zip types')[i]? = some ((k,i),6) := by
        rw [List.getElem?_zip_eq_some]
        exact ⟨by simp [listed],six⟩
      exact List.mem_of_getElem? pair
    have within : entries ⊆ v.token.zipIdx := by
      rw [← byteEntries]
      intro e present
      obtain ⟨r,kept,rfl⟩ := List.mem_map.mp present
      exact (List.of_mem_zip (List.mem_of_mem_filter kept)).1
    obtain ⟨e,present,value',held⟩ := byteEntries_fold b entries entries (fun _ => vocabIdNone)
      (List.Subset.refl _) (.inl ⟨(k,i),among,value⟩)
    refine ⟨e.2,e.1,List.mem_zipIdx_iff_getElem?.mp (within present),value',?_⟩
    rw [← held,← byteEntries]
    rfl

theorem spmByteTokenValue_some {k : Key} (value : spmByteTokenValue k = some n) : ∃ hi lo,
    k.bytes = [60,48,120,hi,lo,62] ∧ (spmHexDigit hi).isSome ∧ (spmHexDigit lo).isSome ∧
    spmByteTokenValue ⟨k.bytes.length,k.bytes⟩ = some n := by
  obtain ⟨len,content⟩ := k
  unfold spmByteTokenValue at value
  split at value
  · rename_i hi lo tail length text
    obtain rfl : len = 6 := length
    obtain rfl : content = 60 :: 48 :: 120 :: hi :: lo :: 62 :: tail := text
    split at value
    · rename_i high low
      refine ⟨hi,lo,rfl,by simp [high],by simp [low],?_⟩
      simpa [Key.bytes,spmByteTokenValue,high,low] using value
    · simp at value
  · simp at value

theorem gemma3Decode_piece (raw : List UInt8) (plain : ¬HasLiteral raw) (maxLen : Nat) :
    gemma3Decode raw maxLen = unmark maxLen raw := by
  unfold gemma3Decode
  cases value : spmByteTokenValue ⟨raw.length,raw⟩ with
  | none => rfl
  | some n =>
    obtain ⟨hi,lo,text,high,low,_⟩ := spmByteTokenValue_some value
    have whole : Key.bytes ⟨raw.length,raw⟩ = raw := List.take_length ..
    rw [whole] at text
    exact absurd ⟨hi,lo,high,low,by rw [text]⟩ plain

theorem gemma3Decode_byte {v : Vocab} (listed : v.token[i]? = some k) (value : spmByteTokenValue k = some b.toNat)
    (roomy : 255 ≤ maxLen) : gemma3DecodeToken v maxLen i = [b] := by
  obtain ⟨_,_,_,_,_,again⟩ := spmByteTokenValue_some value
  have room : 0 < maxLen := by omega
  simp only [gemma3DecodeToken,listed,gemma3Decode,again,room,if_true,UInt8.ofNat_toNat]

section lossless
variable {m : Model} {v : Vocab} {scores : List Nat} {norm : List UInt8}

theorem byteSymbol_decodes (loaded : vocabLoad m = .ok v) (scored : v.scores = some scores) (all : HasByteTokens m v)
    (roomy : 255 ≤ maxLen) (b : UInt8) : ∃ id, byteSymbol v b = some id ∧ gemma3DecodeToken v maxLen id = [b] := by
  obtain ⟨i,k,listed,value,held⟩ := spmByteTable_held all b
  have below := (List.getElem?_eq_some_iff.mp listed).1
  have count := (vocabLoad_indexed loaded).count
  simp only [int32Max] at count
  rw [← vocabLoad_scored loaded scored,i32_of_lt (by omega)] at held
  exact ⟨i,by simp [byteSymbol,held],gemma3Decode_byte listed value roomy⟩

theorem bytes_decode (loaded : vocabLoad m = .ok v) (scored : v.scores = some scores) (all : HasByteTokens m v)
    (roomy : 255 ≤ maxLen) (bytes : List UInt8) :
    (bytes.filterMap (byteSymbol v)).flatMap (gemma3DecodeToken v maxLen) = bytes := by
  induction bytes with
  | nil => rfl
  | cons b rest ih =>
    obtain ⟨id,symbol,decodes⟩ := byteSymbol_decodes loaded scored all roomy b
    rw [List.filterMap_cons_some symbol,List.flatMap_cons,decodes,ih]
    rfl

theorem emit_decodes (loaded : vocabLoad m = .ok v) (scored : v.scores = some scores) (all : HasByteTokens m v)
    (mark : Known v spaceMark) (roomy : 255 ≤ maxLen) (plain : ¬HasLiteral norm) (fine : Fine v node)
    (chars : ∀ u ∈ node.2, IsChar u) (size : s.n = node.2.flatten.length) (text : symText norm s = node.2.flatten) :
    (emit v norm s).flatMap (gemma3DecodeToken v maxLen) = node.2.flatMap unmarkChar := by
  have short : node.2.flatten.length ≤ 255 := by
    rcases fine with ⟨u,single⟩ | ⟨short,_⟩
    · have few := (chars u (by rw [single]; exact List.mem_cons_self ..)).short
      rw [single]
      simp only [List.flatten_cons,List.flatten_nil,List.append_nil]
      omega
    · exact short
  by_cases nothing : s.n = 0
  · have none' : node.2 = [] := by
      have long := flatten_length_le node.2 chars
      exact List.eq_nil_of_length_eq_zero (by omega)
    rw [emit,if_pos nothing,none']
    rfl
  · have inside : s.n ≤ (norm.drop s.off).length := by
      have length := congrArg List.length text
      rw [symText,List.length_take] at length
      omega
    have literal : ¬HasLiteral node.2.flatten := by
      rintro ⟨hi,lo,high,low,within⟩
      refine plain ⟨hi,lo,high,low,within.trans ?_⟩
      rw [← text,symText]
      exact (List.take_prefix _ _).isInfix.trans (List.drop_suffix _ _).isInfix
    have known := lookup_known (vocabLoad_indexed loaded) (by omega) inside
    change _ ↔ Known v (symText norm s) at known
    rw [text] at known
    rw [emit,if_neg nothing]
    cases found : vocabLookupLen v.tokens (norm.drop s.off) s.n with
    | some id =>
      obtain ⟨i,k,listed,bytes,rfl⟩ := lookup_sound (vocabLoad_indexed loaded) (by omega) found
      change k.bytes = symText norm s at bytes
      rw [text] at bytes
      have decoded : gemma3DecodeToken v maxLen i = unmark maxLen node.2.flatten := by
        simp only [gemma3DecodeToken,listed,bytes]
        exact gemma3Decode_piece _ literal maxLen
      simp only [Int.toNat_natCast,List.flatMap_cons,List.flatMap_nil,List.append_nil,decoded]
      exact unmark_chars node.2 chars maxLen (by omega)
    | none =>
      rw [found] at known
      have unknown : ¬Known v node.2.flatten := mt known.mpr (by simp)
      rcases fine with ⟨u,single⟩ | ⟨_,piece⟩
      · have other : u ≠ spaceMark := by
          rintro rfl
          rw [single] at unknown
          exact unknown (by simpa using mark)
        rw [text,single]
        simp only [List.flatten_cons,List.flatten_nil,List.append_nil,List.flatMap_cons,List.flatMap_nil,unmarkChar,
          if_neg other]
        exact bytes_decode loaded scored all roomy u
      · exact absurd piece unknown

theorem segments_decode (loaded : vocabLoad m = .ok v) (scored : v.scores = some scores) (all : HasByteTokens m v)
    (mark : Known v spaceMark) (roomy : 255 ≤ maxLen) (plain : ¬HasLiteral norm) (nodes : List Node)
    (fine : ∀ node ∈ nodes, Fine v node) (chars : ∀ u ∈ nodes.flatMap Prod.snd, IsChar u)
    (segments : List.Forall₂ (fun s (node : Node) => s.n = node.2.flatten.length ∧ symText norm s = node.2.flatten)
      syms nodes) :
    (syms.flatMap (emit v norm)).flatMap (gemma3DecodeToken v maxLen) = (nodes.flatMap Prod.snd).flatMap unmarkChar := by
  induction segments with
  | nil => rfl
  | @cons s node syms nodes here _ ih =>
    have own : ∀ u ∈ node.2, IsChar u := fun u present => chars u (by simp [present])
    rw [List.flatMap_cons,List.flatMap_append,List.flatMap_cons,List.flatMap_append,
      emit_decodes loaded scored all mark roomy plain (fine node (List.mem_cons_self ..)) own here.1 here.2,
      ih (fun node present => fine node (List.mem_cons_of_mem _ present)) fun u present => chars u
        (by rw [List.flatMap_cons]; exact List.mem_append_right _ present)]

theorem unmark_normalized (us : List (List UInt8)) (plain : spaceMark ∉ us) (addPrefixSpace : Bool) :
    ((if addPrefixSpace then [spaceMark] else [])++us.map fun u => if u = [32] then spaceMark else u).flatMap unmarkChar =
      (if addPrefixSpace then [32] else [])++us.flatten := by
  have body : (us.map fun u => if u = [32] then spaceMark else u).flatMap unmarkChar = us.flatten := by
    rw [List.flatMap_map,← List.flatMap_id]
    refine List.flatMap_congr fun u present => ?_
    by_cases space : u = [32]
    · rw [if_pos space,space]; rfl
    · have other : u ≠ spaceMark := by rintro rfl; exact plain present
      rw [if_neg space,unmarkChar,if_neg other]; rfl
  rw [List.flatMap_append,body]
  cases addPrefixSpace <;> rfl

theorem emit_length (v : Vocab) (norm : List UInt8) (s : SpmSym) : (emit v norm s).length ≤ s.n := by
  unfold emit
  by_cases nothing : s.n = 0
  · simp [nothing]
  · rw [if_neg nothing]
    split
    · simp only [List.length_singleton]; omega
    · refine Nat.le_trans (List.length_filterMap_le _ _) ?_
      rw [symText,List.length_take]
      omega

theorem segments_length (nodes : List Node)
    (segments : List.Forall₂ (fun s (node : Node) => s.n = node.2.flatten.length ∧ symText norm s = node.2.flatten)
      syms nodes) : (syms.flatMap (emit v norm)).length ≤ (nodes.flatMap Prod.snd).flatten.length := by
  induction segments with
  | nil => simp
  | @cons s node syms nodes here _ ih =>
    have own := emit_length v norm s
    have size := here.1
    rw [List.flatMap_cons,List.length_append,List.flatMap_cons,List.flatten_append,List.length_append]
    omega

theorem spm_segments (loaded : vocabLoad m = .ok v) (valid : ValidUtf8 text) (scores : List Nat) (addPrefixSpace : Bool) :
    ∃ (us : List (List UInt8)) (nodes : List Node), text = us.flatten ∧ (∀ u ∈ us, IsChar u) ∧
      nodes.flatMap Prod.snd = (if addPrefixSpace then [spaceMark] else [])++us.map (fun u => if u = [32] then spaceMark else u) ∧
      (∀ u ∈ nodes.flatMap Prod.snd, IsChar u) ∧ (nodes.flatMap Prod.snd).flatten = normalize text addPrefixSpace ∧
      (∀ node ∈ nodes, Fine v node) ∧ (nodes.IsChain fun a b => ¬Joins v a b) ∧
      List.Forall₂ (fun s (node : Node) => s.n = node.2.flatten.length ∧
        symText (normalize text addPrefixSpace) s = node.2.flatten)
        (spmSymbols v scores (normalize text addPrefixSpace)) nodes := by
  obtain ⟨us,chars,rfl⟩ := valid.chars
  have spelled := normalize_chars us chars addPrefixSpace
  generalize marked : (if addPrefixSpace then [spaceMark] else [])++us.map (fun u => if u = [32] then spaceMark else u) =
    us' at spelled
  have chars' : ∀ u ∈ us', IsChar u := by
    intro u present
    rw [← marked] at present
    rcases List.mem_append.mp present with front | body
    · split at front
      · obtain rfl := List.mem_singleton.mp front; exact isChar_spaceMark
      · simp at front
    · obtain ⟨u',listed,rfl⟩ := List.mem_map.mp body
      split
      · exact isChar_spaceMark
      · exact chars u' listed
  obtain ⟨nodes,same,fine,chain,segments⟩ := @spmSymbols_segments _ scores (vocabLoad_indexed loaded) us' chars'
  rw [← spelled] at segments
  exact ⟨us,nodes,rfl,chars,same.trans marked.symm,by rw [same]; exact chars',by rw [same,spelled],fine,chain,segments⟩

theorem tokenizeSpm_length (loaded : vocabLoad m = .ok v) (scored : v.scores = some scores) (valid : ValidUtf8 text)
    (maxTokens : Nat) (addPrefixSpace : Bool) :
    (tokenizeSpm v text maxTokens addPrefixSpace).length ≤ (normalize text addPrefixSpace).length := by
  obtain ⟨_,nodes,_,_,_,_,whole,_,_,segments⟩ := spm_segments loaded valid scores addPrefixSpace
  have few := segments_length (v:=v) nodes segments
  rw [whole] at few
  simp only [tokenizeSpm,scored,List.length_take]
  omega

-- `room`: no larger buffer would get more tokens.
theorem tokenizeSpm_lossless (m : Model) (v : Vocab) (scores : List Nat) (text : List UInt8) (maxTokens maxLen : Nat)
    (addPrefixSpace : Bool) (loaded : vocabLoad m = .ok v) (scored : v.scores = some scores) (all : HasByteTokens m v)
    (mark : Known v spaceMark) (valid : ValidUtf8 text) (free : ¬spaceMark <:+: text) (plain : ¬HasLiteral text)
    (room : ∀ n, (tokenizeSpm v text n addPrefixSpace).length ≤ maxTokens) (roomy : 255 ≤ maxLen) :
    (tokenizeSpm v text maxTokens addPrefixSpace).flatMap (gemma3DecodeToken v maxLen) =
      (if addPrefixSpace then [32] else [])++text ∧
    ((spmSymbols v scores (normalize text addPrefixSpace)).map (symText (normalize text addPrefixSpace))).IsChain
      fun a b => (a++b).length ≤ 255 → ¬Known v (a++b) := by
  obtain ⟨us,nodes,rfl,_,same,chars,whole,fine,chain,segments⟩ := spm_segments loaded valid scores addPrefixSpace
  have untouched : ¬HasLiteral (normalize us.flatten addPrefixSpace) := mt (normalized_literal _ _) plain
  constructor
  · have enough : ((spmSymbols v scores (normalize us.flatten addPrefixSpace)).flatMap
        (emit v (normalize us.flatten addPrefixSpace))).length ≤ maxTokens := by
      have full := room ((spmSymbols v scores (normalize us.flatten addPrefixSpace)).flatMap
        (emit v (normalize us.flatten addPrefixSpace))).length
      simpa only [tokenizeSpm,scored,List.take_length] using full
    have absent : spaceMark ∉ us := by
      intro present
      obtain ⟨front,back,rfl⟩ := List.append_of_mem present
      exact free ⟨front.flatten,back.flatten,by simp⟩
    simp only [tokenizeSpm,scored]
    rw [List.take_of_length_le enough,segments_decode loaded scored all mark roomy untouched nodes fine chars segments,
      same,unmark_normalized us absent]
  · have texts : (spmSymbols v scores (normalize us.flatten addPrefixSpace)).map
        (symText (normalize us.flatten addPrefixSpace)) = nodes.map fun node => node.2.flatten := by
      clear fine chain same chars whole
      generalize spmSymbols v scores (normalize us.flatten addPrefixSpace) = syms at segments
      induction segments with
      | nil => rfl
      | cons here _ ih => rw [List.map_cons,List.map_cons,here.2,ih]
    rw [texts,List.isChain_map]
    refine chain.imp fun a b apart short known => apart ?_
    rw [Joins,List.flatten_append]
    exact ⟨short,known⟩

end lossless

def hexDigitOf (n : Nat) : UInt8 := UInt8.ofNat (if n < 10 then 48+n else 55+n)

def byteTokenText (n : Nat) : List UInt8 := [60,48,120,hexDigitOf (n/16),hexDigitOf (n%16),62]

def spmTokens : List (List UInt8) := (List.range 256).map byteTokenText++[spaceMark,[97],spaceMark++[97]]

def spmLayout : Layout :=
  ⟨[⟨cstr "tokenizer.ggml.model",.string (cstr "llama")⟩,
    entryU32 "tokenizer.ggml.bos_token_id" 1,entryU32 "tokenizer.ggml.eos_token_id" 1,
    ⟨cstr "tokenizer.ggml.scores",.array valueFloat32 (spmTokens.map fun t => .scalar valueFloat32 (leBytes 4 t.length))⟩,
    ⟨cstr "tokenizer.ggml.tokens",.array valueString (spmTokens.map Value.string)⟩],
   [⟨cstr "token_embd.weight",[1],0,0⟩],List.replicate 64 0⟩

def spmFile : MappedFile := ⟨spmLayout.encode,by decide +kernel⟩

theorem spmLayout_wellFormed : spmLayout.WellFormed := by
  refine ⟨?_,?_,by decide +kernel,?_⟩
  · intro e present
    simp only [spmLayout,List.mem_cons,List.not_mem_nil,or_false] at present
    rcases present with rfl | rfl | rfl | rfl | rfl
    · exact show (cstr "llama").length < 2^64 by decide
    · simp [entryU32,Value.Fits,ggufMaxDims,scalarWidth,valueUint32]
    · simp [entryU32,Value.Fits,ggufMaxDims,scalarWidth,valueUint32]
    · refine ⟨by decide,by decide +kernel,fun v listed => ?_⟩
      obtain ⟨t,_,rfl⟩ := List.mem_map.mp listed
      exact ⟨rfl,rfl⟩
    · refine ⟨by decide,by decide +kernel,fun v listed => ?_⟩
      obtain ⟨t,token,rfl⟩ := List.mem_map.mp listed
      have short : ∀ t ∈ spmTokens, t.length < 2^64 := by decide +kernel
      exact ⟨rfl,short t token⟩
  · intro t present
    obtain rfl := List.mem_singleton.mp present
    refine ⟨by decide,by decide,by decide,?_,by decide,by decide⟩
    intro k
    rcases k with _ | k <;> simp
  · intro e present named
    have other : ∀ e ∈ spmLayout.kvs, e.name ≠ cstr "general.alignment" := by decide +kernel
    exact absurd named (other e present)

def spmModel : Model := placeTensors spmFile (spmLayout.loaded spmFile) spmLayout.sectionsEnd

theorem spmModel_accepted : modelLoad spmFile = .ok spmModel := by
  obtain ⟨c,parsed,post⟩ := modelSections_takes spmLayout spmLayout_wellFormed spmFile rfl
  have large : ¬spmFile.size < 32 := by decide +kernel
  have complete : modelCompletenessCheck spmModel = .ok () := by decide +kernel
  have unnamed : modelGetKey spmModel "general.architecture" = none := by decide +kernel
  have arch : modelDetectArch spmModel = .ok spmModel := by rw [modelDetectArch,unnamed]; rfl
  have placed : placeTensors spmFile (spmLayout.loaded spmFile) c.post = spmModel := by rw [post]; rfl
  exact modelLoad_detected large parsed (placed.symm ▸ arch) complete

theorem spmModel_tokens : tokenArray spmModel = .ok ⟨8,259,1281⟩ ∧
    spmTokens.flatMap encodeString <+: spmModel.file.bytes.drop 1281 := by decide +kernel

theorem spmScores_some (scores : modelGetArray m "tokenizer.ggml.scores" = some ⟨6,n,p⟩) :
    ∃ words, spmScores m n = some words := by
  rw [spmScores,scores]
  exact ⟨_,if_pos ⟨rfl,rfl⟩⟩

theorem vocabLoad_spm (type : tokenizerType m = .ok .spm) (array : tokenArray m = .ok a)
    (read : loadStrings m a a.len = .ok (token,tokens))
    (bos : modelGetI32 m "tokenizer.ggml.bos_token_id" = some 1)
    (eos : modelGetI32 m "tokenizer.ggml.eos_token_id" = some 1) :
    ∃ v, vocabLoad m = .ok v ∧ v.scores = spmScores m token.length := by
  obtain ⟨v,done⟩ : ∃ v, finishVocab m .spm token tokens noTable (spmScores m token.length)
      (spmByteTable token (tokenTypes m token.length)) spmBosCands spmEosCands = .ok v := by
    simp only [finishVocab,specialId,bos,eos]
    exact ⟨_,rfl⟩
  refine ⟨v,?_,finishVocab_scores done⟩
  simp only [vocabLoad,type,vocabLoadForSpm,array,read,done,Bind.bind,Except.bind]

theorem spmModel_tables : ∃ v scores, vocabLoad spmModel = .ok v ∧ v.scores = some scores := by
  have type : tokenizerType spmModel = .ok .spm := by decide +kernel
  have bos : modelGetI32 spmModel "tokenizer.ggml.bos_token_id" = some 1 := by decide +kernel
  have eos : modelGetI32 spmModel "tokenizer.ggml.eos_token_id" = some 1 := by decide +kernel
  have scores : modelGetArray spmModel "tokenizer.ggml.scores" = some ⟨6,259,200⟩ := by decide +kernel
  have inside : 1281 ≤ spmModel.file.size := by decide +kernel
  obtain ⟨array,stored⟩ := spmModel_tokens
  have count : spmTokens.length = 259 := by
    rw [spmTokens,List.length_append,List.length_map,List.length_range]
    rfl
  obtain ⟨keys,table,read⟩ := loadStrings_takes spmModel ⟨8,259,1281⟩ spmTokens count.symm (by decide) inside stored
  rw [count] at read
  have length := (loadStrings_ok (by decide) read (Nat.le_refl _)).1
  obtain ⟨v,loaded,held⟩ := vocabLoad_spm type array read bos eos
  obtain ⟨words,found⟩ := spmScores_some scores
  exact ⟨v,words,loaded,by rw [held,length,found]⟩

theorem spmTokens_byte (n : Nat) (byte : n < 256) : spmTokens[n]? = some (byteTokenText n) := by
  rw [spmTokens,List.getElem?_append_left (by rw [List.length_map,List.length_range]; exact byte),List.getElem?_map,
    List.getElem?_range byte]
  rfl

theorem byteTokenText_value : ∀ n < 256, spmByteTokenValue ⟨6,byteTokenText n⟩ = some n := by decide +kernel

theorem spmModel_loads : ∃ v scores, vocabLoad spmModel = .ok v ∧ v.scores = some scores ∧
    HasByteTokens spmModel v ∧ Known v spaceMark := by
  obtain ⟨v,scores,loaded,scored⟩ := spmModel_tables
  obtain ⟨array,stored⟩ := spmModel_tokens
  have count : 259 = spmTokens.length := by
    rw [spmTokens,List.length_append,List.length_map,List.length_range]
    rfl
  have untyped : modelGetArray spmModel "tokenizer.ggml.token_type" = none := by decide +kernel
  have keys := loaded_keys loaded (tokenArray_ok array).1 count stored
  refine ⟨v,scores,loaded,scored,fun b => ?_,?_⟩
  · have listed := spmTokens_byte b.toNat b.toNat_lt
    have value := byteTokenText_value b.toNat b.toNat_lt
    obtain ⟨k,found,len,tail,text⟩ := storedKeys_get spmModel.file spmTokens 1281 b.toNat _ stored listed
    refine ⟨b.toNat,k,by rw [keys]; exact found,?_,?_⟩
    · obtain ⟨len',content⟩ := k
      obtain rfl : len' = 6 := len
      obtain rfl : byteTokenText b.toNat++tail = content := text
      exact value
    · intro types typed
      simp [tokenTypes,untyped] at typed
  · have named : (spaceMark.length,spaceMark) ∈ v.token.map keyName := by
      rw [keys,storedKeys_names _ _ _ stored]
      exact List.mem_map.mpr ⟨spaceMark,by rw [spmTokens]; simp,by decide⟩
    obtain ⟨k,there,name⟩ := List.mem_map.mp named
    exact ⟨k,there,name⟩

-- " a": its one word is a single piece.
theorem spaceA_lossless : ∃ m v, modelLoad spmFile = .ok m ∧ vocabLoad m = .ok v ∧
    (tokenizeSpm v [32,97] 9 true).flatMap (gemma3DecodeToken v 255) = [32,32,97] := by
  obtain ⟨v,scores,loaded,scored,all,mark⟩ := spmModel_loads
  have valid : ValidUtf8 [32,97] := ⟨[' ','a'],by decide⟩
  have plain : ¬HasLiteral [32,97] := by
    rintro ⟨hi,lo,_,_,within⟩
    have long := within.length_le
    simp at long
  refine ⟨spmModel,v,spmModel_accepted,loaded,(tokenizeSpm_lossless spmModel v scores [32,97] 9 255 true loaded scored all
    mark valid (by decide) plain (fun n => ?_) (by decide)).1⟩
  exact Nat.le_trans (tokenizeSpm_length loaded scored valid n true) (by decide)

end TinyLlama.Tokenizer
