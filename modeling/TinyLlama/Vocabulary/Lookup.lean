import TinyLlama.Vocabulary.Load
import TinyLlama.Gguf.Bounds

namespace TinyLlama.Vocabulary
open LittleEndian Gguf Load

-- What a table holds for a name after its keys were put under i, i+1, ...
def lastPut : List Key → Nat → Key → Option Int → Option Int
  | [],_,_,before => before
  | s :: rest,i,k,before => lastPut rest (i+1) k (if keyName k = keyName s then some (i32 i) else before)

theorem cursorKey_len (read : cursorKey c = (.ok k,c')) : k.len < 2^8 := by
  obtain ⟨len,c₁,_,rest⟩ := Run.bind_ok.mp read
  obtain ⟨_,c₂,_,done⟩ := Run.bind_ok.mp rest
  obtain rfl := Except.ok.inj (Prod.mk.inj done).1
  exact u8_lt len

theorem loadTable_ok (n : Nat) : ∀ (i : Nat) (table : TokenizerTable) (c c' : Cursor) (keys : List Key)
    (table' : TokenizerTable), loadTable n i table c = (.ok (keys,table'),c') → table.Ok → table.used+n < table.cap →
    keys.length = n ∧ (∀ k ∈ keys, k.len < 2^8) ∧ table'.Ok ∧ table'.used < table'.cap ∧
      ∀ k, tokenizerTableGet table' k = lastPut keys i k (tokenizerTableGet table k) := by
  induction n with
  | zero =>
    intro i table c c' keys table' run ok room
    obtain ⟨same,_⟩ := Run.pure_ok.mp run
    obtain ⟨rfl,rfl⟩ := Prod.mk.inj same
    exact ⟨rfl,by simp,ok,by omega,fun _ => rfl⟩
  | succ n ih =>
    intro i table c c' keys table' run ok room
    obtain ⟨key,c₁,read,run⟩ := Run.bind_ok.mp run
    obtain ⟨table₁,c₂,put,run⟩ := Run.bind_ok.mp run
    obtain ⟨⟨rest,table₂⟩,c₃,loop,done⟩ := Run.bind_ok.mp run
    obtain ⟨same,_⟩ := Run.pure_ok.mp done
    obtain ⟨rfl,rfl⟩ := Prod.mk.inj same
    obtain ⟨table₁',stored,ok₁,cap₁,used₁,get₁⟩ := tokenizerTablePut_spec table ok (by omega) key (i32 i)
    obtain rfl : table₁' = table₁ := by
      have eq := congrArg Prod.fst put
      simp only [stored] at eq
      exact Except.ok.inj eq
    obtain ⟨length,lens,ok₂,room₂,get₂⟩ := ih (i+1) table₁' c₂ c₃ rest table₂ loop ok₁ (by omega)
    refine ⟨by simp [length],?_,ok₂,room₂,?_⟩
    · intro k present
      rcases List.mem_cons.mp present with rfl | later
      · exact cursorKey_len (orExit_ok read)
      · exact lens k later
    · intro k
      rw [get₂ k,get₁ k]
      rfl

theorem lastPut_sound (keys : List Key) : ∀ (i : Nat) (k : Key) (before : Option Int) (id : Int),
    lastPut keys i k before = some id →
    (∃ j s, keys[j]? = some s ∧ keyName s = keyName k ∧ id = i32 (i+j)) ∨ before = some id := by
  induction keys with
  | nil => intro i k before id found; exact .inr found
  | cons s rest ih =>
    intro i k before id found
    rcases ih (i+1) k _ id found with ⟨j,s',listed,named,value⟩ | earlier
    · exact .inl ⟨j+1,s',by simpa using listed,named,by rw [value]; congr 1; omega⟩
    · by_cases same : keyName k = keyName s
      · rw [if_pos same] at earlier
        exact .inl ⟨0,s,rfl,same.symm,(Option.some.inj earlier).symm⟩
      · rw [if_neg same] at earlier
        exact .inr earlier

theorem lastPut_present (keys : List Key) : ∀ (i : Nat) (k : Key) (before : Option Int),
    (before.isSome ∨ ∃ s ∈ keys, keyName s = keyName k) → (lastPut keys i k before).isSome := by
  induction keys with
  | nil => intro i k before present; simpa [lastPut] using present
  | cons s rest ih =>
    intro i k before present
    refine ih (i+1) k _ ?_
    by_cases same : keyName k = keyName s
    · exact .inl (by simp [same])
    · rw [if_neg same]
      rcases present with earlier | ⟨s',listed,named⟩
      · exact .inl earlier
      · rcases List.mem_cons.mp listed with rfl | later
        · exact absurd named.symm same
        · exact .inr ⟨s',later,named⟩

theorem lastPut_absent (keys : List Key) : ∀ (i : Nat) (k : Key) (before : Option Int),
    (∀ s ∈ keys, keyName s ≠ keyName k) → lastPut keys i k before = before := by
  induction keys with
  | nil => intro i k before _; rfl
  | cons s rest ih =>
    intro i k before absent
    have other : ¬keyName k = keyName s := fun same => absent s (List.mem_cons_self ..) same.symm
    rw [lastPut,if_neg other]
    exact ih _ _ _ (fun s present => absent s (List.mem_cons_of_mem _ present))

theorem lastPut_unique (keys : List Key) : ∀ (i j : Nat) (k s : Key) (before : Option Int),
    (keys.map keyName).Nodup → keys[j]? = some s → keyName s = keyName k →
    lastPut keys i k before = some (i32 (i+j)) := by
  induction keys with
  | nil => intro i j k s before _ listed; simp at listed
  | cons first rest ih =>
    intro i j k s before distinct listed named
    simp only [List.map_cons,List.nodup_cons] at distinct
    cases j with
    | zero =>
      obtain rfl : first = s := by simpa using listed
      rw [lastPut,if_pos named.symm,lastPut_absent]
      · rfl
      · intro s' present same
        exact distinct.1 (List.mem_map.mpr ⟨s',present,same.trans named.symm⟩)
    | succ j =>
      rw [lastPut,ih (i+1) j k s _ distinct.2 (by simpa using listed) named]
      congr 2; omega

-- The keys read from an array of strings.
def storedKeys (f : MappedFile) : Nat → List (List UInt8) → List Key
  | _,[] => []
  | post,t :: rest => storedKey f post t.length :: storedKeys f (post+(encodeString t).length) rest

theorem loadTable_reads (ts : List (List UInt8)) : ∀ (i : Nat) (table : TokenizerTable) (c c' : Cursor)
    (keys : List Key) (table' : TokenizerTable), c.Good → c.Ahead (ts.flatMap encodeString) →
    loadTable ts.length i table c = (.ok (keys,table'),c') → keys = storedKeys c.file c.post ts := by
  induction ts with
  | nil =>
    intro i table c c' keys table' _ _ run
    obtain ⟨same,_⟩ := Run.pure_ok.mp run
    exact (Prod.mk.inj same).1.symm
  | cons t rest ih =>
    intro i table c c' keys table' good ahead run
    obtain ⟨key,c₁,read,run⟩ := Run.bind_ok.mp run
    obtain ⟨table₁,c₂,put,run⟩ := Run.bind_ok.mp run
    obtain ⟨⟨later,table₂⟩,c₃,loop,done⟩ := Run.bind_ok.mp run
    obtain ⟨same,_⟩ := Run.pure_ok.mp done
    obtain ⟨rfl,rfl⟩ := Prod.mk.inj same
    obtain ⟨c₁',read',good₁,file₁,post₁⟩ := cursorKey_takes good ahead.left
    rw [orExit_ok read] at read'
    obtain ⟨key',rfl⟩ := Prod.mk.inj read'
    obtain rfl : key = storedKey c.file c.post t.length := Except.ok.inj key'
    obtain rfl : c₁ = c₂ := congrArg Prod.snd put
    have next := ih (i+1) table₁ c₁ c₃ later table₂ good₁ (ahead.right file₁ post₁) loop
    rw [next,file₁,post₁]
    rfl

theorem loadTable_takes (ts : List (List UInt8)) : ∀ (i : Nat) (table : TokenizerTable) (c : Cursor), c.Good →
    c.Ahead (ts.flatMap encodeString) → table.Ok → table.used+ts.length < table.cap →
    ∃ keys table' c', loadTable ts.length i table c = (.ok (keys,table'),c') := by
  induction ts with
  | nil => intro i table c _ _ _ _; exact ⟨[],table,c,rfl⟩
  | cons t rest ih =>
    intro i table c good ahead ok room
    simp only [List.length_cons] at room
    obtain ⟨c₁,read,good₁,file₁,post₁⟩ := cursorKey_takes good ahead.left
    obtain ⟨table₁,stored,ok₁,cap₁,used₁,_⟩ :=
      tokenizerTablePut_spec table ok (by omega) (storedKey c.file c.post t.length) (i32 i)
    obtain ⟨keys,table₂,c₂,loop⟩ := ih (i+1) table₁ c₁ good₁ (ahead.right file₁ post₁) ok₁ (by omega)
    refine ⟨storedKey c.file c.post t.length :: keys,table₂,c₂,?_⟩
    simp only [List.length_cons,loadTable,Bind.bind,orExit,read,stored,loop]
    rfl

theorem loadStrings_takes (m : Model) (a : ArrayRef) (ts : List (List UInt8)) (count : a.len = ts.length)
    (small : a.len < 2^32) (inside : a.dataPos ≤ m.file.size)
    (stored : ts.flatMap encodeString <+: m.file.bytes.drop a.dataPos) :
    ∃ keys table, loadStrings m a ts.length = .ok (keys,table) := by
  obtain ⟨start,init,ok,unused,room,_⟩ := tokenizerTableInit_spec a.len small
  obtain ⟨keys,table,c',run⟩ := loadTable_takes ts 0 start (cursorAt m.file a.dataPos)
    ⟨inside,fun _ impossible => by simp [cursorAt] at impossible⟩ stored ok (by omega)
  exact ⟨keys,table,by simp only [loadStrings,init,Bind.bind,Except.bind,run]⟩

theorem finishVocab_tables (done : finishVocab m type token tokens merges scores byteTokenIds bos eos = .ok v) :
    v.token = token ∧ v.tokens = tokens ∧ v.merges = merges ∧ v.byteTokenIds = byteTokenIds ∧ v.tokenizerType = type := by
  unfold finishVocab at done
  simp only at done
  split at done
  · simp at done
  · split at done
    · simp at done
    · obtain rfl := Except.ok.inj done
      exact ⟨rfl,rfl,rfl,rfl,rfl⟩

theorem vocabLoad_finish (loaded : vocabLoad m = .ok v) :
    ∃ a token tokens, tokenArray m = .ok a ∧ loadStrings m a a.len = .ok (token,tokens) ∧
      (finishVocab m .spm token tokens noTable (spmScores m token.length)
          (spmByteTable token (tokenTypes m token.length)) spmBosCands spmEosCands = .ok v ∨
        ∃ merges, finishVocab m .bpe token tokens merges .none (bpeByteTable tokens) bpeBosCands bpeEosCands = .ok v) := by
  obtain ⟨type,_,loaded⟩ := exit_bind_ok.mp loaded
  cases type with
  | spm =>
    obtain ⟨a,array,loaded⟩ := exit_bind_ok.mp loaded
    obtain ⟨⟨token,tokens⟩,read,loaded⟩ := exit_bind_ok.mp loaded
    exact ⟨a,token,tokens,array,read,.inl loaded⟩
  | bpe =>
    obtain ⟨a,array,loaded⟩ := exit_bind_ok.mp loaded
    obtain ⟨b,_,loaded⟩ := exit_bind_ok.mp loaded
    obtain ⟨⟨token,tokens⟩,read,loaded⟩ := exit_bind_ok.mp loaded
    obtain ⟨⟨_,merges⟩,_,loaded⟩ := exit_bind_ok.mp loaded
    exact ⟨a,token,tokens,array,read,.inr ⟨merges,loaded⟩⟩
  | _ => simp [throw,throwThe,MonadExceptOf.throw] at loaded

theorem vocabLoad_tables (loaded : vocabLoad m = .ok v) :
    ∃ a, tokenArray m = .ok a ∧ loadStrings m a a.len = .ok (v.token,v.tokens) := by
  obtain ⟨a,token,tokens,array,read,done | ⟨_,done⟩⟩ := vocabLoad_finish loaded
  · obtain ⟨rfl,rfl,_⟩ := finishVocab_tables done
    exact ⟨a,array,read⟩
  · obtain ⟨rfl,rfl,_⟩ := finishVocab_tables done
    exact ⟨a,array,read⟩

theorem vocabLoad_bytes (loaded : vocabLoad m = .ok v) (bpe : v.tokenizerType = .bpe) :
    v.byteTokenIds = bpeByteTable v.tokens := by
  obtain ⟨_,_,_,_,_,done | ⟨_,done⟩⟩ := vocabLoad_finish loaded
  · have type := (finishVocab_tables done).2.2.2.2
    rw [bpe] at type
    exact TokenizerType.noConfusion type
  · obtain ⟨_,same,_,bytes,_⟩ := finishVocab_tables done
    rw [bytes,same]

theorem vocabLoad_bpe (type : tokenizerType m = .ok .bpe) (array : tokenArray m = .ok a) (merges : mergeArray m = .ok b)
    (read : loadStrings m a a.len = .ok (token,tokens)) (read' : loadStrings m b (mergeCount m b) = .ok (keys,table)) :
    vocabLoad m = finishVocab m .bpe token tokens table none (bpeByteTable tokens) bpeBosCands bpeEosCands := by
  simp only [vocabLoad,type,vocabLoadForBpe,array,merges,read,read',Bind.bind,Except.bind]

theorem vocabLoad_merges (loaded : vocabLoad m = .ok v) (bpe : v.tokenizerType = .bpe) (array : mergeArray m = .ok b) :
    ∃ keys, loadStrings m b (mergeCount m b) = .ok (keys,v.merges) := by
  obtain ⟨type,_,loaded⟩ := exit_bind_ok.mp loaded
  cases type with
  | spm =>
    obtain ⟨_,_,loaded⟩ := exit_bind_ok.mp loaded
    obtain ⟨_,_,loaded⟩ := exit_bind_ok.mp loaded
    have type := (finishVocab_tables loaded).2.2.2.2
    rw [bpe] at type
    exact TokenizerType.noConfusion type
  | bpe =>
    obtain ⟨_,_,loaded⟩ := exit_bind_ok.mp loaded
    obtain ⟨b',array',loaded⟩ := exit_bind_ok.mp loaded
    obtain ⟨_,_,loaded⟩ := exit_bind_ok.mp loaded
    obtain ⟨⟨keys,merges⟩,read,done⟩ := exit_bind_ok.mp loaded
    rw [array] at array'
    obtain rfl := Except.ok.inj array'
    exact ⟨keys,by rw [(finishVocab_tables done).2.2.1]; exact read⟩
  | _ => simp [throw,throwThe,MonadExceptOf.throw] at loaded

theorem tokenArray_ok (array : tokenArray m = .ok a) :
    modelGetArray m "tokenizer.ggml.tokens" = some a ∧ a.type = valueString ∧ a.len ≤ int32Max := by
  unfold tokenArray at array
  cases found : modelGetArray m "tokenizer.ggml.tokens" with
  | none => simp [found] at array
  | some a' =>
    simp only [found] at array
    split at array
    · simp at array
    · rename_i fine
      obtain rfl := Except.ok.inj array
      simp only [ne_eq,not_or,Decidable.not_not,not_lt,gt_iff_lt] at fine
      exact ⟨rfl,fine⟩

theorem loadStrings_ok (small : a.len < 2^32) (read : loadStrings m a n = .ok (keys,table)) (fits : n ≤ a.len) :
    keys.length = n ∧ (∀ k ∈ keys, k.len < 2^8) ∧ table.Ok ∧ table.used < table.cap ∧
      ∀ k, tokenizerTableGet table k = lastPut keys 0 k none := by
  obtain ⟨start,init,ok,unused,room,empty⟩ := tokenizerTableInit_spec a.len small
  obtain ⟨start',init',read⟩ := exit_bind_ok.mp read
  obtain rfl : start = start' := by simpa [init] using init'
  have run : loadTable n 0 start (cursorAt m.file a.dataPos) =
      (.ok (keys,table),(loadTable n 0 start (cursorAt m.file a.dataPos)).2) := Prod.ext read rfl
  obtain ⟨length,lens,ok',room',get⟩ := loadTable_ok n 0 start _ _ keys table run ok (by omega)
  exact ⟨length,lens,ok',room',fun k => by rw [get k,empty k]⟩

-- The tables of an accepted vocabulary, whatever its strings are.
structure Vocab.Indexed (v : Vocab) : Prop where
  count : v.token.length ≤ int32Max
  lens : ∀ k ∈ v.token, k.len < 2^8
  ok : v.tokens.Ok
  room : v.tokens.used < v.tokens.cap
  get : ∀ k, tokenizerTableGet v.tokens k = lastPut v.token 0 k none

theorem vocabLoad_indexed (loaded : vocabLoad m = .ok v) : v.Indexed := by
  obtain ⟨a,array,read⟩ := vocabLoad_tables loaded
  obtain ⟨_,_,few⟩ := tokenArray_ok array
  simp only [int32Max] at few
  obtain ⟨length,lens,ok,room,get⟩ := loadStrings_ok (by omega) read (Nat.le_refl _)
  exact ⟨by rw [length]; exact few,lens,ok,room,get⟩

theorem Vocab.Indexed.sound {v : Vocab} {id : Int} (indexed : v.Indexed) (hit : tokenizerTableGet v.tokens k = some id) :
    ∃ (i : Nat) (s : Key), v.token[i]? = some s ∧ keyName s = keyName k ∧ id = i := by
  rw [indexed.get] at hit
  rcases lastPut_sound v.token 0 k none id hit with ⟨j,s,listed,named,value⟩ | impossible
  · refine ⟨j,s,listed,named,?_⟩
    have below := List.getElem?_eq_some_iff.mp listed
    have count := indexed.count
    simp only [int32Max] at count
    rw [value,Nat.zero_add,i32_of_lt (by have := below.1; omega)]
  · simp at impossible

-- The name a query is looked up by: its length cut to 8 bits, and that many bytes.
def queryKey (q : List UInt8) : Key := ⟨u8 q.length,q⟩
def cutQuery (q : List UInt8) : List UInt8 := q.take (u8 q.length)

theorem queryName (q : List UInt8) : keyName (queryKey q) = (u8 q.length,cutQuery q) := rfl

theorem cutQuery_length (q : List UInt8) : (cutQuery q).length = u8 q.length := by
  simp only [cutQuery,List.length_take]
  exact Nat.min_eq_left (Nat.mod_le _ _)

theorem cutQuery_short (short : q.length ≤ 255) : cutQuery q = q := by
  simp only [cutQuery,u8_of_lt (show q.length < 2^8 by omega),List.take_length]

theorem storedKeys_get (f : MappedFile) (ts : List (List UInt8)) : ∀ (post i : Nat) (t : List UInt8),
    ts.flatMap encodeString <+: f.bytes.drop post → ts[i]? = some t →
    ∃ k, (storedKeys f post ts)[i]? = some k ∧ k.len = u8 t.length ∧ t <+: k.content := by
  induction ts with
  | nil => intro post i t _ listed; simp at listed
  | cons first rest ih =>
    intro post i t ahead listed
    obtain ⟨tail,eq⟩ := ahead
    have cut : (first :: rest).flatMap encodeString = encodeString first++rest.flatMap encodeString := rfl
    cases i with
    | zero =>
      obtain rfl : first = t := by simpa using listed
      refine ⟨_,rfl,rfl,rest.flatMap encodeString++tail,?_⟩
      change first++(rest.flatMap encodeString++tail) = f.bytes.drop (post+8)
      rw [← List.drop_drop,← eq,cut,encodeString]
      simp only [List.append_assoc]
      exact (List.drop_left' (leBytes_length 8 _)).symm
    | succ i =>
      refine ih (post+(encodeString first).length) i t ?_ (by simpa using listed)
      exact ⟨tail,by rw [← List.drop_drop,← eq,cut,List.append_assoc,List.drop_left]⟩

theorem storedKeys_length (f : MappedFile) (ts : List (List UInt8)) (post : Nat) :
    (storedKeys f post ts).length = ts.length := by
  induction ts generalizing post with
  | nil => rfl
  | cons t rest ih => simp [storedKeys,ih]

-- What is claimed of one query against one loaded array.
structure LookupInverts (v : Vocab) (tokens : List (List UInt8)) (q : List UInt8) : Prop where
  keys : ∀ (i : Nat) t, tokens[i]? = some t → ∃ k, v.token[i]? = some k ∧ k.len = t.length ∧ k.bytes = t
  found : ∀ (i : Nat) t, tokens[i]? = some t → vocabLookupLen v.tokens t t.length = some (i : Int)
  missed : q ∉ tokens → vocabLookupLen v.tokens q q.length = none
  ends : ∃ slot, tokenizerTableFind v.tokens (queryKey q) = some slot

theorem loaded_keys (loaded : vocabLoad m = .ok v) (array : modelGetArray m "tokenizer.ggml.tokens" = some a)
    (count : a.len = tokens.length) (stored : tokens.flatMap encodeString <+: m.file.bytes.drop a.dataPos) :
    v.token = storedKeys m.file a.dataPos tokens := by
  obtain ⟨a',array',read⟩ := vocabLoad_tables loaded
  obtain rfl : a = a' := by simpa [(tokenArray_ok array').1] using array.symm
  obtain ⟨start,_,read⟩ := exit_bind_ok.mp read
  have run : loadTable a.len 0 start (cursorAt m.file a.dataPos) =
      (.ok (v.token,v.tokens),(loadTable a.len 0 start (cursorAt m.file a.dataPos)).2) := Prod.ext read rfl
  rw [count] at run
  by_cases inside : a.dataPos ≤ m.file.size
  · exact loadTable_reads tokens 0 start (cursorAt m.file a.dataPos) _ _ _
      ⟨inside,fun _ impossible => by simp [cursorAt] at impossible⟩ stored run
  · -- Past the end of the file there is room for an empty array only.
    have nothing : m.file.bytes.drop a.dataPos = [] := List.drop_eq_nil_of_le (Nat.le_of_not_le inside)
    rw [nothing,List.prefix_nil] at stored
    cases tokens with
    | nil =>
      obtain ⟨same,_⟩ := Run.pure_ok.mp run
      exact (Prod.mk.inj same).1.symm
    | cons t rest =>
      have length := congrArg List.length stored
      simp [encodeString] at length

theorem storedKeys_names (f : MappedFile) (ts : List (List UInt8)) (post : Nat)
    (stored : ts.flatMap encodeString <+: f.bytes.drop post) :
    (storedKeys f post ts).map keyName = ts.map fun t => (u8 t.length,cutQuery t) := by
  refine List.ext_getElem? fun i => ?_
  cases listed : ts[i]? with
  | none =>
    have past : (storedKeys f post ts)[i]? = none := by
      rw [List.getElem?_eq_none_iff,storedKeys_length]
      exact List.getElem?_eq_none_iff.mp listed
    simp [listed,past]
  | some t =>
    obtain ⟨k,found,len,held⟩ := storedKeys_get f ts post i t stored listed
    have bytes : k.bytes = cutQuery t := by
      obtain ⟨tail,eq⟩ := held
      rw [Key.bytes,len,← eq,List.take_append_of_le_length (show u8 t.length ≤ t.length from Nat.mod_le _ _)]
      rfl
    simp [listed,found,keyName,bytes,len]

theorem lookup_inverts_iff (m : Model) (v : Vocab) (a : ArrayRef) (tokens : List (List UInt8)) (q : List UInt8)
    (loaded : vocabLoad m = .ok v) (array : modelGetArray m "tokenizer.ggml.tokens" = some a)
    (count : a.len = tokens.length) (stored : tokens.flatMap encodeString <+: m.file.bytes.drop a.dataPos)
    (distinct : tokens.Nodup) :
    LookupInverts v tokens q ↔ (∀ t ∈ tokens, t.length ≤ 255) ∧ (q ∈ tokens ∨ cutQuery q ∉ tokens) := by
  have indexed := vocabLoad_indexed loaded
  have keys := loaded_keys loaded array count stored
  have names : v.token.map keyName = tokens.map fun t => (u8 t.length,cutQuery t) := by
    rw [keys]; exact storedKeys_names m.file tokens a.dataPos stored
  have key : ∀ (i : Nat) t, tokens[i]? = some t → ∃ k, v.token[i]? = some k ∧ k.len = u8 t.length ∧ t <+: k.content := by
    intro i t listed
    rw [keys]
    exact storedKeys_get m.file tokens a.dataPos i t stored listed
  have length : v.token.length = tokens.length := by rw [keys,storedKeys_length]
  have few := indexed.count
  simp only [int32Max] at few
  -- With short tokens the names are the tokens themselves, so each has its own.
  have short_names : (∀ t ∈ tokens, t.length ≤ 255) → v.token.map keyName = tokens.map fun t => (t.length,t) := by
    intro short
    rw [names]
    refine List.map_congr_left fun t present => ?_
    rw [u8_of_lt (by have := short t present; omega),cutQuery_short (short t present)]
  have hit : (∀ t ∈ tokens, t.length ≤ 255) → ∀ (i : Nat) t p, tokens[i]? = some t → cutQuery p = t →
      vocabLookupLen v.tokens p p.length = some (i : Int) := by
    intro short i t p listed same
    obtain ⟨k,found,_⟩ := key i t listed
    have own : (v.token.map keyName).Nodup := by
      rw [short_names short]
      exact distinct.map fun t₁ t₂ same => (Prod.mk.inj same).2
    have named : keyName k = keyName (queryKey p) := by
      have here : (v.token.map keyName)[i]? = some (t.length,t) := by
        rw [short_names short]; simp [listed]
      rw [queryName,same,← cutQuery_length p,same]
      simpa [found] using here
    have below := (List.getElem?_eq_some_iff.mp found).1
    change tokenizerTableGet v.tokens (queryKey p) = _
    rw [indexed.get,lastPut_unique v.token 0 i _ k none own found named,Nat.zero_add,i32_of_lt (by omega)]
  constructor
  · intro inverts
    have short : ∀ t ∈ tokens, t.length ≤ 255 := by
      intro t present
      obtain ⟨i,listed⟩ := List.getElem?_of_mem present
      obtain ⟨k,found,len,_⟩ := inverts.keys i t listed
      obtain ⟨k',found',len',_⟩ := key i t listed
      obtain rfl : k = k' := by simpa [found] using found'
      have cut := u8_lt t.length
      omega
    refine ⟨short,?_⟩
    by_cases present : q ∈ tokens
    · exact .inl present
    · refine .inr fun cut => ?_
      obtain ⟨i,listed⟩ := List.getElem?_of_mem cut
      have found := hit short i _ q listed rfl
      rw [inverts.missed present] at found
      simp at found
  · rintro ⟨short,apart⟩
    refine ⟨?_,?_,?_,tokenizerTableFind_ends v.tokens indexed.ok indexed.room _⟩
    · intro i t listed
      obtain ⟨k,found,len,tail,eq⟩ := key i t listed
      have small := short t (List.mem_of_getElem? listed)
      rw [u8_of_lt (by omega)] at len
      exact ⟨k,found,len,by rw [Key.bytes,len,← eq,List.take_left]⟩
    · intro i t listed
      exact hit short i t t listed (cutQuery_short (short t (List.mem_of_getElem? listed)))
    · intro absent
      have cut := apart.resolve_left absent
      change tokenizerTableGet v.tokens (queryKey q) = _
      rw [indexed.get]
      refine lastPut_absent v.token 0 _ none fun s present same => cut ?_
      have named : keyName s ∈ v.token.map keyName := List.mem_map_of_mem present
      rw [short_names short,same,queryName] at named
      obtain ⟨t,listed,eq⟩ := List.mem_map.mp named
      rw [← (Prod.mk.inj eq).2]
      exact listed

def tokenLayout (tokens : List (List UInt8)) : Layout :=
  ⟨[⟨cstr "tokenizer.ggml.model",.string (cstr "llama")⟩,
    ⟨cstr "tokenizer.ggml.tokens",.array valueString (tokens.map Value.string)⟩],
   [⟨cstr "token_embd.weight",[1],0,0⟩],List.replicate 64 0⟩

def tokensOf (f : MappedFile) : Except Exit (Option ArrayRef) := do
  return modelGetArray (← modelLoad f) "tokenizer.ggml.tokens"

theorem vocab_accepted (loads : (modelLoad f >>= vocabLoad).isOk = true) (listed : tokensOf f = .ok (some a)) :
    ∃ m v, modelLoad f = .ok m ∧ m.file = f ∧ vocabLoad m = .ok v ∧
      modelGetArray m "tokenizer.ggml.tokens" = some a := by
  cases accepted : modelLoad f with
  | error e => simp [accepted,Bind.bind,Except.bind,Except.isOk,Except.toBool] at loads
  | ok m =>
    cases loaded : vocabLoad m with
    | error e => simp [accepted,loaded,Bind.bind,Except.bind,Except.isOk,Except.toBool] at loads
    | ok v =>
      refine ⟨m,v,rfl,modelLoad_file accepted,loaded,?_⟩
      simpa [tokensOf,accepted,Bind.bind,Except.bind,pure,Except.pure] using listed

def shortTokens : List (List UInt8) := [cstr "<s>",cstr "</s>",cstr "a"]
def shortFile : MappedFile := ⟨(tokenLayout shortTokens).encode,by decide +kernel⟩

theorem shortFile_lookup : ∃ m v, modelLoad shortFile = .ok m ∧ vocabLoad m = .ok v ∧
    LookupInverts v shortTokens (cstr "b") := by
  obtain ⟨m,v,accepted,file,loaded,array⟩ := vocab_accepted (f:=shortFile) (a:=⟨8,3,114⟩) (by decide +kernel)
    (by decide +kernel)
  refine ⟨m,v,accepted,loaded,(lookup_inverts_iff m v ⟨8,3,114⟩ shortTokens (cstr "b") loaded array rfl ?_
    (by decide)).mpr (by decide)⟩
  rw [file]
  decide +kernel

def longTokens : List (List UInt8) := [cstr "<s>",cstr "</s>",List.replicate 300 32]
def longFile : MappedFile := ⟨(tokenLayout longTokens).encode,by decide +kernel⟩

theorem longFile_lookup : ∃ m v a, modelLoad longFile = .ok m ∧ vocabLoad m = .ok v ∧
    modelGetArray m "tokenizer.ggml.tokens" = some a ∧ a.len = longTokens.length ∧
    longTokens.flatMap encodeString <+: m.file.bytes.drop a.dataPos ∧ longTokens.Nodup ∧
    ∀ q, ¬LookupInverts v longTokens q := by
  obtain ⟨m,v,accepted,file,loaded,array⟩ := vocab_accepted (f:=longFile) (a:=⟨8,3,114⟩) (by decide +kernel)
    (by decide +kernel)
  have stored : longTokens.flatMap encodeString <+: m.file.bytes.drop 114 := by rw [file]; decide +kernel
  refine ⟨m,v,_,accepted,loaded,array,rfl,stored,by decide +kernel,?_⟩
  intro q inverts
  obtain ⟨k,found,len,_⟩ := inverts.keys 2 _ rfl
  obtain ⟨k',found',len',_⟩ := storedKeys_get m.file longTokens 114 2 _ stored rfl
  rw [loaded_keys loaded array rfl stored,found'] at found
  obtain rfl := Option.some.inj found
  rw [len'] at len
  exact absurd len (by decide +kernel)

end TinyLlama.Vocabulary
