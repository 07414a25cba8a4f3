import TinyLlama.Lib.Pairs
import TinyLlama.Tokenizer.Chatml

-- bpe_encode_chunk's merge loop against the reference algorithm.
namespace TinyLlama.Tokenizer
open Gguf Vocabulary Pairs

-- The tables of a vocabulary; Key.len is a u8.
structure Merging (v : Vocab) : Prop where
  indexed : v.Indexed
  ok : v.merges.Ok
  room : v.merges.used < v.merges.cap
  narrow : ∀ e, Probe.Holds v.merges.entry e → e.key.len < 2^8

-- What the merge table holds for "t1 t2", and the vocabulary for t1 t2, at their full lengths.
def mergeRank (v : Vocab) (a b : Nat) : Option Nat :=
  match v.token[a]?,v.token[b]? with
  | some t₁,some t₂ => (tokenizerTableGet v.merges ⟨t₁.len+1+t₂.len,t₁.bytes++32 :: t₂.bytes⟩).bind fun rank =>
    if rank ≥ 0 then some rank.toNat else none
  | _,_ => none

def joinedToken (v : Vocab) (a b : Nat) : Option Nat :=
  match v.token[a]?,v.token[b]? with
  | some t₁,some t₂ => (tokenizerTableGet v.tokens ⟨t₁.len+t₂.len,t₁.bytes++t₂.bytes⟩).map Int.toNat
  | _,_ => none

def pieceOf (v : Vocab) (id : Nat) : List UInt8 := (v.token[id]?.map Key.bytes).getD []

variable {v : Vocab}

theorem longMerge_absent (good : Merging v) (text : List UInt8) (long : 255 < len) :
    tokenizerTableGet v.merges ⟨len,text⟩ = none := by
  refine Option.eq_none_iff_forall_ne_some.mpr fun rank there => ?_
  obtain ⟨e,held,named,_⟩ := (tokenizerTableGet_iff v.merges good.ok good.room _ rank).mp there
  have short := good.narrow e held
  have same := congrArg Prod.fst named
  simp only [entryName,keyName] at same
  omega

theorem longToken_absent (good : Merging v) (text : List UInt8) (long : 255 < len) :
    tokenizerTableGet v.tokens ⟨len,text⟩ = none := by
  rw [good.indexed.get]
  refine lastPut_absent v.token 0 _ none fun s listed named => ?_
  have short := good.indexed.lens s listed
  have same := congrArg Prod.fst named
  simp only [keyName] at same
  omega

theorem vocabMergeRank_eq (good : Merging v) (a b : Nat) : vocabMergeRank v a b = mergeRank v a b := by
  unfold vocabMergeRank mergeRank
  cases v.token[a]? with
  | none => rfl
  | some t₁ =>
    cases v.token[b]? with
    | none => rfl
    | some t₂ =>
      simp only
      by_cases long : t₁.len+1+t₂.len > 255
      · rw [if_pos long,longMerge_absent good _ long,Option.bind_none]
      · rw [if_neg long,u8_of_lt (by omega)]

theorem token_nonneg (good : Merging v) {k : Key} {id : Int} (hit : tokenizerTableGet v.tokens k = some id) : id ≥ 0 := by
  obtain ⟨i,_,_,_,value⟩ := good.indexed.sound hit
  omega

theorem vocabMergeResult_eq (good : Merging v) (a b : Nat) : vocabMergeResult v a b = joinedToken v a b := by
  unfold vocabMergeResult joinedToken vocabLookupLen
  cases v.token[a]? with
  | none => rfl
  | some t₁ =>
    cases v.token[b]? with
    | none => rfl
    | some t₂ =>
      simp only
      by_cases long : t₁.len+t₂.len > 255
      · rw [if_pos long,longToken_absent good _ long,Option.map_none]
      · rw [if_neg long,u8_of_lt (by omega)]
        cases hit : tokenizerTableGet v.tokens ⟨t₁.len+t₂.len,t₁.bytes++t₂.bytes⟩ with
        | none => rfl
        | some id => rw [Option.bind_some,if_pos (token_nonneg good hit),Option.map_some]

theorem joinedToken_piece (good : Merging v) (a b c : Nat) (joined : joinedToken v a b = some c) :
    pieceOf v c = pieceOf v a++pieceOf v b := by
  have merged := joined
  rw [← vocabMergeResult_eq good] at merged
  unfold joinedToken at joined
  split at joined
  · next t₁ t₂ first' second =>
    obtain ⟨k,listed,bytes⟩ := vocabMergeResult_spells good.indexed first' second merged
    simp only [pieceOf,listed,first',second,Option.map_some,Option.getD_some,bytes]
  · simp at joined

-- The ranks the scan of bpe_encode_chunk can see: it starts from INT32_MAX.
def seenRank (v : Vocab) (a b : Nat) : Option Nat := (vocabMergeRank v a b).filter fun rank => rank < int32Max

theorem seenRank_some {a b rank : Nat} (found : vocabMergeRank v a b = some rank) :
    seenRank v a b = if rank < int32Max then some rank else none := by
  rw [seenRank,found]
  by_cases small : rank < int32Max
  · rw [if_pos small,Option.filter_some,if_pos (decide_eq_true small)]
  · rw [if_neg small,Option.filter_some,if_neg (by simpa using small)]

theorem better_seen (a b i : Nat) (best : Option (Nat × Nat)) (low : ∀ b ∈ best, b.1 < int32Max) :
    (match vocabMergeRank v a b with
      | some rank => if rank < (best.map Prod.fst).getD int32Max then some (rank,i) else best
      | none => best) = Pairs.better (seenRank v a b) i best := by
  cases found : vocabMergeRank v a b with
  | none => simp [seenRank,found,Pairs.better]
  | some rank =>
    rw [seenRank_some found]
    cases best with
    | none => by_cases small : rank < int32Max <;> simp [small,Pairs.better]
    | some best =>
      have below := low best rfl
      by_cases small : rank < int32Max
      · simp [small,Pairs.better]
      · have more : ¬rank < best.1 := by omega
        simp [small,more,Pairs.better]

theorem better_low (a b i : Nat) (best : Option (Nat × Nat)) (low : ∀ b ∈ best, b.1 < int32Max) :
    ∀ b' ∈ Pairs.better (seenRank v a b) i best, b'.1 < int32Max := by
  intro b' member
  unfold Pairs.better at member
  split at member
  · next r found =>
    split at member
    · obtain rfl := Option.some.inj member
      exact of_decide_eq_true (Option.filter_eq_some_iff.mp found).2
    · exact low b' member
  · exact low b' member

theorem bestPair_eq (xs : List Nat) : ∀ i best, (∀ b ∈ best, b.1 < int32Max) →
    bestPair v i xs best = leastFrom (seenRank v) i xs best := by
  induction xs with
  | nil => exact fun _ _ _ => rfl
  | cons a rest ih =>
    intro i best low
    cases rest with
    | nil => rfl
    | cons b rest =>
      have step : bestPair v i (a :: b :: rest) best = bestPair v (i+1) (b :: rest) (Pairs.better (seenRank v a b) i best) := by
        rw [← better_seen a b i best low]
        rfl
      rw [step]
      exact ih (i+1) _ (better_low a b i best low)

theorem mergeAt_eq (xs : List Nat) (i : Nat) : mergeAt v i xs = Pairs.joinAt (vocabMergeResult v) xs i := by
  unfold mergeAt Pairs.joinAt
  cases xs.drop i with
  | nil => rfl
  | cons a tail => cases tail <;> rfl

theorem mergeLoop_merged (fuel : Nat) : ∀ xs : List Nat, xs.length ≤ fuel →
    Merged (seenRank v) (vocabMergeResult v) xs (mergeLoop v fuel xs) := by
  induction fuel with
  | zero =>
    intro xs short
    obtain rfl : xs = [] := List.length_eq_zero_iff.mp (by omega)
    refine .unranked fun i r ranked => ?_
    have inside := ranked.inside
    simp at inside
  | succ fuel ih =>
    intro xs short
    have best : BestBelow (seenRank v) xs xs.length (leastFrom (seenRank v) 0 xs none) := leastFrom_best
    rw [← bestPair_eq xs 0 none (by simp)] at best
    unfold mergeLoop
    cases found : bestPair v 0 xs none with
    | none =>
      rw [found] at best
      exact .unranked fun i r ranked => best i (by have := ranked.inside; omega) r ranked
    | some pair =>
      rw [found] at best
      simp only
      rw [mergeAt_eq]
      cases joined : Pairs.joinAt (vocabMergeResult v) xs pair.2 with
      | none => exact .unjoined best joined
      | some ys =>
        have less := Pairs.joinAt_length joined
        exact .step best joined (ih ys (by omega))

-- The pairs that the scan misses although they have a rank and a token.
def NoLastRank (v : Vocab) : Prop := ∀ a b r, mergeRank v a b = some r → int32Max ≤ r → joinedToken v a b = none

section Visible
variable {xs ys : List Nat} {i r : Nat}

theorem rankAt_seen (good : Merging v) : RankAt (seenRank v) xs i r ↔ RankAt (mergeRank v) xs i r ∧ r < int32Max := by
  simp only [RankAt,seenRank,Option.filter_eq_some_iff,vocabMergeRank_eq good,decide_eq_true_eq]
  constructor
  · rintro ⟨a,b,one,two,ranked,low⟩
    exact ⟨⟨a,b,one,two,ranked⟩,low⟩
  · rintro ⟨⟨a,b,one,two,ranked⟩,low⟩
    exact ⟨a,b,one,two,ranked,low⟩

theorem best_seen (good : Merging v) (best : Best (seenRank v) xs i r) : Best (mergeRank v) xs i r := by
  obtain ⟨low,ranked,least⟩ := best
  have seen := (rankAt_seen good).mp ranked
  refine ⟨low,seen.1,fun j low' r' ranked' => ?_⟩
  by_cases small : r' < int32Max
  · exact least j low' r' ((rankAt_seen good).mpr ⟨ranked',small⟩)
  · exact .inl (by omega)

theorem unjoined_last (last : NoLastRank v) (ranked : RankAt (mergeRank v) xs i r) (high : int32Max ≤ r) :
    Pairs.joinAt (joinedToken v) xs i = none := by
  obtain ⟨a,b,rest,row,value⟩ := ranked.drop
  unfold Pairs.joinAt
  rw [row]
  simp only [last a b r value high,Option.map_none]

theorem merged_seen (good : Merging v) (last : NoLastRank v) (merged : Merged (seenRank v) (joinedToken v) xs ys) :
    Merged (mergeRank v) (joinedToken v) xs ys := by
  induction merged with
  | @unranked xs none' =>
    -- What is ranked at all has the last rank, and its best pair has no token.
    have best : BestBelow (mergeRank v) xs xs.length (leastFrom (mergeRank v) 0 xs none) := leastFrom_best
    cases found : leastFrom (mergeRank v) 0 xs none with
    | none =>
      rw [found] at best
      exact .unranked fun i r ranked => best i (by have := ranked.inside; omega) r ranked
    | some pair =>
      rw [found] at best
      have ranked := best.2.1
      refine .unjoined best (unjoined_last last ranked (not_lt.mp fun low => ?_))
      exact none' _ _ ((rankAt_seen good).mpr ⟨ranked,low⟩)
  | unjoined best none' => exact .unjoined (best_seen good best) none'
  | step best joined _ ih => exact .step (best_seen good best) joined ih

end Visible

theorem merging_bytes (good : Merging v) (table : UInt8 → Int) : Merging {v with byteTokenIds:=table} :=
  ⟨⟨good.indexed.count,good.indexed.lens,good.indexed.ok,good.indexed.room,good.indexed.get⟩,good.ok,good.room,good.narrow⟩

theorem vocabLoad_merging {m : Model} {b : ArrayRef} (loaded : vocabLoad m = .ok v) (bpe : v.tokenizerType = .bpe)
    (array : mergeArray m = .ok b) (small : b.len < 2^32) : Merging v := by
  obtain ⟨keys,read⟩ := vocabLoad_merges loaded bpe array
  have count : mergeCount m b = b.len := if_pos small
  obtain ⟨_,lens,ok,room,get⟩ := loadStrings_ok small read (by rw [count])
  refine ⟨vocabLoad_indexed loaded,ok,room,fun e held => ?_⟩
  have hit := (tokenizerTableGet_iff _ ok room e.key e.value).mpr ⟨e,held,rfl,rfl⟩
  rw [get] at hit
  rcases lastPut_sound keys 0 e.key none e.value hit with ⟨j,s,listed,named,_⟩ | impossible
  · have short := lens s (List.mem_of_getElem? listed)
    have len := congrArg Prod.fst named
    simp only [keyName] at len
    omega
  · simp at impossible

theorem best_pair {a b r : Nat} (ranked : mergeRank v a b = some r) : Best (mergeRank v) [a,b] 0 r := by
  have now : RankAt (mergeRank v) [a,b] 0 r := ⟨a,b,rfl,rfl,ranked⟩
  refine ⟨Nat.two_pos,now,fun j _ r' ranked' => ?_⟩
  have inside := ranked'.inside
  obtain rfl : j = 0 := by simp only [List.length_cons,List.length_nil] at inside; omega
  obtain ⟨a',b',one,two,value⟩ := ranked'
  obtain rfl : a = a' := by simpa using one
  obtain rfl : b = b' := by simpa using two
  rw [ranked] at value
  exact .inr ⟨Option.some.inj value,le_rfl⟩

theorem merged_pair {a b c r : Nat} (ranked : mergeRank v a b = some r) (joined : joinedToken v a b = some c) :
    Merged (mergeRank v) (joinedToken v) [a,b] [c] := by
  have replaced : Pairs.joinAt (joinedToken v) [a,b] 0 = some [c] := by simp [Pairs.joinAt,joined]
  refine .step (best_pair ranked) replaced (.unranked fun i r ranked' => ?_)
  have inside := ranked'.inside
  simp at inside

theorem lastRank_kept {a b r : Nat} (good : Merging v) (ranked : mergeRank v a b = some r) (high : int32Max ≤ r)
    (start : chunk.filterMap (byteSymbol v) = [a,b]) : bpeEncodeChunk v chunk 2 = [a,b] := by
  have rank : vocabMergeRank v a b = some r := (vocabMergeRank_eq good a b).trans ranked
  have unseen : bestPair v 0 [a,b] none = none := by
    simp only [bestPair,rank,Option.map_none,Option.getD_none,if_neg (not_lt.mpr high)]
  unfold bpeEncodeChunk
  rw [start]
  simp only [chunkSymbols,mergeLoop,List.take,List.length_cons,List.length_nil,unseen]

-- Whatever the bytes stand for: the loop is the reference algorithm unless a pair with
-- a token has the rank the scan starts from.
theorem merge_reference_iff (v : Vocab) (good : Merging v) :
    (∀ (table : UInt8 → Int) (chunk : List UInt8) (maxOut : Nat), chunk.length ≤ chunkSymbols →
      ∃ final, (∀ ys, Merged (mergeRank v) (joinedToken v) (chunk.filterMap (byteSymbol {v with byteTokenIds:=table})) ys ↔ ys = final) ∧
        bpeEncodeChunk {v with byteTokenIds:=table} chunk maxOut = final.take maxOut ∧
        final.flatMap (pieceOf v) = (chunk.filterMap (byteSymbol {v with byteTokenIds:=table})).flatMap (pieceOf v) ∧
        ((∀ i r, ¬RankAt (mergeRank v) final i r) ∨
          ∃ i r, Best (mergeRank v) final i r ∧ Pairs.joinAt (joinedToken v) final i = none)) ↔
    NoLastRank v := by
  constructor
  · intro always a b r ranked high
    by_contra some'
    obtain ⟨c,joined⟩ := Option.ne_none_iff_exists'.mp some'
    -- Two bytes that stand for the two tokens.
    have run := always (fun byte => if byte = 0 then a else b) [0,1] 2 (by decide)
    have start : [0,1].filterMap (byteSymbol {v with byteTokenIds:=fun byte => if byte = 0 then (a : Int) else b}) = [a,b] := by
      simp [byteSymbol]
    have kept := lastRank_kept (merging_bytes good fun byte => if byte = 0 then (a : Int) else b) ranked high start
    rw [start] at run
    obtain ⟨final,unique,out,_,_⟩ := run
    obtain rfl : [c] = final := (unique _).mp (merged_pair ranked joined)
    rw [kept] at out
    simp at out
  · intro last table chunk maxOut short
    have good' := merging_bytes good table
    have whole : (chunk.filterMap (byteSymbol {v with byteTokenIds:=table})).take chunkSymbols =
        chunk.filterMap (byteSymbol {v with byteTokenIds:=table}) :=
      List.take_of_length_le ((List.length_filterMap_le _ _).trans short)
    have run := @mergeLoop_merged {v with byteTokenIds:=table} _
      (chunk.filterMap (byteSymbol {v with byteTokenIds:=table})) le_rfl
    have result : vocabMergeResult {v with byteTokenIds:=table} = joinedToken v := funext fun a => funext (vocabMergeResult_eq good' a)
    rw [result] at run
    have merged := merged_seen good last run
    refine ⟨_,fun ys => ⟨fun merged' => merged'.unique merged,fun same => same ▸ merged⟩,?_,
      merged.flatMap (joinedToken_piece good),merged.stops⟩
    unfold bpeEncodeChunk
    rw [whole]

theorem putKeys (keys : List Key) : ∀ (i : Nat) (t : TokenizerTable), t.Ok → t.used+keys.length < t.cap →
    ∃ t' : TokenizerTable, t'.Ok ∧ t'.used < t'.cap ∧ ∀ k, tokenizerTableGet t' k = lastPut keys i k (tokenizerTableGet t k) := by
  induction keys with
  | nil => exact fun i t ok room => ⟨t,ok,by simpa using room,fun _ => rfl⟩
  | cons key rest ih =>
    intro i t ok room
    simp only [List.length_cons] at room
    obtain ⟨t₁,_,ok₁,cap₁,used₁,get₁⟩ := tokenizerTablePut_spec t ok (by omega) key (i32 i)
    obtain ⟨t',ok',room',get'⟩ := ih (i+1) t₁ ok₁ (by omega)
    exact ⟨t',ok',room',fun k => by rw [get',get₁]; rfl⟩

def abTokens : List Key := [⟨1,[97]⟩,⟨1,[98]⟩,⟨2,[97,98]⟩]
def abMerge : Key := ⟨3,[97,32,98]⟩

theorem abVocab (rank : Int) : ∃ v : Vocab, Merging v ∧ v.token = abTokens ∧ v.byteTokenIds = (fun b => if b = 97 then 0 else 1) ∧
    ∀ k, tokenizerTableGet v.merges k = if keyName k = keyName abMerge then some rank else none := by
  obtain ⟨fresh,_,ok,unused,room,empty⟩ := tokenizerTableInit_spec 3 (by decide)
  obtain ⟨tokens,okTokens,roomTokens,getTokens⟩ := putKeys abTokens 0 fresh ok (by rw [unused]; simpa [abTokens] using room)
  obtain ⟨merges,_,okMerges,cap,used,getMerges⟩ := tokenizerTablePut_spec fresh ok (by omega) abMerge rank
  have roomMerges : merges.used < merges.cap := by omega
  have gets : ∀ k, tokenizerTableGet merges k = if keyName k = keyName abMerge then some rank else none := fun k => by
    rw [getMerges,empty]
  have count : abTokens.length ≤ int32Max := by decide
  have lens : ∀ k ∈ abTokens, k.len < 2^8 := by decide
  refine ⟨⟨abTokens,none,0,0,0,0,0,0,0,0,0,0,0,fun b => if b = 97 then 0 else 1,.bpe,tokens,merges⟩,⟨⟨count,lens,okTokens,
    roomTokens,fun k => by rw [getTokens,empty]⟩,okMerges,roomMerges,fun e held => ?_⟩,rfl,rfl,gets⟩
  have hit := (tokenizerTableGet_iff merges okMerges roomMerges e.key e.value).mpr ⟨e,held,rfl,rfl⟩
  rw [gets] at hit
  by_cases same : keyName e.key = keyName abMerge
  · have len := congrArg Prod.fst same
    simp only [keyName,abMerge] at len
    omega
  · simp [same] at hit

theorem abVocab_pair {rank : Nat} (good : Merging v) (tokens : v.token = abTokens)
    (gets : ∀ k, tokenizerTableGet v.merges k = if keyName k = keyName abMerge then some (rank : Int) else none) :
    mergeRank v 0 1 = some rank ∧ joinedToken v 0 1 = some 2 ∧ ∀ a b r, mergeRank v a b = some r → r = rank := by
  refine ⟨?_,?_,fun a b r ranked => ?_⟩
  · simp [mergeRank,tokens,abTokens,gets,keyName,Key.bytes,abMerge]
  · have hit : tokenizerTableGet v.tokens ⟨2,[97,98]⟩ = some 2 := by
      rw [good.indexed.get,tokens]
      rfl
    simp [joinedToken,tokens,abTokens,Key.bytes,hit]
  · unfold mergeRank at ranked
    split at ranked
    · obtain ⟨value,hit,positive⟩ := Option.bind_eq_some_iff.mp ranked
      rw [gets] at hit
      split at hit
      · obtain rfl := Option.some.inj hit
        simpa using positive.symm
      · simp at hit
    · simp at ranked

def abLayout : Layout :=
  ⟨[⟨cstr "tokenizer.ggml.model",.string (cstr "gpt2")⟩,⟨cstr "tokenizer.ggml.merges",.array valueString [.string (cstr "a b")]⟩,
    ⟨cstr "tokenizer.ggml.tokens",.array valueString ([cstr "<|im_start|>",cstr "<|im_end|>",cstr "a",cstr "b",cstr "ab"].map Value.string)⟩],
   [⟨cstr "token_embd.weight",[1],0,0⟩],List.replicate 64 0⟩

def abFile : MappedFile := ⟨abLayout.encode,by decide +kernel⟩

theorem abFile_merged : ∃ m v,modelLoad abFile = .ok m ∧ vocabLoad m = .ok v ∧ Merging v ∧ bpeEncodeChunk v [97,98] 4 = [4] := by
  obtain ⟨m,v,accepted,loaded,facts⟩ := vocab_runs abFile
    (fun v => (v.tokenizerType == .bpe,[97,98].filterMap (byteSymbol v),[mergeRank v 2 3,joinedToken v 2 3,some v.token.length],
      (List.range 5).all fun a => (List.range 5).all fun b => (mergeRank v a b).all (· == 0)))
    (true,[2,3],[some 0,some 4,some 5],true) (by decide +kernel)
  simp only [Prod.mk.injEq,beq_iff_eq,List.cons.injEq,Option.some.injEq,and_true] at facts
  obtain ⟨bpe,start,⟨ranked,joined,count⟩,ranks⟩ := facts
  obtain ⟨b,array,one⟩ : ∃ b,mergeArray m = .ok b ∧ b.len = 1 := by
    have length : (modelLoad abFile >>= mergeArray).toOption.map ArrayRef.len = some 1 := by decide +kernel
    cases found : mergeArray m with
    | error e => simp [accepted,found,Bind.bind,Except.bind,Except.toOption] at length
    | ok b => exact ⟨b,rfl,by simpa [accepted,found,Bind.bind,Except.bind,Except.toOption] using length⟩
  have good := vocabLoad_merging loaded bpe array (by omega)
  have last : NoLastRank v := by
    intro i j r ranked' high
    have inside : i < 5 ∧ j < 5 := by
      unfold mergeRank at ranked'
      split at ranked'
      · next one two =>
        rw [← count]
        exact ⟨(List.getElem?_eq_some_iff.mp one).1,(List.getElem?_eq_some_iff.mp two).1⟩
      · cases ranked'
    have zero := List.all_eq_true.mp (List.all_eq_true.mp ranks i (List.mem_range.mpr inside.1)) j (List.mem_range.mpr inside.2)
    rw [ranked'] at zero
    have zero' : r = 0 := by simpa using zero
    simp only [int32Max] at high
    omega
  obtain ⟨final,unique,out,_⟩ := (merge_reference_iff v good).mpr last v.byteTokenIds [97,98] 4 (by decide)
  have same : final = [4] := ((unique [4]).mp (start ▸ merged_pair ranked joined)).symm
  exact ⟨m,v,accepted,loaded,good,by rw [same] at out; exact out⟩

-- A merge of rank 2^31-1 is never made.
theorem lastMerge_missed : ¬∀ v, Merging v → ∀ (chunk : List UInt8) (maxOut : Nat), chunk.length ≤ chunkSymbols →
    ∃ final, Merged (mergeRank v) (joinedToken v) (chunk.filterMap (byteSymbol v)) final ∧
      bpeEncodeChunk v chunk maxOut = final.take maxOut := by
  intro always
  obtain ⟨v,good,tokens,bytes,gets⟩ := abVocab ((2^31-1 : Nat) : Int)
  obtain ⟨ranked,joined,_⟩ := abVocab_pair good tokens gets
  have start : [97,98].filterMap (byteSymbol v) = [0,1] := by simp [byteSymbol,bytes]
  obtain ⟨final,merged,out⟩ := always v good [97,98] 2 (by decide)
  rw [start] at merged
  obtain rfl := merged.unique (merged_pair ranked joined)
  rw [lastRank_kept good ranked le_rfl start] at out
  simp at out

end TinyLlama.Tokenizer
