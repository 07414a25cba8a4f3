import TinyLlama.Tokenizer.Prompts
import TinyLlama.Lib.Sweep
import Mathlib.Data.List.GetD

-- tokenizer.c: the encoders and the builders store by store, into the caller's buffer.
namespace TinyLlama.Tokenizer
open Vocabulary Sweep

-- `n` tokens are written, from tokens+start on.
structure Buffer where
  n : Nat
  tokens : Nat → Nat

-- if (n < max_tokens) tokens[n++] = word
def putToken (start : Nat) (maxTokens : Int) (b : Buffer) (word : Nat) : Buffer :=
  if b.n < maxTokens then ⟨b.n+1,Function.update b.tokens (start+b.n) word⟩ else b

-- The count is cut, then the symbols are copied. No caller has a negative limit.
def tokenizeBpeInto (v : Vocab) (text : List UInt8) (start : Nat) (maxTokens : Int) (tokens : Nat → Nat) : Buffer :=
  let symbols := bpeLoop v text.length text []
  let n := if symbols.length > maxTokens then maxTokens.toNat else symbols.length
  ⟨n,splice tokens start n fun i => symbols.getD i 0⟩

def tokenizeSpmInto (v : Vocab) (text : List UInt8) (start : Nat) (maxTokens : Int) (addPrefixSpace : Bool) (tokens : Nat → Nat) :
    Buffer :=
  match v.scores with
  | none => tokenizeBpeInto v text start maxTokens tokens
  | some scores =>
    let norm := normalize text addPrefixSpace
    (spmSymbols v scores norm).foldl (fun b s => (emit v norm s).foldl (putToken start maxTokens) b) ⟨0,tokens⟩

def textInto (v : Vocab) (text : List UInt8) (start : Nat) (maxTokens : Int) (space : Bool) (tokens : Nat → Nat) : Buffer :=
  if v.tokenizerType = .spm then tokenizeSpmInto v text start maxTokens space tokens
  else tokenizeBpeInto v text start maxTokens tokens

-- if (n < max_tokens) n += tokenize(v, txt, strlen(txt), tokens + n, max_tokens - n)
def addText (v : Vocab) (text : List UInt8) (space : Bool) (maxTokens : Int) (b : Buffer) : Buffer :=
  if b.n < maxTokens then
    let added := textInto v text b.n (maxTokens-b.n) space b.tokens
    ⟨b.n+added.n,added.tokens⟩
  else b

def Part.store (v : Vocab) (maxTokens : Int) (b : Buffer) : Part → Buffer
  | .id word => putToken 0 maxTokens b (idWord word)
  | .text txt => addText v (cText txt) true maxTokens b
  | .fragment txt space => addText v (cText txt) space maxTokens b

def layOutInto (v : Vocab) (maxTokens : Int) (parts : List Part) (tokens : Nat → Nat) : Buffer :=
  parts.foldl (Part.store v maxTokens) ⟨0,tokens⟩

-- tokens[(*n)++] = word
def storeToken (b : Buffer) (word : Nat) : Buffer := ⟨b.n+1,Function.update b.tokens b.n word⟩

def chatmlAddReasoningInto (v : Vocab) (noThink : Bool) (maxTokens : Int) (b : Buffer) : Buffer :=
  if b.n+(reasoning v noThink).length > maxTokens then b else (reasoning v noThink).foldl storeToken b

def Template.parts (v : Vocab) (userMsg : List UInt8) (sysMsg : Option (List UInt8)) : Template → Option (List Part)
  | .chatmlPrompt => if HasChatml v then some (chatmlParts v userMsg sysMsg) else none
  | .chatmlContinuation => if HasChatml v then some ([.id (imEnd v),.id (newline v)]++chatmlTurn v userMsg) else none
  | .llama3Prompt =>
    if llama3Markers v then
      some (bosPart v++llama3Header v "system"++((given sysMsg).map Part.text).toList++[.id (eot v)]++
        llama3Header v "user"++[.text userMsg,.id (eot v)]++llama3Header v "assistant")
    else none
  | .llama3Continuation =>
    if llama3Markers v then
      some ([.id (eot v)]++llama3Header v "user"++[.text userMsg,.id (eot v)]++llama3Header v "assistant")
    else none
  | .gemmaPrompt =>
    if HasTurns v then
      some (bosPart v++gemmaOpen v "user"++((given sysMsg).map gemmaSystem).getD []++[.fragment userMsg false]++
        gemmaClose v++gemmaOpen v "model")
    else none
  | .gemmaContinuation =>
    if HasTurns v then
      some (gemmaClose v++gemmaOpen v "user"++[.fragment userMsg false]++gemmaClose v++gemmaOpen v "model")
    else none

-- Only ChatML closes with a reasoning marker.
def Template.isChatml : Template → Bool
  | .chatmlPrompt | .chatmlContinuation => true
  | _ => false

def Template.store (v : Vocab) (noThink : Bool) (userMsg : List UInt8) (sysMsg : Option (List UInt8)) (maxTokens : Int)
    (tokens : Nat → Nat) (t : Template) : Buffer :=
  match t.parts v userMsg sysMsg with
  | none => ⟨0,tokens⟩
  | some parts =>
    let b := layOutInto v maxTokens parts tokens
    if t.isChatml then chatmlAddReasoningInto v noThink maxTokens b else b

-- The buffer holds xs from tokens+start on, and otherwise what it held before.
structure Filled (old : Nat → Nat) (start : Nat) (xs : List Nat) (b : Buffer) : Prop where
  n : b.n = xs.length
  tokens : b.tokens = splice old start xs.length fun i => xs.getD i 0

section stores
variable {v : Vocab} {old : Nat → Nat} {start : Nat} {xs ys : List Nat} {b : Buffer}

theorem filled_nil (old : Nat → Nat) (start : Nat) : Filled old start [] ⟨0,old⟩ := ⟨rfl,(splice_none old start _).symm⟩

theorem splice_list (old : Nat → Nat) (start : Nat) (xs ys : List Nat) :
    splice (splice old start xs.length fun i => xs.getD i 0) (start+xs.length) ys.length (fun i => ys.getD i 0) =
      splice old start (xs++ys).length fun i => (xs++ys).getD i 0 := by
  have front : splice old start xs.length (fun i => xs.getD i 0) = splice old start xs.length fun i => (xs++ys).getD i 0 :=
    splice_congr fun i below => (List.getD_append xs ys 0 i below).symm
  have back : ∀ i < ys.length,ys.getD i 0 = (xs++ys).getD (xs.length+i) 0 := fun i _ => by
    rw [List.getD_append_right _ _ _ _ (Nat.le_add_right _ _),Nat.add_sub_cancel_left]
  rw [front,splice_congr back,splice_append,List.length_append]

theorem Filled.append (filled : Filled old start xs b) (more : Filled b.tokens (start+xs.length) ys b') :
    Filled old start (xs++ys) ⟨b.n+b'.n,b'.tokens⟩ := by
  obtain ⟨n,tokens⟩ := filled
  obtain ⟨n',tokens'⟩ := more
  refine ⟨?_,?_⟩
  · rw [n,n',List.length_append]
  · change b'.tokens = _
    rw [tokens',tokens,splice_list]

theorem update_filled (filled : Filled old start xs b) (word : Nat) :
    Filled old start (xs++[word]) ⟨b.n+1,Function.update b.tokens (start+b.n) word⟩ := by
  have one' : Filled b.tokens (start+xs.length) [word] ⟨1,Function.update b.tokens (start+b.n) word⟩ := by
    refine ⟨rfl,?_⟩
    funext q
    rw [filled.n]
    change Function.update b.tokens (start+xs.length) word q = _
    rw [Function.update_apply]
    unfold splice
    by_cases here : q = start+xs.length
    · rw [if_pos here,if_pos (by simp [here]),here]
      simp
    · rw [if_neg here,if_neg (by simp only [List.length_singleton]; omega)]
  exact filled.append one'

theorem put_filled {maxTokens : Int} (filled : Filled old start (ys.take maxTokens.toNat) b) (word : Nat) :
    Filled old start ((ys++[word]).take maxTokens.toNat) (putToken start maxTokens b word) := by
  have count := filled.n
  rw [List.length_take] at count
  unfold putToken
  by_cases room : b.n < maxTokens
  · have short : ys.length < maxTokens.toNat := by omega
    rw [if_pos room,List.take_of_length_le (by simp only [List.length_append,List.length_singleton]; omega)]
    rw [List.take_of_length_le short.le] at filled
    exact update_filled filled word
  · rw [if_neg room,List.take_append_of_le_length (by omega)]
    exact filled

theorem puts_filled {maxTokens : Int} (words : List Nat) : ∀ {ys : List Nat} {b : Buffer},
    Filled old start (ys.take maxTokens.toNat) b →
      Filled old start ((ys++words).take maxTokens.toNat) (words.foldl (putToken start maxTokens) b) := by
  induction words with
  | nil =>
    intro ys b filled
    rwa [List.append_nil]
  | cons word words ih =>
    intro ys b filled
    rw [List.foldl_cons,← List.singleton_append,← List.append_assoc]
    exact ih (put_filled filled word)

theorem tokenizeBpeInto_filled (text : List UInt8) (maxTokens : Int) :
    Filled old start ((bpeTokens v text).take maxTokens.toNat) (tokenizeBpeInto v text start maxTokens old) := by
  have count : (if (bpeTokens v text).length > maxTokens then maxTokens.toNat else (bpeTokens v text).length) =
      ((bpeTokens v text).take maxTokens.toNat).length := by
    rw [List.length_take]
    split <;> omega
  refine ⟨count,?_⟩
  unfold tokenizeBpeInto
  dsimp only
  rw [← bpeTokens,count]
  refine splice_congr fun i below => ?_
  rw [List.length_take] at below
  rw [List.getD_eq_getElem?_getD,List.getD_eq_getElem?_getD,List.getElem?_take_of_lt (by omega)]

theorem symbols_filled {maxTokens : Int} (norm : List UInt8) (syms : List SpmSym) : ∀ {ys : List Nat} {b : Buffer},
    Filled old start (ys.take maxTokens.toNat) b →
      Filled old start ((ys++syms.flatMap (emit v norm)).take maxTokens.toNat)
        (syms.foldl (fun b s => (emit v norm s).foldl (putToken start maxTokens) b) b) := by
  induction syms with
  | nil =>
    intro ys b filled
    rwa [List.flatMap_nil,List.append_nil]
  | cons s syms ih =>
    intro ys b filled
    rw [List.foldl_cons,List.flatMap_cons,← List.append_assoc]
    exact ih (puts_filled _ filled)

theorem textInto_filled (v : Vocab) (old : Nat → Nat) (start : Nat) (text : List UInt8) (maxTokens : Int) (space : Bool) :
    Filled old start ((textTokens v text space).take maxTokens.toNat) (textInto v text start maxTokens space old) := by
  unfold textInto textTokens
  split
  · unfold tokenizeSpmInto spmIds
    cases v.scores with
    | none => exact tokenizeBpeInto_filled text maxTokens
    | some scores =>
      have begun : Filled old start ([].take maxTokens.toNat) ⟨0,old⟩ := by
        rw [List.take_nil]
        exact filled_nil old start
      exact symbols_filled _ _ begun
  · exact tokenizeBpeInto_filled text maxTokens

theorem addText_filled {maxTokens : Int} (filled : Filled old 0 (ys.take maxTokens.toNat) b) (text : List UInt8) (space : Bool) :
    Filled old 0 ((ys++textTokens v text space).take maxTokens.toNat) (addText v text space maxTokens b) := by
  have count := filled.n
  rw [List.length_take] at count
  unfold addText
  by_cases room : b.n < maxTokens
  · have kept : ys.take maxTokens.toNat = ys := List.take_of_length_le (by omega)
    have left' : (maxTokens-b.n).toNat = maxTokens.toNat-ys.length := by omega
    have more := textInto_filled v b.tokens b.n text (maxTokens-b.n) space
    rw [kept] at filled
    rw [if_pos room,List.take_append,kept,← left']
    rw [filled.n,← Nat.zero_add ys.length] at more
    rw [filled.n]
    have both := filled.append more
    rw [filled.n,Nat.zero_add] at both
    exact both
  · rw [if_neg room,List.take_append_of_le_length (by omega)]
    exact filled

theorem store_filled {maxTokens : Int} (filled : Filled old 0 (ys.take maxTokens.toNat) b) (part : Part) :
    Filled old 0 ((ys++part.tokens v).take maxTokens.toNat) (part.store v maxTokens b) := by
  cases part with
  | id word => exact put_filled filled (idWord word)
  | text txt => exact addText_filled filled (cText txt) true
  | fragment txt space => exact addText_filled filled (cText txt) space

theorem stores_filled {maxTokens : Int} (parts : List Part) : ∀ {ys : List Nat} {b : Buffer},
    Filled old 0 (ys.take maxTokens.toNat) b →
      Filled old 0 ((ys++parts.flatMap (Part.tokens v)).take maxTokens.toNat) (parts.foldl (Part.store v maxTokens) b) := by
  induction parts with
  | nil =>
    intro ys b filled
    rwa [List.flatMap_nil,List.append_nil]
  | cons part parts ih =>
    intro ys b filled
    rw [List.foldl_cons,List.flatMap_cons,← List.append_assoc]
    exact ih (store_filled filled part)

theorem layOutInto_filled (maxTokens : Int) (parts : List Part) (old : Nat → Nat) :
    Filled old 0 ((parts.flatMap (Part.tokens v)).take maxTokens.toNat) (layOutInto v maxTokens parts old) := by
  have begun : Filled old 0 ([].take maxTokens.toNat) ⟨0,old⟩ := by
    rw [List.take_nil]
    exact filled_nil old 0
  exact stores_filled parts begun

theorem appends_filled (words : List Nat) : ∀ {xs : List Nat} {b : Buffer}, Filled old 0 xs b →
    Filled old 0 (xs++words) (words.foldl storeToken b) := by
  induction words with
  | nil =>
    intro xs b filled
    rwa [List.append_nil]
  | cons word words ih =>
    intro xs b filled
    rw [List.foldl_cons,← List.singleton_append,← List.append_assoc]
    have next := update_filled filled word
    rw [Nat.zero_add] at next
    exact ih next

theorem chatmlAddReasoningInto_filled {maxTokens : Int} (filled : Filled old 0 (ys.take maxTokens.toNat) b) (noThink : Bool) :
    Filled old 0 (chatmlAddReasoning v noThink maxTokens.toNat (ys.take maxTokens.toNat))
      (chatmlAddReasoningInto v noThink maxTokens b) := by
  have count := filled.n
  unfold chatmlAddReasoning chatmlAddReasoningInto
  rw [← count]
  by_cases full : b.n+(reasoning v noThink).length > maxTokens.toNat
  · rw [if_pos full]
    by_cases guarded : (b.n : Int)+(reasoning v noThink).length > maxTokens
    · rw [if_pos guarded]
      exact filled
    · omega
  · rw [if_neg full]
    by_cases guarded : (b.n : Int)+(reasoning v noThink).length > maxTokens
    · have none' : reasoning v noThink = [] := List.eq_nil_of_length_eq_zero (by omega)
      rw [if_pos guarded,none',List.append_nil]
      exact filled
    · rw [if_neg guarded]
      exact appends_filled _ filled

end stores

section templates
variable (v : Vocab) (noThink : Bool) (userMsg : List UInt8) (sysMsg : Option (List UInt8))

-- All that a builder lays down where there is room for it.
def Template.whole (t : Template) : List Nat :=
  match t.parts v userMsg sysMsg with
  | none => []
  | some parts => parts.flatMap (Part.tokens v)++if t.isChatml then reasoning v noThink else []

theorem Template.run_parts (t : Template) (maxTokens : Nat) : t.run v noThink userMsg sysMsg maxTokens =
    match t.parts v userMsg sysMsg with
    | none => []
    | some parts =>
      if t.isChatml then chatmlAddReasoning v noThink maxTokens (layOut v maxTokens parts) else layOut v maxTokens parts := by
  cases t <;>
    simp only [run,parts,isChatml,Tokenizer.chatmlPrompt,Tokenizer.chatmlContinuation,llama3ChatPrompt,llama3ChatContinuation,
      gemmaChatPrompt,gemmaChatContinuation]
  all_goals split <;> simp_all

theorem Template.run_cut (t : Template) (maxTokens : Nat) :
    t.run v noThink userMsg sysMsg maxTokens <+: t.whole v noThink userMsg sysMsg ∧
      (t.run v noThink userMsg sysMsg maxTokens).length ≤ maxTokens ∧
      ((t.whole v noThink userMsg sysMsg).length ≤ maxTokens →
        t.run v noThink userMsg sysMsg maxTokens = t.whole v noThink userMsg sysMsg) := by
  rw [t.run_parts,whole]
  cases t.parts v userMsg sysMsg with
  | none => exact ⟨List.prefix_rfl,Nat.zero_le _,fun _ => rfl⟩
  | some parts =>
    dsimp only
    rw [layOut_eq]
    cases t.isChatml with
    | false =>
      rw [if_neg Bool.false_ne_true,if_neg Bool.false_ne_true,List.append_nil]
      exact ⟨List.take_prefix _ _,List.length_take_le _ _,List.take_of_length_le⟩
    | true =>
      rw [if_pos rfl,if_pos rfl,chatmlAddReasoning_cut]
      split
      · next fits => exact ⟨List.prefix_rfl,fits,fun _ => rfl⟩
      · next tight =>
        exact ⟨(List.take_prefix _ _).trans (List.prefix_append _ _),List.length_take_le _ _,fun fits => absurd fits tight⟩

theorem Template.store_filled (t : Template) (maxTokens : Int) (old : Nat → Nat) :
    Filled old 0 (t.run v noThink userMsg sysMsg maxTokens.toNat) (t.store v noThink userMsg sysMsg maxTokens old) := by
  rw [t.run_parts,store]
  cases t.parts v userMsg sysMsg with
  | none => exact filled_nil old 0
  | some parts =>
    dsimp only
    rw [layOut_eq]
    have laid := layOutInto_filled (v:=v) maxTokens parts old
    cases t.isChatml with
    | false => exact laid
    | true => exact chatmlAddReasoningInto_filled laid noThink

end templates

-- The tokens that a builder returns.
def Buffer.written (b : Buffer) : List Nat := (List.range b.n).map b.tokens

theorem Filled.written (filled : Filled old 0 xs b) : b.written = xs := by
  obtain ⟨n,tokens⟩ := filled
  unfold Buffer.written
  rw [n,tokens]
  refine List.ext_getElem (by simp) fun i below below' => ?_
  rw [List.getElem_map,List.getElem_range,splice,if_pos (by omega),Nat.sub_zero,List.getD_eq_getElem _ _ below']

theorem Filled.untouched (filled : Filled old 0 xs b) (behind : b.n ≤ q) : b.tokens q = old q := by
  obtain ⟨n,tokens⟩ := filled
  rw [tokens,splice,if_neg (by omega)]

-- With max_tokens from the length of `whole` on there is no limit.
theorem prompt_bounded (t : Template) (v : Vocab) (noThink : Bool) (userMsg : List UInt8) (sysMsg : Option (List UInt8)) :
    ∃ whole : List Nat,
      (∀ maxTokens : Int, whole.length ≤ maxTokens → ∀ old, (t.store v noThink userMsg sysMsg maxTokens old).written = whole) ∧
      ∀ (maxTokens : Int) (old : Nat → Nat),
        (t.store v noThink userMsg sysMsg maxTokens old).n ≤ maxTokens.toNat ∧
        (∀ q, (t.store v noThink userMsg sysMsg maxTokens old).n ≤ q →
          (t.store v noThink userMsg sysMsg maxTokens old).tokens q = old q) ∧
        (t.store v noThink userMsg sysMsg maxTokens old).written <+: whole := by
  refine ⟨t.whole v noThink userMsg sysMsg,fun maxTokens room old => ?_,fun maxTokens old => ?_⟩
  · rw [(t.store_filled v noThink userMsg sysMsg maxTokens old).written]
    exact (t.run_cut v noThink userMsg sysMsg maxTokens.toNat).2.2 (by omega)
  · have filled := t.store_filled v noThink userMsg sysMsg maxTokens old
    obtain ⟨front,short,_⟩ := t.run_cut v noThink userMsg sysMsg maxTokens.toNat
    refine ⟨?_,fun q behind => filled.untouched behind,?_⟩
    · rw [filled.n]
      exact short
    · rw [filled.written]
      exact front

end TinyLlama.Tokenizer
