import TinyLlama.Tokenizer.Spm
import TinyLlama.Vocabulary.Lookup

-- tokenizer.c: the chat templates.
namespace TinyLlama.Tokenizer
open Vocabulary

-- core.c, vocab_lookup.
def vocabLookup (v : Vocab) (text : String) : Int := (vocabTryLookup v.tokens (utf8Bytes text)).getD vocabIdNone

def tokenize (v : Vocab) (text : List UInt8) (maxTokens : Nat) : List Nat :=
  if v.tokenizerType = .spm then tokenizeSpm v text maxTokens true else tokenizeBpe v text maxTokens

def gemmaText (v : Vocab) (text : List UInt8) (maxOut : Nat) (space : Bool) : List Nat :=
  if v.tokenizerType = .spm then tokenizeSpm v text maxOut space else tokenizeBpe v text maxOut

-- The bytes of a buffer that strlen counts.
def cText (buf : List UInt8) : List UInt8 := buf.takeWhile (· ≠ 0)

def idWord (id : Int) : Nat := (id%2^32).toNat

-- ADD(id), ADD_TEXT(txt) and Gemma's ADD_TEXT(txt, sp).
inductive Part where
  | id (word : Int)
  | text (txt : List UInt8)
  | fragment (txt : List UInt8) (space : Bool)

def Part.encode (v : Vocab) (room : Nat) : Part → List Nat
  | .id word => [idWord word]
  | .text txt => tokenize v (cText txt) room
  | .fragment txt space => gemmaText v (cText txt) room space

def addPart (v : Vocab) (maxTokens : Nat) (tokens : List Nat) (part : Part) : List Nat :=
  if tokens.length < maxTokens then tokens++part.encode v (maxTokens-tokens.length) else tokens

def layOut (v : Vocab) (maxTokens : Nat) (parts : List Part) : List Nat := parts.foldl (addPart v maxTokens) []

-- An id of the vocabulary, or what a lookup of its piece gives.
def idOr (v : Vocab) (id : Int) (text : String) : Int := if id = vocabIdNone then vocabLookup v text else id

def imStart (v : Vocab) : Int := idOr v v.imStartId "<|im_start|>"
def imEnd (v : Vocab) : Int := idOr v v.imEndId "<|im_end|>"
def thinkStart (v : Vocab) : Int := idOr v v.thinkStartId "<think>"
def thinkEnd (v : Vocab) : Int := idOr v v.thinkEndId "</think>"
def newline (v : Vocab) : Int := v.byteTokenIds 10

-- The reasoning marker of an assistant turn, empty where the vocabulary lacks it.
def reasoning (v : Vocab) (noThink : Bool) : List Nat :=
  let start := idWord (thinkStart v)
  let stop := idWord (thinkEnd v)
  let nl := idWord (newline v)
  if thinkStart v = vocabIdNone ∨ newline v = vocabIdNone then []
  else if !noThink then [start,nl]
  else if thinkEnd v = vocabIdNone then []
  else [start,nl,nl,stop,nl,nl]

def chatmlAddReasoning (v : Vocab) (noThink : Bool) (maxTokens : Nat) (tokens : List Nat) : List Nat :=
  if tokens.length+(reasoning v noThink).length > maxTokens then tokens else tokens++reasoning v noThink

def chatmlSystem (v : Vocab) (sysMsg : List UInt8) : List Part :=
  [.id (imStart v),.text (cstr "system"),.id (newline v),.text sysMsg,.id (imEnd v),.id (newline v)]

def chatmlTurn (v : Vocab) (userMsg : List UInt8) : List Part :=
  [.id (imStart v),.text (cstr "user"),.id (newline v),.text userMsg,.id (imEnd v),.id (newline v),
   .id (imStart v),.text (cstr "assistant"),.id (newline v)]

-- sys_msg && sys_msg[0]
def given (sysMsg : Option (List UInt8)) : Option (List UInt8) := sysMsg.filter fun s => cText s ≠ []

def chatmlParts (v : Vocab) (userMsg : List UInt8) (sysMsg : Option (List UInt8)) : List Part :=
  ((given sysMsg).map (chatmlSystem v)).getD []++chatmlTurn v userMsg

def HasChatml (v : Vocab) : Prop := imStart v ≠ vocabIdNone ∧ imEnd v ≠ vocabIdNone

instance (v : Vocab) : Decidable (HasChatml v) := inferInstanceAs (Decidable (_ ∧ _))

def chatmlPrompt (v : Vocab) (noThink : Bool) (userMsg : List UInt8) (sysMsg : Option (List UInt8)) (maxTokens : Nat) :
    List Nat :=
  if HasChatml v then chatmlAddReasoning v noThink maxTokens (layOut v maxTokens (chatmlParts v userMsg sysMsg)) else []

def chatmlContinuation (v : Vocab) (noThink : Bool) (userMsg : List UInt8) (maxTokens : Nat) : List Nat :=
  if HasChatml v then
    chatmlAddReasoning v noThink maxTokens
      (layOut v maxTokens ([.id (imEnd v),.id (newline v)]++chatmlTurn v userMsg))
  else []

def startHeader (v : Vocab) : Int := vocabLookup v "<|start_header_id|>"
def endHeader (v : Vocab) : Int := vocabLookup v "<|end_header_id|>"
def eot (v : Vocab) : Int := vocabLookup v "<|eot_id|>"

def llama3Markers (v : Vocab) : Prop := startHeader v ≠ vocabIdNone ∧ endHeader v ≠ vocabIdNone ∧ eot v ≠ vocabIdNone

instance (v : Vocab) : Decidable (llama3Markers v) := inferInstanceAs (Decidable (_ ∧ _))

def llama3Header (v : Vocab) (role : String) : List Part :=
  [.id (startHeader v),.text (cstr role),.id (endHeader v),.id (newline v),.id (newline v)]

-- if (v->bos_id != (i32)VOCAB_ID_NONE) ADD(v->bos_id)
def bosPart (v : Vocab) : List Part := if v.bosId ≠ vocabIdNone then [.id v.bosId] else []

def llama3ChatPrompt (v : Vocab) (userMsg : List UInt8) (sysMsg : Option (List UInt8)) (maxTokens : Nat) : List Nat :=
  if llama3Markers v then
    layOut v maxTokens (bosPart v++llama3Header v "system"++((given sysMsg).map Part.text).toList++[.id (eot v)]++
      llama3Header v "user"++[.text userMsg,.id (eot v)]++llama3Header v "assistant")
  else []

def llama3ChatContinuation (v : Vocab) (userMsg : List UInt8) (maxTokens : Nat) : List Nat :=
  if llama3Markers v then
    layOut v maxTokens ([.id (eot v)]++llama3Header v "user"++[.text userMsg,.id (eot v)]++llama3Header v "assistant")
  else []

def HasTurns (v : Vocab) : Prop := v.startOfTurnId ≠ vocabIdNone ∧ v.endOfTurnId ≠ vocabIdNone

instance (v : Vocab) : Decidable (HasTurns v) := inferInstanceAs (Decidable (_ ∧ _))

def gemmaOpen (v : Vocab) (role : String) : List Part :=
  [.id v.startOfTurnId,.fragment (cstr role) true,.fragment (cstr "\n") false]

def gemmaClose (v : Vocab) : List Part := [.id v.endOfTurnId,.fragment (cstr "\n") false]

def gemmaSystem (sysMsg : List UInt8) : List Part := [.fragment sysMsg false,.fragment (cstr "\n\n") false]

def gemmaChatPrompt (v : Vocab) (userMsg : List UInt8) (sysMsg : Option (List UInt8)) (maxTokens : Nat) : List Nat :=
  if HasTurns v then
    layOut v maxTokens (bosPart v++gemmaOpen v "user"++((given sysMsg).map gemmaSystem).getD []++
      [.fragment userMsg false]++gemmaClose v++gemmaOpen v "model")
  else []

def gemmaChatContinuation (v : Vocab) (userMsg : List UInt8) (maxTokens : Nat) : List Nat :=
  if HasTurns v then
    layOut v maxTokens (gemmaClose v++gemmaOpen v "user"++[.fragment userMsg false]++gemmaClose v++gemmaOpen v "model")
  else []

-- The tokens of a text that no caller's limit cuts.
def bpeTokens (v : Vocab) (text : List UInt8) : List Nat := bpeLoop v text.length text []

def spmIds (v : Vocab) (text : List UInt8) (space : Bool) : List Nat :=
  match v.scores with
  | none => bpeTokens v text
  | some scores => (spmSymbols v scores (normalize text space)).flatMap (emit v (normalize text space))

def textTokens (v : Vocab) (text : List UInt8) (space : Bool) : List Nat :=
  if v.tokenizerType = .spm then spmIds v text space else bpeTokens v text

def Part.tokens (v : Vocab) : Part → List Nat
  | .id word => [idWord word]
  | .text txt => textTokens v (cText txt) true
  | .fragment txt space => textTokens v (cText txt) space

theorem gemmaText_eq (v : Vocab) (text : List UInt8) (maxOut : Nat) (space : Bool) :
    gemmaText v text maxOut space = (textTokens v text space).take maxOut := by
  unfold gemmaText textTokens
  split
  · unfold tokenizeSpm spmIds
    cases v.scores <;> rfl
  · rfl

theorem tokenize_eq (v : Vocab) (text : List UInt8) (maxTokens : Nat) :
    tokenize v text maxTokens = (textTokens v text true).take maxTokens := gemmaText_eq v text maxTokens true

theorem Part.encode_eq (v : Vocab) (room : Nat) (some' : 0 < room) (part : Part) :
    part.encode v room = (part.tokens v).take room := by
  cases part with
  | id word => exact (List.take_of_length_le some').symm
  | text txt => exact tokenize_eq v (cText txt) room
  | fragment txt space => exact gemmaText_eq v (cText txt) room space

theorem layOut_from (v : Vocab) (maxTokens : Nat) (parts : List Part) : ∀ tokens : List Nat,
    parts.foldl (addPart v maxTokens) (tokens.take maxTokens) =
      (tokens++parts.flatMap (Part.tokens v)).take maxTokens := by
  induction parts with
  | nil =>
    intro tokens
    rw [List.foldl_nil,List.flatMap_nil,List.append_nil]
  | cons part parts ih =>
    intro tokens
    have step : addPart v maxTokens (tokens.take maxTokens) part = (tokens++part.tokens v).take maxTokens := by
      unfold addPart
      rw [List.length_take]
      by_cases room : tokens.length < maxTokens
      · have kept : tokens.take maxTokens = tokens := List.take_of_length_le (Nat.le_of_lt room)
        rw [Nat.min_eq_right (Nat.le_of_lt room),if_pos room,kept,part.encode_eq v _ (by omega),List.take_append,kept]
      · rw [Nat.min_eq_left (by omega),if_neg (Nat.lt_irrefl _),List.take_append_of_le_length (by omega)]
    rw [List.foldl_cons,step,ih,List.flatMap_cons,List.append_assoc]

theorem layOut_eq (v : Vocab) (maxTokens : Nat) (parts : List Part) :
    layOut v maxTokens parts = (parts.flatMap (Part.tokens v)).take maxTokens := by
  have run := layOut_from v maxTokens parts []
  rwa [List.take_nil,List.nil_append] at run

-- The whole first turn, with no limit.
def chatmlTemplate (v : Vocab) (noThink : Bool) (userMsg : List UInt8) (sysMsg : Option (List UInt8)) : List Nat :=
  (chatmlParts v userMsg sysMsg).flatMap (Part.tokens v)++reasoning v noThink

-- Once cut, a prompt stays cut: the marker is not added behind a full buffer.
theorem chatmlAddReasoning_cut (v : Vocab) (noThink : Bool) (maxTokens : Nat) (laid : List Nat) :
    chatmlAddReasoning v noThink maxTokens (laid.take maxTokens) =
      if (laid++reasoning v noThink).length ≤ maxTokens then laid++reasoning v noThink else laid.take maxTokens := by
  rw [chatmlAddReasoning]
  generalize reasoning v noThink = marker
  rw [List.length_take,List.length_append]
  by_cases fits : laid.length+marker.length ≤ maxTokens
  · rw [if_pos fits,Nat.min_eq_right (by omega),if_neg (by omega),List.take_of_length_le (by omega)]
  · rw [if_neg fits]
    by_cases full : maxTokens ≤ laid.length
    · rw [Nat.min_eq_left full]
      cases marker with
      | nil => rw [if_neg (by simp),List.append_nil]
      | cons => rw [if_pos (by simp only [List.length_cons]; omega)]
    · rw [Nat.min_eq_right (by omega),if_pos (by omega)]

theorem chatmlPrompt_cut (v : Vocab) (noThink : Bool) (userMsg : List UInt8) (sysMsg : Option (List UInt8))
    (maxTokens : Nat) (markers : HasChatml v) : chatmlPrompt v noThink userMsg sysMsg maxTokens =
      if (chatmlTemplate v noThink userMsg sysMsg).length ≤ maxTokens then chatmlTemplate v noThink userMsg sysMsg
      else ((chatmlParts v userMsg sysMsg).flatMap (Part.tokens v)).take maxTokens := by
  rw [chatmlPrompt,if_pos markers,layOut_eq]
  exact chatmlAddReasoning_cut v noThink maxTokens _

-- The special ids of a loaded vocabulary are what a lookup of their pieces gives.
structure SpecialIds (v : Vocab) : Prop where
  imStart : v.imStartId = vocabLookup v "<|im_start|>"
  imEnd : v.imEndId = vocabLookup v "<|im_end|>"
  thinkStart : v.thinkStartId = vocabLookup v "<think>"
  thinkEnd : v.thinkEndId = vocabLookup v "</think>"
  startOfTurn : v.startOfTurnId = vocabLookup v "<start_of_turn>"
  endOfTurn : v.endOfTurnId = vocabLookup v "<end_of_turn>"
  bos : v.bosId ≠ vocabIdNone

theorem finishVocab_ids (done : finishVocab m type token tokens merges scores bytes bosCands eosCands = .ok v) : SpecialIds v := by
  unfold finishVocab at done
  simp only at done
  split at done
  · simp at done
  · rename_i bos
    split at done
    · simp at done
    · obtain rfl := Except.ok.inj done
      exact ⟨rfl,rfl,rfl,rfl,rfl,rfl,bos⟩

theorem vocabLoad_ids (loaded : vocabLoad m = .ok v) : SpecialIds v := by
  obtain ⟨_,_,_,_,_,done | ⟨_,done⟩⟩ := vocabLoad_finish loaded
  · exact finishVocab_ids done
  · exact finishVocab_ids done

theorem idOr_lookup (v : Vocab) (looked : word = vocabLookup v text) : idOr v word text = vocabLookup v text := by
  unfold idOr
  split
  · rfl
  · exact looked

end TinyLlama.Tokenizer
