import TinyLlama.Vocabulary.Table
import TinyLlama.Gguf.Weights

-- core.c: the vocabulary.
namespace TinyLlama.Vocabulary
open LittleEndian Gguf Load

inductive TokenizerType where
  | none | spm | bpe | wpm | ugm | rwkv | whisper
deriving Repr,DecidableEq

-- (i32)VOCAB_ID_NONE
def vocabIdNone : Int := -1

-- `scores` are the raw bits of the floats; none is NULL.
structure Vocab where
  token : List Key
  scores : Option (List Nat)
  bosId : Int
  eosId : Int
  userId : Int
  assistantId : Int
  thinkStartId : Int
  thinkEndId : Int
  dsmlId : Int
  imStartId : Int
  imEndId : Int
  startOfTurnId : Int
  endOfTurnId : Int
  byteTokenIds : UInt8 → Int
  tokenizerType : TokenizerType
  tokens : TokenizerTable
  merges : TokenizerTable

def Vocab.nVocab (v : Vocab) : Nat := v.token.length

def tokenizerType (m : Model) : Except Exit TokenizerType :=
  match modelGetKey m "tokenizer.ggml.model" with
  | .none => .error (.report "GGUF tokenizer model type is missing" [] [])
  | some name =>
    if keyStreq name "llama" ∨ keyStreq name "sentencepiece" then .ok .spm
    else if keyStreq name "gpt2" then .ok .bpe
    else if keyStreq name "bert" then .ok .wpm
    else if keyStreq name "unigram" then .ok .ugm
    else if keyStreq name "rwkv" then .ok .rwkv
    else if keyStreq name "whisper" then .ok .whisper
    else .error (.report "Unknown tokenizer model type" [] [])

-- The bytes of a literal that is not ASCII.
def utf8Bytes (s : String) : List UInt8 := s.toUTF8.data.toList

-- `len` reaches the key through a u8.
def vocabLookupLen (tokens : TokenizerTable) (text : List UInt8) (len : Nat) : Option Int :=
  tokenizerTableGet tokens ⟨u8 len,text⟩

def vocabTryLookup (tokens : TokenizerTable) (text : List UInt8) : Option Int := vocabLookupLen tokens text text.length

-- The loop that reads an array of strings and puts each under its index.
def loadTable : Nat → Nat → TokenizerTable → Load (List Key × TokenizerTable)
  | 0,_,table => pure ([],table)
  | n+1,i,table => do
    let k ← orExit cursorKey
    let table ← fun c => (tokenizerTablePut table k (i32 i),c)
    let (rest,table) ← loadTable n (i+1) table
    pure (k :: rest,table)

def loadStrings (m : Model) (a : ArrayRef) (n : Nat) : Except Exit (List Key × TokenizerTable) := do
  let table ← tokenizerTableInit a.len
  (loadTable n 0 table (cursorAt m.file a.dataPos)).1

def tokenArray (m : Model) : Except Exit ArrayRef :=
  match modelGetArray m "tokenizer.ggml.tokens" with
  | some a =>
    if a.type ≠ valueString ∨ a.len > int32Max then
      .error (.report "GGUF tokenizer token table is missing or invalid" [] [])
    else .ok a
  | .none => .error (.report "GGUF tokenizer token table is missing or invalid" [] [])

def mergeArray (m : Model) : Except Exit ArrayRef :=
  match modelGetArray m "tokenizer.ggml.merges" with
  | some a =>
    if a.type ≠ valueString then .error (.report "GGUF tokenizer merge table is missing or invalid" [] [])
    else .ok a
  | .none => .error (.report "GGUF tokenizer merge table is missing or invalid" [] [])

-- A u32 counts up to a u64: a longer array is read until the file ends.
def mergeCount (m : Model) (a : ArrayRef) : Nat := if a.len < 2^32 then a.len else m.file.size+1

def loadWords : Nat → Cursor → List Nat
  | 0,_ => []
  | n+1,c =>
    match cursorU32 c with
    | (.ok v,c) => v :: loadWords n c
    | (.error (),_) => []

def spmScores (m : Model) (nVocab : Nat) : Option (List Nat) :=
  match modelGetArray m "tokenizer.ggml.scores" with
  | some a =>
    if a.type = valueFloat32 ∧ a.len = nVocab then
      let read := loadWords nVocab (cursorAt m.file a.dataPos)
      some (read++List.replicate (nVocab-read.length) 0)
    else .none
  | .none => .none

def spmHexDigit (c : UInt8) : Option Nat :=
  if 48 ≤ c.toNat ∧ c.toNat ≤ 57 then some (c.toNat-48)
  else if 97 ≤ c.toNat ∧ c.toNat ≤ 102 then some (c.toNat-97+10)
  else if 65 ≤ c.toNat ∧ c.toNat ≤ 70 then some (c.toNat-65+10)
  else .none

-- <0xHH>
def spmByteTokenValue (k : Key) : Option Nat :=
  match k.len,k.content with
  | 6,60 :: 48 :: 120 :: hi :: lo :: 62 :: _ =>
    match spmHexDigit hi,spmHexDigit lo with
    | some hi,some lo => some (hi*16+lo)
    | _,_ => .none
  | _,_ => .none

def valueInt32 : Nat := 5

-- The types array, when it covers the vocabulary; its BYTE entries are type 6.
def tokenTypes (m : Model) (nVocab : Nat) : Option (List Nat) :=
  match modelGetArray m "tokenizer.ggml.token_type" with
  | some a => if a.type = valueInt32 ∧ a.len = nVocab then some (loadWords nVocab (cursorAt m.file a.dataPos)) else .none
  | .none => .none

def spmByteTable (token : List Key) (types : Option (List Nat)) : UInt8 → Int :=
  let byteEntries : List (Key × Nat) := match types with
    | some types => ((token.zipIdx.zip types).filter fun (r : (Key × Nat) × Nat) => r.2 = 6).map Prod.fst
    | .none => token.zipIdx
  byteEntries.foldl (fun table (k,i) =>
    match spmByteTokenValue k with
    | some byte => fun b => if b.toNat = byte then i32 i else table b
    | .none => table) (fun _ => vocabIdNone)

-- GPT-2's bytes_to_unicode: bytes that stand for themselves.
def isSelf (b : Nat) : Bool := (33 ≤ b ∧ b ≤ 126) ∨ (161 ≤ b ∧ b ≤ 172) ∨ (174 ≤ b ∧ b ≤ 255)

def byteCodepoint (b : Nat) : Nat :=
  if isSelf b then b else 256+((List.range b).filter fun i => !isSelf i).length

def encodeUtf8 (cp : Nat) : List UInt8 :=
  if cp < 0x80 then [UInt8.ofNat cp]
  else if cp < 0x800 then [UInt8.ofNat (0xC0 ||| cp >>> 6),UInt8.ofNat (0x80 ||| (cp &&& 0x3F))]
  else [UInt8.ofNat (0xE0 ||| cp >>> 12),UInt8.ofNat (0x80 ||| ((cp >>> 6) &&& 0x3F)),UInt8.ofNat (0x80 ||| (cp &&& 0x3F))]

def bytePiece (b : UInt8) : List UInt8 := encodeUtf8 (byteCodepoint b.toNat)

def bpeByteTable (tokens : TokenizerTable) (b : UInt8) : Int :=
  (vocabLookupLen tokens (bytePiece b) (bytePiece b).length).getD vocabIdNone

-- The id a metadata key gives, else that of the first candidate in the table.
def specialId (m : Model) (tokens : TokenizerTable) (key : String) (candidates : List String) : Int :=
  match modelGetI32 m key with
  | some id => id
  | .none => (candidates.findSome? fun s => vocabTryLookup tokens (utf8Bytes s)).getD vocabIdNone

def spmBosCands : List String := ["<s>","<bos>","<|begin_of_text|>","<｜begin▁of▁sentence｜>","<|im_start|>"]
def spmEosCands : List String := ["</s>","<eos>","<|end_of_text|>","<｜end▁of▁sentence｜>","<|im_end|>"]
def bpeBosCands : List String := ["<|begin_of_text|>","<｜begin▁of▁sentence｜>","<|im_start|>","<bos>","<s>"]
def bpeEosCands : List String := ["<|end_of_text|>","<｜end▁of▁sentence｜>","<|im_end|>","<eos>","</s>"]

-- What both loaders do once the tables are filled.
def finishVocab (m : Model) (type : TokenizerType) (token : List Key) (tokens merges : TokenizerTable)
    (scores : Option (List Nat)) (byteTokenIds : UInt8 → Int) (bosCands eosCands : List String) : Except Exit Vocab :=
  let id := fun s => (vocabTryLookup tokens (utf8Bytes s)).getD vocabIdNone
  let bos := specialId m tokens "tokenizer.ggml.bos_token_id" bosCands
  let eos := specialId m tokens "tokenizer.ggml.eos_token_id" eosCands
  if bos = vocabIdNone then .error (.report "Cannot find BOS token in vocabulary" [] [])
  else if eos = vocabIdNone then .error (.report "Cannot find EOS token in vocabulary" [] [])
  else .ok {
    token,scores,byteTokenIds,tokens,merges
    bosId:=bos,eosId:=eos,tokenizerType:=type
    userId:=id "<｜User｜>",assistantId:=id "<｜Assistant｜>"
    thinkStartId:=id "<think>",thinkEndId:=id "</think>",dsmlId:=id "｜DSML｜"
    imStartId:=id "<|im_start|>",imEndId:=id "<|im_end|>"
    startOfTurnId:=id "<start_of_turn>",endOfTurnId:=id "<end_of_turn>"}

-- smalloc zeroes the vocabulary, so an unused table has capacity 0.
def noTable : TokenizerTable := ⟨fun _ => .none,0,0⟩

def vocabLoadForSpm (m : Model) : Except Exit Vocab := do
  let a ← tokenArray m
  let (token,tokens) ← loadStrings m a a.len
  finishVocab m .spm token tokens noTable (spmScores m token.length) (spmByteTable token (tokenTypes m token.length))
    spmBosCands spmEosCands

def vocabLoadForBpe (m : Model) : Except Exit Vocab := do
  let a ← tokenArray m
  let b ← mergeArray m
  let (token,tokens) ← loadStrings m a a.len
  let (_,merges) ← loadStrings m b (mergeCount m b)
  finishVocab m .bpe token tokens merges .none (bpeByteTable tokens) bpeBosCands bpeEosCands

def vocabLoad (m : Model) : Except Exit Vocab := do
  match ← tokenizerType m with
  | .spm => vocabLoadForSpm m
  | .bpe => vocabLoadForBpe m
  | .none => throw (.report "Unknown tokenizer model type" [] [])
  | _ => throw (.report "Not support tokenizer type" [] [])

end TinyLlama.Vocabulary
