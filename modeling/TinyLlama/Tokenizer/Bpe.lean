import TinyLlama.Vocabulary.Load

-- tokenizer.c, the byte-level BPE encoder and its fixed buffers; and the decoder of model/qwen25.c.
namespace TinyLlama.Tokenizer
open Gguf Vocabulary

-- The "C" locale. 1 letter, 2 digit, 3 whitespace, 4 other.
def charCategory (c : UInt8) : Nat :=
  let uc := c.toNat
  if uc ≥ 0x80 then 1
  else if (65 ≤ uc ∧ uc ≤ 90) ∨ (97 ≤ uc ∧ uc ≤ 122) then 1
  else if 48 ≤ uc ∧ uc ≤ 57 then 2
  else if uc = 32 ∨ (9 ≤ uc ∧ uc ≤ 13) then 3
  else 4

-- The longest vocabulary entry that opens the text, if it is a <|...|> marker.
def matchSpecialToken (v : Vocab) (text : List UInt8) : Option (Int × Nat) :=
  if text.length < 3 then none
  else
    match text with
    | 60 :: 124 :: _ =>
      (List.range' 2 (min text.length 64-1)).foldl (fun best len =>
        match vocabLookupLen v.tokens text len with
        | some id => some (id,len)
        | none => best) none
    | _ => none

-- core.c, vocab_merge_rank: the rank of "t1 t2", none for -1.
def vocabMergeRank (v : Vocab) (id₁ id₂ : Nat) : Option Nat :=
  match v.token[id₁]?,v.token[id₂]? with
  | some t₁,some t₂ =>
    if t₁.len+1+t₂.len > 255 then none
    else
      let mergeKey := t₁.bytes++32 :: t₂.bytes
      (tokenizerTableGet v.merges ⟨u8 (t₁.len+1+t₂.len),mergeKey⟩).bind fun rank =>
        if rank ≥ 0 then some rank.toNat else none
  | _,_ => none

-- core.c, vocab_merge_result: the id of the piece t1 t2.
def vocabMergeResult (v : Vocab) (id₁ id₂ : Nat) : Option Nat :=
  match v.token[id₁]?,v.token[id₂]? with
  | some t₁,some t₂ =>
    if t₁.len+t₂.len > 255 then none
    else (vocabLookupLen v.tokens (t₁.bytes++t₂.bytes) (t₁.len+t₂.len)).bind fun id =>
      if id ≥ 0 then some id.toNat else none
  | _,_ => none

-- The leftmost adjacent pair of least rank below the bound, as (rank, index).
def bestPair (v : Vocab) : Nat → List Nat → Option (Nat × Nat) → Option (Nat × Nat)
  | i,a :: b :: rest,best =>
    let best := match vocabMergeRank v a b with
      | some rank => if rank < (best.map Prod.fst).getD int32Max then some (rank,i) else best
      | none => best
    bestPair v (i+1) (b :: rest) best
  | _,_,best => best

def mergeAt (v : Vocab) (i : Nat) (syms : List Nat) : Option (List Nat) :=
  match syms.drop i with
  | a :: b :: rest => (vocabMergeResult v a b).map fun merged => syms.take i++merged :: rest
  | _ => none

-- One symbol goes at each merge, so the symbols bound the rounds.
def mergeLoop (v : Vocab) : Nat → List Nat → List Nat
  | 0,syms => syms
  | fuel+1,syms =>
    match bestPair v 0 syms none with
    | none => syms
    | some (_,i) =>
      match mergeAt v i syms with
      | none => syms
      | some syms => mergeLoop v fuel syms

def chunkSymbols : Nat := 512
def bpeMaxSymbols : Nat := 4096

def byteSymbol (v : Vocab) (b : UInt8) : Option Nat :=
  if v.byteTokenIds b ≥ 0 then some (v.byteTokenIds b).toNat else none

-- u32 syms[512].
def bpeEncodeChunk (v : Vocab) (chunk : List UInt8) (maxOut : Nat) : List Nat :=
  let syms := (chunk.filterMap (byteSymbol v)).take chunkSymbols
  (mergeLoop v syms.length syms).take maxOut

def span (cat : Nat) (text : List UInt8) : Nat := (text.takeWhile fun c => charCategory c = cat).length

-- 's 't 'm 'd 're 've 'll
def contractionLen : List UInt8 → Nat
  | 39 :: nxt :: rest =>
    if nxt = 115 ∨ nxt = 116 ∨ nxt = 109 ∨ nxt = 100 then 2
    else if (nxt = 114 ∨ nxt = 118) ∧ rest.head? = some 101 then 3
    else if nxt = 108 ∧ rest.head? = some 108 then 3
    else 0
  | _ => 0

-- The non-whitespace chunk behind `lead` absorbed bytes.
def wordLen (lead : Nat) (text : List UInt8) : Nat :=
  match text.drop lead with
  | [] => lead
  | c :: rest =>
    let cat := charCategory c
    lead+span (if cat = 1 then 1 else if cat = 2 then 2 else 4) (c :: rest)

-- How far one pass of the loop moves when no special token matches.
def chunkLen (text : List UInt8) : Nat :=
  if contractionLen text > 0 then contractionLen text
  else
    let ws := span 3 text
    if ws > 0 ∧ (ws ≠ 1 ∨ ws ≥ text.length) then ws
    else wordLen ws text

-- Every pass moves at least one byte, so the text bounds the passes.
def bpeLoop (v : Vocab) : Nat → List UInt8 → List Nat → List Nat
  | 0,_,symbols => symbols
  | fuel+1,text,symbols =>
    if text = [] ∨ symbols.length ≥ bpeMaxSymbols then symbols
    else
      match (matchSpecialToken v text).filter fun r => r.1 ≥ 0 with
      | some (id,len) => bpeLoop v fuel (text.drop len) (symbols++[id.toNat])
      | none => bpeLoop v fuel (text.drop (chunkLen text))
          (symbols++bpeEncodeChunk v (text.take (chunkLen text)) (bpeMaxSymbols-symbols.length))

-- u32 symbols[BPE_MAX_SYMBOLS].
def tokenizeBpe (v : Vocab) (text : List UInt8) (maxTokens : Nat) : List Nat :=
  (bpeLoop v text.length text []).take maxTokens

def mappedByte (c nc : Nat) : Option Nat :=
  if nc < 0x80 ∨ nc > 0xBF then none
  else if c = 0xC2 then some nc
  else if c = 0xC3 then some (nc+0x40)
  else if c = 0xC4 then
    if nc ≤ 0xA0 then some (nc-0x80) else if nc = 0xA1 then some 0x7F else some (nc-0x22)
  else if c = 0xC5 then
    if nc = 0x80 then some 0x9E else if nc = 0x81 then some 0x9F
    else if nc = 0x82 then some 0xA0 else if nc = 0x83 then some 0xAD else none
  else none

def decodeLoop : Nat → List UInt8 → List UInt8
  | 0,_ => []
  | _,[] => []
  | room+1,c :: rest =>
    if 0x21 ≤ c.toNat ∧ c.toNat ≤ 0x7E then c :: decodeLoop room rest
    else if 0xC2 ≤ c.toNat ∧ c.toNat ≤ 0xC5 then
      match rest with
      | nc :: tail =>
        match mappedByte c.toNat nc.toNat with
        | some byte => if byte ≤ 255 then UInt8.ofNat byte :: decodeLoop room tail else c :: decodeLoop room rest
        | none => c :: decodeLoop room rest
      | [] => c :: decodeLoop room rest
    else c :: decodeLoop room rest

-- The bytes written; the llama, qwen35 and falcon_h1 copies are the same code.
def qwen25Decode (raw : List UInt8) (maxLen : Nat) : List UInt8 := decodeLoop maxLen raw

def decodeToken (v : Vocab) (maxLen id : Nat) : List UInt8 :=
  match v.token[id]? with
  | some k => qwen25Decode k.bytes maxLen
  | none => []

end TinyLlama.Tokenizer
