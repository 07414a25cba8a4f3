import TinyLlama.Tokenizer.Bpe

-- tokenizer.c, the SentencePiece encoder; and the decoder of model/gemma3.c.
namespace TinyLlama.Tokenizer
open Gguf Vocabulary

def utf8CharLen (c : UInt8) : Nat :=
  if c < 0x80 then 1
  else if c &&& 0xE0 = 0xC0 then 2
  else if c &&& 0xF0 = 0xE0 then 3
  else if c &&& 0xF8 = 0xF0 then 4
  else 1

-- U+2581
def spaceMark : List UInt8 := [0xE2,0x96,0x81]

def normalize (text : List UInt8) (addPrefixSpace : Bool) : List UInt8 :=
  (if addPrefixSpace then spaceMark else [])++text.flatMap fun c => if c = 32 then spaceMark else [c]

-- `off` is where the symbol's text starts in the normalised text.
structure SpmSym where
  off : Nat
  n : Nat
  prev : Int
  next : Int
deriving DecidableEq

-- Every symbol takes a byte, so the text bounds the rounds.
def splitLoop (norm : List UInt8) : Nat → Nat → Nat → List SpmSym
  | 0,_,_ => []
  | fuel+1,off,nsym =>
    match norm[off]? with
    | none => []
    | some c =>
      let cl := if off+utf8CharLen c > norm.length then 1 else utf8CharLen c
      ⟨off,cl,nsym-1,nsym+1⟩ :: splitLoop norm fuel (off+cl) (nsym+1)

def splitChars (norm : List UInt8) : List SpmSym :=
  let sym := splitLoop norm norm.length 0 0
  sym.modify (sym.length-1) fun s => {s with next:=-1}

-- The value of a float by its bits, none for a NaN; both zeros are 0.
def floatOrder (bits : Nat) : Option Int :=
  if bits%2^31 > 0x7F800000 then none else if bits < 2^31 then some bits else some (-((bits-2^31 : Nat) : Int))

def floatGt (a b : Nat) : Bool :=
  match floatOrder a,floatOrder b with
  | some x,some y => x > y
  | _,_ => false

def floatEq (a b : Nat) : Bool :=
  match floatOrder a,floatOrder b with
  | some x,some y => x = y
  | _,_ => false

def joinScore (v : Vocab) (scores : List Nat) (norm : List UInt8) (off len : Nat) : Option Nat :=
  if len > 255 then none
  else
    match vocabLookupLen v.tokens (norm.drop off) len with
    | none => none
    | some id => if (id%2^32).toNat ≥ v.nVocab then none else some (scores.getD id.toNat 0)

def better (i : Int) (sc : Nat) : Option (Int × Nat) → Bool
  | none => true
  | some (best,bestScore) => floatGt sc bestScore || (floatEq sc bestScore && i < best)

-- One pass over the list for the adjacent pair to join, as (index, score).
def bestJoin (v : Vocab) (scores : List Nat) (norm : List UInt8) (sym : List SpmSym) :
    Nat → Int → Option (Int × Nat) → Option (Int × Nat)
  | 0,_,best => best
  | fuel+1,i,best =>
    if i < 0 then best
    else
      match sym[i.toNat]? with
      | none => best
      | some s =>
        if s.next < 0 then best
        else
          match sym[s.next.toNat]? with
          | none => best
          | some r =>
            match joinScore v scores norm s.off (s.n+r.n) with
            | none => bestJoin v scores norm sym fuel s.next best
            | some sc => bestJoin v scores norm sym fuel s.next (if better i sc best then some (i,sc) else best)

def joinAt (sym : List SpmSym) (best : Nat) : List SpmSym :=
  match sym[best]? with
  | none => sym
  | some s =>
    match sym[s.next.toNat]? with
    | none => sym
    | some r =>
      let sym := (sym.set best {s with n:=s.n+r.n,next:=r.next}).set s.next.toNat {r with n:=0}
      if r.next ≥ 0 then sym.modify r.next.toNat fun t => {t with prev:=best} else sym

-- One symbol goes at each join, so the symbols bound the rounds.
def joinLoop (v : Vocab) (scores : List Nat) (norm : List UInt8) : Nat → List SpmSym → List SpmSym
  | 0,sym => sym
  | fuel+1,sym =>
    match bestJoin v scores norm sym sym.length 0 none with
    | none => sym
    | some (best,_) => joinLoop v scores norm fuel (joinAt sym best.toNat)

def walk (sym : List SpmSym) : Nat → Int → List SpmSym
  | 0,_ => []
  | fuel+1,i =>
    if i < 0 then []
    else
      match sym[i.toNat]? with
      | none => []
      | some s => s :: walk sym fuel s.next

def symText (norm : List UInt8) (s : SpmSym) : List UInt8 := (norm.drop s.off).take s.n

def emit (v : Vocab) (norm : List UInt8) (s : SpmSym) : List Nat :=
  if s.n = 0 then []
  else
    match vocabLookupLen v.tokens (norm.drop s.off) s.n with
    | some id => [id.toNat]
    | none => (symText norm s).filterMap (byteSymbol v)

-- The final segmentation; no symbol means no text.
def spmSymbols (v : Vocab) (scores : List Nat) (norm : List UInt8) : List SpmSym :=
  let sym := splitChars norm
  walk (joinLoop v scores norm sym.length sym) sym.length 0

def tokenizeSpm (v : Vocab) (text : List UInt8) (maxTokens : Nat) (addPrefixSpace : Bool) : List Nat :=
  match v.scores with
  | none => tokenizeBpe v text maxTokens
  | some scores =>
    let norm := normalize text addPrefixSpace
    ((spmSymbols v scores norm).flatMap (emit v norm)).take maxTokens

def unmark : Nat → List UInt8 → List UInt8
  | 0,_ => []
  | _,[] => []
  | room+1,c :: rest =>
    if c = 0xE2 ∧ [0x96,0x81] <+: rest then 32 :: unmark room (rest.drop 2) else c :: unmark room rest

-- The bytes written for a piece: one for <0xHH>.
def gemma3Decode (raw : List UInt8) (maxLen : Nat) : List UInt8 :=
  match spmByteTokenValue ⟨raw.length,raw⟩ with
  | some byte => if 0 < maxLen then [UInt8.ofNat byte] else []
  | none => unmark maxLen raw

def gemma3DecodeToken (v : Vocab) (maxLen id : Nat) : List UInt8 :=
  match v.token[id]? with
  | some k => gemma3Decode k.bytes maxLen
  | none => []

end TinyLlama.Tokenizer
