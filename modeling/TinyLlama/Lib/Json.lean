import Mathlib.Tactic

-- JSON texts as lists of tokens with their blanks, and the values they spell.
namespace Json

def quote : UInt8 := 34
def backslash : UInt8 := 92
def comma : UInt8 := 44
def colon : UInt8 := 58
def openArr : UInt8 := 91
def closeArr : UInt8 := 93
def openObj : UInt8 := 123
def closeObj : UInt8 := 125

def isBlank (c : UInt8) : Bool := c = 32 || c = 9 || c = 10 || c = 13
def isPunct (c : UInt8) : Bool := c = comma || c = colon || c = openArr || c = closeArr || c = openObj || c = closeObj
def isDigit (c : UInt8) : Bool := 48 ≤ c && c ≤ 57
def isHex (c : UInt8) : Bool := isDigit c || (97 ≤ c && c ≤ 102) || (65 ≤ c && c ≤ 70)
def isAtomByte (c : UInt8) : Bool := isDigit c || (97 ≤ c && c ≤ 122) || c = 69 || c = 43 || c = 45 || c = 46

-- A string keeps what stands between its quotes.
inductive Token where
  | blank (c : UInt8)
  | punct (c : UInt8)
  | str (raw : List UInt8)
  | atom (raw : List UInt8)
deriving DecidableEq

def Token.flat : Token → List UInt8
  | .blank c => [c]
  | .punct c => [c]
  | .str raw => quote :: (raw++[quote])
  | .atom raw => raw

def flat (ts : List Token) : List UInt8 := ts.flatMap Token.flat

inductive Spelled : List UInt8 → Prop
  | nil : Spelled []
  | byte (c : UInt8) (rest : List UInt8) : 32 ≤ c → c ≠ quote → c ≠ backslash → Spelled rest → Spelled (c :: rest)
  | escape (e : UInt8) (rest : List UInt8) : e ∈ [34,92,47,98,102,110,114,116] → Spelled rest →
      Spelled (backslash :: e :: rest)
  | unicode (a b c d : UInt8) (rest : List UInt8) : [a,b,c,d].all isHex = true → Spelled rest →
      Spelled (backslash :: 117 :: a :: b :: c :: d :: rest)

def Digits (ds : List UInt8) : Prop := ds ≠ [] ∧ ds.all isDigit = true

structure Numeral (sign int frac exp : List UInt8) : Prop where
  sign : sign = [] ∨ sign = [45]
  int : Digits int ∧ (int.head? = some 48 → int = [48])
  frac : frac = [] ∨ ∃ ds, frac = 46 :: ds ∧ Digits ds
  exp : exp = [] ∨ ∃ e s ds, exp = e :: (s++ds) ∧ (e = 101 ∨ e = 69) ∧ s ∈ [[],[43],[45]] ∧ Digits ds

def literals : List (List UInt8) := [[116,114,117,101],[102,97,108,115,101],[110,117,108,108]]

def IsAtom (raw : List UInt8) : Prop :=
  raw ∈ literals ∨ ∃ sign int frac exp, Numeral sign int frac exp ∧ raw = sign++int++frac++exp

def Token.Good : Token → Prop
  | .blank c => isBlank c = true
  | .punct c => isPunct c = true
  | .str raw => Spelled raw
  | .atom raw => IsAtom raw

-- A number or literal ends where another byte of one cannot follow.
def Follows (t : Token) (rest : List UInt8) : Prop := ∀ raw, t = .atom raw → ∀ c, rest.head? = some c → isAtomByte c = false

def Valid : List Token → Prop
  | [] => True
  | t :: rest => t.Good ∧ Follows t (flat rest) ∧ Valid rest

def Token.solid : Token → Bool
  | .blank _ => false
  | _ => true

mutual
inductive Value where
  | atom (raw : List UInt8)
  | str (raw : List UInt8)
  | arr (items : Items)
  | obj (members : Members)
inductive Items where
  | nil
  | cons (value : Value) (rest : Items)
inductive Members where
  | nil
  | cons (key : List UInt8) (value : Value) (rest : Members)
end

mutual
def Value.tokens : Value → List Token
  | .atom raw => [.atom raw]
  | .str raw => [.str raw]
  | .arr .nil => [.punct openArr,.punct closeArr]
  | .arr (.cons value rest) => .punct openArr :: (value.tokens++rest.more)
  | .obj .nil => [.punct openObj,.punct closeObj]
  | .obj (.cons key value rest) => .punct openObj :: .str key :: .punct colon :: (value.tokens++rest.more)
def Items.more : Items → List Token
  | .nil => [.punct closeArr]
  | .cons value rest => .punct comma :: (value.tokens++rest.more)
def Members.more : Members → List Token
  | .nil => [.punct closeObj]
  | .cons key value rest => .punct comma :: .str key :: .punct colon :: (value.tokens++rest.more)
end

mutual
def Value.Good : Value → Prop
  | .atom raw => IsAtom raw
  | .str raw => Spelled raw
  | .arr items => items.Good
  | .obj members => members.Good
def Items.Good : Items → Prop
  | .nil => True
  | .cons value rest => value.Good ∧ rest.Good
def Members.Good : Members → Prop
  | .nil => True
  | .cons key value rest => Spelled key ∧ value.Good ∧ rest.Good
end

-- The bytes of `ts` are a text of the value, blanks between its tokens.
structure Text (value : Value) (ts : List Token) : Prop where
  valid : Valid ts
  tokens : ts.filter Token.solid = value.tokens

def hexValue (c : UInt8) : Option Nat :=
  if isDigit c then some (c.toNat-48)
  else if 97 ≤ c && c ≤ 102 then some (c.toNat-87)
  else if 65 ≤ c && c ≤ 70 then some (c.toNat-55)
  else none

def codeUnit (a b c d : UInt8) : Option Nat := do
  return ((← hexValue a)*16+(← hexValue b))*256+(← hexValue c)*16+(← hexValue d)

-- \" \\ \/ \b \f \n \r \t
def escaped (e : UInt8) : Option UInt8 :=
  if e = 34 ∨ e = 92 ∨ e = 47 then some e
  else if e = 98 then some 8
  else if e = 102 then some 12
  else if e = 110 then some 10
  else if e = 114 then some 13
  else if e = 116 then some 9
  else none

def units : List UInt8 → Option (List (UInt8 ⊕ Nat))
  | [] => some []
  | c :: rest =>
    if c = backslash then
      match rest with
      | [] => none
      | e :: rest =>
        if e = 117 then
          match rest with
          | a :: b :: c :: d :: rest => (codeUnit a b c d).bind fun n => (units rest).map (.inr n :: ·)
          | _ => none
        else (escaped e).bind fun b => (units rest).map (.inl b :: ·)
    else (units rest).map (.inl c :: ·)

def utf8 (n : Nat) : List UInt8 :=
  if n < 0x80 then [UInt8.ofNat n]
  else if n < 0x800 then [UInt8.ofNat (0xC0+n/64),UInt8.ofNat (0x80+n%64)]
  else if n < 0x10000 then [UInt8.ofNat (0xE0+n/4096),UInt8.ofNat (0x80+n/64%64),UInt8.ofNat (0x80+n%64)]
  else [UInt8.ofNat (0xF0+n/262144),UInt8.ofNat (0x80+n/4096%64),UInt8.ofNat (0x80+n/64%64),UInt8.ofNat (0x80+n%64)]

-- Code units as UTF-8: a high surrogate needs a low one behind it, and none stands alone.
def assemble : List (UInt8 ⊕ Nat) → Option (List UInt8)
  | [] => some []
  | .inl c :: us => (assemble us).map (c :: ·)
  | .inr n :: us =>
    if 0xD800 ≤ n ∧ n < 0xDC00 then
      match us with
      | .inr m :: us =>
        if 0xDC00 ≤ m ∧ m < 0xE000 then
          (assemble us).map (utf8 (0x10000+(n-0xD800)*1024+(m-0xDC00))++·)
        else none
      | _ => none
    else if 0xDC00 ≤ n ∧ n < 0xE000 then none
    else (assemble us).map (utf8 n++·)

def unescape (raw : List UInt8) : Option (List UInt8) := (units raw).bind assemble

-- The first member of that name.
def Members.get (name : List UInt8) : Members → Option Value
  | .nil => none
  | .cons key value rest => if unescape key = some name then some value else rest.get name

def Value.get (name : List UInt8) : Value → Option Value
  | .obj members => members.get name
  | _ => none

def Value.first : Value → Option Value
  | .arr (.cons value _) => some value
  | _ => none

def Items.toList : Items → List Value
  | .nil => []
  | .cons value rest => value :: rest.toList

def Value.string : Value → Option (List UInt8)
  | .str raw => unescape raw
  | _ => none

@[simp] theorem flat_nil : flat [] = [] := rfl
@[simp] theorem flat_cons (t : Token) (ts : List Token) : flat (t :: ts) = t.flat++flat ts := rfl
@[simp] theorem flat_append (ts us : List Token) : flat (ts++us) = flat ts++flat us := List.flatMap_append

theorem digit_atomByte (digit : isDigit c = true) : isAtomByte c = true := by simp [isAtomByte,digit]

theorem Digits.atomBytes (digits : Digits ds) : ∀ c ∈ ds, isAtomByte c = true :=
  fun c listed => digit_atomByte (List.all_eq_true.mp digits.2 c listed)

theorem IsAtom.bytes (atom : IsAtom raw) : raw ≠ [] ∧ ∀ c ∈ raw, isAtomByte c = true := by
  rcases atom with listed | ⟨sign,int,frac,exp,numeral,rfl⟩
  · revert listed
    revert raw
    decide +kernel
  · refine ⟨by simp [numeral.int.1.1],fun c listed => ?_⟩
    simp only [List.mem_append] at listed
    rcases listed with ((listed | listed) | listed) | listed
    · rcases numeral.sign with rfl | rfl
      · simp at listed
      · rw [List.mem_singleton.mp listed]
        decide
    · exact numeral.int.1.atomBytes c listed
    · rcases numeral.frac with rfl | ⟨ds,rfl,digits⟩
      · simp at listed
      · rcases List.mem_cons.mp listed with rfl | listed
        · decide
        · exact digits.atomBytes c listed
    · rcases numeral.exp with rfl | ⟨e,s,ds,rfl,mark,signed,digits⟩
      · simp at listed
      · rcases List.mem_cons.mp listed with rfl | listed
        · rcases mark with rfl | rfl <;> decide
        · rcases List.mem_append.mp listed with listed | listed
          · simp only [List.mem_cons,List.not_mem_nil,or_false] at signed
            rcases signed with rfl | rfl | rfl
            · simp at listed
            · rw [List.mem_singleton.mp listed]
              decide
            · rw [List.mem_singleton.mp listed]
              decide
          · exact digits.atomBytes c listed

-- What kind of token a byte opens.
def byteKind (c : UInt8) : Nat := if isBlank c then 0 else if isPunct c then 1 else if c = quote then 2 else 3

def Token.kind : Token → Nat
  | .blank _ => 0
  | .punct _ => 1
  | .str _ => 2
  | .atom _ => 3

theorem atomByte_kind (c : UInt8) : isAtomByte c = true → byteKind c = 3 := by
  have all : ∀ n < 256, isAtomByte (UInt8.ofNat n) = true → byteKind (UInt8.ofNat n) = 3 := by decide +kernel
  have this := all c.toNat c.toNat_lt
  rwa [UInt8.ofNat_toNat] at this

theorem punct_kind (c : UInt8) : isPunct c = true → byteKind c = 1 := by
  have all : ∀ n < 256, isPunct (UInt8.ofNat n) = true → byteKind (UInt8.ofNat n) = 1 := by decide +kernel
  have this := all c.toNat c.toNat_lt
  rwa [UInt8.ofNat_toNat] at this

theorem Token.Good.opens {t : Token} (good : t.Good) : ∃ c rest, t.flat = c :: rest ∧ byteKind c = t.kind := by
  cases t with
  | blank c => exact ⟨c,[],rfl,if_pos good⟩
  | punct c => exact ⟨c,[],rfl,punct_kind c good⟩
  | str raw => exact ⟨quote,_,rfl,show byteKind quote = 2 by decide⟩
  | atom raw =>
    obtain ⟨some',bytes⟩ := good.bytes
    obtain ⟨c,rest,rfl⟩ := List.exists_cons_of_ne_nil some'
    exact ⟨c,rest,rfl,atomByte_kind c (bytes c List.mem_cons_self)⟩

theorem Spelled.unique (one : Spelled raw) : ∀ {raw' x y : List UInt8}, Spelled raw' →
    raw++quote :: x = raw'++quote :: y → raw = raw' ∧ x = y := by
  induction one with
  | nil =>
    intro raw' x y two same
    cases two with
    | nil => exact ⟨rfl,(List.cons.inj same).2⟩
    | byte c rest _ other => exact absurd (List.cons.inj same).1.symm other
    | escape | unicode => exact absurd (List.cons.inj same).1 (by decide)
  | byte c rest _ notQuote notSlash _ ih =>
    intro raw' x y two same
    cases two with
    | nil => exact absurd (List.cons.inj same).1 notQuote
    | byte d rest' _ _ _ two =>
      obtain ⟨rfl,tail⟩ := List.cons.inj same
      obtain ⟨rfl,rfl⟩ := ih two tail
      exact ⟨rfl,rfl⟩
    | escape | unicode => exact absurd (List.cons.inj same).1 notSlash
  | escape e rest known _ ih =>
    intro raw' x y two same
    cases two with
    | nil => exact absurd (List.cons.inj same).1 (by decide)
    | byte d rest' _ _ notSlash => exact absurd (List.cons.inj same).1.symm notSlash
    | escape d rest' _ two =>
      obtain ⟨rfl,tail⟩ := List.cons.inj (List.cons.inj same).2
      obtain ⟨rfl,rfl⟩ := ih two tail
      exact ⟨rfl,rfl⟩
    | unicode =>
      obtain ⟨rfl,_⟩ := List.cons.inj (List.cons.inj same).2
      exact absurd known (by decide)
  | unicode a b c d rest _ _ ih =>
    intro raw' x y two same
    cases two with
    | nil => exact absurd (List.cons.inj same).1 (by decide)
    | byte d rest' _ _ notSlash => exact absurd (List.cons.inj same).1.symm notSlash
    | escape e rest' known =>
      obtain ⟨rfl,_⟩ := List.cons.inj (List.cons.inj same).2
      exact absurd known (by decide)
    | unicode a' b' c' d' rest' _ two =>
      simp only [List.cons_append,List.cons.injEq,true_and] at same
      obtain ⟨rfl,rfl,rfl,rfl,tail⟩ := same
      obtain ⟨rfl,rfl⟩ := ih two tail
      exact ⟨rfl,rfl⟩

theorem run_unique (p : UInt8 → Bool) : ∀ {u v x y : List UInt8}, (∀ c ∈ u, p c = true) → (∀ c ∈ v, p c = true) →
    (∀ c, x.head? = some c → p c = false) → (∀ c, y.head? = some c → p c = false) → u++x = v++y → u = v ∧ x = y
  | [],[],_,_,_,_,_,_,same => ⟨rfl,same⟩
  | [],d :: v,x,y,_,run,stop,_,same => by
    have first := stop d (by rw [show x = d :: (v++y) from same]; rfl)
    rw [run d List.mem_cons_self] at first
    exact absurd first (by decide)
  | c :: u,[],x,y,run,_,_,stop,same => by
    have first := stop c (by rw [show y = c :: (u++x) from same.symm]; rfl)
    rw [run c List.mem_cons_self] at first
    exact absurd first (by decide)
  | c :: u,d :: v,x,y,run,run',stop,stop',same => by
    obtain ⟨rfl,tail⟩ := List.cons.inj same
    obtain ⟨rfl,rfl⟩ := run_unique p (fun e listed => run e (List.mem_cons_of_mem c listed))
      (fun e listed => run' e (List.mem_cons_of_mem c listed)) stop stop' tail
    exact ⟨rfl,rfl⟩

theorem same_token {t u : Token} (good : t.Good) (good' : u.Good) (follows : Follows t x) (follows' : Follows u y)
    (same : t.flat++x = u.flat++y) : t = u ∧ x = y := by
  obtain ⟨c,rest,opens,kind⟩ := good.opens
  obtain ⟨d,rest',opens',kind'⟩ := good'.opens
  have kinds : t.kind = u.kind := by
    rw [opens,opens'] at same
    rw [← kind,← kind',(List.cons.inj same).1]
  cases t with
  | blank a =>
    cases u with
    | blank b =>
      obtain ⟨rfl,tail⟩ := List.cons.inj same
      exact ⟨rfl,tail⟩
    | punct | str | atom => exact absurd kinds (by simp [Token.kind])
  | punct a =>
    cases u with
    | punct b =>
      obtain ⟨rfl,tail⟩ := List.cons.inj same
      exact ⟨rfl,tail⟩
    | blank | str | atom => exact absurd kinds (by simp [Token.kind])
  | str raw =>
    cases u with
    | str raw' =>
      have tail : (raw++[quote])++x = (raw'++[quote])++y := (List.cons.inj same).2
      rw [List.append_assoc,List.append_assoc] at tail
      obtain ⟨rfl,rfl⟩ := Spelled.unique good good' tail
      exact ⟨rfl,rfl⟩
    | blank | punct | atom => exact absurd kinds (by simp [Token.kind])
  | atom raw =>
    cases u with
    | atom raw' =>
      obtain ⟨rfl,rfl⟩ := run_unique isAtomByte good.bytes.2 good'.bytes.2 (follows _ rfl) (follows' _ rfl) same
      exact ⟨rfl,rfl⟩
    | blank | punct | str => exact absurd kinds (by simp [Token.kind])

theorem Valid.flat_ne_nil (valid : Valid (t :: ts)) : ∃ c rest, flat (t :: ts) = c :: rest := by
  obtain ⟨c,rest,opens,_⟩ := valid.1.opens
  exact ⟨c,rest++flat ts,by rw [flat_cons,opens]; rfl⟩

theorem Valid.front (ts : List Token) : ∀ {us : List Token} {b : List UInt8}, Valid ts → Valid us →
    (∀ t, ts.getLast? = some t → Follows t b) → flat ts++b = flat us → ∃ vs, us = ts++vs ∧ flat vs = b := by
  induction ts with
  | nil =>
    intro us b _ _ _ same
    exact ⟨us,rfl,same.symm⟩
  | cons t ts ih =>
    intro us b valid valid' last same
    cases us with
    | nil =>
      obtain ⟨c,rest,opens⟩ := valid.flat_ne_nil
      rw [opens] at same
      simp at same
    | cons u us =>
      have follows : Follows t (flat ts++b) := by
        cases ts with
        | nil => exact last t rfl
        | cons t' ts =>
          obtain ⟨c,rest,opens⟩ := valid.2.2.flat_ne_nil
          intro raw atom d first
          refine valid.2.1 raw atom d ?_
          rw [opens] at first ⊢
          exact first
      rw [flat_cons,List.append_assoc,flat_cons] at same
      obtain ⟨rfl,rest⟩ := same_token valid.1 valid'.1 follows valid'.2.1 same
      obtain ⟨vs,rfl,tail⟩ := ih valid.2.2 valid'.2.2 (fun t' ends => last t' (by
        cases ts with
        | nil => simp at ends
        | cons t'' ts => rwa [List.getLast?_cons_cons])) rest
      exact ⟨vs,rfl,tail⟩

theorem Value.tokens_opens (v : Value) : ∃ t rest, v.tokens = t :: rest ∧ t ≠ .punct closeArr := by
  match v with
  | .atom raw => exact ⟨_,[],by rw [Value.tokens],by simp⟩
  | .str raw => exact ⟨_,[],by rw [Value.tokens],by simp⟩
  | .arr .nil => exact ⟨_,_,by rw [Value.tokens],by decide⟩
  | .arr (.cons value rest) => exact ⟨_,_,by rw [Value.tokens],by decide⟩
  | .obj .nil => exact ⟨_,_,by rw [Value.tokens],by decide⟩
  | .obj (.cons key value rest) => exact ⟨_,_,by rw [Value.tokens],by decide⟩

mutual
theorem Value.tokens_inj : ∀ (v v' : Value) {r r' : List Token}, v.tokens++r = v'.tokens++r' → v = v' ∧ r = r'
  | .atom raw,v',r,r',same => by
    cases v' with
    | atom raw' => simpa [Value.tokens] using same
    | str raw' => simp [Value.tokens] at same
    | arr items => cases items <;> simp [Value.tokens] at same
    | obj members => cases members <;> simp [Value.tokens] at same
  | .str raw,v',r,r',same => by
    cases v' with
    | atom raw' => simp [Value.tokens] at same
    | str raw' => simpa [Value.tokens] using same
    | arr items => cases items <;> simp [Value.tokens] at same
    | obj members => cases members <;> simp [Value.tokens] at same
  | .arr .nil,v',r,r',same => by
    cases v' with
    | atom raw' => simp [Value.tokens] at same
    | str raw' => simp [Value.tokens] at same
    | obj members => cases members <;> simp [Value.tokens,openArr,openObj] at same
    | arr items =>
      cases items with
      | nil => simpa [Value.tokens] using same
      | cons value rest =>
        obtain ⟨t,tail,opens,other⟩ := value.tokens_opens
        simp [Value.tokens,opens,other.symm] at same
  | .arr (.cons value rest),v',r,r',same => by
    cases v' with
    | atom raw' => simp [Value.tokens] at same
    | str raw' => simp [Value.tokens] at same
    | obj members => cases members <;> simp [Value.tokens,openArr,openObj] at same
    | arr items =>
      cases items with
      | nil =>
        obtain ⟨t,tail,opens,other⟩ := value.tokens_opens
        simp [Value.tokens,opens,other] at same
      | cons value' rest' =>
        simp only [Value.tokens,List.cons_append,List.append_assoc,List.cons.injEq,true_and] at same
        obtain ⟨rfl,others⟩ := Value.tokens_inj value value' same
        obtain ⟨rfl,tails⟩ := Items.more_inj rest rest' others
        exact ⟨rfl,tails⟩
  | .obj .nil,v',r,r',same => by
    cases v' with
    | atom raw' => simp [Value.tokens] at same
    | str raw' => simp [Value.tokens] at same
    | arr items => cases items <;> simp [Value.tokens,openArr,openObj] at same
    | obj members =>
      cases members with
      | nil => simpa [Value.tokens] using same
      | cons key value rest => simp [Value.tokens] at same
  | .obj (.cons key value rest),v',r,r',same => by
    cases v' with
    | atom raw' => simp [Value.tokens] at same
    | str raw' => simp [Value.tokens] at same
    | arr items => cases items <;> simp [Value.tokens,openArr,openObj] at same
    | obj members =>
      cases members with
      | nil => simp [Value.tokens] at same
      | cons key' value' rest' =>
        simp only [Value.tokens,List.cons_append,List.append_assoc,List.cons.injEq,true_and,Token.str.injEq] at same
        obtain ⟨rfl,fields⟩ := same
        obtain ⟨rfl,others⟩ := Value.tokens_inj value value' fields
        obtain ⟨rfl,tails⟩ := Members.more_inj rest rest' others
        exact ⟨rfl,tails⟩
theorem Items.more_inj : ∀ (xs xs' : Items) {r r' : List Token}, xs.more++r = xs'.more++r' → xs = xs' ∧ r = r'
  | .nil,xs',r,r',same => by
    cases xs' with
    | nil => simpa [Items.more] using same
    | cons value rest => simp [Items.more,closeArr,comma] at same
  | .cons value rest,xs',r,r',same => by
    cases xs' with
    | nil => simp [Items.more,closeArr,comma] at same
    | cons value' rest' =>
      simp only [Items.more,List.cons_append,List.append_assoc,List.cons.injEq,true_and] at same
      obtain ⟨rfl,others⟩ := Value.tokens_inj value value' same
      obtain ⟨rfl,tails⟩ := Items.more_inj rest rest' others
      exact ⟨rfl,tails⟩
theorem Members.more_inj : ∀ (xs xs' : Members) {r r' : List Token}, xs.more++r = xs'.more++r' → xs = xs' ∧ r = r'
  | .nil,xs',r,r',same => by
    cases xs' with
    | nil => simpa [Members.more] using same
    | cons key value rest => simp [Members.more,closeObj,comma] at same
  | .cons key value rest,xs',r,r',same => by
    cases xs' with
    | nil => simp [Members.more,closeObj,comma] at same
    | cons key' value' rest' =>
      simp only [Members.more,List.cons_append,List.append_assoc,List.cons.injEq,true_and,Token.str.injEq] at same
      obtain ⟨rfl,fields⟩ := same
      obtain ⟨rfl,others⟩ := Value.tokens_inj value value' fields
      obtain ⟨rfl,tails⟩ := Members.more_inj rest rest' others
      exact ⟨rfl,tails⟩
end

theorem Members.more_last : ∀ members : Members, ∃ init, members.more = init++[.punct closeObj]
  | .nil => ⟨[],by rw [Members.more]; rfl⟩
  | .cons key value rest => by
    obtain ⟨init,last⟩ := Members.more_last rest
    exact ⟨.punct comma :: .str key :: .punct colon :: (value.tokens++init),by rw [Members.more,last]; simp⟩

theorem Value.tokens_last (members : Members) : ∃ init, (Value.obj members).tokens = init++[.punct closeObj] := by
  cases members with
  | nil => exact ⟨[.punct openObj],by rw [Value.tokens]; rfl⟩
  | cons key value rest =>
    obtain ⟨init,last⟩ := rest.more_last
    exact ⟨.punct openObj :: .str key :: .punct colon :: (value.tokens++init),by rw [Value.tokens,last]; simp⟩

theorem Text.closed (spells : Text (.obj members) ts) : ∀ t, ts.getLast? = some t → Follows t b := by
  intro t last raw atom
  subst atom
  obtain ⟨init,ends⟩ := Value.tokens_last members
  obtain ⟨front,rfl⟩ := List.getLast?_eq_some_iff.mp last
  have tokens := spells.tokens
  rw [List.filter_append,ends] at tokens
  have final := congrArg List.getLast? tokens
  simp [Token.solid] at final

theorem Valid.append_right (ts : List Token) (valid : Valid (ts++us)) : Valid us := by
  induction ts with
  | nil => exact valid
  | cons t ts ih => exact ih valid.2.2

theorem Text.unique (one : Text (.obj members) ts) (two : Text value us) (same : flat ts++b = flat us) :
    value = .obj members ∧ ∃ vs, us = ts++vs ∧ flat vs = b ∧ vs.filter Token.solid = [] := by
  obtain ⟨vs,rfl,rest⟩ := Valid.front ts one.valid two.valid one.closed same
  have tokens := two.tokens
  rw [List.filter_append,one.tokens] at tokens
  have both : (Value.obj members).tokens++vs.filter Token.solid = value.tokens++[] := by simpa using tokens
  obtain ⟨equal,ends⟩ := Value.tokens_inj _ _ both
  exact ⟨equal.symm,vs,rfl,rest,ends⟩

theorem blanks_flat (valid : Valid ts) (none' : ts.filter Token.solid = []) : ∀ c ∈ flat ts, isBlank c = true := by
  induction ts with
  | nil => simp
  | cons t ts ih =>
    cases t with
    | blank c =>
      intro d listed
      rcases List.mem_cons.mp listed with rfl | listed
      · exact valid.1
      · exact ih valid.2.2 none' d listed
    | punct | str | atom => simp [Token.solid] at none'

theorem units_byte (c : UInt8) (rest : List UInt8) (plain : c ≠ backslash) :
    units (c :: rest) = (units rest).map (.inl c :: ·) := by
  rw [units.eq_def]
  exact if_neg plain

theorem units_escape (e c : UInt8) (rest : List UInt8) (known : escaped e = some c) (other : e ≠ 117) :
    units (backslash :: e :: rest) = (units rest).map (.inl c :: ·) := by
  rw [units.eq_def]
  simp [other,known]

theorem units_unicode (a b c d : UInt8) (rest : List UInt8) (value : codeUnit a b c d = some n) :
    units (backslash :: 117 :: a :: b :: c :: d :: rest) = (units rest).map (.inr n :: ·) := by
  rw [units.eq_def]
  simp [value]

theorem assemble_byte (c : UInt8) (us : List (UInt8 ⊕ Nat)) : assemble (.inl c :: us) = (assemble us).map (c :: ·) := by
  rw [assemble.eq_def]

theorem assemble_small (us : List (UInt8 ⊕ Nat)) (small : n < 0x80) :
    assemble (.inr n :: us) = (assemble us).map (UInt8.ofNat n :: ·) := by
  have notHigh : ¬ (0xD800 ≤ n ∧ n < 0xDC00) := by omega
  have notLow : ¬ (0xDC00 ≤ n ∧ n < 0xE000) := by omega
  rw [assemble.eq_def]
  simp only [if_neg notHigh,if_neg notLow,utf8,if_pos small]
  rfl

theorem unescape_byte (c : UInt8) (rest : List UInt8) (plain : c ≠ backslash) :
    unescape (c :: rest) = (unescape rest).map (c :: ·) := by
  simp only [unescape,units_byte c rest plain]
  cases units rest <;> simp [assemble_byte]

theorem unescape_escape (e c : UInt8) (rest : List UInt8) (known : escaped e = some c) (other : e ≠ 117) :
    unescape (backslash :: e :: rest) = (unescape rest).map (c :: ·) := by
  simp only [unescape,units_escape e c rest known other]
  cases units rest <;> simp [assemble_byte]

theorem unescape_unicode (a b c d : UInt8) (rest : List UInt8) (value : codeUnit a b c d = some n) (small : n < 0x80) :
    unescape (backslash :: 117 :: a :: b :: c :: d :: rest) = (unescape rest).map (UInt8.ofNat n :: ·) := by
  simp only [unescape,units_unicode a b c d rest value]
  cases units rest <;> simp [assemble_small _ small]

theorem valid_punct (known : isPunct c = true) (valid : Valid ts) : Valid (.punct c :: ts) :=
  ⟨known,by intro raw atom; simp at atom,valid⟩

theorem valid_str (spelled : Spelled raw) (valid : Valid ts) : Valid (.str raw :: ts) :=
  ⟨spelled,by intro raw atom; simp at atom,valid⟩

-- What goes on with anything but a number's byte ends every token.
def Stops (ts : List Token) : Prop := ∀ c, (flat ts).head? = some c → isAtomByte c = false

theorem stops_punct (known : isPunct c = true) : Stops (.punct c :: ts) := by
  intro d first
  obtain rfl : c = d := Option.some.inj first
  have kind := punct_kind c known
  cases atom : isAtomByte c with
  | false => rfl
  | true => exact absurd (atomByte_kind c atom) (by rw [kind]; decide)

mutual
theorem Value.valid : ∀ (v : Value) {ts : List Token}, v.Good → Valid ts → Stops ts → Valid (v.tokens++ts)
  | .atom raw,ts,good,valid,stops => by
    rw [Value.tokens]
    refine ⟨by simpa [Value.Good,Token.Good] using good,fun raw' atom c first => stops c first,valid⟩
  | .str raw,ts,good,valid,_ => by
    rw [Value.tokens]
    exact valid_str (by simpa [Value.Good] using good) valid
  | .arr .nil,ts,_,valid,_ => by
    rw [Value.tokens]
    exact valid_punct (by decide) (valid_punct (by decide) valid)
  | .arr (.cons value rest),ts,good,valid,stops => by
    simp only [Value.Good,Items.Good] at good
    obtain ⟨tail,ends⟩ := Items.more_valid rest good.2 valid
    rw [Value.tokens,List.cons_append,List.append_assoc]
    exact valid_punct (by decide) (Value.valid value good.1 tail ends)
  | .obj .nil,ts,_,valid,_ => by
    rw [Value.tokens]
    exact valid_punct (by decide) (valid_punct (by decide) valid)
  | .obj (.cons key value rest),ts,good,valid,stops => by
    simp only [Value.Good,Members.Good] at good
    obtain ⟨tail,ends⟩ := Members.more_valid rest good.2.2 valid
    rw [Value.tokens,List.cons_append,List.cons_append,List.cons_append,List.append_assoc]
    exact valid_punct (by decide) (valid_str good.1 (valid_punct (by decide) (Value.valid value good.2.1 tail ends)))
theorem Items.more_valid : ∀ (xs : Items) {ts : List Token}, xs.Good → Valid ts → Valid (xs.more++ts) ∧ Stops (xs.more++ts)
  | .nil,ts,_,valid => by
    rw [Items.more]
    exact ⟨valid_punct (by decide) valid,stops_punct (by decide)⟩
  | .cons value rest,ts,good,valid => by
    simp only [Items.Good] at good
    obtain ⟨tail,ends⟩ := Items.more_valid rest good.2 valid
    rw [Items.more,List.cons_append,List.append_assoc]
    exact ⟨valid_punct (by decide) (Value.valid value good.1 tail ends),stops_punct (by decide)⟩
theorem Members.more_valid : ∀ (xs : Members) {ts : List Token}, xs.Good → Valid ts → Valid (xs.more++ts) ∧ Stops (xs.more++ts)
  | .nil,ts,_,valid => by
    rw [Members.more]
    exact ⟨valid_punct (by decide) valid,stops_punct (by decide)⟩
  | .cons key value rest,ts,good,valid => by
    simp only [Members.Good] at good
    obtain ⟨tail,ends⟩ := Members.more_valid rest good.2.2 valid
    rw [Members.more,List.cons_append,List.cons_append,List.cons_append,List.append_assoc]
    exact ⟨valid_punct (by decide) (valid_str good.1 (valid_punct (by decide) (Value.valid value good.2.1 tail ends))),
      stops_punct (by decide)⟩
end

theorem solid_punct (c : UInt8) (ts : List Token) : (Token.punct c :: ts).filter Token.solid = .punct c :: ts.filter Token.solid := rfl
theorem solid_str (raw : List UInt8) (ts : List Token) : (Token.str raw :: ts).filter Token.solid = .str raw :: ts.filter Token.solid := rfl

mutual
theorem Value.tokens_solid : ∀ v : Value, v.tokens.filter Token.solid = v.tokens
  | .atom raw => by rw [Value.tokens]; rfl
  | .str raw => by rw [Value.tokens]; rfl
  | .arr .nil => by rw [Value.tokens]; rfl
  | .arr (.cons value rest) => by simp only [Value.tokens,solid_punct,List.filter_append,Value.tokens_solid value,Items.more_solid rest]
  | .obj .nil => by rw [Value.tokens]; rfl
  | .obj (.cons key value rest) => by
    simp only [Value.tokens,solid_punct,solid_str,List.filter_append,Value.tokens_solid value,Members.more_solid rest]
theorem Items.more_solid : ∀ xs : Items, xs.more.filter Token.solid = xs.more
  | .nil => by rw [Items.more]; rfl
  | .cons value rest => by simp only [Items.more,solid_punct,List.filter_append,Value.tokens_solid value,Items.more_solid rest]
theorem Members.more_solid : ∀ xs : Members, xs.more.filter Token.solid = xs.more
  | .nil => by rw [Members.more]; rfl
  | .cons key value rest => by
    simp only [Members.more,solid_punct,solid_str,List.filter_append,Value.tokens_solid value,Members.more_solid rest]
end

theorem Value.text (v : Value) (good : v.Good) : Text v v.tokens := by
  refine ⟨?_,v.tokens_solid⟩
  have valid : Valid (v.tokens++[]) := v.valid good trivial (by intro c first; simp at first)
  rwa [List.append_nil] at valid

theorem Spelled.append (one : Spelled raw) (two : Spelled raw') : Spelled (raw++raw') := by
  induction one with
  | nil => exact two
  | byte c rest low notQuote notSlash _ ih => exact .byte c _ low notQuote notSlash ih
  | escape e rest known _ ih => exact .escape e _ known ih
  | unicode a b c d rest hex _ ih => exact .unicode a b c d _ hex ih

theorem spelled_plain : ∀ raw : List UInt8, (raw.all fun c => 32 ≤ c && c ≠ quote && c ≠ backslash) = true → Spelled raw
  | [],_ => .nil
  | c :: rest,plain => by
    simp only [List.all_cons,Bool.and_eq_true,decide_eq_true_eq] at plain
    exact .byte c rest plain.1.1.1 plain.1.1.2 plain.1.2 (spelled_plain rest plain.2)

theorem unescape_plain : ∀ raw : List UInt8, (raw.all fun c => 32 ≤ c && c ≠ quote && c ≠ backslash) = true →
    unescape raw = some raw
  | [],_ => rfl
  | c :: rest,plain => by
    simp only [List.all_cons,Bool.and_eq_true,decide_eq_true_eq] at plain
    rw [unescape_byte c rest plain.1.2,unescape_plain rest plain.2]
    rfl

theorem isHex_printable (hex : isHex c = true) : 32 ≤ c := by
  simp only [isHex,isDigit,Bool.or_eq_true,Bool.and_eq_true,decide_eq_true_eq] at hex
  rcases hex with (⟨low,_⟩ | ⟨low,_⟩) | ⟨low,_⟩
  · exact UInt8.le_trans (by decide) low
  · exact UInt8.le_trans (by decide) low
  · exact UInt8.le_trans (by decide) low

theorem Spelled.printable (spelled : Spelled raw) : ∀ c ∈ raw, 32 ≤ c := by
  induction spelled with
  | nil => simp
  | byte c rest low _ _ _ ih => exact List.forall_mem_cons.mpr ⟨low,ih⟩
  | escape e rest known _ ih =>
    have letters : ∀ e ∈ ([34,92,47,98,102,110,114,116] : List UInt8),32 ≤ e := by simp
    exact List.forall_mem_cons.mpr ⟨by decide,List.forall_mem_cons.mpr ⟨letters e known,ih⟩⟩
  | unicode a b c d rest hex _ ih =>
    simp only [List.all_cons,List.all_nil,Bool.and_true,Bool.and_eq_true] at hex
    simp only [List.forall_mem_cons]
    exact ⟨by decide,by decide,isHex_printable hex.1,isHex_printable hex.2.1,isHex_printable hex.2.2.1,isHex_printable hex.2.2.2,ih⟩

theorem Spelled.no_nul (spelled : Spelled raw) : ∀ c ∈ raw, c ≠ 0 := by
  rintro c listed rfl
  exact absurd (spelled.printable 0 listed) (by decide)

theorem Valid.no_nul (ts : List Token) (valid : Valid ts) : ∀ c ∈ flat ts, c ≠ 0 := by
  induction ts with
  | nil => simp
  | cons t ts ih =>
    intro c listed
    rw [flat_cons] at listed
    rcases List.mem_append.mp listed with listed | listed
    · have good := valid.1
      rintro rfl
      cases t with
      | blank d =>
        obtain rfl := List.mem_singleton.mp listed
        exact absurd good (by simp [Token.Good,isBlank])
      | punct d =>
        obtain rfl := List.mem_singleton.mp listed
        exact absurd good (by simp [Token.Good,isPunct,comma,colon,openArr,closeArr,openObj,closeObj])
      | str raw =>
        rcases List.mem_cons.mp listed with opens | listed
        · exact absurd opens (by decide)
        · rcases List.mem_append.mp listed with inside | closes
          · exact Spelled.no_nul good 0 inside rfl
          · exact absurd (List.mem_singleton.mp closes) (by decide)
      | atom raw =>
        exact absurd (good.bytes.2 0 listed) (by decide)
    · exact ih valid.2.2 c listed

end Json
