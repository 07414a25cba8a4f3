import TinyLlama.Server.Messages
import TinyLlama.Server.Places

namespace TinyLlama.Server
open Json (Token Valid Spelled flat)

section Copies

-- A string without \b, \f and \uXXXX, \u003f apart.
inductive Verbatim : List UInt8 → Prop
  | nil : Verbatim []
  | byte (c : UInt8) (rest : List UInt8) : c ≠ backslash → Verbatim rest → Verbatim (c :: rest)
  | escape (e : UInt8) (rest : List UInt8) : e ∈ [34,92,47,110,114,116] → Verbatim rest → Verbatim (backslash :: e :: rest)
  | question (a b c d : UInt8) (rest : List UInt8) : Json.codeUnit a b c d = some 63 → Verbatim rest →
      Verbatim (backslash :: 117 :: a :: b :: c :: d :: rest)

theorem verbatim_read (verbatim : Verbatim raw) : ∀ {t : List UInt8} {fuel : Nat},Json.unescape raw = some t → raw.length ≤ fuel →
    jsonUnescapeFrom fuel raw = t := by
  induction verbatim with
  | nil =>
    intro t fuel reads _
    obtain rfl : [] = t := Option.some.inj reads
    cases fuel <;> rfl
  | byte c rest plain _ ih =>
    intro t fuel reads enough
    obtain ⟨fuel,rfl⟩ : ∃ n,fuel = n+1 := ⟨fuel-1,by simp only [List.length_cons] at enough; omega⟩
    rw [Json.unescape_byte c rest plain,Option.map_eq_some_iff] at reads
    obtain ⟨t,reads,rfl⟩ := reads
    simp [jsonUnescapeFrom,plain,ih reads (by simpa using enough)]
  | escape e rest known _ ih =>
    intro t fuel reads enough
    simp only [List.length_cons] at enough
    obtain ⟨fuel,rfl⟩ : ∃ n,fuel = n+1 := ⟨fuel-1,by omega⟩
    simp only [List.mem_cons,List.not_mem_nil,or_false] at known
    rcases known with rfl | rfl | rfl | rfl | rfl | rfl
    all_goals
      rw [show backslash = Json.backslash from rfl,Json.unescape_escape _ _ rest rfl (by decide),Option.map_eq_some_iff] at reads
      obtain ⟨t,reads,rfl⟩ := reads
      simp [jsonUnescapeFrom,ih reads (by omega : rest.length ≤ fuel)]
  | question a b c d rest value _ ih =>
    intro t fuel reads enough
    simp only [List.length_cons] at enough
    obtain ⟨fuel,rfl⟩ : ∃ n,fuel = n+1 := ⟨fuel-1,by omega⟩
    rw [show backslash = Json.backslash from rfl,Json.unescape_unicode a b c d rest value (by decide),Option.map_eq_some_iff] at reads
    obtain ⟨t,reads,rfl⟩ := reads
    simp [jsonUnescapeFrom,ih reads (by omega : rest.length ≤ fuel)]

def pairByte (e : UInt8) : UInt8 := if e = 110 then 10 else if e = 114 then 13 else if e = 116 then 9 else e

theorem jsonUnescapeFrom_pair (e : UInt8) (rest : List UInt8) (fuel : Nat) (other : e ≠ 117) :
    jsonUnescapeFrom (fuel+1) (Json.backslash :: e :: rest) = pairByte e :: jsonUnescapeFrom fuel rest := by
  rw [jsonUnescapeFrom,if_pos (show Json.backslash = backslash from rfl)]
  simp only [if_neg other,pairByte]
  split_ifs <;> rfl

theorem jsonUnescapeFrom_unicode (a b c d : UInt8) (rest : List UInt8) (fuel : Nat) :
    jsonUnescapeFrom (fuel+1) (Json.backslash :: 117 :: a :: b :: c :: d :: rest) = 63 :: jsonUnescapeFrom fuel rest := by
  simp [jsonUnescapeFrom,show Json.backslash = backslash from rfl]

def unitByte : UInt8 ⊕ Nat → UInt8 := Sum.elim id UInt8.ofNat

theorem assemble_length : ∀ (us : List (UInt8 ⊕ Nat)) {t : List UInt8},Json.assemble us = some t →
    us.length ≤ t.length ∧ (t.length = us.length → t = us.map unitByte ∧ ∀ n,.inr n ∈ us → n < 0x80)
  | [],t,reads => by
    obtain rfl : [] = t := Option.some.inj reads
    simp
  | .inl c :: us,t,reads => by
    rw [Json.assemble_byte,Option.map_eq_some_iff] at reads
    obtain ⟨t,reads,rfl⟩ := reads
    obtain ⟨shorter,same⟩ := assemble_length us reads
    refine ⟨by simpa using shorter,fun equal => ?_⟩
    obtain ⟨bytes,low⟩ := same (by simpa using equal)
    exact ⟨by rw [List.map_cons,← bytes]; rfl,fun n listed => low n (by simpa using listed)⟩
  | .inr n :: us,t,reads => by
    rw [Json.assemble.eq_def] at reads
    dsimp only at reads
    split at reads
    · cases us with
      | nil => cases reads
      | cons u us =>
        cases u with
        | inl c => cases reads
        | inr m =>
          dsimp only at reads
          split at reads
          · next low =>
            rw [Option.map_eq_some_iff] at reads
            obtain ⟨t,reads,rfl⟩ := reads
            have shorter := (assemble_length us reads).1
            have wide : (Json.utf8 (0x10000+(n-0xD800)*1024+(m-0xDC00))).length = 4 := by
              rw [Json.utf8,if_neg (by omega),if_neg (by omega),if_neg (by omega)]
              rfl
            simp only [List.length_append,List.length_cons,wide]
            exact ⟨by omega,fun equal => by omega⟩
          · cases reads
    · split at reads
      · cases reads
      · rw [Option.map_eq_some_iff] at reads
        obtain ⟨t,reads,rfl⟩ := reads
        obtain ⟨shorter,same⟩ := assemble_length us reads
        by_cases small : n < 0x80
        · have one : Json.utf8 n = [UInt8.ofNat n] := by rw [Json.utf8,if_pos small]
          rw [one]
          refine ⟨by simpa using shorter,fun equal => ?_⟩
          obtain ⟨bytes,low⟩ := same (by simpa using equal)
          refine ⟨by rw [List.map_cons,← bytes]; rfl,fun k listed => ?_⟩
          rcases List.mem_cons.mp listed with first | later
          · rw [Sum.inr.inj first]
            exact small
          · exact low k later
        · have wide : 2 ≤ (Json.utf8 n).length := by
            unfold Json.utf8
            split_ifs <;> simp
          simp only [List.length_append,List.length_cons]
          exact ⟨by omega,fun equal => by omega⟩

theorem unescaped_length (spelled : Spelled raw) : ∀ {us : List (UInt8 ⊕ Nat)} {fuel : Nat},Json.units raw = some us →
    raw.length ≤ fuel → (jsonUnescapeFrom fuel raw).length = us.length := by
  induction spelled with
  | nil =>
    intro us fuel reads _
    obtain rfl : [] = us := Option.some.inj reads
    cases fuel <;> rfl
  | byte c rest _ _ plain _ ih =>
    intro us fuel reads enough
    simp only [List.length_cons] at enough
    obtain ⟨fuel,rfl⟩ : ∃ n,fuel = n+1 := ⟨fuel-1,by omega⟩
    rw [Json.units_byte c rest plain,Option.map_eq_some_iff] at reads
    obtain ⟨us,reads,rfl⟩ := reads
    simp [jsonUnescapeFrom,show c ≠ backslash from plain,ih reads (by omega : rest.length ≤ fuel)]
  | escape e rest known _ ih =>
    intro us fuel reads enough
    simp only [List.length_cons] at enough
    obtain ⟨fuel,rfl⟩ : ∃ n,fuel = n+1 := ⟨fuel-1,by omega⟩
    simp only [List.mem_cons,List.not_mem_nil,or_false] at known
    rcases known with rfl | rfl | rfl | rfl | rfl | rfl | rfl | rfl
    all_goals
      rw [Json.units_escape _ _ rest rfl (by decide),Option.map_eq_some_iff] at reads
      obtain ⟨us,reads,rfl⟩ := reads
      simp [jsonUnescapeFrom,show Json.backslash = backslash from rfl,ih reads (by omega : rest.length ≤ fuel)]
  | unicode a b c d rest hex _ ih =>
    intro us fuel reads enough
    simp only [List.length_cons] at enough
    obtain ⟨fuel,rfl⟩ : ∃ n,fuel = n+1 := ⟨fuel-1,by omega⟩
    obtain ⟨n,value⟩ : ∃ n,Json.codeUnit a b c d = some n := by
      cases value : Json.codeUnit a b c d with
      | some n => exact ⟨n,rfl⟩
      | none => rw [Json.units.eq_def] at reads; simp [value] at reads
    rw [Json.units_unicode a b c d rest value,Option.map_eq_some_iff] at reads
    obtain ⟨us,reads,rfl⟩ := reads
    simp [jsonUnescapeFrom,show Json.backslash = backslash from rfl,ih reads (by omega : rest.length ≤ fuel)]

theorem units_verbatim (spelled : Spelled raw) : ∀ {us : List (UInt8 ⊕ Nat)} {fuel : Nat},Json.units raw = some us →
    raw.length ≤ fuel → (∀ n,.inr n ∈ us → n < 0x80) → jsonUnescapeFrom fuel raw = us.map unitByte → Verbatim raw := by
  induction spelled with
  | nil => exact fun _ _ _ _ => .nil
  | byte c rest _ _ plain _ ih =>
    intro us fuel reads enough low same
    simp only [List.length_cons] at enough
    obtain ⟨fuel,rfl⟩ : ∃ n,fuel = n+1 := ⟨fuel-1,by omega⟩
    rw [Json.units_byte c rest plain,Option.map_eq_some_iff] at reads
    obtain ⟨us,reads,rfl⟩ := reads
    simp only [jsonUnescapeFrom,if_neg (show c ≠ backslash from plain),List.map_cons,List.cons.injEq] at same
    exact .byte c rest plain (ih reads (by omega : rest.length ≤ fuel) (fun n listed => low n (List.mem_cons_of_mem _ listed)) same.2)
  | escape e rest known _ ih =>
    intro us fuel reads enough low same
    simp only [List.length_cons] at enough
    obtain ⟨fuel,rfl⟩ : ∃ n,fuel = n+1 := ⟨fuel-1,by omega⟩
    simp only [List.mem_cons,List.not_mem_nil,or_false] at known
    rcases known with rfl | rfl | rfl | rfl | rfl | rfl | rfl | rfl
    all_goals
      rw [Json.units_escape _ _ rest rfl (by decide),Option.map_eq_some_iff] at reads
      obtain ⟨us,reads,rfl⟩ := reads
      simp only [List.map_cons] at same
      obtain ⟨first,same⟩ := List.cons.inj ((jsonUnescapeFrom_pair _ rest fuel (by decide)).symm.trans same)
      first
        | exact absurd first (by decide)
        | exact .escape _ rest (by decide)
            (ih reads (by omega : rest.length ≤ fuel) (fun n listed => low n (List.mem_cons_of_mem _ listed)) same)
  | unicode a b c d rest hex _ ih =>
    intro us fuel reads enough low same
    simp only [List.length_cons] at enough
    obtain ⟨fuel,rfl⟩ : ∃ n,fuel = n+1 := ⟨fuel-1,by omega⟩
    obtain ⟨n,value⟩ : ∃ n,Json.codeUnit a b c d = some n := by
      cases value : Json.codeUnit a b c d with
      | some n => exact ⟨n,rfl⟩
      | none => rw [Json.units.eq_def] at reads; simp [value] at reads
    rw [Json.units_unicode a b c d rest value,Option.map_eq_some_iff] at reads
    obtain ⟨us,reads,rfl⟩ := reads
    have small := low n (List.mem_cons_self ..)
    simp only [List.map_cons] at same
    obtain ⟨first,same⟩ := List.cons.inj ((jsonUnescapeFrom_unicode a b c d rest fuel).symm.trans same)
    have isQuestion : n = 63 := by
      have same' := congrArg UInt8.toNat first
      simp only [unitByte,Sum.elim_inr,UInt8.toNat_ofNat'] at same'
      have one : (63 : UInt8).toNat = 63 := rfl
      omega
    exact .question a b c d rest (isQuestion ▸ value)
      (ih reads (by omega : rest.length ≤ fuel) (fun n listed => low n (List.mem_cons_of_mem _ listed)) same)

theorem readInto_exact (spelled : Spelled raw) (reads : Json.unescape raw = some t) (fits : raw.length < cap) :
    readInto cap raw = t ↔ Verbatim raw := by
  have whole : raw.take (cap-1) = raw := List.take_of_length_le (by omega)
  unfold readInto
  rw [whole]
  constructor
  · intro same
    obtain ⟨us,spells,assembled⟩ := Option.bind_eq_some_iff.mp reads
    have long : (jsonUnescape raw).length = us.length := unescaped_length spelled spells le_rfl
    obtain ⟨bytes,low⟩ := (assemble_length us assembled).2 (by rw [← same,long])
    exact units_verbatim spelled spells le_rfl low (same.trans bytes)
  · exact fun verbatim => verbatim_read verbatim reads le_rfl

end Copies

structure Message where
  role : List UInt8
  text : List UInt8

-- An object with a string role and a string content; it may have other members.
def IsMessage (v : Json.Value) (m : Message) : Prop :=
  (v.get (cstr "role")).bind Json.Value.string = some m.role ∧ (v.get (cstr "content")).bind Json.Value.string = some m.text

-- A job body that is the text of an object with a "messages" array of messages.
structure ChatBody where
  body : JobBody
  members : Json.Members
  tokens : List Token
  spells : Json.Text (.obj members) tokens
  whole : flat tokens = body.text
  items : Json.Items
  listed : (Json.Value.obj members).get (cstr "messages") = some (.arr items)
  messages : List Message
  each : List.Forall₂ IsMessage items.toList messages

-- The text of the last user message, "" when there is none.
def ChatBody.user (c : ChatBody) : List UInt8 :=
  ((c.messages.filter fun m => m.role = cstr "user").getLast?.map Message.text).getD []

-- `sys` is the text of a system message, or there is none.
def ChatBody.IsSystem (c : ChatBody) : Option (List UInt8) → Prop
  | some text => ∃ m ∈ c.messages, m.role = cstr "system" ∧ m.text = text
  | none => ∀ m ∈ c.messages, m.role ≠ cstr "system"

def ChatBody.Faithful (c : ChatBody) : Prop :=
  ∃ user sys, c.body.messages = .done (user,sys) ∧ user = c.user ∧ c.IsSystem sys

-- `a` stands at place p and is the last in the list that meets q.
structure IsLast (q : α → Prop) (l : List α) (p : Nat) (a : α) : Prop where
  here : l[p]? = some a
  meets : q a
  later : ∀ j b,p < j → l[j]? = some b → ¬ q b

theorem last_filter (q : α → Prop) [DecidablePred q] (l : List α) :
    ((l.filter q).getLast? = none ∧ ∀ a ∈ l,¬ q a) ∨ ∃ p a,(l.filter q).getLast? = some a ∧ IsLast q l p a := by
  induction l with
  | nil => exact .inl ⟨rfl,by simp⟩
  | cons b l ih =>
    rcases ih with ⟨empty,none'⟩ | ⟨p,a,last,isLast⟩
    · rw [List.getLast?_eq_none_iff] at empty
      by_cases holds : q b
      · refine .inr ⟨0,b,by rw [List.filter_cons_of_pos (by simpa using holds),empty]; rfl,rfl,holds,fun j a after there => ?_⟩
        obtain ⟨j,rfl⟩ : ∃ n,j = n+1 := ⟨j-1,by omega⟩
        exact none' a (List.mem_of_getElem? there)
      · refine .inl ⟨by rw [List.filter_cons_of_neg (by simpa using holds),empty]; rfl,fun a inside => ?_⟩
        rcases List.mem_cons.mp inside with rfl | inside
        · exact holds
        · exact none' a inside
    · refine .inr ⟨p+1,a,?_,isLast.here,isLast.meets,fun j c after there => ?_⟩
      · by_cases holds : q b
        · rw [List.filter_cons_of_pos (by simpa using holds),List.getLast?_cons,last]
          rfl
        · rw [List.filter_cons_of_neg (by simpa using holds),last]
      · obtain ⟨j,rfl⟩ : ∃ n,j = n+1 := ⟨j-1,by omega⟩
        exact isLast.later j c (by omega) there

theorem IsLast.unique (first : IsLast q l p a) (second : IsLast q l p' a') : p = p' ∧ a = a' := by
  rcases Nat.lt_trichotomy p p' with before | rfl | after
  · exact absurd second.meets (first.later p' a' before second.here)
  · exact ⟨rfl,Option.some.inj (first.here.symm.trans second.here)⟩
  · exact absurd first.meets (second.later p a after first.here)

def ChatBody.LastUser (c : ChatBody) (k : Nat) (m : Message) : Prop := IsLast (fun m => m.role = cstr "user") c.messages k m

def ChatBody.System (c : ChatBody) (k : Nat) (m : Message) : Prop := c.messages[k]? = some m ∧ m.role = cstr "system"

-- The last content string with "user" from 60 bytes before it on is the last user message's, with no escape
-- that json_unescape loses, and the buffer holds it; or there is no such string and no text to hand over.
def ChatBody.UserClear (c : ChatBody) : Prop :=
  (∃ k m p entry,c.LastUser k m ∧ messagePlace k c.members = some p ∧
    IsLast (Reaches c.body.text 60 "user") (contents c.tokens) p entry ∧ entry.1.length < userBuf ∧ Verbatim entry.1) ∨
  (c.user = [] ∧ ∀ entry ∈ contents c.tokens,¬ Reaches c.body.text 60 "user" entry)

-- The same of the first content string, "system" and 40 bytes.
def ChatBody.SystemClear (c : ChatBody) : Prop :=
  (∃ k m entry,c.System k m ∧ messagePlace k c.members = some 0 ∧ (contents c.tokens).head? = some entry ∧
    Reaches c.body.text 40 "system" entry ∧ entry.1.length < sysBuf ∧ Verbatim entry.1) ∨
  ((∀ m ∈ c.messages,m.role ≠ cstr "system") ∧ ∀ entry ∈ (contents c.tokens).head?,¬ Reaches c.body.text 40 "system" entry)

def ChatBody.Clear (c : ChatBody) : Prop := c.UserClear ∧ c.SystemClear

-- Each message's content fits its buffer as it is spelled.
def ChatBody.Short (c : ChatBody) : Prop := ∀ k m p entry,c.messages[k]? = some m → messagePlace k c.members = some p →
  (contents c.tokens)[p]? = some entry → entry.1.length < if m.role = cstr "system" then sysBuf else userBuf

-- Another content string happens to be read as the text asked for.
def ChatBody.Twin (c : ChatBody) : Prop :=
  (∃ p entry,(contents c.tokens)[p]? = some entry ∧ (∀ k m,c.LastUser k m → messagePlace k c.members ≠ some p) ∧
    readInto userBuf entry.1 = c.user) ∨
  ∃ k m entry,c.System k m ∧ messagePlace k c.members ≠ some 0 ∧ (contents c.tokens).head? = some entry ∧
    readInto sysBuf entry.1 = m.text

theorem each_item (each : List.Forall₂ IsMessage vs ms) : ∀ (k : Nat) {m : Message},ms[k]? = some m →
    ∃ v,vs[k]? = some v ∧ IsMessage v m := by
  induction each with
  | nil => exact fun k m item => by simp at item
  | @cons v m' vs ms message _ ih =>
    intro k m item
    cases k with
    | zero => exact ⟨v,rfl,by simpa [show m' = m from by simpa using item] using message⟩
    | succ k => exact ih k item

section Condition
variable (c : ChatBody)

theorem ChatBody.lastUser : (c.user = [] ∧ ∀ k m,¬ c.LastUser k m) ∨ ∃ k m,c.LastUser k m ∧ c.user = m.text := by
  rcases last_filter (fun m : Message => m.role = cstr "user") c.messages with ⟨empty,none'⟩ | ⟨k,m,last,isLast⟩
  · exact .inl ⟨by rw [ChatBody.user,empty]; rfl,fun k m isLast => none' m (List.mem_of_getElem? isLast.here) isLast.meets⟩
  · exact .inr ⟨k,m,isLast,by rw [ChatBody.user,last]; rfl⟩

theorem ChatBody.spelled (listed : entry ∈ contents c.tokens) : Spelled entry.1 := by
  obtain ⟨before,split⟩ := contents_suffix c.tokens entry listed
  have valid := c.spells.valid
  rw [← split] at valid
  exact (Json.Valid.append_right before valid).1

theorem ChatBody.placed (item : c.messages[k]? = some m) (at' : messagePlace k c.members = some p)
    (here : (contents c.tokens)[p]? = some entry) : Json.unescape entry.1 = some m.text := by
  obtain ⟨v,item',message⟩ := each_item c.each k item
  obtain ⟨raw,there,reads⟩ := messagePlace_raw c.members p c.listed item' message.2 at'
  have same : (contents c.tokens).map Prod.fst = membersContents c.members := contents_text c.spells
  rw [← same,List.getElem?_map,here] at there
  rw [show entry.1 = raw from Option.some.inj there,reads]

theorem ChatBody.userEntry_cases :
    (userEntry c.body.text c.tokens = none ∧ ∀ entry ∈ contents c.tokens,¬ Reaches c.body.text 60 "user" entry) ∨
    ∃ p entry,userEntry c.body.text c.tokens = some entry ∧ IsLast (Reaches c.body.text 60 "user") (contents c.tokens) p entry :=
  last_filter (Reaches c.body.text 60 "user") (contents c.tokens)

theorem ChatBody.messages_read : c.body.messages = .done (((userEntry c.body.text c.tokens).map fun entry => readInto userBuf entry.1).getD [],
    (systemEntry c.body.text c.tokens).map fun entry => readInto sysBuf entry.1) :=
  messages_entries c.body c.spells c.whole

theorem ChatBody.systemEntry_none (far : ∀ entry ∈ (contents c.tokens).head?,¬ Reaches c.body.text 40 "system" entry) :
    systemEntry c.body.text c.tokens = none :=
  Option.filter_eq_none_iff.mpr fun entry listed => by simpa using far entry listed

theorem ChatBody.systemEntry_some (first : (contents c.tokens).head? = some entry) (reach : Reaches c.body.text 40 "system" entry) :
    systemEntry c.body.text c.tokens = some entry := by
  rw [systemEntry,first]
  exact Option.filter_some_pos (by simpa using reach)

theorem ChatBody.UserClear.read (clear : c.UserClear) :
    ((userEntry c.body.text c.tokens).map fun entry => readInto userBuf entry.1).getD [] = c.user := by
  rcases clear with ⟨k,m,p,entry,isLast,at',picked,fits,verbatim⟩ | ⟨empty,far⟩
  · have reads := c.placed isLast.here at' picked.here
    have exact' := (readInto_exact (c.spelled (List.mem_of_getElem? picked.here)) reads fits).mpr verbatim
    have wanted : c.user = m.text := by
      rcases c.lastUser with ⟨_,none'⟩ | ⟨k',m',isLast',same⟩
      · exact absurd isLast (none' k m)
      · rw [same,(isLast.unique isLast').2]
    rcases c.userEntry_cases with ⟨_,none'⟩ | ⟨p',entry',found,picked'⟩
    · exact absurd picked.meets (none' entry (List.mem_of_getElem? picked.here))
    · rw [found,← (picked.unique picked').2,wanted]
      exact exact'
  · rcases c.userEntry_cases with ⟨found,_⟩ | ⟨p,entry,found,picked⟩
    · rw [found,empty]
      rfl
    · exact absurd picked.meets (far entry (List.mem_of_getElem? picked.here))

theorem ChatBody.SystemClear.read (clear : c.SystemClear) :
    c.IsSystem ((systemEntry c.body.text c.tokens).map fun entry => readInto sysBuf entry.1) := by
  rcases clear with ⟨k,m,entry,⟨item,isSystem⟩,at',first,reach,fits,verbatim⟩ | ⟨none',far⟩
  · rw [c.systemEntry_some first reach]
    have here : (contents c.tokens)[0]? = some entry := by rw [← List.head?_eq_getElem?,first]
    have exact' := (readInto_exact (c.spelled (List.mem_of_getElem? here)) (c.placed item at' here) fits).mpr verbatim
    exact ⟨m,List.mem_of_getElem? item,isSystem,exact'.symm⟩
  · rw [c.systemEntry_none far]
    exact none'

theorem ChatBody.userClear_of (short : c.Short) (single : ¬ c.Twin)
    (reads : ((userEntry c.body.text c.tokens).map fun entry => readInto userBuf entry.1).getD [] = c.user) : c.UserClear := by
  rcases c.userEntry_cases with ⟨found,far⟩ | ⟨p,entry,found,picked⟩
  · refine .inr ⟨?_,far⟩
    rw [← reads,found]
    rfl
  · rw [found] at reads
    have reads' : readInto userBuf entry.1 = c.user := reads
    by_cases own : ∃ k m,c.LastUser k m ∧ messagePlace k c.members = some p
    · obtain ⟨k,m,isLast,at'⟩ := own
      have fits : entry.1.length < userBuf := by
        have fits := short k m p entry isLast.here at' picked.here
        rwa [isLast.meets,if_neg (by decide +kernel)] at fits
      have wanted : c.user = m.text := by
        rcases c.lastUser with ⟨_,none'⟩ | ⟨k',m',isLast',same⟩
        · exact absurd isLast (none' k m)
        · rw [same,(isLast.unique isLast').2]
      rw [wanted] at reads'
      exact .inl ⟨k,m,p,entry,isLast,at',picked,fits,(readInto_exact (c.spelled (List.mem_of_getElem? picked.here))
        (c.placed isLast.here at' picked.here) fits).mp reads'⟩
    · exact absurd (.inl ⟨p,entry,picked.here,fun k m isLast at' => own ⟨k,m,isLast,at'⟩,reads'⟩) single

theorem ChatBody.systemClear_of (short : c.Short) (single : ¬ c.Twin)
    (reads : c.IsSystem ((systemEntry c.body.text c.tokens).map fun entry => readInto sysBuf entry.1)) : c.SystemClear := by
  by_cases near : ∃ entry,(contents c.tokens).head? = some entry ∧ Reaches c.body.text 40 "system" entry
  · obtain ⟨entry,first,reach⟩ := near
    rw [c.systemEntry_some first reach] at reads
    obtain ⟨m,listed,isSystem,same⟩ := reads
    obtain ⟨k,item⟩ := List.mem_iff_getElem?.mp listed
    have here : (contents c.tokens)[0]? = some entry := by rw [← List.head?_eq_getElem?,first]
    by_cases own : messagePlace k c.members = some 0
    · have fits : entry.1.length < sysBuf := by
        have fits := short k m 0 entry item own here
        rwa [isSystem,if_pos rfl] at fits
      exact .inl ⟨k,m,entry,⟨item,isSystem⟩,own,first,reach,fits,
        (readInto_exact (c.spelled (List.mem_of_getElem? here)) (c.placed item own here) fits).mp same.symm⟩
    · exact absurd (.inr ⟨k,m,entry,⟨item,isSystem⟩,own,first,same.symm⟩) single
  · have far : ∀ entry ∈ (contents c.tokens).head?,¬ Reaches c.body.text 40 "system" entry :=
      fun entry first reach => near ⟨entry,first,reach⟩
    rw [c.systemEntry_none far] at reads
    exact .inr ⟨reads,far⟩

end Condition

theorem extraction_clear (c : ChatBody) : (c.Clear → c.Faithful) ∧ (c.Short → ¬ c.Twin → c.Faithful → c.Clear) := by
  constructor
  · rintro ⟨user,sys⟩
    exact ⟨_,_,c.messages_read,user.read,sys.read⟩
  · rintro short single ⟨user,sys,result,isUser,isSystem⟩
    rw [c.messages_read] at result
    obtain ⟨rfl,rfl⟩ := Prod.mk.inj (Scan.done.inj result)
    exact ⟨c.userClear_of short single isUser,c.systemClear_of short single isSystem⟩

def messageObject (m : String × String) : Json.Value :=
  .obj (.cons (cstr "role") (.str (cstr m.1)) (.cons (cstr "content") (.str (cstr m.2)) .nil))

def pairItems (a b : String × String) : Json.Items := .cons (messageObject a) (.cons (messageObject b) .nil)

def pairMembers (a b : String × String) : Json.Members := .cons (cstr "messages") (.arr (pairItems a b)) .nil

def pairTokens (a b : String × String) : List Token := (Json.Value.obj (pairMembers a b)).tokens

def Word (name : String) : Prop := ((cstr name).all fun c => 32 ≤ c && c ≠ Json.quote && c ≠ Json.backslash) = true

instance : Decidable (Word name) := inferInstanceAs (Decidable (_ = _))

theorem Word.spelled (word : Word name) : Spelled (cstr name) := Json.spelled_plain _ word

theorem Word.unescape (word : Word name) : Json.unescape (cstr name) = some (cstr name) := Json.unescape_plain _ word

theorem word_messages : Word "messages" := by decide +kernel

theorem word_role : Word "role" := by decide +kernel

theorem word_content : Word "content" := by decide +kernel

variable {a b : String × String}

theorem pair_good (plain : ∀ name ∈ [a.1,a.2,b.1,b.2],Word name) : (Json.Value.obj (pairMembers a b)).Good := by
  simp only [List.forall_mem_cons] at plain
  obtain ⟨role,text,role',text',_⟩ := plain
  exact ⟨word_messages.spelled,⟨⟨word_role.spelled,role.spelled,word_content.spelled,text.spelled,trivial⟩,
    ⟨word_role.spelled,role'.spelled,word_content.spelled,text'.spelled,trivial⟩,trivial⟩,trivial⟩

theorem pair_listed : (Json.Value.obj (pairMembers a b)).get (cstr "messages") = some (.arr (pairItems a b)) := by
  simp [Json.Value.get,pairMembers,Json.Members.get,word_messages.unescape]

theorem word_message (role : Word a.1) (text : Word a.2) : IsMessage (messageObject a) ⟨cstr a.1,cstr a.2⟩ := by
  have other : cstr "role" ≠ cstr "content" := by decide +kernel
  simp [IsMessage,messageObject,Json.Value.get,Json.Members.get,Json.Value.string,word_role.unescape,word_content.unescape,other,
    role.unescape,text.unescape]

def pairBody (a b : String × String) (plain : ∀ name ∈ [a.1,a.2,b.1,b.2],Word name)
    (body : JobBody) (whole : flat (pairTokens a b) = body.text) : ChatBody where
  body := body
  members := pairMembers a b
  tokens := pairTokens a b
  spells := (Json.Value.obj (pairMembers a b)).text (pair_good plain)
  whole := whole
  items := pairItems a b
  listed := pair_listed
  messages := [⟨cstr a.1,cstr a.2⟩,⟨cstr b.1,cstr b.2⟩]
  each := .cons (word_message (plain _ (by simp)) (plain _ (by simp))) (.cons (word_message (plain _ (by simp)) (plain _ (by simp))) .nil)

def answeredBody : ChatBody := pairBody ("user","a") ("assistant","b") (by decide +kernel)
  ⟨flat (pairTokens ("user","a") ("assistant","b")),by decide +kernel,by decide +kernel⟩ rfl

theorem answeredBody_messages : answeredBody.body.messages = .done (cstr "b",none) := by decide +kernel

theorem answeredBody_misattributed : answeredBody.body.text =
    cstr "\x7b\"messages\":[\x7b\"role\":\"user\",\"content\":\"a\"\x7d,\x7b\"role\":\"assistant\",\"content\":\"b\"\x7d]\x7d" ∧
    answeredBody.user = cstr "a" ∧ ¬ answeredBody.Faithful := by
  refine ⟨by decide +kernel,by decide +kernel,?_⟩
  rintro ⟨user,sys,result,same,_⟩
  rw [answeredBody_messages] at result
  rw [← (Prod.mk.inj (Scan.done.inj result)).1] at same
  exact absurd same (by decide +kernel)

def orderedBody : ChatBody := pairBody ("system","s") ("user","a") (by decide +kernel)
  ⟨flat (pairTokens ("system","s") ("user","a")),by decide +kernel,by decide +kernel⟩ rfl

theorem verbatim_plain : ∀ raw : List UInt8,(raw.all fun c => 32 ≤ c && c ≠ Json.quote && c ≠ Json.backslash) = true → Verbatim raw
  | [],_ => .nil
  | c :: rest,plain => by
    simp only [List.all_cons,Bool.and_eq_true,decide_eq_true_eq] at plain
    exact .byte c rest plain.1.2 (verbatim_plain rest plain.2)

theorem orderedBody_faithful : orderedBody.Clear ∧ orderedBody.Faithful := by
  have length : (contents orderedBody.tokens).length = 2 := by decide +kernel
  obtain ⟨first,here,isFirst,reach⟩ : ∃ entry ∈ (contents orderedBody.tokens).head?,entry.1 = cstr "s" ∧
      Reaches orderedBody.body.text 40 "system" entry := by decide +kernel
  obtain ⟨second,here',isSecond,reach'⟩ : ∃ entry ∈ (contents orderedBody.tokens)[1]?,entry.1 = cstr "a" ∧
      Reaches orderedBody.body.text 60 "user" entry := by decide +kernel
  have user : orderedBody.LastUser 1 ⟨cstr "user",cstr "a"⟩ :=
    ⟨rfl,rfl,fun j m after item => absurd (List.getElem?_eq_some_iff.mp item).1 (Nat.not_lt.mpr after)⟩
  have clear : orderedBody.Clear := by
    refine ⟨.inl ⟨1,_,1,second,user,by decide +kernel,⟨here',reach',fun j entry after item => ?_⟩,?_,?_⟩,
      .inl ⟨0,⟨cstr "system",cstr "s"⟩,first,⟨rfl,rfl⟩,by decide +kernel,here,reach,?_,?_⟩⟩
    · exact absurd (List.getElem?_eq_some_iff.mp item).1 (by rw [length]; omega)
    · rw [isSecond]
      decide +kernel
    · rw [isSecond]
      exact verbatim_plain _ (by decide +kernel)
    · rw [isFirst]
      decide +kernel
    · rw [isFirst]
      exact verbatim_plain _ (by decide +kernel)
  exact ⟨clear,(extraction_clear orderedBody).1 clear⟩

end TinyLlama.Server
