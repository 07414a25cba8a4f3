import Mathlib.Data.List.TakeWhile
import TinyLlama.Machine

-- server.c, client_read_proc, with http.c's http_body and http_header, over the reads of a blocking socket.
namespace TinyLlama.Server.Framing

def bufCap : Nat := 8192
def cr : UInt8 := 13
def lf : UInt8 := 10
def colon : UInt8 := 58
def crlf : List UInt8 := [cr,lf]

-- read: what has arrived, up to the limit. The chunks are what arrives before the next read.
def readSome (limit : Nat) : List (List UInt8) → List UInt8 × List (List UInt8)
  | [] => ([],[])
  | chunk :: rest => if chunk.length ≤ limit then (chunk,rest) else (chunk.take limit,chunk.drop limit :: rest)

def httpBody (buf : List UInt8) : Option Nat :=
  if crlf++crlf <+: buf then some 4
  else
    match buf with
    | [] => none
    | _ :: rest => (httpBody rest).map (·+1)

-- strstr, the pointer found as the text behind it.
def strstrTail (needle : List UInt8) (s : List UInt8) : Option (List UInt8) :=
  if needle <+: s then some s
  else
    match s with
    | [] => none
    | _ :: rest => strstrTail needle rest

def lower (c : UInt8) : UInt8 := if 65 ≤ c ∧ c ≤ 90 then c+32 else c

-- The lines up to `end`, the first of them to carry the name.
def headerLoop (name : List UInt8) (endLen : Nat) : Nat → List UInt8 → List UInt8
  | 0,_ => []
  | fuel+1,s =>
    if s.length > endLen then
      if (s.take name.length).map lower = name.map lower ∧ s[name.length]? = some colon then
        (s.drop (name.length+1)).dropWhile (· = 32)
      else
        match strstrTail crlf s with
        | none => []
        | some next => headerLoop name endLen fuel (next.drop 2)
    else []

def httpHeader (buf : List UInt8) (name : List UInt8) : List UInt8 :=
  let s := buf.takeWhile (· ≠ 0)
  match strstrTail (crlf++crlf) s,strstrTail crlf s with
  | some end',some line => headerLoop name end'.length (s.length+1) (line.drop 2)
  | _,_ => []

def isSpace (c : UInt8) : Bool := c = 32 || (9 ≤ c && c ≤ 13)
def isDigit (c : UInt8) : Bool := 48 ≤ c && c ≤ 57

def digitsValue (ds : List UInt8) : Nat := ds.foldl (fun n c => 10*n+(c.toNat-48)) 0

-- strtol with its clamp, cut to an int.
def atoi (s : List UInt8) : Int :=
  match s.dropWhile isSpace with
  | 45 :: rest => i32 (2^64-min (digitsValue (rest.takeWhile isDigit)) (2^63))
  | 43 :: rest => i32 (min (digitsValue (rest.takeWhile isDigit)) (2^63-1))
  | rest => i32 (min (digitsValue (rest.takeWhile isDigit)) (2^63-1))

inductive Outcome where
  | closed
  | reject (status : Nat) (error : List UInt8)
  | submit (body : List UInt8)
deriving DecidableEq

def incomplete : Outcome := .reject 400 (cstr "Incomplete HTTP request")
def emptyBody : Outcome := .reject 400 (cstr "Empty HTTP body")

def contentLength (buf : List UInt8) : Int :=
  if httpHeader buf (cstr "Content-Length") = [] then 0 else atoi (httpHeader buf (cstr "Content-Length"))

-- The buffer after the second read, if there is one.
def readRest (buf : List UInt8) (chunks : List (List UInt8)) (off : Nat) : List UInt8 :=
  let cl := contentLength buf
  let bodyLen : Int := buf.length-off
  if cl > 0 ∧ bodyLen < cl then
    if (bufCap : Int)-buf.length > cl-bodyLen then buf++(readSome (cl-bodyLen).toNat chunks).1 else buf
  else buf

def clientReadProc (chunks : List (List UInt8)) : Outcome :=
  let (buf,chunks) := readSome (bufCap-1) chunks
  if buf = [] then .closed
  else
    match httpBody buf with
    | none => incomplete
    | some off =>
      let buf := readRest buf chunks off
      if buf.length ≤ off then emptyBody else .submit (buf.drop off)

-- A header line.
structure Field where
  name : List UInt8
  value : List UInt8
  named : name ≠ [] ∧ ∀ c ∈ name, c ≠ 0 ∧ c ≠ cr ∧ c ≠ lf ∧ c ≠ colon
  plain : ∀ c ∈ value, c ≠ 0 ∧ c ≠ cr ∧ c ≠ lf

def Field.text (f : Field) : List UInt8 := f.name++colon :: f.value

def Field.Named (f : Field) (name : List UInt8) : Prop := f.name.map lower = name.map lower

-- Lines that end in CRLF.
def lines (ls : List (List UInt8)) : List UInt8 := ls.flatMap (·++crlf)

-- A request with a body, whose first Content-Length field gives the body's length.
structure Request where
  line : List UInt8
  before : List Field
  length : Field
  after : List Field
  body : List UInt8
  started : line ≠ [] ∧ ∀ c ∈ line, c ≠ 0 ∧ c ≠ cr ∧ c ≠ lf
  others : ∀ f ∈ before, ¬ f.Named (cstr "Content-Length")
  named : length.Named (cstr "Content-Length")
  declared : ∃ blank digits blank', length.value = blank++digits++blank' ∧ (∀ c ∈ blank++blank', c = 32 ∨ c = 9) ∧
    digits ≠ [] ∧ (∀ c ∈ digits, isDigit c = true) ∧ digitsValue digits = body.length
  some' : body ≠ []

def Request.head (r : Request) : List UInt8 :=
  lines (r.line :: (r.before++r.length :: r.after).map Field.text)++crlf

def Request.bytes (r : Request) : List UInt8 := r.head++r.body

-- The chunks in which a request's bytes arrive.
structure Delivery (r : Request) where
  chunks : List (List UInt8)
  nonempty : ∀ chunk ∈ chunks, chunk ≠ []
  all : chunks.flatten = r.bytes

theorem strstrTail_eq (needle s : List UInt8) : strstrTail needle s =
    if needle <+: s then some s else
      match s with
      | [] => none
      | _ :: rest => strstrTail needle rest := by
  rw [strstrTail.eq_def]

theorem strstrTail_skip (needle : List UInt8) : ∀ passed : List UInt8, (∀ c ∈ passed, needle.head? ≠ some c) → needle ≠ [] →
    strstrTail needle (passed++s) = strstrTail needle s
  | [],_,_ => rfl
  | c :: passed,plain,some' => by
    have other : ¬ needle <+: c :: (passed++s) := by
      rintro ⟨rest,split⟩
      cases needle with
      | nil => exact some' rfl
      | cons d needle => exact plain c List.mem_cons_self (congrArg some (List.cons.inj split).1)
    rw [List.cons_append,strstrTail_eq,if_neg other]
    exact strstrTail_skip needle passed (fun d listed => plain d (List.mem_cons_of_mem c listed)) some'

theorem strstrTail_here (front : needle <+: s) : strstrTail needle s = some s := by
  rw [strstrTail_eq,if_pos front]

theorem strstrTail_step (other : ¬ needle <+: c :: s) : strstrTail needle (c :: s) = strstrTail needle s := by
  rw [strstrTail_eq,if_neg other]

theorem strstrTail_short : ∀ s : List UInt8, s.length < needle.length → strstrTail needle s = none
  | [],short => by
    have other : ¬ needle <+: [] := fun front => by have := front.length_le; omega
    rw [strstrTail_eq,if_neg other]
  | c :: s,short => by
    have other : ¬ needle <+: c :: s := fun front => by have := front.length_le; omega
    rw [strstrTail_step other]
    rw [List.length_cons] at short
    exact strstrTail_short s (by omega)

theorem strstrTail_suffix : ∀ (s : List UInt8) {t : List UInt8}, strstrTail needle s = some t → t <:+ s
  | [],t,found => by
    rw [strstrTail_eq] at found
    split_ifs at found
    exact Option.some.inj found ▸ List.suffix_rfl
  | c :: s,t,found => by
    by_cases front : needle <+: c :: s
    · rw [strstrTail_here front] at found
      exact Option.some.inj found ▸ List.suffix_rfl
    · rw [strstrTail_step front] at found
      exact (strstrTail_suffix s found).trans (List.suffix_cons c s)

theorem strstrTail_take (some' : needle ≠ []) : ∀ (s : List UInt8) (k : Nat) {t : List UInt8}, strstrTail needle s = some t →
    strstrTail needle (s.take k) = if s.length-t.length+needle.length ≤ k then some (t.take (k-(s.length-t.length))) else none := by
  have long : 0 < needle.length := List.length_pos_iff.mpr some'
  intro s
  induction s with
  | nil =>
    intro k t found
    rw [strstrTail_short _ (by simpa using long)] at found
    simp at found
  | cons c s ih =>
    intro k t found
    by_cases front : needle <+: c :: s
    · rw [strstrTail_here front] at found
      obtain rfl := Option.some.inj found
      rw [Nat.sub_self,Nat.zero_add,Nat.sub_zero]
      by_cases fits : needle.length ≤ k
      · rw [if_pos fits,strstrTail_here (List.prefix_take_iff.mpr ⟨front,fits⟩)]
      · rw [if_neg fits,strstrTail_short _ (by rw [List.length_take]; omega)]
    · rw [strstrTail_step front] at found
      cases k with
      | zero =>
        rw [List.take_zero,strstrTail_short _ (by simpa using long),if_neg (by omega)]
      | succ k =>
        have other : ¬ needle <+: c :: s.take k := fun inside =>
          front (inside.trans (List.take_prefix (k+1) (c :: s)))
        have shorter := (strstrTail_suffix s found).length_le
        rw [List.take_succ_cons,strstrTail_step other,ih k found,List.length_cons,
          show s.length+1-t.length = s.length-t.length+1 by omega]
        by_cases fits : s.length-t.length+needle.length ≤ k
        · rw [if_pos fits,if_pos (by omega),show k+1-(s.length-t.length+1) = k-(s.length-t.length) by omega]
        · rw [if_neg fits,if_neg (by omega)]

theorem httpBody_strstr (s : List UInt8) :
    httpBody s = (strstrTail (crlf++crlf) s).map fun t => s.length-t.length+4 := by
  induction s with
  | nil => rfl
  | cons c s ih =>
    by_cases front : crlf++crlf <+: c :: s
    · rw [httpBody,if_pos front,strstrTail_here front]
      simp
    · rw [httpBody,if_neg front,strstrTail_step front,ih]
      cases found : strstrTail (crlf++crlf) s with
      | none => rfl
      | some t =>
        have shorter := (strstrTail_suffix s found).length_le
        simp only [Option.map_some,List.length_cons]
        exact congrArg some (by omega)

def PlainLine (l : List UInt8) : Prop := l ≠ [] ∧ ∀ c ∈ l, c ≠ 0 ∧ c ≠ cr ∧ c ≠ lf

theorem lines_cons (l : List UInt8) (ls : List (List UInt8)) : lines (l :: ls) = l++crlf++lines ls := rfl

theorem PlainLine.crlf (plain : PlainLine l) (x : List UInt8) : strstrTail crlf (l++Framing.crlf++x) = some (Framing.crlf++x) := by
  rw [List.append_assoc,strstrTail_skip Framing.crlf l (fun c listed same => ?_) (by decide)]
  · exact strstrTail_here (List.prefix_append _ _)
  · exact (plain.2 c listed).2.1 (Option.some.inj same).symm

theorem blank_line (x : List UInt8) : ∀ (l : List UInt8) (ls : List (List UInt8)), (∀ l' ∈ l :: ls, PlainLine l') →
    strstrTail (crlf++crlf) (lines (l :: ls)++crlf++x) = some (crlf++crlf++x)
  | l,ls,plain => by
    have first := plain l List.mem_cons_self
    have skip : strstrTail (crlf++crlf) (lines (l :: ls)++crlf++x) = strstrTail (crlf++crlf) (crlf++(lines ls++crlf++x)) := by
      rw [lines_cons,List.append_assoc,List.append_assoc,List.append_assoc,List.append_assoc,
        strstrTail_skip (crlf++crlf) l (fun c listed same => ?_) (by decide)]
      exact (first.2 c listed).2.1 (Option.some.inj same).symm
    rw [skip]
    cases ls with
    | nil => exact strstrTail_here ⟨x,by simp [lines]⟩
    | cons l' ls =>
      obtain ⟨c,rest,opens⟩ := List.exists_cons_of_ne_nil (plain l' (by simp)).1
      have notCr : c ≠ cr := ((plain l' (by simp)).2 c (by rw [opens]; exact List.mem_cons_self)).2.1
      have tail : lines (l' :: ls)++crlf++x = c :: (rest++crlf++lines ls++crlf++x) := by
        rw [lines_cons,opens]
        rfl
      have one : ¬ crlf++crlf <+: cr :: lf :: (lines (l' :: ls)++crlf++x) := by
        rintro ⟨r,split⟩
        rw [tail] at split
        exact notCr (List.cons.inj (List.cons.inj (List.cons.inj split).2).2).1.symm
      have two : ¬ crlf++crlf <+: lf :: (lines (l' :: ls)++crlf++x) := by
        rintro ⟨r,split⟩
        exact absurd (List.cons.inj split).1 (by decide)
      change strstrTail (crlf++crlf) (cr :: lf :: (lines (l' :: ls)++crlf++x)) = _
      rw [strstrTail_step one,strstrTail_step two]
      exact blank_line x l' ls fun l'' listed => plain l'' (List.mem_cons_of_mem l listed)

theorem Field.line (f : Field) : PlainLine f.text := by
  refine ⟨by simp [Field.text],fun c listed => ?_⟩
  rcases List.mem_append.mp listed with inside | inside
  · have plain := f.named.2 c inside
    exact ⟨plain.1,plain.2.1,plain.2.2.1⟩
  · rcases List.mem_cons.mp inside with rfl | inside
    · decide
    · exact f.plain c inside

theorem Request.plain (r : Request) : ∀ l ∈ r.line :: (r.before++r.length :: r.after).map Field.text, PlainLine l := by
  intro l listed
  rcases List.mem_cons.mp listed with rfl | listed
  · exact r.started
  · obtain ⟨f,_,rfl⟩ := List.mem_map.mp listed
    exact f.line

theorem Request.blank (r : Request) : strstrTail (crlf++crlf) r.bytes = some (crlf++crlf++r.body) :=
  blank_line r.body _ _ r.plain

theorem Request.head_length (r : Request) : 4 ≤ r.head.length := by
  simp [Request.head,lines,crlf]
  omega

theorem Request.httpBody_take (r : Request) (k : Nat) :
    httpBody (r.bytes.take k) = if r.head.length ≤ k then some r.head.length else none := by
  have long := r.head_length
  have total : r.bytes.length = r.head.length+r.body.length := List.length_append
  rw [httpBody_strstr,strstrTail_take (by decide) _ k r.blank]
  have at' : r.bytes.length-(crlf++crlf++r.body).length = r.head.length-4 := by
    rw [total,List.length_append]
    show r.head.length+r.body.length-(4+r.body.length) = _
    omega
  rw [at',show (crlf++crlf).length = 4 from rfl]
  by_cases inside : r.head.length ≤ k
  · rw [if_pos (by omega),if_pos inside,Option.map_some]
    simp only [List.length_take,List.length_append,total]
    refine congrArg some ?_
    show min k (r.head.length+r.body.length)-min (k-(r.head.length-4)) (4+r.body.length)+4 = _
    omega
  · rw [if_neg (by omega),if_neg inside]
    rfl

theorem lower_colon (c : UInt8) : lower c = colon ↔ c = colon := by
  have all : ∀ n < 256, lower (UInt8.ofNat n) = colon ↔ UInt8.ofNat n = colon := by decide +kernel
  have this := all c.toNat c.toNat_lt
  rwa [UInt8.ofNat_toNat] at this

theorem Field.matches (f : Field) (name rest : List UInt8) (plain : ∀ c ∈ name, c ≠ colon) :
    (((f.text++rest).take name.length).map lower = name.map lower ∧ (f.text++rest)[name.length]? = some colon) ↔ f.Named name := by
  have text : f.text++rest = f.name++(colon :: (f.value++rest)) := by simp [Field.text]
  rw [text]
  constructor
  · rintro ⟨same,sep⟩
    rcases Nat.lt_trichotomy f.name.length name.length with shorter | equal | longer
    · -- The colon would stand within the name.
      have at' := congrArg (fun s => s[f.name.length]?) same
      simp only [List.getElem?_map,List.getElem?_take,if_pos shorter,List.getElem?_append_right (Nat.le_refl _),Nat.sub_self,
        List.getElem?_cons_zero,Option.map_some,List.getElem?_eq_getElem shorter] at at'
      exact absurd ((lower_colon _).mp ((Option.some.inj at').symm.trans ((lower_colon colon).mpr rfl)))
        (plain _ (List.getElem_mem shorter))
    · rw [← equal,List.take_left] at same
      exact same
    · rw [List.getElem?_append_left longer,List.getElem?_eq_getElem longer] at sep
      exact absurd (Option.some.inj sep) (f.named.2 _ (List.getElem_mem longer)).2.2.2
  · intro named
    have equal : f.name.length = name.length := by simpa using congrArg List.length named
    rw [← equal,List.take_left,List.getElem?_append_right (Nat.le_refl _),Nat.sub_self]
    exact ⟨named,rfl⟩

theorem headerLoop_other (f : Field) (name rest : List UInt8) (plain : ∀ c ∈ name, c ≠ colon) (other : ¬ f.Named name)
    (inside : endLen < (f.text++crlf++rest).length) :
    headerLoop name endLen (fuel+1) (f.text++crlf++rest) = headerLoop name endLen fuel rest := by
  have test := (f.matches name (crlf++rest) plain).not.mpr other
  rw [← List.append_assoc] at test
  rw [headerLoop,if_pos inside,if_neg test,f.line.crlf]
  rfl

theorem headerLoop_found (f : Field) (name rest : List UInt8) (plain : ∀ c ∈ name, c ≠ colon) (named : f.Named name)
    (inside : endLen < (f.text++crlf++rest).length) :
    headerLoop name endLen (fuel+1) (f.text++crlf++rest) = (f.value++crlf++rest).dropWhile (· = 32) := by
  have test := (f.matches name (crlf++rest) plain).mpr named
  rw [← List.append_assoc] at test
  have equal : f.name.length = name.length := by simpa using congrArg List.length named
  have value : (f.text++crlf++rest).drop (name.length+1) = f.value++crlf++rest := by
    have text : f.text++crlf++rest = (f.name++[colon])++(f.value++crlf++rest) := by simp [Field.text]
    rw [text,← equal,List.drop_append_of_le_length (by simp),List.drop_of_length_le (by simp)]
    rfl
  rw [headerLoop,if_pos inside,if_pos test,value]

theorem headerLoop_fields (f : Field) (name tail : List UInt8) (plain : ∀ c ∈ name, c ≠ colon) (named : f.Named name)
    (inside : endLen ≤ tail.length+2) : ∀ (before : List Field) (fuel : Nat), (∀ g ∈ before, ¬ g.Named name) → before.length < fuel →
    headerLoop name endLen fuel (lines (before.map Field.text)++(f.text++crlf++tail)) = (f.value++crlf++tail).dropWhile (· = 32)
  | [],fuel,_,enough => by
    obtain ⟨fuel,rfl⟩ : ∃ n, fuel = n+1 := ⟨fuel-1,by simp at enough; omega⟩
    have some' := List.length_pos_iff.mpr f.line.1
    exact headerLoop_found f name tail plain named (by simp only [List.length_append,crlf,List.length_cons,List.length_nil]; omega)
  | g :: before,fuel,others,enough => by
    rw [List.length_cons] at enough
    obtain ⟨fuel,rfl⟩ : ∃ n, fuel = n+1 := ⟨fuel-1,by omega⟩
    have split : lines ((g :: before).map Field.text)++(f.text++crlf++tail) =
        g.text++crlf++(lines (before.map Field.text)++(f.text++crlf++tail)) := by
      simp [lines]
    have some' := List.length_pos_iff.mpr f.line.1
    have two : crlf.length = 2 := rfl
    rw [split,headerLoop_other g name _ plain (others g List.mem_cons_self) (by simp only [List.length_append]; omega)]
    exact headerLoop_fields f name tail plain named inside before fuel
      (fun g' listed => others g' (List.mem_cons_of_mem g listed)) (by omega)

theorem lines_length : ∀ ls : List (List UInt8), ls.length ≤ (lines ls).length
  | [] => Nat.zero_le _
  | l :: ls => by
    have rest := lines_length ls
    rw [lines_cons,List.length_append,List.length_append,List.length_cons]
    show ls.length+1 ≤ l.length+2+(lines ls).length
    omega

theorem lines_clean (ls : List (List UInt8)) (plain : ∀ l ∈ ls, PlainLine l) : ∀ c ∈ lines ls, c ≠ 0 := by
  intro c listed
  obtain ⟨l,there,inside⟩ := List.mem_flatMap.mp listed
  rcases List.mem_append.mp inside with inside | inside
  · exact ((plain l there).2 c inside).1
  · simp only [crlf,List.mem_cons,List.not_mem_nil,or_false] at inside
    rcases inside with rfl | rfl <;> decide

theorem takeWhile_front (p : UInt8 → Bool) (rest : List UInt8) : ∀ front : List UInt8, (∀ c ∈ front, p c = true) →
    (front++rest).takeWhile p = front++rest.takeWhile p
  | [],_ => rfl
  | c :: front,all => by
    rw [List.cons_append,List.takeWhile_cons_of_pos (all c List.mem_cons_self),
      takeWhile_front p rest front fun d listed => all d (List.mem_cons_of_mem c listed)]
    rfl

theorem Request.httpHeader_take (r : Request) (k : Nat) (inside : r.head.length ≤ k) : ∃ tail,
    httpHeader (r.bytes.take k) (cstr "Content-Length") = (r.length.value++crlf++tail).dropWhile (· = 32) := by
  obtain ⟨y,front⟩ : ∃ y, r.bytes.take k = r.head++y :=
    ⟨r.body.take (k-r.head.length),by rw [Request.bytes,List.take_append,List.take_of_length_le inside]⟩
  have clean : ∀ c ∈ r.head, decide (c ≠ 0) = true := by
    intro c listed
    refine decide_eq_true ?_
    rcases List.mem_append.mp listed with listed | listed
    · exact lines_clean _ r.plain c listed
    · simp only [crlf,List.mem_cons,List.not_mem_nil,or_false] at listed
      rcases listed with rfl | rfl <;> decide
  have cut : (r.bytes.take k).takeWhile (· ≠ 0) = r.head++y.takeWhile (· ≠ 0) := by
    rw [front,takeWhile_front _ _ _ clean]
  generalize y.takeWhile (· ≠ 0) = x at cut
  have ends : strstrTail (crlf++crlf) (r.head++x) = some (crlf++crlf++x) := blank_line x _ _ r.plain
  have fields : r.head++x = r.line++crlf++(lines (r.before.map Field.text)++
      (r.length.text++crlf++(lines (r.after.map Field.text)++crlf++x))) := by
    simp [Request.head,lines]
  have starts : strstrTail crlf (r.head++x) = some (crlf++(lines (r.before.map Field.text)++
      (r.length.text++crlf++(lines (r.after.map Field.text)++crlf++x)))) := by
    rw [fields]
    exact PlainLine.crlf r.started _
  refine ⟨lines (r.after.map Field.text)++crlf++x,?_⟩
  have noColon : ∀ c ∈ cstr "Content-Length", c ≠ colon := by
    rw [cstr_ofList]
    simp [colon]
  have short := lines_length (r.before.map Field.text)
  rw [List.length_map] at short
  simp only [httpHeader,cut,ends,starts]
  refine headerLoop_fields r.length _ _ noColon r.named ?_ r.before _ r.others ?_
  · simp only [List.length_append,crlf,List.length_cons,List.length_nil]
    omega
  · rw [fields]
    simp only [List.length_append]
    omega

theorem dropWhile_front (p : UInt8 → Bool) (rest : List UInt8) : ∀ front : List UInt8, (∀ c ∈ front, p c = true) →
    (front++rest).dropWhile p = rest.dropWhile p
  | [],_ => rfl
  | c :: front,all => by
    rw [List.cons_append,List.dropWhile_cons_of_pos (all c List.mem_cons_self)]
    exact dropWhile_front p rest front fun d listed => all d (List.mem_cons_of_mem c listed)

theorem dropWhile_twice (p q : UInt8 → Bool) (weaker : ∀ c, p c = true → q c = true) : ∀ s : List UInt8,
    (s.dropWhile p).dropWhile q = s.dropWhile q
  | [] => rfl
  | c :: s => by
    by_cases passed : p c = true
    · rw [List.dropWhile_cons_of_pos passed,List.dropWhile_cons_of_pos (weaker c passed)]
      exact dropWhile_twice p q weaker s
    · rw [List.dropWhile_cons_of_neg passed]

-- The int that Content-Length is read as.
def Request.declaredInt (r : Request) : Int := i32 (min r.body.length (2^63-1))

theorem atoi_digits (blank digits rest : List UInt8) (blanks : ∀ c ∈ blank, c = 32 ∨ c = 9) (some' : digits ≠ [])
    (all : ∀ c ∈ digits, isDigit c = true) (stop : ∀ c, rest.head? = some c → isDigit c = false) :
    atoi ((blank++digits++rest).dropWhile (· = 32)) = i32 (min (digitsValue digits) (2^63-1)) := by
  obtain ⟨d,more,opens⟩ := List.exists_cons_of_ne_nil some'
  have digit := all d (by rw [opens]; exact List.mem_cons_self)
  have kind : ∀ n < 256, isDigit (UInt8.ofNat n) = true → isSpace (UInt8.ofNat n) = false ∧ UInt8.ofNat n ≠ 45 ∧ UInt8.ofNat n ≠ 43 := by
    decide +kernel
  have notSpace := kind d.toNat d.toNat_lt
  rw [UInt8.ofNat_toNat] at notSpace
  obtain ⟨notSpace,notMinus,notPlus⟩ := notSpace digit
  have skipped : ((blank++digits++rest).dropWhile (· = 32)).dropWhile isSpace = digits++rest := by
    rw [dropWhile_twice _ _ (fun c space => by rw [of_decide_eq_true space]; decide),List.append_assoc,
      dropWhile_front isSpace _ blank fun c listed => ?_]
    · rw [opens,List.cons_append,List.dropWhile_cons_of_neg (by simp [notSpace])]
    · rcases blanks c listed with rfl | rfl <;> decide
  have run : (digits++rest).takeWhile isDigit = digits := by
    rw [takeWhile_front isDigit rest digits all]
    cases rest with
    | nil => simp
    | cons c rest => rw [List.takeWhile_cons_of_neg (by simp [stop c rfl]),List.append_nil]
  unfold atoi
  rw [skipped]
  split
  · rename_i tail same
    rw [opens] at same
    exact absurd (List.cons.inj same).1 notMinus
  · rename_i tail same
    rw [opens] at same
    exact absurd (List.cons.inj same).1 notPlus
  · rw [run]

theorem Request.contentLength_take (r : Request) (k : Nat) (inside : r.head.length ≤ k) :
    contentLength (r.bytes.take k) = r.declaredInt := by
  obtain ⟨tail,found⟩ := r.httpHeader_take k inside
  obtain ⟨blank,digits,blank',split,blanks,some',all,value⟩ := r.declared
  have shape : r.length.value++crlf++tail = blank++digits++(blank'++crlf++tail) := by
    rw [split]
    simp
  have stop : ∀ c, (blank'++crlf++tail).head? = some c → isDigit c = false := by
    intro c first
    cases blank' with
    | nil => rw [← Option.some.inj (show some cr = some c from first)]; decide
    | cons b blank' =>
      obtain rfl : b = c := Option.some.inj first
      rcases blanks b (by simp) with rfl | rfl <;> decide
  have number := atoi_digits blank digits (blank'++crlf++tail) (fun c listed => blanks c (by simp [listed])) some' all stop
  rw [value] at number
  have present : (blank++digits++(blank'++crlf++tail)).dropWhile (· = 32) ≠ [] := by
    obtain ⟨d,more,opens⟩ := List.exists_cons_of_ne_nil some'
    intro none'
    have every := List.dropWhile_eq_nil_iff.mp none' d (by rw [opens]; simp)
    have digit := all d (by rw [opens]; exact List.mem_cons_self)
    rw [of_decide_eq_true every] at digit
    exact absurd digit (by decide)
  rw [contentLength,found,shape,if_neg present,number]
  rfl

theorem readSome_split (limit : Nat) (chunks : List (List UInt8)) (nonempty : ∀ chunk ∈ chunks, chunk ≠ []) :
    (readSome limit chunks).1++(readSome limit chunks).2.flatten = chunks.flatten ∧
    (readSome limit chunks).1.length = min limit (chunks.headD []).length ∧
    (0 < limit → ∀ chunk ∈ (readSome limit chunks).2, chunk ≠ []) := by
  cases chunks with
  | nil => exact ⟨rfl,by simp [readSome],by simp [readSome]⟩
  | cons chunk rest =>
    rw [readSome]
    split_ifs with fits
    · exact ⟨by simp,by simp [fits],fun _ c listed => nonempty c (List.mem_cons_of_mem chunk listed)⟩
    · refine ⟨by simp [← List.append_assoc],by simp,fun _ c listed => ?_⟩
      rcases List.mem_cons.mp listed with rfl | later
      · intro none'
        exact fits (List.drop_eq_nil_iff.mp none')
      · exact nonempty c (List.mem_cons_of_mem chunk later)

-- How much the first read brings.
def Delivery.first (d : Delivery r) : Nat := min (bufCap-1) (d.chunks.headD []).length

variable {r : Request}

theorem Request.bytes_length (r : Request) : r.bytes.length = r.head.length+r.body.length := List.length_append

theorem Delivery.firstRead (d : Delivery r) : ∃ rest, readSome (bufCap-1) d.chunks = (r.bytes.take d.first,rest) ∧
    rest.flatten = r.bytes.drop d.first ∧ (∀ chunk ∈ rest, chunk ≠ []) ∧ (r.bytes.take d.first).length = d.first ∧
    0 < d.first := by
  obtain ⟨split,length,nonempty⟩ := readSome_split (bufCap-1) d.chunks d.nonempty
  rw [d.all] at split
  replace length : (readSome (bufCap-1) d.chunks).1.length = d.first := length
  have front : (readSome (bufCap-1) d.chunks).1 = r.bytes.take d.first := by
    rw [← split,List.take_append_of_le_length (Nat.le_of_eq length.symm),List.take_of_length_le (Nat.le_of_eq length)]
  have back : (readSome (bufCap-1) d.chunks).2.flatten = r.bytes.drop d.first := by
    rw [← split,List.drop_append_of_le_length (Nat.le_of_eq length.symm),List.drop_of_length_le (Nat.le_of_eq length)]
    rfl
  refine ⟨(readSome (bufCap-1) d.chunks).2,by rw [← front],back,nonempty (by decide),by rw [← front,length],?_⟩
  have long := r.head_length
  have total := r.bytes_length
  cases opens : d.chunks with
  | nil =>
    have all := d.all
    rw [opens] at all
    rw [← all] at total
    simp at total
    omega
  | cons chunk rest =>
    have some' := List.length_pos_iff.mpr (d.nonempty chunk (by rw [opens]; exact List.mem_cons_self))
    show 0 < min (bufCap-1) (d.chunks.headD []).length
    rw [opens]
    simp only [List.headD_cons,bufCap]
    omega

-- The request is in the buffer after at most two reads, the header after the first.
def Delivery.Whole (d : Delivery r) : Prop :=
  r.bytes.length < bufCap ∧ d.chunks.length ≤ 2 ∧ r.head.length ≤ d.first

-- The first read ends before the header does.
def Delivery.Incomplete (d : Delivery r) : Prop := d.first < r.head.length

-- The first read ends with the header, and there is no second.
def Delivery.Empty (d : Delivery r) : Prop :=
  d.first = r.head.length ∧ ¬ (0 < r.declaredInt ∧ r.declaredInt < bufCap-r.head.length)

theorem Request.declaredInt_short (r : Request) (short : r.bytes.length < bufCap) : r.declaredInt = r.body.length := by
  have total := r.bytes_length
  unfold bufCap at short
  rw [Request.declaredInt,Nat.min_eq_left (by omega)]
  exact i32_of_lt (by omega)

theorem readSome_all (limit : Nat) (nonempty : ∀ chunk ∈ chunks, chunk ≠ []) (all : (readSome limit chunks).1.length = chunks.flatten.length) :
    chunks.length ≤ 1 := by
  cases chunks with
  | nil => simp
  | cons chunk rest =>
    cases rest with
    | nil => simp
    | cons chunk' rest =>
      have some' := List.length_pos_iff.mpr (nonempty chunk' (by simp))
      have length := (readSome_split limit (chunk :: chunk' :: rest) nonempty).2.1
      rw [all] at length
      simp only [List.flatten_cons,List.length_append,List.headD_cons] at length
      omega

theorem Delivery.rest_length (d : Delivery r) (read : readSome (bufCap-1) d.chunks = (buf,rest)) (short : r.bytes.length < bufCap) :
    rest = d.chunks.tail := by
  cases opens : d.chunks with
  | nil =>
    rw [opens] at read
    exact (Prod.mk.inj read).2.symm
  | cons chunk others =>
    have all := congrArg List.length d.all
    rw [opens,List.flatten_cons,List.length_append] at all
    rw [opens,readSome,if_pos (by omega)] at read
    exact (Prod.mk.inj read).2.symm

theorem Delivery.received (d : Delivery r) (read : readSome (bufCap-1) d.chunks = (r.bytes.take d.first,rest))
    (inside : r.head.length ≤ d.first) : ∃ n, readRest (r.bytes.take d.first) rest r.head.length = r.bytes.take n ∧
      d.first ≤ n ∧ n ≤ r.bytes.length ∧ (n = r.head.length ↔ d.Empty) ∧ (n = r.bytes.length ↔ d.Whole) := by
  obtain ⟨rest',read',left,nonempty,length,_⟩ := d.firstRead
  obtain rfl : rest = rest' := (Prod.mk.inj (read.symm.trans read')).2
  have total := r.bytes_length
  have some' := List.length_pos_iff.mpr r.some'
  have upto : d.first ≤ r.bytes.length := by
    rw [List.length_take] at length
    omega
  have remaining : rest.flatten.length = r.bytes.length-d.first := by rw [left,List.length_drop]
  -- A whole delivery leaves at most one chunk for the second read.
  have tail (whole : d.Whole) : rest.length ≤ 1 := by
    rw [d.rest_length read whole.1,List.length_tail]
    have two := whole.2.1
    omega
  simp only [readRest,r.contentLength_take d.first inside,length]
  by_cases more : r.declaredInt > 0 ∧ (d.first : Int)-r.head.length < r.declaredInt ∧
      (bufCap : Int)-d.first > r.declaredInt-(d.first-r.head.length)
  · obtain ⟨positive,missing,room⟩ := more
    rw [if_pos ⟨positive,missing⟩,if_pos room]
    obtain ⟨split,length',_⟩ := readSome_split (r.declaredInt-(d.first-r.head.length)).toNat rest nonempty
    generalize taken : (readSome (r.declaredInt-(d.first-r.head.length)).toNat rest).1 = more at split length'
    have fits : more.length ≤ rest.flatten.length := by
      rw [← split,List.length_append]
      omega
    have joined : r.bytes.take d.first++more = r.bytes.take (d.first+more.length) := by
      rw [List.take_add,← left,← split,List.take_left]
    refine ⟨d.first+more.length,joined,by omega,by omega,?_,?_⟩
    · constructor
      · intro same
        have none' : more.length = 0 := by omega
        rw [none'] at length'
        have empty : rest.headD [] = [] := by
          apply List.length_eq_zero_iff.mp
          omega
        cases rest with
        | nil =>
          simp at remaining
          omega
        | cons chunk others => exact absurd empty (nonempty chunk List.mem_cons_self)
      · rintro ⟨same,none'⟩
        exact absurd ⟨positive,by omega⟩ none'
    · constructor
      · intro same
        have short : r.bytes.length < bufCap := by omega
        have one := readSome_all (r.declaredInt-(d.first-r.head.length)).toNat nonempty (by rw [taken]; omega)
        rw [d.rest_length read short,List.length_tail] at one
        exact ⟨short,by omega,inside⟩
      · intro whole
        have declared := r.declaredInt_short whole.1
        have one := tail whole
        cases rest with
        | nil =>
          simp only [List.flatten_nil,List.length_nil] at remaining fits
          omega
        | cons chunk others =>
          obtain rfl : others = [] := List.length_eq_zero_iff.mp (by simpa using one)
          simp only [List.flatten_cons,List.flatten_nil,List.append_nil,List.headD_cons] at remaining length'
          omega
  · have kept : (if r.declaredInt > 0 ∧ (d.first : Int)-r.head.length < r.declaredInt then
        if (bufCap : Int)-d.first > r.declaredInt-(d.first-r.head.length) then
          r.bytes.take d.first++(readSome (r.declaredInt-(d.first-r.head.length)).toNat rest).1
        else r.bytes.take d.first
      else r.bytes.take d.first) = r.bytes.take d.first := by
      split_ifs with one two
      · exact absurd ⟨one.1,one.2,two⟩ more
      · rfl
      · rfl
    refine ⟨d.first,kept,Nat.le_refl _,upto,?_,?_⟩
    · constructor
      · intro same
        exact ⟨same,fun second => more ⟨second.1,by omega,by omega⟩⟩
      · exact fun empty => empty.1
    · constructor
      · intro same
        have cap : d.first ≤ bufCap-1 := Nat.min_le_left _ _
        have short : r.bytes.length < bufCap := by
          unfold bufCap at cap ⊢
          omega
        have none' : rest = [] := by
          cases rest with
          | nil => rfl
          | cons chunk others =>
            have some'' := List.length_pos_iff.mpr (nonempty chunk List.mem_cons_self)
            rw [List.flatten_cons,List.length_append] at remaining
            omega
        have short' := d.rest_length read short
        rw [none'] at short'
        have one := congrArg List.length short'
        rw [List.length_tail,List.length_nil] at one
        exact ⟨short,by omega,inside⟩
      · intro whole
        have declared := r.declaredInt_short whole.1
        have short := whole.1
        by_contra partial'
        exact more ⟨by omega,by omega,by omega⟩

theorem Delivery.outcome (d : Delivery r) :
    (clientReadProc d.chunks = incomplete ∧ d.Incomplete) ∨
    (clientReadProc d.chunks = emptyBody ∧ d.Empty) ∨
    (clientReadProc d.chunks = .submit r.body ∧ d.Whole) ∨
    (∃ body, clientReadProc d.chunks = .submit body ∧ body ≠ r.body ∧ ¬ d.Incomplete ∧ ¬ d.Empty ∧ ¬ d.Whole) := by
  obtain ⟨rest,read,_,_,length,positive⟩ := d.firstRead
  have total := r.bytes_length
  have some' := List.length_pos_iff.mpr r.some'
  have present : r.bytes.take d.first ≠ [] := List.ne_nil_of_length_pos (by omega)
  by_cases inside : r.head.length ≤ d.first
  · obtain ⟨n,after,least,most,empty,whole⟩ := d.received read inside
    have held : (r.bytes.take n).length = n := by rw [List.length_take]; omega
    have result : clientReadProc d.chunks = if n ≤ r.head.length then emptyBody else .submit ((r.bytes.take n).drop r.head.length) := by
      simp only [clientReadProc,read,if_neg present,r.httpBody_take,if_pos inside,after,held]
    by_cases none' : n = r.head.length
    · exact .inr (.inl ⟨by rw [result,if_pos (by omega)],empty.mp none'⟩)
    · rw [if_neg (by omega)] at result
      have body : (r.bytes.take n).drop r.head.length = r.body.take (n-r.head.length) := by
        rw [Request.bytes,List.take_append,List.take_of_length_le (by omega),List.drop_left]
      rw [body] at result
      by_cases all : n = r.bytes.length
      · refine .inr (.inr (.inl ⟨?_,whole.mp all⟩))
        rw [result,List.take_of_length_le (by omega)]
      · refine .inr (.inr (.inr ⟨_,result,fun same => ?_,Nat.not_lt.mpr inside,fun kind => none' (empty.mpr kind),
          fun kind => all (whole.mpr kind)⟩))
        have lengths := congrArg List.length same
        rw [List.length_take] at lengths
        omega
  · refine .inl ⟨?_,Nat.lt_of_not_le inside⟩
    simp only [clientReadProc,read,if_neg present,r.httpBody_take,if_neg inside]

-- Two deliveries of a request are treated alike: the whole body twice, or one rejection.
def Alike (d d' : Delivery r) : Prop :=
  clientReadProc d.chunks = clientReadProc d'.chunks ∧ ∀ body, clientReadProc d.chunks = .submit body → body = r.body

theorem Delivery.exclusive (d : Delivery r) : (d.Incomplete → ¬ d.Empty ∧ ¬ d.Whole) ∧ (d.Empty → ¬ d.Whole) := by
  have total := r.bytes_length
  have some' := List.length_pos_iff.mpr r.some'
  refine ⟨fun incomplete => ⟨fun empty => ?_,fun whole => ?_⟩,fun empty whole => ?_⟩
  · exact absurd empty.1 (Nat.ne_of_lt incomplete)
  · exact absurd whole.2.2 (Nat.not_le.mpr incomplete)
  · have declared := r.declaredInt_short whole.1
    have short := whole.1
    exact empty.2 ⟨by omega,by omega⟩

theorem Delivery.outcome_iff (d : Delivery r) :
    (clientReadProc d.chunks = incomplete ↔ d.Incomplete) ∧ (clientReadProc d.chunks = emptyBody ↔ d.Empty) ∧
    (clientReadProc d.chunks = .submit r.body ↔ d.Whole) := by
  have apart : incomplete ≠ emptyBody := by decide +kernel
  obtain ⟨first,second⟩ := d.exclusive
  rcases d.outcome with ⟨out,kind⟩ | ⟨out,kind⟩ | ⟨out,kind⟩ | ⟨body,out,other,notFirst,notSecond,notThird⟩
  · rw [out]
    exact ⟨iff_of_true rfl kind,iff_of_false apart (first kind).1,iff_of_false (by simp [incomplete]) (first kind).2⟩
  · rw [out]
    exact ⟨iff_of_false apart.symm fun kind' => (first kind').1 kind,iff_of_true rfl kind,
      iff_of_false (by simp [emptyBody]) (second kind)⟩
  · rw [out]
    exact ⟨iff_of_false (by simp [incomplete]) fun kind' => (first kind').2 kind,
      iff_of_false (by simp [emptyBody]) fun kind' => second kind' kind,iff_of_true rfl kind⟩
  · rw [out]
    exact ⟨iff_of_false (by simp [incomplete]) notFirst,iff_of_false (by simp [emptyBody]) notSecond,
      iff_of_false (by simpa using other) notThird⟩

theorem framing_alike_iff (r : Request) (d d' : Delivery r) :
    Alike d d' ↔ (d.Whole ∧ d'.Whole) ∨ (d.Incomplete ∧ d'.Incomplete) ∨ (d.Empty ∧ d'.Empty) := by
  obtain ⟨first,second,third⟩ := d.outcome_iff
  obtain ⟨first',second',third'⟩ := d'.outcome_iff
  constructor
  · rintro ⟨same,exact'⟩
    rcases d.outcome with ⟨out,kind⟩ | ⟨out,kind⟩ | ⟨out,kind⟩ | ⟨body,out,other,_⟩
    · exact .inr (.inl ⟨kind,first'.mp (same.symm.trans out)⟩)
    · exact .inr (.inr ⟨kind,second'.mp (same.symm.trans out)⟩)
    · exact .inl ⟨kind,third'.mp (same.symm.trans out)⟩
    · exact absurd (exact' body out) other
  · rintro (⟨kind,kind'⟩ | ⟨kind,kind'⟩ | ⟨kind,kind'⟩)
    · have out := third.mpr kind
      refine ⟨out.trans (third'.mpr kind').symm,fun body submitted => ?_⟩
      rw [out] at submitted
      exact (Outcome.submit.inj submitted).symm
    · have out := first.mpr kind
      refine ⟨out.trans (first'.mpr kind').symm,fun body submitted => ?_⟩
      rw [out] at submitted
      exact absurd submitted (by simp [incomplete])
    · have out := second.mpr kind
      refine ⟨out.trans (second'.mpr kind').symm,fun body submitted => ?_⟩
      rw [out] at submitted
      exact absurd submitted (by simp [emptyBody])

def helloLength : Field := ⟨cstr "Content-Length",cstr " 5",by decide +kernel,by decide +kernel⟩

def helloRequest : Request where
  line := cstr "POST / HTTP/1.1"
  before := []
  length := helloLength
  after := []
  body := cstr "hello"
  started := by decide +kernel
  others := by simp
  named := rfl
  declared := ⟨[32],[53],[],by decide +kernel,by decide +kernel,by decide +kernel,by decide +kernel,by decide +kernel⟩
  some' := by decide +kernel

def atOnce : Delivery helloRequest := ⟨[helloRequest.bytes],by decide +kernel,by decide +kernel⟩
def inThree : Delivery helloRequest := ⟨[helloRequest.head,cstr "he",cstr "llo"],by decide +kernel,by decide +kernel⟩

theorem helloRequest_differs : helloRequest.bytes = cstr "POST / HTTP/1.1\r\nContent-Length: 5\r\n\r\nhello" ∧
    clientReadProc atOnce.chunks = .submit (cstr "hello") ∧ clientReadProc inThree.chunks = .submit (cstr "he") ∧
    ¬ Alike atOnce inThree := by
  have whole : clientReadProc atOnce.chunks = .submit (cstr "hello") := by decide +kernel
  have short : clientReadProc inThree.chunks = .submit (cstr "he") := by decide +kernel
  refine ⟨by decide +kernel,whole,short,fun alike => ?_⟩
  have same := alike.1
  rw [whole,short] at same
  exact absurd same (by decide +kernel)

end TinyLlama.Server.Framing
