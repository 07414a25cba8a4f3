import TinyLlama.Machine

-- http.c: the string scans. A read past the NUL stops a scan; a loop that used up its fuel is stuck.
namespace TinyLlama.Server

inductive Scan (α : Type) where
  | done (a : α)
  | outside (pos : Nat)
  | stuck
deriving DecidableEq

def Scan.bind : Scan α → (α → Scan β) → Scan β
  | .done a,f => f a
  | .outside pos,_ => .outside pos
  | .stuck,_ => .stuck

instance : Monad Scan where
  pure := .done
  bind := Scan.bind

@[simp] theorem pure_done (a : α) : (pure a : Scan α) = .done a := rfl
@[simp] theorem done_bind (a : α) (f : α → Scan β) : (Scan.done a >>= f) = f a := rfl
@[simp] theorem outside_bind (pos : Nat) (f : α → Scan β) : (Scan.outside pos >>= f) = .outside pos := rfl
@[simp] theorem stuck_bind (f : α → Scan β) : ((Scan.stuck : Scan α) >>= f) = .stuck := rfl

-- s[pos], where s[length] is the NUL.
def charAt (s : List UInt8) (pos : Nat) : Scan UInt8 :=
  match s[pos]? with
  | some c => .done c
  | none => if pos = s.length then .done 0 else .outside pos

def quote : UInt8 := 34
def backslash : UInt8 := 92
def colon : UInt8 := 58

def isJsonSpace (c : UInt8) : Bool := c = 32 || c = 9 || c = 10 || c = 13

def matchAt (s : List UInt8) (pos : Nat) : List UInt8 → Scan Bool
  | [] => .done true
  | c :: rest => do
    if (← charAt s pos) = c then matchAt s (pos+1) rest else .done false

-- strstr from `pos`: the first match before the NUL.
def strstr (s : List UInt8) (needle : List UInt8) : Nat → Nat → Scan (Option Nat)
  | 0,_ => .stuck
  | fuel+1,pos => do
    if ← matchAt s pos needle then .done (some pos)
    else if (← charAt s pos) = 0 then .done none
    else strstr s needle fuel (pos+1)

def skipSpace (s : List UInt8) : Nat → Nat → Scan Nat
  | 0,_ => .stuck
  | fuel+1,pos => do
    if isJsonSpace (← charAt s pos) then skipSpace s fuel (pos+1) else .done pos

-- The closing quote of a string, or the NUL: a backslash takes the byte after it along.
def closingQuote (s : List UInt8) : Nat → Nat → Scan Nat
  | 0,_ => .stuck
  | fuel+1,pos => do
    let c ← charAt s pos
    if c = 0 ∨ c = quote then .done pos
    else if c = backslash then
      if (← charAt s (pos+1)) = 0 then closingQuote s fuel (pos+1) else closingQuote s fuel (pos+2)
    else closingQuote s fuel (pos+1)

def quoted (key : List UInt8) : List UInt8 := quote :: key++[quote]

-- The loop of json_get_string: start and length of the value, `fuel` for each loop.
def getStringFrom (s search : List UInt8) (fuel : Nat) : Nat → Nat → Scan (Option (Nat × Nat))
  | 0,_ => .stuck
  | rounds+1,pos => do
    match ← strstr s search fuel pos with
    | none => .done none
    | some found =>
      let pos ← skipSpace s fuel (found+search.length)
      if (← charAt s pos) ≠ colon then getStringFrom s search fuel rounds pos
      else
        let pos ← skipSpace s fuel (pos+1)
        if (← charAt s pos) ≠ quote then getStringFrom s search fuel rounds pos
        else
          let stop ← closingQuote s fuel (pos+1)
          if (← charAt s stop) ≠ quote then getStringFrom s search fuel rounds stop
          else .done (some (pos+1,stop-(pos+1)))

-- The search buffer takes 128 bytes, its NUL included.
def jsonGetString (s key : List UInt8) (fuel pos : Nat) : Scan (Option (Nat × Nat)) :=
  if (quoted key).length ≥ 128 then .done none else getStringFrom s (quoted key) fuel fuel pos

def jsonUnescapeFrom : Nat → List UInt8 → List UInt8
  | 0,_ => []
  | _,[] => []
  | fuel+1,c :: rest =>
    if c = backslash then
      match rest with
      | [] => [c]
      | e :: after =>
        if e = 110 then 10 :: jsonUnescapeFrom fuel after
        else if e = 114 then 13 :: jsonUnescapeFrom fuel after
        else if e = 116 then 9 :: jsonUnescapeFrom fuel after
        else if e = 117 then 63 :: jsonUnescapeFrom fuel (after.drop 4)
        else e :: jsonUnescapeFrom fuel after
    else c :: jsonUnescapeFrom fuel rest

-- json_unescape of a whole slice: \n, \r and \t, one '?' for \uXXXX, and the byte itself after any other backslash.
def jsonUnescape (src : List UInt8) : List UInt8 := jsonUnescapeFrom src.length src

variable {s : List UInt8}

theorem charAt_inside (inside : pos ≤ s.length) : ∃ c, charAt s pos = .done c := by
  unfold charAt
  split
  · exact ⟨_,rfl⟩
  · rename_i none'
    exact ⟨0,if_pos (Nat.le_antisymm inside (List.getElem?_eq_none_iff.mp none'))⟩

theorem charAt_below (read : charAt s pos = .done c) (some' : c ≠ 0) : pos < s.length := by
  unfold charAt at read
  split at read
  · rename_i found
    exact (List.getElem?_eq_some_iff.mp found).1
  · split at read
    · exact absurd (Scan.done.inj read).symm some'
    · simp at read

theorem charAt_outside (past : s.length < pos) : charAt s pos = .outside pos := by
  unfold charAt
  rw [List.getElem?_eq_none_iff.mpr (Nat.le_of_lt past)]
  exact if_neg (by omega)

theorem matchAt_inside (needle : List UInt8) : ∀ pos ≤ s.length, (∀ c ∈ needle, c ≠ 0) →
    ∃ b, matchAt s pos needle = .done b ∧ (b = true → pos+needle.length ≤ s.length) := by
  induction needle with
  | nil =>
    intro pos inside _
    exact ⟨true,rfl,fun _ => inside⟩
  | cons c rest ih =>
    intro pos inside plain
    obtain ⟨d,read⟩ := charAt_inside inside
    by_cases same : d = c
    · have below := charAt_below read (same ▸ plain c List.mem_cons_self)
      obtain ⟨b,found,fits⟩ := ih (pos+1) below fun e listed => plain e (List.mem_cons_of_mem c listed)
      refine ⟨b,by rw [matchAt,read,done_bind,if_pos same,found],fun yes => ?_⟩
      have room := fits yes
      rw [List.length_cons]
      omega
    · exact ⟨false,by rw [matchAt,read,done_bind,if_neg same],by simp⟩

theorem strstr_inside (needle : List UInt8) (plain : ∀ c ∈ needle, c ≠ 0) (fuel : Nat) :
    ∀ pos ≤ s.length, s.length < pos+fuel → ∃ found, strstr s needle fuel pos = .done found ∧
      ∀ at' ∈ found, pos ≤ at' ∧ at'+needle.length ≤ s.length := by
  induction fuel with
  | zero =>
    intro pos inside enough
    omega
  | succ fuel ih =>
    intro pos inside enough
    obtain ⟨b,tested,fits⟩ := matchAt_inside needle pos inside plain
    obtain ⟨c,read⟩ := charAt_inside inside
    cases b with
    | true => exact ⟨some pos,by simp [strstr,tested],by simpa using fits rfl⟩
    | false =>
      by_cases nul : c = 0
      · exact ⟨none,by simp [strstr,tested,read,nul],by simp⟩
      · have below := charAt_below read nul
        obtain ⟨found,result,bounds⟩ := ih (pos+1) below (by omega)
        refine ⟨found,by simp [strstr,tested,read,nul,result],fun at' listed => ?_⟩
        have bound := bounds at' listed
        omega

end TinyLlama.Server
