import TinyLlama.Machine
import TinyLlama.Lib.LittleEndian

-- core.c: the byte cursor over the mapped file.
namespace TinyLlama.Gguf
open LittleEndian

def addressSpace : Nat := 2^57

-- What open, fstat and mmap hand to model_load. st_size is a signed off_t and
-- mmap refuses more than the user address space (57 bits at the widest).
structure MappedFile where
  bytes : List UInt8
  fits : bytes.length < addressSpace
deriving DecidableEq

def noBytes : MappedFile := ⟨[],by decide⟩

def MappedFile.size (f : MappedFile) : Nat := f.bytes.length

theorem MappedFile.size_lt (f : MappedFile) : f.size < 2^57 := f.fits

-- `content` is what memory holds from the pointer on; only the first `len`
-- bytes belong to the key. `len` is a u8.
structure Key where
  len : Nat
  content : List UInt8
deriving Repr,DecidableEq

def Key.bytes (k : Key) : List UInt8 := k.content.take k.len
def keyStreq (k : Key) (s : String) : Bool :=
  k.len == (cstr s).length && k.content.take (cstr s).length == cstr s

-- `error` is the message and the offset it was recorded at. `reads` and `steps`
-- are ghosts: every range of the file that was read, and how many cursor
-- operations ran, so that what the parser touches can be stated. `cleared` is one
-- too: the bytes that memset zeroed for the parser's tables.
structure Cursor where
  file : MappedFile
  post : Nat
  error : Option (String × Nat)
  reads : List (Nat × Nat)
  steps : Nat
  cleared : Nat

def cursorAt (f : MappedFile) (post : Nat) : Cursor := ⟨f,post,none,[],0,0⟩

def Cursor.size (c : Cursor) : Nat := c.file.size
def Cursor.tick (c : Cursor) : Cursor := {c with steps:=c.steps+1}
def Cursor.touch (c : Cursor) (n : Nat) : Cursor := {c with reads:=(c.post,n) :: c.reads}
def Cursor.advance (c : Cursor) (n : Nat) : Cursor := {c with post:=u64 (c.post+n)}
def Cursor.peek (c : Cursor) (n : Nat) : List UInt8 := (c.file.bytes.drop c.post).take n

-- What runs over a cursor and may stop. A Parse stops with the C functions'
-- false, a loader with the exit of slog(ERROR, ..).
def Run (ε α : Type) := Cursor → Except ε α × Cursor
abbrev Parse (α : Type) := Run Unit α

instance : Monad (Run ε) where
  pure a := fun c => (.ok a,c)
  bind p k := fun c =>
    match p c with
    | (.error e,c) => (.error e,c)
    | (.ok a,c) => k a c

def Run.position : Run ε Nat := fun c => (.ok c.post,c)

theorem Run.bind_ok {p : Run ε α} {k : α → Run ε β} :
    (p >>= k) c = (.ok b,c') ↔ ∃ a c₁, p c = (.ok a,c₁) ∧ k a c₁ = (.ok b,c') := by
  simp only [Bind.bind]
  cases h : p c with
  | mk result c₁ => cases result <;> simp

theorem Run.pure_ok {a b : α} : (pure a : Run ε α) c = (.ok b,c') ↔ a = b ∧ c = c' := by
  simp [pure]

-- Only the first failure is kept.
def cursorError (msg : String) : Parse α := fun c =>
  match c.error with
  | none => (.error (),{c with error:=some (msg,c.post)})
  | some _ => (.error (),c)

def cursorHas (n : Nat) : Parse Unit := fun c =>
  if n > c.size ∨ u64 (c.post+n) > c.size then cursorError "Truncated GGUF file" c.tick
  else (.ok (),c.tick)

def cursorSkip (n : Nat) : Parse Unit := do
  cursorHas n
  fun c => (.ok (),c.advance n)

def cursorRead (n : Nat) : Parse (List UInt8) := do
  cursorHas n
  fun c => (.ok (c.peek n),(c.touch n).advance n)

def cursorU32 : Parse Nat := do return leNat (← cursorRead 4)
def cursorU64 : Parse Nat := do return leNat (← cursorRead 8)

-- The length prefix is 64 bits, the key's length field 8.
def cursorKey : Parse Key := do
  let len ← cursorU64
  cursorHas len
  fun c => (.ok ⟨u8 len,c.file.bytes.drop c.post⟩,(c.touch len).advance len)

def ggufMaxDims : Nat := 8
def valueUint32 : Nat := 4
def valueFloat32 : Nat := 6
def valueString : Nat := 8
def valueArray : Nat := 9

-- The cases of cursor_skip_value that are a plain skip.
def scalarWidth (type : Nat) : Option Nat :=
  if type = 0 ∨ type = 1 ∨ type = 7 then some 1
  else if type = 2 ∨ type = 3 then some 2
  else if type = 4 ∨ type = 5 ∨ type = 6 then some 4
  else if type = 10 ∨ type = 11 ∨ type = 12 then some 8
  else none

def skipItems (item : Parse Unit) : Nat → Parse Unit
  | 0 => pure ()
  | n+1 => do
    item
    skipItems item n

-- `left` is GGUF_MAX_DIMS + 1 - depth, so 0 is the guard `depth > GGUF_MAX_DIMS`.
def skipValue : Nat → Nat → Parse Unit
  | 0,_ => fun c => cursorError "Metadata array nesting is too deep" c.tick
  | left+1,type => fun c =>
    match scalarWidth type with
    | some n => cursorSkip n c.tick
    | none =>
      if type = valueString then (do let _ ← cursorKey) c.tick
      else if type = valueArray then
        (do
          let itemType ← cursorU32
          let len ← cursorU64
          skipItems (skipValue left itemType) len) c.tick
      else cursorError "Unknown GGUF metadata type" c.tick

def cursorSkipValue (type depth : Nat) : Parse Unit := skipValue (ggufMaxDims+1-depth) type

structure Cursor.Good (c : Cursor) : Prop where
  inside : c.post ≤ c.size
  reads : ∀ r ∈ c.reads, r.1+r.2 ≤ c.size

-- What one operation did to a cursor. Three steps may be charged to each byte it
-- consumed, and `credit` of these are left over. A failure charges what is left
-- of the file and `slack` more.
structure Spends (slack credit : Int) (ok : Bool) (c c' : Cursor) : Prop where
  file : c'.file = c.file
  good : c'.Good
  forward : c.post ≤ c'.post
  cleared : c'.cleared = c.cleared
  ticks : c.steps ≤ c'.steps
  done : ok = true → (c'.steps : Int)+credit ≤ c.steps+3*((c'.post : Int)-c.post)
  failed : ok = false → (c'.steps : Int) ≤ c.steps+3*((c.size : Int)-c.post)+slack

def Run.Bounded (p : Run ε α) (slack credit : Int) (c : Cursor) : Prop :=
  Spends slack credit (p c).1.isOk c (p c).2

theorem Spends.size (s : Spends slack credit ok c c') : c'.size = c.size := by
  simp only [Cursor.size,s.file]

theorem Spends.weaken (s : Spends slack credit ok c c') (less : credit' ≤ credit) (looser : slack ≤ slack') :
    Spends slack' credit' ok c c' := by
  refine ⟨s.file,s.good,s.forward,s.cleared,s.ticks,?_,?_⟩
  · intro success
    have spent := s.done success
    omega
  · intro failure
    have spent := s.failed failure
    omega

theorem Spends.trans (first : Spends slack₁ credit₁ true c c₁) (second : Spends slack₂ credit₂ ok c₁ c₂) :
    Spends (slack₂-credit₁) (credit₁+credit₂) ok c c₂ := by
  have size := first.size
  have cost := first.done rfl
  refine ⟨second.file.trans first.file,second.good,Nat.le_trans first.forward second.forward,
    second.cleared.trans first.cleared,Nat.le_trans first.ticks second.ticks,?_,?_⟩
  · intro success
    have rest := second.done success
    omega
  · intro failure
    have rest := second.failed failure
    omega

theorem Run.bounded_pure (a : α) (good : c.Good) : Run.Bounded (pure a : Run ε α) 0 0 c := by
  refine ⟨rfl,good,Nat.le_refl _,rfl,Nat.le_refl _,?_,fun impossible => Bool.noConfusion impossible⟩
  intro _
  change (c.steps : Int)+0 ≤ c.steps+3*((c.post : Int)-c.post)
  omega

theorem Run.bounded_position {c : Cursor} (good : c.Good) : (Run.position : Run ε Nat).Bounded 0 0 c :=
  Run.bounded_pure c.post good

theorem Run.Bounded.weaken {p : Run ε α} (b : p.Bounded slack credit c) (less : credit' ≤ credit)
    (looser : slack ≤ slack') : p.Bounded slack' credit' c := Spends.weaken b less looser

theorem Run.Bounded.bind (slack₂ credit₂ : Int) {p : Run ε α} {k : α → Run ε β} (first : p.Bounded slack₁ credit₁ c)
    (rest : ∀ a c₁, p c = (.ok a,c₁) → c₁.Good → c₁.file = c.file → (k a).Bounded slack₂ credit₂ c₁)
    (slack : slack₁ ≤ total) (paid : slack₂ ≤ total+credit₁) (earned : credit ≤ credit₁+credit₂) :
    (p >>= k).Bounded total credit c := by
  unfold Run.Bounded at *
  cases h : p c with
  | mk result c₁ =>
    rw [h] at first
    cases result with
    | error e =>
      have bound : (p >>= k) c = (.error e,c₁) := by simp only [Bind.bind,h]
      rw [bound]
      exact ⟨first.file,first.good,first.forward,first.cleared,first.ticks,fun impossible => Bool.noConfusion impossible,
        (first.weaken (Int.le_refl _) slack).failed⟩
    | ok a =>
      have bound : (p >>= k) c = k a c₁ := by simp only [Bind.bind,h]
      rw [bound]
      exact (first.trans (rest a c₁ h first.good first.file)).weaken earned (by omega)

theorem Run.Bounded.next {p : Run ε α} {k : α → Run ε β} (first : p.Bounded slack₁ credit₁ c)
    (rest : ∀ a c₁, p c = (.ok a,c₁) → c₁.Good → c₁.file = c.file → (k a).Bounded slack credit c₁)
    (covered : slack₁ ≤ slack) (paid : 0 ≤ credit₁) : (p >>= k).Bounded slack credit c :=
  .bind slack credit first rest covered (by omega) (by omega)

theorem Run.Bounded.map {p : Run ε α} (f : α → β) (b : p.Bounded slack credit c) (enough : 0 ≤ slack+credit) :
    Run.Bounded (do return f (← p)) slack credit c := by
  have bound : (p >>= fun a => pure (f a)).Bounded slack credit c :=
    .bind 0 0 b (fun a _ _ good _ => Run.bounded_pure (f a) good) (Int.le_refl _) enough (by omega)
  simpa using bound

theorem Cursor.Good.tick {c : Cursor} (good : c.Good) : c.tick.Good := ⟨good.inside,good.reads⟩

theorem cursorError_cases (msg : String) (c : Cursor) :
    (cursorError msg c : Except Unit α × Cursor).1 = .error () ∧
    ∃ error, (cursorError msg c : Except Unit α × Cursor).2 = {c with error:=error} := by
  unfold cursorError
  split <;> exact ⟨rfl,_,rfl⟩

theorem cursorError_bounded {c : Cursor} (msg : String) (good : c.Good) :
    Run.Bounded (fun c => (cursorError msg c.tick : Except Unit α × Cursor)) 1 credit c := by
  obtain ⟨failed,error,same⟩ := cursorError_cases (α:=α) msg c.tick
  unfold Run.Bounded
  simp only [failed,same]
  refine ⟨rfl,⟨good.inside,good.reads⟩,Nat.le_refl _,rfl,Nat.le_succ _,fun impossible => Bool.noConfusion impossible,?_⟩
  intro _
  have inside := good.inside
  simp only [Cursor.tick]
  omega

-- The 64-bit sum in cursor_has cannot wrap: both terms are at most the size of
-- a mapping.
theorem cursorHas_cases {c : Cursor} (good : c.Good) (n : Nat) :
    (c.post+n ≤ c.size ∧ cursorHas n c = (.ok (),c.tick)) ∨
    (c.size < c.post+n ∧ ∃ error, cursorHas n c = (.error (),{c.tick with error:=error})) := by
  have inside := good.inside
  have fits : c.size < 2^57 := c.file.size_lt
  obtain ⟨failed,error,same⟩ := cursorError_cases (α:=Unit) "Truncated GGUF file" c.tick
  have stopped : cursorError "Truncated GGUF file" c.tick = (.error (),{c.tick with error:=error}) :=
    Prod.ext failed same
  by_cases large : c.size < n
  · exact .inr ⟨by omega,error,by simp only [cursorHas,gt_iff_lt,large,true_or,if_true,stopped]⟩
  · have exact64 : u64 (c.post+n) = c.post+n := u64_of_lt (by omega)
    by_cases past : c.size < c.post+n
    · exact .inr ⟨past,error,by simp only [cursorHas,gt_iff_lt,exact64,past,or_true,if_true,stopped]⟩
    · exact .inl ⟨by omega,by simp [cursorHas,exact64,past,large]⟩

theorem cursorHas_ok {c : Cursor} (good : c.Good) (passed : cursorHas n c = (.ok (),c₁)) :
    c.post+n ≤ c.size ∧ c₁ = c.tick := by
  rcases cursorHas_cases good n with ⟨fits,ok⟩ | ⟨_,_,stopped⟩
  · rw [ok] at passed
    exact ⟨fits,(Prod.mk.inj passed).2.symm⟩
  · simp [stopped] at passed

theorem cursorHas_bounded {c : Cursor} (good : c.Good) (n : Nat) : (cursorHas n).Bounded 1 (-1) c := by
  have inside := good.inside
  unfold Run.Bounded
  rcases cursorHas_cases good n with ⟨_,passed⟩ | ⟨_,error,stopped⟩
  · rw [passed]
    refine ⟨rfl,good.tick,Nat.le_refl _,rfl,Nat.le_succ _,?_,fun impossible => Bool.noConfusion impossible⟩
    intro _
    simp only [Cursor.tick]
    omega
  · rw [stopped]
    refine ⟨rfl,⟨good.inside,good.reads⟩,Nat.le_refl _,rfl,Nat.le_succ _,fun impossible => Bool.noConfusion impossible,?_⟩
    intro _
    simp only [Cursor.tick]
    omega

theorem advance_post {c : Cursor} (inside : c.post+n ≤ c.size) : (c.advance n).post = c.post+n := by
  have small : c.size < 2^57 := c.file.size_lt
  exact u64_of_lt (by omega)

theorem advance_bounded {c : Cursor} (a : α) (good : c.Good) (inside : c.post+n ≤ c.size)
    (reads : r = c.reads ∨ r = (c.post,n) :: c.reads) :
    Run.Bounded (fun c => (.ok a,{c.advance n with reads:=r}) : Run ε α) 0 (3*n) c := by
  have moved := advance_post inside
  refine ⟨rfl,⟨?_,?_⟩,?_,rfl,Nat.le_refl _,?_,fun impossible => Bool.noConfusion impossible⟩
  · change (c.advance n).post ≤ c.size
    omega
  · intro range present
    rcases reads with same | read
    · exact good.reads range (same ▸ present)
    · change range ∈ r at present
      rw [read] at present
      rcases List.mem_cons.mp present with rfl | earlier
      · exact inside
      · exact good.reads range earlier
  · change c.post ≤ (c.advance n).post
    omega
  · intro _
    change (c.steps : Int)+3*n ≤ c.steps+3*(((c.advance n).post : Int)-c.post)
    omega

theorem cursorSkip_bounded {c : Cursor} (good : c.Good) (n : Nat) : (cursorSkip n).Bounded 1 (3*n-1) c := by
  refine .bind 0 (3*n) (cursorHas_bounded good n) ?_ (by omega) (by omega) (by omega)
  intro _ c₁ passed good₁ _
  obtain ⟨fits,rfl⟩ := cursorHas_ok good passed
  exact advance_bounded () good₁ fits (.inl rfl)

theorem cursorRead_bounded {c : Cursor} (good : c.Good) (n : Nat) : (cursorRead n).Bounded 1 (3*n-1) c := by
  refine .bind 0 (3*n) (cursorHas_bounded good n) ?_ (by omega) (by omega) (by omega)
  intro _ c₁ passed good₁ _
  obtain ⟨fits,rfl⟩ := cursorHas_ok good passed
  exact advance_bounded _ good₁ fits (.inr rfl)

theorem cursorU32_bounded {c : Cursor} (good : c.Good) : cursorU32.Bounded 1 11 c :=
  (cursorRead_bounded good 4).map leNat (by omega)

theorem cursorU64_bounded {c : Cursor} (good : c.Good) : cursorU64.Bounded 1 23 c :=
  (cursorRead_bounded good 8).map leNat (by omega)

theorem cursorU32_steps (c : Cursor) : (cursorU32 c).2.steps = c.steps+1 := by
  obtain ⟨failed,error,same⟩ := cursorError_cases (α:=Unit) "Truncated GGUF file" c.tick
  by_cases bad : 4 > c.size ∨ u64 (c.post+4) > c.size
  · have stopped : cursorHas 4 c = (.error (),{c.tick with error:=error}) := by
      simp only [cursorHas,if_pos bad]; exact Prod.ext failed same
    simp only [cursorU32,cursorRead,Bind.bind,stopped]
    rfl
  · simp only [cursorU32,cursorRead,Bind.bind,cursorHas,if_neg bad]
    rfl

theorem cursorKey_bounded {c : Cursor} (good : c.Good) : cursorKey.Bounded 1 22 c := by
  refine .bind 1 (-1) (cursorU64_bounded good) ?_ (by omega) (by omega) (by omega)
  intro len c₁ _ good₁ _
  refine .bind 0 (3*len) (cursorHas_bounded good₁ len) ?_ (by omega) (by omega) (by omega)
  intro _ c₂ passed good₂ _
  obtain ⟨fits,rfl⟩ := cursorHas_ok good₁ passed
  exact advance_bounded _ good₂ fits (.inr rfl)

theorem skipItems_bounded (item : Parse Unit) (each : ∀ c : Cursor, c.Good → item.Bounded 2 1 c) (n : Nat) :
    ∀ c : Cursor, c.Good → (skipItems item n).Bounded 2 0 c := by
  induction n with
  | zero => intro c good; exact (Run.bounded_pure () good).weaken (by omega) (by omega)
  | succ n ih =>
    intro c good
    exact .next (each c good) (fun _ c₁ _ good₁ _ => ih c₁ good₁) (by omega) (by omega)

-- The call itself is one step.
theorem Run.Bounded.ticked {p : Run ε α} (b : p.Bounded slack credit c.tick) :
    Run.Bounded (fun c => p c.tick) (slack+1) (credit-1) c := by
  unfold Run.Bounded at *
  refine ⟨b.file,b.good,b.forward,b.cleared,Nat.le_trans (Nat.le_succ _) b.ticks,?_,?_⟩
  · intro success
    have spent := b.done success
    simp only [Cursor.tick] at spent ⊢
    omega
  · intro failure
    have spent := b.failed failure
    simp only [Cursor.tick,Cursor.size] at spent ⊢
    omega

theorem scalarWidth_pos (known : scalarWidth type = some n) : 0 < n := by
  unfold scalarWidth at known
  grind

-- The depth guard is what the induction is on: each nested array has one level
-- less, and pays for its own header.
theorem skipValue_bounded (left type : Nat) : ∀ c : Cursor, c.Good → (skipValue left type).Bounded 2 1 c := by
  induction left generalizing type with
  | zero => intro c good; exact (cursorError_bounded _ good).weaken (Int.le_refl _) (by omega)
  | succ left ih =>
    intro c good
    cases width : scalarWidth type with
    | some n =>
      have wide := scalarWidth_pos width
      have run : skipValue (left+1) type = fun c => cursorSkip n c.tick := by funext c; simp only [skipValue,width]
      rw [run]
      exact (cursorSkip_bounded good.tick n).ticked.weaken (by omega) (by omega)
    | none =>
      by_cases text : type = valueString
      · have run : skipValue (left+1) type = fun c => (do let _ ← cursorKey) c.tick := by
          funext c; simp only [skipValue,width,if_pos text]
        rw [run]
        exact ((cursorKey_bounded good.tick).map (fun _ => ()) (by omega)).ticked.weaken (by omega) (by omega)
      by_cases nested : type = valueArray
      · have run : skipValue (left+1) type = fun c => (do
            let itemType ← cursorU32
            let len ← cursorU64
            skipItems (skipValue left itemType) len) c.tick := by
          funext c; simp only [skipValue,width,if_neg text,if_pos nested]
        rw [run]
        have items : (do
            let itemType ← cursorU32
            let len ← cursorU64
            skipItems (skipValue left itemType) len).Bounded 1 2 c.tick := by
          refine .bind 1 0 (cursorU32_bounded good.tick) ?_ (by omega) (by omega) (by omega)
          intro itemType c₁ _ good₁ _
          refine .bind 2 0 (cursorU64_bounded good₁) ?_ (by omega) (by omega) (by omega)
          intro len c₂ _ good₂ _
          exact skipItems_bounded (skipValue left itemType) (ih itemType) len c₂ good₂
        exact items.ticked
      · have run : skipValue (left+1) type = fun c => cursorError "Unknown GGUF metadata type" c.tick := by
          funext c; simp only [skipValue,width,if_neg text,if_neg nested]
        rw [run]
        exact (cursorError_bounded _ good).weaken (Int.le_refl _) (by omega)

end TinyLlama.Gguf
