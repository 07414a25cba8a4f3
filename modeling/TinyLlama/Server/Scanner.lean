import TinyLlama.Server.Http

-- server.c, handle_request: the messages found in a job body by text search.
namespace TinyLlama.Server

-- The body of a job as a C string: body_len is an int, and the first NUL ends it.
structure JobBody where
  text : List UInt8
  plain : ∀ c ∈ text, c ≠ 0
  fits : text.length < 2^31

def contentKey : List UInt8 := cstr "content"
def sysBuf : Nat := 1024
def userBuf : Nat := 4096

-- json_unescape into a buffer of `cap` bytes, the last of them for the NUL.
def copied (cap : Nat) (body : List UInt8) (field : Nat × Nat) : List UInt8 :=
  jsonUnescape ((body.drop field.1).take (if field.2 < cap-1 then field.2 else cap-1))

-- The first content, when "system" stands anywhere from 40 bytes before it on.
def systemContent (body : List UInt8) (fuel : Nat) : Scan (Option (Nat × Nat)) := do
  match ← jsonGetString body contentKey fuel 0 with
  | none => .done none
  | some field =>
    match ← strstr body (quoted (cstr "system")) fuel (field.1-40) with
    | none => .done none
    | some _ => .done (some field)

-- The last content with "user" anywhere from 60 bytes before it on; the scan resumes
-- two bytes past the value.
def contentLoop (body : List UInt8) (fuel : Nat) : Nat → Nat → Option (Nat × Nat) → Scan (Option (Nat × Nat))
  | 0,_,_ => .stuck
  | rounds+1,pos,last => do
    match ← jsonGetString body contentKey fuel pos with
    | none => .done last
    | some field =>
      match ← strstr body (quoted (cstr "user")) fuel (field.1-60) with
      | none => contentLoop body fuel rounds (field.1+field.2+2) last
      | some _ => contentLoop body fuel rounds (field.1+field.2+2) (some field)

-- What handle_request extracts before it looks at the messages: user_msg ("" when there is none) and sys_msg.
def extractMessages (body : List UInt8) (fuel : Nat) : Scan (List UInt8 × Option (List UInt8)) := do
  let sys ← systemContent body fuel
  let user ← contentLoop body fuel fuel 0 none
  .done ((user.map (copied userBuf body)).getD [],sys.map (copied sysBuf body))

-- Every loop passes a byte in each round, so that one more round than bytes is enough.
def JobBody.messages (body : JobBody) : Scan (List UInt8 × Option (List UInt8)) :=
  extractMessages body.text (body.text.length+1)

-- `rest` is the text from `pos` to the NUL.
structure Left (s : List UInt8) (pos : Nat) (rest : List UInt8) : Prop where
  length : pos+rest.length = s.length
  drop : s.drop pos = rest

-- `rest` follows the first occurrence of `needle` in `text`.
def After (needle text rest : List UInt8) : Prop :=
  ∃ before, text = before++needle++rest ∧ ∀ b r, text = b++needle++r → before.length ≤ b.length

-- The inside of a string: quotes only behind a backslash, and no backslash alone at the end.
inductive Spells : List UInt8 → Prop
  | nil : Spells []
  | byte (c : UInt8) (rest : List UInt8) : c ≠ quote → c ≠ backslash → Spells rest → Spells (c :: rest)
  | pair (c : UInt8) (rest : List UInt8) : Spells rest → Spells (backslash :: c :: rest)

-- `value` is the first string in `text` that a colon joins to the key, and `after`
-- what follows its closing quote. A key without such a string is passed by.
inductive NextValue (key : List UInt8) : List UInt8 → List UInt8 → List UInt8 → Prop
  | joined : After (quoted key) text rest → rest.dropWhile isJsonSpace = colon :: rest' →
      rest'.dropWhile isJsonSpace = quote :: (value++quote :: after) → Spells value →
      NextValue key text value after
  | noColon : After (quoted key) text rest → (rest.dropWhile isJsonSpace).head? ≠ some colon →
      NextValue key (rest.dropWhile isJsonSpace) value after → NextValue key text value after
  | noString : After (quoted key) text rest → rest.dropWhile isJsonSpace = colon :: rest' →
      (rest'.dropWhile isJsonSpace).head? ≠ some quote →
      NextValue key (rest'.dropWhile isJsonSpace) value after → NextValue key text value after

-- The values a scan from the start of `text` meets: each search starts one byte after
-- the quote that closed the value before.
inductive Meets (key : List UInt8) : List UInt8 → List UInt8 → List UInt8 → Prop
  | here : NextValue key text value after → Meets key text value after
  | later : NextValue key text value' (c :: text') → Meets key text' value after → Meets key text value after

variable {s text rest : List UInt8}

theorem Left.whole (s : List UInt8) : Left s 0 s := ⟨Nat.zero_add _,rfl⟩

theorem Left.skip (left : Left s pos (passed++rest)) : Left s (pos+passed.length) rest := by
  have total := left.length
  rw [List.length_append] at total
  refine ⟨by omega,?_⟩
  rw [← List.drop_drop,left.drop,List.drop_left]

theorem Left.next (left : Left s pos (c :: rest)) : Left s (pos+1) rest := Left.skip (show Left s pos ([c]++rest) from left)

theorem Left.mem (left : Left s pos rest) (listed : c ∈ rest) : c ∈ s := by
  rw [← left.drop] at listed
  exact List.mem_of_mem_drop listed

theorem Left.upto (left : Left s pos rest) : pos ≤ s.length := by
  have total := left.length
  omega

theorem Left.char (left : Left s pos rest) : charAt s pos = .done (rest.headD 0) := by
  have total := left.length
  have head : s[pos]? = rest.head? := by rw [← left.drop,List.head?_drop]
  unfold charAt
  rw [head]
  cases rest with
  | nil => exact if_pos (by simpa using total)
  | cons c rest => rfl

theorem After.unique (one : After needle text rest) (two : After needle text rest') : rest = rest' := by
  obtain ⟨before,split,first⟩ := one
  obtain ⟨before',split',first'⟩ := two
  have same : before.length = before'.length := Nat.le_antisymm (first _ _ split') (first' _ _ split)
  refine (List.append_inj (split.symm.trans split') ?_).2
  rw [List.length_append,List.length_append,same]

theorem matchAt_left (needle : List UInt8) (plain : ∀ c ∈ needle, c ≠ 0) : ∀ pos rest, Left s pos rest →
    matchAt s pos needle = .done (decide (needle <+: rest)) := by
  induction needle with
  | nil =>
    intro pos rest _
    simp [matchAt]
  | cons c needle ih =>
    intro pos rest left
    have read := left.char
    cases rest with
    | nil =>
      have other : (0 : UInt8) ≠ c := fun same => plain c List.mem_cons_self same.symm
      simp [matchAt,read,other]
    | cons d rest =>
      by_cases same : d = c
      · subst same
        have more := ih (fun e listed => plain e (List.mem_cons_of_mem d listed)) (pos+1) rest left.next
        simp [matchAt,read,more,List.cons_prefix_cons]
      · have other : ¬ (c :: needle) <+: d :: rest := fun front => same (List.cons_prefix_cons.mp front).1.symm
        simp [matchAt,read,same,other]

theorem After.cons (found : After needle text rest) (other : ¬ needle <+: c :: text) :
    After needle (c :: text) rest := by
  obtain ⟨before,split,first⟩ := found
  refine ⟨c :: before,by rw [split]; rfl,fun b r split' => ?_⟩
  cases b with
  | nil => exact absurd ⟨r,split'.symm⟩ other
  | cons d b =>
    have tail := (List.cons.inj split').2
    exact Nat.succ_le_succ (first b r tail)

theorem strstr_left (needle : List UInt8) (plain : ∀ c ∈ needle, c ≠ 0) (clean : ∀ c ∈ s, c ≠ 0) (fuel : Nat) :
    ∀ pos text, Left s pos text → text.length < fuel →
      (∃ at' rest, strstr s needle fuel pos = .done (some at') ∧ pos ≤ at' ∧ Left s (at'+needle.length) rest ∧
        After needle text rest) ∨
      (strstr s needle fuel pos = .done none ∧ ¬ needle <:+: text) := by
  induction fuel with
  | zero =>
    intro pos text _ enough
    omega
  | succ fuel ih =>
    intro pos text left enough
    have tested := matchAt_left needle plain pos text left
    by_cases front : needle <+: text
    · obtain ⟨rest,split⟩ := front
      refine .inl ⟨pos,rest,?_,Nat.le_refl _,Left.skip (by rw [split]; exact left),[],split.symm,fun _ _ _ => Nat.zero_le _⟩
      simp [strstr,tested,← split]
    · have read := left.char
      cases text with
      | nil =>
        refine .inr ⟨by simp [strstr,tested,front,read],fun inside => front ?_⟩
        rw [List.infix_nil.mp inside]
      | cons c text =>
        have some' : c ≠ 0 := clean c (left.mem List.mem_cons_self)
        have again : strstr s needle (fuel+1) pos = strstr s needle fuel (pos+1) := by
          simp [strstr,tested,front,read,some']
        rw [again]
        rcases ih (pos+1) text left.next (by simpa using enough) with ⟨at',rest,result,later,left',found⟩ | ⟨result,absent⟩
        · exact .inl ⟨at',rest,result,by omega,left',found.cons front⟩
        · refine .inr ⟨result,fun inside => ?_⟩
          rcases List.infix_cons_iff.mp inside with here | there
          · exact front here
          · exact absent there

theorem skipSpace_left (fuel : Nat) : ∀ pos rest, Left s pos rest → rest.length < fuel →
    ∃ p, skipSpace s fuel pos = .done p ∧ Left s p (rest.dropWhile isJsonSpace) := by
  induction fuel with
  | zero =>
    intro pos rest _ enough
    omega
  | succ fuel ih =>
    intro pos rest left enough
    have read := left.char
    cases rest with
    | nil => exact ⟨pos,by simp [skipSpace,read,isJsonSpace],left⟩
    | cons c rest =>
      by_cases space : isJsonSpace c = true
      · obtain ⟨p,result,left'⟩ := ih (pos+1) rest left.next (by simpa using enough)
        refine ⟨p,by simp [skipSpace,read,space,result],?_⟩
        rw [List.dropWhile_cons_of_pos space]
        exact left'
      · refine ⟨pos,by simp [skipSpace,read,space],?_⟩
        rw [List.dropWhile_cons_of_neg space]
        exact left

theorem Spells.unique (one : Spells value) : ∀ {value' after after' : List UInt8}, Spells value' →
    value++quote :: after = value'++quote :: after' → value = value' ∧ after = after' := by
  induction one with
  | nil =>
    intro value' after after' two same
    cases two with
    | nil => exact ⟨rfl,(List.cons.inj same).2⟩
    | byte c rest other => exact absurd (List.cons.inj same).1.symm other
    | pair c rest => exact absurd (List.cons.inj same).1 (by decide)
  | byte c rest notQuote notSlash _ ih =>
    intro value' after after' two same
    cases two with
    | nil => exact absurd (List.cons.inj same).1 notQuote
    | byte d rest' _ _ two =>
      obtain ⟨rfl,tail⟩ := List.cons.inj same
      obtain ⟨rfl,rfl⟩ := ih two tail
      exact ⟨rfl,rfl⟩
    | pair d rest' => exact absurd (List.cons.inj same).1 notSlash
  | pair c rest _ ih =>
    intro value' after after' two same
    cases two with
    | nil => exact absurd (List.cons.inj same).1 (by decide)
    | byte d rest' _ notSlash => exact absurd (List.cons.inj same).1.symm notSlash
    | pair d rest' two =>
      obtain ⟨rfl,tail⟩ := List.cons.inj (List.cons.inj same).2
      obtain ⟨rfl,rfl⟩ := ih two tail
      exact ⟨rfl,rfl⟩

theorem closingQuote_left (clean : ∀ c ∈ s, c ≠ 0) (fuel : Nat) : ∀ pos rest, Left s pos rest → rest.length < fuel →
    (∃ value after, closingQuote s fuel pos = .done (pos+value.length) ∧ rest = value++quote :: after ∧ Spells value) ∨
    (closingQuote s fuel pos = .done s.length ∧ ∀ value after, Spells value → rest ≠ value++quote :: after) := by
  induction fuel with
  | zero =>
    intro pos rest _ enough
    omega
  | succ fuel ih =>
    intro pos rest left enough
    have read := left.char
    cases rest with
    | nil =>
      have last : pos = s.length := by simpa using left.length
      refine .inr ⟨?_,fun value after _ => by simp⟩
      rw [closingQuote,read,done_bind,List.headD_nil,if_pos (.inl rfl),last]
    | cons c rest =>
      have some' : c ≠ 0 := clean c (left.mem List.mem_cons_self)
      rw [List.headD_cons] at read
      by_cases closes : c = quote
      · subst closes
        exact .inl ⟨[],rest,by simp [closingQuote,read],rfl,.nil⟩
      have ends : ¬ (c = 0 ∨ c = quote) := by simp [some',closes]
      by_cases slash : c = backslash
      · subst slash
        have read' := left.next.char
        cases rest with
        | nil =>
          rw [List.headD_nil] at read'
          have last : pos+1 = s.length := by simpa using left.next.length
          refine .inr ⟨?_,fun value after spelled same => ?_⟩
          · rcases ih (pos+1) [] left.next (by simpa using enough) with ⟨_,_,_,split,_⟩ | ⟨result,_⟩
            · simp at split
            · rw [closingQuote,read,done_bind,if_neg ends,if_pos rfl,read',done_bind,if_pos rfl,result]
          · cases spelled with
            | nil => exact absurd (List.cons.inj same).1 (by decide)
            | byte d rest _ other => exact other (List.cons.inj same).1.symm
            | pair d rest => simp at same
        | cons d rest =>
          have nul : d ≠ 0 := clean d (left.next.mem List.mem_cons_self)
          rw [List.headD_cons] at read'
          have again : closingQuote s (fuel+1) pos = closingQuote s fuel (pos+2) := by
            rw [closingQuote,read,done_bind,if_neg ends,if_pos rfl,read',done_bind,if_neg nul]
          rw [again]
          simp only [List.length_cons] at enough
          rcases ih (pos+2) rest left.next.next (by omega) with ⟨value,after,result,split,spelled⟩ | ⟨result,open'⟩
          · refine .inl ⟨backslash :: d :: value,after,?_,by rw [split]; rfl,.pair d value spelled⟩
            rw [result,List.length_cons,List.length_cons]
            exact congrArg Scan.done (by omega)
          · refine .inr ⟨result,fun value after spelled same => ?_⟩
            cases spelled with
            | nil => exact absurd (List.cons.inj same).1 (by decide)
            | byte e rest' _ other => exact other (List.cons.inj same).1.symm
            | pair e rest' spelled => exact open' _ _ spelled (List.cons.inj (List.cons.inj same).2).2
      · have again : closingQuote s (fuel+1) pos = closingQuote s fuel (pos+1) := by
          rw [closingQuote,read,done_bind,if_neg ends,if_neg slash]
        rw [again]
        rcases ih (pos+1) rest left.next (by simpa using enough) with ⟨value,after,result,split,spelled⟩ | ⟨result,open'⟩
        · refine .inl ⟨c :: value,after,?_,by rw [split]; rfl,.byte c value closes slash spelled⟩
          rw [result,List.length_cons]
          exact congrArg Scan.done (by omega)
        · refine .inr ⟨result,fun value after spelled same => ?_⟩
          cases spelled with
          | nil => exact closes (List.cons.inj same).1
          | byte e rest' _ _ spelled => exact open' _ _ spelled (List.cons.inj same).2
          | pair e rest' => exact slash (List.cons.inj same).1

theorem After.split (found : After needle text rest) : ∃ before, text = before++needle++rest := by
  obtain ⟨before,split,_⟩ := found
  exact ⟨before,split⟩

theorem After.length (found : After needle text rest) : needle.length+rest.length ≤ text.length := by
  obtain ⟨before,rfl⟩ := found.split
  simp only [List.length_append]
  omega

theorem NextValue.occurs (next : NextValue key text value after) : ∃ rest, After (quoted key) text rest := by
  cases next with
  | joined found => exact ⟨_,found⟩
  | noColon found => exact ⟨_,found⟩
  | noString found => exact ⟨_,found⟩

theorem headD_ne {c : UInt8} (other : rest.head? ≠ some c) (some' : c ≠ 0) : rest.headD 0 ≠ c := by
  cases rest with
  | nil => exact some'.symm
  | cons d rest => simpa using other

section Search
variable {key : List UInt8} (plain : ∀ c ∈ quoted key, c ≠ 0) (clean : ∀ c ∈ s, c ≠ 0)
include plain clean

theorem strstr_after (fuel : Nat) (found : After (quoted key) text rest) (left : Left s pos text) (enough : text.length < fuel) :
    ∃ at', strstr s (quoted key) fuel pos = .done (some at') ∧ Left s (at'+(quoted key).length) rest := by
  rcases strstr_left (quoted key) plain clean fuel pos text left enough with ⟨at',rest',result,_,left',found'⟩ | ⟨_,absent⟩
  · rw [found.unique found']
    exact ⟨at',result,left'⟩
  · obtain ⟨before,split⟩ := found.split
    exact absurd ⟨before,rest,split.symm⟩ absent

theorem NextValue.found (next : NextValue key text value after) (enough : s.length < fuel) : ∀ rounds pos,
    Left s pos text → text.length < rounds →
    ∃ start, getStringFrom s (quoted key) fuel rounds pos = .done (some (start,value.length)) ∧
      Left s start (value++quote :: after) := by
  induction next with
  | @joined text rest rest' value after found colon' quote' spelled =>
    intro rounds pos left more
    obtain ⟨rounds,rfl⟩ : ∃ r, rounds = r+1 := ⟨rounds-1,by omega⟩
    have upto := left.length
    obtain ⟨at',result,left₁⟩ := strstr_after plain clean fuel found left (by omega)
    obtain ⟨p,spaces,left₂⟩ := skipSpace_left fuel _ _ left₁ (by have := left₁.length; omega)
    rw [colon'] at left₂
    obtain ⟨q,spaces',left₃⟩ := skipSpace_left fuel _ _ left₂.next (by have := left₂.next.length; omega)
    rw [quote'] at left₃
    have read := left₂.char
    have read' := left₃.char
    rw [List.headD_cons] at read read'
    rcases closingQuote_left clean fuel _ _ left₃.next (by have := left₃.next.length; omega) with
      ⟨value',after',result',split,spelled'⟩ | ⟨_,open'⟩
    · obtain ⟨rfl,rfl⟩ := spelled.unique spelled' split
      have read'' := left₃.next.skip.char
      rw [List.headD_cons] at read''
      refine ⟨q+1,?_,left₃.next⟩
      simp [getStringFrom,result,spaces,read,spaces',read',result',read'']
    · exact absurd rfl (open' value after spelled)
  | @noColon text rest value after found other _ ih =>
    intro rounds pos left more
    obtain ⟨rounds,rfl⟩ : ∃ r, rounds = r+1 := ⟨rounds-1,by omega⟩
    have upto := left.length
    have shorter := found.length
    obtain ⟨at',result,left₁⟩ := strstr_after plain clean fuel found left (by omega)
    obtain ⟨p,spaces,left₂⟩ := skipSpace_left fuel _ _ left₁ (by have := left₁.length; omega)
    have dropped := (List.dropWhile_suffix isJsonSpace (l:=rest)).length_le
    have some' : 0 < (quoted key).length := by simp [quoted]
    obtain ⟨start,again,left₃⟩ := ih rounds p left₂ (by omega)
    refine ⟨start,?_,left₃⟩
    have read := left₂.char
    have differs := headD_ne other (by decide)
    simp only [getStringFrom,result,done_bind,spaces,read,if_pos differs,again]
  | @noString text rest rest' value after found colon' other _ ih =>
    intro rounds pos left more
    obtain ⟨rounds,rfl⟩ : ∃ r, rounds = r+1 := ⟨rounds-1,by omega⟩
    have upto := left.length
    have shorter := found.length
    obtain ⟨at',result,left₁⟩ := strstr_after plain clean fuel found left (by omega)
    obtain ⟨p,spaces,left₂⟩ := skipSpace_left fuel _ _ left₁ (by have := left₁.length; omega)
    have dropped := (List.dropWhile_suffix isJsonSpace (l:=rest)).length_le
    rw [colon'] at left₂ dropped
    obtain ⟨q,spaces',left₃⟩ := skipSpace_left fuel _ _ left₂.next (by have := left₂.next.length; omega)
    have dropped' := (List.dropWhile_suffix isJsonSpace (l:=rest')).length_le
    rw [List.length_cons] at dropped
    obtain ⟨start,again,left₄⟩ := ih rounds q left₃ (by omega)
    refine ⟨start,?_,left₄⟩
    have read := left₂.char
    rw [List.headD_cons] at read
    have read' := left₃.char
    have differs := headD_ne other (by decide)
    have same : ¬ (colon ≠ colon) := fun h => h rfl
    simp only [getStringFrom,result,done_bind,spaces,read,if_neg same,spaces',read',if_pos differs,again]

theorem nextValue_or_none (fuel : Nat) (enough : s.length < fuel) (rounds : Nat) : ∀ pos text,
    Left s pos text → text.length < rounds →
    (∃ value after, NextValue key text value after) ∨ getStringFrom s (quoted key) fuel rounds pos = .done none := by
  induction rounds with
  | zero =>
    intro pos text _ more
    omega
  | succ rounds ih =>
    intro pos text left more
    have upto := left.length
    have some' : 0 < (quoted key).length := by simp [quoted]
    rcases strstr_left (quoted key) plain clean fuel pos text left (by omega) with ⟨at',rest,result,_,left₁,found⟩ | ⟨result,_⟩
    · have shorter := found.length
      obtain ⟨p,spaces,left₂⟩ := skipSpace_left fuel _ _ left₁ (by omega)
      have dropped := (List.dropWhile_suffix isJsonSpace (l:=rest)).length_le
      have read := left₂.char
      by_cases isColon : (rest.dropWhile isJsonSpace).head? = some colon
      · obtain ⟨rest',colon'⟩ := List.head?_eq_some_iff.mp isColon
        rw [colon'] at left₂ dropped read
        rw [List.headD_cons] at read
        rw [List.length_cons] at dropped
        obtain ⟨q,spaces',left₃⟩ := skipSpace_left fuel _ _ left₂.next (by omega)
        have dropped' := (List.dropWhile_suffix isJsonSpace (l:=rest')).length_le
        have read' := left₃.char
        have same : ¬ (colon ≠ colon) := fun h => h rfl
        by_cases isQuote : (rest'.dropWhile isJsonSpace).head? = some quote
        · obtain ⟨rest'',quote'⟩ := List.head?_eq_some_iff.mp isQuote
          rw [quote'] at left₃ read'
          rw [List.headD_cons] at read'
          have inside := left₃.next.length
          rcases closingQuote_left clean fuel _ _ left₃.next (by omega) with ⟨value,after,_,split,spelled⟩ | ⟨result',_⟩
          · exact .inl ⟨value,after,.joined found colon' (by rw [quote',split]) spelled⟩
          · -- No closing quote: the search ends at the NUL.
            have at_end : Left s s.length [] := ⟨rfl,List.drop_length⟩
            have read'' := at_end.char
            rw [List.headD_nil] at read''
            rcases ih s.length [] at_end (by simp; omega) with ⟨_,_,next⟩ | last
            · obtain ⟨_,found'⟩ := next.occurs
              have short := found'.length
              rw [List.length_nil] at short
              omega
            · refine .inr ?_
              have not' : ¬ (quote ≠ quote) := fun h => h rfl
              have differs : (0 : UInt8) ≠ quote := by decide
              simp only [getStringFrom,result,done_bind,spaces,read,if_neg same,spaces',read',if_neg not',result',read'',
                if_pos differs,last]
        · have differs := headD_ne isQuote (by decide)
          rcases ih q _ left₃ (by omega) with ⟨value,after,next⟩ | last
          · exact .inl ⟨value,after,.noString found colon' isQuote next⟩
          · exact .inr (by simp only [getStringFrom,result,done_bind,spaces,read,if_neg same,spaces',read',if_pos differs,last])
      · have differs := headD_ne isColon (by decide)
        rcases ih p _ left₂ (by omega) with ⟨value,after,next⟩ | last
        · exact .inl ⟨value,after,.noColon found isColon next⟩
        · exact .inr (by simp only [getStringFrom,result,done_bind,spaces,read,if_pos differs,last])
    · exact .inr (by simp only [getStringFrom,result,done_bind])

end Search

theorem NextValue.unique (plain : ∀ c ∈ quoted key, c ≠ 0) (clean : ∀ c ∈ text, c ≠ 0)
    (one : NextValue key text value after) (two : NextValue key text value' after') : value = value' ∧ after = after' := by
  have enough := Nat.lt_succ_self text.length
  obtain ⟨start,result,left⟩ := one.found plain clean enough _ 0 (Left.whole text) enough
  obtain ⟨start',result',left'⟩ := two.found plain clean enough _ 0 (Left.whole text) enough
  obtain ⟨rfl,lengths⟩ := Prod.mk.inj (Option.some.inj (Scan.done.inj (result.symm.trans result')))
  obtain ⟨rfl,tails⟩ := List.append_inj (left.drop.symm.trans left'.drop) lengths
  exact ⟨rfl,(List.cons.inj tails).2⟩

theorem quoted_plain (name : String) (plain : ∀ c ∈ cstr name, c ≠ 0) : ∀ c ∈ quoted (cstr name), c ≠ 0 := by
  intro c listed
  rcases List.mem_cons.mp listed with rfl | listed
  · decide
  · rcases List.mem_append.mp listed with listed | listed
    · exact plain c listed
    · rw [List.mem_singleton.mp listed]
      decide

theorem content_plain : ∀ c ∈ quoted contentKey, c ≠ 0 :=
  quoted_plain "content" (by rw [cstr_ofList]; simp)
theorem system_plain : ∀ c ∈ quoted (cstr "system"), c ≠ 0 :=
  quoted_plain "system" (by rw [cstr_ofList]; simp)
theorem user_plain : ∀ c ∈ quoted (cstr "user"), c ≠ 0 :=
  quoted_plain "user" (by rw [cstr_ofList]; simp)

theorem jsonGetString_content (s : List UInt8) (fuel pos : Nat) :
    jsonGetString s contentKey fuel pos = getStringFrom s (quoted contentKey) fuel fuel pos :=
  if_neg (by decide +kernel)

theorem jsonGetString_outside (past : s.length < pos) :
    jsonGetString s contentKey (fuel+1) pos = .outside pos := by
  have read := charAt_outside past
  rw [jsonGetString_content]
  simp [getStringFrom,strstr,quoted,matchAt,read]

theorem NextValue.shorter (next : NextValue key text value after) : value.length+after.length+2 ≤ text.length := by
  induction next with
  | @joined text rest rest' value after found colon' quote' _ =>
    have shorter := found.length
    have dropped := (List.dropWhile_suffix isJsonSpace (l:=rest)).length_le
    have dropped' := (List.dropWhile_suffix isJsonSpace (l:=rest')).length_le
    rw [colon'] at dropped
    rw [quote'] at dropped'
    simp only [List.length_cons,List.length_append] at dropped dropped'
    omega
  | @noColon text rest _ _ found _ _ ih =>
    have shorter := found.length
    have dropped := (List.dropWhile_suffix isJsonSpace (l:=rest)).length_le
    omega
  | @noString text rest rest' _ _ found colon' _ _ ih =>
    have shorter := found.length
    have dropped := (List.dropWhile_suffix isJsonSpace (l:=rest)).length_le
    have dropped' := (List.dropWhile_suffix isJsonSpace (l:=rest')).length_le
    rw [colon'] at dropped
    simp only [List.length_cons] at dropped
    omega

theorem strstr_back (back : Nat) (needle : List UInt8) (plain : ∀ c ∈ needle, c ≠ 0) (enough : s.length < fuel)
    (inside : pos ≤ s.length) :
    ∃ found, strstr s needle fuel (pos-back) = .done found := by
  obtain ⟨found,result,_⟩ := strstr_inside (s:=s) needle plain fuel (pos-back) (by omega) (by omega)
  exact ⟨found,result⟩

section Loop
variable (clean : ∀ c ∈ s, c ≠ 0) (enough : s.length < fuel)
include clean enough

theorem jsonGetString_left (left : Left s pos text) :
    (∃ start value after, jsonGetString s contentKey fuel pos = .done (some (start,value.length)) ∧
      Left s start (value++quote :: after) ∧ NextValue contentKey text value after) ∨
    (jsonGetString s contentKey fuel pos = .done none ∧ ∀ value after, ¬ NextValue contentKey text value after) := by
  have upto := left.length
  rw [jsonGetString_content]
  by_cases ahead : ∃ value after, NextValue contentKey text value after
  · obtain ⟨value,after,next⟩ := ahead
    obtain ⟨start,result,left'⟩ := next.found content_plain clean enough fuel pos left (by omega)
    exact .inl ⟨start,value,after,result,left',next⟩
  · rcases nextValue_or_none content_plain clean fuel enough fuel pos text left (by omega) with some' | none'
    · exact absurd some' ahead
    · exact .inr ⟨none',fun value after next => ahead ⟨value,after,next⟩⟩

theorem systemContent_done : ∃ field, systemContent s fuel = .done field := by
  rcases jsonGetString_left clean enough (Left.whole s) with ⟨start,value,after,result,left,_⟩ | ⟨result,_⟩
  · obtain ⟨found,searched⟩ := strstr_back 40 _ system_plain enough left.upto
    cases found with
    | none => exact ⟨none,by simp [systemContent,result,searched]⟩
    | some at' => exact ⟨_,by simp [systemContent,result,searched]; rfl⟩
  · exact ⟨none,by simp [systemContent,result]⟩

-- Induction on the rounds: the loop steps out exactly behind a value that ends the body.
theorem contentLoop_left (rounds : Nat) : ∀ pos text last, Left s pos text → text.length < rounds →
    ((∃ value, Meets contentKey text value []) → contentLoop s fuel rounds pos last = .outside (s.length+1)) ∧
    ((∀ value, ¬ Meets contentKey text value []) → ∃ last', contentLoop s fuel rounds pos last = .done last') := by
  induction rounds with
  | zero =>
    intro pos text last _ more
    omega
  | succ rounds ih =>
    intro pos text last left more
    have unique : ∀ {v a v' a'}, NextValue contentKey text v a → NextValue contentKey text v' a' → v = v' ∧ a = a' :=
      fun one two => one.unique content_plain (fun c listed => clean c (left.mem listed)) two
    rcases jsonGetString_left clean enough left with ⟨start,value,after,result,left',next⟩ | ⟨result,nothing⟩
    · obtain ⟨found,searched⟩ := strstr_back 60 _ user_plain enough left'.upto
      have again : ∃ last', contentLoop s fuel (rounds+1) pos last =
          contentLoop s fuel rounds (start+value.length+2) last' := by
        cases found with
        | none => exact ⟨last,by simp [contentLoop,result,searched]⟩
        | some at' => exact ⟨_,by simp [contentLoop,result,searched]; rfl⟩
      obtain ⟨last',again⟩ := again
      rw [again]
      have shorter := next.shorter
      have beyond := left'.skip.next
      cases after with
      | nil =>
        obtain ⟨rounds,rfl⟩ : ∃ r, rounds = r+1 := ⟨rounds-1,by omega⟩
        obtain ⟨fuel,rfl⟩ : ∃ f, fuel = f+1 := ⟨fuel-1,by omega⟩
        have last : start+value.length+1 = s.length := by simpa using beyond.length
        refine ⟨fun _ => ?_,fun none' => absurd (.here next) (none' value)⟩
        rw [show start+value.length+2 = s.length+1 by omega]
        simp [contentLoop,jsonGetString_outside (Nat.lt_succ_self s.length)]
      | cons c text' =>
        simp only [List.length_cons] at shorter
        obtain ⟨out,in'⟩ := ih (start+value.length+2) text' last' beyond.next (by omega)
        refine ⟨fun ⟨v,met⟩ => out ⟨v,?_⟩,fun none' => in' fun v met => none' v (.later next met)⟩
        cases met with
        | here next' => exact absurd (unique next next').2 (by simp)
        | later next' met =>
          obtain ⟨_,tails⟩ := unique next next'
          rw [(List.cons.inj tails).2]
          exact met
    · refine ⟨fun ⟨v,met⟩ => ?_,fun _ => ⟨last,by simp [contentLoop,result]⟩⟩
      cases met with
      | here next => exact absurd next (nothing _ _)
      | later next _ => exact absurd next (nothing _ _)

end Loop

theorem scanner_inside_iff (body : JobBody) : body.messages ≠ .stuck ∧
    ((∃ messages, body.messages = .done messages) ↔ ∀ value, ¬ Meets contentKey body.text value []) := by
  have enough := Nat.lt_succ_self body.text.length
  obtain ⟨sys,done'⟩ := systemContent_done body.plain enough
  obtain ⟨out,in'⟩ := contentLoop_left body.plain enough (body.text.length+1) 0 body.text none (Left.whole _) enough
  by_cases ends : ∃ value, Meets contentKey body.text value []
  · have result : body.messages = .outside (body.text.length+1) := by
      simp [JobBody.messages,extractMessages,done',out ends]
    rw [result]
    refine ⟨by simp,by simp,fun none' => ?_⟩
    obtain ⟨value,met⟩ := ends
    exact absurd met (none' value)
  · have none' : ∀ value, ¬ Meets contentKey body.text value [] := fun value met => ends ⟨value,met⟩
    obtain ⟨user,loop⟩ := in' none'
    have result : body.messages = .done ((user.map (copied userBuf body.text)).getD [],sys.map (copied sysBuf body.text)) := by
      simp [JobBody.messages,extractMessages,done',loop]
    rw [result]
    exact ⟨by simp,fun _ => none',fun _ => ⟨_,rfl⟩⟩

-- "content":"x" : the closing quote is the last byte, and the search resumes past the NUL.
def bareContent : JobBody := ⟨cstr "\"content\":\"x\"",by decide +kernel,by decide +kernel⟩

theorem bareContent_messages : bareContent.messages = .outside 14 := by decide +kernel

theorem bareContent_outside : bareContent.text = cstr "\"content\":\"x\"" ∧
    ¬ ∃ messages, bareContent.messages = .done messages := by
  rw [bareContent_messages]
  exact ⟨rfl,by simp⟩

end TinyLlama.Server
