import TinyLlama.Server.Contents

-- The messages handle_request extracts from a chat-completions body, against the ones it holds.
namespace TinyLlama.Server
open Json (Token Valid flat)

def field (text : List UInt8) (entry : List UInt8 × List Token) : Nat × Nat :=
  (text.length-((flat entry.2).length+1+entry.1.length),entry.1.length)

-- The quoted name stands anywhere from `back` bytes before the entry's string to the end of the text.
def Reaches (text : List UInt8) (back : Nat) (name : String) (entry : List UInt8 × List Token) : Prop :=
  quoted (cstr name) <:+: text.drop ((field text entry).1-back)

instance : Decidable (Reaches text back name entry) := inferInstanceAs (Decidable (_ <:+: _))

def userEntry (text : List UInt8) (ts : List Token) : Option (List UInt8 × List Token) :=
  ((contents ts).filter fun entry => Reaches text 60 "user" entry).getLast?

def systemEntry (text : List UInt8) (ts : List Token) : Option (List UInt8 × List Token) :=
  (contents ts).head?.filter fun entry => Reaches text 40 "system" entry

def readInto (cap : Nat) (raw : List UInt8) : List UInt8 := jsonUnescape (raw.take (cap-1))

variable {text : List UInt8} {ts : List Token}

theorem Left.field (left : Left text start (value++quote :: flat after)) : field text (value,after) = (start,value.length) := by
  have total := left.length
  simp only [List.length_append,List.length_cons] at total
  simp only [Server.field,Prod.mk.injEq,and_true]
  omega

theorem copied_field (left : Left text start (value++quote :: flat after)) (cap : Nat) :
    copied cap text (start,value.length) = readInto cap value := by
  unfold copied readInto
  have shorter : (if value.length < cap-1 then value.length else cap-1) ≤ value.length := by
    split_ifs with below <;> omega
  have same : (value.take (if value.length < cap-1 then value.length else cap-1)) = value.take (cap-1) := by
    split_ifs with below
    · rw [List.take_length,List.take_of_length_le (by omega)]
    · rfl
  rw [left.drop,List.take_append_of_le_length shorter,same]

theorem strstr_reaches (clean : ∀ c ∈ text, c ≠ 0) (enough : text.length < fuel) (name : String) (back : Nat)
    (plain : ∀ c ∈ quoted (cstr name), c ≠ 0) (inside : start ≤ text.length) :
    (∃ at', strstr text (quoted (cstr name)) fuel (start-back) = .done (some at') ∧
      quoted (cstr name) <:+: text.drop (start-back)) ∨
    (strstr text (quoted (cstr name)) fuel (start-back) = .done none ∧ ¬ quoted (cstr name) <:+: text.drop (start-back)) := by
  have left : Left text (start-back) (text.drop (start-back)) := ⟨by rw [List.length_drop]; omega,rfl⟩
  have shorter : (text.drop (start-back)).length < fuel := by rw [List.length_drop]; omega
  rcases strstr_left _ plain clean fuel _ _ left shorter with ⟨at',rest,result,_,_,before,split,_⟩ | absent
  · exact .inl ⟨at',result,before,rest,split.symm⟩
  · exact .inr absent

section Scan
variable (clean : ∀ c ∈ text, c ≠ 0) (enough : text.length < fuel)
include clean enough

theorem jsonGetString_contents (left : Left text pos (flat ts)) (valid : Valid ts) :
    (∃ value after more start, contents ts = (value,after) :: more ∧
      jsonGetString text contentKey fuel pos = .done (some (start,value.length)) ∧
      Left text start (value++quote :: flat after)) ∨
    (contents ts = [] ∧ jsonGetString text contentKey fuel pos = .done none) := by
  obtain ⟨some',none'⟩ := next_contents ts valid
  rcases jsonGetString_left clean enough left with ⟨start,value,after,result,left',next⟩ | ⟨result,nothing⟩
  · cases listed : contents ts with
    | nil => exact absurd next (none' listed value after)
    | cons entry more =>
      obtain ⟨value',after'⟩ := entry
      have first := some' value' after' more listed
      obtain ⟨rfl,rfl⟩ := next.unique content_plain (fun c inside => clean c (left.mem inside)) first
      exact .inl ⟨value,after',more,start,rfl,result,left'⟩
  · cases listed : contents ts with
    | nil => exact .inr ⟨rfl,result⟩
    | cons entry more => exact absurd (some' entry.1 entry.2 more listed) (nothing _ _)

-- Induction on the rounds: the last entry that reaches "user", or what came before.
theorem contentLoop_contents (rounds : Nat) : ∀ pos ts last, Left text pos (flat ts) → Valid ts →
    Separated (ts.filter Token.solid) → (flat ts).length < rounds →
    contentLoop text fuel rounds pos last = .done (((userEntry text ts).map (field text)).or last) := by
  induction rounds with
  | zero =>
    intro pos ts last _ _ _ more
    omega
  | succ rounds ih =>
    intro pos ts last left valid separated more'
    rcases jsonGetString_contents clean enough left valid with ⟨value,after,more,start,listed,result,left'⟩ | ⟨listed,result⟩
    · obtain ⟨later,valid',separated',t,tail,rfl,⟨c,single⟩,other⟩ := contents_tail valid separated value after more listed
      rw [contents_other other] at later
      have at' := left'.field
      have beyond : Left text (start+value.length+2) (flat tail) := by
        have next := left'.skip.next
        rw [Json.flat_cons,single] at next
        exact next.next
      have total := left'.length
      have total' := left.length
      have shorter : (flat tail).length < rounds := by
        have next := next_contents ts valid
        have shorter := (next.1 value (t :: tail) more listed).shorter
        rw [Json.flat_cons,single,List.length_append,List.length_singleton] at shorter
        omega
      have rest (last' : Option (Nat × Nat)) := ih (start+value.length+2) tail last' beyond valid'.2.2
        (separated_tail separated') shorter
      have entry : userEntry text ts =
          (userEntry text tail).or (if Reaches text 60 "user" (value,t :: tail) then some (value,t :: tail) else none) := by
        unfold userEntry
        rw [listed,later]
        by_cases reaches : Reaches text 60 "user" (value,t :: tail)
        · rw [List.filter_cons_of_pos (by simpa using reaches),List.getLast?_cons,if_pos reaches]
          cases ((contents tail).filter fun entry => Reaches text 60 "user" entry).getLast? <;> rfl
        · rw [List.filter_cons_of_neg (by simpa using reaches),if_neg reaches,Option.or_none]
      have start' : (field text (value,t :: tail)).1 = start := congrArg Prod.fst at'
      rcases strstr_reaches clean enough "user" 60 user_plain left'.upto with ⟨found,searched,reaches⟩ | ⟨searched,absent⟩
      · have reach : Reaches text 60 "user" (value,t :: tail) := by unfold Reaches; rwa [start']
        rw [entry,if_pos reach]
        simp only [contentLoop,result,done_bind,searched,rest]
        cases userEntry text tail <;> simp [at']
      · have far : ¬ Reaches text 60 "user" (value,t :: tail) := by unfold Reaches; rwa [start']
        rw [entry,if_neg far]
        simp only [contentLoop,result,done_bind,searched,rest,Option.or_none]
    · simp [contentLoop,result,userEntry,listed]

theorem systemContent_contents (valid : Valid ts) (whole : flat ts = text) :
    systemContent text fuel = .done ((systemEntry text ts).map (field text)) := by
  have left : Left text 0 (flat ts) := whole ▸ Left.whole text
  rcases jsonGetString_contents clean enough left valid with ⟨value,after,more,start,listed,result,left'⟩ | ⟨listed,result⟩
  · have at' := left'.field
    have start' : (field text (value,after)).1 = start := congrArg Prod.fst at'
    rcases strstr_reaches clean enough "system" 40 system_plain left'.upto with ⟨found,searched,reaches⟩ | ⟨searched,absent⟩
    · have reach : Reaches text 40 "system" (value,after) := by unfold Reaches; rwa [start']
      simp [systemContent,result,searched,systemEntry,listed,reach,at',Option.filter]
    · have far : ¬ Reaches text 40 "system" (value,after) := by unfold Reaches; rwa [start']
      simp [systemContent,result,searched,systemEntry,listed,far,Option.filter]
  · simp [systemContent,result,systemEntry,listed]

end Scan

theorem valueOf_suffix (found : valueOf ts = some (value,after)) : .str value :: after <:+ ts := by
  obtain ⟨rest,isColon,isStr⟩ := valueOf_some found
  have behind : blanksOff rest <:+ rest := List.dropWhile_suffix _
  have behind' : blanksOff ts <:+ ts := List.dropWhile_suffix _
  rw [isStr] at behind
  rw [isColon] at behind'
  exact (behind.trans (List.suffix_cons _ _)).trans behind'

theorem contents_suffix (ts : List Token) : ∀ entry ∈ contents ts, .str entry.1 :: entry.2 <:+ ts := by
  induction ts with
  | nil => simp [contents]
  | cons t ts ih =>
    intro entry listed
    have later (inside : entry ∈ contents ts) : .str entry.1 :: entry.2 <:+ t :: ts :=
      (ih entry inside).trans (List.suffix_cons t ts)
    by_cases isStr : ∃ raw, t = .str raw
    · obtain ⟨key,rfl⟩ := isStr
      rw [contents_str] at listed
      split at listed
      · rename_i first found
        split_ifs at listed with keyed
        · rcases List.mem_cons.mp listed with rfl | inside
          · exact (valueOf_suffix found).trans (List.suffix_cons _ _)
          · exact later inside
        · exact later listed
      · exact later listed
    · rw [contents_other fun raw same => isStr ⟨raw,same⟩] at listed
      exact later listed

theorem contents_read (whole : flat ts = text) (listed : entry ∈ contents ts) (cap : Nat) :
    copied cap text (field text entry) = readInto cap entry.1 := by
  obtain ⟨before,split⟩ := contents_suffix ts entry listed
  have left : Left text (flat before).length (quote :: (entry.1++quote :: flat entry.2)) := by
    have start : Left text 0 (flat before++flat (.str entry.1 :: entry.2)) := by
      rw [← Json.flat_append,split,whole]
      exact Left.whole text
    have next := start.skip
    rwa [flat_str,Nat.zero_add] at next
  rw [left.next.field,copied_field left.next]

theorem messages_entries (body : JobBody) (spells : Json.Text (.obj members) ts) (whole : flat ts = body.text) :
    body.messages = .done (((userEntry body.text ts).map fun entry => readInto userBuf entry.1).getD [],
      (systemEntry body.text ts).map fun entry => readInto sysBuf entry.1) := by
  have enough := Nat.lt_succ_self body.text.length
  have separated : Separated (ts.filter Token.solid) := by
    rw [spells.tokens]
    have all : Separated ((Json.Value.obj members).tokens++[]) := value_separated (.obj members) trivial
    rwa [List.append_nil] at all
  have user := contentLoop_contents body.plain enough (body.text.length+1) 0 ts none (by rw [whole]; exact Left.whole _)
    spells.valid separated (by rw [whole]; exact enough)
  have sys := systemContent_contents body.plain enough spells.valid whole
  have user' : ((userEntry body.text ts).map (field body.text)).map (copied userBuf body.text) =
      (userEntry body.text ts).map fun entry => readInto userBuf entry.1 := by
    cases found : userEntry body.text ts with
    | none => rfl
    | some entry =>
      have listed : entry ∈ contents ts := List.mem_of_mem_filter (List.mem_of_getLast? found)
      exact congrArg some (contents_read whole listed userBuf)
  have sys' : ((systemEntry body.text ts).map (field body.text)).map (copied sysBuf body.text) =
      (systemEntry body.text ts).map fun entry => readInto sysBuf entry.1 := by
    cases found : systemEntry body.text ts with
    | none => rfl
    | some entry =>
      have listed : entry ∈ contents ts := List.mem_of_mem_head? (Option.filter_eq_some_iff.mp found).1
      exact congrArg some (contents_read whole listed sysBuf)
  rw [JobBody.messages,extractMessages,sys,done_bind,user,done_bind,Option.or_none,user',sys']

end TinyLlama.Server
