import TinyLlama.Tokenizer.Chatml
import TinyLlama.Tokenizer.Cuts

namespace TinyLlama.Tokenizer
open Gguf Vocabulary

-- <|...|>
def Marker (s : List UInt8) : Prop := 4 ≤ s.length ∧ [60,124] <+: s ∧ [124,62] <:+ s

-- The text is empty, or ends in a letter, a digit or two bytes of whitespace.
def SafeEnd (a : List UInt8) : Prop :=
  ∀ c ∈ a.getLast?,charCategory c = 1 ∨ charCategory c = 2 ∨ charCategory c = 3 ∧ ∃ d ∈ a.dropLast.getLast?,charCategory d = 3

section Ends
variable {a s : List UInt8}

theorem contractionLen_append (some' : a ≠ []) (marked : [60,124] <+: s) : contractionLen (a++s) = contractionLen a := by
  obtain ⟨tail,rfl⟩ := marked
  match a with
  | [] => exact absurd rfl some'
  | c :: rest =>
    by_cases quote : c = 39
    · subst quote
      match rest with
      | [] => rfl
      | [nxt] => simp [contractionLen]
      | nxt :: d :: rest => simp [contractionLen]
    · simp [contractionLen,quote]

theorem span_append (k : Nat) (s : List UInt8) : span k (a++s) = if span k a = a.length then a.length+span k s else span k a := by
  induction a with
  | nil => simp [span]
  | cons c rest ih =>
    have below := span_le k rest
    by_cases same : charCategory c = k
    · have count : span k (c :: rest) = span k rest+1 ∧ span k (c :: (rest++s)) = span k (rest++s)+1 := by simp [span,same]
      rw [List.cons_append,count.1,count.2,ih,List.length_cons]
      split <;> split <;> omega
    · have count : span k (c :: rest) = 0 ∧ span k (c :: (rest++s)) = 0 := by simp [span,same]
      rw [List.cons_append,count.1,count.2,List.length_cons,if_neg (by omega)]

theorem span_all {k : Nat} (whole : span k a = a.length) : ∀ c ∈ a,charCategory c = k := by
  have all : a.takeWhile (fun c => charCategory c = k) = a := (List.takeWhile_sublist _).eq_of_length whole
  have every : (a.takeWhile fun c => charCategory c = k).all (fun c => charCategory c = k) = true := List.all_takeWhile
  rw [all] at every
  simpa using every

theorem safeEnd_last {k : Nat} (last : ∀ c ∈ a.getLast?,charCategory c = k) (word : k = 1 ∨ k = 2) : SafeEnd a := by
  intro c member
  have cat := last c member
  omega

theorem badEnd_last (some' : a ≠ []) (last : ∀ c ∈ a.getLast?,charCategory c = 4) : ¬SafeEnd a := by
  intro safe
  obtain ⟨c,end'⟩ := Option.ne_none_iff_exists'.mp (mt List.getLast?_eq_none_iff.mp some')
  have cat := last c end'
  have kinds := safe c end'
  omega

theorem last_tail {c : UInt8} {tail : List UInt8} {k : Nat} (all : ∀ e ∈ tail,charCategory e = k) (some' : tail ≠ []) :
    ∀ e ∈ (c :: tail).getLast?,charCategory e = k := by
  intro e member
  rw [List.getLast?_cons_of_ne_nil some'] at member
  exact all e (List.mem_of_getLast? member)

theorem marker_spans (marked : [60,124] <+: s) : 0 < span 4 s ∧ span 3 s = 0 ∧ span 1 s = 0 ∧ span 2 s = 0 ∧ 1 < s.length := by
  obtain ⟨tail,rfl⟩ := marked
  have symbol : charCategory 60 = 4 := rfl
  exact ⟨by simp [span,symbol],by simp [span,symbol],by simp [span,symbol],by simp [span,symbol],by simp⟩

theorem word_append (d : UInt8) (tail : List UInt8) (marked : [60,124] <+: s) (word : charCategory d ≠ 3) :
    span (charCategory d) (d :: tail++s) = span (charCategory d) (d :: tail) ∧
        (span (charCategory d) (d :: tail) = (d :: tail).length →
          (charCategory d = 1 ∨ charCategory d = 2) ∧ ∀ e ∈ d :: tail,charCategory e = charCategory d) ∨
      span (charCategory d) (d :: tail) = (d :: tail).length ∧ (d :: tail).length < span (charCategory d) (d :: tail++s) ∧
        ∀ e ∈ d :: tail,charCategory e = 4 := by
  obtain ⟨symbols,_,letters,digits,_⟩ := marker_spans marked
  rw [span_append (charCategory d) s]
  by_cases whole : span (charCategory d) (d :: tail) = (d :: tail).length
  · have all := span_all whole
    rw [if_pos whole]
    rcases charCategory_cases d with one | two | three | four
    · rw [one,letters]
      rw [one] at whole all
      exact .inl ⟨by rw [whole]; rfl,fun _ => ⟨.inl rfl,all⟩⟩
    · rw [two,digits]
      rw [two] at whole all
      exact .inl ⟨by rw [whole]; rfl,fun _ => ⟨.inr rfl,all⟩⟩
    · exact absurd three word
    · rw [four]
      rw [four] at whole all
      exact .inr ⟨whole,by omega,all⟩
  · rw [if_neg whole]
    exact .inl ⟨rfl,fun full => absurd full whole⟩

theorem chunkLen_word {c : UInt8} {rest : List UInt8} (unquoted : ¬contractionLen (c :: rest) > 0) (word : charCategory c ≠ 3) :
    chunkLen (c :: rest) = span (charCategory c) (c :: rest) := by
  rw [chunkLen,if_neg unquoted,span_other word,if_neg (by omega),wordLen_word (List.drop_zero ..) word,Nat.zero_add]

-- The first chunk of a text with a marker behind it: as without the marker, and then a text
-- that is all one chunk ends well, or it takes in the text and the start of the marker.
theorem chunkLen_append (some' : a ≠ []) (marked : [60,124] <+: s) :
    chunkLen (a++s) = chunkLen a ∧ (chunkLen a = a.length → SafeEnd a) ∨
      chunkLen a = a.length ∧ a.length < chunkLen (a++s) ∧ ¬SafeEnd a := by
  match a with
  | [] => exact absurd rfl some'
  | c :: rest =>
    obtain ⟨symbols,blanks,_,_,long⟩ := marker_spans marked
    have contract := contractionLen_append (List.cons_ne_nil c rest) marked
    by_cases contraction : contractionLen (c :: rest) > 0
    · have here : chunkLen (c :: rest) = contractionLen (c :: rest) := by rw [chunkLen,if_pos contraction]
      refine .inl ⟨by rw [here,chunkLen,contract,if_pos contraction],fun whole => ?_⟩
      obtain ⟨_,letters,after,rfl,behind,all,length⟩ := contraction_letters contraction
      rw [here,length,List.length_cons,List.length_append] at whole
      obtain rfl : after = [] := List.length_eq_zero_iff.mp (by omega)
      rw [List.append_nil]
      exact safeEnd_last (last_tail all behind) (.inl rfl)
    have contraction' : ¬contractionLen (c :: rest++s) > 0 := by rwa [contract]
    by_cases word : charCategory c ≠ 3
    · rw [chunkLen_word contraction word,List.cons_append,@chunkLen_word c (rest++s) contraction' word]
      cases word_append c rest marked word with
      | inl apart =>
        refine .inl ⟨apart.1,fun whole => ?_⟩
        obtain ⟨kind,all⟩ := apart.2 whole
        exact safeEnd_last (fun e member => all e (List.mem_of_getLast? member)) kind
      | inr joined =>
        exact .inr ⟨joined.1,joined.2.1,badEnd_last (List.cons_ne_nil c rest) fun e member => joined.2.2 e (List.mem_of_getLast? member)⟩
    have space : charCategory c = 3 := not_not.mp word
    have run : span 3 (c :: rest++s) = span 3 (c :: rest) := by
      rw [span_append 3 s,blanks,Nat.add_zero]
      split
      · next whole => exact whole.symm
      · rfl
    have count : span 3 (c :: rest) = span 3 rest+1 := span_cons space
    have most := span_le 3 rest
    by_cases several : 0 < span 3 rest
    · have here : chunkLen (c :: rest) = span 3 rest+1 := by
        rw [chunkLen,if_neg contraction,count,if_pos ⟨Nat.succ_pos _,.inl (by omega)⟩]
      refine .inl ⟨by rw [here,chunkLen,if_neg contraction',run,count,if_pos ⟨Nat.succ_pos _,.inl (by omega)⟩],fun whole => ?_⟩
      have all := span_all (a:=c :: rest) (by rw [count,← here,whole])
      intro e member
      have before : (c :: rest).dropLast ≠ [] := by
        cases rest with
        | nil => exact absurd several (lt_irrefl 0)
        | cons d tail => exact List.cons_ne_nil _ _
      refine .inr (.inr ⟨all e (List.mem_of_getLast? member),?_⟩)
      obtain ⟨d,end'⟩ := Option.ne_none_iff_exists'.mp (mt List.getLast?_eq_none_iff.mp before)
      exact ⟨d,end',all d (List.mem_of_mem_dropLast (List.mem_of_getLast? end'))⟩
    have none' : span 3 rest = 0 := by omega
    have text : chunkLen (c :: rest++s) = wordLen 1 (c :: rest++s) := by
      rw [chunkLen,if_neg contraction',run,count,none',if_neg (by simp only [List.length_append,List.length_cons]; omega)]
    match rest with
    | [] =>
      obtain ⟨tail,rfl⟩ := marked
      have symbol : charCategory 60 = 4 := rfl
      refine .inr ⟨by rw [chunkLen,if_neg contraction,count,none',if_pos ⟨Nat.one_pos,.inr le_rfl⟩]; rfl,?_,fun safe => ?_⟩
      · have reach : wordLen 1 ([c]++([60,124]++tail)) = 1+span (charCategory 60) ([60,124]++tail) :=
          wordLen_word (rfl : ([c]++([60,124]++tail)).drop 1 = 60 :: 124 :: tail) (by decide)
        rw [text,reach,symbol]
        exact Nat.lt_add_of_pos_right symbols
      · have kinds := safe c rfl
        simp [space] at kinds
    | d :: tail =>
      have word' : charCategory d ≠ 3 := fun same => several (by rw [span_cons same]; exact Nat.succ_pos _)
      have here : chunkLen (c :: d :: tail) = 1+span (charCategory d) (d :: tail) := by
        rw [chunkLen,if_neg contraction,count,none',if_neg (by simp),wordLen_word rfl word']
      have reach : wordLen 1 (c :: d :: tail++s) = 1+span (charCategory d) (d :: tail++s) :=
        wordLen_word (rfl : (c :: d :: tail++s).drop 1 = d :: (tail++s)) word'
      rw [here,text,reach]
      cases word_append d tail marked word' with
      | inl apart =>
        refine .inl ⟨congrArg (1+·) apart.1,fun whole => ?_⟩
        obtain ⟨kind,all⟩ := apart.2 (by rw [List.length_cons (a:=c)] at whole; omega)
        exact safeEnd_last (last_tail all (List.cons_ne_nil d tail)) kind
      | inr joined =>
        refine .inr ⟨by rw [joined.1,Nat.add_comm]; rfl,?_,
          badEnd_last (List.cons_ne_nil _ _) (last_tail joined.2.2 (List.cons_ne_nil d tail))⟩
        have longer := joined.2.1
        rw [List.length_cons (a:=c),Nat.add_comm]
        exact Nat.add_lt_add_left longer 1

theorem chunkLen_inside (some' : a ≠ []) : chunkLen a ≤ a.length := by
  cases a with
  | nil => exact absurd rfl some'
  | cons c rest => exact chunkLen_le c rest

theorem take_span (k : Nat) (text : List UInt8) : ∀ e ∈ text.take (span k text),charCategory e = k := by
  induction text with
  | nil => intro e member; cases member
  | cons c rest ih =>
    by_cases same : charCategory c = k
    · rw [span_cons same,List.take_succ_cons]
      exact List.forall_mem_cons.mpr ⟨same,ih⟩
    · rw [span_other same]
      intro e member
      cases member

theorem chunkLen_end (some' : a ≠ []) : (∀ e ∈ (a.take (chunkLen a)).getLast?,charCategory e ≠ 3) ∨
    ∀ e ∈ (a.drop (chunkLen a)).head?,charCategory e ≠ 3 := by
  match a with
  | [] => exact absurd rfl some'
  | c :: rest =>
    by_cases contraction : contractionLen (c :: rest) > 0
    · obtain ⟨_,letters,after,rfl,behind,all,length⟩ := contraction_letters contraction
      refine .inl fun e member => ?_
      rw [chunkLen,if_pos contraction,length,List.take_succ_cons,List.take_left] at member
      have letter := last_tail all behind e member
      omega
    by_cases word : charCategory c ≠ 3
    · refine .inl fun e member => ?_
      rw [chunkLen_word contraction word] at member
      rw [take_span _ _ e (List.mem_of_getLast? member)]
      exact word
    have count : span 3 (c :: rest) = span 3 rest+1 := span_cons (not_not.mp word)
    by_cases run : span 3 (c :: rest) ≠ 1 ∨ span 3 (c :: rest) ≥ (c :: rest).length
    · rw [chunkLen,if_neg contraction,if_pos ⟨by omega,run⟩]
      exact .inr (span_stop 3 (c :: rest))
    · obtain ⟨one,long⟩ := not_or.mp run
      match rest with
      | [] => exact absurd (by rw [not_not.mp one]; exact le_rfl) long
      | d :: tail =>
        have word' : charCategory d ≠ 3 := fun same => one (by
          rw [count,span_cons same]
          omega)
        have reach : chunkLen (c :: d :: tail) = span (charCategory d) (d :: tail)+1 := by
          rw [chunkLen,if_neg contraction,if_neg fun both => run both.2,not_not.mp one,wordLen_word rfl word',Nat.add_comm]
        refine .inl fun e member => ?_
        rw [reach,List.take_succ_cons] at member
        have some'' : (d :: tail).take (span (charCategory d) (d :: tail)) ≠ [] := by
          rw [span_cons rfl,List.take_succ_cons]
          exact List.cons_ne_nil _ _
        rw [last_tail (take_span _ _) some'' e member]
        exact word'

theorem safeEnd_append {xs ys : List UInt8} (some' : ys ≠ []) (safe : SafeEnd ys) : SafeEnd (xs++ys) := by
  intro c member
  rw [List.getLast?_append_of_ne_nil xs some'] at member
  refine (safe c member).imp_right (Or.imp_right fun run => ⟨run.1,?_⟩)
  obtain ⟨d,before,space⟩ := run.2
  rw [List.dropLast_append_of_ne_nil some',List.getLast?_append,Option.mem_def.mp before]
  exact ⟨d,rfl,space⟩

theorem safeEnd_suffix {xs ys : List UInt8} (some' : ys ≠ []) (safe : SafeEnd (xs++ys))
    (cut : (∀ e ∈ xs.getLast?,charCategory e ≠ 3) ∨ ∀ e ∈ ys.head?,charCategory e ≠ 3) : SafeEnd ys := by
  intro c member
  have kinds := safe c (by rwa [List.getLast?_append_of_ne_nil xs some'])
  refine kinds.imp_right (Or.imp_right fun run => ⟨run.1,?_⟩)
  obtain ⟨d,before,space⟩ := run.2
  rw [List.dropLast_append_of_ne_nil some',List.getLast?_append] at before
  cases inner : ys.dropLast.getLast? with
  | some e =>
    rw [inner] at before
    exact ⟨e,rfl,by cases before; exact space⟩
  | none =>
    have single : ys = [c] := by
      have front := List.getLast?_eq_none_iff.mp inner
      have whole := List.dropLast_append_getLast? c member
      rw [front] at whole
      exact whole.symm
    rw [inner,Option.none_or] at before
    cases cut with
    | inl word => exact absurd space (word d before)
    | inr word => exact absurd run.1 (word c (by rw [single]; rfl))

end Ends

section Runs
variable {v : Vocab}

-- The loop with as much fuel as the text is long.
def bpeRun (v : Vocab) (text : List UInt8) (symbols : List Nat) : List Nat := bpeLoop v text.length text symbols

theorem bpeRun_done {text : List UInt8} {symbols : List Nat} (stop : text = [] ∨ symbols.length ≥ bpeMaxSymbols) :
    bpeRun v text symbols = symbols := by
  unfold bpeRun
  cases text with
  | nil => rfl
  | cons c rest => rw [List.length_cons,bpeLoop,if_pos stop]

theorem bpeLoop_run {fuel : Nat} {text : List UInt8} (enough : text.length ≤ fuel) (symbols : List Nat) :
    bpeLoop v fuel text symbols = bpeRun v text symbols := by
  rw [bpeRun,bpeLoop_cuts,bpeLoop_cuts,bpeCuts_enough fuel text.length text symbols enough le_rfl]

theorem bpeRun_step {text : List UInt8} {symbols : List Nat} (some' : text ≠ []) (room : symbols.length < bpeMaxSymbols) :
    bpeRun v text symbols =
      match specialAt v text with
      | some (id,len) => bpeRun v (text.drop len) (symbols++[id.toNat])
      | none => bpeRun v (text.drop (chunkLen text))
          (symbols++bpeEncodeChunk v (text.take (chunkLen text)) (bpeMaxSymbols-symbols.length)) := by
  obtain ⟨matched,chunked⟩ := pass_moves (v:=v) some'
  have size := List.length_pos_of_ne_nil some'
  obtain ⟨n,length⟩ : ∃ n,text.length = n+1 := ⟨text.length-1,by omega⟩
  rw [bpeRun,length,bpeLoop,if_neg (not_or.mpr ⟨some',not_le.mpr room⟩)]
  show (match specialAt v text with | some (id,len) => _ | none => _) = _
  cases hit : specialAt v text with
  | none => exact bpeLoop_run (by omega) _
  | some r =>
    have moved := matched r.1 r.2 hit
    exact bpeLoop_run (by omega) _

-- An induction over the passes.
theorem bpeRun_induct {p : List UInt8 → List Nat → Prop}
    (stop : ∀ text symbols,text = [] ∨ symbols.length ≥ bpeMaxSymbols → p text symbols)
    (special : ∀ text symbols id len,text ≠ [] → symbols.length < bpeMaxSymbols → specialAt v text = some (id,len) →
      p (text.drop len) (symbols++[id.toNat]) → p text symbols)
    (chunk : ∀ text symbols,text ≠ [] → symbols.length < bpeMaxSymbols → specialAt v text = none →
      p (text.drop (chunkLen text)) (symbols++bpeEncodeChunk v (text.take (chunkLen text)) (bpeMaxSymbols-symbols.length)) → p text symbols)
    (text : List UInt8) (symbols : List Nat) : p text symbols := by
  induction length : text.length using Nat.strong_induction_on generalizing text symbols with
  | _ n ih =>
    by_cases done : text = [] ∨ symbols.length ≥ bpeMaxSymbols
    · exact stop text symbols done
    obtain ⟨some',room⟩ := not_or.mp done
    obtain ⟨matched,chunked⟩ := pass_moves (v:=v) some'
    cases hit : specialAt v text with
    | none => exact chunk text symbols some' (not_le.mp room) hit (ih _ (by omega) _ _ rfl)
    | some r =>
      have moved := matched r.1 r.2 hit
      exact special text symbols r.1 r.2 some' (not_le.mp room) hit (ih _ (by omega) _ _ rfl)

theorem bpeRun_extends (text : List UInt8) (symbols : List Nat) : symbols <+: bpeRun v text symbols := by
  induction text,symbols using bpeRun_induct (v:=v) with
  | stop text symbols done => rw [bpeRun_done done]
  | special text symbols id len some' room hit ih =>
    rw [bpeRun_step some' room,hit]
    exact (List.prefix_append _ _).trans ih
  | chunk text symbols some' room hit ih =>
    rw [bpeRun_step some' room,hit]
    exact (List.prefix_append _ _).trans ih

theorem bpeEncodeChunk_take (v : Vocab) (chunk : List UInt8) {room room' : Nat} (less : room ≤ room') :
    bpeEncodeChunk v chunk room = (bpeEncodeChunk v chunk room').take room := by
  simp only [bpeEncodeChunk,List.take_take,Nat.min_eq_left less]

theorem bpeRun_before (before : List Nat) (text : List UInt8) (symbols : List Nat) :
    before.length+(bpeRun v text symbols).length ≤ bpeMaxSymbols → bpeRun v text (before++symbols) = before++bpeRun v text symbols := by
  induction text,symbols using bpeRun_induct (v:=v) with
  | stop text symbols done =>
    intro fits
    rw [bpeRun_done done] at fits ⊢
    refine bpeRun_done (done.imp id fun full => ?_)
    rw [List.length_append]
    omega
  | special text symbols id len some' room hit ih =>
    intro fits
    rw [bpeRun_step some' room,hit] at fits ⊢
    have more := (bpeRun_extends (v:=v) (text.drop len) (symbols++[id.toNat])).length_le
    dsimp only at fits
    rw [List.length_append,List.length_singleton] at more
    rw [bpeRun_step some' (by rw [List.length_append]; omega),hit]
    dsimp only
    rw [List.append_assoc,ih fits]
  | chunk text symbols some' room hit ih =>
    intro fits
    have whole := bpeRun_extends (v:=v) text symbols
    by_cases full : (before++symbols).length ≥ bpeMaxSymbols
    · rw [List.length_append] at full
      rw [bpeRun_done (.inr (by rwa [List.length_append])),← whole.eq_of_length_le (by omega)]
    rw [bpeRun_step some' room,hit] at fits ⊢
    dsimp only at fits ⊢
    have more := (bpeRun_extends (v:=v) (text.drop (chunkLen text))
      (symbols++bpeEncodeChunk v (text.take (chunkLen text)) (bpeMaxSymbols-symbols.length))).length_le
    rw [List.length_append] at more
    have same : bpeEncodeChunk v (text.take (chunkLen text)) (bpeMaxSymbols-(before++symbols).length) =
        bpeEncodeChunk v (text.take (chunkLen text)) (bpeMaxSymbols-symbols.length) := by
      rw [bpeEncodeChunk_take v _ (show bpeMaxSymbols-(before++symbols).length ≤ bpeMaxSymbols-symbols.length by
        rw [List.length_append]; omega)]
      refine List.take_of_length_le ?_
      rw [List.length_append]
      omega
    rw [bpeRun_step some' (not_le.mp full),hit]
    dsimp only
    rw [same,List.append_assoc,ih fits]

variable {a s : List UInt8}

theorem specialAt_before (some' : a ≠ []) (plain : ¬[60,124] <:+: a) (marked : [60,124] <+: s) : specialAt v (a++s) = none := by
  have unmarked : ¬[60,124] <+: a++s := by
    intro opened
    match a with
    | [] => exact some' rfl
    | [c] =>
      obtain ⟨tail,rfl⟩ := marked
      have second := (List.cons_prefix_cons.mp (List.cons_prefix_cons.mp opened).2).1
      exact absurd second (by decide)
    | c :: d :: rest =>
      obtain ⟨first',opened⟩ := List.cons_prefix_cons.mp opened
      obtain ⟨second,_⟩ := List.cons_prefix_cons.mp opened
      exact plain ⟨[],rest,by rw [← first',← second]; rfl⟩
  rw [specialAt,matchSpecialToken_none unmarked]
  rfl

theorem specialAt_plain (plain : ¬[60,124] <:+: a) : specialAt v a = none := by
  rw [specialAt,noSpecialToken v plain]
  rfl

theorem plain_drop {n : Nat} (plain : ¬[60,124] <:+: a) : ¬[60,124] <:+: a.drop n :=
  fun inside => plain (inside.trans (List.drop_suffix n a).isInfix)

-- A text that ends well is tokenised the same in front of a marker.
theorem bpeRun_append (marked : [60,124] <+: s) (symbols : List Nat) : SafeEnd a → ¬[60,124] <:+: a →
    (bpeRun v a symbols).length < bpeMaxSymbols → bpeRun v (a++s) symbols = bpeRun v s (bpeRun v a symbols) := by
  induction a,symbols using bpeRun_induct (v:=v) with
  | stop a symbols done =>
    intro _ _ room
    cases done with
    | inl empty => rw [empty,bpeRun_done (.inl rfl),List.nil_append]
    | inr full =>
      rw [bpeRun_done (.inr full)] at room
      omega
  | special a symbols id len some' room hit ih =>
    intro _ plain _
    rw [specialAt_plain plain] at hit
    cases hit
  | chunk a symbols some' room hit ih =>
    intro safe plain fits
    rw [bpeRun_step some' room,hit] at fits
    have here := chunkLen_append some' marked
    obtain ⟨same,_⟩ := here.resolve_right fun joined => joined.2.2 safe
    have inside := chunkLen_inside some'
    have next : SafeEnd (a.drop (chunkLen a)) := by
      by_cases last : a.drop (chunkLen a) = []
      · rw [last]
        intro c member
        cases member
      · exact @safeEnd_suffix (a.take (chunkLen a)) _ last (by rwa [List.take_append_drop]) (chunkLen_end some')
    rw [bpeRun_step (by simp [some']) room,specialAt_before some' plain marked,bpeRun_step some' room,hit,same]
    dsimp only at fits ⊢
    rw [List.drop_append_of_le_length inside,List.take_append_of_le_length inside]
    exact ih next (plain_drop plain) fits

theorem bpeEncodeChunk_blank (blank : ∀ b,byteSymbol v b = none) (chunk : List UInt8) (room : Nat) : bpeEncodeChunk v chunk room = [] := by
  have empty : chunk.filterMap (byteSymbol v) = [] := List.filterMap_eq_nil_iff.mpr fun b _ => blank b
  rw [bpeEncodeChunk,empty]
  simp [mergeLoop]

theorem bpeRun_blank (blank : ∀ b,byteSymbol v b = none) (symbols : List Nat) : ¬[60,124] <:+: a → bpeRun v a symbols = symbols := by
  have none' := bpeEncodeChunk_blank blank
  induction a,symbols using bpeRun_induct (v:=v) with
  | stop a symbols done => exact fun _ => bpeRun_done done
  | special a symbols id len some' room hit ih =>
    intro plain
    rw [specialAt_plain plain] at hit
    cases hit
  | chunk a symbols some' room hit ih =>
    intro plain
    rw [none',List.append_nil] at ih
    rw [bpeRun_step some' room,hit]
    dsimp only
    rw [none',List.append_nil]
    exact ih (plain_drop plain)

-- A text that ends badly swallows the first bytes of the marker.
theorem bpeRun_swallow (blank : ∀ b,byteSymbol v b = none) (marked : [60,124] <+: s) (inner : ∀ j,0 < j → ¬[60,124] <:+: s.drop j) :
    ∀ n (a : List UInt8),a.length = n → ¬SafeEnd a → ¬[60,124] <:+: a → bpeRun v (a++s) [] = [] := by
  intro n
  induction n using Nat.strong_induction_on with
  | _ n ih =>
    intro a length bad plain
    have some' : a ≠ [] := by
      rintro rfl
      exact bad fun c member => by cases member
    have none' := bpeEncodeChunk_blank blank
    rw [bpeRun_step (by simp [some']) (by decide),specialAt_before some' plain marked]
    dsimp only
    rw [none',List.append_nil]
    have moved := chunkLen_pos a some'
    cases chunkLen_append some' marked with
    | inl apart =>
      have shorter : chunkLen a < a.length := by
        exact lt_of_le_of_ne (chunkLen_inside some') fun whole => bad (apart.2 whole)
      rw [apart.1,List.drop_append_of_le_length shorter.le]
      have left : a.drop (chunkLen a) ≠ [] := fun empty => by
        have past := List.drop_eq_nil_iff.mp empty
        omega
      refine ih _ (by rw [List.length_drop]; omega) _ rfl (fun safe => bad ?_) (plain_drop plain)
      rw [← List.take_append_drop (chunkLen a) a]
      exact safeEnd_append left safe
    | inr joined =>
      rw [List.drop_append,List.drop_of_length_le (by omega),List.nil_append]
      exact bpeRun_blank blank [] (inner _ (by omega))

theorem lastPut_name (keys : List Key) : ∀ (i : Nat) (k k' : Key) (before : Option Int),keyName k = keyName k' →
    lastPut keys i k before = lastPut keys i k' before := by
  induction keys with
  | nil => exact fun _ _ _ _ _ => rfl
  | cons s rest ih =>
    intro i k k' before same
    rw [lastPut,lastPut,same]
    exact ih _ _ _ _ same

theorem specialAt_marker (indexed : v.Indexed) (marker : Marker s) (short : s.length ≤ 64) {id : Nat}
    (hit : vocabTryLookup v.tokens s = some (id : Int)) (whole : ∀ k ∈ v.token,s <+: k.bytes → k.bytes = s) (b : List UInt8) : specialAt v (s++b) = some ((id : Int),s.length) := by
  obtain ⟨long,⟨r,rfl⟩,_⟩ := marker
  have text : (60 :: 124 :: (r++b)).length = r.length+b.length+2 := by simp
  have size : ([60,124]++r).length = r.length+2 := by simp
  have name : ∀ l ≤ 64,keyName ⟨u8 l,60 :: 124 :: (r++b)⟩ = (l,(60 :: 124 :: (r++b)).take l) := by
    intro l low
    rw [keyName,Key.bytes,u8_of_lt (by omega)]
  have front : (60 :: 124 :: (r++b)).take ([60,124]++r).length = [60,124]++r := @List.take_left _ ([60,124]++r) _
  have found : matchSpecialToken v (60 :: 124 :: (r++b)) = some ((id : Int),([60,124]++r).length) := by
    refine matchSpecialToken_longest (by omega) (by omega) (by omega) ?_ fun l longer low => ?_
    · have same : keyName ⟨u8 ([60,124]++r).length,60 :: 124 :: (r++b)⟩ = keyName (queryKey ([60,124]++r)) := by
        rw [name _ short,front,queryName,u8_of_lt (by omega),cutQuery_short (by omega)]
      rw [vocabLookupLen,indexed.get,lastPut_name _ _ _ _ _ same,← indexed.get]
      exact hit
    · cases entry : vocabLookupLen v.tokens (60 :: 124 :: (r++b)) l with
      | none => rfl
      | some other =>
        obtain ⟨_,k,listed,named,_⟩ := indexed.sound entry
        rw [name l (by omega)] at named
        have bytes : k.bytes = (60 :: 124 :: (r++b)).take l := congrArg Prod.snd named
        have opens : [60,124]++r <+: k.bytes := by
          rw [bytes,← front]
          exact List.take_prefix_take_left longer.le
        have same := congrArg List.length (whole k (List.mem_of_getElem? listed) opens)
        rw [bytes,List.length_take] at same
        omega
  show (matchSpecialToken v (60 :: 124 :: (r++b))).filter (fun r => r.1 ≥ 0) = _
  rw [found]
  simp

end Runs

section Concrete

def markerText : List UInt8 := [60,124,105,109,95,101,110,100,124,62]

def markerLayout : Layout :=
  ⟨[⟨cstr "tokenizer.ggml.model",.string (cstr "gpt2")⟩,⟨cstr "tokenizer.ggml.merges",.array valueString []⟩,
    entryU32 "tokenizer.ggml.bos_token_id" 0,entryU32 "tokenizer.ggml.eos_token_id" 0,
    ⟨cstr "tokenizer.ggml.tokens",.array valueString [.string markerText]⟩],
   [⟨cstr "token_embd.weight",[1],0,0⟩],List.replicate 64 0⟩

def markerFile : MappedFile := ⟨markerLayout.encode,by decide +kernel⟩

theorem markerLayout_wellFormed : markerLayout.WellFormed := by
  refine ⟨?_,?_,by decide +kernel,?_⟩
  · intro e present
    simp only [markerLayout,List.mem_cons,List.not_mem_nil,or_false] at present
    rcases present with rfl | rfl | rfl | rfl | rfl
    · exact show (cstr "gpt2").length < 2^64 by decide
    · simp [Value.Fits,ggufMaxDims,valueString]
    · simp [entryU32,Value.Fits,ggufMaxDims,scalarWidth,valueUint32]
    · simp [entryU32,Value.Fits,ggufMaxDims,scalarWidth,valueUint32]
    · refine ⟨by decide,by decide +kernel,fun v listed => ?_⟩
      obtain rfl := List.mem_singleton.mp listed
      exact ⟨rfl,show markerText.length < 2^64 by decide⟩
  · intro t present
    obtain rfl := List.mem_singleton.mp present
    refine ⟨by decide,by decide,by decide,?_,by decide,by decide⟩
    intro k
    rcases k with _ | k <;> simp
  · intro e present named
    have other : ∀ e ∈ markerLayout.kvs, e.name ≠ cstr "general.alignment" := by decide +kernel
    exact absurd named (other e present)

def markerModel : Model := placeTensors markerFile (markerLayout.loaded markerFile) markerLayout.sectionsEnd

theorem markerModel_accepted : modelLoad markerFile = .ok markerModel := by
  obtain ⟨c,parsed,post⟩ := modelSections_takes markerLayout markerLayout_wellFormed markerFile rfl
  have large : ¬markerFile.size < 32 := by decide +kernel
  have complete : modelCompletenessCheck markerModel = .ok () := by decide +kernel
  have arch : modelDetectArch markerModel = .ok markerModel := by decide +kernel
  have placed : placeTensors markerFile (markerLayout.loaded markerFile) c.post = markerModel := by rw [post]; rfl
  exact modelLoad_detected large parsed (placed.symm ▸ arch) complete

theorem markerModel_tokens : tokenArray markerModel = .ok ⟨8,1,244⟩ ∧
    [markerText].flatMap encodeString <+: markerModel.file.bytes.drop 244 := by decide +kernel

theorem markerModel_tables : ∃ v,vocabLoad markerModel = .ok v ∧ v.tokenizerType = .bpe := by
  have type : tokenizerType markerModel = .ok .bpe := by decide +kernel
  have merges : mergeArray markerModel = .ok ⟨8,0,113⟩ := by decide +kernel
  have bos : modelGetI32 markerModel "tokenizer.ggml.bos_token_id" = some 0 := by decide +kernel
  have eos : modelGetI32 markerModel "tokenizer.ggml.eos_token_id" = some 0 := by decide +kernel
  have inside : 244 ≤ markerModel.file.size := by decide +kernel
  obtain ⟨array,stored⟩ := markerModel_tokens
  obtain ⟨keys,table,read⟩ := loadStrings_takes markerModel ⟨8,1,244⟩ [markerText] rfl (by decide) inside stored
  obtain ⟨none',table',read'⟩ := loadStrings_takes markerModel ⟨8,0,113⟩ [] rfl (by decide)
    (Nat.le_trans (by decide) inside) List.nil_prefix
  obtain ⟨v,done⟩ : ∃ v,finishVocab markerModel .bpe keys table table' none (bpeByteTable table) bpeBosCands
      bpeEosCands = .ok v := by
    simp only [finishVocab,specialId,bos,eos]
    exact ⟨_,rfl⟩
  exact ⟨v,by rw [vocabLoad_bpe type array merges read read',done],(finishVocab_tables done).2.2.2.2⟩

theorem bytePiece_unmarked (b : UInt8) : bytePiece b ≠ markerText := by
  intro same
  have short := bytePiece_length b
  rw [same] at short
  exact absurd short (by decide)

theorem markerModel_loads :
    ∃ v,vocabLoad markerModel = .ok v ∧ v.tokenizerType = .bpe ∧ vocabTryLookup v.tokens markerText = some ((0 : Nat) : Int) ∧
    (∀ k ∈ v.token,markerText <+: k.bytes → k.bytes = markerText) ∧ ∀ b,byteSymbol v b = none := by
  obtain ⟨v,loaded,bpe⟩ := markerModel_tables
  obtain ⟨array,stored⟩ := markerModel_tokens
  have indexed := vocabLoad_indexed loaded
  have named : v.token.map keyName = [(10,markerText)] := by
    rw [loaded_keys loaded (tokenArray_ok array).1 rfl stored,storedKeys_names _ _ _ stored]
    decide
  obtain ⟨k,token⟩ : ∃ k,v.token = [k] := List.length_eq_one_iff.mp (by simpa using congrArg List.length named)
  rw [token] at named
  have name : keyName k = (10,markerText) := List.singleton_injective named
  have get : ∀ q : Key,tokenizerTableGet v.tokens q = if keyName q = (10,markerText) then some 0 else none := fun q => by
    rw [indexed.get,token,← name]
    rfl
  refine ⟨v,loaded,bpe,?_,?_,fun b => ?_⟩
  · exact (get (queryKey markerText)).trans (if_pos (by decide))
  · intro k' member _
    rw [token,List.mem_singleton] at member
    rw [member]
    exact congrArg Prod.snd name
  · have unknown : tokenizerTableGet v.tokens (queryKey (bytePiece b)) = none := by
      refine (get _).trans (if_neg fun same => bytePiece_unmarked b ?_)
      have bytes := congrArg Prod.snd same
      rwa [queryName,cutQuery_short (by have := bytePiece_length b; omega)] at bytes
    have table : v.byteTokenIds b = vocabIdNone := by
      rw [vocabLoad_bytes loaded bpe,bpeByteTable]
      exact congrArg (Option.getD · vocabIdNone) unknown
    rw [byteSymbol,table]
    rfl

end Concrete

section Anywhere

theorem tokenizeBpe_run (v : Vocab) (text : List UInt8) (maxTokens : Nat) : tokenizeBpe v text maxTokens = (bpeRun v text []).take maxTokens := rfl

theorem markerText_swallowed {v : Vocab} {a : List UInt8} (blank : ∀ b,byteSymbol v b = none) (plain : ¬[60,124] <:+: a) (bad : ¬SafeEnd a) :
    bpeRun v (a++markerText) [] = [] := by
  have marked : [60,124] <+: markerText := by decide
  refine bpeRun_swallow blank marked (fun j later => ?_) a.length a rfl bad plain
  have split : markerText.drop j = (markerText.drop 1).drop (j-1) := by
    rw [List.drop_drop]
    congr 1
    omega
  rw [split]
  exact plain_drop (by decide)

-- In front of any marker and any text the left text is tokenised by itself, exactly when it
-- is empty or ends in a letter, a digit or two bytes of whitespace.
theorem special_anywhere_iff (a : List UInt8) (plain : ¬[60,124] <:+: a) :
    (∀ (m : Model) (v : Vocab) (s b : List UInt8) (id maxTokens : Nat),vocabLoad m = .ok v → v.tokenizerType = .bpe → ¬[60,124] <:+: b →
      Marker s → s.length ≤ 64 → vocabTryLookup v.tokens s = some (id : Int) → (∀ k ∈ v.token,s <+: k.bytes → k.bytes = s) →
      (tokenizeBpe v a maxTokens).length+1+(tokenizeBpe v b maxTokens).length ≤ min bpeMaxSymbols maxTokens →
      tokenizeBpe v (a++s++b) maxTokens = tokenizeBpe v a maxTokens++[id]++tokenizeBpe v b maxTokens) ↔ SafeEnd a := by
  constructor
  · intro always
    by_contra bad
    obtain ⟨v,loaded,bpe,hit,whole,blank⟩ := markerModel_loads
    have empty : bpeRun v a [] = [] := bpeRun_blank blank [] plain
    have run := always markerModel v markerText [] 0 1 loaded bpe (by decide) ⟨by decide,by decide,by decide⟩ (by decide) hit whole
    have none' : bpeRun v [] [] = [] := bpeRun_done (.inl rfl)
    rw [tokenizeBpe_run,tokenizeBpe_run,tokenizeBpe_run,empty,none',List.append_nil,markerText_swallowed blank plain bad] at run
    exact absurd (run (by decide)) (by decide)
  · intro safe m v s b id maxTokens loaded _ _ marker short hit whole limit
    rw [tokenizeBpe_run,tokenizeBpe_run] at limit ⊢
    rw [List.length_take,List.length_take] at limit
    have marked : [60,124] <+: s++b := marker.2.1.trans (List.prefix_append s b)
    have some' : s++b ≠ [] := fun none' => by
      rw [none'] at marked
      exact absurd (List.prefix_nil.mp marked) (by decide)
    have reached : bpeRun v (a++(s++b)) [] = bpeRun v a []++[id]++bpeRun v b [] := by
      rw [bpeRun_append marked [] safe plain (by omega),bpeRun_step some' (by omega),
        specialAt_marker (vocabLoad_indexed loaded) marker short hit whole b]
      dsimp only
      rw [List.drop_left,Int.toNat_natCast]
      have later := bpeRun_before (v:=v) (bpeRun v a []++[id]) b [] (by rw [List.length_append,List.length_singleton]; omega)
      rwa [List.append_nil] at later
    rw [tokenizeBpe_run,List.append_assoc,reached,List.take_of_length_le (by simp only [List.length_append,List.length_singleton]; omega),
      List.take_of_length_le (by omega),List.take_of_length_le (by omega)]

theorem letterMarker_recognised : ∃ m v,modelLoad chatFile = .ok m ∧ vocabLoad m = .ok v ∧ tokenizeBpe v [97] 8 = [3] ∧
    tokenizeBpe v [97,49] 8 = [3,4] ∧ tokenizeBpe v ([97]++markerText++[97,49]) 8 = [3]++[1]++[3,4] := by
  obtain ⟨m,v,accepted,loaded,facts⟩ := vocab_runs chatFile
    (fun v => (v.tokenizerType == .bpe,vocabTryLookup v.tokens markerText,decide (∀ k ∈ v.token,markerText <+: k.bytes → k.bytes = markerText),
      tokenizeBpe v [97] 8,tokenizeBpe v [97,49] 8)) (true,some ((1 : Nat) : Int),true,[3],[3,4]) (by decide +kernel)
  simp only [Prod.mk.injEq,beq_iff_eq,decide_eq_true_eq] at facts
  obtain ⟨bpe,hit,whole,left,right⟩ := facts
  have letter : charCategory 97 = 1 := rfl
  have safe : SafeEnd [97] := fun c member => by cases member; exact .inl letter
  refine ⟨m,v,accepted,loaded,left,right,?_⟩
  rw [← left,← right]
  refine (special_anywhere_iff [97] (by decide)).mpr safe m v markerText [97,49] 1 8 loaded bpe (by decide)
    ⟨by decide,by decide,by decide⟩ (by decide) hit whole ?_
  rw [left,right]
  decide

-- hi! and the marker: the run of symbols takes the marker's first two bytes.
theorem hiMarker_swallowed : modelLoad markerFile = .ok markerModel ∧
    ∃ v,vocabLoad markerModel = .ok v ∧ v.tokenizerType = .bpe ∧ vocabTryLookup v.tokens markerText = some 0 ∧
    tokenizeBpe v ([104,105,33]++markerText++[]) 8 ≠ tokenizeBpe v [104,105,33] 8++[0]++tokenizeBpe v [] 8 := by
  obtain ⟨v,loaded,bpe,hit,whole,blank⟩ := markerModel_loads
  refine ⟨markerModel_accepted,v,loaded,bpe,hit,fun same => ?_⟩
  have symbol : charCategory 33 = 4 := rfl
  have swallowed := markerText_swallowed (a:=[104,105,33]) blank (by decide)
    (badEnd_last (List.cons_ne_nil _ _) fun c member => by cases member; exact symbol)
  rw [List.append_nil,tokenizeBpe_run,swallowed] at same
  have count := congrArg List.length same
  simp at count

end Anywhere

end TinyLlama.Tokenizer
