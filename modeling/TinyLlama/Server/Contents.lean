import TinyLlama.Lib.Json
import TinyLlama.Server.Scanner

namespace TinyLlama.Server
open Json (Token Valid Spelled flat)

def ContentKeyed (raw : List UInt8) : Prop := quote :: contentKey <:+ quote :: raw

instance : Decidable (ContentKeyed raw) := inferInstanceAs (Decidable (_ <:+ _))

def blanksOff (ts : List Token) : List Token := ts.dropWhile fun t => !t.solid

def valueOf (ts : List Token) : Option (List UInt8 × List Token) :=
  match blanksOff ts with
  | .punct c :: rest =>
    if c = colon then
      match blanksOff rest with
      | .str value :: after => some (value,after)
      | _ => none
    else none
  | _ => none

def contents : List Token → List (List UInt8 × List Token)
  | [] => []
  | .str key :: rest =>
    match valueOf rest with
    | some entry => if ContentKeyed key then entry :: contents rest else contents rest
    | none => contents rest
  | _ :: rest => contents rest

variable {ts rest : List Token} {text : List UInt8}

theorem nextValue_cons (other : ¬ quoted key <+: c :: text) :
    NextValue key (c :: text) value after ↔ NextValue key text value after := by
  have tail {rest : List UInt8} (found : After (quoted key) (c :: text) rest) : After (quoted key) text rest := by
    obtain ⟨before,split,first⟩ := found
    cases before with
    | nil => exact absurd ⟨rest,split.symm⟩ other
    | cons d before =>
      refine ⟨before,(List.cons.inj split).2,fun b r split' => ?_⟩
      exact Nat.le_of_succ_le_succ (first (c :: b) r (by rw [split']; rfl))
  constructor
  · intro next
    cases next with
    | joined found colon' quote' spells => exact .joined (tail found) colon' quote' spells
    | noColon found differs next => exact .noColon (tail found) differs next
    | noString found colon' differs next => exact .noString (tail found) colon' differs next
  · intro next
    cases next with
    | joined found colon' quote' spells => exact .joined (found.cons other) colon' quote' spells
    | noColon found differs next => exact .noColon (found.cons other) differs next
    | noString found colon' differs next => exact .noString (found.cons other) colon' differs next

theorem not_front (other : c ≠ quote) : ¬ quoted key <+: c :: text :=
  fun front => other (List.cons_prefix_cons.mp front).1.symm

theorem nextValue_plain : ∀ passed : List UInt8, (∀ c ∈ passed, c ≠ quote) →
    (NextValue key (passed++text) value after ↔ NextValue key text value after)
  | [],_ => Iff.rfl
  | c :: passed,plain => by
    rw [List.cons_append,nextValue_cons (not_front (plain c List.mem_cons_self)),
      nextValue_plain passed fun d listed => plain d (List.mem_cons_of_mem c listed)]

theorem spelled_spells (spelled : Spelled raw) : Spells raw := by
  induction spelled with
  | nil => exact .nil
  | byte c rest _ notQuote notSlash _ ih => exact .byte c rest notQuote notSlash ih
  | escape e rest _ _ ih => exact .pair e rest ih
  | unicode a b c d rest hex _ ih =>
    have plain (x : UInt8) (isHex : Json.isHex x = true) : x ≠ quote ∧ x ≠ backslash := by
      constructor
      · rintro rfl
        exact absurd isHex (by decide)
      · rintro rfl
        exact absurd isHex (by decide)
    simp only [List.all_cons,List.all_nil,Bool.and_true,Bool.and_eq_true] at hex
    obtain ⟨one,two⟩ := plain a hex.1
    obtain ⟨one',two'⟩ := plain b hex.2.1
    obtain ⟨third,third'⟩ := plain c hex.2.2.1
    obtain ⟨last,last'⟩ := plain d hex.2.2.2
    exact .pair 117 _ (.byte a _ one two (.byte b _ one' two' (.byte c _ third third' (.byte d _ last last' ih))))

theorem content_spells : Spells contentKey := spelled_spells (Json.spelled_plain _ (by rw [contentKey,cstr_ofList]; rfl))

theorem front_iff (spells : Spells raw) : quoted contentKey <+: quote :: (raw++quote :: text) ↔ raw = contentKey := by
  constructor
  · rintro ⟨r,split⟩
    have inside : contentKey++[quote]++r = raw++quote :: text := (List.cons.inj split).2
    rw [List.append_assoc] at inside
    exact (content_spells.unique spells inside).1.symm
  · rintro rfl
    exact ⟨text,by simp [quoted]⟩

theorem IsAtom.first (atom : Json.IsAtom raw) : raw.head? ≠ some 99 := by
  rcases atom with listed | ⟨sign,int,frac,exp,numeral,rfl⟩
  · revert listed
    revert raw
    decide +kernel
  · intro first
    obtain ⟨d,int',opens⟩ := List.exists_cons_of_ne_nil numeral.int.1.1
    have digit := List.all_eq_true.mp numeral.int.1.2 d (by rw [opens]; exact List.mem_cons_self)
    rcases numeral.sign with rfl | rfl
    · rw [opens] at first
      obtain rfl : d = 99 := Option.some.inj first
      exact absurd digit (by decide)
    · simp at first

theorem after_string (valid : Valid ts) : ¬ quoted contentKey <+: quote :: flat ts := by
  rintro ⟨r,split⟩
  have inside := (List.cons.inj split).2
  cases ts with
  | nil => simp at inside
  | cons t ts =>
    have good := valid.1
    have first : t.flat.head? ≠ some 99 := by
      cases t with
      | blank c => rintro same; obtain rfl : c = 99 := Option.some.inj same; exact absurd good (by simp [Token.Good,Json.isBlank])
      | punct c =>
        rintro same
        obtain rfl : c = 99 := Option.some.inj same
        exact absurd good (by simp [Token.Good,Json.isPunct,Json.comma,Json.colon,Json.openArr,Json.closeArr,Json.openObj,Json.closeObj])
      | str raw => intro same; exact absurd same (by simp [Token.flat,Json.quote])
      | atom raw => exact IsAtom.first good
    obtain ⟨c,tail,opens,_⟩ := good.opens
    rw [opens] at first
    rw [Json.flat_cons,opens,show contentKey = 99 :: [111,110,116,101,110,116] from cstr_ofList _] at inside
    exact first (congrArg some (List.cons.inj inside).1.symm)

theorem keyed_cons (keyed : quote :: contentKey <:+ c :: raw) : (c = quote ∧ raw = contentKey) ∨ quote :: contentKey <:+ raw := by
  rcases List.suffix_cons_iff.mp keyed with same | inside
  · obtain ⟨rfl,rfl⟩ := List.cons.inj same
    exact .inl ⟨rfl,rfl⟩
  · exact .inr inside

theorem hex_ne_quote (hex : Json.isHex c = true) : c ≠ quote := by
  rintro rfl
  exact absurd hex (by decide)

theorem nextValue_inside (spelled : Spelled raw) (valid : Valid ts) (bare : ¬ quote :: contentKey <:+ raw) :
    NextValue contentKey (raw++quote :: flat ts) value after ↔ NextValue contentKey (flat ts) value after := by
  induction spelled with
  | nil => exact nextValue_cons (after_string valid)
  | byte c rest _ notQuote _ _ ih =>
    rw [List.cons_append,nextValue_cons (not_front notQuote)]
    exact ih fun inside => bare (inside.trans (List.suffix_cons c rest))
  | escape e rest _ spelled ih =>
    have bare' : ¬ quote :: contentKey <:+ rest := fun inside => bare (inside.trans ((List.suffix_cons e rest).trans (List.suffix_cons _ _)))
    rw [List.cons_append,List.cons_append,nextValue_cons (not_front (by decide))]
    by_cases isQuote : e = quote
    · subst isQuote
      rw [nextValue_cons fun front => bare ?_]
      · exact ih bare'
      · rw [(front_iff (spelled_spells spelled)).mp front]
        exact List.suffix_cons _ _
    · rw [nextValue_cons (not_front isQuote)]
      exact ih bare'
  | unicode a b c d rest hex _ ih =>
    simp only [List.all_cons,List.all_nil,Bool.and_true,Bool.and_eq_true] at hex
    have plain : ∀ x ∈ [backslash,117,a,b,c,d], x ≠ quote := by
      simp only [List.forall_mem_cons]
      exact ⟨by decide,by decide,hex_ne_quote hex.1,hex_ne_quote hex.2.1,hex_ne_quote hex.2.2.1,hex_ne_quote hex.2.2.2,by simp⟩
    have passed : NextValue contentKey ([backslash,117,a,b,c,d]++(rest++quote :: flat ts)) value after ↔
        NextValue contentKey (rest++quote :: flat ts) value after := nextValue_plain _ plain
    exact passed.trans (ih fun inside => bare (inside.trans (List.suffix_append [backslash,117,a,b,c,d] rest)))

theorem nextValue_str (valid : Valid (.str raw :: ts)) (bare : ¬ ContentKeyed raw) :
    NextValue contentKey (flat (.str raw :: ts)) value after ↔ NextValue contentKey (flat ts) value after := by
  have split : flat (.str raw :: ts) = quote :: (raw++quote :: flat ts) := by
    simp [Token.flat,Json.quote,quote]
  rw [split,nextValue_cons fun front => bare ?_]
  · exact nextValue_inside valid.1 valid.2.2 fun inside => bare (inside.trans (List.suffix_cons quote raw))
  · rw [(front_iff (spelled_spells valid.1)).mp front]
    exact List.suffix_rfl

theorem after_inside (spelled : Spelled raw) (keyed : quote :: contentKey <:+ raw) :
    After (quoted contentKey) (raw++quote :: text) text := by
  induction spelled with
  | nil => exact absurd (List.suffix_nil.mp keyed) (List.cons_ne_nil _ _)
  | byte c rest _ notQuote _ _ ih =>
    rcases keyed_cons keyed with ⟨same,_⟩ | inside
    · exact absurd same notQuote
    · exact (ih inside).cons (not_front notQuote)
  | escape e rest _ spelled ih =>
    rcases keyed_cons keyed with ⟨same,_⟩ | inside
    · exact absurd same (by decide)
    · refine After.cons ?_ (not_front (by decide))
      rcases keyed_cons inside with ⟨rfl,rfl⟩ | deeper
      · exact ⟨[],by simp [quoted],fun _ _ _ => Nat.zero_le _⟩
      · refine (ih deeper).cons ?_
        by_cases isQuote : e = quote
        · subst isQuote
          intro front
          rw [(front_iff (spelled_spells spelled)).mp front] at deeper
          exact absurd deeper.length_le (by simp)
        · exact not_front isQuote
  | unicode a b c d rest hex _ ih =>
    simp only [List.all_cons,List.all_nil,Bool.and_true,Bool.and_eq_true] at hex
    rcases keyed_cons keyed with ⟨same,_⟩ | inside
    · exact absurd same (by decide)
    rcases keyed_cons inside with ⟨same,_⟩ | inside
    · exact absurd same (by decide)
    rcases keyed_cons inside with ⟨same,_⟩ | inside
    · exact absurd same (hex_ne_quote hex.1)
    rcases keyed_cons inside with ⟨same,_⟩ | inside
    · exact absurd same (hex_ne_quote hex.2.1)
    rcases keyed_cons inside with ⟨same,_⟩ | inside
    · exact absurd same (hex_ne_quote hex.2.2.1)
    rcases keyed_cons inside with ⟨same,_⟩ | inside
    · exact absurd same (hex_ne_quote hex.2.2.2)
    · refine (((((After.cons (ih inside) ?_).cons ?_).cons ?_).cons ?_).cons ?_).cons ?_
      · exact not_front (hex_ne_quote hex.2.2.2)
      · exact not_front (hex_ne_quote hex.2.2.1)
      · exact not_front (hex_ne_quote hex.2.1)
      · exact not_front (hex_ne_quote hex.1)
      · exact not_front (by decide)
      · exact not_front (by decide)

theorem after_str (valid : Valid (.str raw :: ts)) (keyed : ContentKeyed raw) :
    After (quoted contentKey) (flat (.str raw :: ts)) (flat ts) := by
  have split : flat (.str raw :: ts) = quote :: (raw++quote :: flat ts) := by
    simp [Token.flat,Json.quote,quote]
  rw [split]
  rcases keyed_cons keyed with ⟨_,rfl⟩ | inside
  · exact ⟨[],by simp [quoted],fun _ _ _ => Nat.zero_le _⟩
  · refine (after_inside valid.1 inside).cons fun front => ?_
    rw [(front_iff (spelled_spells valid.1)).mp front] at inside
    exact absurd inside.length_le (by simp)

theorem dropWhile_flat (ts : List Token) (valid : Valid ts) :
    (flat ts).dropWhile isJsonSpace = flat (blanksOff ts) ∧ Valid (blanksOff ts) := by
  induction ts with
  | nil => exact ⟨rfl,trivial⟩
  | cons t ts ih =>
    obtain ⟨c,tail,opens,kind⟩ := valid.1.opens
    cases t with
    | blank d =>
      have space : isJsonSpace d = true := valid.1
      obtain ⟨dropped,valid'⟩ := ih valid.2.2
      refine ⟨?_,valid'⟩
      rw [Json.flat_cons,Token.flat,List.singleton_append,List.dropWhile_cons_of_pos space,dropped]
      rfl
    | punct d | str raw | atom raw =>
      refine ⟨?_,valid⟩
      have notSpace : ¬ isJsonSpace c = true := by
        intro space
        rw [Json.byteKind,if_pos (show Json.isBlank c = true from space)] at kind
        simp [Token.kind] at kind
      rw [Json.flat_cons,opens,List.cons_append,List.dropWhile_cons_of_neg notSpace,← List.cons_append,← opens]
      rfl

theorem blanksOff_first (ts : List Token) : ∀ t, (blanksOff ts).head? = some t → t.solid = true := by
  intro t first
  have other := List.head?_dropWhile_not (fun t : Token => !t.solid) ts
  rw [show ts.dropWhile (fun t : Token => !t.solid) = blanksOff ts from rfl,first] at other
  simpa using other

theorem flat_str (raw : List UInt8) (ts : List Token) : flat (.str raw :: ts) = quote :: (raw++quote :: flat ts) := by
  simp [Token.flat,Json.quote,quote]

theorem valueOf_some (found : valueOf ts = some (value,after)) : ∃ rest, blanksOff ts = .punct colon :: rest ∧
    blanksOff rest = .str value :: after := by
  unfold valueOf at found
  split at found
  · rename_i c rest split
    split_ifs at found with isColon
    split at found
    · rename_i value' after' split'
      obtain ⟨rfl,rfl⟩ := Prod.mk.inj (Option.some.inj found)
      exact ⟨rest,by rw [split,isColon],split'⟩
    · simp at found
  · simp at found

theorem value_text (valid : Valid ts) (found : valueOf ts = some (value,after)) : ∃ rest,
    (flat ts).dropWhile isJsonSpace = colon :: rest ∧ rest.dropWhile isJsonSpace = quote :: (value++quote :: flat after) ∧
    Spelled value ∧ Valid after := by
  obtain ⟨rest,isColon,isStr⟩ := valueOf_some found
  obtain ⟨dropped,valid'⟩ := dropWhile_flat ts valid
  rw [isColon] at dropped valid'
  obtain ⟨dropped',valid''⟩ := dropWhile_flat rest valid'.2.2
  rw [isStr] at dropped' valid''
  exact ⟨flat rest,dropped,by rw [dropped',flat_str],valid''.1,valid''.2.2⟩

theorem first_byte (valid : Valid ts) (opens : blanksOff ts = t :: rest) : (flat (blanksOff ts)).head? = some c →
    Json.byteKind c = t.kind ∧ (t.kind = 1 → t = .punct c) := by
  obtain ⟨_,valid'⟩ := dropWhile_flat ts valid
  rw [opens] at valid' ⊢
  obtain ⟨d,tail,first,kind⟩ := valid'.1.opens
  intro head
  rw [Json.flat_cons,first] at head
  obtain rfl : d = c := Option.some.inj head
  refine ⟨kind,fun isPunct => ?_⟩
  cases t with
  | punct e =>
    obtain ⟨rfl,_⟩ := List.cons.inj first
    rfl
  | blank | str | atom => simp [Token.kind] at isPunct

theorem value_none (valid : Valid ts) (none' : valueOf ts = none) :
    (flat (blanksOff ts)).head? ≠ some colon ∨
    ∃ rest, blanksOff ts = .punct colon :: rest ∧ (flat (blanksOff rest)).head? ≠ some quote := by
  by_cases isColon : (flat (blanksOff ts)).head? = some colon
  · right
    cases opens : blanksOff ts with
    | nil =>
      rw [opens] at isColon
      simp at isColon
    | cons t rest =>
      obtain ⟨kind,punct⟩ := first_byte valid opens isColon
      obtain rfl := punct (kind.symm.trans (by decide))
      refine ⟨rest,rfl,fun isQuote => ?_⟩
      obtain ⟨_,valid'⟩ := dropWhile_flat ts valid
      rw [opens] at valid'
      cases opens' : blanksOff rest with
      | nil =>
        rw [opens'] at isQuote
        simp at isQuote
      | cons u after =>
        obtain ⟨kind',_⟩ := first_byte valid'.2.2 opens' isQuote
        cases u with
        | str value => simp [valueOf,opens,opens'] at none'
        | blank | punct | atom => exact absurd kind' (by simp only [Token.kind]; decide)
  · exact .inl isColon

theorem nextValue_spaces (text : List UInt8) :
    NextValue key (text.dropWhile isJsonSpace) value after ↔ NextValue key text value after := by
  have passed : NextValue key (text.takeWhile isJsonSpace++text.dropWhile isJsonSpace) value after ↔
      NextValue key (text.dropWhile isJsonSpace) value after := nextValue_plain _ fun c listed => by
      have space := List.all_eq_true.mp List.all_takeWhile c listed
      rintro rfl
      exact absurd space (by decide)
  rw [List.takeWhile_append_dropWhile] at passed
  exact passed.symm

theorem nextValue_token (valid : Valid (t :: ts)) (other : ∀ raw, t ≠ .str raw) :
    NextValue key (flat (t :: ts)) value after ↔ NextValue key (flat ts) value after := by
  refine nextValue_plain t.flat fun c listed => ?_
  have good := valid.1
  rintro rfl
  cases t with
  | blank d =>
    obtain rfl := List.mem_singleton.mp listed
    exact absurd good (by simp [Token.Good,Json.isBlank,quote])
  | punct d =>
    obtain rfl := List.mem_singleton.mp listed
    exact absurd good (by simp only [Token.Good]; decide)
  | str raw => exact other raw rfl
  | atom raw => exact absurd (good.bytes.2 quote listed) (by decide)

theorem contents_str : contents (.str key :: ts) =
    match valueOf ts with
    | some entry => if ContentKeyed key then entry :: contents ts else contents ts
    | none => contents ts := by rw [contents]

theorem contents_other (other : ∀ raw, t ≠ .str raw) : contents (t :: ts) = contents ts := by
  cases t with
  | str raw => exact absurd rfl (other raw)
  | blank | punct | atom => simp [contents]

theorem next_contents (ts : List Token) (valid : Valid ts) :
    (∀ value after more, contents ts = (value,after) :: more → NextValue contentKey (flat ts) value (flat after)) ∧
    (contents ts = [] → ∀ value after, ¬ NextValue contentKey (flat ts) value after) := by
  induction ts with
  | nil =>
    refine ⟨fun value after more same => by simp [contents] at same,fun _ value after next => ?_⟩
    obtain ⟨rest,found⟩ := next.occurs
    exact absurd found.length (by simp [quoted])
  | cons t ts ih =>
    obtain ⟨some',none'⟩ := ih valid.2.2
    by_cases isStr : ∃ raw, t = .str raw
    · obtain ⟨key,rfl⟩ := isStr
      rw [contents_str]
      by_cases keyed : ContentKeyed key
      · have found := after_str valid keyed
        cases valued : valueOf ts with
        | some entry =>
          obtain ⟨value,after⟩ := entry
          obtain ⟨rest,isColon,isQuote,spelled,_⟩ := value_text valid.2.2 valued
          simp only [if_pos keyed]
          refine ⟨fun value' after' more same => ?_,fun same => by simp at same⟩
          obtain ⟨entry,_⟩ := List.cons.inj same
          obtain ⟨rfl,rfl⟩ := Prod.mk.inj entry
          exact .joined found isColon isQuote (spelled_spells spelled)
        | none =>
          obtain ⟨dropped,valid'⟩ := dropWhile_flat ts valid.2.2
          -- A key without a string: the search goes on behind it.
          have on {value after} : NextValue contentKey (flat ts) value after →
              NextValue contentKey (flat (.str key :: ts)) value after := by
            intro next
            rcases value_none valid.2.2 valued with differs | ⟨rest,opens,differs⟩
            · exact .noColon found (by rwa [dropped]) ((nextValue_spaces _).mpr next)
            · rw [opens] at dropped valid'
              obtain ⟨dropped',_⟩ := dropWhile_flat rest valid'.2.2
              have isColon : (flat ts).dropWhile isJsonSpace = colon :: flat rest := dropped
              have behind := (nextValue_spaces _).mpr next
              rw [isColon,nextValue_cons (not_front (by decide))] at behind
              exact .noString found isColon (by rwa [dropped']) ((nextValue_spaces _).mpr behind)
          refine ⟨fun value after more same => on (some' value after more same),fun same value after next => ?_⟩
          cases next with
          | joined found' isColon isQuote spells =>
            rw [← found.unique found',dropped] at isColon
            rcases value_none valid.2.2 valued with differs | ⟨rest,opens,differs⟩
            · rw [isColon] at differs
              exact differs rfl
            · rw [opens] at isColon valid'
              obtain ⟨dropped',_⟩ := dropWhile_flat rest valid'.2.2
              have tail : flat rest = _ := (List.cons.inj isColon).2
              rw [← tail,dropped'] at isQuote
              rw [isQuote] at differs
              exact differs rfl
          | noColon found' _ next =>
            rw [← found.unique found'] at next
            exact none' same value after ((nextValue_spaces _).mp next)
          | noString found' isColon _ next =>
            rw [← found.unique found'] at isColon
            have behind := (nextValue_spaces _).mp next
            rw [← nextValue_cons (c:=colon) (not_front (by decide)),← isColon] at behind
            exact none' same value after ((nextValue_spaces _).mp behind)
      · have same : contents (.str key :: ts) = contents ts := by
          rw [contents_str]
          cases valueOf ts <;> simp [keyed]
        rw [← contents_str,same]
        refine ⟨fun value after more first => (nextValue_str valid keyed).mpr (some' value after more first),
          fun empty value after next => none' empty value after ((nextValue_str valid keyed).mp next)⟩
    · have other : ∀ raw, t ≠ .str raw := fun raw same => isStr ⟨raw,same⟩
      rw [contents_other other]
      refine ⟨fun value after more first => (nextValue_token valid other).mpr (some' value after more first),
        fun empty value after next => none' empty value after ((nextValue_token valid other).mp next)⟩

def Separated : List Token → Prop
  | [] => True
  | t :: rest =>
    (t = .punct colon → ∀ value after, rest = .str value :: after → ∃ c after', after = .punct c :: after' ∧ c ≠ colon) ∧
    Separated rest

theorem separated_cons (other : t ≠ .punct colon) (rest' : Separated rest) : Separated (t :: rest) :=
  ⟨fun same => absurd same other,rest'⟩

theorem separated_value {v : Json.Value} (others : Separated (v.tokens++.punct c :: rest)) (other : c ≠ colon) :
    Separated (.punct colon :: (v.tokens++.punct c :: rest)) := by
  refine ⟨fun _ value after same => ?_,others⟩
  cases v with
  | str raw =>
    rw [Json.Value.tokens] at same
    exact ⟨c,rest,(List.cons.inj same).2.symm,other⟩
  | atom raw => simp [Json.Value.tokens] at same
  | arr items => cases items <;> simp [Json.Value.tokens] at same
  | obj members => cases members <;> simp [Json.Value.tokens] at same

theorem members_more_opens (members : Json.Members) : ∃ c rest, members.more = .punct c :: rest ∧ c ≠ colon := by
  cases members with
  | nil => exact ⟨_,_,by rw [Json.Members.more],by decide⟩
  | cons key value rest => exact ⟨_,_,by rw [Json.Members.more],by decide⟩

theorem separated_member {v : Json.Value} (members : Json.Members) (others : Separated (v.tokens++(members.more++rest))) :
    Separated (.str key :: .punct colon :: (v.tokens++(members.more++rest))) := by
  obtain ⟨c,tail,opens,other⟩ := members_more_opens members
  rw [opens] at others ⊢
  exact separated_cons (by simp) (separated_value others other)

mutual
theorem value_separated : ∀ (v : Json.Value) {ts : List Token}, Separated ts → Separated (v.tokens++ts)
  | .atom raw,ts,others => by
    rw [Json.Value.tokens]
    exact separated_cons (by simp) others
  | .str raw,ts,others => by
    rw [Json.Value.tokens]
    exact separated_cons (by simp) others
  | .arr .nil,ts,others => by
    rw [Json.Value.tokens]
    exact separated_cons (by decide) (separated_cons (by decide) others)
  | .arr (.cons value rest),ts,others => by
    rw [Json.Value.tokens,List.cons_append,List.append_assoc]
    exact separated_cons (by decide) (value_separated value (items_separated rest others))
  | .obj .nil,ts,others => by
    rw [Json.Value.tokens]
    exact separated_cons (by decide) (separated_cons (by decide) others)
  | .obj (.cons key value rest),ts,others => by
    simp only [Json.Value.tokens,List.cons_append,List.append_assoc]
    exact separated_cons (by decide) (separated_member rest (value_separated value (members_separated rest others)))
theorem items_separated : ∀ (xs : Json.Items) {ts : List Token}, Separated ts → Separated (xs.more++ts)
  | .nil,ts,others => by
    rw [Json.Items.more]
    exact separated_cons (by decide) others
  | .cons value rest,ts,others => by
    rw [Json.Items.more,List.cons_append,List.append_assoc]
    exact separated_cons (by decide) (value_separated value (items_separated rest others))
theorem members_separated : ∀ (xs : Json.Members) {ts : List Token}, Separated ts → Separated (xs.more++ts)
  | .nil,ts,others => by
    rw [Json.Members.more]
    exact separated_cons (by decide) others
  | .cons key value rest,ts,others => by
    simp only [Json.Members.more,List.cons_append,List.append_assoc]
    exact separated_cons (by decide) (separated_member rest (value_separated value (members_separated rest others)))
end

theorem blanksOff_filter (ts : List Token) : (blanksOff ts).filter Token.solid = ts.filter Token.solid := by
  induction ts with
  | nil => rfl
  | cons t ts ih =>
    cases t with
    | blank c => exact ih
    | punct | str | atom => rfl

theorem separated_tail (separated : Separated ((t :: ts).filter Token.solid)) : Separated (ts.filter Token.solid) := by
  cases t with
  | blank c => exact separated
  | punct | str | atom => exact separated.2

theorem contents_blanksOff (ts : List Token) : contents (blanksOff ts) = contents ts := by
  induction ts with
  | nil => rfl
  | cons t ts ih =>
    cases t with
    | blank c =>
      rw [contents_other (by simp)]
      exact ih
    | punct | str | atom => rfl

theorem valueOf_punct (first : ts.filter Token.solid = .punct c :: rest) (other : c ≠ colon) : valueOf ts = none := by
  have same := blanksOff_filter ts
  rw [first] at same
  cases opens : blanksOff ts with
  | nil =>
    rw [opens] at same
    simp at same
  | cons t tail =>
    have solid := blanksOff_first ts t (by rw [opens]; rfl)
    rw [opens,List.filter_cons_of_pos solid] at same
    obtain rfl := (List.cons.inj same).1
    simp [valueOf,opens,other]

theorem value_ends (separated : Separated (ts.filter Token.solid)) (found : valueOf ts = some (value,after)) :
    contents ts = contents after ∧ Separated (after.filter Token.solid) ∧
      ∃ t rest, after = t :: rest ∧ (∃ c, t.flat = [c]) ∧ ∀ raw, t ≠ .str raw := by
  obtain ⟨rest,isColon,isStr⟩ := valueOf_some found
  have solid : ts.filter Token.solid = .punct colon :: .str value :: after.filter Token.solid := by
    rw [← blanksOff_filter ts,isColon,List.filter_cons_of_pos rfl,← blanksOff_filter rest,isStr,List.filter_cons_of_pos rfl]
  rw [solid] at separated
  obtain ⟨c,after',closes,other⟩ := separated.1 rfl value _ rfl
  refine ⟨?_,separated.2.2,?_⟩
  · rw [← contents_blanksOff ts,isColon,contents_other (by simp),← contents_blanksOff rest,isStr,contents_str,
      valueOf_punct closes other]
  · cases after with
    | nil => simp at closes
    | cons t rest =>
      refine ⟨t,rest,rfl,?_⟩
      cases t with
      | blank d => exact ⟨⟨d,rfl⟩,by simp⟩
      | punct d => exact ⟨⟨d,rfl⟩,by simp⟩
      | str raw => exact absurd (List.cons.inj closes).1 (by simp)
      | atom raw => exact absurd (List.cons.inj closes).1 (by simp)

theorem contents_tail (valid : Valid ts) (separated : Separated (ts.filter Token.solid)) : ∀ value after more,
    contents ts = (value,after) :: more →
      more = contents after ∧ Valid after ∧ Separated (after.filter Token.solid) ∧
        ∃ t rest, after = t :: rest ∧ (∃ c, t.flat = [c]) ∧ ∀ raw, t ≠ .str raw := by
  induction ts with
  | nil =>
    intro value after more same
    simp [contents] at same
  | cons t ts ih =>
    intro value after more same
    have separated' := separated_tail separated
    by_cases isStr : ∃ raw, t = .str raw
    · obtain ⟨key,rfl⟩ := isStr
      rw [contents_str] at same
      split at same
      · rename_i entry found
        split_ifs at same with keyed
        · obtain ⟨first,rfl⟩ := List.cons.inj same
          rw [first] at found
          obtain ⟨_,_,_,_,valid'⟩ := value_text valid.2.2 found
          obtain ⟨later,separated'',ends⟩ := value_ends separated' found
          exact ⟨later,valid',separated'',ends⟩
        · exact ih valid.2.2 separated' value after more same
      · exact ih valid.2.2 separated' value after more same
    · rw [contents_other fun raw same => isStr ⟨raw,same⟩] at same
      exact ih valid.2.2 separated' value after more same

end TinyLlama.Server
