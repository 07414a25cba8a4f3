import TinyLlama.Server.Contents

namespace TinyLlama.Server
open Json (Token)

-- The string of a member, where its key is one that the search takes for content.
def keyed (key : List UInt8) : Json.Value → List (List UInt8)
  | .str raw => if ContentKeyed key then [raw] else []
  | _ => []

-- The content strings of a value, in the order of its text.
mutual
def valueContents : Json.Value → List (List UInt8)
  | .atom _ => []
  | .str _ => []
  | .arr items => itemsContents items
  | .obj members => membersContents members
def itemsContents : Json.Items → List (List UInt8)
  | .nil => []
  | .cons value rest => valueContents value++itemsContents rest
def membersContents : Json.Members → List (List UInt8)
  | .nil => []
  | .cons key value rest => keyed key value++valueContents value++membersContents rest
end

-- The place of the object's own content among its content strings; an escape in the key hides it.
def ownPlace : Json.Members → Option Nat
  | .nil => none
  | .cons key value rest =>
    if Json.unescape key = some contentKey then if ContentKeyed key then some 0 else none
    else (ownPlace rest).map ((keyed key value++valueContents value).length+·)

def itemPlace : Json.Items → Nat → Option Nat
  | .nil,_ => none
  | .cons (.obj members) _,0 => ownPlace members
  | .cons _ _,0 => none
  | .cons value rest,k+1 => (itemPlace rest k).map ((valueContents value).length+·)

def messagePlace (k : Nat) : Json.Members → Option Nat
  | .nil => none
  | .cons key value rest =>
    if Json.unescape key = some (cstr "messages") then
      match value with
      | .arr items => itemPlace items k
      | _ => none
    else (messagePlace k rest).map ((keyed key value++valueContents value).length+·)

section Order

theorem blanksOff_cons (ts : List Token) : blanksOff ts = [] ∧ ts.filter Token.solid = [] ∨
    ∃ t rest, t.solid = true ∧ blanksOff ts = t :: rest ∧ ts.filter Token.solid = t :: rest.filter Token.solid := by
  cases opens : blanksOff ts with
  | nil => exact .inl ⟨rfl,by rw [← blanksOff_filter ts,opens]; rfl⟩
  | cons t rest =>
    have solid := blanksOff_first ts t (by rw [opens]; rfl)
    exact .inr ⟨t,rest,solid,rfl,by rw [← blanksOff_filter ts,opens,List.filter_cons_of_pos solid]⟩

theorem blanksOff_solid (solid : t.solid = true) (rest : List Token) : blanksOff (t :: rest) = t :: rest :=
  List.dropWhile_cons_of_neg (by simp [solid])

theorem valueOf_solid (ts : List Token) :
    (valueOf ts).map (fun e => (e.1,e.2.filter Token.solid)) = valueOf (ts.filter Token.solid) := by
  rcases blanksOff_cons ts with ⟨opens,filtered⟩ | ⟨t,rest,solid,opens,filtered⟩
  · rw [filtered]
    simp only [valueOf,opens]
    rfl
  · rcases blanksOff_cons rest with ⟨opens',filtered'⟩ | ⟨u,after,solid',opens',filtered'⟩
    · rw [filtered,filtered']
      cases t <;> simp [valueOf,opens,opens',blanksOff_solid solid]
      simp [blanksOff]
    · rw [filtered,filtered']
      simp only [valueOf,opens,blanksOff_solid solid]
      cases t with
      | punct c =>
        by_cases isColon : c = colon
        · simp only [isColon,if_true]
          rw [opens',blanksOff_solid solid']
          cases u <;> rfl
        · simp only [if_neg isColon]
          rfl
      | blank | str | atom => rfl

theorem contents_solid (ts : List Token) : (contents ts).map Prod.fst = (contents (ts.filter Token.solid)).map Prod.fst := by
  induction ts with
  | nil => rfl
  | cons t ts ih =>
    cases t with
    | blank c => exact ih
    | punct c => exact ih
    | atom raw => exact ih
    | str key =>
      rw [List.filter_cons_of_pos rfl,contents_str,contents_str,← valueOf_solid]
      cases valueOf ts with
      | none => exact ih
      | some entry =>
        by_cases isContent : ContentKeyed key
        · simp only [Option.map_some,if_pos isContent,List.map_cons,ih]
        · simpa only [Option.map_some,if_neg isContent] using ih

-- Whatever stands behind a value opens with a comma or a closing bracket.
def Closed (rest : List Token) : Prop := ∀ t ∈ rest.head?,∃ c,t = .punct c ∧ c ≠ colon

theorem Closed.none (closed : Closed rest) : valueOf rest = none := by
  cases rest with
  | nil => rfl
  | cons t rest =>
    obtain ⟨c,rfl,other⟩ := closed t rfl
    simp [valueOf,blanksOff_solid (t:=.punct c) rfl,other]

theorem closed_items (items : Json.Items) (rest : List Token) : Closed (items.more++rest) := by
  cases items <;> simp [Closed,Json.Items.more] <;> decide

theorem closed_members (members : Json.Members) (rest : List Token) : Closed (members.more++rest) := by
  cases members <;> simp [Closed,Json.Members.more] <;> decide

theorem contents_punct (c : UInt8) (rest : List Token) : contents (.punct c :: rest) = contents rest := by simp [contents]

theorem contents_member (key : List UInt8) (value : Json.Value) (rest : List Token) :
    (contents (.str key :: .punct Json.colon :: (value.tokens++rest))).map Prod.fst =
      keyed key value++(contents (value.tokens++rest)).map Prod.fst := by
  change (contents (.str key :: .punct colon :: (value.tokens++rest))).map Prod.fst = _
  rw [contents_str,contents_punct]
  cases value with
  | str raw =>
    have found : valueOf (.punct colon :: ((Json.Value.str raw).tokens++rest)) = some (raw,rest) := by
      simp [valueOf,Json.Value.tokens,blanksOff_solid (t:=.punct colon) rfl,blanksOff_solid (t:=.str raw) rfl]
    rw [found]
    by_cases isContent : ContentKeyed key <;> simp [keyed,isContent]
  | atom raw =>
    have none' : valueOf (.punct colon :: ((Json.Value.atom raw).tokens++rest)) = none := by
      simp [valueOf,Json.Value.tokens,blanksOff_solid (t:=.punct colon) rfl,blanksOff_solid (t:=.atom raw) rfl]
    rw [none']
    rfl
  | arr items =>
    have none' : valueOf (.punct colon :: ((Json.Value.arr items).tokens++rest)) = none := by
      cases items <;> simp [valueOf,Json.Value.tokens,blanksOff_solid (t:=.punct _) rfl]
    rw [none']
    rfl
  | obj members =>
    have none' : valueOf (.punct colon :: ((Json.Value.obj members).tokens++rest)) = none := by
      cases members <;> simp [valueOf,Json.Value.tokens,blanksOff_solid (t:=.punct _) rfl]
    rw [none']
    rfl

-- One case for each constructor of the value.
mutual
theorem contents_value : ∀ (v : Json.Value) (rest : List Token),Closed rest →
    (contents (v.tokens++rest)).map Prod.fst = valueContents v++(contents rest).map Prod.fst
  | .atom raw,rest,_ => by simp [Json.Value.tokens,valueContents,contents]
  | .str raw,rest,closed => by
    rw [Json.Value.tokens,valueContents,List.singleton_append,contents_str,closed.none]
    rfl
  | .arr .nil,rest,_ => by simp [Json.Value.tokens,valueContents,itemsContents,contents]
  | .arr (.cons value items),rest,_ => by
    rw [Json.Value.tokens,List.cons_append,contents_punct,List.append_assoc,contents_value value _ (closed_items items rest),
      contents_items items rest,valueContents,itemsContents,List.append_assoc]
  | .obj .nil,rest,_ => by simp [Json.Value.tokens,valueContents,membersContents,contents]
  | .obj (.cons key value members),rest,_ => by
    simp only [Json.Value.tokens,List.cons_append,contents_punct,List.append_assoc]
    rw [contents_member,contents_value value _ (closed_members members rest),contents_members members rest,valueContents,
      membersContents]
    simp only [List.append_assoc]
theorem contents_items : ∀ (items : Json.Items) (rest : List Token),
    (contents (items.more++rest)).map Prod.fst = itemsContents items++(contents rest).map Prod.fst
  | .nil,rest => by simp [Json.Items.more,itemsContents,contents]
  | .cons value items,rest => by
    rw [Json.Items.more,List.cons_append,contents_punct,List.append_assoc,contents_value value _ (closed_items items rest),
      contents_items items rest,itemsContents,List.append_assoc]
theorem contents_members : ∀ (members : Json.Members) (rest : List Token),
    (contents (members.more++rest)).map Prod.fst = membersContents members++(contents rest).map Prod.fst
  | .nil,rest => by simp [Json.Members.more,membersContents,contents]
  | .cons key value members,rest => by
    simp only [Json.Members.more,List.cons_append,contents_punct,List.append_assoc]
    rw [contents_member,contents_value value _ (closed_members members rest),contents_members members rest,membersContents]
    simp only [List.append_assoc]
end

theorem contents_text (spells : Json.Text (.obj members) ts) : (contents ts).map Prod.fst = membersContents members := by
  have all := contents_value (.obj members) [] (fun t none' => by simp at none')
  rw [List.append_nil] at all
  rw [contents_solid,spells.tokens,all,valueContents]
  simp [contents]

end Order

section Places

theorem string_get {v : Json.Value} (reads : (v.get name).bind Json.Value.string = some t) : ∃ members raw,
    v = .obj members ∧ members.get name = some (.str raw) ∧ Json.unescape raw = some t := by
  cases v with
  | obj members =>
    simp only [Json.Value.get,Option.bind_eq_some_iff] at reads
    obtain ⟨value,found,text⟩ := reads
    cases value with
    | str raw => exact ⟨members,raw,rfl,found,text⟩
    | atom | arr | obj => simp [Json.Value.string] at text
  | atom | str | arr => simp [Json.Value.get] at reads

theorem ownPlace_raw : ∀ (members : Json.Members) (p : Nat),members.get contentKey = some (.str raw) →
    ownPlace members = some p → (membersContents members)[p]? = some raw
  | .nil,_,own,_ => by simp [Json.Members.get] at own
  | .cons key value rest,p,own,placed => by
    rw [Json.Members.get] at own
    rw [ownPlace] at placed
    rw [membersContents]
    split at own
    · next named =>
      obtain rfl := Option.some.inj own
      rw [if_pos named] at placed
      split at placed
      · next isContent =>
        obtain rfl := Option.some.inj placed
        simp [keyed,isContent]
      · cases placed
    · next other =>
      rw [if_neg other,Option.map_eq_some_iff] at placed
      obtain ⟨q,later,rfl⟩ := placed
      rw [List.getElem?_append_right (Nat.le_add_right _ _),Nat.add_sub_cancel_left]
      exact ownPlace_raw rest q own later

theorem itemPlace_raw : ∀ (items : Json.Items) (k p : Nat) (v : Json.Value),items.toList[k]? = some v →
    (v.get contentKey).bind Json.Value.string = some t → itemPlace items k = some p →
    ∃ raw,(itemsContents items)[p]? = some raw ∧ Json.unescape raw = some t
  | .nil,_,_,_,item,_,_ => by simp [Json.Items.toList] at item
  | .cons value rest,0,p,v,item,reads,placed => by
    obtain rfl : value = v := by simpa [Json.Items.toList] using item
    obtain ⟨members,raw,rfl,own,text⟩ := string_get reads
    refine ⟨raw,?_,text⟩
    have here := ownPlace_raw members p own (by simpa [itemPlace] using placed)
    rw [itemsContents,valueContents,List.getElem?_append_left (List.getElem?_eq_some_iff.mp here).1]
    exact here
  | .cons value rest,k+1,p,v,item,reads,placed => by
    rw [itemPlace,Option.map_eq_some_iff] at placed
    obtain ⟨q,later,rfl⟩ := placed
    obtain ⟨raw,there,text⟩ := itemPlace_raw rest k q v (by simpa [Json.Items.toList] using item) reads later
    refine ⟨raw,?_,text⟩
    rw [itemsContents,List.getElem?_append_right (Nat.le_add_right _ _),Nat.add_sub_cancel_left]
    exact there

theorem messagePlace_raw : ∀ (members : Json.Members) (p : Nat),members.get (cstr "messages") = some (.arr items) →
    items.toList[k]? = some v → (v.get contentKey).bind Json.Value.string = some t → messagePlace k members = some p →
    ∃ raw,(membersContents members)[p]? = some raw ∧ Json.unescape raw = some t
  | .nil,_,listed,_,_,_ => by simp [Json.Members.get] at listed
  | .cons key value rest,p,listed,item,reads,placed => by
    rw [Json.Members.get] at listed
    split at listed
    · next named =>
      obtain rfl := Option.some.inj listed
      obtain ⟨raw,here,text⟩ := itemPlace_raw items k p v item reads (by simpa [messagePlace,named] using placed)
      refine ⟨raw,?_,text⟩
      have none' : keyed key (.arr items) = [] := rfl
      rw [membersContents,none',valueContents,List.nil_append,List.getElem?_append_left (List.getElem?_eq_some_iff.mp here).1]
      exact here
    · next other =>
      simp only [messagePlace,if_neg other,Option.map_eq_some_iff] at placed
      obtain ⟨q,later,rfl⟩ := placed
      obtain ⟨raw,there,text⟩ := messagePlace_raw rest q listed item reads later
      refine ⟨raw,?_,text⟩
      rw [membersContents,List.getElem?_append_right (Nat.le_add_right _ _),Nat.add_sub_cancel_left]
      exact there

end Places

end TinyLlama.Server
