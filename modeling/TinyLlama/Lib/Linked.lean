import Mathlib.Tactic

-- Doubly linked lists over addresses, ended by 0 on both sides.
namespace TinyLlama.Linked

-- x and y are neighbours; a 0 has no links of its own.
def Joined (next prev : Nat → Nat) (x y : Nat) : Prop := (x ≠ 0 → next x = y) ∧ (y ≠ 0 → prev y = x)

def Row (next prev : Nat → Nat) (xs : List Nat) : Prop := (0 :: (xs++[0])).IsChain (Joined next prev)

variable {next prev next' prev' : Nat → Nat}

theorem chain_keep (l : List Nat) (chain : l.IsChain (Joined next prev))
    (keepNext : ∀ x ∈ l.dropLast, x ≠ 0 → next' x = next x) (keepPrev : ∀ y ∈ l.tail, y ≠ 0 → prev' y = prev y) :
    l.IsChain (Joined next' prev') := by
  induction l with
  | nil => exact .nil
  | cons x rest ih =>
    cases rest with
    | nil => exact .singleton x
    | cons y rest =>
      obtain ⟨here,later⟩ := List.isChain_cons_cons.mp chain
      refine List.isChain_cons_cons.mpr ⟨⟨fun some' => ?_,fun some' => ?_⟩,ih later ?_ ?_⟩
      · rw [keepNext x (by simp) some',here.1 some']
      · rw [keepPrev y (by simp) some',here.2 some']
      · exact fun z present => keepNext z (by rw [List.dropLast_cons_cons]; exact List.mem_cons_of_mem _ present)
      · exact fun z present => keepPrev z (List.mem_cons_of_mem y present)

theorem Row.keep (row : Row next prev xs) (keepNext : ∀ x ∈ xs, next' x = next x) (keepPrev : ∀ y ∈ xs, prev' y = prev y) :
    Row next' prev' xs := by
  refine chain_keep _ row (fun x present some' => ?_) (fun y present some' => ?_)
  · have listed : x = 0 ∨ x ∈ xs := by
      rw [← List.cons_append,List.dropLast_concat] at present
      exact List.mem_cons.mp present
    exact keepNext x (listed.resolve_left some')
  · have listed : y ∈ xs ∨ y = 0 := by simpa using present
    exact keepPrev y (listed.resolve_right some')

theorem splice (front back old new : List Nat) (a b : Nat)
    (chain : (front++a :: (old++b :: back)).IsChain (Joined next prev))
    (middle : (a :: (new++[b])).IsChain (Joined next' prev'))
    (keepNext : ∀ x ∈ front++b :: back, x ≠ 0 → next' x = next x)
    (keepPrev : ∀ y ∈ front++a :: back, y ≠ 0 → prev' y = prev y) :
    (front++a :: (new++b :: back)).IsChain (Joined next' prev') := by
  obtain ⟨before,rest⟩ := List.isChain_split.mp chain
  rw [← List.cons_append] at rest
  obtain ⟨_,after⟩ := List.isChain_split.mp rest
  refine List.isChain_split.mpr ⟨chain_keep _ before ?_ ?_,?_⟩
  · intro x present
    rw [List.dropLast_concat] at present
    exact keepNext x (List.mem_append_left _ present)
  · intro y present
    have listed := List.mem_of_mem_tail present
    refine keepPrev y ?_
    rcases List.mem_append.mp listed with inFront | last
    · exact List.mem_append_left _ inFront
    · exact List.mem_append_right _ (by rw [List.mem_singleton.mp last]; exact List.mem_cons_self ..)
  · rw [← List.cons_append]
    refine List.isChain_split.mpr ⟨middle,chain_keep _ after ?_ ?_⟩
    · exact fun x present => keepNext x (List.mem_append_right _ (List.mem_of_mem_dropLast present))
    · exact fun y present => keepPrev y (List.mem_append_right _ (List.mem_cons_of_mem _ present))

theorem ends (front back : List Nat) (distinct : (front++back).Nodup) (some' : 0 ∉ front++back) :
    ∃ P Q, 0 :: front = P++[front.getLastD 0] ∧ back++[0] = back.headD 0 :: Q ∧
      (∀ y ∈ P++back.headD 0 :: Q, y ≠ 0 → y ∈ front++back ∧ y ≠ front.getLastD 0) ∧
      ∀ y ∈ P++front.getLastD 0 :: Q, y ≠ 0 → y ∈ front++back ∧ y ≠ back.headD 0 := by
  obtain ⟨P,first⟩ : ∃ P, 0 :: front = P++[front.getLastD 0] := by
    cases front using List.reverseRecOn with
    | nil => exact ⟨[],rfl⟩
    | append_singleton front a => exact ⟨0 :: front,by simp⟩
  obtain ⟨Q,second⟩ : ∃ Q, back++[0] = back.headD 0 :: Q := by
    cases back with
    | nil => exact ⟨[],rfl⟩
    | cons y back => exact ⟨back++[0],rfl⟩
  generalize front.getLastD 0 = a at first ⊢
  generalize back.headD 0 = b at second ⊢
  have inFront : ∀ y, y ∈ P ∨ y = a → y ≠ 0 → y ∈ front := by
    intro y present other
    have listed : y ∈ 0 :: front := by rw [first]; simpa using present
    exact (List.mem_cons.mp listed).resolve_left other
  have inBack : ∀ y, y = b ∨ y ∈ Q → y ≠ 0 → y ∈ back := by
    intro y present other
    have listed : y ∈ back++[0] := by rw [second]; simpa using present
    simpa [other] using listed
  obtain ⟨frontOnce,backOnce,apart⟩ := List.nodup_append.mp distinct
  simp only [List.mem_append,not_or] at some'
  have once : (P++[a]).Nodup := by rw [← first]; exact List.nodup_cons.mpr ⟨some'.1,frontOnce⟩
  have once' : (b :: Q).Nodup := by
    rw [← second]
    exact List.nodup_append.mpr ⟨backOnce,by simp,fun y listed z zero => by
      rw [List.mem_singleton.mp zero]; rintro rfl; exact some'.2 listed⟩
  refine ⟨P,Q,first,second,fun y present other => ?_,fun y present other => ?_⟩
  · rcases List.mem_append.mp present with left | right
    · refine ⟨List.mem_append_left _ (inFront y (.inl left) other),?_⟩
      rintro rfl
      exact (List.nodup_append.mp once).2.2 y left y (List.mem_singleton_self y) rfl
    · have listed := inBack y (List.mem_cons.mp right) other
      refine ⟨List.mem_append_right _ listed,?_⟩
      rintro rfl
      exact apart y (inFront y (.inr rfl) other) y listed rfl
  · rcases List.mem_append.mp present with left | right
    · have listed := inFront y (.inl left) other
      refine ⟨List.mem_append_left _ listed,?_⟩
      rintro rfl
      exact apart y listed y (inBack y (.inl rfl) other) rfl
    · rcases List.mem_cons.mp right with rfl | later
      · have listed := inFront y (.inr rfl) other
        refine ⟨List.mem_append_left _ listed,?_⟩
        rintro rfl
        exact apart y listed y (inBack y (.inl rfl) other) rfl
      · refine ⟨List.mem_append_right _ (inBack y (.inr later) other),?_⟩
        rintro rfl
        exact (List.nodup_cons.mp once').1 later

section edits
variable {front back : List Nat} {x x' : Nat}

theorem Row.neighbours (row : Row next prev (front++x :: back)) (some' : x ≠ 0) :
    prev x = front.getLastD 0 ∧ next x = back.headD 0 := by
  have left : prev x = front.getLastD 0 := by
    cases front using List.reverseRecOn with
    | nil => exact (List.isChain_cons_cons.mp row).1.2 some'
    | append_singleton front a =>
      have cut : 0 :: (front++[a]++x :: back++[0]) = (0 :: front)++a :: x :: (back++[0]) := by simp
      rw [Row,cut] at row
      have here := (List.isChain_append_cons_cons.mp row).2.1.2 some'
      simpa using here
  have cut : 0 :: (front++x :: back++[0]) = (0 :: front)++x :: (back++[0]) := by simp
  rw [Row,cut] at row
  obtain ⟨_,rest⟩ := List.isChain_split.mp row
  refine ⟨left,?_⟩
  cases back with
  | nil => exact (List.isChain_cons_cons.mp rest).1.1 some'
  | cons y back => exact (List.isChain_cons_cons.mp rest).1.1 some'

-- Something new between two neighbours, or in place of what was there.
theorem Row.edit (old new : List Nat) (row : Row next prev (front++(old++back))) (distinct : (front++back).Nodup)
    (some' : 0 ∉ front++back)
    (middle : (front.getLastD 0 :: (new++[back.headD 0])).IsChain (Joined next' prev'))
    (keepNext : ∀ y ∈ front++back, y ≠ front.getLastD 0 → next' y = next y)
    (keepPrev : ∀ y ∈ front++back, y ≠ back.headD 0 → prev' y = prev y) : Row next' prev' (front++(new++back)) := by
  obtain ⟨P,Q,first,second,others,others'⟩ := ends front back distinct some'
  have cut : ∀ mid, 0 :: (front++(mid++back)++[0]) = P++front.getLastD 0 :: (mid++back.headD 0 :: Q) := by
    intro mid
    rw [List.append_assoc,List.append_assoc,second,← List.cons_append,first,List.append_assoc]
    rfl
  rw [Row,cut] at row ⊢
  refine splice P Q old new _ _ row middle ?_ ?_
  · exact fun y present other => keepNext y (others y present other).1 (others y present other).2
  · exact fun y present other => keepPrev y (others' y present other).1 (others' y present other).2

theorem Row.remove (row : Row next prev (front++x :: back)) (distinct : (front++x :: back).Nodup)
    (some' : 0 ∉ front++x :: back) (linkNext : prev x ≠ 0 → next' (prev x) = next x)
    (linkPrev : next x ≠ 0 → prev' (next x) = prev x)
    (keepNext : ∀ y ∈ front++back, y ≠ prev x → next' y = next y)
    (keepPrev : ∀ y ∈ front++back, y ≠ next x → prev' y = prev y) : Row next' prev' (front++back) := by
  have fewer : (front++back).Sublist (front++x :: back) := (List.sublist_cons_self x back).append_left front
  obtain ⟨before,after⟩ := row.neighbours (by rintro rfl; simp at some')
  rw [before,after] at linkNext linkPrev
  rw [before] at keepNext
  rw [after] at keepPrev
  exact Row.edit [x] [] row (distinct.sublist fewer) (fun zero => some' (fewer.subset zero))
    (List.isChain_pair.mpr ⟨linkNext,linkPrev⟩) keepNext keepPrev

theorem Row.replace (row : Row next prev (front++x :: back)) (distinct : (front++x :: back).Nodup)
    (some' : 0 ∉ front++x :: back) (ownNext : next' x' = next x) (ownPrev : prev' x' = prev x)
    (linkNext : prev x ≠ 0 → next' (prev x) = x') (linkPrev : next x ≠ 0 → prev' (next x) = x')
    (keepNext : ∀ y ∈ front++back, y ≠ prev x → next' y = next y)
    (keepPrev : ∀ y ∈ front++back, y ≠ next x → prev' y = prev y) : Row next' prev' (front++x' :: back) := by
  have fewer : (front++back).Sublist (front++x :: back) := (List.sublist_cons_self x back).append_left front
  obtain ⟨before,after⟩ := row.neighbours (by rintro rfl; simp at some')
  rw [before] at keepNext linkNext ownPrev
  rw [after] at keepPrev linkPrev ownNext
  exact Row.edit [x] [x'] row (distinct.sublist fewer) (fun zero => some' (fewer.subset zero))
    (List.isChain_cons_cons.mpr ⟨⟨linkNext,fun _ => ownPrev⟩,List.isChain_pair.mpr ⟨fun _ => ownNext,linkPrev⟩⟩)
    keepNext keepPrev

theorem Row.insert (row : Row next prev (front++back)) (distinct : (front++back).Nodup) (some' : 0 ∉ front++back)
    (ownNext : next' x' = back.headD 0) (ownPrev : prev' x' = front.getLastD 0)
    (linkNext : front.getLastD 0 ≠ 0 → next' (front.getLastD 0) = x')
    (linkPrev : back.headD 0 ≠ 0 → prev' (back.headD 0) = x')
    (keepNext : ∀ y ∈ front++back, y ≠ front.getLastD 0 → next' y = next y)
    (keepPrev : ∀ y ∈ front++back, y ≠ back.headD 0 → prev' y = prev y) : Row next' prev' (front++x' :: back) :=
  Row.edit [] [x'] row distinct some'
    (List.isChain_cons_cons.mpr ⟨⟨linkNext,fun _ => ownPrev⟩,List.isChain_pair.mpr ⟨fun _ => ownNext,linkPrev⟩⟩)
    keepNext keepPrev

end edits

end TinyLlama.Linked
