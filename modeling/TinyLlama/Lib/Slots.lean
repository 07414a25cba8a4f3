import Mathlib.Tactic

namespace TinyLlama.Slots

structure Slot where
  off : Nat
  size : Nat
deriving Repr,DecidableEq

def Slot.Covers (c : Slot) (a : Nat) : Prop := c.off ≤ a ∧ a < c.off+c.size

def Apart (c d : Slot) : Prop := ∀ a, c.Covers a → ¬d.Covers a

theorem Apart.symm (apart : Apart c d) : Apart d c := fun a second first => apart a first second

-- Slots that may all be in use at once, below the arena's high-water mark.
structure Placed (slots : List Slot) (bump : Nat) : Prop where
  apart : slots.Pairwise Apart
  inside : ∀ c ∈ slots, c.off+c.size ≤ bump

theorem Placed.perm (placed : Placed xs bump) (same : xs.Perm ys) : Placed ys bump :=
  ⟨(same.pairwise_iff Apart.symm).mp placed.apart,fun c listed => placed.inside c (same.mem_iff.mpr listed)⟩

theorem Placed.shrink (placed : Placed (c :: xs) bump) (fits : n ≤ c.size) : Placed (⟨c.off,n⟩ :: xs) bump := by
  obtain ⟨first,rest⟩ := List.pairwise_cons.mp placed.apart
  refine ⟨List.pairwise_cons.mpr ⟨fun d listed a covered => first d listed a ⟨covered.1,?_⟩,rest⟩,?_⟩
  · have upper : a < c.off+n := covered.2
    omega
  · intro d listed
    rcases List.mem_cons.mp listed with rfl | later
    · have bound := placed.inside c (List.mem_cons_self ..)
      change c.off+n ≤ bump
      omega
    · exact placed.inside d (List.mem_cons_of_mem _ later)

theorem Placed.extend (placed : Placed xs bump) (n : Nat) : Placed (⟨bump,n⟩ :: xs) (bump+n) := by
  refine ⟨List.pairwise_cons.mpr ⟨fun d listed a new old => ?_,placed.apart⟩,?_⟩
  · have bound := placed.inside d listed
    have lower : bump ≤ a := new.1
    have upper := old.2
    omega
  · intro d listed
    rcases List.mem_cons.mp listed with rfl | earlier
    · exact Nat.le_refl _
    · exact Nat.le_trans (placed.inside d earlier) (Nat.le_add_right _ _)

-- Removal that moves the last slot into the hole.
def swapRemove (slots : List Slot) (i : Nat) : List Slot :=
  match slots.getLast? with
  | none => slots
  | some last => (slots.set i last).dropLast

theorem swapRemove_perm (slots : List Slot) (i : Nat) (below : i < slots.length) :
    slots.Perm (slots[i] :: swapRemove slots i) := by
  have some' : slots ≠ [] := by rintro rfl; simp at below
  obtain ⟨front,last,rfl⟩ : ∃ front last, slots = front++[last] :=
    ⟨slots.dropLast,slots.getLast some',(List.dropLast_append_getLast some').symm⟩
  simp only [swapRemove,List.getLast?_append,List.getLast?_singleton,Option.some_or]
  by_cases end' : i = front.length
  · subst end'
    rw [List.set_append_right _ _ (Nat.le_refl _),Nat.sub_self,List.set_cons_zero,List.dropLast_concat,
      List.getElem_concat_length rfl]
    exact List.perm_append_singleton last front
  · have inner : i < front.length := by
      simp only [List.length_append,List.length_singleton] at below
      omega
    rw [List.set_append_left _ _ inner,List.dropLast_concat,List.getElem_append_left inner]
    have hole := List.set_perm_cons_eraseIdx inner last
    have whole := List.getElem_cons_eraseIdx_perm inner
    calc (front++[last]).Perm (last :: front) := List.perm_append_singleton last front
      _ |>.Perm (last :: front[i] :: front.eraseIdx i) := whole.symm.cons last
      _ |>.Perm (front[i] :: last :: front.eraseIdx i) := List.Perm.swap ..
      _ |>.Perm (front[i] :: front.set i last) := hole.symm.cons _

-- The smallest slot that fits, the first of them; a size of `limit` is too big.
def bestFit (need limit : Nat) : Nat → List Slot → Option (Nat × Nat) → Option (Nat × Nat)
  | _,[],best => best
  | f,c :: rest,best =>
    bestFit need limit (f+1) rest (if need ≤ c.size ∧ c.size < (best.map Prod.snd).getD limit then some (f,c.size) else best)

theorem bestFit_fits (need limit : Nat) (slots : List Slot) : ∀ f best, bestFit need limit f slots best = some r →
    best = some r ∨ ∃ c, f ≤ r.1 ∧ slots[r.1-f]? = some c ∧ need ≤ c.size := by
  induction slots with
  | nil => intro f best found; exact .inl found
  | cons c rest ih =>
    intro f best found
    rcases ih (f+1) _ found with earlier | ⟨d,later,listed,fits⟩
    · split at earlier
      · rename_i good
        obtain rfl := Option.some.inj earlier
        exact .inr ⟨c,Nat.le_refl _,by simp,good.1⟩
      · exact .inl earlier
    · refine .inr ⟨d,by omega,?_,fits⟩
      rw [show r.1-f = (r.1-(f+1))+1 by omega,List.getElem?_cons_succ]
      exact listed

theorem filter_split (p q r : α → Bool) (either : ∀ x, p x = (q x || r x)) (apart : ∀ x, ¬(q x = true ∧ r x = true))
    (l : List α) : (l.filter p).Perm (l.filter q++l.filter r) := by
  induction l with
  | nil => exact .nil
  | cons x rest ih =>
    have here := either x
    by_cases first : q x = true
    · have second : ¬r x = true := fun both => apart x ⟨first,both⟩
      rw [List.filter_cons_of_pos (by simp [here,first]),List.filter_cons_of_pos first,List.filter_cons_of_neg second]
      exact ih.cons x
    · by_cases second : r x = true
      · rw [List.filter_cons_of_pos (by simp [here,second]),List.filter_cons_of_neg first,List.filter_cons_of_pos second]
        exact (ih.cons x).trans List.perm_middle.symm
      · rw [List.filter_cons_of_neg (by simp [here,first,second]),List.filter_cons_of_neg first,
          List.filter_cons_of_neg second]
        exact ih

theorem giveBack_eq {ι κ : Type} [DecidableEq κ] (slot : ι → Slot) (arena : ι → κ) (keep : ι → Prop) [DecidablePred keep] (ids : List ι)
    (b : κ) : ∀ free : κ → List Slot,
    (ids.foldl (fun free j => if keep j then free else
      Function.update free (arena j) (free (arena j)++[slot j])) free) b =
      free b++(ids.filter fun j => arena j = b ∧ ¬keep j).map slot := by
  induction ids with
  | nil => intro free; simp
  | cons j rest ih =>
    intro free
    rw [List.foldl_cons,ih]
    by_cases kept : keep j
    · simp [kept]
    · by_cases here : arena j = b
      · subst here
        simp [kept]
      · simp [kept,here,Function.update_of_ne (Ne.symm here)]

end TinyLlama.Slots
