import Mathlib.Tactic

-- Rewriting a row by its adjacent pairs, the leftmost pair of least rank first.
namespace TinyLlama.Pairs

variable {α ρ : Type} (rank : α → α → Option ρ) (join : α → α → Option α)

def RankAt (xs : List α) (i : Nat) (r : ρ) : Prop := ∃ a b, xs[i]? = some a ∧ xs[i+1]? = some b ∧ rank a b = some r

def joinAt (xs : List α) (i : Nat) : Option (List α) :=
  match xs.drop i with
  | a :: b :: rest => (join a b).map fun c => xs.take i++c :: rest
  | _ => none

variable {rank join} {xs ys zs : List α} {i : Nat} {r : ρ}

theorem RankAt.inside (ranked : RankAt rank xs i r) : i+1 < xs.length := by
  obtain ⟨_,b,_,second,_⟩ := ranked
  exact (List.getElem?_eq_some_iff.mp second).1

theorem rankAt_drop {a b : α} {rest : List α} (row : xs.drop i = a :: b :: rest) : RankAt rank xs i r ↔ rank a b = some r := by
  have one : xs[i]? = some a := by rw [← Nat.add_zero i,← List.getElem?_drop,row]; rfl
  have two : xs[i+1]? = some b := by rw [← List.getElem?_drop,row]; rfl
  constructor
  · rintro ⟨a',b',one',two',ranked⟩
    rw [one] at one'
    rw [two] at two'
    obtain rfl := Option.some.inj one'
    obtain rfl := Option.some.inj two'
    exact ranked
  · exact fun ranked => ⟨a,b,one,two,ranked⟩

theorem RankAt.drop (ranked : RankAt rank xs i r) : ∃ a b rest, xs.drop i = a :: b :: rest ∧ rank a b = some r := by
  obtain ⟨a,b,one,two,value⟩ := ranked
  obtain ⟨first,one⟩ := List.getElem?_eq_some_iff.mp one
  obtain ⟨second,two⟩ := List.getElem?_eq_some_iff.mp two
  exact ⟨a,b,_,by rw [List.drop_eq_getElem_cons first,List.drop_eq_getElem_cons second,one,two],value⟩

theorem joinAt_some (joined : joinAt join xs i = some ys) :
    ∃ a b c rest, xs.drop i = a :: b :: rest ∧ join a b = some c ∧ ys = xs.take i++c :: rest := by
  unfold joinAt at joined
  split at joined
  · next a b rest row =>
    obtain ⟨c,value,rfl⟩ := Option.map_eq_some_iff.mp joined
    exact ⟨a,b,c,rest,row,value,rfl⟩
  · simp at joined

theorem joinAt_length (joined : joinAt join xs i = some ys) : ys.length+1 = xs.length := by
  obtain ⟨a,b,c,rest,row,_,rfl⟩ := joinAt_some joined
  have whole := congrArg List.length (List.take_append_drop i xs)
  rw [row] at whole
  simp only [List.length_append,List.length_cons] at whole ⊢
  omega

theorem joinAt_flatMap {β : Type} {f : α → List β} (adds : ∀ a b c, join a b = some c → f c = f a++f b)
    (joined : joinAt join xs i = some ys) : ys.flatMap f = xs.flatMap f := by
  obtain ⟨a,b,c,rest,row,value,rfl⟩ := joinAt_some joined
  have whole : xs.flatMap f = (xs.take i++xs.drop i).flatMap f := by rw [List.take_append_drop]
  rw [whole,row]
  simp only [List.flatMap_append,List.flatMap_cons,adds a b c value,List.append_assoc]

section Least
variable [LinearOrder ρ]

variable (rank) in
-- The leftmost least among the pairs before place n.
def BestBelow (xs : List α) (n : Nat) : Option (ρ × Nat) → Prop
  | none => ∀ j < n, ∀ r, ¬RankAt rank xs j r
  | some (r,i) => i < n ∧ RankAt rank xs i r ∧ ∀ j < n, ∀ r', RankAt rank xs j r' → r < r' ∨ (r = r' ∧ i ≤ j)

variable (rank) in
abbrev Best (xs : List α) (i : Nat) (r : ρ) : Prop := BestBelow rank xs xs.length (some (r,i))

theorem best_unique {i' : Nat} {r' : ρ} (best : Best rank xs i r) (best' : Best rank xs i' r') : i = i' ∧ r = r' := by
  obtain ⟨low,ranked,least⟩ := best
  obtain ⟨low',ranked',least'⟩ := best'
  rcases least i' low' r' ranked' with less | ⟨same,left⟩
  · rcases least' i low r ranked with less' | ⟨same',_⟩
    · exact absurd less' less.asymm
    · exact absurd same' less.ne'
  · rcases least' i low r ranked with less' | ⟨_,left'⟩
    · exact absurd same less'.ne'
    · exact ⟨by omega,same⟩

def better (found : Option ρ) (i : Nat) (best : Option (ρ × Nat)) : Option (ρ × Nat) :=
  match found with
  | some r => if best.all (fun b => r < b.1) then some (r,i) else best
  | none => best

variable (rank) in
def leastFrom : Nat → List α → Option (ρ × Nat) → Option (ρ × Nat)
  | i,a :: b :: rest,best => leastFrom (i+1) (b :: rest) (better (rank a b) i best)
  | _,_,best => best

theorem better_below {n : Nat} {best : Option (ρ × Nat)} {a b : α} {rest : List α} (row : xs.drop n = a :: b :: rest)
    (below : BestBelow rank xs n best) : BestBelow rank xs (n+1) (better (rank a b) n best) := by
  have here : ∀ r, RankAt rank xs n r ↔ rank a b = some r := fun r => rankAt_drop row
  cases found : rank a b with
  | none =>
    cases best with
    | none =>
      intro j low r ranked
      rcases Nat.lt_succ_iff_lt_or_eq.mp low with earlier | rfl
      · exact below j earlier r ranked
      · simp [here,found] at ranked
    | some best =>
      obtain ⟨low,ranked,least⟩ := below
      refine ⟨by omega,ranked,fun j low' r' ranked' => ?_⟩
      rcases Nat.lt_succ_iff_lt_or_eq.mp low' with earlier | rfl
      · exact least j earlier r' ranked'
      · simp [here,found] at ranked'
  | some r =>
    have now : RankAt rank xs n r := (here r).mpr found
    have only : ∀ r', RankAt rank xs n r' → r' = r := fun r' ranked => by
      rw [here,found] at ranked
      exact (Option.some.inj ranked).symm
    cases best with
    | none =>
      refine ⟨by omega,now,fun j low' r' ranked' => ?_⟩
      rcases Nat.lt_succ_iff_lt_or_eq.mp low' with earlier | rfl
      · exact absurd ranked' (below j earlier r')
      · exact .inr ⟨(only r' ranked').symm,le_rfl⟩
    | some best =>
      obtain ⟨low,ranked,least⟩ := below
      by_cases less : r < best.1
      · have new : better (some r) n (some best) = some (r,n) := by simp [better,less]
        rw [new]
        refine ⟨by omega,now,fun j low' r' ranked' => ?_⟩
        rcases Nat.lt_succ_iff_lt_or_eq.mp low' with earlier | rfl
        · rcases least j earlier r' ranked' with more | ⟨same,_⟩
          · exact .inl (less.trans more)
          · exact .inl (same ▸ less)
        · exact .inr ⟨(only r' ranked').symm,le_rfl⟩
      · have old : better (some r) n (some best) = some best := by simp [better,less]
        rw [old]
        refine ⟨by omega,ranked,fun j low' r' ranked' => ?_⟩
        rcases Nat.lt_succ_iff_lt_or_eq.mp low' with earlier | rfl
        · exact least j earlier r' ranked'
        · rw [only r' ranked']
          rcases lt_or_eq_of_le (not_lt.mp less) with more | same
          · exact .inl more
          · exact .inr ⟨same,by omega⟩

theorem leastFrom_below (ys : List α) : ∀ n best, xs.drop n = ys → BestBelow rank xs n best →
    BestBelow rank xs xs.length (leastFrom rank n ys best) := by
  have last : ∀ n best, xs.length ≤ n+1 → BestBelow rank xs n best → BestBelow rank xs xs.length best := by
    intro n best short below
    cases best with
    | none =>
      intro j _ r ranked
      have inside := ranked.inside
      exact below j (by omega) r ranked
    | some best =>
      obtain ⟨low,ranked,least⟩ := below
      have inside := ranked.inside
      refine ⟨by omega,ranked,fun j _ r' ranked' => ?_⟩
      have inside' := ranked'.inside
      exact least j (by omega) r' ranked'
  induction ys with
  | nil =>
    intro n best row below
    exact last n best (by have := List.drop_eq_nil_iff.mp row; omega) below
  | cons a rest ih =>
    intro n best row below
    have next : xs.drop (n+1) = rest := by rw [← List.drop_drop,row]; rfl
    cases rest with
    | nil => exact last n best (List.drop_eq_nil_iff.mp next) below
    | cons b rest => exact ih (n+1) _ next (better_below row below)

theorem leastFrom_best : BestBelow rank xs xs.length (leastFrom rank 0 xs none) :=
  leastFrom_below xs 0 none rfl fun _ below => absurd below (Nat.not_lt_zero _)

variable (rank join) in
inductive Merged : List α → List α → Prop
  | unranked {xs : List α} : (∀ i r, ¬RankAt rank xs i r) → Merged xs xs
  | unjoined {xs : List α} {i : Nat} {r : ρ} : Best rank xs i r → joinAt join xs i = none → Merged xs xs
  | step {xs ys zs : List α} {i : Nat} {r : ρ} : Best rank xs i r → joinAt join xs i = some ys → Merged ys zs → Merged xs zs

theorem Merged.unique (merged : Merged rank join xs ys) (merged' : Merged rank join xs zs) : ys = zs := by
  induction merged generalizing zs with
  | unranked none' =>
    cases merged' with
    | unranked => rfl
    | unjoined => rfl
    | step best => exact absurd best.2.1 (none' _ _)
  | unjoined best none' =>
    cases merged' with
    | unranked => rfl
    | unjoined => rfl
    | step best' joined =>
      obtain ⟨rfl,_⟩ := best_unique best best'
      simp [joined] at none'
  | step best joined _ ih =>
    cases merged' with
    | unranked none' => exact absurd best.2.1 (none' _ _)
    | unjoined best' none' =>
      obtain ⟨rfl,_⟩ := best_unique best best'
      simp [joined] at none'
    | step best' joined' rest' =>
      obtain ⟨rfl,_⟩ := best_unique best best'
      rw [joined] at joined'
      obtain rfl := Option.some.inj joined'
      exact ih rest'

theorem Merged.flatMap {β : Type} {f : α → List β} (adds : ∀ a b c, join a b = some c → f c = f a++f b)
    (merged : Merged rank join xs ys) : ys.flatMap f = xs.flatMap f := by
  induction merged with
  | unranked => rfl
  | unjoined => rfl
  | step _ joined _ ih => rw [ih,joinAt_flatMap adds joined]

theorem Merged.stops (merged : Merged rank join xs ys) :
    (∀ i r, ¬RankAt rank ys i r) ∨ ∃ i r, Best rank ys i r ∧ joinAt join ys i = none := by
  induction merged with
  | unranked none' => exact .inl none'
  | unjoined best none' => exact .inr ⟨_,_,best,none'⟩
  | step _ _ _ ih => exact ih

end Least

end TinyLlama.Pairs
