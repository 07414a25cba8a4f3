import Mathlib.Tactic
import Mathlib.Combinatorics.Enumerative.DoubleCounting

-- Linear probing in a ring of `cap` slots.
namespace TinyLlama.Probe

variable {ε κ : Type} (name : ε → κ) (home : κ → Nat) (cap : Nat)

abbrev Slots (ε : Type) := Nat → Option ε

def seat (k : κ) (n : Nat) : Nat := (home k+n) % cap

-- Where the walk for a name may end.
def Stops (slot : Slots ε) (k : κ) (i : Nat) : Prop := ∀ e, slot i = some e → name e = k

def Holds (slot : Slots ε) (e : ε) : Prop := ∃ i, slot i = some e

def occupied (slot : Slots ε) : Finset Nat := (Finset.range cap).filter fun i => (slot i).isSome

-- Every entry can be walked to from its home past entries of other names.
structure Placed (slot : Slots ε) : Prop where
  inside : ∀ i e, slot i = some e → i < cap
  reached : ∀ i e, slot i = some e → ∃ n, seat home cap (name e) n = i ∧
    ∀ m < n, ¬Stops name slot (name e) (seat home cap (name e) m)

theorem seat_next (k : κ) (n : Nat) : (seat home cap k n+1) % cap = seat home cap k (n+1) := by
  simp only [seat,Nat.mod_add_mod,Nat.add_assoc]

theorem seat_onto (positive : 0 < cap) (k : κ) (below : i < cap) : ∃ n < cap, seat home cap k n = i := by
  have home' := Nat.mod_lt (home k) positive
  refine ⟨(i+(cap-home k % cap)) % cap,Nat.mod_lt _ positive,?_⟩
  have whole : home k % cap+(i+(cap-home k % cap)) = i+cap := by omega
  rw [seat,Nat.add_mod_mod,← Nat.mod_add_mod,whole,Nat.add_mod_right,Nat.mod_eq_of_lt below]

theorem placed_empty : Placed name home cap (fun _ => none) :=
  ⟨fun _ _ held => by simp at held,fun _ _ held => by simp at held⟩

variable [DecidableEq κ]

def probe (slot : Slots ε) (k : κ) : Nat → Nat → Option Nat
  | 0,_ => none
  | fuel+1,i =>
    match slot i with
    | none => some i
    | some e => if name e = k then some i else probe slot k fuel ((i+1) % cap)

def find (slot : Slots ε) (k : κ) : Option Nat := probe name cap slot k cap (seat home cap k 0)
def lookup (slot : Slots ε) (k : κ) : Option ε := (find name home cap slot k).bind slot

theorem probe_first (slot : Slots ε) (k : κ) (n : Nat) : ∀ fuel m, n < fuel →
    (∀ j < n, ¬Stops name slot k (seat home cap k (m+j))) → Stops name slot k (seat home cap k (m+n)) →
    probe name cap slot k fuel (seat home cap k m) = some (seat home cap k (m+n)) := by
  induction n with
  | zero =>
    intro fuel m enough _ stops
    obtain ⟨fuel,rfl⟩ : ∃ f, fuel = f+1 := ⟨fuel-1,by omega⟩
    rw [Nat.add_zero] at stops ⊢
    unfold probe
    cases here : slot (seat home cap k m) with
    | none => rfl
    | some e => simp only [if_pos (stops e here),Nat.add_zero]
  | succ n ih =>
    intro fuel m enough walks stops
    obtain ⟨fuel,rfl⟩ : ∃ f, fuel = f+1 := ⟨fuel-1,by omega⟩
    have passed := walks 0 (by omega)
    rw [Nat.add_zero] at passed
    unfold probe
    cases here : slot (seat home cap k m) with
    | none => exact absurd (fun e there => by simp [here] at there) passed
    | some e =>
      have other : name e ≠ k := fun same => passed fun e' there => by
        obtain rfl : e = e' := by simpa [here] using there
        exact same
      simp only [if_neg other]
      have shift : m+(n+1) = m+1+n := by omega
      rw [seat_next,shift]
      refine ih fuel (m+1) (by omega) ?_ (shift ▸ stops)
      intro j below
      have later := walks (j+1) (by omega)
      rwa [show m+(j+1) = m+1+j by omega] at later

theorem some_free (room : (occupied cap slot).card < cap) : ∃ i < cap, slot i = none := by
  by_contra none
  have full : occupied cap slot = Finset.range cap := by
    refine Finset.filter_true_of_mem fun i inside => ?_
    rw [Finset.mem_range] at inside
    cases free : slot i with
    | none => exact absurd ⟨i,inside,free⟩ none
    | some e => rfl
  rw [full,Finset.card_range] at room
  omega

theorem find_first (slot : Slots ε) (room : (occupied cap slot).card < cap) (k : κ) :
    ∃ n, find name home cap slot k = some (seat home cap k n) ∧ Stops name slot k (seat home cap k n) ∧
      ∀ m < n, ¬Stops name slot k (seat home cap k m) := by
  classical
  obtain ⟨i,below,free⟩ := some_free cap room
  obtain ⟨n,within,there⟩ := seat_onto home cap (by omega) k below
  have ends : ∃ n, Stops name slot k (seat home cap k n) := ⟨n,fun e held => by simp [there,free] at held⟩
  have least := Nat.find_min' ends (m:=n) (fun e held => by simp [there,free] at held)
  refine ⟨Nat.find ends,?_,Nat.find_spec ends,fun m below => Nat.find_min ends below⟩
  have walk := probe_first name home cap slot k (Nat.find ends) cap 0 (by omega)
    (fun j below => by rw [Nat.zero_add]; exact Nat.find_min ends below)
    (by rw [Nat.zero_add]; exact Nat.find_spec ends)
  rw [Nat.zero_add] at walk
  exact walk

theorem find_held (placed : Placed name home cap slot) (room : (occupied cap slot).card < cap)
    (held : slot i = some e) : find name home cap slot (name e) = some i := by
  obtain ⟨n,found,stops,walk⟩ := find_first name home cap slot room (name e)
  obtain ⟨n',there,walk'⟩ := placed.reached i e held
  have stops' : Stops name slot (name e) (seat home cap (name e) n') := by
    intro e' held'
    rw [there,held] at held'
    rw [Option.some.inj held']
  have same : n = n' := by
    rcases Nat.lt_trichotomy n n' with before | same | after
    · exact absurd stops (walk' n before)
    · exact same
    · exact absurd stops' (walk n' after)
  rw [found,same,there]

theorem lookup_iff (placed : Placed name home cap slot) (room : (occupied cap slot).card < cap) (k : κ) (e : ε) :
    lookup name home cap slot k = some e ↔ Holds slot e ∧ name e = k := by
  constructor
  · intro found
    obtain ⟨n,searched,stops,_⟩ := find_first name home cap slot room k
    simp only [lookup,searched,Option.bind_some] at found
    exact ⟨⟨_,found⟩,stops e found⟩
  · rintro ⟨⟨i,held⟩,rfl⟩
    simp only [lookup,find_held name home cap placed room held,Option.bind_some,held]

def put (slot : Slots ε) (i : Nat) (e : ε) : Slots ε := fun j => if j = i then some e else slot j

theorem put_placed (placed : Placed name home cap slot) (room : (occupied cap slot).card < cap)
    (found : find name home cap slot (name e) = some i) : Placed name home cap (put slot i e) := by
  obtain ⟨n,searched,stops,walk⟩ := find_first name home cap slot room (name e)
  obtain rfl : seat home cap (name e) n = i := by simpa [searched] using found
  have below : seat home cap (name e) n < cap := Nat.mod_lt _ (by omega)
  have others : ∀ k j, k ≠ name e ∨ j ≠ seat home cap (name e) n → ¬Stops name slot k j →
      ¬Stops name (put slot (seat home cap (name e) n) e) k j := by
    intro k j apart passed stops'
    by_cases here : j = seat home cap (name e) n
    · have same := stops' e (by simp [put,here])
      rcases apart with other | elsewhere
      · exact other same.symm
      · exact elsewhere here
    · exact passed fun e' held => stops' e' (by simp [put,here,held])
  refine ⟨?_,?_⟩
  · intro j e' held
    by_cases here : j = seat home cap (name e) n
    · rw [here]; exact below
    · exact placed.inside j e' (by simpa [put,here] using held)
  · intro j e' held
    by_cases here : j = seat home cap (name e) n
    · obtain rfl : e = e' := by simpa [put,here] using held
      refine ⟨n,here.symm,fun m before => others (name e) _ (.inr fun same => ?_) (walk m before)⟩
      exact walk m before (by rw [same]; exact stops)
    · have held' : slot j = some e' := by simpa [put,here] using held
      have other : name e' ≠ name e := by
        intro same
        have there := find_held name home cap placed room held'
        rw [same,searched] at there
        exact here (Option.some.inj there).symm
      obtain ⟨n',there,walk'⟩ := placed.reached j e' held'
      exact ⟨n',there,fun m before => others _ _ (.inl other) (walk' m before)⟩

theorem put_holds (placed : Placed name home cap slot) (room : (occupied cap slot).card < cap)
    (found : find name home cap slot (name e) = some i) (e' : ε) :
    Holds (put slot i e) e' ↔ e' = e ∨ (Holds slot e' ∧ name e' ≠ name e) := by
  constructor
  · rintro ⟨j,held⟩
    by_cases here : j = i
    · exact .inl (by simpa [put,here,eq_comm] using held)
    · have held' : slot j = some e' := by simpa [put,here] using held
      refine .inr ⟨⟨j,held'⟩,fun same => ?_⟩
      have there := find_held name home cap placed room held'
      rw [same,found] at there
      exact here (Option.some.inj there).symm
  · rintro (rfl | ⟨⟨j,held⟩,other⟩)
    · exact ⟨i,by simp [put]⟩
    · refine ⟨j,?_⟩
      have elsewhere : j ≠ i := by
        rintro rfl
        obtain ⟨n,searched,stops,_⟩ := find_first name home cap slot room (name e)
        obtain rfl : seat home cap (name e) n = j := by simpa [searched] using found
        exact other (stops e' held)
      simp [put,elsewhere,held]

theorem put_occupied (slot : Slots ε) (e : ε) (below : i < cap) :
    (occupied cap (put slot i e)).card = (occupied cap slot).card+(if (slot i).isSome then 0 else 1) := by
  have grown : occupied cap (put slot i e) = insert i (occupied cap slot) := by
    ext j
    simp only [occupied,Finset.mem_filter,Finset.mem_insert,Finset.mem_range]
    by_cases here : j = i <;> simp [put,here,below]
  rw [grown]
  cases held : slot i with
  | none =>
    rw [Finset.card_insert_of_notMem (by simp [occupied,held])]
    rfl
  | some e' =>
    rw [Finset.insert_eq_of_mem (by simp [occupied,held,below])]
    rfl

theorem occupied_le_names (placed : Placed name home cap slot) (room : (occupied cap slot).card < cap) (names : Finset κ)
    (known : ∀ e, Holds slot e → name e ∈ names) : (occupied cap slot).card ≤ names.card := by
  refine Finset.card_le_card_of_forall_subsingleton (fun i k => ∃ e, slot i = some e ∧ name e = k) (fun i member => ?_) fun k _ => ?_
  · obtain ⟨e,held⟩ := Option.isSome_iff_exists.mp (Finset.mem_filter.mp member).2
    exact ⟨name e,known e ⟨i,held⟩,e,held,rfl⟩
  · rintro i ⟨_,e,held,rfl⟩ j ⟨_,e',held',same⟩
    have here := find_held name home cap placed room held
    rw [← same,find_held name home cap placed room held'] at here
    exact (Option.some.inj here).symm

theorem occupied_empty : (occupied cap (fun _ => none : Slots ε)).card = 0 := by simp [occupied]

end TinyLlama.Probe
