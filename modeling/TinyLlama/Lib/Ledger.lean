import Mathlib.Data.List.Perm.Basic
import Mathlib.Tactic

-- A ledger of allocations. A pointer is a number or NULL, and to give NULL back does nothing.
namespace TinyLlama.Allocations

structure Ledger where
  held : List Nat
  next : Nat
deriving Repr,DecidableEq

-- What the allocator refuses is NULL.
def Ledger.alloc (w : Ledger) (granted : Bool) : Option Nat × Ledger :=
  if granted then (some w.next,⟨w.next :: w.held,w.next+1⟩) else (none,w)

def Ledger.free (w : Ledger) (p : Option Nat) : Ledger :=
  match p with
  | none => w
  | some a => {w with held:=w.held.erase a}

def Ledger.freeAll (w : Ledger) (ps : List (Option Nat)) : Ledger := ps.foldl Ledger.free w

theorem alloc_none (w : Ledger) (granted : Bool) : (w.alloc granted).1 = none ↔ granted = false := by
  cases granted <;> simp [Ledger.alloc]

-- The pointers are what is held, each once.
def Owns (ps : List (Option Nat)) (w : Ledger) : Prop := w.held.Perm ps.reduceOption

theorem Owns.perm (owns : Owns ps w) (same : ps.Perm ps') : Owns ps' w := owns.trans (same.filterMap _)

theorem owns_null (ps : List (Option Nat)) (w : Ledger) : Owns (none :: ps) w ↔ Owns ps w := Iff.rfl

theorem owns_nil : Owns [] w ↔ w.held = [] := List.perm_nil

theorem Owns.alloc (owns : Owns ps w) (granted : Bool) : Owns ((w.alloc granted).1 :: ps) (w.alloc granted).2 := by
  cases granted with
  | false => exact (owns_null ps w).mpr owns
  | true => exact List.Perm.cons w.next owns

theorem Owns.free (owns : Owns (p :: ps) w) : Owns ps (w.free p) := by
  cases p with
  | none => exact owns
  | some a =>
    have less := owns.erase a
    change (w.held.erase a).Perm ((a :: ps.reduceOption).erase a) at less
    rwa [List.erase_cons_head] at less

theorem Owns.freeAll (ps : List (Option Nat)) : ∀ {w : Ledger}, Owns (ps++qs) w → Owns qs (w.freeAll ps) := by
  induction ps with
  | nil => exact fun owns => owns
  | cons p ps ih => exact fun owns => ih owns.free

section table
variable {ι : Type} [DecidableEq ι] {keys : List ι} {k : ι} {f : ι → Option Nat} {qs : List (Option Nat)} {w : Ledger}

theorem swap_entry (distinct : keys.Nodup) (listed : k ∈ keys) (f : ι → Option Nat) (p : Option Nat) :
    (p :: keys.map f).Perm (f k :: keys.map (Function.update f k p)) := by
  induction keys with
  | nil => cases listed
  | cons j rest ih =>
    obtain ⟨new,distinct⟩ := List.nodup_cons.mp distinct
    rw [List.map_cons,List.map_cons]
    by_cases here : j = k
    · subst here
      have others : rest.map (Function.update f j p) = rest.map f := by
        refine List.map_congr_left fun i later => Function.update_of_ne ?_ _ _
        rintro rfl
        exact new later
      rw [Function.update_self,others]
      exact List.Perm.swap _ _ _
    · rw [Function.update_of_ne here]
      have later := ih distinct ((List.mem_cons.mp listed).resolve_left fun same => here same.symm)
      exact (List.Perm.swap _ _ _).trans ((later.cons (f j)).trans (List.Perm.swap _ _ _))

theorem Owns.store (distinct : keys.Nodup) (listed : k ∈ keys) (vacant : f k = none) (owns : Owns (keys.map f++qs) w) (granted : Bool) :
    Owns (keys.map (Function.update f k (w.alloc granted).1)++qs) (w.alloc granted).2 := by
  have swapped := (swap_entry distinct listed f (w.alloc granted).1).append_right qs
  rw [vacant] at swapped
  exact (owns_null _ _).mp ((owns.alloc granted).perm swapped)

end table

end TinyLlama.Allocations
