import Mathlib.Tactic

-- Networks whose nodes read nodes before them, evaluated from the left; and networks of streams.
namespace TinyLlama.Causal

section Table
variable {V ν : Type} {step : List V → ν → V}

def table (step : List V → ν → V) (nodes : List ν) : List V := nodes.foldl (fun vs node => vs++[step vs node]) []

theorem table_concat (nodes : List ν) (node : ν) : table step (nodes++[node]) = table step nodes++[step (table step nodes) node] := by
  rw [table,List.foldl_append]
  rfl

theorem table_length (nodes : List ν) : (table step nodes).length = nodes.length := by
  induction nodes using List.reverseRecOn with
  | nil => rfl
  | append_singleton nodes node ih => rw [table_concat,List.length_append,List.length_append,ih]; rfl

theorem table_append (nodes added : List ν) : table step nodes <+: table step (nodes++added) := by
  induction added using List.reverseRecOn with
  | nil => rw [List.append_nil]
  | append_singleton added node ih =>
    rw [← List.append_assoc,table_concat]
    exact ih.trans (List.prefix_append _ _)

theorem table_extend (nodes added : List ν) {i : Nat} {v : V} (there : (table step nodes)[i]? = some v) :
    (table step (nodes++added))[i]? = some v := by
  obtain ⟨more,same⟩ : table step nodes <+: table step (nodes++added) := table_append nodes added
  rw [← same,List.getElem?_append_left (List.getElem?_eq_some_iff.mp there).1]
  exact there

theorem table_take (nodes : List ν) (i : Nat) : (table step nodes).take i = table step (nodes.take i) := by
  obtain ⟨more,same⟩ : table step (nodes.take i) <+: table step (nodes.take i++nodes.drop i) := table_append _ _
  rw [List.take_append_drop] at same
  rw [← same]
  by_cases below : i ≤ nodes.length
  · rw [List.take_append_of_le_length (by rw [table_length,List.length_take]; omega),List.take_of_length_le]
    rw [table_length,List.length_take]
    omega
  · rw [List.take_of_length_le (l:=nodes) (by omega)] at same ⊢
    have none' : more = [] := by simpa using congrArg List.length same
    rw [none',List.append_nil,List.take_of_length_le (by rw [table_length]; omega)]

theorem table_get {nodes : List ν} {i : Nat} {node : ν} (there : nodes[i]? = some node) :
    (table step nodes)[i]? = some (step (table step (nodes.take i)) node) := by
  obtain ⟨below,found⟩ := List.getElem?_eq_some_iff.mp there
  have split : nodes = nodes.take i++[node]++nodes.drop (i+1) := by
    rw [← found,List.append_assoc,List.singleton_append,← List.drop_eq_getElem_cons below,List.take_append_drop]
  have own : (table step (nodes.take i++[node]))[i]? = some (step (table step (nodes.take i)) node) := by
    have length : (table step (nodes.take i)).length = i := by
      rw [table_length,List.length_take]
      omega
    rw [table_concat,List.getElem?_append_right (le_of_eq length),length,Nat.sub_self]
    rfl
  have whole : (table step (nodes.take i++[node]++nodes.drop (i+1)))[i]? = _ := table_extend _ _ own
  rwa [← split] at whole

theorem table_related {step' : List V → ν → V} {R : V → V → Prop} {nodes : List ν}
    (keeps : ∀ vs vs' node,List.Forall₂ R vs vs' → R (step vs node) (step' vs' node)) :
    List.Forall₂ R (table step nodes) (table step' nodes) := by
  induction nodes using List.reverseRecOn with
  | nil => exact List.Forall₂.nil
  | append_singleton nodes node ih =>
    rw [table_concat,table_concat]
    exact List.rel_append ih (List.Forall₂.cons (keeps _ _ node ih) List.Forall₂.nil)

end Table

section Streams
variable {V : Type}

abbrev Stream (V : Type) := Nat → V

def Upto (q : Nat) (x y : Stream V) : Prop := ∀ p ≤ q,x p = y p

theorem upto_refl (q : Nat) (x : Stream V) : Upto q x x := fun _ _ => rfl

theorem Upto.earlier {q p : Nat} {x y : Stream V} (upto : Upto q x y) (low : p ≤ q) : Upto p x y := fun r below => upto r (below.trans low)

variable {S : Type}

def stateAfter (advance : Nat → V → S → S) (fresh : S) (x : Stream V) : Nat → S
  | 0 => fresh
  | q+1 => advance q (x q) (stateAfter advance fresh x q)

theorem stateAfter_upto {advance : Nat → V → S → S} {fresh : S} {x y : Stream V} {q : Nat} (same : ∀ p < q,x p = y p) :
    stateAfter advance fresh x q = stateAfter advance fresh y q := by
  induction q with
  | zero => rfl
  | succ q ih => rw [stateAfter,stateAfter,same q (Nat.lt_succ_self q),ih fun p below => same p (by omega)]

theorem stateAfter_add (advance : Nat → V → S → S) (fresh : S) (x : Stream V) (q n : Nat) : stateAfter advance fresh x (q+n) =
    stateAfter (fun r => advance (q+r)) (stateAfter advance fresh x q) (fun r => x (q+r)) n := by
  induction n with
  | zero => rfl
  | succ n ih => rw [← Nat.add_assoc,stateAfter,stateAfter,ih]

end Streams

end TinyLlama.Causal
