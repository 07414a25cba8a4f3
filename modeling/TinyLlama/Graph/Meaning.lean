import TinyLlama.Lib.Causal
import TinyLlama.Graph.Execute

-- What a graph says of a stream of tokens, position by position, with neither batches, slots and backends nor a cache.
namespace TinyLlama.Graph
open Gguf Causal

variable {β K : Type}

-- The keys or values of a layer that a batch may read: those up to its last position.
abbrev Seen (K : Type) := Nat → Nat → Nat → Option K

-- The ops on one position: their weights and parameters, the position, the sources' rows. The
-- first parameter of an attention or a recurrent node, which names its cache, is left out.
structure Meaning (β K : Type) where
  ids : Nat → List β
  floats : List β → Nat → K
  plain : GraphOp → List (Option TensorInfo) → List Nat → Nat → List (Option (List β)) → List β
  attend : List Nat → Nat → List (Option (List β)) → Seen K → Seen K → List β
  advance : GraphOp → List (Option TensorInfo) → List Nat → Nat → List (Option (List β)) → (Nat → K) → (Nat → K) × List β
  fresh : Nat → K

def GraphOp.recurrent (op : GraphOp) : Bool := op = .ssmConv ∨ op = .ssmDelta ∨ op = .mamba2Conv ∨ op = .mamba2Scan

def rowsAt (xs : List (Option (Stream (List β)))) (q : Nat) : List (Option (List β)) := xs.map (Option.map fun x => x q)

def sourceStream (xs : List (Option (Stream (List β)))) (k : Nat) : Stream (List β) := (xs.getD k none).getD fun _ => []

def seenBelow (c : ArchConfig) (limit : Nat) (cell : Nat → Nat → Nat → K) : Seen K := fun h s d =>
  if h < c.nKvHead ∧ s < limit ∧ d < c.kvHeadDim then some (cell h s d) else none

namespace Meaning
variable (M : Meaning β K) (c : ArchConfig) (tok : Nat → Nat)

def cell (x : Stream (List β)) (h s d : Nat) : K := M.floats (x s) (h*c.kvHeadDim+d)

def stateOf (op : GraphOp) (weights : List (Option TensorInfo)) (params : List Nat) (xs : List (Option (Stream (List β)))) : Nat → Nat → K :=
  stateAfter (fun q rows state => (M.advance op weights params.tail q rows state).1) M.fresh (rowsAt xs)

def stream (op : GraphOp) (weights : List (Option TensorInfo)) (params : List Nat) (xs : List (Option (Stream (List β)))) :
    Stream (List β) := fun q =>
  if op = .input then M.ids (tok q)
  else if op = .attn then
    M.attend params.tail q (rowsAt xs q) (seenBelow c (q+1) (M.cell c (sourceStream xs 1))) (seenBelow c (q+1) (M.cell c (sourceStream xs 2)))
  else if op.recurrent then (M.advance op weights params.tail q (rowsAt xs q) (M.stateOf op weights params xs q)).2
  else M.plain op weights params q (rowsAt xs q)

def nodeStream (vs : List (Stream (List β))) (node : GraphNode) : Stream (List β) :=
  M.stream c tok node.op node.weights node.params (node.src.map fun src => src.bind fun j => vs[j]?)

def output (g : List GraphNode) (i : Nat) : Stream (List β) := ((table (M.nodeStream c tok) g)[i]?).getD fun _ => []

end Meaning

section streams
variable {M : Meaning β K} {c : ArchConfig} {tok tok' : Nat → Nat} {g : List GraphNode} {i : Nat}

theorem output_get (below : i < g.length) : (table (M.nodeStream c tok) g)[i]? = some (M.output c tok g i) := by
  have inside : i < (table (M.nodeStream c tok) g).length := by rwa [table_length]
  rw [Meaning.output,List.getElem?_eq_getElem inside]
  rfl

theorem output_append (added : List GraphNode) (below : i < g.length) : M.output c tok (g++added) i = M.output c tok g i := by
  rw [Meaning.output,table_extend g added (output_get below)]
  rfl

theorem output_node {node : GraphNode} (there : g[i]? = some node) (back : ∀ j,some j ∈ node.src → j < i) :
    M.output c tok g i = M.stream c tok node.op node.weights node.params (node.src.map (Option.map (M.output c tok g))) := by
  have below := (List.getElem?_eq_some_iff.mp there).1
  rw [Meaning.output,table_get there]
  change M.stream c tok _ _ _ _ = _
  congr 1
  apply List.map_congr_left
  intro src listed
  cases src with
  | none => rfl
  | some j =>
    have earlier := back j listed
    change (table (M.nodeStream c tok) (g.take i))[j]? = some (M.output c tok g j)
    rw [← table_take,List.getElem?_take_of_lt earlier]
    exact output_get (earlier.trans below)

theorem rowsAt_upto {q : Nat} {xs ys : List (Option (Stream (List β)))} (same : List.Forall₂ (Option.Rel (Upto q)) xs ys) :
    rowsAt xs q = rowsAt ys q := by
  induction same with
  | nil => rfl
  | cons one _ ih =>
    cases one with
    | some upto => exact congrArg₂ List.cons (congrArg some (upto q le_rfl)) ih
    | none => exact congrArg (List.cons none) ih

theorem rel_earlier {q p : Nat} {xs ys : List (Option (Stream (List β)))} (same : List.Forall₂ (Option.Rel (Upto q)) xs ys)
    (low : p ≤ q) : List.Forall₂ (Option.Rel (Upto p)) xs ys := by
  refine same.imp fun x y one => ?_
  cases one with
  | some upto => exact .some (upto.earlier low)
  | none => exact .none

theorem sourceStream_upto {q : Nat} {xs ys : List (Option (Stream (List β)))} (same : List.Forall₂ (Option.Rel (Upto q)) xs ys)
    (k : Nat) : Upto q (sourceStream xs k) (sourceStream ys k) := by
  induction same generalizing k with
  | nil => exact upto_refl _ _
  | cons one _ ih =>
    cases k with
    | zero =>
      cases one with
      | some upto => exact upto
      | none => exact upto_refl _ _
    | succ k => exact ih k

theorem seenBelow_congr {limit : Nat} {x y : Nat → Nat → Nat → K}
    (same : ∀ h < c.nKvHead,∀ s < limit,∀ d < c.kvHeadDim,x h s d = y h s d) : seenBelow c limit x = seenBelow c limit y := by
  funext h s d
  unfold seenBelow
  split
  · next inside => rw [same h inside.1 s inside.2.1 d inside.2.2]
  · rfl

theorem stream_upto {q : Nat} (tokens : ∀ p ≤ q,tok p = tok' p) (op : GraphOp) (weights : List (Option TensorInfo)) (params : List Nat)
    {xs ys : List (Option (Stream (List β)))} (same : List.Forall₂ (Option.Rel (Upto q)) xs ys) :
    Upto q (M.stream c tok op weights params xs) (M.stream c tok' op weights params ys) := by
  intro p low
  have rows : ∀ r ≤ p,rowsAt xs r = rowsAt ys r := fun r below => rowsAt_upto (rel_earlier same (below.trans low))
  have cells (k : Nat) : seenBelow c (p+1) (M.cell c (sourceStream xs k)) = seenBelow c (p+1) (M.cell c (sourceStream ys k)) := by
    refine seenBelow_congr fun h _ s below d _ => ?_
    rw [Meaning.cell,Meaning.cell,sourceStream_upto same k s (by omega)]
  have state : M.stateOf op weights params xs p = M.stateOf op weights params ys p := stateAfter_upto fun r below => rows r below.le
  rw [Meaning.stream,Meaning.stream,tokens p low,rows p le_rfl,cells 1,cells 2,state]

theorem output_upto {q : Nat} (tokens : ∀ p ≤ q,tok p = tok' p) (i : Nat) : Upto q (M.output c tok g i) (M.output c tok' g i) := by
  have tables : List.Forall₂ (Upto q) (table (M.nodeStream c tok) g) (table (M.nodeStream c tok') g) := by
    refine table_related fun vs vs' node related => stream_upto tokens _ _ _ ?_
    rw [List.forall₂_map_left_iff,List.forall₂_map_right_iff]
    refine List.forall₂_same.mpr fun src _ => ?_
    cases src with
    | none => exact .none
    | some j =>
      change Option.Rel (Upto q) vs[j]? vs'[j]?
      by_cases below : j < vs.length
      · have below' : j < vs'.length := related.length_eq ▸ below
        rw [List.getElem?_eq_getElem below,List.getElem?_eq_getElem below']
        exact .some (related.get below below')
      · have beyond : vs'.length ≤ j := related.length_eq ▸ not_lt.mp below
        rw [List.getElem?_eq_none_iff.mpr (not_lt.mp below),List.getElem?_eq_none_iff.mpr beyond]
        exact .none
  by_cases below : i < g.length
  · have inside : i < (table (M.nodeStream c tok) g).length := by rwa [table_length]
    have inside' : i < (table (M.nodeStream c tok') g).length := by rwa [table_length]
    rw [Meaning.output,Meaning.output,List.getElem?_eq_getElem inside,List.getElem?_eq_getElem inside']
    exact tables.get inside inside'
  · have none' (tok : Nat → Nat) : (table (M.nodeStream c tok) g)[i]? = none :=
      List.getElem?_eq_none_iff.mpr (by rw [table_length]; exact not_lt.mp below)
    rw [Meaning.output,Meaning.output,none' tok,none' tok']
    exact upto_refl _ _

theorem output_congr {g' : List GraphNode} (same : g'.map (fun node => (node.op,node.src,node.weights,node.params)) =
    g.map fun node => (node.op,node.src,node.weights,node.params)) : M.output c tok g' = M.output c tok g := by
  have tables : table (M.nodeStream c tok) g' = table (M.nodeStream c tok) g := by
    have through (g : List GraphNode) : table (M.nodeStream c tok) g =
        table (fun vs (t : GraphOp × List (Option Nat) × List (Option TensorInfo) × List Nat) =>
          M.stream c tok t.1 t.2.2.1 t.2.2.2 (t.2.1.map fun src => src.bind fun j => vs[j]?))
          (g.map fun node => (node.op,node.src,node.weights,node.params)) := by
      rw [table,table,List.foldl_map]
      rfl
    rw [through g',through g,same]
  funext i
  rw [Meaning.output,Meaning.output,tables]

end streams

end TinyLlama.Graph
