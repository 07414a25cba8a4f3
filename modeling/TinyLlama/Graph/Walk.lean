import TinyLlama.Graph.Reuse

-- graph_compute_locked's walk over the planned slots, and the same walk with a buffer of its own for every node.
namespace TinyLlama.Graph
open Slots Gguf

abbrev Memory (β : Type) := BackendType → Nat → β

-- What runs at the nodes: the bytes a batch binds into input i, and node i's op
-- on the contents of its sources, with the state the ops share.
structure Kernel (β σ : Type) where
  bind : Nat → Nat → β
  eval : Nat → σ → List (Option (List β)) → σ × (Nat → β)

instance (c : Slot) (a : Nat) : Decidable (c.Covers a) := inferInstanceAs (Decidable (_ ∧ _))

def contents (mem : Memory β) (b : BackendType) (c : Slot) : List β := (List.range c.size).map fun k => mem b (c.off+k)

def overwrite (mem : Memory β) (b : BackendType) (c : Slot) (bytes : Nat → β) : Memory β := fun b' a =>
  if b' = b ∧ c.Covers a then bytes (a-c.off) else mem b' a

def isInput (g : List GraphNode) (i : Nat) : Bool := ((g[i]?).map fun node => decide (node.op = .input)).getD false
def sourcesOf (g : List GraphNode) (i : Nat) : List (Option Nat) := ((g[i]?).map GraphNode.src).getD []

structure Walk (β σ : Type) where
  state : σ
  mem : Memory β
  reads : List (List (Option (List β)))

section
variable (g : List GraphNode) (slot : Nat → Slot) (kernel : Kernel β σ)

def bindInput (mem : Memory β) (i : Nat) : Memory β :=
  if isInput g i then overwrite mem (backendOf g i) (slot i) (kernel.bind i) else mem

def walkNode (w : Walk β σ) (i : Nat) : Walk β σ :=
  if isInput g i then w
  else
    let srcs := (sourcesOf g i).map (Option.map fun j => contents w.mem (backendOf g j) (slot j))
    let out := kernel.eval i w.state srcs
    ⟨out.1,overwrite w.mem (backendOf g i) (slot i) out.2,w.reads++[srcs]⟩

-- The token ids go into the input slots before the walk, which passes over them.
def graphWalk (state : σ) (mem : Memory β) : Walk β σ :=
  (List.range g.length).foldl (walkNode g slot kernel)
    ⟨state,(List.range g.length).foldl (bindInput g slot kernel) mem,[]⟩

end

-- The node whose slot is copied to the logits.
def sinkNode (g : List GraphNode) : Option Nat := (List.range g.length).find? fun i => isSink g i && !isInput g i

structure PrivateWalk (β σ : Type) where
  state : σ
  value : List (List β)
  reads : List (List (Option (List β)))

section
variable (g : List GraphNode) (size : Nat → Nat) (kernel : Kernel β σ)

def privateNode (w : PrivateWalk β σ) (i : Nat) : PrivateWalk β σ :=
  if isInput g i then {w with value:=w.value++[(List.range (size i)).map (kernel.bind i)]}
  else
    let srcs := (sourcesOf g i).map (Option.map fun j => w.value.getD j [])
    let out := kernel.eval i w.state srcs
    ⟨out.1,w.value++[(List.range (size i)).map out.2],w.reads++[srcs]⟩

def privateTo (state : σ) (n : Nat) : PrivateWalk β σ := (List.range n).foldl (privateNode g size kernel) ⟨state,[],[]⟩

end

-- What every builder makes.
structure WellBuilt (g : List GraphNode) : Prop where
  back : ∀ i j, some j ∈ sourcesOf g i → j < i
  inputs : ∃ m, ∀ i < g.length, isInput g i = true ↔ i < m
  last : ∀ i < g.length, isInput g i = false → (isSink g i = true ↔ i+1 = g.length)
  some : ∃ i < g.length, isInput g i = false

variable {g : List GraphNode} {c : ArchConfig} {nUbatch : Nat}

theorem contents_overwrite (mem : Memory β) (b : BackendType) (slot : Slot) (bytes : Nat → β) :
    contents (overwrite mem b slot bytes) b slot = (List.range slot.size).map bytes := by
  refine List.map_congr_left fun k listed => ?_
  have below := List.mem_range.mp listed
  have covered : slot.Covers (slot.off+k) := ⟨Nat.le_add_right _ _,Nat.add_lt_add_left below _⟩
  rw [overwrite,if_pos ⟨rfl,covered⟩,Nat.add_sub_cancel_left]

theorem contents_frame (mem : Memory β) (bytes : Nat → β) (apart : b' = b → Apart slot' slot) :
    contents (overwrite mem b slot bytes) b' slot' = contents mem b' slot' := by
  refine List.map_congr_left fun k listed => ?_
  have below := List.mem_range.mp listed
  have covered : slot'.Covers (slot'.off+k) := ⟨Nat.le_add_right _ _,Nat.add_lt_add_left below _⟩
  exact if_neg fun ⟨same,inside⟩ => apart same _ covered inside

-- Every value still to be read is where its node left it.
def Kept (g : List GraphNode) (c : ArchConfig) (nUbatch i : Nat) (mem : Memory β) (value : List (List β)) : Prop :=
  ∀ j < i, i ≤ release g j+1 → contents mem (backendOf g j) (planSlot g c nUbatch j) = value.getD j []

theorem Kept.place {mem : Memory β} (kept : Kept g c nUbatch i mem value) (fits : Fits g c nUbatch) (below : i < g.length)
    (length : value.length = i) (bytes : Nat → β) :
    Kept g c nUbatch (i+1) (overwrite mem (backendOf g i) (planSlot g c nUbatch i) bytes)
      (value++[(List.range (need g c nUbatch i)).map bytes]) := by
  intro j earlier late
  by_cases same : j = i
  · subst same
    rw [contents_overwrite]
    simp [length,planSlot,Sweep.slot]
  · have before : j < i := by omega
    rw [contents_frame mem bytes (planSlot_apart fits before below (by omega)),kept j before (by omega)]
    simp [List.getElem?_append_left (show j < value.length by omega)]

theorem Kept.sources {mem : Memory β} (kept : Kept g c nUbatch i mem value) (built : WellBuilt g) :
    (sourcesOf g i).map (Option.map fun j => contents mem (backendOf g j) (planSlot g c nUbatch j)) =
      (sourcesOf g i).map (Option.map fun j => value.getD j []) := by
  refine List.map_congr_left fun src listed => ?_
  cases src with
  | none => rfl
  | some j =>
    have below := built.back i j listed
    have reads : i ≤ release g j := by
      unfold sourcesOf at listed
      cases found : g[i]? with
      | none => simp [found] at listed
      | some node =>
        refine release_reads found (List.elem_eq_true_of_mem ?_)
        simpa [found] using listed
    simp only [Option.map_some]
    rw [kept j below (by omega)]

section
variable (kernel : Kernel β σ) (state : σ) (mem : Memory β)

theorem privateTo_succ (size : Nat → Nat) (n : Nat) :
    privateTo g size kernel state (n+1) = privateNode g size kernel (privateTo g size kernel state n) n := by
  rw [privateTo,List.range_succ,List.foldl_append]
  rfl

theorem privateTo_length (size : Nat → Nat) (n : Nat) : (privateTo g size kernel state n).value.length = n := by
  induction n with
  | zero => rfl
  | succ n ih =>
    rw [privateTo_succ,privateNode]
    split
    · simp [ih]
    · simp [ih]

theorem bind_kept (fits : Fits g c nUbatch) (first : ∀ i < g.length, isInput g i = true ↔ i < m)
    (n : Nat) (upto : n ≤ g.length) : Kept g c nUbatch (min n m)
      ((List.range n).foldl (bindInput g (planSlot g c nUbatch) kernel) mem)
      (privateTo g (need g c nUbatch) kernel state (min n m)).value ∧
    (privateTo g (need g c nUbatch) kernel state (min n m)).state = state ∧
    (privateTo g (need g c nUbatch) kernel state (min n m)).reads = [] := by
  induction n with
  | zero => simp [Kept,privateTo]
  | succ n ih =>
    obtain ⟨kept,states,reads⟩ := ih (by omega)
    rw [List.range_succ,List.foldl_append,List.foldl_cons,List.foldl_nil]
    by_cases input : isInput g n = true
    · have inside := (first n upto).mp input
      rw [show min (n+1) m = n+1 by omega,privateTo_succ,privateNode,if_pos input,bindInput,if_pos input]
      rw [show min n m = n by omega] at kept states reads
      exact ⟨kept.place fits upto (privateTo_length kernel state _ n) _,states,reads⟩
    · have beyond : ¬n < m := fun inside => input ((first n upto).mpr inside)
      rw [show min (n+1) m = min n m by omega,bindInput,if_neg input]
      exact ⟨kept,states,reads⟩

theorem walk_kept (built : WellBuilt g) (fits : Fits g c nUbatch) (first : ∀ i < g.length, isInput g i = true ↔ i < m)
    (start : Memory β) (bound : Kept g c nUbatch m start (privateTo g (need g c nUbatch) kernel state m).value)
    (fresh : (privateTo g (need g c nUbatch) kernel state m).state = state ∧
      (privateTo g (need g c nUbatch) kernel state m).reads = []) (n : Nat) (upto : n ≤ g.length) :
    let w := (List.range n).foldl (walkNode g (planSlot g c nUbatch) kernel) ⟨state,start,[]⟩
    let p := privateTo g (need g c nUbatch) kernel state (max n m)
    w.state = p.state ∧ w.reads = p.reads ∧ Kept g c nUbatch (max n m) w.mem p.value := by
  induction n with
  | zero =>
    rw [show max 0 m = m by omega]
    exact ⟨fresh.1.symm,fresh.2.symm,bound⟩
  | succ n ih =>
    obtain ⟨states,reads,kept⟩ := ih (by omega)
    rw [List.range_succ,List.foldl_append,List.foldl_cons,List.foldl_nil]
    by_cases input : isInput g n = true
    · have inside := (first n upto).mp input
      simp only [walkNode,if_pos input]
      rw [show max (n+1) m = max n m by omega]
      exact ⟨states,reads,kept⟩
    · have beyond : ¬n < m := fun inside => input ((first n upto).mpr inside)
      rw [show max n m = n by omega] at states reads kept
      have same := kept.sources built
      rw [show max (n+1) m = n+1 by omega,privateTo_succ]
      simp only [walkNode,privateNode,if_neg input,same,states,reads]
      exact ⟨trivial,trivial,kept.place fits upto (privateTo_length kernel state _ n) _⟩

end

-- What slot reuse must not change, and why it does not.
structure ReuseSafe (g : List GraphNode) (c : ArchConfig) (nUbatch : Nat) (kernel : Kernel β σ) (start : σ)
    (mem : Memory β) : Prop where
  reads : (graphWalk g (planSlot g c nUbatch) kernel start mem).reads =
    (privateTo g (need g c nUbatch) kernel start g.length).reads
  state : (graphWalk g (planSlot g c nUbatch) kernel start mem).state =
    (privateTo g (need g c nUbatch) kernel start g.length).state
  sink : ∃ i, sinkNode g = some i ∧
    contents (graphWalk g (planSlot g c nUbatch) kernel start mem).mem (backendOf g i) (planSlot g c nUbatch i) =
      (privateTo g (need g c nUbatch) kernel start g.length).value.getD i []
  apart : ∀ i < g.length, ∀ j ≤ i, ∀ k ≤ i, j ≠ k → i ≤ release g j → i ≤ release g k → backendOf g j = backendOf g k →
    Apart (planSlot g c nUbatch j) (planSlot g c nUbatch k)
  inside : ∀ i < g.length,
    (planSlot g c nUbatch i).off+(planSlot g c nUbatch i).size ≤ (arenaPlan g c nUbatch).bump (backendOf g i)
  fits : ∀ i < g.length, outBytes g c nUbatch i ≤ (planSlot g c nUbatch i).size

theorem sinkNode_last (built : WellBuilt g) : sinkNode g = some (g.length-1) := by
  obtain ⟨m,first⟩ := built.inputs
  obtain ⟨i,below,other⟩ := built.some
  have beyond : ¬i < m := fun inside => by simp [(first i below).mpr inside] at other
  have end' : isInput g (g.length-1) = false := by
    rw [Bool.eq_false_iff]
    intro input
    have inside := (first _ (by omega)).mp input
    omega
  refine List.find?_range_eq_some.mpr ⟨?_,List.mem_range.mpr (by omega),fun j earlier => ?_⟩
  · simp [end',(built.last _ (by omega) end').mpr (by omega)]
  · by_cases input : isInput g j = true
    · simp [input]
    · have free : isInput g j = false := by simpa using input
      have read : ¬isSink g j = true := fun sink => by
        have final := (built.last j (by omega) free).mp sink
        omega
      simp [read]

theorem slot_reuse_safe (g : List GraphNode) (c : ArchConfig) (nUbatch : Nat) (kernel : Kernel β σ) (start : σ)
    (mem : Memory β) (built : WellBuilt g) (fits : Fits g c nUbatch) : ReuseSafe g c nUbatch kernel start mem := by
  obtain ⟨m,first⟩ : ∃ m, m ≤ g.length ∧ ∀ i < g.length, isInput g i = true ↔ i < m := by
    obtain ⟨m,first⟩ := built.inputs
    exact ⟨min m g.length,by omega,fun i below => (first i below).trans (by omega)⟩
  obtain ⟨upto,first⟩ := first
  obtain ⟨bound,fresh⟩ := bind_kept kernel start mem fits first g.length (Nat.le_refl _)
  rw [Nat.min_eq_right upto] at bound fresh
  obtain ⟨states,reads,kept⟩ := walk_kept kernel start built fits first _ bound fresh g.length (Nat.le_refl _)
  rw [Nat.max_eq_left upto] at states reads kept
  have last := sinkNode_last built
  have some' := built.some
  refine ⟨reads,states,⟨_,last,?_⟩,?_,fun i below => planSlot_inside fits below,fun i below => planSlot_fits fits below⟩
  · obtain ⟨_,below,_⟩ := some'
    refine kept _ (by omega) ?_
    have own := release_ge g (g.length-1)
    omega
  · intro i below j upto' k upto'' different lateJ lateK same
    rcases Nat.lt_or_gt_of_ne different with order | order
    · exact planSlot_apart fits order (by omega) (by omega) same
    · exact (planSlot_apart fits order (by omega) (by omega) same.symm).symm

def tinyWeight : TensorInfo := ⟨⟨0,[]⟩,2,[5,2],0,0,none,10,40,0⟩
def tinyNode (op : GraphOp) (src : List (Option Nat)) (weights : List (Option TensorInfo)) (ne : Nat) : GraphNode :=
  ⟨op,0,.cpu,src,weights,[],ne⟩

def tinyGraph : List GraphNode :=
  [tinyNode .input [none] [] 4,tinyNode .embed [some 0] [some tinyWeight] 0,tinyNode .silu [some 1] [] 0,
   tinyNode .add [some 2,some 1] [] 0,tinyNode .silu [some 3] [] 0]

def tinyConfig : ArchConfig := ⟨1,1,2,2,0,2,1,5⟩

def tinyKernel : Kernel Nat Nat :=
  ⟨fun _ k => k,fun i calls srcs => (calls+1,fun k => i+k+(srcs.filterMap id).flatten.sum)⟩

theorem tinyGraph_reuse : ReuseSafe tinyGraph tinyConfig 4 tinyKernel 0 (fun _ _ => 0) ∧
    (planSlot tinyGraph tinyConfig 4 4).off = (planSlot tinyGraph tinyConfig 4 0).off := by
  refine ⟨slot_reuse_safe tinyGraph tinyConfig 4 tinyKernel 0 _ ⟨?_,⟨1,by decide⟩,by decide,⟨4,by decide⟩⟩
    ⟨by decide +kernel,by decide +kernel⟩,by decide +kernel⟩
  intro i j listed
  have back : ∀ i < 5, ∀ j < 5, some j ∈ sourcesOf tinyGraph i → j < i := by decide
  have known : ∀ i < 5, ∀ src ∈ sourcesOf tinyGraph i, ∀ j ∈ src, j < 5 := by decide
  by_cases below : i < 5
  · exact back i below j (known i below _ listed j rfl) listed
  · have past : tinyGraph[i]? = none := List.getElem?_eq_none_iff.mpr (Nat.le_of_not_lt below)
    simp [sourcesOf,past] at listed

end TinyLlama.Graph
