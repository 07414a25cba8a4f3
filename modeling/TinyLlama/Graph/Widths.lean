import Mathlib.Data.List.GetD
import TinyLlama.Graph.Footprint

-- `bytes` are those of the block behind a pointer.
namespace TinyLlama.Graph
open Gguf

inductive Known where
  | tokens (i : Nat)
  | width (i w : Nat)
  | state (k size : Nat)

def Known.Holds (c : ArchConfig) (bytes : Nat → Nat) (g : Graph) : Known → Prop
  | .tokens i => i < g.nodes.length ∧ isInput g.nodes i = true
  | .width i w => i < g.nodes.length ∧ isInput g.nodes i = false ∧ (outDims c g.nodes).getD i 0 = w
  | .state k size => k < g.state.length ∧ bytes (g.state.getD k 0) = size

-- A node on sources of known widths: its own strides are these, its ranges lie in one row,
-- and its state touches in the block. Parameters are u32, and so is the state's index.
structure Agree (c : ArchConfig) (bytes : Nat → Nat) (g : Graph) (node : GraphNode) (od : Nat) : Prop where
  rows : ∀ read ∈ rowReads c node od,
    read.src < g.nodes.length ∧ rowWidth c g read.src = read.stride ∧ read.off+read.len ≤ read.stride
  state : ∀ t ∈ stateTouches node od, ∃ k < g.state.length, node.param 0 = u32 k ∧ 4*(t.1+t.2) ≤ bytes (g.state.getD k 0)

def Sound (c : ArchConfig) (bytes : Nat → Nat) (g : Graph) : Prop :=
  ∀ i node, g.nodes[i]? = some node → Agree c bytes g node ((outDims c g.nodes).getD i 0)

structure Extends (g g' : Graph) : Prop where
  nodes : ∃ added, g'.nodes = g.nodes++added
  state : ∃ added, g'.state = g.state++added

section dims
variable {c : ArchConfig} {bytes : Nat → Nat} {g g' : Graph}

theorem outDims_concat (c : ArchConfig) (nodes : List GraphNode) (node : GraphNode) :
    outDims c (nodes++[node]) = outDims c nodes++[nodeOutDim node (outDims c nodes) c] := by
  rw [outDims,List.foldl_append]
  rfl

theorem outDims_length (c : ArchConfig) (nodes : List GraphNode) : (outDims c nodes).length = nodes.length := by
  induction nodes using List.reverseRecOn with
  | nil => rfl
  | append_singleton nodes node ih => rw [outDims_concat,List.length_append,List.length_append,ih]; rfl

theorem outDims_extend (c : ArchConfig) (nodes added : List GraphNode) (below : i < nodes.length) :
    (outDims c (nodes++added)).getD i 0 = (outDims c nodes).getD i 0 := by
  induction added using List.reverseRecOn with
  | nil => rw [List.append_nil]
  | append_singleton added node ih =>
    rw [← List.append_assoc,outDims_concat,List.getD_append _ _ _ _ (by rw [outDims_length,List.length_append]; omega),ih]

theorem isInput_extend (nodes added : List GraphNode) (below : i < nodes.length) :
    isInput (nodes++added) i = isInput nodes i := by rw [isInput,List.getElem?_append_left below,isInput]

theorem Extends.node (g : Graph) (node : GraphNode) : Extends g {g with nodes:=g.nodes++[node]} :=
  ⟨⟨[node],rfl⟩,⟨[],(List.append_nil _).symm⟩⟩

theorem Extends.holds (more : Extends g g') (f : Known) (holds : f.Holds c bytes g) : f.Holds c bytes g' := by
  obtain ⟨⟨added,nodes⟩,⟨state',states⟩⟩ := more
  cases f with
  | tokens i =>
    refine ⟨by rw [nodes,List.length_append]; have := holds.1; omega,?_⟩
    rw [nodes,isInput_extend _ _ holds.1]
    exact holds.2
  | width i w =>
    refine ⟨by rw [nodes,List.length_append]; have := holds.1; omega,?_,?_⟩
    · rw [nodes,isInput_extend _ _ holds.1]
      exact holds.2.1
    · rw [nodes,outDims_extend _ _ _ holds.1]
      exact holds.2.2
  | state k size =>
    refine ⟨by rw [states,List.length_append]; have := holds.1; omega,?_⟩
    rw [states,List.getD_append _ _ _ _ holds.1]
    exact holds.2

theorem Extends.agree {node : GraphNode} {od : Nat} (more : Extends g g') (agree : Agree c bytes g node od) : Agree c bytes g' node od := by
  obtain ⟨⟨added,nodes⟩,⟨state',states⟩⟩ := more
  refine ⟨fun read listed => ?_,fun t listed => ?_⟩
  · obtain ⟨below,width,inside⟩ := agree.rows read listed
    refine ⟨by rw [nodes,List.length_append]; omega,?_,inside⟩
    rw [rowWidth,nodes,isInput_extend _ _ below,outDims_extend _ _ _ below,← rowWidth]
    exact width
  · obtain ⟨k,below,slot,inside⟩ := agree.state t listed
    refine ⟨k,by rw [states,List.length_append]; omega,slot,?_⟩
    rw [states,List.getD_append _ _ _ _ below]
    exact inside

theorem Known.Holds.row (holds : (Known.width i w).Holds c bytes g) : rowWidth c g i = w := by
  rw [rowWidth,if_neg (by simp [holds.2.1])]
  exact holds.2.2

theorem Known.Holds.token (holds : (Known.tokens i).Holds c bytes g) : rowWidth c g i = 1 := by
  rw [rowWidth,if_pos holds.2]

theorem Sound.concat {node : GraphNode} (sound : Sound c bytes g) (agree : Agree c bytes g node (nodeOutDim node (outDims c g.nodes) c)) :
    Sound c bytes {g with nodes:=g.nodes++[node]} := by
  have more := Extends.node g node
  intro i node' at'
  change (g.nodes++[node])[i]? = some node' at at'
  change Agree c bytes _ node' ((outDims c (g.nodes++[node])).getD i 0)
  rcases lt_or_ge i g.nodes.length with below | beyond
  · rw [List.getElem?_append_left below] at at'
    rw [outDims_extend _ _ _ below]
    exact more.agree (sound i node' at')
  · obtain rfl : i = g.nodes.length := by
      have := (List.getElem?_eq_some_iff.mp at').1
      simp only [List.length_append,List.length_singleton] at this
      omega
    rw [List.getElem?_concat_length] at at'
    cases at'
    rw [outDims_concat,List.getD_append_right _ _ _ _ (by rw [outDims_length]),outDims_length,Nat.sub_self]
    exact more.agree agree

theorem rangesOf_reads (node : GraphNode) (k stride : Nat) (ranges : List (Nat × Nat)) :
    ∀ read ∈ rangesOf node k stride ranges, node.reads read.src = true := by
  intro read listed
  unfold rangesOf at listed
  split at listed
  · cases listed
  · next i at' =>
    obtain ⟨r,_,rfl⟩ := List.mem_map.mp listed
    exact List.contains_iff_mem.mpr (List.mem_of_getElem? (Option.join_eq_some_iff.mp at'))

theorem rowReads_reads (c : ArchConfig) (node : GraphNode) (od : Nat) : ∀ read ∈ rowReads c node od, node.reads read.src = true := by
  have one := rangesOf_reads node
  unfold rowReads
  dsimp only
  split
  · exact fun _ listed => by cases listed
  all_goals first | exact one _ _ _ | refine List.forall_mem_append.mpr ⟨?_,?_⟩
  all_goals first | exact one _ _ _ | refine List.forall_mem_append.mpr ⟨?_,?_⟩
  all_goals exact one _ _ _

theorem rowsRead_lt (op : GraphOp) {base r n : Nat} (fits : base+r ≤ n) : ∀ row ∈ rowsRead op base r n, row < n := by
  intro row listed
  unfold rowsRead at listed
  split at listed
  · exact List.mem_range.mp listed
  · exact List.mem_range.mp listed
  · have := List.mem_range.mp listed
    omega
  · have := List.mem_range.mp listed
    omega
  · obtain ⟨b,below,rfl⟩ := List.mem_map.mp listed
    have := List.mem_range.mp below
    omega

theorem Sound.reads (sound : Sound c bytes g) (some' : 0 < n) (i : Nat) : ∀ a ∈ opReads c g n i, a.Inside c g n := by
  intro a listed
  unfold opReads at listed
  split at listed
  · cases listed
  · next node at' =>
    dsimp only at listed
    split at listed
    · obtain ⟨row,taken,inner⟩ := List.mem_flatMap.mp listed
      obtain ⟨read,present,rfl⟩ := List.mem_map.mp inner
      obtain ⟨_,width,inside⟩ := (sound i node at').rows read present
      have reads := rowReads_reads c node _ read present
      have consumed : isSink g.nodes read.src = false := by
        rw [isSink,List.all_eq_false]
        exact ⟨node,List.mem_of_getElem? at',by simp [reads]⟩
      have below : row < n := rowsRead_lt node.op (by split <;> omega) row taken
      refine ⟨?_,?_,?_⟩
      · change row < rowCount g n read.src
        rw [rowCount,consumed]
        split
        · exact below
        · exact below
      · change row*rowWidth c g read.src ≤ row*read.stride+read.off
        rw [width]
        omega
      · change row*read.stride+read.off+read.len ≤ (row+1)*rowWidth c g read.src
        rw [width,Nat.succ_mul]
        omega
    · cases listed

theorem Sound.touches (sound : Sound c bytes g) (few : g.state.length ≤ 2^32) (i : Nat) :
    ∀ t ∈ opTouches c g i, 4*(t.2.1+t.2.2) ≤ bytes t.1 := by
  intro t listed
  unfold opTouches at listed
  split at listed
  · cases listed
  · next node at' =>
    dsimp only at listed
    split at listed
    · obtain ⟨touch,present,rfl⟩ := List.mem_map.mp listed
      obtain ⟨k,below,slot,inside⟩ := (sound i node at').state touch present
      rw [u32_of_lt (by omega)] at slot
      change 4*(touch.1+touch.2) ≤ bytes (g.state.getD (node.param 0) 0)
      rw [slot]
      exact inside
    · cases listed

end dims

-- A step of a build from known facts, with the facts it adds.
def Keeps (c : ArchConfig) (bytes : Nat → Nat) (K : List Known) (b : Build α) (out : α → List Known) : Prop :=
  ∀ g a g', Sound c bytes g → (∀ f ∈ K, f.Holds c bytes g) → b g = some (a,g') →
    Sound c bytes g' ∧ ∀ f ∈ out a++K, f.Holds c bytes g'

section rules
variable {c : ArchConfig} {bytes : Nat → Nat} {K : List Known}

theorem Keeps.bind {b : Build α} {k : α → Build β} {out : α → List Known} {out' : β → List Known}
    (first : Keeps c bytes K b out) (rest : ∀ a, Keeps c bytes (out a++K) (k a) out') : Keeps c bytes K (b >>= k) out' := by
  intro g r g' sound known run
  obtain ⟨⟨a,g₁⟩,start,later⟩ := Option.bind_eq_some_iff.mp run
  obtain ⟨sound₁,known₁⟩ := first g a g₁ sound known start
  obtain ⟨sound₂,known₂⟩ := rest a g₁ r g' sound₁ known₁ later
  refine ⟨sound₂,fun f listed => known₂ f ?_⟩
  rcases List.mem_append.mp listed with new | old
  · exact List.mem_append_left _ new
  · exact List.mem_append_right _ (List.mem_append_right _ old)

theorem Keeps.pure (a : α) {out : α → List Known} (known : ∀ f ∈ out a, f ∈ K) : Keeps c bytes K (Pure.pure a : Build α) out := by
  intro g r g' sound holds run
  cases run
  refine ⟨sound,fun f listed => ?_⟩
  rcases List.mem_append.mp listed with new | old
  · exact holds f (known f new)
  · exact holds f old

theorem Keeps.less {b : Build α} {out out' : α → List Known} (keeps : Keeps c bytes K b out)
    (fewer : ∀ a, ∀ f ∈ out' a, f ∈ out a++K) : Keeps c bytes K b out' := by
  intro g a g' sound known run
  obtain ⟨sound',known'⟩ := keeps g a g' sound known run
  refine ⟨sound',fun f listed => ?_⟩
  rcases List.mem_append.mp listed with new | old
  · exact known' f (fewer a f new)
  · exact known' f (List.mem_append_right _ old)

theorem Keeps.given {o : Option TensorInfo} {k : TensorInfo → Build β} {out : β → List Known}
    (rest : ∀ t, o = some t → Keeps c bytes K (k t) out) : Keeps c bytes K (Graph.given o >>= k) out := by
  intro g r g' sound known run
  obtain ⟨⟨t,g₁⟩,start,later⟩ := Option.bind_eq_some_iff.mp run
  obtain ⟨t',there,same⟩ := Option.map_eq_some_iff.mp start
  cases same
  exact rest t there g r g' sound known later

theorem Keeps.require {condition : Bool} {k : Unit → Build β} {out : β → List Known}
    (rest : condition = true → Keeps c bytes K (k ()) out) : Keeps c bytes K (Graph.require condition >>= k) out := by
  intro g r g' sound known run
  obtain ⟨⟨_,g₁⟩,start,later⟩ := Option.bind_eq_some_iff.mp run
  unfold Graph.require at start
  split at start
  · rename_i holds
    cases start
    exact rest holds g r g' sound known later
  · cases start

theorem Keeps.get {k : Graph → Build β} {out : β → List Known}
    (rest : ∀ g, Keeps c bytes K (k g) out) : Keeps c bytes K (MonadState.get >>= k) out :=
  fun g r g' sound known run => rest g g r g' sound known run

theorem Keeps.fails {out : α → List Known} : Keeps c bytes K (failure : Build α) out := fun _ _ _ _ _ run => by cases run

theorem graphSetLayer_keeps (layer : Nat) : Keeps c bytes K (graphSetLayer layer) fun _ => [] := by
  intro g a g' sound known run
  cases run
  have more : Extends g {g with curLayer:=layer} := ⟨⟨[],(List.append_nil _).symm⟩,⟨[],(List.append_nil _).symm⟩⟩
  exact ⟨fun i node at' => more.agree (sound i node at'),fun f listed => more.holds f (known f listed)⟩

theorem Keeps.state {ptr : Nat} {k : Nat → Build β} {out : β → List Known}
    (rest : ptr ≠ 0 → ∀ i, Keeps c bytes (.state i (bytes ptr) :: K) (k i) out) : Keeps c bytes K (graphState ptr >>= k) out := by
  intro g r g' sound known run
  obtain ⟨⟨i,g₁⟩,start,later⟩ := Option.bind_eq_some_iff.mp run
  unfold graphState at start
  split at start
  · cases start
  · next some' =>
    cases start
    have more : Extends g {g with state:=g.state++[ptr]} := ⟨⟨[],(List.append_nil _).symm⟩,⟨[ptr],rfl⟩⟩
    have known₁ : ∀ f ∈ .state g.state.length (bytes ptr) :: K, f.Holds c bytes {g with state:=g.state++[ptr]} := by
      intro f listed
      rcases List.mem_cons.mp listed with rfl | old
      · refine ⟨by change _ < (g.state++[ptr]).length; simp,?_⟩
        change bytes ((g.state++[ptr]).getD g.state.length 0) = bytes ptr
        rw [List.getD_append_right _ _ _ _ (Nat.le_refl _),Nat.sub_self]
        rfl
      · exact more.holds f (known f old)
    obtain ⟨sound₂,known₂⟩ := rest some' _ _ r g' (fun i node at' => more.agree (sound i node at')) known₁ later
    refine ⟨sound₂,fun f listed => known₂ f ?_⟩
    rcases List.mem_append.mp listed with new | old
    · exact List.mem_append_left _ new
    · exact List.mem_append_right _ (List.mem_cons_of_mem _ old)

def addedNode (op : GraphOp) (layer : Nat) (src : List Nat) (weights : List (Option TensorInfo)) (params : List Nat) : GraphNode :=
  ⟨op,layer,.cpu,src.map some,weights,params.map u32,0⟩

theorem nodeAdd_keeps {op : GraphOp} {src : List Nat} {weights : List (Option TensorInfo)} {params : List Nat} {w : Nat}
    (computes : op ≠ .input)
    (agrees : ∀ g layer, (∀ f ∈ K, f.Holds c bytes g) →
      nodeOutDim (addedNode op layer src weights params) (outDims c g.nodes) c = w ∧
        Agree c bytes g (addedNode op layer src weights params) w) :
    Keeps c bytes K (nodeAdd op src weights params) fun i => [.width i w] := by
  intro g a g' sound known run
  cases run
  obtain ⟨width,agree⟩ := agrees g g.curLayer known
  rw [← width] at agree
  refine ⟨sound.concat agree,fun f listed => ?_⟩
  rcases List.mem_cons.mp listed with rfl | old
  · refine ⟨?_,?_,?_⟩
    · change _ < (g.nodes++[_]).length
      simp
    · change isInput (g.nodes++[_]) g.nodes.length = false
      rw [isInput,List.getElem?_concat_length]
      simp [computes]
    · change (outDims c (g.nodes++[_])).getD g.nodes.length 0 = w
      rw [outDims_concat,List.getD_append_right _ _ _ _ (by rw [outDims_length]),outDims_length,Nat.sub_self]
      exact width
  · exact (Extends.node g _).holds f (known f old)

end rules

end TinyLlama.Graph
