import Mathlib.Data.List.GetD
import TinyLlama.Graph.Mamba
import TinyLlama.Lib.Facts

-- graph.c: the backend of every layer and of every node in a CUDA build.
namespace TinyLlama.Graph
open Gguf Facts

def layerOnGpu (s : Session) (layer : Nat) : Bool :=
  !(s.nGpuLayers ≤ 0) && (s.nGpuLayers.toNat ≥ s.cfg.nLayer || layer < s.nGpuLayers.toNat)

def graphLayerBackend (s : Session) (layer : Nat) : BackendType := if layerOnGpu s layer then .cuda else .cpu

-- n_gpu_layers as assign_backends leaves it in the session.
def clampedLayers (s : Session) : Int :=
  let ngl := if s.nGpuLayers < 0 then 0 else s.nGpuLayers
  if ngl.toNat > s.cfg.nLayer then s.cfg.nLayer else ngl

def backendType : Nat → BackendType
  | 0 => .cpu
  | 1 => .cuda
  | _ => .metal

def layerBackend (s : Session) (layer : Nat) : BackendType :=
  let ngl := clampedLayers s
  if ngl > 0 ∧ (ngl.toNat ≥ s.cfg.nLayer ∨ layer < ngl.toNat) then .cuda else .cpu

def assignedBackend (s : Session) (n : GraphNode) : BackendType :=
  if n.op = .h2d ∨ n.op = .d2h then backendType (n.param 0) else layerBackend s n.layer

def assignBackends (s : Session) (nodes : List GraphNode) : List GraphNode :=
  nodes.map fun n => {n with backend := assignedBackend s n}

def GraphOp.isCopy (op : GraphOp) : Bool := op = .h2d ∨ op = .d2h

-- The ops that use a borrowed state buffer, params[0] being its index.
def GraphOp.stateful : GraphOp → Bool
  | .ssmConv | .ssmDelta | .mamba2Conv | .mamba2Scan => true
  | _ => false

section layers
variable {s : Session} {l : Nat}

def Splits (s : Session) : Prop := 0 < s.nGpuLayers ∧ s.nGpuLayers.toNat < s.cfg.nLayer

instance (s : Session) : Decidable (Splits s) := inferInstanceAs (Decidable (_ ∧ _))

theorem layerBackend_cuda : layerBackend s l = .cuda ↔
    0 < s.nGpuLayers ∧ 0 < s.cfg.nLayer ∧ (s.nGpuLayers.toNat ≥ s.cfg.nLayer ∨ l < s.nGpuLayers.toNat) := by
  have either : ∀ p : Prop,[Decidable p] → ((if p then BackendType.cuda else .cpu) = .cuda ↔ p) := by
    intro p _
    by_cases holds : p <;> simp [holds]
  unfold layerBackend clampedLayers
  dsimp only
  rw [either]
  split <;> split <;> omega

theorem graphLayerBackend_cuda : graphLayerBackend s l = .cuda ↔
    0 < s.nGpuLayers ∧ (s.nGpuLayers.toNat ≥ s.cfg.nLayer ∨ l < s.nGpuLayers.toNat) := by
  have device : layerOnGpu s l = true ↔ 0 < s.nGpuLayers ∧ (s.nGpuLayers.toNat ≥ s.cfg.nLayer ∨ l < s.nGpuLayers.toNat) := by
    rw [layerOnGpu,Bool.and_eq_true,Bool.or_eq_true,decide_eq_true_iff,decide_eq_true_iff,Bool.not_eq_true',decide_eq_false_iff_not]
    exact and_congr_left' (Int.not_le)
  rw [← device,graphLayerBackend]
  split
  · next on => exact ⟨fun _ => on,fun _ => rfl⟩
  · next off => exact ⟨fun same => (by cases same),fun on => absurd on off⟩

theorem layerBackend_cpu : layerBackend s l ≠ .cuda → layerBackend s l = .cpu := by
  unfold layerBackend
  intro other
  dsimp only at other ⊢
  split
  · next gpu => exact absurd (if_pos gpu) other
  · rfl

theorem graphLayerBackend_eq (below : l < s.cfg.nLayer) : graphLayerBackend s l = layerBackend s l := by
  by_cases gpu : layerBackend s l = .cuda
  · have device := layerBackend_cuda.mp gpu
    rw [gpu]
    exact graphLayerBackend_cuda.mpr ⟨device.1,device.2.2⟩
  · have host : ¬ layerOnGpu s l = true := by
      intro device
      have both := graphLayerBackend_cuda.mp (if_pos device)
      exact gpu (layerBackend_cuda.mpr ⟨both.1,by omega,both.2⟩)
    rw [layerBackend_cpu gpu,graphLayerBackend,if_neg host]

def Border (s : Session) (l : Nat) : Prop := Splits s ∧ l+1 = s.nGpuLayers.toNat

instance (s : Session) (l : Nat) : Decidable (Border s l) := inferInstanceAs (Decidable (_ ∧ _))

theorem layerBackend_next (inner : ¬ Border s l) : layerBackend s (l+1) = layerBackend s l := by
  have same : layerBackend s (l+1) = .cuda ↔ layerBackend s l = .cuda := by
    rw [layerBackend_cuda,layerBackend_cuda]
    unfold Border Splits at inner
    omega
  by_cases gpu : layerBackend s l = .cuda
  · rw [gpu,same.mpr gpu]
  · rw [layerBackend_cpu gpu,layerBackend_cpu fun next => gpu (same.mp next)]

theorem layerBackend_border (border : Border s l) : layerBackend s l = .cuda ∧ layerBackend s (l+1) = .cpu := by
  obtain ⟨⟨some',fewer⟩,last⟩ := border
  refine ⟨layerBackend_cuda.mpr (by omega),layerBackend_cpu fun gpu => ?_⟩
  have device := layerBackend_cuda.mp gpu
  omega

end layers

-- A place that a builder knows: a node with its backend, or a state with its buffer's.
inductive Place where
  | node (i : Nat) (b : BackendType)
  | state (k : Nat) (b : BackendType)

def Place.Holds (s : Session) (own : Nat → Option BackendType) (f : Place) (g : Graph) : Prop :=
  match f with
  | .node i b => ∃ n,g.nodes[i]? = some n ∧ assignedBackend s n = b
  | .state k b => k < g.state.length ∧ own (g.state.getD k 0) = some b

-- A node whose sources and state are where it runs, and a copy from the device to the host.
structure Settled (s : Session) (own : Nat → Option BackendType) (g : Graph) (n : GraphNode) : Prop where
  sources : ∀ i ∈ n.sources,(Place.node i (if n.op = .d2h then .cuda else assignedBackend s n)).Holds s own g
  copy : n.op = .d2h → assignedBackend s n = .cpu
  upload : n.op ≠ .h2d
  state : n.op.stateful = true → ∃ k,n.param 0 = u32 k ∧ (Place.state k (assignedBackend s n)).Holds s own g

def downloads (nodes : List GraphNode) : Nat := nodes.countP fun n => n.op = .d2h

structure Split (s : Session) (own : Nat → Option BackendType) (copies : Nat) (g : Graph) : Prop where
  nodes : ∀ n ∈ g.nodes,Settled s own g n
  copies : downloads g.nodes = copies

def SplitAt (s : Session) (own : Nat → Option BackendType) (l copies : Nat) (g : Graph) : Prop :=
  Split s own copies g ∧ g.curLayer = l

section rules
variable {s : Session} {own : Nat → Option BackendType} {l copies : Nat} {known : List Place} {g g' : Graph}

theorem Place.Holds.extend {f : Place} (holds : f.Holds s own g) (nodes : g.nodes <+: g'.nodes) (state : g.state <+: g'.state) :
    f.Holds s own g' := by
  obtain ⟨added,grown⟩ := nodes
  obtain ⟨more,states⟩ := state
  cases f with
  | node i b =>
    obtain ⟨n,there,backend⟩ := holds
    refine ⟨n,?_,backend⟩
    rw [← grown,List.getElem?_append_left (List.getElem?_eq_some_iff.mp there).1]
    exact there
  | state k b =>
    obtain ⟨below,owner⟩ := holds
    refine ⟨by rw [← states,List.length_append]; omega,?_⟩
    rw [← states,List.getD_append _ _ _ _ below]
    exact owner

theorem Settled.extend {n : GraphNode} (settled : Settled s own g n) (nodes : g.nodes <+: g'.nodes) (state : g.state <+: g'.state) :
    Settled s own g' n :=
  ⟨fun i listed => (settled.sources i listed).extend nodes state,settled.copy,settled.upload,
    fun stateful => (settled.state stateful).imp fun _ both => ⟨both.1,both.2.extend nodes state⟩⟩

abbrev InLayer (s : Session) (own : Nat → Option BackendType) (l copies : Nat) (known : List Place) (b : Build Nat) : Prop :=
  Derives (SplitAt s own l copies) (SplitAt s own l copies) (Place.Holds s own) known b fun i => [.node i (layerBackend s l)]

def newNode (op : GraphOp) (l : Nat) (src : List Nat) (weights : List (Option TensorInfo)) (params : List Nat) : GraphNode :=
  ⟨op,l,.cpu,src.map some,weights,params.map u32,0⟩

theorem newNode_sources (op : GraphOp) (l : Nat) (src : List Nat) (weights : List (Option TensorInfo)) (params : List Nat) :
    (newNode op l src weights params).sources = src := by
  simp [newNode,GraphNode.sources,List.filterMap_map]

theorem split_concat {n : GraphNode} (split' : SplitAt s own l copies g) (settled : Settled s own g n) :
    SplitAt s own l (copies+if n.op = .d2h then 1 else 0) {g with nodes:=g.nodes++[n]} := by
  obtain ⟨⟨nodes,count⟩,layer⟩ := split'
  have more : g.nodes <+: g.nodes++[n] := ⟨[n],rfl⟩
  refine ⟨⟨fun m listed => ?_,?_⟩,layer⟩
  · rcases List.mem_append.mp listed with old | new
    · exact (nodes m old).extend more (List.prefix_refl _)
    · obtain rfl := List.mem_singleton.mp new
      exact settled.extend more (List.prefix_refl _)
  · change downloads (g.nodes++[n]) = _
    rw [downloads,List.countP_append,← count,List.countP_singleton]
    simp [downloads]

theorem nodeAdd_derives {op : GraphOp} {src : List Nat} {weights : List (Option TensorInfo)} {params : List Nat} {b : BackendType}
    (settled : ∀ g,(∀ f ∈ known,Place.Holds s own f g) → Settled s own g (newNode op l src weights params))
    (at' : assignedBackend s (newNode op l src weights params) = b) :
    Derives (SplitAt s own l copies) (SplitAt s own l (copies+if op = .d2h then 1 else 0)) (Place.Holds s own) known
      (nodeAdd op src weights params) fun i => [.node i b] := by
  intro g a g' split' facts run
  cases run
  have layer := split'.2
  subst layer
  have more : g.nodes <+: g.nodes++[newNode op g.curLayer src weights params] := ⟨_,rfl⟩
  refine ⟨split_concat split' (settled g facts),fun f listed => ?_⟩
  rcases List.mem_cons.mp listed with rfl | old
  · exact ⟨newNode op g.curLayer src weights params,List.getElem?_concat_length,at'⟩
  · exact (facts f old).extend more (List.prefix_refl _)

theorem newNode_backend {op : GraphOp} (plain : op.isCopy = false) (src : List Nat) (weights : List (Option TensorInfo))
    (params : List Nat) : assignedBackend s (newNode op l src weights params) = layerBackend s l := by
  unfold assignedBackend
  exact if_neg (of_decide_eq_false plain)

theorem nodeAdd_inLayer {op : GraphOp} {src : List Nat} (plain : op.isCopy = false) (weights : List (Option TensorInfo))
    (params : List Nat) (sources : ∀ i ∈ src,.node i (layerBackend s l) ∈ known)
    (state : op.stateful = true → ∃ k rest,params = k :: rest ∧ .state k (layerBackend s l) ∈ known) :
    InLayer s own l copies known (nodeAdd op src weights params) := by
  have copy : ¬ op = .d2h := fun same => of_decide_eq_false plain (Or.inr same)
  have backend := newNode_backend (s:=s) (l:=l) plain src weights params
  have derives : Derives (SplitAt s own l copies) (SplitAt s own l (copies+if op = .d2h then 1 else 0)) (Place.Holds s own) known
      (nodeAdd op src weights params) fun i => [.node i (layerBackend s l)] := nodeAdd_derives (fun g facts => ⟨fun i listed => by
    rw [newNode_sources] at listed
    rw [if_neg (show ¬ (newNode op l src weights params).op = .d2h from copy),backend]
    exact facts _ (sources i listed),fun same => absurd same copy,fun same => of_decide_eq_false plain (Or.inl same),
    fun stateful => by
      obtain ⟨k,rest,same,listed⟩ := state stateful
      subst same
      rw [backend]
      exact ⟨k,rfl,facts _ listed⟩⟩) backend
  rwa [if_neg copy,Nat.add_zero] at derives

theorem plain_inLayer {op : GraphOp} {src : List Nat} (plain : op.isCopy = false) (stateless : op.stateful = false)
    (weights : List (Option TensorInfo)) (params : List Nat) (sources : ∀ i ∈ src,.node i (layerBackend s l) ∈ known) :
    InLayer s own l copies known (nodeAdd op src weights params) :=
  nodeAdd_inLayer plain weights params sources fun stateful => by
    rw [stateless] at stateful
    cases stateful

theorem unary_inLayer {op : GraphOp} {src : Nat} (plain : op.isCopy = false) (stateless : op.stateful = false)
    (weights : List (Option TensorInfo)) (params : List Nat) (source : .node src (layerBackend s l) ∈ known) :
    InLayer s own l copies known (nodeAdd op [src] weights params) :=
  plain_inLayer plain stateless weights params fun i listed => by
    obtain rfl := List.mem_singleton.mp listed
    exact source

theorem given_derives {α : Type} {o : Option TensorInfo} {k : TensorInfo → Build α} {pre post : Graph → Prop} {out : α → List Place}
    (rest : ∀ t,Derives pre post (Place.Holds s own) known (k t) out) :
    Derives pre post (Place.Holds s own) known (given o >>= k) out := by
  intro g r g' start facts run
  obtain ⟨⟨t,g₁⟩,began,later⟩ := Option.bind_eq_some_iff.mp run
  obtain ⟨t',there,same⟩ := Option.map_eq_some_iff.mp began
  cases same
  exact rest t g r g' start facts later

theorem require_derives {α : Type} {condition : Bool} {k : Unit → Build α} {pre post : Graph → Prop} {out : α → List Place}
    (rest : condition = true → Derives pre post (Place.Holds s own) known (k ()) out) :
    Derives pre post (Place.Holds s own) known (require condition >>= k) out := by
  intro g r g' start facts run
  obtain ⟨⟨_,g₁⟩,began,later⟩ := Option.bind_eq_some_iff.mp run
  unfold require at began
  split at began
  · next holds =>
    cases began
    exact rest holds g r g' start facts later
  · cases began

theorem stays_inLayer {src : Nat} (source : .node src (layerBackend s l) ∈ known) :
    InLayer s own l copies known (pure src) :=
  Derives.pure src fun f listed => by
    obtain rfl := List.mem_singleton.mp listed
    exact source

theorem graphSetLayer_derives (l : Nat) :
    Derives (Split s own copies) (SplitAt s own l copies) (Place.Holds s own) known (graphSetLayer l) fun _ => [] := by
  intro g a g' split' facts run
  cases run
  have nodes : g.nodes <+: ({g with curLayer:=l} : Graph).nodes := List.prefix_refl _
  have state : g.state <+: ({g with curLayer:=l} : Graph).state := List.prefix_refl _
  exact ⟨⟨⟨fun n listed => (split'.nodes n listed).extend nodes state,split'.copies⟩,rfl⟩,
    fun f listed => (facts f listed).extend nodes state⟩

theorem graphState_derives {ptr : Nat} {b : BackendType} (owner : ptr ≠ 0 → own ptr = some b) :
    Derives (SplitAt s own l copies) (SplitAt s own l copies) (Place.Holds s own) known (graphState ptr) fun k => [.state k b] := by
  intro g k g' split' facts run
  unfold graphState at run
  split at run
  · cases run
  · next some' =>
    cases run
    have nodes : g.nodes <+: ({g with state:=g.state++[ptr]} : Graph).nodes := List.prefix_refl _
    have state : g.state <+: ({g with state:=g.state++[ptr]} : Graph).state := ⟨[ptr],rfl⟩
    refine ⟨⟨⟨fun n listed => (split'.1.nodes n listed).extend nodes state,split'.1.copies⟩,split'.2⟩,fun f listed => ?_⟩
    rcases List.mem_cons.mp listed with rfl | old
    · refine ⟨?_,?_⟩
      · change g.state.length < (g.state++[ptr]).length
        simp
      · change own ((g.state++[ptr]).getD g.state.length 0) = some b
        rw [List.getD_append_right _ _ _ _ (Nat.le_refl _),Nat.sub_self]
        exact owner some'
    · exact (facts f old).extend nodes state

theorem graphLayerBoundary_derives {src : Nat} (source : .node src (layerBackend s l) ∈ known) :
    Derives (SplitAt s own l copies) (SplitAt s own l (copies+if Border s l then 1 else 0)) (Place.Holds s own) known
      (graphLayerBoundary src s l) fun i => [.node i (layerBackend s (l+1))] := by
  by_cases border : Border s l
  · obtain ⟨device,host⟩ := layerBackend_border border
    have inner : ¬ (s.nGpuLayers ≤ 0 ∨ s.nGpuLayers.toNat ≥ s.cfg.nLayer) := by
      have := border.1
      unfold Splits at this
      omega
    rw [graphLayerBoundary,if_neg inner,if_neg (not_not.mpr border.2),if_pos border,host]
    refine nodeAdd_derives (fun g facts => ⟨fun i listed => ?_,fun _ => rfl,fun same => (by cases same),fun same => (by cases same)⟩) rfl
    rw [newNode_sources] at listed
    obtain rfl := List.mem_singleton.mp listed
    have there := facts _ source
    rw [device] at there
    exact there
  · have stays : graphLayerBoundary src s l = pure src := by
      unfold graphLayerBoundary
      split
      · rfl
      · next some' =>
        refine if_pos fun last => border ⟨?_,last⟩
        unfold Splits
        omega
    rw [stays,if_neg border,layerBackend_next border]
    exact stays_inLayer source

end rules

section constructors
variable {s : Session} {own : Nat → Option BackendType} {l copies : Nat} {known : List Place} {src : Nat}

theorem graphInput_inLayer (nTokens : Nat) : InLayer s own l copies known (graphInput nTokens) := by
  intro g a g' split' facts run
  unfold graphInput at run
  split at run
  · cases run
  · cases run
    have layer := split'.2
    subst layer
    have more : g.nodes <+: g.nodes++[⟨.input,g.curLayer,.cpu,[],[],[],nTokens⟩] := ⟨_,rfl⟩
    have settled : Settled s own g ⟨.input,g.curLayer,.cpu,[],[],[],nTokens⟩ :=
      ⟨fun _ listed => (by cases listed),fun same => (by cases same),fun same => (by cases same),fun same => (by cases same)⟩
    refine ⟨split_concat split' settled,fun f listed => ?_⟩
    rcases List.mem_cons.mp listed with rfl | old
    · exact ⟨_,List.getElem?_concat_length,rfl⟩
    · exact (facts f old).extend more (List.prefix_refl _)

theorem graphEmbed_inLayer (weight : TensorInfo) (nTokens : Nat) (source : .node src (layerBackend s l) ∈ known) :
    InLayer s own l copies known (graphEmbed src weight nTokens) := by
  refine require_derives fun _ => .get fun g => ?_
  split
  · exact .fails
  · exact require_derives fun _ => unary_inLayer rfl rfl _ _ source

theorem graphRmsNorm_inLayer (weight : Option TensorInfo) (source : .node src (layerBackend s l) ∈ known) :
    InLayer s own l copies known (graphRmsNorm src weight) :=
  given_derives fun _ => unary_inLayer rfl rfl _ _ source

theorem graphRmsNormHeads_inLayer (weight : Option TensorInfo) (nHeads headDim inStride outStride : Nat)
    (source : .node src (layerBackend s l) ∈ known) :
    InLayer s own l copies known (graphRmsNormHeads src weight nHeads headDim inStride outStride) :=
  given_derives fun _ => require_derives fun _ => require_derives fun _ => unary_inLayer rfl rfl _ _ source

theorem graphMulMat_inLayer (weight : TensorInfo) (trans : Bool) (source : .node src (layerBackend s l) ∈ known) :
    InLayer s own l copies known (graphMulMat src weight trans) := by
  refine require_derives fun _ => ?_
  cases trans with
  | true => exact unary_inLayer rfl rfl _ _ source
  | false => exact unary_inLayer rfl rfl _ _ source

theorem graphBinary_inLayer (op : GraphOp) {a b : Nat} (left : .node a (layerBackend s l) ∈ known)
    (right : .node b (layerBackend s l) ∈ known) : InLayer s own l copies known (graphBinary op a b) := by
  refine require_derives fun arithmetic => ?_
  have sources : ∀ i ∈ [a,b],.node i (layerBackend s l) ∈ known := by simp [left,right]
  rcases of_decide_eq_true arithmetic with rfl | rfl
  · exact plain_inLayer rfl rfl _ _ sources
  · exact plain_inLayer rfl rfl _ _ sources

theorem graphSilu_inLayer (source : .node src (layerBackend s l) ∈ known) : InLayer s own l copies known (graphSilu src) :=
  unary_inLayer rfl rfl _ _ source

theorem graphGelu_inLayer (source : .node src (layerBackend s l) ∈ known) : InLayer s own l copies known (graphGelu src) :=
  unary_inLayer rfl rfl _ _ source

theorem graphScale_inLayer (scale : Nat) (source : .node src (layerBackend s l) ∈ known) :
    InLayer s own l copies known (graphScale src scale) :=
  unary_inLayer rfl rfl _ _ source

theorem graphSoftcap_inLayer (cap : Nat) (source : .node src (layerBackend s l) ∈ known) :
    InLayer s own l copies known (graphSoftcap src cap) :=
  require_derives fun _ => unary_inLayer rfl rfl _ _ source

theorem addBias_inLayer (bias : Option TensorInfo) (source : .node src (layerBackend s l) ∈ known) :
    InLayer s own l copies known (addBias src bias) := by
  cases bias with
  | none => exact stays_inLayer source
  | some b => exact require_derives fun _ => unary_inLayer rfl rfl _ _ source

theorem graphRope_inLayer (theta nHeads headDim ropeDim : Nat) (source : .node src (layerBackend s l) ∈ known) :
    InLayer s own l copies known (graphRope src theta nHeads headDim ropeDim) :=
  require_derives fun _ => unary_inLayer rfl rfl _ _ source

theorem graphRopeNorm_inLayer (theta nHeads headDim ropeDim : Nat) (source : .node src (layerBackend s l) ∈ known) :
    InLayer s own l copies known (graphRopeNorm src theta nHeads headDim ropeDim) :=
  require_derives fun _ => unary_inLayer rfl rfl _ _ source

theorem graphAttn_inLayer (layer window : Nat) {q k v : Nat} (query : .node q (layerBackend s l) ∈ known)
    (key : .node k (layerBackend s l) ∈ known) (value : .node v (layerBackend s l) ∈ known) :
    InLayer s own l copies known (graphAttn q k v layer window) :=
  plain_inLayer rfl rfl _ _ (by simp [query,key,value])

theorem graphSigmoidGate_inLayer (nHeads headDim : Nat) {a gate : Nat} (source : .node a (layerBackend s l) ∈ known)
    (gates : .node gate (layerBackend s l) ∈ known) : InLayer s own l copies known (graphSigmoidGate a gate nHeads headDim) :=
  require_derives fun _ => plain_inLayer rfl rfl _ _ (by simp [source,gates])

theorem graphSsmConv_inLayer (weight : TensorInfo) (kernel : Nat) {k : Nat} (source : .node src (layerBackend s l) ∈ known)
    (state : .state k (layerBackend s l) ∈ known) : InLayer s own l copies known (graphSsmConv src weight k kernel) :=
  require_derives fun _ => .get fun _ => require_derives fun _ =>
    nodeAdd_inLayer rfl _ _ (by simp [source]) fun _ => ⟨k,_,rfl,state⟩

theorem graphSsmDelta_inLayer (args : GraphSsmDelta) (fused : .node args.fused (layerBackend s l) ∈ known)
    (alpha : .node args.alpha (layerBackend s l) ∈ known) (beta : .node args.beta (layerBackend s l) ∈ known)
    (state : .state args.state (layerBackend s l) ∈ known) : InLayer s own l copies known (graphSsmDelta args) :=
  require_derives fun _ => require_derives fun _ => .get fun _ => require_derives fun _ =>
    nodeAdd_inLayer rfl _ _ (by simp [fused,alpha,beta]) fun _ => ⟨args.state,_,rfl,state⟩

theorem graphMamba2Conv_inLayer (weight : TensorInfo) (bias : Option TensorInfo) (args : Mamba2Conv)
    (source : .node src (layerBackend s l) ∈ known) (state : .state args.state (layerBackend s l) ∈ known) :
    InLayer s own l copies known (graphMamba2Conv src weight bias args) :=
  require_derives fun _ => require_derives fun _ => .get fun _ => require_derives fun _ =>
    nodeAdd_inLayer rfl _ _ (by simp [source]) fun _ => ⟨args.state,_,rfl,state⟩

theorem graphMamba2Scan_inLayer (ssmA ssmD dtBias : TensorInfo) (weight : Option TensorInfo) (args : Mamba2Scan) {conv proj : Nat}
    (source : .node conv (layerBackend s l) ∈ known) (source' : .node proj (layerBackend s l) ∈ known)
    (state : .state args.state (layerBackend s l) ∈ known) :
    InLayer s own l copies known (graphMamba2Scan conv proj ssmA ssmD dtBias weight args) :=
  require_derives fun _ => require_derives fun _ => .get fun _ => require_derives fun _ =>
    nodeAdd_inLayer rfl _ _ (by simp [source,source']) fun _ => ⟨args.state,_,rfl,state⟩

end constructors

end TinyLlama.Graph
