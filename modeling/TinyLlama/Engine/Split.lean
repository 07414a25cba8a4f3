import Mathlib
import TinyLlama.Engine.Shapes
import TinyLlama.Graph.SplitLayers

-- A CUDA build: where init allocates the states, the builders copy, and assign_backends puts the nodes.
namespace TinyLlama.Engine
open Gguf TinyLlama.Graph

structure Placed where
  states : LayerStates
  backends : List BackendType

def nonePlaced : Placed := ⟨noStates,[]⟩

def Placed.alloc (b : BackendType) (step : LayerStates → LayerStates) (p : Placed) : Placed :=
  let st := step p.states
  ⟨st,if p.states.blocks.length < st.blocks.length then p.backends++[b] else p.backends⟩

section place
variable (granted : List Nat → Nat → Bool) (s : Session)

def qwen35Placed (q : Qwen35Geometry) : Placed :=
  (List.range s.cfg.nLayer).foldl (fun p i =>
    if (s.layers i .ssmConv1d).isSome then
      (p.alloc (graphLayerBackend s i) (allocSsm granted q.ssmBytes i)).alloc (graphLayerBackend s i) (allocConv granted q.convBytes i)
    else p) nonePlaced

def falconH1Placed (convBytes ssmBytes : Nat) : Placed :=
  (List.range s.cfg.nLayer).foldl (fun p i =>
    (p.alloc (graphLayerBackend s i) (allocConv granted convBytes i)).alloc (graphLayerBackend s i) (allocSsm granted ssmBytes i))
    nonePlaced

theorem qwen35Placed_states (q : Qwen35Geometry) : (qwen35Placed granted s q).states = qwen35States granted q s := by
  refine (List.foldl_hom Placed.states fun p i => ?_).symm
  split <;> rfl

theorem falconH1Placed_states (convBytes ssmBytes : Nat) :
    (falconH1Placed granted s convBytes ssmBytes).states = falconH1States granted convBytes ssmBytes s :=
  (List.foldl_hom Placed.states fun _ _ => rfl).symm

def archBackends (m : Model) : List BackendType :=
  match m.arch with
  | .qwen3 => (qwen35Placed granted s (qwen35Geometry m s)).backends
  | .falconH1 =>
    let geometry := falconH1Init m s 0 noStates
    (falconH1Placed granted {s with nGpuLayers:=0} (fh1ConvBytes geometry) (fh1SsmBytes geometry)).backends
  | _ => []

end place

def bufferBackend (backends : List BackendType) (ptr : Nat) : Option BackendType := if ptr = 0 then none else backends[ptr-1]?

-- A layer's buffers lie where its layer runs.
structure OnLayers (s : Session) (p : Placed) : Prop where
  length : p.backends.length = p.states.blocks.length
  buffers : ∀ l, ∀ ptr ∈ [p.states.conv l,p.states.ssm l], ptr ≠ 0 → p.backends[ptr-1]? = some (graphLayerBackend s l)

section placed
variable {granted : List Nat → Nat → Bool} {s : Session} {p : Placed}

theorem nonePlaced_onLayers : OnLayers s nonePlaced :=
  ⟨rfl,fun l ptr listed some' => absurd (by simpa [nonePlaced,noStates] using listed) some'⟩

theorem graphStateAlloc_grows (granted : List Nat → Nat → Bool) (bytes : Nat) (blocks : List Nat) :
    (graphStateAlloc granted bytes blocks).2 = blocks ∨ ∃ size,(graphStateAlloc granted bytes blocks).2 = blocks++[size] := by
  unfold graphStateAlloc
  split
  · exact .inr ⟨_,rfl⟩
  · exact .inl rfl

theorem graphStateAlloc_pointer (granted : List Nat → Nat → Bool) (bytes : Nat) (blocks : List Nat) :
    (graphStateAlloc granted bytes blocks).1 = 0 ∨
      (graphStateAlloc granted bytes blocks).1 = blocks.length+1 ∧ blocks.length < (graphStateAlloc granted bytes blocks).2.length := by
  unfold graphStateAlloc
  split
  · exact .inr ⟨rfl,by simp⟩
  · exact .inl rfl

theorem OnLayers.alloc {step : LayerStates → LayerStates} {i : Nat} (on : OnLayers s p)
    (grows : (step p.states).blocks = p.states.blocks ∨ ∃ bytes,(step p.states).blocks = p.states.blocks++[bytes])
    (buffers : ∀ l, ∀ ptr ∈ [(step p.states).conv l,(step p.states).ssm l],
      ptr = 0 ∨ ptr ∈ [p.states.conv l,p.states.ssm l] ∨ l = i ∧ ptr = p.states.blocks.length+1 ∧
        p.states.blocks.length < (step p.states).blocks.length) :
    OnLayers s (p.alloc (graphLayerBackend s i) step) := by
  have kept : ∀ (k : Nat) (b : BackendType), p.backends[k]? = some b → (p.alloc (graphLayerBackend s i) step).backends[k]? = some b := by
    intro k b there
    unfold Placed.alloc
    dsimp only
    split
    · rw [List.getElem?_append_left (List.getElem?_eq_some_iff.mp there).1]
      exact there
    · exact there
  refine ⟨?_,fun l ptr listed some' => ?_⟩
  · unfold Placed.alloc
    dsimp only
    rcases grows with same | ⟨bytes,more⟩
    · rw [same,if_neg (Nat.lt_irrefl _)]
      exact on.length
    · rw [more,if_pos (by simp)]
      simp [on.length]
  · rcases buffers l ptr listed with zero | old | ⟨rfl,rfl,more⟩
    · exact absurd zero some'
    · exact kept _ _ (on.buffers l ptr old some')
    · unfold Placed.alloc
      dsimp only
      rw [if_pos more,Nat.add_sub_cancel,← on.length]
      exact List.getElem?_concat_length

theorem OnLayers.conv (on : OnLayers s p) (bytes i : Nat) :
    OnLayers s (p.alloc (graphLayerBackend s i) (allocConv granted bytes i)) := by
  refine on.alloc (graphStateAlloc_grows granted bytes p.states.blocks) fun l ptr listed => ?_
  change ptr ∈ [Function.update p.states.conv i _ l,p.states.ssm l] at listed
  by_cases same : l = i
  · subst same
    rw [Function.update_self] at listed
    rcases List.mem_cons.mp listed with rfl | other
    · exact (graphStateAlloc_pointer granted bytes p.states.blocks).imp_right fun new => .inr ⟨rfl,new⟩
    · exact .inr (.inl (List.mem_cons_of_mem _ other))
  · rw [Function.update_of_ne same] at listed
    exact .inr (.inl listed)

theorem OnLayers.ssm (on : OnLayers s p) (bytes i : Nat) :
    OnLayers s (p.alloc (graphLayerBackend s i) (allocSsm granted bytes i)) := by
  refine on.alloc (graphStateAlloc_grows granted bytes p.states.blocks) fun l ptr listed => ?_
  change ptr ∈ [p.states.conv l,Function.update p.states.ssm i _ l] at listed
  by_cases same : l = i
  · subst same
    rw [Function.update_self] at listed
    rcases List.mem_cons.mp listed with rfl | other
    · exact .inr (.inl List.mem_cons_self)
    · cases List.mem_singleton.mp other
      exact (graphStateAlloc_pointer granted bytes p.states.blocks).imp_right fun new => .inr ⟨rfl,new⟩
  · rw [Function.update_of_ne same] at listed
    exact .inr (.inl listed)

theorem layers_onLayers {step : Placed → Nat → Placed} (keeps : ∀ p i,OnLayers s p → OnLayers s (step p i)) (ls : List Nat) :
    ∀ p,OnLayers s p → OnLayers s (ls.foldl step p) := by
  induction ls with
  | nil => exact fun _ on => on
  | cons i rest ih => exact fun p on => ih _ (keeps p i on)

theorem qwen35Placed_onLayers (q : Qwen35Geometry) : OnLayers s (qwen35Placed granted s q) := by
  refine layers_onLayers (fun p i on => ?_) _ _ nonePlaced_onLayers
  split
  · exact (on.ssm _ i).conv _ i
  · exact on

theorem falconH1Placed_onLayers (convBytes ssmBytes : Nat) : OnLayers s (falconH1Placed granted s convBytes ssmBytes) :=
  layers_onLayers (fun _ i on => (on.conv _ i).ssm _ i) _ _ nonePlaced_onLayers

theorem OnLayers.owner {s' : Session} {ptr l : Nat} (on : OnLayers s p) (below : l < s.cfg.nLayer)
    (same : layerBackend s' l = layerBackend s l) (listed : ptr ∈ [p.states.conv l,p.states.ssm l]) (some' : ptr ≠ 0) :
    bufferBackend p.backends ptr = some (layerBackend s' l) := by
  rw [bufferBackend,if_neg some',on.buffers l ptr listed some',graphLayerBackend_eq below,same]

end placed

-- assign_backends leaves the session no more layers than there are, for the next build.
def assigned (s : Session) : Session := {s with nGpuLayers:=clampedLayers s}

section again
variable {s : Session} {l : Nat}

theorem clampedLayers_assigned (s : Session) : clampedLayers (assigned s) = clampedLayers s := by
  change (if (if clampedLayers s < 0 then 0 else clampedLayers s).toNat > s.cfg.nLayer then (s.cfg.nLayer : Int)
    else if clampedLayers s < 0 then 0 else clampedLayers s) = clampedLayers s
  have bounds : 0 ≤ clampedLayers s ∧ (clampedLayers s).toNat ≤ s.cfg.nLayer := by
    unfold clampedLayers
    dsimp only
    constructor <;> split <;> split <;> omega
  rw [if_neg (by omega : ¬ clampedLayers s < 0),if_neg (by omega)]

theorem layerBackend_assigned (s : Session) (l : Nat) : layerBackend (assigned s) l = layerBackend s l := by
  unfold layerBackend
  rw [clampedLayers_assigned]
  rfl

theorem layerBackend_builds (s : Session) (l builds : Nat) :
    layerBackend (assigned^[builds] s) l = layerBackend s l ∧ (assigned^[builds] s).cfg = s.cfg := by
  induction builds with
  | zero => exact ⟨rfl,rfl⟩
  | succ builds ih =>
    rw [Function.iterate_succ_apply',layerBackend_assigned]
    exact ih

end again

-- After assign_backends. `own` is the backend of a buffer; n_state is a u32.
structure Consistent (s : Session) (own : Nat → Option BackendType) (g : Graph) : Prop where
  sources : ∀ n ∈ assignBackends s g.nodes, n.op.isCopy = false → ∀ i ∈ n.sources,
    ∃ src, (assignBackends s g.nodes)[i]? = some src ∧ src.backend = n.backend
  downloads : (assignBackends s g.nodes).countP (fun n => n.op = .d2h) =
    if 0 < s.nGpuLayers ∧ s.nGpuLayers.toNat < s.cfg.nLayer then 1 else 0
  uploads : ∀ n ∈ assignBackends s g.nodes, n.op ≠ .h2d
  states : g.state.length ≤ 2^32 → ∀ n ∈ assignBackends s g.nodes, n.op.stateful = true →
    n.param 0 < g.state.length ∧ own (g.state.getD (n.param 0) 0) = some n.backend

theorem Consistent.of_split {s : Session} {own : Nat → Option BackendType} {g : Graph}
    (split' : Split s own (if Splits s then 1 else 0) g) : Consistent s own g := by
  refine ⟨fun n' listed plain i source => ?_,?_,fun n' listed => ?_,fun few n' listed stateful => ?_⟩
  · obtain ⟨n,there,rfl⟩ := List.mem_map.mp listed
    obtain ⟨m,at',backend⟩ := (split'.nodes n there).sources i source
    have inner : ¬ n.op = .d2h := fun same => of_decide_eq_false plain (Or.inr same)
    rw [if_neg inner] at backend
    refine ⟨{m with backend:=assignedBackend s m},?_,backend⟩
    rw [assignBackends,List.getElem?_map,at']
    rfl
  · rw [assignBackends,List.countP_map]
    exact split'.copies
  · obtain ⟨n,there,rfl⟩ := List.mem_map.mp listed
    exact (split'.nodes n there).upload
  · obtain ⟨n,there,rfl⟩ := List.mem_map.mp listed
    obtain ⟨k,param,below,owner⟩ := (split'.nodes n there).state stateful
    have slot : n.param 0 = k := param.trans (u32_of_lt (by omega))
    change n.param 0 < g.state.length ∧ own (g.state.getD (n.param 0) 0) = _
    rw [slot]
    exact ⟨below,owner⟩

section sessions
variable {m : Model} {s s' : Session} {read : Floats} {granted : List Nat → Nat → Bool} {ws : ArchWorkspace} {blocks : List Nat}
  {g : Graph}

theorem archBackends_length (init : archInit m s read granted = some (s',ws,blocks)) :
    (archBackends granted s m).length = blocks.length := by
  unfold archInit at init
  unfold archBackends
  split at init
  all_goals rename_i arch; rw [arch]; cases init
  · rfl
  · rfl
  · rfl
  · rfl
  · rw [(qwen35Placed_onLayers _).length,qwen35Placed_states]
  · rw [(falconH1Placed_onLayers _ _).length,falconH1Placed_states]
    rfl

theorem archBuild_splits (init : archInit m s read granted = some (s',ws,blocks)) (builds : Nat)
    (built : archBuild (assigned^[builds] s') ws nTokens = some g) :
    Split (assigned^[builds] s') (bufferBackend (archBackends granted s m)) (if Splits (assigned^[builds] s') then 1 else 0) g := by
  have again := fun l => layerBackend_builds s' l builds
  generalize assigned^[builds] s' = s'' at *
  unfold archInit at init
  unfold archBackends
  split at init
  all_goals rename_i arch; rw [arch]; cases init
  · exact (llamaGraphBuild_splits _ _).graph built
  · exact (llamaGraphBuild_splits _ _).graph built
  · exact (qwen25GraphBuild_splits _ _).graph built
  · exact (gemma3GraphBuild_splits _ _).graph built
  · refine (qwen35GraphBuild_splits _ fun l below ptr listed some' => ?_).graph built
    have on : OnLayers s (qwen35Placed granted s (qwen35Geometry m s)) := qwen35Placed_onLayers _
    rw [(again l).2] at below
    exact on.owner below (again l).1 (by rw [qwen35Placed_states]; exact listed) some'
  · refine (falconH1GraphBuild_splits _ fun l below ptr listed some' => ?_).graph built
    have on : OnLayers {s with nGpuLayers:=0} (falconH1Placed granted {s with nGpuLayers:=0} (fh1ConvBytes (falconH1Init m s 0 noStates))
      (fh1SsmBytes (falconH1Init m s 0 noStates))) := falconH1Placed_onLayers _ _
    rw [(again l).2] at below
    refine on.owner below (again l).1 ?_ some'
    rw [falconH1Placed_states]
    exact listed

-- For every split and every one of a session's builds.
theorem split_consistent (init : archInit m s read granted = some (s',ws,blocks)) (builds : Nat)
    (built : archBuild (assigned^[builds] s') ws nTokens = some g) :
    (archBackends granted s m).length = blocks.length ∧
      Consistent (assigned^[builds] s') (bufferBackend (archBackends granted s m)) g :=
  ⟨archBackends_length init,.of_split (archBuild_splits init builds built)⟩

end sessions

-- Two SSM layers of a model without metadata, one of them on the device.
def twoSides : Session :=
  let t : TensorInfo := ⟨⟨0,[]⟩,2,[2,16],0,0,none,32,128,2⟩
  ⟨⟨1,1,2,2,2,2,2,4⟩,8,1,fun _ => some t,fun _ _ => some t⟩

def plainModel : Model := ⟨noBytes,3,32,.qwen3,[],[],[]⟩

theorem twoSides_consistent : ∃ s ws blocks g, archInit plainModel twoSides noFloats (fun _ _ => true) = some (s,ws,blocks) ∧
    archBuild (assigned^[1] s) ws 2 = some g ∧ blocks.length = 4 ∧
    Consistent (assigned^[1] s) (bufferBackend (archBackends (fun _ _ => true) twoSides plainModel)) g := by
  have builds : ((archInit plainModel twoSides noFloats fun _ _ => true).bind fun x => archBuild (assigned^[1] x.1) x.2.1 2).isSome = true := by
    decide +kernel
  obtain ⟨g,run⟩ := Option.isSome_iff_exists.mp builds
  obtain ⟨⟨s,ws,blocks⟩,init,built⟩ := Option.bind_eq_some_iff.mp run
  have both := split_consistent init 1 built
  have four : (archBackends (fun _ _ => true) twoSides plainModel).length = 4 := by decide +kernel
  exact ⟨s,ws,blocks,g,init,built,by rw [← both.1,four],both.2⟩

end TinyLlama.Engine
