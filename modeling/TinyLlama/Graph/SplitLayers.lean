import TinyLlama.Graph.Split

namespace TinyLlama.Graph
open Gguf Facts

def copiesBefore (s : Session) (l : Nat) : Nat := if Splits s ∧ s.nGpuLayers.toNat ≤ l then 1 else 0

theorem copiesBefore_zero (s : Session) : copiesBefore s 0 = 0 := by
  refine if_neg fun both => ?_
  have := both.1.1
  omega

theorem copiesBefore_succ (s : Session) (l : Nat) : copiesBefore s l+(if Border s l then 1 else 0) = copiesBefore s (l+1) := by
  unfold copiesBefore Border
  by_cases splits : Splits s
  · simp only [splits,true_and]
    split <;> split <;> split <;> omega
  · simp [splits]

theorem copiesBefore_all (s : Session) : copiesBefore s s.cfg.nLayer = if Splits s then 1 else 0 := by
  unfold copiesBefore
  by_cases splits : Splits s
  · rw [if_pos ⟨splits,Nat.le_of_lt splits.2⟩,if_pos splits]
  · rw [if_neg fun both => splits both.1,if_neg splits]

-- A layer, from a node on its backend to one on the next layer's.
abbrev LayerSplits (s : Session) (own : Nat → Option BackendType) (layer : Nat → Nat → Build Nat) (l : Nat) : Prop :=
  ∀ cur known,.node cur (layerBackend s l) ∈ known →
    Derives (Split s own (copiesBefore s l)) (Split s own (copiesBefore s (l+1))) (Place.Holds s own) known (layer cur l)
      fun i => [.node i (layerBackend s (l+1))]

section layers
variable {s : Session} {own : Nat → Option BackendType} {l copies : Nat} {known : List Place}

theorem overLayers_splits {layer : Nat → Nat → Build Nat} (each : ∀ l < s.cfg.nLayer,LayerSplits s own layer l) {cur : Nat}
    (source : .node cur (layerBackend s 0) ∈ known) :
    Derives (Split s own 0) (Split s own (if Splits s then 1 else 0)) (Place.Holds s own) known
      (overLayers layer (List.range s.cfg.nLayer) cur) fun i => [.node i (layerBackend s s.cfg.nLayer)] := by
  have walk := @Derives.loop Graph Place Nat (Place.Holds s own) known (fun l => Split s own (copiesBefore s l))
    (fun l i => .node i (layerBackend s l)) layer s.cfg.nLayer (fun l below cur known there => each l below cur known there) cur source
  rwa [copiesBefore_zero,copiesBefore_all] at walk

theorem boundary_splits {src : Nat} (source : .node src (layerBackend s l) ∈ known) :
    Derives (SplitAt s own l (copiesBefore s l)) (Split s own (copiesBefore s (l+1))) (Place.Holds s own) known
      (graphLayerBoundary src s l) fun i => [.node i (layerBackend s (l+1))] := by
  have boundary : Derives (SplitAt s own l (copiesBefore s l)) (SplitAt s own l (copiesBefore s l+if Border s l then 1 else 0))
    (Place.Holds s own) known (graphLayerBoundary src s l) fun i => [.node i (layerBackend s (l+1))] := graphLayerBoundary_derives source
  rw [copiesBefore_succ] at boundary
  exact boundary.weaken (fun _ start => start) fun _ done => done.1

theorem swiglu_inLayer {lw : TensorRole → Option TensorInfo} {c : ArchConfig} {fh hn : Nat}
    (source : .node hn (layerBackend s l) ∈ known) : InLayer s own l copies known (swiglu lw c fh hn) := by
  refine given_derives fun tg => given_derives fun tu => given_derives fun td => ?_
  refine (graphMulMat_inLayer _ _ source).bind fun gate => ?_
  refine (graphSilu_inLayer (by simp)).bind fun gate => ?_
  refine (graphMulMat_inLayer _ _ (by simp [source])).bind fun up => ?_
  refine (graphBinary_inLayer _ (by simp) (by simp)).bind fun mul => ?_
  exact graphMulMat_inLayer _ _ (by simp)

theorem llamaLayer_splits (ws : LlamaWorkSpace) (l : Nat) : LayerSplits s own (llamaLayer s ws) l := by
  intro cur known source
  refine (graphSetLayer_derives l).bind fun _ => ?_
  refine given_derives fun tq => given_derives fun tk => given_derives fun tv => given_derives fun tO => ?_
  refine (graphRmsNorm_inLayer _ (by simp [source])).bind fun n => ?_
  refine (graphMulMat_inLayer _ _ (by simp)).bind fun q => ?_
  refine (graphMulMat_inLayer _ _ (by simp)).bind fun k => ?_
  refine (graphMulMat_inLayer _ _ (by simp)).bind fun v => ?_
  refine (addBias_inLayer _ (by simp)).bind fun q => ?_
  refine (addBias_inLayer _ (by simp)).bind fun k => ?_
  refine (addBias_inLayer _ (by simp)).bind fun v => ?_
  refine (graphRopeNorm_inLayer _ _ _ _ (by simp)).bind fun q => ?_
  refine (graphRopeNorm_inLayer _ _ _ _ (by simp)).bind fun k => ?_
  refine (graphAttn_inLayer _ _ (by simp) (by simp) (by simp)).bind fun attn => ?_
  refine (graphMulMat_inLayer _ _ (by simp)).bind fun o => ?_
  refine (graphBinary_inLayer _ (by simp [source]) (by simp)).bind fun h => ?_
  refine (graphRmsNorm_inLayer _ (by simp)).bind fun hn => ?_
  refine (swiglu_inLayer (by simp)).bind fun down => ?_
  refine (graphBinary_inLayer _ (by simp) (by simp)).bind fun cur => ?_
  exact boundary_splits (by simp)

theorem qwen25Layer_splits (ws : Qwen25Workspace) (l : Nat) : LayerSplits s own (qwen25Layer s ws) l := by
  intro cur known source
  refine (graphSetLayer_derives l).bind fun _ => ?_
  refine given_derives fun tq => given_derives fun tk => given_derives fun tv => given_derives fun tO => ?_
  refine (graphRmsNorm_inLayer _ (by simp [source])).bind fun n => ?_
  refine (graphMulMat_inLayer _ _ (by simp)).bind fun q => ?_
  refine (graphMulMat_inLayer _ _ (by simp)).bind fun k => ?_
  refine (graphMulMat_inLayer _ _ (by simp)).bind fun v => ?_
  refine (addBias_inLayer _ (by simp)).bind fun q => ?_
  refine (addBias_inLayer _ (by simp)).bind fun k => ?_
  refine (addBias_inLayer _ (by simp)).bind fun v => ?_
  refine (graphRope_inLayer _ _ _ _ (by simp)).bind fun q => ?_
  refine (graphRope_inLayer _ _ _ _ (by simp)).bind fun k => ?_
  refine (graphAttn_inLayer _ _ (by simp) (by simp) (by simp)).bind fun attn => ?_
  refine (graphMulMat_inLayer _ _ (by simp)).bind fun o => ?_
  refine (graphBinary_inLayer _ (by simp [source]) (by simp)).bind fun h => ?_
  refine (graphRmsNorm_inLayer _ (by simp)).bind fun hn => ?_
  refine (swiglu_inLayer (by simp)).bind fun down => ?_
  refine (graphBinary_inLayer _ (by simp) (by simp)).bind fun cur => ?_
  exact boundary_splits (by simp)

theorem gemma3Layer_splits (ws : Gemma3WorkSpace) (l : Nat) : LayerSplits s own (gemma3Layer s ws) l := by
  intro cur known source
  refine (graphSetLayer_derives l).bind fun _ => ?_
  refine given_derives fun tq => given_derives fun tk => given_derives fun tv => given_derives fun tO => ?_
  refine given_derives fun tg => given_derives fun tu => given_derives fun td => ?_
  refine (graphRmsNorm_inLayer _ (by simp [source])).bind fun n => ?_
  refine (graphMulMat_inLayer _ _ (by simp)).bind fun q => ?_
  refine (graphMulMat_inLayer _ _ (by simp)).bind fun k => ?_
  refine (graphMulMat_inLayer _ _ (by simp)).bind fun v => ?_
  refine (graphRmsNormHeads_inLayer _ _ _ _ _ (by simp)).bind fun q => ?_
  refine (graphRmsNormHeads_inLayer _ _ _ _ _ (by simp)).bind fun k => ?_
  refine (graphRope_inLayer _ _ _ _ (by simp)).bind fun q => ?_
  refine (graphRope_inLayer _ _ _ _ (by simp)).bind fun k => ?_
  refine (graphScale_inLayer _ (by simp)).bind fun q => ?_
  refine (graphAttn_inLayer _ _ (by simp) (by simp) (by simp)).bind fun attn => ?_
  refine (graphMulMat_inLayer _ _ (by simp)).bind fun o => ?_
  refine (graphRmsNorm_inLayer _ (by simp)).bind fun o => ?_
  refine (graphBinary_inLayer _ (by simp [source]) (by simp)).bind fun h => ?_
  refine (graphRmsNorm_inLayer _ (by simp)).bind fun hn => ?_
  refine (graphMulMat_inLayer _ _ (by simp)).bind fun gate => ?_
  refine (graphGelu_inLayer (by simp)).bind fun gate => ?_
  refine (graphMulMat_inLayer _ _ (by simp)).bind fun up => ?_
  refine (graphBinary_inLayer _ (by simp) (by simp)).bind fun mul => ?_
  refine (graphMulMat_inLayer _ _ (by simp)).bind fun down => ?_
  refine (graphRmsNorm_inLayer _ (by simp)).bind fun down => ?_
  refine (graphBinary_inLayer _ (by simp) (by simp)).bind fun cur => ?_
  exact boundary_splits (by simp)

theorem outputGate_inLayer (gate : Option TensorInfo) {x n : Nat} (width : Nat) (c : ArchConfig)
    (source : .node x (layerBackend s l) ∈ known) (normed : .node n (layerBackend s l) ∈ known) :
    InLayer s own l copies known (outputGate gate x n width c) := by
  cases gate with
  | none => exact stays_inLayer source
  | some t =>
    refine (graphMulMat_inLayer _ _ normed).bind fun a => ?_
    refine (graphSilu_inLayer (by simp)).bind fun a => ?_
    exact graphBinary_inLayer _ (by simp [source]) (by simp)

theorem qwen35Ssm_inLayer {ws : Qwen35Workspace} (owner : ∀ ptr ∈ [ws.convState l,ws.ssmState l],ptr ≠ 0 → own ptr = some (layerBackend s l))
    (conv : TensorInfo) {cur n : Nat} (source : .node cur (layerBackend s l) ∈ known) (normed : .node n (layerBackend s l) ∈ known) :
    InLayer s own l copies known (qwen35Ssm s ws conv cur n l) := by
  refine given_derives fun qkv => given_derives fun ta => given_derives fun tb => ?_
  refine given_derives fun tA => given_derives fun dt => given_derives fun so => ?_
  refine (graphState_derives (owner _ (by simp))).bind fun convSt => ?_
  refine (graphState_derives (owner _ (by simp))).bind fun ssmSt => ?_
  refine (graphMulMat_inLayer _ _ (by simp [normed])).bind fun f => ?_
  refine (graphSsmConv_inLayer _ _ (by simp) (by simp)).bind fun f => ?_
  refine (graphSilu_inLayer (by simp)).bind fun f => ?_
  refine (graphMulMat_inLayer _ _ (by simp [normed])).bind fun a => ?_
  refine (graphMulMat_inLayer _ _ (by simp [normed])).bind fun b => ?_
  refine (graphSsmDelta_inLayer _ (by simp) (by simp) (by simp) (by simp)).bind fun d => ?_
  refine (outputGate_inLayer _ _ _ (by simp) (by simp [normed])).bind fun d => ?_
  refine (graphMulMat_inLayer _ _ (by simp)).bind fun y => ?_
  exact graphBinary_inLayer _ (by simp [source]) (by simp)

theorem optionalNorm_inLayer (weight : Option TensorInfo) {src : Nat} (nHeads headDim : Nat)
    (source : .node src (layerBackend s l) ∈ known) : InLayer s own l copies known (optionalNorm src weight nHeads headDim) := by
  cases weight with
  | none => exact stays_inLayer source
  | some t => exact graphRmsNormHeads_inLayer _ _ _ _ _ source

theorem queryHalf_inLayer (weight : Option TensorInfo) {fq : Nat} (proj : Nat) (c : ArchConfig)
    (source : .node fq (layerBackend s l) ∈ known) : InLayer s own l copies known (queryHalf weight fq proj c) := by
  cases weight with
  | none => exact require_derives fun _ => stays_inLayer source
  | some t => exact require_derives fun _ => graphRmsNormHeads_inLayer _ _ _ _ _ source

theorem sigmoidGated_inLayer (weight : Option TensorInfo) {attn fq : Nat} (c : ArchConfig)
    (source : .node attn (layerBackend s l) ∈ known) (gates : .node fq (layerBackend s l) ∈ known) :
    InLayer s own l copies known (sigmoidGated weight attn fq c) := by
  cases weight with
  | none => exact stays_inLayer source
  | some t => exact graphSigmoidGate_inLayer _ _ source gates

theorem qwen35Dense_inLayer {ws : Qwen35Workspace} {cur n : Nat} (source : .node cur (layerBackend s l) ∈ known)
    (normed : .node n (layerBackend s l) ∈ known) : InLayer s own l copies known (qwen35Dense s ws cur n l) := by
  refine given_derives fun tq => given_derives fun tk => given_derives fun tv => given_derives fun tO => ?_
  refine require_derives fun _ => ?_
  refine (graphMulMat_inLayer _ _ (by simp [normed])).bind fun fq => ?_
  refine (addBias_inLayer _ (by simp)).bind fun fq => ?_
  refine (queryHalf_inLayer _ _ _ (by simp)).bind fun q => ?_
  refine (graphMulMat_inLayer _ _ (by simp [normed])).bind fun k => ?_
  refine (graphMulMat_inLayer _ _ (by simp [normed])).bind fun v => ?_
  refine (addBias_inLayer _ (by simp)).bind fun k => ?_
  refine (addBias_inLayer _ (by simp)).bind fun v => ?_
  refine (optionalNorm_inLayer _ _ _ (by simp)).bind fun k => ?_
  refine (graphRope_inLayer _ _ _ _ (by simp)).bind fun q => ?_
  refine (graphRope_inLayer _ _ _ _ (by simp)).bind fun k => ?_
  refine (graphAttn_inLayer _ _ (by simp) (by simp) (by simp)).bind fun attn => ?_
  refine (outputGate_inLayer _ _ _ (by simp) (by simp [normed])).bind fun attn => ?_
  refine (sigmoidGated_inLayer _ _ (by simp) (by simp)).bind fun attn => ?_
  refine (graphMulMat_inLayer _ _ (by simp)).bind fun o => ?_
  exact graphBinary_inLayer _ (by simp [source]) (by simp)

theorem qwen35Layer_splits {ws : Qwen35Workspace}
    (owner : ∀ ptr ∈ [ws.convState l,ws.ssmState l],ptr ≠ 0 → own ptr = some (layerBackend s l)) :
    LayerSplits s own (qwen35Layer s ws) l := by
  intro cur known source
  refine (graphSetLayer_derives l).bind fun _ => ?_
  refine (graphRmsNorm_inLayer _ (by simp [source])).bind fun n => ?_
  have rest : ∀ cur known,.node cur (layerBackend s l) ∈ known →
      Derives (SplitAt s own l (copiesBefore s l)) (Split s own (copiesBefore s (l+1))) (Place.Holds s own) known (do
        let hn ← graphRmsNorm cur (s.layers l .postAttnNorm)
        let down ← swiglu (s.layers l) s.cfg ws.ffnHidden hn
        let cur ← graphBinary .add cur down
        graphLayerBoundary cur s l) fun i => [.node i (layerBackend s (l+1))] := by
    intro cur known source
    refine (graphRmsNorm_inLayer _ source).bind fun hn => ?_
    refine (swiglu_inLayer (by simp)).bind fun down => ?_
    refine (graphBinary_inLayer _ (by simp [source]) (by simp)).bind fun cur => ?_
    exact boundary_splits (by simp)
  cases s.layers l .ssmConv1d with
  | some conv => exact (qwen35Ssm_inLayer owner conv (by simp [source]) (by simp)).bind fun cur => rest cur _ (by simp)
  | none => exact (qwen35Dense_inLayer (by simp [source]) (by simp)).bind fun cur => rest cur _ (by simp)

theorem falconH1Attention_inLayer {ws : FalconH1WorkSpace} {n : Nat} (normed : .node n (layerBackend s l) ∈ known) :
    InLayer s own l copies known (falconH1Attention s ws n l) := by
  refine given_derives fun tq => given_derives fun tk => given_derives fun tv => given_derives fun tO => ?_
  refine (graphMulMat_inLayer _ _ (by simp [normed])).bind fun q => ?_
  refine (graphMulMat_inLayer _ _ (by simp [normed])).bind fun k => ?_
  refine (graphMulMat_inLayer _ _ (by simp [normed])).bind fun v => ?_
  refine (addBias_inLayer _ (by simp)).bind fun q => ?_
  refine (addBias_inLayer _ (by simp)).bind fun k => ?_
  refine (addBias_inLayer _ (by simp)).bind fun v => ?_
  refine (graphRope_inLayer _ _ _ _ (by simp)).bind fun q => ?_
  refine (graphRope_inLayer _ _ _ _ (by simp)).bind fun k => ?_
  refine (graphAttn_inLayer _ _ (by simp) (by simp) (by simp)).bind fun attn => ?_
  exact graphMulMat_inLayer _ _ (by simp)

theorem falconH1Mixer_inLayer {ws : FalconH1WorkSpace} {n : Nat}
    (owner : ∀ ptr ∈ [ws.convState l,ws.ssmState l],ptr ≠ 0 → own ptr = some (layerBackend s l))
    (normed : .node n (layerBackend s l) ∈ known) : InLayer s own l copies known (falconH1Mixer s ws n l) := by
  refine given_derives fun tIn => given_derives fun tConv => given_derives fun tA => ?_
  refine given_derives fun tD => given_derives fun tDt => given_derives fun tSo => ?_
  refine (graphMulMat_inLayer _ _ (by simp [normed])).bind fun proj => ?_
  refine (graphState_derives (owner _ (by simp))).bind fun convSt => ?_
  refine (graphState_derives (owner _ (by simp))).bind fun ssmSt => ?_
  refine (graphMamba2Conv_inLayer _ _ _ (by simp) (by simp)).bind fun cv => ?_
  refine (graphMamba2Scan_inLayer _ _ _ _ _ (by simp) (by simp) (by simp)).bind fun scan => ?_
  exact graphMulMat_inLayer _ _ (by simp)

theorem falconH1Ffn_inLayer {hn : Nat} (source : .node hn (layerBackend s l) ∈ known) :
    InLayer s own l copies known (falconH1Ffn s hn l) := by
  refine given_derives fun tg => given_derives fun tu => given_derives fun td => ?_
  refine (graphMulMat_inLayer _ _ source).bind fun gate => ?_
  refine (graphSilu_inLayer (by simp)).bind fun gate => ?_
  refine (graphMulMat_inLayer _ _ (by simp [source])).bind fun up => ?_
  refine (graphBinary_inLayer _ (by simp) (by simp)).bind fun mul => ?_
  exact graphMulMat_inLayer _ _ (by simp)

theorem falconH1Layer_splits {ws : FalconH1WorkSpace}
    (owner : ∀ ptr ∈ [ws.convState l,ws.ssmState l],ptr ≠ 0 → own ptr = some (layerBackend s l)) :
    LayerSplits s own (falconH1Layer s ws) l := by
  intro cur known source
  refine (graphSetLayer_derives l).bind fun _ => ?_
  refine (graphRmsNorm_inLayer _ (by simp [source])).bind fun n => ?_
  refine (falconH1Attention_inLayer (by simp)).bind fun attn => ?_
  refine (falconH1Mixer_inLayer owner (by simp)).bind fun ssm => ?_
  refine (graphBinary_inLayer _ (by simp [source]) (by simp)).bind fun cur => ?_
  refine (graphBinary_inLayer _ (by simp) (by simp)).bind fun cur => ?_
  refine (graphRmsNorm_inLayer _ (by simp)).bind fun hn => ?_
  refine (falconH1Ffn_inLayer (by simp)).bind fun down => ?_
  refine (graphBinary_inLayer _ (by simp) (by simp)).bind fun cur => ?_
  exact boundary_splits (by simp)

end layers

section builders
variable {s : Session} {own : Nat → Option BackendType} {known : List Place} {l copies : Nat}

theorem embedded_inLayer (nTokens : Nat) : InLayer s own l copies known (embedded s nTokens) := by
  refine given_derives fun te => require_derives fun _ => ?_
  refine (graphInput_inLayer nTokens).bind fun input => ?_
  exact graphEmbed_inLayer _ _ (by simp)

theorem lmHead_inLayer {src : Nat} (source : .node src (layerBackend s l) ∈ known) : InLayer s own l copies known (lmHead s src) :=
  given_derives fun _ => graphMulMat_inLayer _ _ source

theorem cappedHead_inLayer (cap : Nat) {src : Nat} (source : .node src (layerBackend s l) ∈ known) :
    InLayer s own l copies known (do
      let cur ← lmHead s src
      if floatPositive cap then graphSoftcap cur cap else pure cur) := by
  refine (lmHead_inLayer source).bind fun cur => ?_
  split
  · exact graphSoftcap_inLayer _ (by simp)
  · exact stays_inLayer (by simp)

-- From the empty graph, with a download if the layers are split.
abbrev GraphSplits (s : Session) (own : Nat → Option BackendType) (b : Build Nat) : Prop :=
  Derives (SplitAt s own 0 0) (Split s own (if Splits s then 1 else 0)) (Place.Holds s own) [] b fun _ => []

theorem builder_splits {layer : Nat → Nat → Build Nat} {tail : Nat → Build Nat} {final : Option TensorInfo}
    (each : ∀ l < s.cfg.nLayer,LayerSplits s own layer l)
    (head : ∀ fn known,.node fn (layerBackend s s.cfg.nLayer) ∈ known →
      InLayer s own s.cfg.nLayer (if Splits s then 1 else 0) known (tail fn))
    {cur : Nat} (source : .node cur (layerBackend s 0) ∈ known) :
    Derives (SplitAt s own 0 0) (Split s own (if Splits s then 1 else 0)) (Place.Holds s own) known (do
      let cur ← overLayers layer (List.range s.cfg.nLayer) cur
      graphSetLayer s.cfg.nLayer
      let fn ← graphRmsNorm cur final
      tail fn) fun _ => [] := by
  refine ((overLayers_splits each source).weaken (fun _ start => start.1) fun _ done => done).bind fun cur => ?_
  refine (graphSetLayer_derives _).bind fun _ => ?_
  refine (graphRmsNorm_inLayer _ (by simp)).bind fun fn => ?_
  exact ((head fn _ (by simp)).weaken (fun _ start => start) fun _ done => done.1).less fun _ f listed => by cases listed

theorem llamaGraphBuild_splits (ws : LlamaWorkSpace) (nTokens : Nat) : GraphSplits s own (llamaGraphBuild s ws nTokens) :=
  require_derives fun _ => (embedded_inLayer nTokens).bind fun _ =>
    builder_splits (fun l _ => llamaLayer_splits ws l) (fun _ _ source => lmHead_inLayer source) (by simp)

theorem qwen25GraphBuild_splits (ws : Qwen25Workspace) (nTokens : Nat) : GraphSplits s own (qwen25GraphBuild s ws nTokens) :=
  require_derives fun _ => (embedded_inLayer nTokens).bind fun _ =>
    builder_splits (fun l _ => qwen25Layer_splits ws l) (fun _ _ source => lmHead_inLayer source) (by simp)

theorem gemma3GraphBuild_splits (ws : Gemma3WorkSpace) (nTokens : Nat) : GraphSplits s own (gemma3GraphBuild s ws nTokens) := by
  refine require_derives fun _ => (embedded_inLayer nTokens).bind fun _ => ?_
  refine (graphScale_inLayer _ (by simp)).bind fun cur => ?_
  exact builder_splits (fun l _ => gemma3Layer_splits ws l) (fun _ _ source => cappedHead_inLayer _ source) (by simp)

theorem qwen35GraphBuild_splits {ws : Qwen35Workspace} (nTokens : Nat)
    (owner : ∀ l < s.cfg.nLayer,∀ ptr ∈ [ws.convState l,ws.ssmState l],ptr ≠ 0 → own ptr = some (layerBackend s l)) :
    GraphSplits s own (qwen35GraphBuild s ws nTokens) :=
  require_derives fun _ => require_derives fun _ => (embedded_inLayer nTokens).bind fun _ =>
    builder_splits (fun l below => qwen35Layer_splits (owner l below)) (fun _ _ source => lmHead_inLayer source) (by simp)

theorem falconH1GraphBuild_splits {ws : FalconH1WorkSpace} (nTokens : Nat)
    (owner : ∀ l < s.cfg.nLayer,∀ ptr ∈ [ws.convState l,ws.ssmState l],ptr ≠ 0 → own ptr = some (layerBackend s l)) :
    GraphSplits s own (falconH1GraphBuild s ws nTokens) :=
  require_derives fun _ => (embedded_inLayer nTokens).bind fun _ =>
    builder_splits (fun l below => falconH1Layer_splits (owner l below)) (fun _ _ source => lmHead_inLayer source) (by simp)

theorem GraphSplits.graph {b : Build Nat} {g : Graph} (splits : GraphSplits s own b) (built : (b graphNew).map Prod.snd = some g) :
    Split s own (if Splits s then 1 else 0) g := by
  obtain ⟨⟨a,g'⟩,run,rfl⟩ := Option.map_eq_some_iff.mp built
  exact (splits graphNew a g' ⟨⟨fun _ listed => (by cases listed),rfl⟩,rfl⟩ (fun _ listed => by cases listed) run).1

end builders

end TinyLlama.Graph
