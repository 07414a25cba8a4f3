import TinyLlama.Graph.KvCache
import TinyLlama.Graph.Split
import TinyLlama.Lib.Views

namespace TinyLlama.Graph
open Gguf Views

def attention (g : Graph) : Nat × List (Nat × Nat) :=
  (g.curLayer,(g.nodes.filter fun n => n.op = .attn).map fun n => (n.layer,n.param 0))

def atLayer (l : Nat) (t : Nat × List (Nat × Nat)) : Nat × List (Nat × Nat) := (l,t.2)
def attend (l : Nat) (t : Nat × List (Nat × Nat)) : Nat × List (Nat × Nat) := (t.1,t.2++[(t.1,u32 l)])

def layerTurn (attends : Nat → Bool) (l : Nat) (t : Nat × List (Nat × Nat)) : Nat × List (Nat × Nat) :=
  if attends l then attend l (atLayer l t) else atLayer l t

abbrev Quiet (b : Build α) : Prop := Turns attention id b

section nodes
variable {op : GraphOp} {src k : Nat}

theorem nodeAdd_quiet (plain : op ≠ .attn) (srcs : List Nat) (weights : List (Option TensorInfo)) (params : List Nat) :
    Quiet (nodeAdd op srcs weights params) := by
  intro g a g' run
  cases run
  simp [attention,plain]

theorem graphAttn_turns (q k v layer window : Nat) : Turns attention (attend layer) (graphAttn q k v layer window) := by
  intro g a g' run
  cases run
  simp [attention,attend,GraphNode.param]

theorem graphSetLayer_turns (l : Nat) : Turns attention (atLayer l) (graphSetLayer l) := by
  intro g a g' run
  cases run
  rfl

theorem given_quiet (o : Option TensorInfo) : Quiet (given o) := by
  intro g a g' run
  obtain ⟨t,_,same⟩ := Option.map_eq_some_iff.mp run
  cases same
  rfl

theorem require_quiet (condition : Bool) : Quiet (require condition) := by
  intro g a g' run
  unfold require at run
  split at run
  · cases run
    rfl
  · cases run

theorem graphState_quiet (ptr : Nat) : Quiet (graphState ptr) := by
  intro g a g' run
  unfold graphState at run
  split at run
  · cases run
  · cases run
    rfl

theorem graphInput_quiet (nTokens : Nat) : Quiet (graphInput nTokens) := by
  intro g a g' run
  unfold graphInput at run
  split at run
  · cases run
  · cases run
    simp [attention]

theorem graphEmbed_quiet (src : Nat) (weight : TensorInfo) (nTokens : Nat) : Quiet (graphEmbed src weight nTokens) := by
  refine (require_quiet _).before fun _ => Turns.get fun g => ?_
  split
  · exact Turns.fails
  · exact (require_quiet _).before fun _ => nodeAdd_quiet (by decide) _ _ _

theorem graphRmsNorm_quiet (src : Nat) (weight : Option TensorInfo) : Quiet (graphRmsNorm src weight) :=
  (given_quiet _).before fun _ => nodeAdd_quiet (by decide) _ _ _

theorem graphRmsNormHeads_quiet (src : Nat) (weight : Option TensorInfo) (nHeads headDim inStride outStride : Nat) :
    Quiet (graphRmsNormHeads src weight nHeads headDim inStride outStride) :=
  (given_quiet _).before fun _ => (require_quiet _).before fun _ => (require_quiet _).before fun _ => nodeAdd_quiet (by decide) _ _ _

theorem graphMulMat_quiet (src : Nat) (weight : TensorInfo) (trans : Bool) : Quiet (graphMulMat src weight trans) :=
  (require_quiet _).before fun _ => nodeAdd_quiet (by cases trans <;> decide) _ _ _

theorem graphBinary_quiet (arithmetic : op ≠ .attn) (a b : Nat) : Quiet (graphBinary op a b) :=
  (require_quiet _).before fun _ => nodeAdd_quiet arithmetic _ _ _

theorem graphSoftcap_quiet (src cap : Nat) : Quiet (graphSoftcap src cap) :=
  (require_quiet _).before fun _ => nodeAdd_quiet (by decide) _ _ _

theorem addBias_quiet (src : Nat) (bias : Option TensorInfo) : Quiet (addBias src bias) := by
  cases bias with
  | none => exact Turns.pure src
  | some b => exact (require_quiet _).before fun _ => nodeAdd_quiet (by decide) _ _ _

theorem ropeNode_quiet (plain : op ≠ .attn) (src theta nHeads headDim ropeDim : Nat) :
    Quiet (ropeNode op src theta nHeads headDim ropeDim) :=
  (require_quiet _).before fun _ => nodeAdd_quiet plain _ _ _

theorem graphRope_quiet (src theta nHeads headDim ropeDim : Nat) : Quiet (graphRope src theta nHeads headDim ropeDim) :=
  ropeNode_quiet (by decide) src theta nHeads headDim ropeDim

theorem graphRopeNorm_quiet (src theta nHeads headDim ropeDim : Nat) : Quiet (graphRopeNorm src theta nHeads headDim ropeDim) :=
  ropeNode_quiet (by decide) src theta nHeads headDim ropeDim

theorem graphSigmoidGate_quiet (a gate nHeads headDim : Nat) : Quiet (graphSigmoidGate a gate nHeads headDim) :=
  (require_quiet _).before fun _ => nodeAdd_quiet (by decide) _ _ _

theorem graphSsmConv_quiet (src : Nat) (weight : TensorInfo) (state kernel : Nat) : Quiet (graphSsmConv src weight state kernel) :=
  (require_quiet _).before fun _ => Turns.get fun _ => (require_quiet _).before fun _ => nodeAdd_quiet (by decide) _ _ _

theorem graphSsmDelta_quiet (args : GraphSsmDelta) : Quiet (graphSsmDelta args) :=
  (require_quiet _).before fun _ => (require_quiet _).before fun _ => Turns.get fun _ => (require_quiet _).before fun _ =>
    nodeAdd_quiet (by decide) _ _ _

theorem graphMamba2Conv_quiet (src : Nat) (weight : TensorInfo) (bias : Option TensorInfo) (args : Mamba2Conv) :
    Quiet (graphMamba2Conv src weight bias args) :=
  (require_quiet _).before fun _ => (require_quiet _).before fun _ => Turns.get fun _ => (require_quiet _).before fun _ =>
    nodeAdd_quiet (by decide) _ _ _

theorem graphMamba2Scan_quiet (conv proj : Nat) (ssmA ssmD dtBias : TensorInfo) (weight : Option TensorInfo) (args : Mamba2Scan) :
    Quiet (graphMamba2Scan conv proj ssmA ssmD dtBias weight args) :=
  (require_quiet _).before fun _ => (require_quiet _).before fun _ => Turns.get fun _ => (require_quiet _).before fun _ =>
    nodeAdd_quiet (by decide) _ _ _

theorem graphLayerBoundary_quiet (src : Nat) (s : Session) (layer : Nat) : Quiet (graphLayerBoundary src s layer) := by
  unfold graphLayerBoundary
  split
  · exact Turns.pure src
  split
  · exact Turns.pure src
  · exact nodeAdd_quiet (by decide) _ _ _

end nodes

section layers
variable {s : Session} {l : Nat}

theorem swiglu_quiet (lw : TensorRole → Option TensorInfo) (c : ArchConfig) (fh hn : Nat) : Quiet (swiglu lw c fh hn) := by
  refine (given_quiet _).before fun tg => (given_quiet _).before fun tu => (given_quiet _).before fun td => ?_
  refine (graphMulMat_quiet _ _ _).before fun gate => ?_
  refine (nodeAdd_quiet (by decide) _ _ _).before fun gate => ?_
  refine (graphMulMat_quiet _ _ _).before fun up => ?_
  refine (graphBinary_quiet (by decide) _ _).before fun mul => ?_
  exact graphMulMat_quiet _ _ _

theorem llamaLayer_attends (ws : LlamaWorkSpace) (cur l : Nat) :
    Turns attention (layerTurn (fun _ => true) l) (llamaLayer s ws cur l) := by
  change Turns attention (fun t => attend l (atLayer l t)) _
  refine (graphSetLayer_turns l).bind fun _ => ?_
  refine (given_quiet _).before fun tq => (given_quiet _).before fun tk => (given_quiet _).before fun tv => ?_
  refine (given_quiet _).before fun tO => (graphRmsNorm_quiet _ _).before fun n => ?_
  refine (graphMulMat_quiet _ _ _).before fun q => (graphMulMat_quiet _ _ _).before fun k => ?_
  refine (graphMulMat_quiet _ _ _).before fun v => ?_
  refine (addBias_quiet _ _).before fun q => (addBias_quiet _ _).before fun k => (addBias_quiet _ _).before fun v => ?_
  refine (graphRopeNorm_quiet _ _ _ _ _).before fun q => (graphRopeNorm_quiet _ _ _ _ _).before fun k => ?_
  refine (graphAttn_turns _ _ _ l _).followed fun attn => ?_
  refine (graphMulMat_quiet _ _ _).before fun o => ?_
  refine (graphBinary_quiet (by decide) _ _).before fun h => ?_
  refine (graphRmsNorm_quiet _ _).before fun hn => (swiglu_quiet _ _ _ _).before fun down => ?_
  exact (graphBinary_quiet (by decide) _ _).before fun cur => graphLayerBoundary_quiet _ _ _

theorem qwen25Layer_attends (ws : Qwen25Workspace) (cur l : Nat) :
    Turns attention (layerTurn (fun _ => true) l) (qwen25Layer s ws cur l) := by
  change Turns attention (fun t => attend l (atLayer l t)) _
  refine (graphSetLayer_turns l).bind fun _ => ?_
  refine (given_quiet _).before fun tq => (given_quiet _).before fun tk => (given_quiet _).before fun tv => ?_
  refine (given_quiet _).before fun tO => (graphRmsNorm_quiet _ _).before fun n => ?_
  refine (graphMulMat_quiet _ _ _).before fun q => (graphMulMat_quiet _ _ _).before fun k => ?_
  refine (graphMulMat_quiet _ _ _).before fun v => ?_
  refine (addBias_quiet _ _).before fun q => (addBias_quiet _ _).before fun k => (addBias_quiet _ _).before fun v => ?_
  refine (graphRope_quiet _ _ _ _ _).before fun q => (graphRope_quiet _ _ _ _ _).before fun k => ?_
  refine (graphAttn_turns _ _ _ l _).followed fun attn => ?_
  refine (graphMulMat_quiet _ _ _).before fun o => ?_
  refine (graphBinary_quiet (by decide) _ _).before fun h => ?_
  refine (graphRmsNorm_quiet _ _).before fun hn => (swiglu_quiet _ _ _ _).before fun down => ?_
  exact (graphBinary_quiet (by decide) _ _).before fun cur => graphLayerBoundary_quiet _ _ _

theorem gemma3Layer_attends (ws : Gemma3WorkSpace) (cur l : Nat) :
    Turns attention (layerTurn (fun _ => true) l) (gemma3Layer s ws cur l) := by
  change Turns attention (fun t => attend l (atLayer l t)) _
  refine (graphSetLayer_turns l).bind fun _ => ?_
  refine (given_quiet _).before fun tq => (given_quiet _).before fun tk => (given_quiet _).before fun tv => ?_
  refine (given_quiet _).before fun tO => (given_quiet _).before fun tg => (given_quiet _).before fun tu => ?_
  refine (given_quiet _).before fun td => (graphRmsNorm_quiet _ _).before fun n => ?_
  refine (graphMulMat_quiet _ _ _).before fun q => (graphMulMat_quiet _ _ _).before fun k => ?_
  refine (graphMulMat_quiet _ _ _).before fun v => ?_
  refine (graphRmsNormHeads_quiet _ _ _ _ _ _).before fun q => (graphRmsNormHeads_quiet _ _ _ _ _ _).before fun k => ?_
  refine (graphRope_quiet _ _ _ _ _).before fun q => (graphRope_quiet _ _ _ _ _).before fun k => ?_
  refine (nodeAdd_quiet (by decide) _ _ _).before fun q => ?_
  refine (graphAttn_turns _ _ _ l _).followed fun attn => ?_
  refine (graphMulMat_quiet _ _ _).before fun o => (graphRmsNorm_quiet _ _).before fun o => ?_
  refine (graphBinary_quiet (by decide) _ _).before fun h => (graphRmsNorm_quiet _ _).before fun hn => ?_
  refine (graphMulMat_quiet _ _ _).before fun gate => (nodeAdd_quiet (by decide) _ _ _).before fun gate => ?_
  refine (graphMulMat_quiet _ _ _).before fun up => (graphBinary_quiet (by decide) _ _).before fun mul => ?_
  refine (graphMulMat_quiet _ _ _).before fun down => (graphRmsNorm_quiet _ _).before fun down => ?_
  exact (graphBinary_quiet (by decide) _ _).before fun cur => graphLayerBoundary_quiet _ _ _

theorem outputGate_quiet (gate : Option TensorInfo) (x n width : Nat) (c : ArchConfig) : Quiet (outputGate gate x n width c) := by
  cases gate with
  | none => exact Turns.pure x
  | some ag =>
    refine (graphMulMat_quiet _ _ _).before fun a => (nodeAdd_quiet (by decide) _ _ _).before fun a => ?_
    exact graphBinary_quiet (by decide) _ _

theorem qwen35Ssm_quiet (ws : Qwen35Workspace) (conv : TensorInfo) (cur n l : Nat) : Quiet (qwen35Ssm s ws conv cur n l) := by
  refine (given_quiet _).before fun qkv => (given_quiet _).before fun ta => (given_quiet _).before fun tb => ?_
  refine (given_quiet _).before fun tA => (given_quiet _).before fun dt => (given_quiet _).before fun so => ?_
  refine (graphState_quiet _).before fun convSt => (graphState_quiet _).before fun ssmSt => ?_
  refine (graphMulMat_quiet _ _ _).before fun f => (graphSsmConv_quiet _ _ _ _).before fun f => ?_
  refine (nodeAdd_quiet (by decide) _ _ _).before fun f => ?_
  refine (graphMulMat_quiet _ _ _).before fun a => (graphMulMat_quiet _ _ _).before fun b => ?_
  refine (graphSsmDelta_quiet _).before fun d => (outputGate_quiet _ _ _ _ _).before fun d => ?_
  exact (graphMulMat_quiet _ _ _).before fun y => graphBinary_quiet (by decide) _ _

theorem optionalNorm_quiet (src : Nat) (weight : Option TensorInfo) (nHeads headDim : Nat) :
    Quiet (optionalNorm src weight nHeads headDim) := by
  cases weight with
  | none => exact Turns.pure src
  | some t => exact graphRmsNormHeads_quiet _ _ _ _ _ _

theorem queryHalf_quiet (weight : Option TensorInfo) (fq proj : Nat) (c : ArchConfig) : Quiet (queryHalf weight fq proj c) := by
  cases weight with
  | none => exact (require_quiet _).before fun _ => Turns.pure fq
  | some t => exact (require_quiet _).before fun _ => graphRmsNormHeads_quiet _ _ _ _ _ _

theorem sigmoidGated_quiet (weight : Option TensorInfo) (attn fq : Nat) (c : ArchConfig) : Quiet (sigmoidGated weight attn fq c) := by
  cases weight with
  | none => exact Turns.pure attn
  | some t => exact graphSigmoidGate_quiet _ _ _ _

theorem qwen35Dense_attends (ws : Qwen35Workspace) (cur n l : Nat) : Turns attention (attend l) (qwen35Dense s ws cur n l) := by
  refine (given_quiet _).before fun tq => (given_quiet _).before fun tk => (given_quiet _).before fun tv => ?_
  refine (given_quiet _).before fun tO => (require_quiet _).before fun _ => ?_
  refine (graphMulMat_quiet _ _ _).before fun fq => (addBias_quiet _ _).before fun fq => (queryHalf_quiet _ _ _ _).before fun q => ?_
  refine (graphMulMat_quiet _ _ _).before fun k => (graphMulMat_quiet _ _ _).before fun v => ?_
  refine (addBias_quiet _ _).before fun k => (addBias_quiet _ _).before fun v => (optionalNorm_quiet _ _ _ _).before fun k => ?_
  refine (graphRope_quiet _ _ _ _ _).before fun q => (graphRope_quiet _ _ _ _ _).before fun k => ?_
  refine (graphAttn_turns _ _ _ l _).followed fun attn => ?_
  refine (outputGate_quiet _ _ _ _ _).before fun attn => (sigmoidGated_quiet _ _ _ _).before fun attn => ?_
  exact (graphMulMat_quiet _ _ _).before fun o => graphBinary_quiet (by decide) _ _

-- A layer with a convolution has no attention.
def denseTurn (s : Session) (l : Nat) (t : Nat × List (Nat × Nat)) : Nat × List (Nat × Nat) :=
  if (s.layers l .ssmConv1d).isNone then attend l t else t

theorem qwen35Layer_attends (ws : Qwen35Workspace) (cur l : Nat) :
    Turns attention (layerTurn (fun l => (s.layers l .ssmConv1d).isNone) l) (qwen35Layer s ws cur l) := by
  change Turns attention (fun t => denseTurn s l (atLayer l t)) _
  refine (graphSetLayer_turns l).bind fun _ => (graphRmsNorm_quiet _ _).before fun n => ?_
  have rest : ∀ cur,Quiet (do
      let hn ← graphRmsNorm cur (s.layers l .postAttnNorm)
      let down ← swiglu (s.layers l) s.cfg ws.ffnHidden hn
      let cur ← graphBinary .add cur down
      graphLayerBoundary cur s l) := fun cur =>
    (graphRmsNorm_quiet _ _).before fun hn => (swiglu_quiet _ _ _ _).before fun down =>
      (graphBinary_quiet (by decide) _ _).before fun cur => graphLayerBoundary_quiet _ _ _
  unfold denseTurn
  cases s.layers l .ssmConv1d with
  | some conv => exact (qwen35Ssm_quiet ws conv cur n l).followed rest
  | none => exact (qwen35Dense_attends ws cur n l).followed rest

theorem falconH1Attention_attends (ws : FalconH1WorkSpace) (n l : Nat) : Turns attention (attend l) (falconH1Attention s ws n l) := by
  refine (given_quiet _).before fun tq => (given_quiet _).before fun tk => (given_quiet _).before fun tv => ?_
  refine (given_quiet _).before fun tO => (graphMulMat_quiet _ _ _).before fun q => ?_
  refine (graphMulMat_quiet _ _ _).before fun k => (graphMulMat_quiet _ _ _).before fun v => ?_
  refine (addBias_quiet _ _).before fun q => (addBias_quiet _ _).before fun k => (addBias_quiet _ _).before fun v => ?_
  refine (graphRope_quiet _ _ _ _ _).before fun q => (graphRope_quiet _ _ _ _ _).before fun k => ?_
  exact (graphAttn_turns _ _ _ l _).followed fun attn => graphMulMat_quiet _ _ _

theorem falconH1Mixer_quiet (ws : FalconH1WorkSpace) (n l : Nat) : Quiet (falconH1Mixer s ws n l) := by
  refine (given_quiet _).before fun tIn => (given_quiet _).before fun tConv => (given_quiet _).before fun tA => ?_
  refine (given_quiet _).before fun tD => (given_quiet _).before fun tDt => (given_quiet _).before fun tSo => ?_
  refine (graphMulMat_quiet _ _ _).before fun proj => ?_
  refine (graphState_quiet _).before fun convSt => (graphState_quiet _).before fun ssmSt => ?_
  refine (graphMamba2Conv_quiet _ _ _ _).before fun cv => (graphMamba2Scan_quiet _ _ _ _ _ _ _).before fun scan => ?_
  exact graphMulMat_quiet _ _ _

theorem falconH1Ffn_quiet (hn l : Nat) : Quiet (falconH1Ffn s hn l) := by
  refine (given_quiet _).before fun tg => (given_quiet _).before fun tu => (given_quiet _).before fun td => ?_
  refine (graphMulMat_quiet _ _ _).before fun gate => (nodeAdd_quiet (by decide) _ _ _).before fun gate => ?_
  refine (graphMulMat_quiet _ _ _).before fun up => (graphBinary_quiet (by decide) _ _).before fun mul => ?_
  exact graphMulMat_quiet _ _ _

theorem falconH1Layer_attends (ws : FalconH1WorkSpace) (cur l : Nat) :
    Turns attention (layerTurn (fun _ => true) l) (falconH1Layer s ws cur l) := by
  change Turns attention (fun t => attend l (atLayer l t)) _
  refine (graphSetLayer_turns l).bind fun _ => (graphRmsNorm_quiet _ _).before fun n => ?_
  refine (falconH1Attention_attends ws n l).followed fun attn => (falconH1Mixer_quiet ws n l).before fun ssm => ?_
  refine (graphBinary_quiet (by decide) _ _).before fun cur => (graphBinary_quiet (by decide) _ _).before fun cur => ?_
  refine (graphRmsNorm_quiet _ _).before fun hn => (falconH1Ffn_quiet hn l).before fun down => ?_
  exact (graphBinary_quiet (by decide) _ _).before fun cur => graphLayerBoundary_quiet _ _ _

end layers

section builders
variable {s : Session}

theorem embedded_quiet (s : Session) (nTokens : Nat) : Quiet (embedded s nTokens) :=
  (given_quiet _).before fun _ => (require_quiet _).before fun _ => (graphInput_quiet nTokens).before fun _ =>
    graphEmbed_quiet _ _ _

theorem lmHead_quiet (s : Session) (src : Nat) : Quiet (lmHead s src) := (given_quiet _).before fun _ => graphMulMat_quiet _ _ _

theorem layers_attended {layer : Nat → Nat → Build Nat} {attends : Nat → Bool} {start : Build Nat} {tail : Nat → Build Nat}
    (each : ∀ l cur,Turns attention (layerTurn attends l) (layer cur l)) (quiet : Quiet start) (end' : ∀ fn,Quiet (tail fn))
    (final : Option TensorInfo) :
    Turns attention (fun t => atLayer s.cfg.nLayer ((List.range s.cfg.nLayer).foldl (fun t l => layerTurn attends l t) t)) (do
      let cur ← start
      let cur ← overLayers layer (List.range s.cfg.nLayer) cur
      graphSetLayer s.cfg.nLayer
      let fn ← graphRmsNorm cur final
      tail fn) := by
  refine quiet.before fun cur => (Turns.loop each _ cur).bind fun cur => ?_
  refine (graphSetLayer_turns _).followed fun _ => ?_
  exact (graphRmsNorm_quiet _ _).before end'

theorem layers_trace (attends : Nat → Bool) (ls : List Nat) : ∀ t : Nat × List (Nat × Nat),
    (ls.foldl (fun t l => layerTurn attends l t) t).2 = t.2++(ls.filter attends).map fun l => (l,u32 l) := by
  induction ls with
  | nil => exact fun t => (List.append_nil _).symm
  | cons l rest ih =>
    intro t
    rw [List.foldl_cons,ih,layerTurn,List.filter_cons]
    split
    · simp [attend,atLayer]
    · rfl

-- The attention nodes of a graph: for each layer that attends one, tagged with it.
def Attended (s : Session) (attends : Nat → Bool) (b : Build Nat) : Prop :=
  ∀ g,(b graphNew).map Prod.snd = some g → (attention g).2 = ((List.range s.cfg.nLayer).filter attends).map fun l => (l,u32 l)

theorem attended_of {attends : Nat → Bool} {b : Build Nat}
    (turns : Turns attention (fun t => atLayer s.cfg.nLayer ((List.range s.cfg.nLayer).foldl (fun t l => layerTurn attends l t) t)) b) :
    Attended s attends b := by
  intro g built
  obtain ⟨⟨a,g'⟩,run,rfl⟩ := Option.map_eq_some_iff.mp built
  rw [turns _ _ _ run]
  exact layers_trace attends _ _

theorem llamaGraphBuild_attended (ws : LlamaWorkSpace) (nTokens : Nat) : Attended s (fun _ => true) (llamaGraphBuild s ws nTokens) :=
  attended_of ((require_quiet _).before fun _ =>
    layers_attended (fun l cur => llamaLayer_attends ws cur l) (embedded_quiet s nTokens) (lmHead_quiet s) _)

theorem qwen25GraphBuild_attended (ws : Qwen25Workspace) (nTokens : Nat) : Attended s (fun _ => true) (qwen25GraphBuild s ws nTokens) :=
  attended_of ((require_quiet _).before fun _ =>
    layers_attended (fun l cur => qwen25Layer_attends ws cur l) (embedded_quiet s nTokens) (lmHead_quiet s) _)

theorem gemma3GraphBuild_attended (ws : Gemma3WorkSpace) (nTokens : Nat) : Attended s (fun _ => true) (gemma3GraphBuild s ws nTokens) := by
  refine attended_of ((require_quiet _).before fun _ => (embedded_quiet s nTokens).before fun cur => ?_)
  refine layers_attended (fun l cur => gemma3Layer_attends ws cur l) (nodeAdd_quiet (by decide) _ _ _) (fun fn => ?_) _
  refine (lmHead_quiet s fn).before fun cur => ?_
  split
  · exact graphSoftcap_quiet _ _
  · exact Turns.pure cur

theorem qwen35GraphBuild_attended (ws : Qwen35Workspace) (nTokens : Nat) :
    Attended s (fun l => (s.layers l .ssmConv1d).isNone) (qwen35GraphBuild s ws nTokens) :=
  attended_of ((require_quiet _).before fun _ => (require_quiet _).before fun _ =>
    layers_attended (fun l cur => qwen35Layer_attends ws cur l) (embedded_quiet s nTokens) (lmHead_quiet s) _)

theorem falconH1GraphBuild_attended (ws : FalconH1WorkSpace) (nTokens : Nat) :
    Attended s (fun _ => true) (falconH1GraphBuild s ws nTokens) :=
  attended_of ((require_quiet _).before fun _ =>
    layers_attended (fun l cur => falconH1Layer_attends ws cur l) (embedded_quiet s nTokens) (lmHead_quiet s) _)

theorem given_needs (o : Option TensorInfo) : Needs (o.isSome = true) (given o) := by
  intro g t g' run
  obtain ⟨t',there,_⟩ := Option.map_eq_some_iff.mp run
  rw [there]
  rfl

-- The layers of a graph that is built have a K projection where they attend.
def Keyed (s : Session) (attends : Nat → Bool) (b : Build Nat) : Prop :=
  ∀ g,(b graphNew).map Prod.snd = some g → ∀ l < s.cfg.nLayer,attends l = true → (s.layers l .attnK).isSome = true

theorem keyed_of {attends : Nat → Bool} {b : Build Nat}
    (needs : ∀ l < s.cfg.nLayer,Needs (attends l = true → (s.layers l .attnK).isSome = true) b) : Keyed s attends b := by
  intro g built l below
  obtain ⟨⟨a,g'⟩,run,rfl⟩ := Option.map_eq_some_iff.mp built
  exact needs l below _ _ _ run

theorem layers_needs {P : Nat → Prop} {layer : Nat → Nat → Build Nat} {start : Build Nat} {tail : Nat → Build Nat}
    (each : ∀ l cur,Needs (P l) (layer cur l)) {l : Nat} (below : l < s.cfg.nLayer) :
    Needs (P l) (do
      let cur ← start
      let cur ← overLayers layer (List.range s.cfg.nLayer) cur
      tail cur) :=
  Needs.later fun cur => (Needs.loop each (List.mem_range.mpr below) cur).now

theorem always_needs {P : Prop} {b : Build Nat} (needs : Needs P b) (Q : Prop) : Needs (Q → P) b := fun g a g' run _ => needs g a g' run

theorem llamaGraphBuild_keyed (ws : LlamaWorkSpace) (nTokens : Nat) : Keyed s (fun _ => true) (llamaGraphBuild s ws nTokens) := by
  refine keyed_of fun l below => Needs.later fun _ => layers_needs (P:=fun l => true = true → (s.layers l .attnK).isSome = true)
    (fun l cur => always_needs ?_ _) below
  exact Needs.later fun _ => Needs.later fun tq => (given_needs _).now

theorem qwen25GraphBuild_keyed (ws : Qwen25Workspace) (nTokens : Nat) : Keyed s (fun _ => true) (qwen25GraphBuild s ws nTokens) := by
  refine keyed_of fun l below => Needs.later fun _ => layers_needs (P:=fun l => true = true → (s.layers l .attnK).isSome = true)
    (fun l cur => always_needs ?_ _) below
  exact Needs.later fun _ => Needs.later fun tq => (given_needs _).now

theorem gemma3GraphBuild_keyed (ws : Gemma3WorkSpace) (nTokens : Nat) : Keyed s (fun _ => true) (gemma3GraphBuild s ws nTokens) := by
  refine keyed_of fun l below => Needs.later fun _ => Needs.later fun _ =>
    layers_needs (P:=fun l => true = true → (s.layers l .attnK).isSome = true) (fun l cur => always_needs ?_ _) below
  exact Needs.later fun _ => Needs.later fun tq => (given_needs _).now

theorem qwen35GraphBuild_keyed (ws : Qwen35Workspace) (nTokens : Nat) :
    Keyed s (fun l => (s.layers l .ssmConv1d).isNone) (qwen35GraphBuild s ws nTokens) := by
  refine keyed_of fun l below => Needs.later fun _ => Needs.later fun _ =>
    layers_needs (P:=fun l => (s.layers l .ssmConv1d).isNone = true → (s.layers l .attnK).isSome = true) (fun l cur => ?_) below
  refine Needs.later fun _ => Needs.later fun n => ?_
  cases s.layers l .ssmConv1d with
  | some conv =>
    intro g a g' run dense
    cases dense
  | none => exact (always_needs (Needs.later fun tq => (given_needs _).now) _).now

theorem falconH1GraphBuild_keyed (ws : FalconH1WorkSpace) (nTokens : Nat) :
    Keyed s (fun _ => true) (falconH1GraphBuild s ws nTokens) := by
  refine keyed_of fun l below => Needs.later fun _ => layers_needs (P:=fun l => true = true → (s.layers l .attnK).isSome = true)
    (fun l cur => always_needs ?_ _) below
  exact Needs.later fun _ => Needs.later fun n => Needs.now (Needs.later fun tq => (given_needs _).now)

end builders

section backends
variable {s : Session} {nodes : List GraphNode} {nLayer l : Nat} {B : Nat → BackendType}

theorem attnBackends_iff (owned : ∀ n ∈ nodes,n.op = .attn → n.backend = B (n.param 0)) (b : BackendType) :
    attnBackends nodes nLayer l = some b ↔ l < nLayer ∧ b = B l ∧ ∃ n ∈ nodes,n.op = .attn ∧ n.param 0 = l := by
  induction nodes using List.reverseRecOn with
  | nil => simp [attnBackends]
  | append_singleton nodes n ih =>
    have before := ih fun m listed => owned m (List.mem_append_left _ listed)
    have step : attnBackends (nodes++[n]) nLayer = attnSeen nLayer (attnBackends nodes nLayer) n := by
      unfold attnBackends
      rw [List.foldl_append]
      rfl
    rw [step]
    unfold attnSeen
    by_cases plain : n.op ≠ .attn
    · rw [if_pos plain,before]
      simp [plain]
    · have attn : n.op = .attn := not_not.mp plain
      have own := owned n (by simp) attn
      rw [if_neg plain]
      by_cases far : n.param 0 ≥ nLayer
      · rw [if_pos far,before]
        have other : l < nLayer → n.param 0 ≠ l := by omega
        constructor
        · rintro ⟨below,same,m,listed,found⟩
          exact ⟨below,same,m,List.mem_append_left _ listed,found⟩
        · rintro ⟨below,same,m,listed,kind,here⟩
          rcases List.mem_append.mp listed with old | new
          · exact ⟨below,same,m,old,kind,here⟩
          · obtain rfl := List.mem_singleton.mp new
            exact absurd here (other below)
      · rw [if_neg far]
        by_cases here : l = n.param 0
        · subst here
          rw [Function.update_self,own]
          constructor
          · intro same
            exact ⟨by omega,(Option.some.inj same).symm,n,by simp,attn,rfl⟩
          · rintro ⟨-,rfl,-⟩
            rfl
        · rw [Function.update_of_ne here,before]
          constructor
          · rintro ⟨below,same,m,listed,found⟩
            exact ⟨below,same,m,List.mem_append_left _ listed,found⟩
          · rintro ⟨below,same,m,listed,kind,there⟩
            rcases List.mem_append.mp listed with old | new
            · exact ⟨below,same,m,old,kind,there⟩
            · obtain rfl := List.mem_singleton.mp new
              exact absurd there.symm here

theorem attended_backends {g : Graph} {attends : Nat → Bool} (word : s.cfg.nLayer < 2^32)
    (attended : (attention g).2 = ((List.range s.cfg.nLayer).filter attends).map fun l => (l,u32 l)) (b : BackendType) :
    attnBackends (assignBackends s g.nodes) s.cfg.nLayer l = some b ↔ l < s.cfg.nLayer ∧ attends l = true ∧ b = layerBackend s l := by
  have listed : ∀ m ∈ g.nodes,m.op = .attn → m.layer < s.cfg.nLayer ∧ attends m.layer = true ∧ m.param 0 = m.layer := by
    intro m there attn
    have member : (m.layer,m.param 0) ∈ (attention g).2 := List.mem_map.mpr ⟨m,List.mem_filter.mpr ⟨there,by simp [attn]⟩,rfl⟩
    rw [attended] at member
    obtain ⟨j,found,same⟩ := List.mem_map.mp member
    obtain ⟨below,attending⟩ := List.mem_filter.mp found
    obtain ⟨rfl,number⟩ := Prod.mk.inj same
    have small := List.mem_range.mp below
    exact ⟨small,attending,number.symm.trans (u32_of_lt (by omega))⟩
  rw [attnBackends_iff (B:=layerBackend s) fun n there attn => ?_]
  · constructor
    · rintro ⟨below,same,n,there,attn,number⟩
      obtain ⟨m,old,rfl⟩ := List.mem_map.mp there
      obtain ⟨_,attending,number'⟩ := listed m old attn
      have here : m.layer = l := number'.symm.trans number
      rw [here] at attending
      exact ⟨below,attending,same⟩
    · rintro ⟨below,attending,same⟩
      have member : (l,u32 l) ∈ (attention g).2 := by
        rw [attended]
        exact List.mem_map.mpr ⟨l,List.mem_filter.mpr ⟨List.mem_range.mpr below,attending⟩,rfl⟩
      obtain ⟨m,found,number⟩ := List.mem_map.mp member
      obtain ⟨there,attn⟩ := List.mem_filter.mp found
      refine ⟨below,same,_,List.mem_map.mpr ⟨m,there,rfl⟩,of_decide_eq_true attn,?_⟩
      exact (Prod.mk.inj number).2.trans (u32_of_lt (by omega))
  · obtain ⟨m,old,rfl⟩ := List.mem_map.mp there
    obtain ⟨_,_,number⟩ := listed m old attn
    change assignedBackend s m = layerBackend s (m.param 0)
    rw [number]
    change m.op = .attn at attn
    unfold assignedBackend
    rw [if_neg (by simp [attn])]

end backends

end TinyLlama.Graph
