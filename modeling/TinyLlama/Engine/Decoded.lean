import TinyLlama.Engine.Shapes
import TinyLlama.Graph.Decoder
import TinyLlama.Graph.Split

namespace TinyLlama.Engine
open Gguf TinyLlama.Graph Causal

def gemma3Decoder {X : Type} (f : GraphOp → List (Option TensorInfo) → List Nat → List X → X) (s : Session) (ws : Gemma3WorkSpace) (x : X) : X :=
  let logits := stacked f s (gemma3Block f s ws) (s.tensors .outputNorm) (f .scale [] [ws.embedScale] [x])
  if floatPositive ws.logitSoftcap then f .softcap [] [ws.logitSoftcap] [logits] else logits

-- The model as a term over the ops: embeddings, layers, final norm and head.
def archDecoder {X : Type} (f : GraphOp → List (Option TensorInfo) → List Nat → List X → X) (s : Session) : ArchWorkspace → X
  | .llama ws => stacked f s (llamaBlock f s ws) (s.tensors .outputNorm) (tokenRows f s)
  | .qwen25 ws => stacked f s (qwen25Block f s ws) (qwenFinalNorm s) (tokenRows f s)
  | .gemma3 ws => gemma3Decoder f s ws (tokenRows f s)
  | .qwen35 ws => stacked f s (qwen35Block f s ws) (qwenFinalNorm s) (tokenRows f s)
  | .falconH1 ws =>
    stacked f s (falconH1Block f s ws) ((s.tensors .outputNorm).or (s.layers (s.cfg.nLayer-1) .ffnNorm)) (tokenRows f s)

section built
variable {β K : Type} {M : Meaning β K} {s : Session} {tok : Nat → Nat} {nTokens : Nat}
  {f : GraphOp → List (Option TensorInfo) → List Nat → List (Stream (List β)) → Stream (List β)}

theorem require_run {condition : Bool} {k : Unit → Build α} {g : Graph} (run : (require condition >>= k) g = some r) : k () g = some r := by
  obtain ⟨⟨_,g₁⟩,began,later⟩ := Option.bind_eq_some_iff.mp run
  unfold require at began
  split at began
  · cases began
    exact later
  · cases began

-- What every builder does: the embeddings, then a part over them.
theorem embedded_decodes (meant : f = M.op s.cfg tok) {rest : Nat → Build Nat} {y : Stream (List β) → Stream (List β)}
    (acts : ∀ cur x,Acts M s.cfg tok (rest cur) [(cur,x)] [] (y x)) {a : Nat} {g : Graph}
    (run : (embedded s nTokens >>= rest) graphNew = some (a,g)) :
    WellBuilt g.nodes ∧ M.output s.cfg tok g.nodes (g.nodes.length-1) = y (tokenRows f s) := by
  obtain ⟨⟨e,g₁⟩,began,later⟩ := Option.bind_eq_some_iff.mp run
  obtain ⟨input,embed,nodes,isInput,noSource,computes,source,rfl,rows⟩ := embedded_starts meant began
  rw [nodes] at rows
  have there : There M s.cfg tok g₁.nodes (1,tokenRows f s) := by
    rw [nodes]
    exact ⟨Nat.one_lt_two,rows⟩
  have grew := acts 1 (tokenRows f s) g₁ a g (fun k listed => by rwa [List.mem_singleton.mp listed]) later
  rw [nodes] at grew
  exact grown_built ⟨isInput,noSource⟩ ⟨computes,source⟩ grew

theorem layered_decodes (meant : f = M.op s.cfg tok) {layer : Nat → Nat → Build Nat} {block : Stream (List β) → Nat → Stream (List β)}
    {final : Option TensorInfo} {a : Nat} {g : Graph}
    (run : (do
      let cur ← embedded s nTokens
      let cur ← overLayers layer (List.range s.cfg.nLayer) cur
      graphSetLayer s.cfg.nLayer
      let fn ← graphRmsNorm cur final
      lmHead s fn) graphNew = some (a,g))
    (each : ∀ l cur x,Acts M s.cfg tok (layer cur l) [(cur,x)] [] (block x l)) :
    WellBuilt g.nodes ∧ M.output s.cfg tok g.nodes (g.nodes.length-1) = stacked f s block final (tokenRows f s) :=
  embedded_decodes meant (fun _ _ => stacked_acts meant each fun _ _ => lmHead_acts meant s) run

theorem scaled_decodes (meant : f = M.op s.cfg tok) (copies : M.Copies) {ws : Gemma3WorkSpace} {a : Nat} {g : Graph}
    (run : gemma3GraphBuild s ws nTokens graphNew = some (a,g)) :
    WellBuilt g.nodes ∧ M.output s.cfg tok g.nodes (g.nodes.length-1) = archDecoder f s (.gemma3 ws) := by
  refine embedded_decodes (y:=gemma3Decoder f s ws) meant (fun cur x => ?_) (require_run run)
  apply acts_of 1 1 rfl rfl
  intro start
  refine Builds.step (one_adds meant (graphScale_adds ws.embedScale) (by decide)) [0] [] rfl rfl fun cur => ?_
  have each : ∀ l cur x,Acts M s.cfg tok (gemma3Layer s ws cur l) [(cur,x)] [] (gemma3Block f s ws x l) :=
    fun _ _ _ => gemma3Layer_acts meant copies ws
  have layers : Acts M s.cfg tok (do
      let cur ← overLayers (gemma3Layer s ws) (List.range s.cfg.nLayer) cur
      graphSetLayer s.cfg.nLayer
      let fn ← graphRmsNorm cur (s.tensors .outputNorm)
      let cur ← lmHead s fn
      if floatPositive ws.logitSoftcap then graphSoftcap cur ws.logitSoftcap else pure cur)
      [(cur,f .scale [] [ws.embedScale] [x])] [] (gemma3Decoder f s ws x) :=
    stacked_acts meant each fun _ _ => cappedHead_acts meant ws.logitSoftcap
  exact Builds.last layers [1] [] rfl rfl (by decide +kernel)

theorem build_decodes (copies : M.Copies) (meant : f = M.op s.cfg tok) {ws : ArchWorkspace} {g : Graph}
    (built : archBuild s ws nTokens = some g) :
    WellBuilt g.nodes ∧ M.output s.cfg tok g.nodes (g.nodes.length-1) = archDecoder f s ws := by
  obtain ⟨⟨a,g'⟩,run,rfl⟩ := Option.map_eq_some_iff.mp built
  cases ws with
  | llama ws => exact layered_decodes meant (require_run run) fun l cur x => llamaLayer_acts meant copies ws
  | qwen25 ws => exact layered_decodes meant (require_run run) fun l cur x => qwen25Layer_acts meant copies ws
  | gemma3 ws => exact scaled_decodes meant copies run
  | qwen35 ws => exact layered_decodes meant (require_run (require_run run)) fun l cur x => qwen35Layer_acts meant copies ws
  | falconH1 ws => exact layered_decodes meant (require_run run) fun l cur x => falconH1Layer_acts meant copies ws

theorem placed_output (s : Session) (nodes : List GraphNode) : M.output s.cfg tok (assignBackends s nodes) = M.output s.cfg tok nodes := by
  refine output_congr ?_
  unfold assignBackends
  rw [List.map_map]
  rfl

-- After every op has its backend. What the model says of a position rests on the tokens up to it.
theorem archBuild_decodes (copies : M.Copies) {ws : ArchWorkspace} {g : Graph} (built : archBuild s ws nTokens = some g) :
    WellBuilt g.nodes ∧
      (∀ tok,M.output s.cfg tok (assignBackends s g.nodes) (g.nodes.length-1) = archDecoder (M.op s.cfg tok) s ws) ∧
      ∀ tok tok' q,(∀ p ≤ q,tok p = tok' p) → archDecoder (M.op s.cfg tok) s ws q = archDecoder (M.op s.cfg tok') s ws q := by
  have decodes (tok : Nat → Nat) := build_decodes copies (rfl : M.op s.cfg tok = M.op s.cfg tok) built
  refine ⟨(decodes fun _ => 0).1,fun tok => ?_,fun tok tok' q tokens => ?_⟩
  · rw [placed_output]
    exact (decodes tok).2
  · rw [← (decodes tok).2,← (decodes tok').2]
    exact output_upto tokens _ q le_rfl

-- Neither the number of layers on the device, nor the size of a micro-batch or of the context.
theorem archBuild_unsplit (copies : M.Copies) {ws : ArchWorkspace} {g g' : Graph} {layers : Int} {ctxSize nTokens' : Nat}
    (built : archBuild s ws nTokens = some g) (built' : archBuild {s with nGpuLayers:=layers,ctxSize:=ctxSize} ws nTokens' = some g') (tok : Nat → Nat) :
    M.output s.cfg tok (assignBackends {s with nGpuLayers:=layers,ctxSize:=ctxSize} g'.nodes) (g'.nodes.length-1) =
      M.output s.cfg tok (assignBackends s g.nodes) (g.nodes.length-1) := by
  have decodes := (build_decodes copies (rfl : M.op s.cfg tok = M.op s.cfg tok) built).2
  have decodes' := (build_decodes (s:={s with nGpuLayers:=layers,ctxSize:=ctxSize}) copies (rfl : M.op s.cfg tok = M.op s.cfg tok) built').2
  have placed : M.output s.cfg tok (assignBackends {s with nGpuLayers:=layers,ctxSize:=ctxSize} g'.nodes) = M.output s.cfg tok g'.nodes :=
    placed_output {s with nGpuLayers:=layers,ctxSize:=ctxSize} g'.nodes
  rw [placed_output]
  refine (congrFun placed _).trans (decodes'.trans (Eq.trans ?_ decodes.symm))
  cases ws <;> rfl

end built

-- Rows of one entry that are added up: an attention or a recurrent op adds what it has seen.
def tally : Meaning Nat Nat where
  ids id := [id]
  floats row j := row.getD j 0
  plain op _ params q rows := match op,rows with
    | .d2h,[some row] => row
    | _,_ => [q+params.sum+(rows.map fun row => ((row.getD []).getD 0 0)).sum]
  attend _ q rows keys _ := [rows.length+((List.range (q+1)).map fun s => (keys 0 s 0).getD 0).sum]
  advance _ _ _ _ rows state := (fun j => state j+((rows.getD 0 none).getD []).getD 0 0,[state 0])
  fresh _ := 0

theorem tally_copies : tally.Copies := fun _ _ _ _ => rfl

def blockTensors (blk : String) : List Info :=
  [(".attn_norm.weight",[2]),(".attn_q.weight",[2,2]),(".attn_k.weight",[2,2]),(".attn_v.weight",[2,2]),(".attn_output.weight",[2,2]),
   (".ffn_norm.weight",[2]),(".ffn_gate.weight",[2,3]),(".ffn_up.weight",[2,3]),(".ffn_down.weight",[3,2])].map
    fun t => ⟨cstr (blk++t.1),t.2,0,0⟩

def stackedLayout : Layout :=
  ⟨[⟨cstr "general.architecture",.string (cstr "llama")⟩,entryU32 "llama.attention.head_count" 1],
   [⟨cstr "token_embd.weight",[2,4],0,0⟩,⟨cstr "output_norm.weight",[2],0,0⟩]++blockTensors "blk.0"++blockTensors "blk.1",
   List.replicate 64 0⟩

theorem stacked_fits : stackedLayout.encode.length < addressSpace := by decide +kernel

def stackedFile : MappedFile := ⟨stackedLayout.encode,stacked_fits⟩

-- One of them on the device, in a context of four: the boundary copies.
def oneOnDevice (x : Loaded) : Session := {x.s with nGpuLayers:=1,ctxSize:=4}

theorem stacked_splits : (load stackedFile).any (fun x => decide (x.s.cfg.nLayer = 2) && (archBuild (oneOnDevice x) x.ws 1).any fun g =>
    g.nodes.any (fun node => decide (node.op = .d2h)) && (assignBackends (oneOnDevice x) g.nodes).any (fun node => decide (node.backend ≠ .cpu))) =
      true := by decide +kernel

theorem llama_decodes : ∃ x,load stackedFile = some x ∧ x.s.cfg.nLayer = 2 ∧ WellBuilt x.g.nodes ∧
    (∀ tok,tally.output x.s.cfg tok (assignBackends x.s x.g.nodes) (x.g.nodes.length-1) = archDecoder (tally.op x.s.cfg tok) x.s x.ws) ∧
    ∀ tok tok' q,(∀ p ≤ q,tok p = tok' p) → archDecoder (tally.op x.s.cfg tok) x.s x.ws q = archDecoder (tally.op x.s.cfg tok') x.s x.ws q := by
  obtain ⟨x,loaded,splits⟩ := (Option.any_eq_true _ _).mp stacked_splits
  obtain ⟨layers,_⟩ := (Bool.and_eq_true _ _).mp splits
  obtain ⟨_,_,_,built⟩ := load_parts loaded
  exact ⟨x,loaded,of_decide_eq_true layers,archBuild_decodes tally_copies built⟩

theorem llama_unsplit : ∃ x g,load stackedFile = some x ∧ archBuild (oneOnDevice x) x.ws 1 = some g ∧ (∃ node ∈ g.nodes,node.op = .d2h) ∧
    (∃ node ∈ assignBackends (oneOnDevice x) g.nodes,node.backend ≠ .cpu) ∧
    ∀ tok,tally.output x.s.cfg tok (assignBackends (oneOnDevice x) g.nodes) (g.nodes.length-1) =
      tally.output x.s.cfg tok (assignBackends x.s x.g.nodes) (x.g.nodes.length-1) := by
  obtain ⟨x,loaded,splits⟩ := (Option.any_eq_true _ _).mp stacked_splits
  obtain ⟨_,splits⟩ := (Bool.and_eq_true _ _).mp splits
  obtain ⟨g,built',copied⟩ := (Option.any_eq_true _ _).mp splits
  obtain ⟨copies,device⟩ := (Bool.and_eq_true _ _).mp copied
  obtain ⟨a,node,isCopy⟩ := List.any_eq_true.mp copies
  obtain ⟨b,node',isDevice⟩ := List.any_eq_true.mp device
  obtain ⟨_,_,_,built⟩ := load_parts loaded
  exact ⟨x,g,loaded,built',⟨a,node,of_decide_eq_true isCopy⟩,⟨b,node',of_decide_eq_true isDevice⟩,archBuild_unsplit tally_copies built built'⟩

end TinyLlama.Engine
