import TinyLlama.Engine.GroupedHeads
import TinyLlama.Graph.Attended

-- core.c and graph.c in a CUDA build: the KV bytes engine_auto_ctx_size budgets, and those cache_build takes.
namespace TinyLlama.Engine
open Gguf TinyLlama.Graph Cells

-- The estimate is kept for the context, the micro-batch and the slots it was made for;
-- freeB is what the device had free then.
def sessionAutoGpuLayers (m : Model) (w : Weights) (cfg : ArchConfig) (arena : Arena) (ctxSize nUbatch : Nat) (nParallel : Int)
    (freeB : Nat) : Int :=
  gpuLayersFitAt m w cfg arena ctxSize nUbatch nParallel freeB

def sessionResolveGpuLayers (m : Model) (w : Weights) (cfg : ArchConfig) (arena : Arena) (device : Device) (ctxSize nUbatch : Nat)
    (requested nParallel : Int) : Int :=
  match device with
  | none => 0
  | some freeB =>
    let L := i32 cfg.nLayer
    if requested < 0 then sessionAutoGpuLayers m w cfg arena ctxSize nUbatch nParallel freeB
    else if requested > L then L
    else requested

-- What session_create is given, besides the model.
structure Request where
  ctxSize : Nat
  nUbatch : Nat
  nGpuLayers : Int
  nParallel : Int

-- The session as session_create hands it to init.
def sessionCreate (m : Model) (w : Weights) (vocabSize : Nat) (arena : Arena) (device : Device) (r : Request) : Session :=
  sessionOf m w vocabSize r.ctxSize (sessionResolveGpuLayers m w (archConfigInit m w vocabSize) arena device r.ctxSize
    (sessionUbatch r.ctxSize r.nUbatch) r.nGpuLayers r.nParallel)

-- The K and V bytes of the layers whose cache is on the device, as exact integers.
def kvDeviceBytes (c : ArchConfig) (ctxSize : Nat) (nodes : List GraphNode) : Nat := 2*attnLayers c nodes .cuda*kvTotal c ctxSize

theorem kvDeviceBytes_allocated {arenaAlloc : BackendType → Nat → Bool} {c : ArchConfig} {nodes : List GraphNode} {layout : KvLayout}
    (built : cacheBuildAttnKvcache arenaAlloc c ctxSize nodes = some layout) :
    layout.kvcacheSize .cuda = u64 (kvDeviceBytes c ctxSize nodes) := (cacheBuild_laid built).size .cuda

theorem layersWeightsFrom_inside (map : List LayerTensorMap) (nLayer : Nat) (ts : List TensorInfo) : ∀ {i : Nat} {table : LayerTable},
    (∀ l r j,table l r = some j → j < i) → ∀ l r j,layersWeightsFrom map nLayer i ts table l r = some j → j < i+ts.length := by
  induction ts with
  | nil => exact fun inside => inside
  | cons t rest ih =>
    intro i table inside l r j found
    rw [List.length_cons]
    unfold layersWeightsFrom at found
    cases slot : layerSlot map nLayer t with
    | none =>
      rw [slot] at found
      have within := ih (fun l r j found => Nat.lt_succ_of_lt (inside l r j found)) l r j found
      omega
    | some place =>
      rw [slot] at found
      have bound : ∀ l r j,table.bind place.1 place.2 i l r = some j → j < i+1 := by
        intro l r j found
        unfold LayerTable.bind at found
        split at found
        · cases found
          exact Nat.lt_succ_self i
        · exact Nat.lt_succ_of_lt (inside l r j found)
      have within := ih bound l r j found
      omega

theorem layers_inside {m : Model} {w : Weights} (loaded : weightsLoad m = .ok w) {l i : Nat} {r : TensorRole}
    (found : w.layers l r = some i) : i < m.tensor.length := by
  unfold weightsLoad at loaded
  split at loaded
  · cases loaded
  · cases loaded
    have inside := @layersWeightsFrom_inside (archLayerMap m.arch) (modelCountLayers m) m.tensor 0 (fun _ _ => none)
      (fun _ _ _ none' => by cases none') l r i found
    omega

theorem layers_isSome {m : Model} {w : Weights} (loaded : weightsLoad m = .ok w) (l : Nat) (r : TensorRole) :
    (tensorAt m (w.layers l r)).isSome = (w.layers l r).isSome := by
  cases found : w.layers l r with
  | none => rfl
  | some i =>
    obtain ⟨t,there⟩ : ∃ t,m.tensor[i]? = some t := ⟨_,List.getElem?_eq_getElem (layers_inside loaded found)⟩
    simp only [tensorAt,Option.bind_some,there,Option.isSome_some]

theorem weightsLoad_word {m : Model} {w : Weights} (loaded : weightsLoad m = .ok w) : w.nLayer < 2^32 := by
  unfold weightsLoad at loaded
  split at loaded
  · cases loaded
  · cases loaded
    exact u32_lt _

-- Falcon-H1 ignores what was resolved.
def offloaded (m : Model) (resolved : Int) : Int := if m.arch = .falconH1 then 0 else resolved

-- The layers with an attention node.
def archAttends (m : Model) (s : Session) (l : Nat) : Bool := m.arch ≠ .qwen3 || (s.layers l .ssmConv1d).isNone

section sessions
variable {m : Model} {s s' : Session} {read : Floats} {granted : List Nat → Nat → Bool} {ws : ArchWorkspace} {blocks : List Nat}
  {g : Graph}

theorem archInit_session (init : archInit m s read granted = some (s',ws,blocks)) :
    s' = {s with nGpuLayers:=offloaded m s.nGpuLayers} := by
  unfold archInit at init
  unfold offloaded
  split at init
  all_goals rename_i arch; rw [arch]; cases init <;> rfl

theorem archBuild_attended (init : archInit m s read granted = some (s',ws,blocks)) (built : archBuild s' ws nTokens = some g) :
    (attention g).2 = ((List.range s'.cfg.nLayer).filter (archAttends m s')).map (fun l => (l,u32 l)) ∧
      ∀ l < s'.cfg.nLayer,archAttends m s' l = true → (s'.layers l .attnK).isSome = true := by
  unfold archInit at init
  unfold archAttends
  split at init
  all_goals rename_i arch; rw [arch]; cases init
  · exact ⟨llamaGraphBuild_attended _ _ g built,llamaGraphBuild_keyed _ _ g built⟩
  · exact ⟨llamaGraphBuild_attended _ _ g built,llamaGraphBuild_keyed _ _ g built⟩
  · exact ⟨qwen25GraphBuild_attended _ _ g built,qwen25GraphBuild_keyed _ _ g built⟩
  · exact ⟨gemma3GraphBuild_attended _ _ g built,gemma3GraphBuild_keyed _ _ g built⟩
  · exact ⟨qwen35GraphBuild_attended _ _ g built,qwen35GraphBuild_keyed _ _ g built⟩
  · exact ⟨falconH1GraphBuild_attended _ _ g built,falconH1GraphBuild_keyed _ _ g built⟩

end sessions

-- The layers whose cache the estimate counts.
def countedLayers (requested : Int) (nLayer : Nat) : Nat := if requested < 0 ∨ requested ≥ nLayer then nLayer else requested.toNat

-- No byte of cache, or every counted layer attends and is on the device.
def Budgeted (m : Model) (w : Weights) (c : ArchConfig) (ctxSize : Nat) (requested resolved : Int) : Prop :=
  kvTotal c ctxSize = 0 ∨ ∀ l < countedLayers requested c.nLayer,layerHasKvCache (w.layers l) = true →
    l < (offloaded m resolved).toNat ∧ (m.arch = .qwen3 → w.layers l .ssmConv1d = none)

theorem kvCacheBytesPerToken_eq {m : Model} (plain : m.arch ≠ .deepseek) (w : Weights) (c : ArchConfig) (kvLoraRank ctxSize : Nat)
    (requested : Int) : ctxSize*kvCacheBytesPerToken m w c kvLoraRank requested =
      2*Nat.count (fun l => layerHasKvCache (w.layers l) = true) (countedLayers requested c.nLayer)*kvTotal c ctxSize := by
  have count : ∀ n,Nat.count (fun l => layerHasKvCache (w.layers l) = true) n =
      ((List.range n).filter fun l => layerHasKvCache (w.layers l)).length := by
    intro n
    unfold Nat.count
    rw [List.countP_eq_length_filter]
    simp only [Bool.decide_eq_true]
  unfold kvCacheBytesPerToken
  dsimp only
  rw [if_neg plain,count,countedLayers,kvTotal]
  ring

theorem offloaded_le {m : Model} {w : Weights} {c : ArchConfig} {arena : Arena} {device : Device} {l : Nat} (below : l < c.nLayer)
    (on : l < (offloaded m (sessionResolveGpuLayers m w c arena device ctxSize nUbatch requested nParallel)).toNat) :
    l < countedLayers requested c.nLayer := by
  unfold countedLayers
  split
  · exact below
  · next inner =>
    unfold offloaded at on
    split at on
    · exact absurd on (Nat.not_lt_zero _)
    · unfold sessionResolveGpuLayers at on
      cases device with
      | none => exact absurd on (Nat.not_lt_zero _)
      | some freeB =>
        dsimp only at on
        split at on
        · omega
        split at on <;> omega

theorem layerBackend_device {s : Session} {l : Nat} (below : l < s.cfg.nLayer) : layerBackend s l = .cuda ↔ l < s.nGpuLayers.toNat := by
  rw [layerBackend_cuda]
  omega

section models
variable {m : Model} {w : Weights} {s : Session} {read : Floats} {granted : List Nat → Nat → Bool} {ws : ArchWorkspace}
  {blocks : List Nat} {g : Graph} {arena : Arena} {device : Device} {r : Request} {vocabSize kvLoraRank nTokens : Nat}

def resolved (m : Model) (w : Weights) (vocabSize : Nat) (arena : Arena) (device : Device) (r : Request) : Int :=
  (sessionCreate m w vocabSize arena device r).nGpuLayers

theorem device_layers (loaded : weightsLoad m = .ok w)
    (init : archInit m (sessionCreate m w vocabSize arena device r) read granted = some (s,ws,blocks))
    (built : archBuild s ws nTokens = some g) (l : Nat) :
    attnBackends (assignBackends s g.nodes) s.cfg.nLayer l = some .cuda ↔ l < s.cfg.nLayer ∧
      (m.arch = .qwen3 → w.layers l .ssmConv1d = none) ∧ l < (offloaded m (resolved m w vocabSize arena device r)).toNat := by
  have session := archInit_session init
  have conv : (s.layers l .ssmConv1d).isSome = (w.layers l .ssmConv1d).isSome := by
    rw [session]
    exact layers_isSome loaded l .ssmConv1d
  have word : s.cfg.nLayer < 2^32 := by
    rw [session]
    exact weightsLoad_word loaded
  have attends : archAttends m s l = true ↔ (m.arch = .qwen3 → w.layers l .ssmConv1d = none) := by
    unfold archAttends
    rw [Bool.or_eq_true,decide_eq_true_iff,Option.isNone_iff_eq_none,← Option.not_isSome_iff_eq_none,conv,Option.not_isSome_iff_eq_none]
    exact imp_iff_not_or.symm
  have layers : s.nGpuLayers = offloaded m (resolved m w vocabSize arena device r) := by
    rw [session]
    rfl
  rw [attended_backends word (archBuild_attended init built).1,attends,← layers]
  refine and_congr_right fun below => and_congr_right fun _ => ?_
  rw [eq_comm]
  exact layerBackend_device below

theorem device_counted (loaded : weightsLoad m = .ok w)
    (init : archInit m (sessionCreate m w vocabSize arena device r) read granted = some (s,ws,blocks))
    (built : archBuild s ws nTokens = some g) (l : Nat)
    (placed : attnBackends (assignBackends s g.nodes) s.cfg.nLayer l = some .cuda) :
    l < countedLayers r.nGpuLayers s.cfg.nLayer ∧ layerHasKvCache (w.layers l) = true := by
  obtain ⟨below,attends,on⟩ := (device_layers loaded init built l).mp placed
  have session := archInit_session init
  constructor
  · rw [session] at below ⊢
    exact offloaded_le below on
  · have key := (archBuild_attended init built).2 l below (by
      have word : s.cfg.nLayer < 2^32 := by
        rw [session]
        exact weightsLoad_word loaded
      exact ((attended_backends word (archBuild_attended init built).1 _).mp placed).2.1)
    have same : (s.layers l .attnK).isSome = (w.layers l .attnK).isSome := by
      rw [session]
      exact layers_isSome loaded l .attnK
    unfold layerHasKvCache
    rw [← same,key,Bool.true_or]

theorem archInit_plain (init : archInit m s' read granted = some (s,ws,blocks)) : m.arch ≠ .deepseek := by
  intro arch
  unfold archInit at init
  rw [arch] at init
  cases init

section session
variable (loaded : weightsLoad m = .ok w) (init : archInit m (sessionCreate m w vocabSize arena device r) read granted = some (s,ws,blocks))
  (built : archBuild s ws nTokens = some g)
include loaded init built

theorem counted_layers :
    attnLayers s.cfg (assignBackends s g.nodes) .cuda ≤
        Nat.count (fun l => layerHasKvCache (w.layers l) = true) (countedLayers r.nGpuLayers s.cfg.nLayer) ∧
      (Nat.count (fun l => layerHasKvCache (w.layers l) = true) (countedLayers r.nGpuLayers s.cfg.nLayer) =
          attnLayers s.cfg (assignBackends s g.nodes) .cuda ↔
        ∀ l < countedLayers r.nGpuLayers s.cfg.nLayer,layerHasKvCache (w.layers l) = true → l < s.cfg.nLayer ∧
          attnBackends (assignBackends s g.nodes) s.cfg.nLayer l = some .cuda) :=
  count_inside fun l _ placed => device_counted loaded init built l placed

theorem kvBudget_enough :
    kvDeviceBytes s.cfg r.ctxSize (assignBackends s g.nodes) ≤ r.ctxSize*kvCacheBytesPerToken m w s.cfg kvLoraRank r.nGpuLayers := by
  rw [kvCacheBytesPerToken_eq (archInit_plain init),kvDeviceBytes]
  exact Nat.mul_le_mul_right _ (Nat.mul_le_mul_left 2 (counted_layers loaded init built).1)

theorem kvBudget_iff :
    r.ctxSize*kvCacheBytesPerToken m w s.cfg kvLoraRank r.nGpuLayers = kvDeviceBytes s.cfg r.ctxSize (assignBackends s g.nodes) ↔
      Budgeted m w s.cfg r.ctxSize r.nGpuLayers (resolved m w vocabSize arena device r) := by
  rw [kvCacheBytesPerToken_eq (archInit_plain init),kvDeviceBytes,Budgeted,mul_eq_mul_right_iff,Nat.mul_left_cancel_iff two_pos,
    (counted_layers loaded init built).2,or_comm]
  refine or_congr_right (forall_congr' fun l => forall_congr' fun below => forall_congr' fun cached => ?_)
  have inner : l < s.cfg.nLayer := by
    unfold countedLayers at below
    split at below <;> omega
  rw [device_layers loaded init built l]
  exact ⟨fun all => ⟨all.2.2.2,all.2.2.1⟩,fun both => ⟨inner,inner,both.2,both.1⟩⟩

end session

end models

instance (m : Model) (w : Weights) (c : ArchConfig) (ctxSize : Nat) (requested resolved : Int) :
    Decidable (Budgeted m w c ctxSize requested resolved) := inferInstanceAs (Decidable (_ ∨ _))

def create (f : MappedFile) (device : Device) (r : Request) : Option Loaded := do
  let m ← (modelLoad f).toOption
  let w ← (weightsLoad m).toOption
  let (s,ws,blocks) ← archInit m (sessionCreate m w 4 (exactArena smallConfig 1) device r) noFloats fun _ _ => true
  let g ← archBuild s ws 2
  some ⟨m,w,s,ws,blocks,g⟩

theorem create_parts (created : create f device r = some x) : modelLoad f = .ok x.m ∧ weightsLoad x.m = .ok x.w ∧
    archInit x.m (sessionCreate x.m x.w 4 (exactArena smallConfig 1) device r) noFloats (fun _ _ => true) = some (x.s,x.ws,x.blocks) ∧
    archBuild x.s x.ws 2 = some x.g := by
  obtain ⟨m,parsed,created⟩ := Option.bind_eq_some_iff.mp created
  obtain ⟨w,weights,created⟩ := Option.bind_eq_some_iff.mp created
  obtain ⟨⟨s,ws,blocks⟩,init,created⟩ := Option.bind_eq_some_iff.mp created
  obtain ⟨g,built,created⟩ := Option.bind_eq_some_iff.mp created
  cases created
  exact ⟨toOption_ok parsed,toOption_ok weights,init,built⟩

def oneLayer : Request := ⟨8,2,1,1⟩

def falconLayout : Layout :=
  ⟨[⟨cstr "general.architecture",.string (cstr "falcon-h1")⟩,entryU32 "falcon-h1.attention.head_count" 1,
    entryU32 "falcon-h1.ssm.inner_size" 2,entryU32 "falcon-h1.ssm.time_step_rank" 1],
   [⟨cstr "token_embd.weight",[2,4],0,0⟩,⟨cstr "output_norm.weight",[2],0,0⟩,⟨cstr "blk.0.attn_norm.weight",[2],0,0⟩,
    ⟨cstr "blk.0.attn_q.weight",[2,2],0,0⟩,⟨cstr "blk.0.attn_k.weight",[2,2],0,0⟩,⟨cstr "blk.0.attn_v.weight",[2,2],0,0⟩,
    ⟨cstr "blk.0.attn_output.weight",[2,2],0,0⟩,⟨cstr "blk.0.ffn_norm.weight",[2],0,0⟩,⟨cstr "blk.0.ffn_gate.weight",[2,2],0,0⟩,
    ⟨cstr "blk.0.ffn_up.weight",[2,2],0,0⟩,⟨cstr "blk.0.ffn_down.weight",[2,2],0,0⟩,⟨cstr "blk.0.ssm_in.weight",[2,2],0,0⟩,
    ⟨cstr "blk.0.ssm_conv1d.weight",[2,2],0,0⟩,⟨cstr "blk.0.ssm_a",[2],0,0⟩,⟨cstr "blk.0.ssm_d",[2],0,0⟩,
    ⟨cstr "blk.0.ssm_dt.bias",[2],0,0⟩,⟨cstr "blk.0.ssm_out.weight",[2,2],0,0⟩],
   List.replicate 64 0⟩

theorem falcon_fits : falconLayout.encode.length < addressSpace := by decide +kernel

theorem falcon_created : (create ⟨falconLayout.encode,falcon_fits⟩ (some (2^33)) oneLayer).any (fun x =>
    decide (8*kvCacheBytesPerToken x.m x.w x.s.cfg 0 1 = 128 ∧ kvDeviceBytes x.s.cfg 8 (assignBackends x.s x.g.nodes) = 0)) = true := by
  decide +kernel

-- The estimate has 16 bytes for each of 8 tokens; the layer stays on the CPU.
theorem falconH1_overcounted : ∃ m w s ws blocks g,modelLoad ⟨falconLayout.encode,falcon_fits⟩ = .ok m ∧ weightsLoad m = .ok w ∧
    archInit m (sessionCreate m w 4 (exactArena smallConfig 1) (some (2^33)) oneLayer) noFloats (fun _ _ => true) = some (s,ws,blocks) ∧
    archBuild s ws 2 = some g ∧
    oneLayer.ctxSize*kvCacheBytesPerToken m w s.cfg 0 oneLayer.nGpuLayers ≠
      kvDeviceBytes s.cfg oneLayer.ctxSize (assignBackends s g.nodes) := by
  obtain ⟨x,created,bytes⟩ := (Option.any_eq_true _ _).mp falcon_created
  obtain ⟨parsed,weights,init,built⟩ := create_parts created
  obtain ⟨budget,taken⟩ := of_decide_eq_true bytes
  refine ⟨x.m,x.w,x.s,x.ws,x.blocks,x.g,parsed,weights,init,built,fun same => ?_⟩
  exact absurd ((budget.symm.trans same).trans taken) (by decide)

-- A llama layer is on the device, as counted.
theorem llama_created : (create (llamaFile 2 narrow_fits) (some (2^33)) oneLayer).any (fun x =>
    decide (Budgeted x.m x.w x.s.cfg oneLayer.ctxSize oneLayer.nGpuLayers
      (resolved x.m x.w 4 (exactArena smallConfig 1) (some (2^33)) oneLayer) ∧
      kvTotal x.s.cfg 8 ≠ 0)) = true := by decide +kernel

theorem llama_budgeted : ∃ m w s ws blocks g,modelLoad (llamaFile 2 narrow_fits) = .ok m ∧ weightsLoad m = .ok w ∧
    archInit m (sessionCreate m w 4 (exactArena smallConfig 1) (some (2^33)) oneLayer) noFloats (fun _ _ => true) = some (s,ws,blocks) ∧
    archBuild s ws 2 = some g ∧ kvTotal s.cfg 8 ≠ 0 ∧
    oneLayer.ctxSize*kvCacheBytesPerToken m w s.cfg 0 oneLayer.nGpuLayers =
      kvDeviceBytes s.cfg oneLayer.ctxSize (assignBackends s g.nodes) := by
  obtain ⟨x,created,budget⟩ := (Option.any_eq_true _ _).mp llama_created
  obtain ⟨parsed,weights,init,built⟩ := create_parts created
  obtain ⟨budgeted,some'⟩ := of_decide_eq_true budget
  exact ⟨x.m,x.w,x.s,x.ws,x.blocks,x.g,parsed,weights,init,built,some',(kvBudget_iff weights init built).mpr budgeted⟩

end TinyLlama.Engine
