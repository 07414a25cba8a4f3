import Mathlib
import TinyLlama.Gguf.Weights
import TinyLlama.Graph.Plan
import TinyLlama.Lib.Search

-- core.c, a GPU build: the layers that fit on the device and the context picked by them. Byte counts are exact.
namespace TinyLlama.Engine
open Gguf TinyLlama.Graph Search

def defaultCtxSize : Nat := 4096

def archKeyPrefix : ModelArch → String
  | .llama => "llama"
  | .qwen2 => "qwen2"
  | .qwen3 => "qwen3"
  | .deepseek => "deepseek2"
  | .falcon => "falcon"
  | .falconH1 => "falcon-h1"
  | .gemma3 => "gemma3"
  | .unknown => "llama"

def contextPrefixes (m : Model) : List String :=
  let pfx := if m.archName = [] then archKeyPrefix m.arch else String.ofList (m.archName.map fun b => Char.ofNat b.toNat)
  let gpfx := archKeyPrefix m.arch
  [pfx]++(if gpfx = pfx then [] else [gpfx])++["general"]

-- 0 when no key gives a positive length.
def modelContextLength (m : Model) : Nat :=
  ((contextPrefixes m).findSome? fun p =>
    match modelGetInt m (p++".context_length") with
    | some value => if value > 0 then some (min value.toNat (2^32-1)) else none
    | none => none).getD 0

-- model_ctx
def modelCtx (m : Model) : Nat := if modelContextLength m = 0 then defaultCtxSize else modelContextLength m

def tensorRoles : List TensorRole :=
  [.tokenEmbd,.output,.outputNorm,.attnNorm,.attnQ,.attnK,.attnV,.attnQBias,.attnKBias,.attnVBias,.attnQkv,.attnOut,.attnGate,
   .postAttnNorm,.ffnNorm,.ffnPostNorm,.ffnGate,.ffnDown,.ffnUp,.ssmIn,.ssmConv1d,.ssmAlpha,.ssmBeta,.ssmA,.ssmDtBias,
   .ssmOut,.ssmNorm,.ssmD,.ssmConv1dBias,.attnQNorm,.attnKNorm,.outputHcBase,.outputHcFn,.outputHcScale]

def tensorBytes (m : Model) (i : Nat) : Nat := (m.tensor[i]?.map TensorInfo.bytes).getD 0

def weightBytes (m : Model) (t : Option Nat) : Nat := (t.map (tensorBytes m)).getD 0

-- The distinct tensors of a layer, each counted once.
def layerWeightBytes (m : Model) (layer : TensorRole → Option Nat) : Nat :=
  ((tensorRoles.filterMap layer).dedup.map (tensorBytes m)).sum

def gpuWeightBytes (m : Model) (w : Weights) (cfg : ArchConfig) (nGpuLayers : Int) : Nat :=
  if nGpuLayers = 0 then 0
  else if nGpuLayers < 0 ∨ nGpuLayers ≥ cfg.nLayer then (m.tensor.map TensorInfo.bytes).sum
  else weightBytes m (w.tensors .tokenEmbd)+
    ((List.range nGpuLayers.toNat).map fun l => layerWeightBytes m (w.layers l)).sum

def layerHasKvCache (layer : TensorRole → Option Nat) : Bool :=
  (layer .attnK).isSome || ((layer .attnQkv).isSome && (layer .ssmConv1d).isNone)

def kvCacheBytesPerToken (m : Model) (w : Weights) (cfg : ArchConfig) (kvLoraRank : Nat) (nGpuLayers : Int) : Nat :=
  let limit := if nGpuLayers < 0 ∨ nGpuLayers ≥ cfg.nLayer then cfg.nLayer else nGpuLayers.toNat
  if m.arch = .deepseek then (cfg.headDim+4*(if kvLoraRank = 0 then 1 else kvLoraRank)+2)*4*limit
  else cfg.nKvHead*cfg.kvHeadDim*4*2*((List.range limit).filter fun l => layerHasKvCache (w.layers l)).length

def gpuMemoryBudget (freeB : Nat) : Nat := (freeB-384*2^20)/10*9

-- The two sizes taken from double arithmetic, by rows: a layer's share of the
-- activation arena, and the whole of it.
structure Arena where
  layer : Nat → Nat
  whole : Nat → Nat

-- if (n_parallel < 1) n_parallel = 1
def slots (nParallel : Int) : Nat := if nParallel < 1 then 1 else nParallel.toNat

def kvBytes (cfg : ArchConfig) (ctxSize : Nat) (nParallel : Int) : Nat :=
  ctxSize*cfg.nKvHead*cfg.kvHeadDim*4*2*slots nParallel

-- n_ubatch ? n_ubatch : ctx_size
def arenaRows (nUbatch ctxSize : Nat) : Nat := if nUbatch = 0 then ctxSize else nUbatch

def layerCost (m : Model) (w : Weights) (cfg : ArchConfig) (arena : Arena) (ctxSize nUbatch : Nat) (nParallel : Int)
    (l : Nat) : Nat :=
  layerWeightBytes m (w.layers l)+(if (w.layers l .attnK).isSome then kvBytes cfg ctxSize nParallel else 0)+
    arena.layer (arenaRows nUbatch ctxSize)

-- The layers counted one by one, and one fewer when the output does not fit behind
-- them all.
def gpuLayersFitAt (m : Model) (w : Weights) (cfg : ArchConfig) (arena : Arena) (ctxSize nUbatch : Nat) (nParallel : Int)
    (freeB : Nat) : Nat :=
  if cfg.nLayer = 0 ∨ freeB = 0 then 0
  else
    let budget := gpuMemoryBudget freeB
    let fit := taken budget (weightBytes m (w.tensors .tokenEmbd))
      ((List.range cfg.nLayer).map (layerCost m w cfg arena ctxSize nUbatch nParallel))
    if fit.1 = cfg.nLayer ∧ fit.2+weightBytes m (w.tensors .output) > budget then fit.1-1 else fit.1

-- The search loop, in u32 arithmetic; 32 rounds empty any range of a u32.
def ctxSearch (fits : Nat → Bool) : Nat → Nat → Nat → Nat
  | 0,lo,_ => lo
  | rounds+1,lo,hi =>
    if lo < hi then
      let mid := u32 (lo+u32 (hi+2^32-lo+1)/2)
      if fits mid then ctxSearch fits rounds mid hi else ctxSearch fits rounds lo (u32 (mid+2^32-1))
    else lo

-- No device, or the free bytes it reports.
abbrev Device := Option Nat

def gpuMemInfo (device : Device) : Nat := device.getD 0

-- if (ctx > 256) ctx = ctx / 256 * 256
def wholePages (ctx : Nat) : Nat := if ctx > 256 then ctx/256*256 else ctx

-- n_gpu_layers < 0
def autoOffloadCtx (m : Model) (w : Weights) (cfg : ArchConfig) (arena : Arena) (nUbatch : Nat) (nParallel : Int)
    (freeB : Nat) : Nat :=
  let L := i32 cfg.nLayer
  let fit := fun ctx => (gpuLayersFitAt m w cfg arena ctx nUbatch nParallel freeB : Int)
  if L ≤ 0 then modelCtx m
  else if fit (modelCtx m) ≥ L then modelCtx m
  else if fit 1 < L then max 1 (min (modelCtx m) (max nUbatch defaultCtxSize))
  else max 1 (wholePages (ctxSearch (fun ctx => fit ctx ≥ L) 32 1 (modelCtx m)))

-- n_gpu_layers > 0
def partialOffloadCtx (m : Model) (w : Weights) (cfg : ArchConfig) (kvLoraRank : Nat) (arena : Arena) (nUbatch : Nat)
    (nGpuLayers nParallel : Int) (freeB : Nat) : Nat :=
  let kvPerToken := kvCacheBytesPerToken m w cfg kvLoraRank nGpuLayers
  let fixed := gpuWeightBytes m w cfg nGpuLayers+arena.whole (arenaRows nUbatch (modelCtx m))
  let fit := (gpuMemoryBudget freeB-fixed)/(kvPerToken*slots nParallel)
  let low := max 1 (min (modelCtx m) (if nUbatch = 0 then 512 else nUbatch))
  if kvPerToken = 0 then modelCtx m
  else if fit ≥ modelCtx m then modelCtx m
  else min (modelCtx m) (max low (wholePages (min fit (2^32-1))))

def engineAutoCtxSize (m : Model) (w : Weights) (cfg : ArchConfig) (kvLoraRank : Nat) (arena : Arena) (device : Device)
    (nUbatch : Nat) (nGpuLayers nParallel : Int) : Nat :=
  if nGpuLayers = 0 ∨ device = none ∨ gpuMemInfo device = 0 ∨ cfg.nEmbd = 0 then modelCtx m
  else if nGpuLayers < 0 then autoOffloadCtx m w cfg arena nUbatch nParallel (gpuMemInfo device)
  else partialOffloadCtx m w cfg kvLoraRank arena nUbatch nGpuLayers nParallel (gpuMemInfo device)

-- session_create: the micro-batch is at most the context.
def sessionUbatch (ctxSize nUbatch : Nat) : Nat := if nUbatch = 0 ∨ nUbatch > ctxSize then ctxSize else nUbatch

theorem ctxSearch_eq (fits : Nat → Bool) (rounds : Nat) : ∀ lo hi, 1 ≤ lo → hi < 2^32 →
    ctxSearch fits rounds lo hi = bisect fits rounds lo hi := by
  induction rounds with
  | zero => exact fun _ _ _ _ => rfl
  | succ rounds ih =>
    intro lo hi positive small
    unfold ctxSearch bisect
    by_cases open' : lo < hi
    · have gap : u32 (hi+2^32-lo+1) = hi-lo+1 := by unfold u32; omega
      have inside : u32 (lo+(hi-lo+1)/2) = lo+(hi-lo+1)/2 := u32_of_lt (by omega)
      have before : u32 (lo+(hi-lo+1)/2+2^32-1) = lo+(hi-lo+1)/2-1 := by unfold u32; omega
      rw [if_pos open',if_pos open',gap,inside]
      simp only
      rw [before,ih _ hi (by omega) small,ih lo _ positive (by omega)]
    · rw [if_neg open',if_neg open']

theorem modelContextLength_lt (m : Model) : modelContextLength m < 2^32 := by
  unfold modelContextLength
  cases found : (contextPrefixes m).findSome? fun p =>
      match modelGetInt m (p++".context_length") with
      | some value => if value > 0 then some (min value.toNat (2^32-1)) else none
      | none => none with
  | none => decide
  | some length =>
    obtain ⟨p,_,given⟩ := List.exists_of_findSome?_eq_some found
    split at given
    · split at given
      · obtain rfl := Option.some.inj given
        simp only [Option.getD_some]
        omega
      · cases given
    · cases given

theorem modelCtx_range (m : Model) : 1 ≤ modelCtx m ∧ modelCtx m < 2^32 := by
  have small := modelContextLength_lt m
  unfold modelCtx
  split
  · decide
  · omega

section Fit
variable (m : Model) (w : Weights) (cfg : ArchConfig) (arena : Arena) (nParallel : Int) (freeB : Nat)

def allBytes (ctxSize nUbatch : Nat) : Nat :=
  weightBytes m (w.tensors .tokenEmbd)+
    ((List.range cfg.nLayer).map (layerCost m w cfg arena ctxSize nUbatch nParallel)).sum+weightBytes m (w.tensors .output)

def AllFit (ctxSize nUbatch : Nat) : Prop :=
  gpuLayersFitAt m w cfg arena ctxSize nUbatch nParallel freeB = cfg.nLayer

theorem gpuLayersFitAt_le (ctxSize nUbatch : Nat) :
    gpuLayersFitAt m w cfg arena ctxSize nUbatch nParallel freeB ≤ cfg.nLayer := by
  unfold gpuLayersFitAt
  split
  · exact Nat.zero_le _
  · have few := taken_le (gpuMemoryBudget freeB) ((List.range cfg.nLayer).map (layerCost m w cfg arena ctxSize nUbatch nParallel))
      (weightBytes m (w.tensors .tokenEmbd))
    rw [List.length_map,List.length_range] at few
    simp only
    split <;> omega

theorem allFit_iff (layers : 0 < cfg.nLayer) (ctxSize nUbatch : Nat) :
    AllFit m w cfg arena nParallel freeB ctxSize nUbatch ↔
      freeB ≠ 0 ∧ allBytes m w cfg arena nParallel ctxSize nUbatch ≤ gpuMemoryBudget freeB := by
  unfold AllFit gpuLayersFitAt allBytes
  by_cases nothing : freeB = 0
  · rw [if_pos (.inr nothing)]
    simp only [nothing,ne_eq,not_true_eq_false,false_and,iff_false]
    omega
  rw [if_neg (by omega)]
  simp only [ne_eq,nothing,not_false_eq_true,true_and]
  generalize embd : weightBytes m (w.tensors .tokenEmbd) = used
  generalize weightBytes m (w.tensors .output) = extra
  generalize gpuMemoryBudget freeB = budget
  generalize costs : (List.range cfg.nLayer).map (layerCost m w cfg arena ctxSize nUbatch nParallel) = list
  have count : list.length = cfg.nLayer := by rw [← costs,List.length_map,List.length_range]
  by_cases start : used ≤ budget
  · have all := taken_all_iff budget list used start
    have total := taken_used budget list used
    rw [count] at all total
    by_cases every : (taken budget used list).1 = cfg.nLayer
    · have within := all.mp every
      rw [total every,every]
      split <;> omega
    · rw [if_neg fun both => every both.1]
      have exceeds : ¬used+list.sum ≤ budget := fun within => every (all.mpr within)
      omega
  · -- the embedding alone is too large, so not even the first layer is counted
    have none' : (taken budget used list).1 = 0 := by
      cases list with
      | nil => rfl
      | cons cost rest => rw [taken,if_pos (by omega)]
    rw [none']
    split <;> omega

variable {m w cfg arena nParallel freeB}

theorem arenaRows_mono (more : ctx ≤ ctx') : arenaRows nUbatch ctx ≤ arenaRows nUbatch ctx' := by
  unfold arenaRows
  split
  · exact more
  · exact Nat.le_refl _

theorem layerCost_mono (mono : Monotone arena.layer) (more : ctx ≤ ctx') (rows : arenaRows nUbatch ctx ≤ arenaRows nUbatch' ctx')
    (l : Nat) : layerCost m w cfg arena ctx nUbatch nParallel l ≤ layerCost m w cfg arena ctx' nUbatch' nParallel l := by
  have kv : kvBytes cfg ctx nParallel ≤ kvBytes cfg ctx' nParallel := by
    unfold kvBytes
    gcongr
  have share := mono rows
  unfold layerCost
  split <;> omega

theorem allBytes_mono (mono : Monotone arena.layer) (more : ctx ≤ ctx') (rows : arenaRows nUbatch ctx ≤ arenaRows nUbatch' ctx') :
    allBytes m w cfg arena nParallel ctx nUbatch ≤ allBytes m w cfg arena nParallel ctx' nUbatch' := by
  have layers : ((List.range cfg.nLayer).map (layerCost m w cfg arena ctx nUbatch nParallel)).sum ≤
      ((List.range cfg.nLayer).map (layerCost m w cfg arena ctx' nUbatch' nParallel)).sum :=
    List.sum_le_sum fun l _ => layerCost_mono mono more rows l
  unfold allBytes
  omega

theorem AllFit.fewer (layers : 0 < cfg.nLayer) (mono : Monotone arena.layer) (more : ctx ≤ ctx')
    (rows : arenaRows nUbatch ctx ≤ arenaRows nUbatch' ctx') (fits : AllFit m w cfg arena nParallel freeB ctx' nUbatch') :
    AllFit m w cfg arena nParallel freeB ctx nUbatch := by
  obtain ⟨some',within⟩ := (allFit_iff m w cfg arena nParallel freeB layers ctx' nUbatch').mp fits
  exact (allFit_iff m w cfg arena nParallel freeB layers ctx nUbatch).mpr ⟨some',(allBytes_mono mono more rows).trans within⟩

theorem AllFit.clamped (layers : 0 < cfg.nLayer) (mono : Monotone arena.layer)
    (fits : AllFit m w cfg arena nParallel freeB ctx nUbatch) :
    AllFit m w cfg arena nParallel freeB ctx (sessionUbatch ctx nUbatch) := by
  refine fits.fewer layers mono (Nat.le_refl ctx) ?_
  unfold arenaRows sessionUbatch
  split_ifs <;> omega

end Fit

theorem wholePages_range (positive : 1 ≤ ctx) : 1 ≤ wholePages ctx ∧ wholePages ctx ≤ ctx ∧ ctx < wholePages ctx+256 := by
  unfold wholePages
  split <;> omega

theorem layers_int (word : n < 2^32) (positive : 0 < i32 n) : i32 n = n ∧ 0 < n := by
  unfold i32 at positive ⊢
  split <;> omega

theorem allFit_int (word : cfg.nLayer < 2^32) (layers : 0 < i32 cfg.nLayer) (ctx : Nat) :
    AllFit m w cfg arena nParallel freeB ctx nUbatch ↔
      (gpuLayersFitAt m w cfg arena ctx nUbatch nParallel freeB : Int) ≥ i32 cfg.nLayer := by
  have most := gpuLayersFitAt_le m w cfg arena nParallel freeB ctx nUbatch
  rw [(layers_int word layers).1]
  unfold AllFit
  omega

-- The search ends at the last context that fits.
theorem autoOffload_search (m : Model) (w : Weights) (cfg : ArchConfig) (arena : Arena) (nUbatch : Nat) (nParallel : Int)
    (freeB : Nat) (word : cfg.nLayer < 2^32) (layers : 0 < i32 cfg.nLayer) (mono : Monotone arena.layer)
    (one : AllFit m w cfg arena nParallel freeB 1 nUbatch)
    (short : ¬AllFit m w cfg arena nParallel freeB (modelCtx m) nUbatch) :
    ∃ last, AllFit m w cfg arena nParallel freeB last nUbatch ∧ 1 ≤ last ∧ last ≤ modelCtx m ∧
      (∀ ctx, AllFit m w cfg arena nParallel freeB ctx nUbatch → ctx ≤ last) ∧
      autoOffloadCtx m w cfg arena nUbatch nParallel freeB = wholePages last := by
  obtain ⟨least,most⟩ := modelCtx_range m
  have some' := (layers_int word layers).2
  let p := fun ctx => decide ((gpuLayersFitAt m w cfg arena ctx nUbatch nParallel freeB : Int) ≥ i32 cfg.nLayer)
  have holds : ∀ ctx, p ctx = true ↔ AllFit m w cfg arena nParallel freeB ctx nUbatch := fun ctx =>
    decide_eq_true_iff.trans (allFit_int word layers ctx).symm
  have closed : ∀ a b, a ≤ b → p b = true → p a = true := fun a b less there =>
    (holds a).mpr (((holds b).mp there).fewer some' mono less (arenaRows_mono less))
  have above : ∀ c, p c = true → c ≤ max 1 (modelCtx m) := by
    intro c there
    by_contra more
    exact short ((holds _).mp (closed (modelCtx m) c (by omega) there))
  obtain ⟨found,last⟩ := bisect_last closed 32 1 (modelCtx m) (by omega) ((holds 1).mpr one) above
  obtain ⟨low,high⟩ := bisect_range p 32 1 (modelCtx m)
  refine ⟨bisect p 32 1 (modelCtx m),(holds _).mp found,low,by omega,fun ctx there => last ctx ((holds ctx).mpr there),?_⟩
  unfold autoOffloadCtx
  simp only
  rw [if_neg (by omega),if_neg fun there => short ((allFit_int word layers _).mpr there),
    if_neg (not_lt.mpr ((allFit_int word layers 1).mp one)),ctxSearch_eq _ 32 1 _ (Nat.le_refl 1) most]
  exact max_eq_right (wholePages_range low).1

theorem autoCtxSize_range (m : Model) (w : Weights) (cfg : ArchConfig) (kvLoraRank : Nat) (arena : Arena) (device : Device)
    (nUbatch : Nat) (nGpuLayers nParallel : Int) :
    let ctx := engineAutoCtxSize m w cfg kvLoraRank arena device nUbatch nGpuLayers nParallel
    1 ≤ ctx ∧ ctx ≤ modelCtx m := by
  obtain ⟨least,most⟩ := modelCtx_range m
  simp only
  unfold engineAutoCtxSize
  split
  · exact ⟨least,Nat.le_refl _⟩
  split
  · unfold autoOffloadCtx
    simp only
    split_ifs
    · exact ⟨least,Nat.le_refl _⟩
    · exact ⟨least,Nat.le_refl _⟩
    · omega
    · rw [ctxSearch_eq _ 32 1 _ (Nat.le_refl 1) most]
      obtain ⟨low,high⟩ := bisect_range (fun ctx => decide
        ((gpuLayersFitAt m w cfg arena ctx nUbatch nParallel (gpuMemInfo device) : Int) ≥ i32 cfg.nLayer)) 32 1 (modelCtx m)
      have pages := wholePages_range low
      omega
  · unfold partialOffloadCtx
    simp only
    split_ifs <;> omega

theorem autoCtxSize_guarantee (m : Model) (w : Weights) (cfg : ArchConfig) (kvLoraRank : Nat) (arena : Arena) (device : Device)
    (nUbatch : Nat) (nGpuLayers nParallel : Int) (word : cfg.nLayer < 2^32) (layers : 0 < i32 cfg.nLayer)
    (embd : 0 < cfg.nEmbd) (auto : nGpuLayers < 0) (mono : Monotone arena.layer)
    (one : AllFit m w cfg arena nParallel (gpuMemInfo device) 1 nUbatch) :
    let ctx := engineAutoCtxSize m w cfg kvLoraRank arena device nUbatch nGpuLayers nParallel
    let fits := fun ctx nUbatch => AllFit m w cfg arena nParallel (gpuMemInfo device) ctx nUbatch
    (1 ≤ ctx ∧ ctx ≤ modelCtx m) ∧ fits ctx nUbatch ∧ fits ctx (sessionUbatch ctx nUbatch) ∧
      (ctx = modelCtx m ∨ ∃ last, fits last nUbatch ∧ (∀ c, fits c nUbatch → c ≤ last) ∧ ctx ≤ last ∧ last < ctx+256) := by
  obtain ⟨least,_⟩ := modelCtx_range m
  have some' := (layers_int word layers).2
  obtain ⟨memory,_⟩ := (allFit_iff m w cfg arena nParallel _ some' 1 nUbatch).mp one
  have chosen : engineAutoCtxSize m w cfg kvLoraRank arena device nUbatch nGpuLayers nParallel =
      autoOffloadCtx m w cfg arena nUbatch nParallel (gpuMemInfo device) := by
    have there : device ≠ none := fun absent => memory (by rw [absent]; rfl)
    have on : ¬(nGpuLayers = 0 ∨ device = none ∨ gpuMemInfo device = 0 ∨ cfg.nEmbd = 0) := by
      simp only [there,memory,false_or,not_or]
      omega
    unfold engineAutoCtxSize
    rw [if_neg on,if_pos auto]
  simp only
  rw [chosen]
  by_cases whole : AllFit m w cfg arena nParallel (gpuMemInfo device) (modelCtx m) nUbatch
  · have same : autoOffloadCtx m w cfg arena nUbatch nParallel (gpuMemInfo device) = modelCtx m := by
      unfold autoOffloadCtx
      simp only
      rw [if_neg (by omega),if_pos ((allFit_int word layers _).mp whole)]
    rw [same]
    exact ⟨⟨least,Nat.le_refl _⟩,whole,whole.clamped some' mono,.inl rfl⟩
  · obtain ⟨last,fits,low,high,greatest,result⟩ := autoOffload_search m w cfg arena nUbatch nParallel _ word layers mono one whole
    obtain ⟨positive,below,near⟩ := wholePages_range low
    have kept := fits.fewer some' mono below (arenaRows_mono below)
    rw [result]
    exact ⟨⟨positive,by omega⟩,kept,kept.clamped some' mono,.inr ⟨last,fits,greatest,below,near⟩⟩

def smallModel : Model :=
  let tensor := fun name => (⟨⟨name.length,name⟩,2,[1,1],0,0,none,250,1000,1⟩ : TensorInfo)
  ⟨noBytes,3,32,.llama,cstr "llama",[],
    [tensor (cstr "token_embd.weight"),tensor (cstr "blk.0.attn_k.weight"),tensor (cstr "blk.1.attn_k.weight")]⟩

def smallWeights : Weights :=
  ⟨2,fun r => if r = .tokenEmbd ∨ r = .output then some 0 else none,
    fun l r => if r = .attnK ∧ l < 2 then some (l+1) else none⟩

def smallConfig : ArchConfig := ⟨1,1,32,32,32,32,2,1⟩

def exactArena (cfg : ArchConfig) (nParallel : Int) : Arena :=
  ⟨fun rows => rows*cfg.nEmbd*4*36*slots nParallel/cfg.nLayer,fun rows => rows*cfg.nEmbd*4*36*slots nParallel⟩

theorem exactArena_mono (cfg : ArchConfig) (nParallel : Int) : Monotone (exactArena cfg nParallel).layer := by
  intro a b less
  simp only [exactArena]
  gcongr

def smallDevice : Device := some (384*2^20+3770000)

theorem smallModel_guarantee :
    let ctx := engineAutoCtxSize smallModel smallWeights smallConfig 0 (exactArena smallConfig 1) smallDevice 512 (-1) 1
    ctx ≤ modelCtx smallModel ∧
      AllFit smallModel smallWeights smallConfig (exactArena smallConfig 1) 1 (gpuMemInfo smallDevice) ctx 512 := by
  have one : AllFit smallModel smallWeights smallConfig (exactArena smallConfig 1) 1 (gpuMemInfo smallDevice) 1 512 := by
    change gpuLayersFitAt _ _ _ _ _ _ _ _ = 2
    decide +kernel
  have kept := autoCtxSize_guarantee smallModel smallWeights smallConfig 0 (exactArena smallConfig 1) smallDevice 512 (-1) 1
    (by decide) (by decide) (by decide) (by decide) (exactArena_mono smallConfig 1) one
  exact ⟨kept.1.2,kept.2.1⟩

example : engineAutoCtxSize smallModel smallWeights smallConfig 0 (exactArena smallConfig 1) smallDevice 512 (-1) 1 = 1792 := by
  decide +kernel

end TinyLlama.Engine
