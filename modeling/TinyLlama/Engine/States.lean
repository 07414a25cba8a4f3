import TinyLlama.Engine.Config
import TinyLlama.Graph.Mamba

-- qwen35.c and falcon_h1.c: the SSM geometry and the state buffers their init leaves.
namespace TinyLlama.Engine
open Gguf TinyLlama.Graph

def blockSize (bytes : Nat) : Nat := if bytes = 0 then 1 else bytes

-- A block of the heap, or NULL where the device grants none. `blocks` are the bytes of the
-- blocks handed out; the pointer to block k is k+1.
def graphStateAlloc (granted : List Nat → Nat → Bool) (bytes : Nat) (blocks : List Nat) : Nat × List Nat :=
  if granted blocks (blockSize bytes) then (blocks.length+1,blocks++[blockSize bytes]) else (0,blocks)

def blockBytes (blocks : List Nat) (ptr : Nat) : Nat := if ptr = 0 then 0 else blocks.getD (ptr-1) 0

structure LayerStates where
  conv : Nat → Nat
  ssm : Nat → Nat
  blocks : List Nat

def noStates : LayerStates := ⟨fun _ => 0,fun _ => 0,[]⟩

section alloc
variable (granted : List Nat → Nat → Bool)

def allocConv (bytes i : Nat) (st : LayerStates) : LayerStates :=
  let (ptr,blocks) := graphStateAlloc granted bytes st.blocks
  ⟨Function.update st.conv i ptr,st.ssm,blocks⟩

def allocSsm (bytes i : Nat) (st : LayerStates) : LayerStates :=
  let (ptr,blocks) := graphStateAlloc granted bytes st.blocks
  ⟨st.conv,Function.update st.ssm i ptr,blocks⟩

end alloc

structure Qwen35Geometry where
  headK : Nat
  nK : Nat
  nV : Nat
  headV : Nat
  keyDim : Nat
  valDim : Nat
  fused : Nat
  convKernel : Nat

-- The shapes fill in what the metadata lacks; only the first SSM layer is asked.
def firstSsm (s : Session) (role : TensorRole) : Option TensorInfo :=
  match (List.range s.cfg.nLayer).find? fun l => (s.layers l .ssmConv1d).isSome with
  | none => none
  | some l => (s.layers l role).filter fun t => t.ndim ≥ 2

def ssmKey (m : Model) (suffix : String) (default' : Nat) : Nat := (getI32 m "qwen3" ("ssm."++suffix)).getD default'

-- n_v: ssm.time_step_rank, else alpha's other dimension, else the key heads.
def qwen35NV (m : Model) (s : Session) : Nat :=
  let nV := ssmKey m "time_step_rank" 0
  let nV :=
    if nV ≠ 0 then nV
    else match firstSsm s .ssmAlpha with
      | some t => u32 (if t.dim.getD 1 0 = s.cfg.nEmbd then t.dim.getD 0 0 else t.dim.getD 1 0)
      | none => 0
  if nV = 0 then ssmKey m "group_count" 16 else nV

-- val_dim: ssm.inner_size, else ssm_out's other dimension, else n_v heads as wide as the keys'.
def qwen35Inner (m : Model) (s : Session) : Nat :=
  let valDim := ssmKey m "inner_size" 0
  let valDim :=
    if valDim ≠ 0 then valDim
    else match firstSsm s .ssmOut with
      | some t => u32 (if t.dim.getD 0 0 = s.cfg.nEmbd then t.dim.getD 1 0 else t.dim.getD 0 0)
      | none => 0
  if valDim = 0 then u32 (qwen35NV m s*ssmKey m "state_size" 128) else valDim

def qwen35Geometry (m : Model) (s : Session) : Qwen35Geometry :=
  let nV := qwen35NV m s
  let headK := if ssmKey m "state_size" 128 = 0 then 128 else ssmKey m "state_size" 128
  let nK := if ssmKey m "group_count" 16 = 0 then 16 else ssmKey m "group_count" 16
  let headV := if nV ≠ 0 then qwen35Inner m s/nV else headK
  let headV := if headV = 0 then headK else headV
  let keyDim := u32 (headK*nK)
  let valDim := u32 (headV*nV)
  ⟨headK,nK,nV,headV,keyDim,valDim,u32 (2*keyDim+valDim),ssmKey m "conv_kernel" 4⟩

-- state_sz and conv_sz in bytes, as size_t has them.
def Qwen35Geometry.ssmBytes (q : Qwen35Geometry) : Nat := u64 (u64 (u64 (q.nV*q.headV)*q.headV)*4)
def Qwen35Geometry.convBytes (q : Qwen35Geometry) : Nat := u64 (u64 (u32 (q.convKernel+(2^32-1))*q.fused)*4)

def qwen35States (granted : List Nat → Nat → Bool) (q : Qwen35Geometry) (s : Session) : LayerStates :=
  (List.range s.cfg.nLayer).foldl (fun st i =>
    if (s.layers i .ssmConv1d).isSome then allocConv granted q.convBytes i (allocSsm granted q.ssmBytes i st) else st) noStates

def qwen35Init (m : Model) (s : Session) (ropeTheta : Nat) (st : LayerStates) : Qwen35Workspace :=
  let q := qwen35Geometry m s
  ⟨ffnHidden s,ropeTheta,st.conv,st.ssm,q.headV,q.nK,q.nV,q.valDim,q.convKernel⟩

def fh1Key (m : Model) (suffix : String) (default' : Nat) : Nat := (getI32 m "falcon-h1" ("ssm."++suffix)).getD default'

def fh1Inner (m : Model) (s : Session) : Nat := fh1Key m "inner_size" (u32 (2*s.cfg.nEmbd))

def fh1Heads (m : Model) (s : Session) : Nat :=
  let nHead := fh1Key m "time_step_rank" (if s.cfg.nEmbd/64 ≠ 0 then s.cfg.nEmbd/64 else 1)
  if nHead = 0 then 1 else nHead

def falconH1Init (m : Model) (s : Session) (ropeTheta : Nat) (st : LayerStates) : FalconH1WorkSpace :=
  let dInner := fh1Inner m s
  let dState := fh1Key m "state_size" 128
  let nGroup := if fh1Key m "group_count" 1 = 0 then 1 else fh1Key m "group_count" 1
  let convKernel := if fh1Key m "conv_kernel" 4 = 0 then 4 else fh1Key m "conv_kernel" 4
  let headDim := if dInner ≠ 0 then dInner/fh1Heads m s else 0
  ⟨dInner,dState,nGroup,fh1Heads m s,headDim,convKernel,u32 (dInner+2*nGroup*dState),ropeTheta,st.ssm,st.conv⟩

def fh1ConvBytes (ws : FalconH1WorkSpace) : Nat := u64 (u64 (u32 (ws.ssmConvKernel+(2^32-1))*ws.ssmConvDim)*4)
def fh1SsmBytes (ws : FalconH1WorkSpace) : Nat := u64 (u64 (u64 (ws.ssmNHead*ws.ssmHeadDim)*ws.ssmDState)*4)

def falconH1States (granted : List Nat → Nat → Bool) (convBytes ssmBytes : Nat) (s : Session) : LayerStates :=
  (List.range s.cfg.nLayer).foldl (fun st i => allocSsm granted ssmBytes i (allocConv granted convBytes i st)) noStates

structure Sized (convBytes ssmBytes : Nat) (st : LayerStates) : Prop where
  conv : ∀ l, st.conv l ≠ 0 → st.blocks[st.conv l-1]? = some (blockSize convBytes)
  ssm : ∀ l, st.ssm l ≠ 0 → st.blocks[st.ssm l-1]? = some (blockSize ssmBytes)

section sized
variable {granted : List Nat → Nat → Bool} {blocks : List Nat} {st : LayerStates}

theorem noStates_sized (convBytes ssmBytes : Nat) : Sized convBytes ssmBytes noStates :=
  ⟨fun _ some' => absurd rfl some',fun _ some' => absurd rfl some'⟩

theorem graphStateAlloc_kept (granted : List Nat → Nat → Bool) (bytes : Nat) {k size : Nat} (held : blocks[k]? = some size) :
    (graphStateAlloc granted bytes blocks).2[k]? = some size := by
  unfold graphStateAlloc
  split
  · rw [List.getElem?_append_left (List.getElem?_eq_some_iff.mp held).1]
    exact held
  · exact held

theorem graphStateAlloc_new (granted : List Nat → Nat → Bool) (bytes : Nat) (blocks : List Nat) :
    (graphStateAlloc granted bytes blocks).1 = 0 ∨
      (graphStateAlloc granted bytes blocks).2[(graphStateAlloc granted bytes blocks).1-1]? =
        some (blockSize bytes) := by
  unfold graphStateAlloc
  split
  · refine .inr ?_
    rw [Nat.add_sub_cancel,List.getElem?_concat_length]
  · exact .inl rfl

theorem allocConv_sized (sized : Sized convBytes ssmBytes st) (i : Nat) :
    Sized convBytes ssmBytes (allocConv granted convBytes i st) := by
  refine ⟨fun l some' => ?_,fun l some' => graphStateAlloc_kept granted convBytes (sized.ssm l some')⟩
  change Function.update st.conv i (graphStateAlloc granted convBytes st.blocks).1 l ≠ 0 at some'
  change (graphStateAlloc granted convBytes st.blocks).2[
    Function.update st.conv i (graphStateAlloc granted convBytes st.blocks).1 l-1]? = _
  by_cases same : l = i
  · subst same
    rw [Function.update_self] at some' ⊢
    exact (graphStateAlloc_new granted convBytes st.blocks).resolve_left some'
  · rw [Function.update_of_ne same] at some' ⊢
    exact graphStateAlloc_kept granted convBytes (sized.conv l some')

theorem allocSsm_sized (sized : Sized convBytes ssmBytes st) (i : Nat) :
    Sized convBytes ssmBytes (allocSsm granted ssmBytes i st) := by
  refine ⟨fun l some' => graphStateAlloc_kept granted ssmBytes (sized.conv l some'),fun l some' => ?_⟩
  change Function.update st.ssm i (graphStateAlloc granted ssmBytes st.blocks).1 l ≠ 0 at some'
  change (graphStateAlloc granted ssmBytes st.blocks).2[
    Function.update st.ssm i (graphStateAlloc granted ssmBytes st.blocks).1 l-1]? = _
  by_cases same : l = i
  · subst same
    rw [Function.update_self] at some' ⊢
    exact (graphStateAlloc_new granted ssmBytes st.blocks).resolve_left some'
  · rw [Function.update_of_ne same] at some' ⊢
    exact graphStateAlloc_kept granted ssmBytes (sized.ssm l some')

theorem layers_sized {step : LayerStates → Nat → LayerStates}
    (keeps : ∀ st i, Sized convBytes ssmBytes st → Sized convBytes ssmBytes (step st i)) (ls : List Nat) :
    ∀ st, Sized convBytes ssmBytes st → Sized convBytes ssmBytes (ls.foldl step st) := by
  induction ls with
  | nil => exact fun _ sized => sized
  | cons i rest ih => exact fun st sized => ih _ (keeps st i sized)

theorem qwen35States_sized (q : Qwen35Geometry) (s : Session) : Sized q.convBytes q.ssmBytes (qwen35States granted q s) := by
  refine layers_sized (fun st i sized => ?_) _ _ (noStates_sized _ _)
  split
  · exact allocConv_sized (allocSsm_sized sized i) i
  · exact sized

theorem falconH1States_sized (convBytes ssmBytes : Nat) (s : Session) :
    Sized convBytes ssmBytes (falconH1States granted convBytes ssmBytes s) :=
  layers_sized (fun _ i sized => allocSsm_sized (allocConv_sized sized i) i) _ _ (noStates_sized _ _)

theorem blockBytes_of (held : blocks[ptr-1]? = some size) (some' : ptr ≠ 0) : blockBytes blocks ptr = size := by
  rw [blockBytes,if_neg some',List.getD_eq_getElem?_getD,held]
  rfl

end sized

end TinyLlama.Engine
