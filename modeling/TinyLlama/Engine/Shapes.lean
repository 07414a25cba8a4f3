import TinyLlama.Engine.States
import TinyLlama.Gguf.Placement
import TinyLlama.Graph.Shapes

namespace TinyLlama.Engine
open Gguf TinyLlama.Graph

-- What init reads of the metadata as floats, and the width of Gemma's window.
structure Floats where
  ropeTheta : Nat
  ropeThetaSwa : Nat
  nSwa : Nat
  attnScale : Nat
  logitSoftcap : Nat
  embedScale : Nat

inductive ArchWorkspace where
  | llama (ws : LlamaWorkSpace)
  | qwen25 (ws : Qwen25Workspace)
  | gemma3 (ws : Gemma3WorkSpace)
  | qwen35 (ws : Qwen35Workspace)
  | falconH1 (ws : FalconH1WorkSpace)

-- s->ops.init, with the bytes of the blocks it has allocated for states. DeepSeek and
-- Falcon have no graph builder; an unknown architecture is run as llama. Falcon-H1 stays
-- on the CPU.
def archInit (m : Model) (s : Session) (read : Floats) (granted : List Nat → Nat → Bool) :
    Option (Session × ArchWorkspace × List Nat) :=
  match m.arch with
  | .llama | .unknown => some (s,.llama ⟨ffnHidden s,read.ropeTheta⟩,[])
  | .qwen2 => some (s,.qwen25 ⟨ffnHidden s,read.ropeTheta⟩,[])
  | .gemma3 => some (s,.gemma3 ⟨ffnHidden s,read.ropeTheta,read.ropeThetaSwa,read.nSwa,read.attnScale,read.logitSoftcap,
      read.embedScale⟩,[])
  | .qwen3 =>
    let st := qwen35States granted (qwen35Geometry m s) s
    some (s,.qwen35 (qwen35Init m s read.ropeTheta st),st.blocks)
  | .falconH1 =>
    let geometry := falconH1Init m s read.ropeTheta noStates
    let st := falconH1States granted (fh1ConvBytes geometry) (fh1SsmBytes geometry) s
    some ({s with nGpuLayers:=0},.falconH1 (falconH1Init m s read.ropeTheta st),st.blocks)
  | .deepseek | .falcon => none

def archBuild (s : Session) (ws : ArchWorkspace) (nTokens : Nat) : Option Graph :=
  ((match ws with
    | .llama ws => llamaGraphBuild s ws nTokens
    | .qwen25 ws => qwen25GraphBuild s ws nTokens
    | .gemma3 ws => gemma3GraphBuild s ws nTokens
    | .qwen35 ws => qwen35GraphBuild s ws nTokens
    | .falconH1 ws => falconH1GraphBuild s ws nTokens) graphNew).map Prod.snd

structure HeadAgrees (s : Session) (final : Option TensorInfo) (w : Nat) : Prop where
  embd : ∀ t, s.tensors .tokenEmbd = some t → embedWidth s.cfg t = w
  norm : NormOf final w
  head : HeadShape s w

-- The delta rule takes both its heads to be as wide as the value heads, the allocation
-- the key heads to be headK wide; and no byte count wraps.
structure Qwen35StatesFit (q : Qwen35Geometry) (ws : Qwen35Workspace) : Prop where
  fused : (q.convKernel-1)*fusedWidth ws ≤ (q.convKernel-1)*q.fused
  conv : (q.convKernel-1)*q.fused*4 < 2^64
  ssm : q.nV*q.headV*q.headV*4 < 2^64

structure Fh1StatesFit (ws : FalconH1WorkSpace) : Prop where
  conv : (ws.ssmConvKernel-1)*ws.ssmConvDim*4 < 2^64
  ssm : ws.ssmNHead*ws.ssmHeadDim*ws.ssmDState*4 < 2^64

def ShapesAgree (m : Model) (s : Session) : ArchWorkspace → Prop
  | .llama ws => ∃ w, HeadAgrees s (s.tensors .outputNorm) w ∧
      ∀ l < s.cfg.nLayer, LlamaShapes (s.layers l) s.cfg ws.ffnHidden w
  | .qwen25 ws => ∃ w, HeadAgrees s (qwenFinalNorm s) w ∧
      ∀ l < s.cfg.nLayer, LlamaShapes (s.layers l) s.cfg ws.ffnHidden w
  | .gemma3 ws => ∃ w, HeadAgrees s (s.tensors .outputNorm) w ∧
      ∀ l < s.cfg.nLayer, Gemma3Shapes (s.layers l) s.cfg ws.ffnHidden w
  | .qwen35 ws => ∃ w, HeadAgrees s (qwenFinalNorm s) w ∧
      ∀ l < s.cfg.nLayer, Qwen35Shapes (s.layers l) s.cfg ws w ∧
        ((s.layers l .ssmConv1d).isSome = true → Qwen35StatesFit (qwen35Geometry m s) ws)
  | .falconH1 ws => ∃ w, HeadAgrees s ((s.tensors .outputNorm).or (s.layers (s.cfg.nLayer-1) .ffnNorm)) w ∧
      ∀ l < s.cfg.nLayer, Fh1Shapes (s.layers l) s.cfg ws w ∧
        MambaFits ws.ssmDInner ws.ssmNGroup ws.ssmDState ws.ssmNHead ∧ Fh1StatesFit ws

section words
variable {m : Model}

theorem u32OfInt_lt (v : Int) : u32OfInt v < 2^32 := by
  unfold u32OfInt
  omega

theorem getD_lt {o : Option Int} (field : d < 2^32) : (o.map u32OfInt).getD d < 2^32 := by
  cases o with
  | none => exact field
  | some v => exact u32OfInt_lt v

theorem tryI32_lt (suffix : String) (field : d < 2^32) : tryI32 m suffix d < 2^32 := by
  unfold tryI32
  dsimp only
  split
  · exact getD_lt (getD_lt field)
  · exact getD_lt field

theorem getI32_lt (fallback suffix : String) (field : d < 2^32) : (getI32 m fallback suffix).getD d < 2^32 := by
  unfold getI32
  dsimp only
  split
  · exact u32OfInt_lt _
  · split
    · exact field
    · exact getD_lt field

theorem embdOf_lt (te : Option TensorInfo) (few : nVocab < 2^32) : embdOf te nVocab < 2^32 := by
  unfold embdOf
  have zero : 0 < 2^32 := by decide
  dsimp only
  repeat' split
  all_goals first | exact few | exact u32_lt _ | exact zero

theorem archConfigInit_words (m : Model) (w : Weights) (vocabSize : Nat) : Words (archConfigInit m w vocabSize) := by
  have embd := embdOf_lt (tensorAt m (w.tensors .tokenEmbd)) (u32_lt vocabSize)
  have nHead : tryI32 m "attention.head_count" 0 < 2^32 := tryI32_lt _ (by decide)
  have nKvHead : tryI32 m "attention.head_count_kv" 0 < 2^32 := tryI32_lt _ (by decide)
  have headDim : tryI32 m "attention.head_dim" 0 < 2^32 := tryI32_lt _ (by decide)
  have kvHeadDim : tryI32 m "attention.key_length" 0 < 2^32 := tryI32_lt _ (by decide)
  have quotient := lt_of_le_of_lt (Nat.div_le_self _ (tryI32 m "attention.head_count" 0)) embd
  have width : (archConfigInit m w vocabSize).headDim < 2^32 := by
    unfold archConfigInit
    dsimp only
    split
    · exact kvHeadDim
    · split
      · exact quotient
      · exact headDim
  refine ⟨nHead,?_,width,?_⟩
  · unfold archConfigInit
    dsimp only
    split
    · exact nHead
    · exact nKvHead
  · change (if tryI32 m "attention.key_length" 0 = 0 then (archConfigInit m w vocabSize).headDim
      else tryI32 m "attention.key_length" 0) < 2^32
    split
    · exact width
    · exact kvHeadDim

theorem ssmKey_lt (suffix : String) (field : d < 2^32) : ssmKey m suffix d < 2^32 := getI32_lt _ _ field

theorem qwen35NV_lt (m : Model) (s : Session) : qwen35NV m s < 2^32 := by
  have rank : ssmKey m "time_step_rank" 0 < 2^32 := ssmKey_lt _ (by decide)
  have groups : ssmKey m "group_count" 16 < 2^32 := ssmKey_lt _ (by decide)
  unfold qwen35NV
  dsimp only
  repeat' split
  all_goals first | exact groups | exact rank | exact u32_lt _ | contradiction

theorem qwen35Inner_lt (m : Model) (s : Session) : qwen35Inner m s < 2^32 := by
  have inner : ssmKey m "inner_size" 0 < 2^32 := ssmKey_lt _ (by decide)
  unfold qwen35Inner
  dsimp only
  repeat' split
  all_goals first | exact inner | exact u32_lt _ | contradiction

theorem qwen35Geometry_words (m : Model) (s : Session) (ropeTheta : Nat) (st : LayerStates) :
    Qwen35Words (qwen35Init m s ropeTheta st) := by
  have keys : ssmKey m "state_size" 128 < 2^32 := ssmKey_lt _ (by decide)
  have groups : ssmKey m "group_count" 16 < 2^32 := ssmKey_lt _ (by decide)
  have quotient := lt_of_le_of_lt (Nat.div_le_self _ (qwen35NV m s)) (qwen35Inner_lt m s)
  refine ⟨qwen35NV_lt m s,?_,?_,ssmKey_lt _ (by decide)⟩
  · change (if ssmKey m "group_count" 16 = 0 then 16 else ssmKey m "group_count" 16) < 2^32
    split
    · decide
    · exact groups
  · change (qwen35Geometry m s).headV < 2^32
    unfold qwen35Geometry
    dsimp only
    repeat' split
    all_goals first | exact keys | exact quotient | decide

theorem fh1Key_lt (suffix : String) (field : d < 2^32) : fh1Key m suffix d < 2^32 := getI32_lt _ _ field

theorem falconH1Init_words (m : Model) (s : Session) (ropeTheta : Nat) (st : LayerStates) (embd : s.cfg.nEmbd < 2^32) :
    Fh1Words (falconH1Init m s ropeTheta st) := by
  have inner : fh1Inner m s < 2^32 := fh1Key_lt _ (u32_lt _)
  have groups : fh1Key m "group_count" 1 < 2^32 := fh1Key_lt _ (by decide)
  have kernel : fh1Key m "conv_kernel" 4 < 2^32 := fh1Key_lt _ (by decide)
  have quotient : (if fh1Inner m s ≠ 0 then fh1Inner m s/fh1Heads m s else 0) ≤ fh1Inner m s/fh1Heads m s := by
    split
    · exact Nat.le_refl _
    · exact Nat.zero_le _
  refine ⟨inner,fh1Key_lt _ (by decide),?_,?_,?_,?_,?_⟩
  · change (if fh1Key m "group_count" 1 = 0 then 1 else fh1Key m "group_count" 1) < 2^32
    split
    · decide
    · exact groups
  · change fh1Heads m s < 2^32
    have heads : fh1Key m "time_step_rank" (if s.cfg.nEmbd/64 ≠ 0 then s.cfg.nEmbd/64 else 1) < 2^32 :=
      fh1Key_lt _ (by split <;> omega)
    unfold fh1Heads
    generalize fh1Key m "time_step_rank" _ = n at heads ⊢
    dsimp only
    split
    · decide
    · exact heads
  · exact lt_of_le_of_lt (quotient.trans (Nat.div_le_self _ _)) inner
  · change (if fh1Key m "conv_kernel" 4 = 0 then 4 else fh1Key m "conv_kernel" 4) < 2^32
    split
    · decide
    · exact kernel
  · exact (Nat.mul_le_mul_left _ quotient).trans (Nat.mul_div_le _ _)

end words

section rooms
variable {m : Model} {s : Session}

theorem blockSize_le (bytes : Nat) : bytes ≤ blockSize bytes := by
  unfold blockSize
  split <;> omega

theorem convBytes_exact {kernel width : Nat} (small : kernel < 2^32) (fits : (kernel-1)*width*4 < 2^64) :
    4*((kernel-1)*width) ≤ u64 (u64 (u32 (kernel+(2^32-1))*width)*4) := by
  rcases Nat.eq_zero_or_pos kernel with rfl | some'
  · simp
  · have taps : u32 (kernel+(2^32-1)) = kernel-1 := by
      unfold u32
      omega
    rw [taps,u64_of_lt (n:=(kernel-1)*width) (by omega),u64_of_lt fits]
    omega

theorem cubeBytes_exact {a b d : Nat} (fits : a*b*d*4 < 2^64) (some' : 0 < d) : 4*(a*b*d) ≤ u64 (u64 (u64 (a*b)*d)*4) := by
  have inner : a*b ≤ a*b*d := Nat.le_mul_of_pos_right _ some'
  rw [u64_of_lt (n:=a*b) (by omega),u64_of_lt (n:=a*b*d) (by omega),u64_of_lt fits]
  omega

theorem qwen35_rooms (granted : List Nat → Nat → Bool) (ropeTheta : Nat) {st : LayerStates}
    (states : st = qwen35States granted (qwen35Geometry m s) s)
    (fits : Qwen35StatesFit (qwen35Geometry m s) (qwen35Init m s ropeTheta st)) (l : Nat)
    (conv : st.conv l ≠ 0) (ssm : st.ssm l ≠ 0) :
    Qwen35Rooms (blockBytes st.blocks) (qwen35Init m s ropeTheta st) l := by
  have sized : Sized _ _ (qwen35States granted (qwen35Geometry m s) s) := qwen35States_sized _ s
  rw [← states] at sized
  have words := qwen35Geometry_words m s ropeTheta st
  constructor
  · change 4*(((qwen35Geometry m s).convKernel-1)*fusedWidth (qwen35Init m s ropeTheta st)) ≤ blockBytes st.blocks (st.conv l)
    rw [blockBytes_of (sized.conv l conv) conv]
    refine le_trans (Nat.mul_le_mul_left 4 fits.fused) (le_trans ?_ (blockSize_le _))
    exact convBytes_exact words.kernel fits.conv
  · change 4*((qwen35Geometry m s).nV*((qwen35Geometry m s).headV*(qwen35Geometry m s).headV)) ≤ blockBytes st.blocks (st.ssm l)
    rw [blockBytes_of (sized.ssm l ssm) ssm,← Nat.mul_assoc (qwen35Geometry m s).nV]
    refine le_trans ?_ (blockSize_le _)
    rcases Nat.eq_zero_or_pos (qwen35Geometry m s).headV with zero | some'
    · rw [zero,Nat.mul_zero]
      exact Nat.zero_le _
    · exact cubeBytes_exact fits.ssm some'

theorem fh1_rooms (granted : List Nat → Nat → Bool) (ropeTheta : Nat) {st : LayerStates}
    (states : st = falconH1States granted (fh1ConvBytes (falconH1Init m s ropeTheta noStates))
      (fh1SsmBytes (falconH1Init m s ropeTheta noStates)) s)
    (words : Fh1Words (falconH1Init m s ropeTheta st)) (fits : Fh1StatesFit (falconH1Init m s ropeTheta st)) (l : Nat)
    (conv : st.conv l ≠ 0) (ssm : st.ssm l ≠ 0) :
    Fh1Rooms (blockBytes st.blocks) (falconH1Init m s ropeTheta st) l := by
  have sized : Sized _ _ (falconH1States granted (fh1ConvBytes (falconH1Init m s ropeTheta noStates))
    (fh1SsmBytes (falconH1Init m s ropeTheta noStates)) s) := falconH1States_sized _ _ s
  rw [← states] at sized
  obtain ⟨convFits,ssmFits⟩ := fits
  constructor
  · change _ ≤ blockBytes st.blocks (st.conv l)
    rw [blockBytes_of (sized.conv l conv) conv]
    exact (convBytes_exact words.kernel convFits).trans (blockSize_le _)
  · change _ ≤ blockBytes st.blocks (st.ssm l)
    rw [blockBytes_of (sized.ssm l ssm) ssm]
    refine le_trans ?_ (blockSize_le _)
    rcases Nat.eq_zero_or_pos (falconH1Init m s ropeTheta st).ssmDState with zero | some'
    · rw [zero,Nat.mul_zero]
      exact Nat.zero_le _
    · exact cubeBytes_exact ssmFits some'

end rooms

section builders
variable {m : Model} {s : Session} {bytes : Nat → Nat} {nTokens : Nat} {g : Graph}

theorem llama_sound {ws : LlamaWorkSpace} (built : archBuild s (.llama ws) nTokens = some g) (agree : ShapesAgree m s (.llama ws)) :
    Sound s.cfg bytes g := by
  obtain ⟨w,head,layers⟩ := agree
  refine Keeps.sound (.require fun _ => (embedded_keeps head.embd _).bind fun cur => ?_) built
  exact builder_keeps (fun l below cur K known => llamaLayer_keeps (layers l below) cur K known) head.norm
    (fun fn K known => lmHead_keeps head.head known) cur (by simp)

theorem qwen25_sound {ws : Qwen25Workspace} (built : archBuild s (.qwen25 ws) nTokens = some g)
    (agree : ShapesAgree m s (.qwen25 ws)) : Sound s.cfg bytes g := by
  obtain ⟨w,head,layers⟩ := agree
  refine Keeps.sound (.require fun _ => (embedded_keeps head.embd _).bind fun cur => ?_) built
  exact builder_keeps (fun l below cur K known => qwen25Layer_keeps (layers l below) cur K known) head.norm
    (fun fn K known => lmHead_keeps head.head known) cur (by simp)

theorem gemma3_sound {ws : Gemma3WorkSpace} (words : Words s.cfg) (built : archBuild s (.gemma3 ws) nTokens = some g)
    (agree : ShapesAgree m s (.gemma3 ws)) : Sound s.cfg bytes g := by
  obtain ⟨w,head,layers⟩ := agree
  refine Keeps.sound (.require fun _ => (embedded_keeps head.embd _).bind fun cur => ?_) built
  refine (graphScale_keeps (w:=w) _ (by simp)).bind fun cur => ?_
  exact builder_keeps (fun l below cur K known => gemma3Layer_keeps words (layers l below) cur K known) head.norm
    (fun fn K known => cappedHead_keeps head.head _ known) cur (by simp)

theorem qwen35_sound {ws : Qwen35Workspace} (words : Words s.cfg) (ssmWords : Qwen35Words ws)
    (rooms : Qwen35StatesFit (qwen35Geometry m s) ws → ∀ l, ws.convState l ≠ 0 → ws.ssmState l ≠ 0 → Qwen35Rooms bytes ws l)
    (built : archBuild s (.qwen35 ws) nTokens = some g) (agree : ShapesAgree m s (.qwen35 ws)) : Sound s.cfg bytes g := by
  obtain ⟨w,head,layers⟩ := agree
  refine Keeps.sound (.require fun _ => .require fun _ => (embedded_keeps head.embd _).bind fun cur => ?_) built
  refine builder_keeps (fun l below cur K known => ?_) head.norm (fun fn K known => lmHead_keeps head.head known) cur (by simp)
  have room := fun kind => rooms ((layers l below).2 kind) l
  exact qwen35Layer_keeps words ssmWords (layers l below).1 room cur K known

theorem falconH1_sound {ws : FalconH1WorkSpace} (words : Fh1Words ws)
    (rooms : Fh1StatesFit ws → ∀ l, ws.convState l ≠ 0 → ws.ssmState l ≠ 0 → Fh1Rooms bytes ws l)
    (built : archBuild s (.falconH1 ws) nTokens = some g) (agree : ShapesAgree m s (.falconH1 ws)) : Sound s.cfg bytes g := by
  obtain ⟨w,head,layers⟩ := agree
  refine Keeps.sound (.require fun _ => (embedded_keeps head.embd _).bind fun cur => ?_) built
  refine builder_keeps (fun l below cur K known => ?_) head.norm (fun fn K known => lmHead_keeps head.head known) cur (by simp)
  obtain ⟨shapes,fits,states⟩ := layers l below
  exact falconH1Layer_keeps words fits shapes (rooms states l) cur K known

end builders

section models
variable {m : Model} {w : Weights} {s : Session} {read : Floats} {granted : List Nat → Nat → Bool} {ws : ArchWorkspace}
  {blocks : List Nat} {g : Graph}

theorem archBuild_sound (init : archInit m (sessionOf m w vocabSize ctxSize nGpuLayers) read granted = some (s,ws,blocks))
    (built : archBuild s ws nTokens = some g) (agree : ShapesAgree m s ws) : Sound s.cfg (blockBytes blocks) g := by
  have words : Words (sessionOf m w vocabSize ctxSize nGpuLayers).cfg := archConfigInit_words m w vocabSize
  have embd : (sessionOf m w vocabSize ctxSize nGpuLayers).cfg.nEmbd < 2^32 := embdOf_lt _ (u32_lt vocabSize)
  generalize sessionOf m w vocabSize ctxSize nGpuLayers = s₀ at *
  unfold archInit at init
  split at init
  · cases init
    exact llama_sound built agree
  · cases init
    exact llama_sound built agree
  · cases init
    exact qwen25_sound built agree
  · cases init
    exact gemma3_sound words built agree
  · cases init
    refine qwen35_sound words (qwen35Geometry_words _ _ _ _) (fun fits l conv ssm => ?_) built agree
    exact qwen35_rooms granted read.ropeTheta rfl fits l conv ssm
  · cases init
    have fh1 := falconH1Init_words m s₀ read.ropeTheta (falconH1States granted (fh1ConvBytes (falconH1Init m s₀ read.ropeTheta noStates))
      (fh1SsmBytes (falconH1Init m s₀ read.ropeTheta noStates)) s₀) embd
    refine falconH1_sound fh1 (fun fits l conv ssm => ?_) built agree
    exact fh1_rooms granted read.ropeTheta rfl fh1 fits l conv ssm
  · cases init
  · cases init

-- n_state is a u32.
theorem shapes_inside (init : archInit m (sessionOf m w vocabSize ctxSize nGpuLayers) read granted = some (s,ws,blocks))
    (built : archBuild s ws nTokens = some g) (few : g.state.length ≤ 2^32) (agree : ShapesAgree m s ws) (some' : 0 < n) (i : Nat) :
    (∀ a ∈ opReads s.cfg g n i, a.Inside s.cfg g n) ∧ ∀ t ∈ opTouches s.cfg g i, 4*(t.2.1+t.2.2) ≤ blockBytes blocks t.1 := by
  have sound := archBuild_sound init built agree
  exact ⟨sound.reads some' i,sound.touches few i⟩

end models

-- One llama layer over embeddings of width 2, four tokens, an FFN of width 3 and a norm of
-- `normWidth` elements in front of the attention.
def llamaLayout (normWidth : Nat) : Layout :=
  ⟨[⟨cstr "general.architecture",.string (cstr "llama")⟩,entryU32 "llama.attention.head_count" 1],
   [⟨cstr "token_embd.weight",[2,4],0,0⟩,⟨cstr "output_norm.weight",[2],0,0⟩,⟨cstr "blk.0.attn_norm.weight",[normWidth],0,0⟩,
    ⟨cstr "blk.0.attn_q.weight",[2,2],0,0⟩,⟨cstr "blk.0.attn_k.weight",[2,2],0,0⟩,⟨cstr "blk.0.attn_v.weight",[2,2],0,0⟩,
    ⟨cstr "blk.0.attn_output.weight",[2,2],0,0⟩,⟨cstr "blk.0.ffn_norm.weight",[2],0,0⟩,⟨cstr "blk.0.ffn_gate.weight",[2,3],0,0⟩,
    ⟨cstr "blk.0.ffn_up.weight",[2,3],0,0⟩,⟨cstr "blk.0.ffn_down.weight",[3,2],0,0⟩],
   List.replicate 64 0⟩

def noFloats : Floats := ⟨0,0,0,0,0,0⟩

structure Loaded where
  m : Model
  w : Weights
  s : Session
  ws : ArchWorkspace
  blocks : List Nat
  g : Graph

def load (f : MappedFile) : Option Loaded := do
  let m ← (modelLoad f).toOption
  let w ← (weightsLoad m).toOption
  let (s,ws,blocks) ← archInit m (sessionOf m w 4 8 0) noFloats fun _ _ => true
  let g ← archBuild s ws 2
  some ⟨m,w,s,ws,blocks,g⟩

section decidable
variable (o : Option TensorInfo) (lw : TensorRole → Option TensorInfo) (c : ArchConfig) (s : Session) (w f fh : Nat)

instance : Decidable (NormOf o w) := inferInstanceAs (Decidable (∀ t ∈ o, u32 t.nElement = w))

instance (flag : TensorInfo → Bool) (input out : Nat) : Decidable (Projects o flag input out) :=
  inferInstanceAs (Decidable (∀ t ∈ o, takes t (flag t) = input ∧ gives t (flag t) = out))

instance : Decidable (HeadShape s w) :=
  inferInstanceAs (Decidable (∀ t ∈ (s.tensors .output).or (s.tensors .tokenEmbd), takes t (embdFlag s.cfg t) = w))

instance : Decidable (HeadsFit c) :=
  decidable_of_iff (c.nHead*c.headDim < 2^32 ∧ c.nKvHead*c.kvHeadDim < 2^32 ∧ c.kvHeadDim ≤ c.headDim)
    ⟨fun h => ⟨h.1,h.2.1,h.2.2⟩,fun h => ⟨h.1,h.2,h.3⟩⟩

instance : Decidable (DenseShapes lw c w) :=
  decidable_of_iff (HeadsFit c ∧ Projects (lw .attnQ) (qFlag c) w (qDim c) ∧ Projects (lw .attnK) (embdFlag c) w (kvDim c) ∧
      Projects (lw .attnV) (embdFlag c) w (kvDim c) ∧ Projects (lw .attnOut) (outFlag c) (qDim c) w)
    ⟨fun h => ⟨h.1,h.2.1,h.2.2.1,h.2.2.2.1,h.2.2.2.2⟩,fun h => ⟨h.1,h.2,h.3,h.4,h.5⟩⟩

instance : Decidable (FfnShapes lw c fh w f) :=
  decidable_of_iff (Projects (lw .ffnGate) (embdFlag c) w f ∧ Projects (lw .ffnUp) (embdFlag c) w f ∧
      Projects (lw .ffnDown) (fun t => readsTransposed t fh) f w)
    ⟨fun h => ⟨h.1,h.2.1,h.2.2⟩,fun h => ⟨h.1,h.2,h.3⟩⟩

instance (g : Graph) (n : Nat) (a : RowAccess) : Decidable (a.Inside c g n) :=
  decidable_of_iff (a.row < rowCount g n a.src ∧ a.row*rowWidth c g a.src ≤ a.start ∧ a.start+a.len ≤ (a.row+1)*rowWidth c g a.src)
    ⟨fun h => ⟨h.1,h.2.1,h.2.2⟩,fun h => ⟨h.1,h.2,h.3⟩⟩

end decidable

theorem toOption_ok {r : Except ε α} (found : r.toOption = some a) : r = .ok a := by
  cases r with
  | error e => cases found
  | ok b =>
    cases found
    rfl

theorem load_parts (loaded : load f = some x) : modelLoad f = .ok x.m ∧ weightsLoad x.m = .ok x.w ∧
    archInit x.m (sessionOf x.m x.w 4 8 0) noFloats (fun _ _ => true) = some (x.s,x.ws,x.blocks) ∧
    archBuild x.s x.ws 2 = some x.g := by
  obtain ⟨m,parsed,loaded⟩ := Option.bind_eq_some_iff.mp loaded
  obtain ⟨w,weights,loaded⟩ := Option.bind_eq_some_iff.mp loaded
  obtain ⟨⟨s,ws,blocks⟩,init,loaded⟩ := Option.bind_eq_some_iff.mp loaded
  obtain ⟨g,built,loaded⟩ := Option.bind_eq_some_iff.mp loaded
  cases loaded
  exact ⟨toOption_ok parsed,toOption_ok weights,init,built⟩

def llamaFile (normWidth : Nat) (fits : (llamaLayout normWidth).encode.length < addressSpace) : MappedFile :=
  ⟨(llamaLayout normWidth).encode,fits⟩

theorem wide_fits : (llamaLayout 3).encode.length < addressSpace := by decide +kernel

theorem narrow_fits : (llamaLayout 2).encode.length < addressSpace := by decide +kernel

-- The norm in front of the attention reads three elements of a row of two.
theorem wide_reads : (load (llamaFile 3 wide_fits)).any (fun x => (opReads x.s.cfg x.g 1 2).any fun a =>
    !decide (a.Inside x.s.cfg x.g 1)) = true := by decide +kernel

theorem wideNorm_outside : ∃ m w s ws blocks g, modelLoad (llamaFile 3 wide_fits) = .ok m ∧ weightsLoad m = .ok w ∧
    archInit m (sessionOf m w 4 8 0) noFloats (fun _ _ => true) = some (s,ws,blocks) ∧ archBuild s ws 2 = some g ∧
    ¬ ∀ n > 0, ∀ i, ∀ a ∈ opReads s.cfg g n i, a.Inside s.cfg g n := by
  obtain ⟨x,loaded,reads⟩ := (Option.any_eq_true _ _).mp wide_reads
  obtain ⟨a,read,outside⟩ := List.any_eq_true.mp reads
  obtain ⟨parsed,weights,init,built⟩ := load_parts loaded
  refine ⟨x.m,x.w,x.s,x.ws,x.blocks,x.g,parsed,weights,init,built,fun inside => ?_⟩
  have within := inside 1 one_pos 2 a read
  simp [within] at outside

def llamaAgrees (x : Loaded) : ArchWorkspace → Bool
  | .llama ws => (∀ t ∈ x.s.tensors .tokenEmbd, embedWidth x.s.cfg t = 2) ∧ NormOf (x.s.tensors .outputNorm) 2 ∧ HeadShape x.s 2 ∧
      ∀ l < x.s.cfg.nLayer, NormOf (x.s.layers l .attnNorm) 2 ∧ DenseShapes (x.s.layers l) x.s.cfg 2 ∧
        NormOf (x.s.layers l .postAttnNorm) 2 ∧ FfnShapes (x.s.layers l) x.s.cfg ws.ffnHidden 2 3
  | _ => false

theorem shapes_of_agrees (agrees : llamaAgrees x ws = true) : ShapesAgree m x.s ws := by
  cases ws with
  | llama ws =>
    obtain ⟨embd,norm',head,layers⟩ := of_decide_eq_true agrees
    refine ⟨2,⟨embd,norm',head⟩,fun l below => ?_⟩
    obtain ⟨attnNorm,dense,postAttnNorm,ffn⟩ := layers l below
    exact ⟨attnNorm,dense,postAttnNorm,3,ffn⟩
  | qwen25 ws => cases agrees
  | gemma3 ws => cases agrees
  | qwen35 ws => cases agrees
  | falconH1 ws => cases agrees

theorem narrow_agrees : (load (llamaFile 2 narrow_fits)).any (fun x => llamaAgrees x x.ws &&
    decide (x.g.state.length ≤ 2^32)) = true := by decide +kernel

theorem narrowNorm_inside : ∃ m w s ws blocks g, modelLoad (llamaFile 2 narrow_fits) = .ok m ∧ weightsLoad m = .ok w ∧
    archInit m (sessionOf m w 4 8 0) noFloats (fun _ _ => true) = some (s,ws,blocks) ∧ archBuild s ws 2 = some g ∧
    ∀ i, (∀ a ∈ opReads s.cfg g 2 i, a.Inside s.cfg g 2) ∧
      ∀ t ∈ opTouches s.cfg g i, 4*(t.2.1+t.2.2) ≤ blockBytes blocks t.1 := by
  obtain ⟨x,loaded,agrees⟩ := (Option.any_eq_true _ _).mp narrow_agrees
  obtain ⟨shapes,few⟩ := (Bool.and_eq_true _ _).mp agrees
  obtain ⟨parsed,weights,init,built⟩ := load_parts loaded
  refine ⟨x.m,x.w,x.s,x.ws,x.blocks,x.g,parsed,weights,init,built,fun i => ?_⟩
  exact shapes_inside init built (of_decide_eq_true few) (shapes_of_agrees shapes) two_pos i

end TinyLlama.Engine
