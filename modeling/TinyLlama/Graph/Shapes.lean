import TinyLlama.Graph.Nodes

-- The shapes under which the five builders' graphs are sound. The flags are the builders' own.
namespace TinyLlama.Graph
open Gguf

def NormOf (o : Option TensorInfo) (w : Nat) : Prop := ∀ t, o = some t → u32 t.nElement = w

def Projects (o : Option TensorInfo) (flag : TensorInfo → Bool) (input out : Nat) : Prop :=
  ∀ t, o = some t → takes t (flag t) = input ∧ gives t (flag t) = out

-- The fields of the configuration are u32.
structure Words (c : ArchConfig) : Prop where
  nHead : c.nHead < 2^32
  nKvHead : c.nKvHead < 2^32
  headDim : c.headDim < 2^32
  kvHeadDim : c.kvHeadDim < 2^32

def qFlag (c : ArchConfig) (t : TensorInfo) : Bool := qDim c ≠ c.nEmbd && readsTransposed t c.nEmbd
def outFlag (c : ArchConfig) (t : TensorInfo) : Bool := c.nEmbd ≠ qDim c && readsTransposed t (qDim c)
def embdFlag (c : ArchConfig) (t : TensorInfo) : Bool := readsTransposed t c.nEmbd

-- z | xBC | dt for the conv and the scan, and what both heads and groups make of it.
structure Fh1Shapes (lw : TensorRole → Option TensorInfo) (c : ArchConfig) (ws : FalconH1WorkSpace) (w : Nat) : Prop where
  attnNorm : NormOf (lw .attnNorm) w
  heads : HeadsFit c
  query : Projects (lw .attnQ) (fun t => fh1MmTrans t (qDim c) c.nEmbd) w (qDim c)
  key : Projects (lw .attnK) (fun t => fh1MmTrans t (kvDim c) c.nEmbd) w (kvDim c)
  value : Projects (lw .attnV) (fun t => fh1MmTrans t (kvDim c) c.nEmbd) w (kvDim c)
  out : Projects (lw .attnOut) (fun t => fh1MmTrans t c.nEmbd (qDim c)) (qDim c) w
  proj : Projects (lw .ssmIn) (fun t => fh1MmTrans t (projDim ws) c.nEmbd) w
    (mambaProjWidth ws.ssmDInner ws.ssmNGroup ws.ssmDState ws.ssmNHead)
  mixed : Projects (lw .ssmOut) (fun t => fh1MmTrans t c.nEmbd ws.ssmDInner) ws.ssmDInner w
  ffnNorm : NormOf ((lw .ffnNorm).or (lw .postAttnNorm)) w
  ffn : ∀ tg, lw .ffnGate = some tg → ∃ f,
    Projects (lw .ffnGate) (fun t => fh1MmTrans t (u32 (tg.dim.getD 0 0)) c.nEmbd) w f ∧
      Projects (lw .ffnUp) (fun t => fh1MmTrans t (u32 (tg.dim.getD 0 0)) c.nEmbd) w f ∧
      Projects (lw .ffnDown) (fun t => fh1MmTrans t c.nEmbd (u32 (tg.dim.getD 0 0))) f w

structure Fh1Words (ws : FalconH1WorkSpace) : Prop where
  dInner : ws.ssmDInner < 2^32
  dState : ws.ssmDState < 2^32
  nGroup : ws.ssmNGroup < 2^32
  nHead : ws.ssmNHead < 2^32
  headDim : ws.ssmHeadDim < 2^32
  kernel : ws.ssmConvKernel < 2^32
  split : ws.ssmNHead*ws.ssmHeadDim ≤ ws.ssmDInner

structure Fh1Rooms (bytes : Nat → Nat) (ws : FalconH1WorkSpace) (l : Nat) : Prop where
  conv : 4*((ws.ssmConvKernel-1)*mambaConvDim ws.ssmDInner ws.ssmNGroup ws.ssmDState) ≤ bytes (ws.convState l)
  ssm : 4*(ws.ssmNHead*ws.ssmHeadDim*ws.ssmDState) ≤ bytes (ws.ssmState l)

structure FfnShapes (lw : TensorRole → Option TensorInfo) (c : ArchConfig) (fh w f : Nat) : Prop where
  gate : Projects (lw .ffnGate) (embdFlag c) w f
  up : Projects (lw .ffnUp) (embdFlag c) w f
  down : Projects (lw .ffnDown) (fun t => readsTransposed t fh) f w

structure DenseShapes (lw : TensorRole → Option TensorInfo) (c : ArchConfig) (w : Nat) : Prop where
  heads : HeadsFit c
  query : Projects (lw .attnQ) (qFlag c) w (qDim c)
  key : Projects (lw .attnK) (embdFlag c) w (kvDim c)
  value : Projects (lw .attnV) (embdFlag c) w (kvDim c)
  out : Projects (lw .attnOut) (outFlag c) (qDim c) w

structure LlamaShapes (lw : TensorRole → Option TensorInfo) (c : ArchConfig) (fh w : Nat) : Prop where
  attnNorm : NormOf (lw .attnNorm) w
  dense : DenseShapes lw c w
  postAttnNorm : NormOf (lw .postAttnNorm) w
  ffn : ∃ f, FfnShapes lw c fh w f

structure Gemma3Shapes (lw : TensorRole → Option TensorInfo) (c : ArchConfig) (fh w : Nat) : Prop where
  attnNorm : NormOf (lw .attnNorm) w
  dense : DenseShapes lw c w
  postAttnNorm : NormOf (lw .postAttnNorm) w
  ffnNorm : NormOf (lw .ffnNorm) w
  ffnPostNorm : NormOf (lw .ffnPostNorm) w
  ffn : ∃ f, FfnShapes lw c fh w f

def queryWidth (lw : TensorRole → Option TensorInfo) (c : ArchConfig) : Nat :=
  if (lw .attnQNorm).isSome then c.nHead*(2*c.headDim) else qDim c

structure GatedShapes (lw : TensorRole → Option TensorInfo) (c : ArchConfig) (w : Nat) : Prop where
  heads : HeadsFit c
  query : Projects (lw .attnQ) (fun t => qProj t c ≠ c.nEmbd && readsTransposed t c.nEmbd) w (queryWidth lw c)
  fits : queryWidth lw c < 2^32
  key : Projects (lw .attnK) (embdFlag c) w (kvDim c)
  value : Projects (lw .attnV) (embdFlag c) w (kvDim c)
  gate : Projects (lw .attnGate) (fun t => ssmMmTrans t (qDim c) c.nEmbd) w (qDim c)
  out : Projects (lw .attnOut) (outFlag c) (qDim c) w

def fusedWidth (ws : Qwen35Workspace) : Nat := 2*u32 (ws.ssmNK*ws.ssmHeadV)+ws.ssmNV*ws.ssmHeadV

def deltaWidth (ws : Qwen35Workspace) : Nat := u32 (ws.ssmNV*ws.ssmHeadV)

structure SsmShapes (lw : TensorRole → Option TensorInfo) (c : ArchConfig) (ws : Qwen35Workspace) (w : Nat) : Prop where
  qkv : Projects (lw .attnQkv) (embdFlag c) w (fusedWidth ws)
  alpha : Projects (lw .ssmAlpha) (fun t => ssmMmTrans t ws.ssmNV c.nEmbd) w ws.ssmNV
  beta : Projects (lw .ssmBeta) (fun t => ssmMmTrans t ws.ssmNV c.nEmbd) w ws.ssmNV
  gate : Projects (lw .attnGate) (fun t => ssmMmTrans t ws.ssmValDim c.nEmbd) w (deltaWidth ws)
  out : Projects (lw .ssmOut) (fun t => ssmMmTrans t c.nEmbd ws.ssmValDim) (deltaWidth ws) w

structure Qwen35Words (ws : Qwen35Workspace) : Prop where
  nV : ws.ssmNV < 2^32
  nK : ws.ssmNK < 2^32
  headV : ws.ssmHeadV < 2^32
  kernel : ws.convKernel < 2^32

structure Qwen35Rooms (bytes : Nat → Nat) (ws : Qwen35Workspace) (l : Nat) : Prop where
  conv : 4*((ws.convKernel-1)*fusedWidth ws) ≤ bytes (ws.convState l)
  ssm : 4*(ws.ssmNV*(ws.ssmHeadV*ws.ssmHeadV)) ≤ bytes (ws.ssmState l)

structure Qwen35Shapes (lw : TensorRole → Option TensorInfo) (c : ArchConfig) (ws : Qwen35Workspace) (w : Nat) : Prop where
  attnNorm : NormOf (lw .attnNorm) w
  mixer : if (lw .ssmConv1d).isSome then SsmShapes lw c ws w else GatedShapes lw c w
  postAttnNorm : NormOf (lw .postAttnNorm) w
  ffn : ∃ f, FfnShapes lw c ws.ffnHidden w f

def HeadShape (s : Session) (w : Nat) : Prop :=
  ∀ t, (s.tensors .output).or (s.tensors .tokenEmbd) = some t → takes t (embdFlag s.cfg t) = w

section layers
variable {s : Session} {bytes : Nat → Nat} {K : List Known} {w f fh : Nat}

theorem project_keeps {c : ArchConfig} {o : Option TensorInfo} {flag : TensorInfo → Bool} {out src : Nat}
    (shape : Projects o flag w out) (there : o = some t) (known : .width src w ∈ K) :
    Keeps c bytes K (graphMulMat src t (flag t)) fun i => [.width i out] := by
  obtain ⟨input,output⟩ := shape t there
  rw [← output]
  exact graphMulMat_keeps t (flag t) known input

theorem embedded_keeps (te : ∀ t, s.tensors .tokenEmbd = some t → embedWidth s.cfg t = w) (nTokens : Nat) :
    Keeps s.cfg bytes K (embedded s nTokens) fun i => [.width i w] := by
  refine .given fun t there => .require fun _ => (graphInput_keeps nTokens).bind fun input => ?_
  rw [← te t there]
  exact graphEmbed_keeps t nTokens (by simp)

theorem lmHead_keeps {src : Nat} (shape : HeadShape s w) (known : .width src w ∈ K) :
    Keeps s.cfg bytes K (lmHead s src) fun _ => [] :=
  .given fun t there => (graphMulMat_keeps t _ known (shape t there)).less fun _ _ listed => by cases listed

theorem overLayers_keeps {c : ArchConfig} {layer : Nat → Nat → Build Nat} (ls : List Nat)
    (each : ∀ l ∈ ls, ∀ cur K, .width cur w ∈ K → Keeps c bytes K (layer cur l) fun i => [.width i w]) :
    ∀ cur K, .width cur w ∈ K → Keeps c bytes K (overLayers layer ls cur) fun i => [.width i w] := by
  induction ls with
  | nil => exact fun cur K known => .pure cur fun f listed => by cases List.mem_singleton.mp listed; exact known
  | cons l rest ih =>
    intro cur K known
    have later := ih fun k present => each k (List.mem_cons_of_mem _ present)
    exact (each l (List.mem_cons_self ..) cur K known).bind fun next => later next _ (by simp)

theorem swiglu_keeps {lw : TensorRole → Option TensorInfo} {c : ArchConfig} {hn : Nat} (shapes : FfnShapes lw c fh w f)
    (known : .width hn w ∈ K) : Keeps c bytes K (swiglu lw c fh hn) fun i => [.width i w] := by
  refine .given fun tg g => .given fun tu u => .given fun td d => ?_
  refine (project_keeps shapes.gate g known).bind fun gate => ?_
  refine (graphSilu_keeps (w:=f) (by simp)).bind fun gate => ?_
  refine (project_keeps shapes.up u (by simp [known])).bind fun up => ?_
  refine (graphBinary_keeps (w:=f) .mul (by simp) (by simp)).bind fun mul => ?_
  exact project_keeps shapes.down d (by simp)

theorem llamaLayer_keeps {ws : LlamaWorkSpace} (shapes : LlamaShapes (s.layers l) s.cfg ws.ffnHidden w)
    (cur : Nat) (K : List Known) (known : .width cur w ∈ K) :
    Keeps s.cfg bytes K (llamaLayer s ws cur l) fun i => [.width i w] := by
  obtain ⟨f,ffn⟩ := shapes.ffn
  refine (graphSetLayer_keeps l).bind fun _ => ?_
  refine .given fun tq q => .given fun tk k => .given fun tv v => .given fun tO o => ?_
  refine (graphRmsNorm_keeps (w:=w) _ (by simp [known]) shapes.attnNorm).bind fun n => ?_
  refine (project_keeps shapes.dense.query q (by simp)).bind fun q => ?_
  refine (project_keeps shapes.dense.key k (by simp)).bind fun k => ?_
  refine (project_keeps shapes.dense.value v (by simp)).bind fun v => ?_
  refine (addBias_keeps (w:=qDim s.cfg) _ (by simp)).bind fun q => ?_
  refine (addBias_keeps (w:=kvDim s.cfg) _ (by simp)).bind fun k => ?_
  refine (addBias_keeps (w:=kvDim s.cfg) _ (by simp)).bind fun v => ?_
  refine (graphRopeNorm_keeps (w:=qDim s.cfg) _ _ _ _ (by simp)).bind fun q => ?_
  refine (graphRopeNorm_keeps (w:=kvDim s.cfg) _ _ _ _ (by simp)).bind fun k => ?_
  refine (graphAttn_keeps _ _ shapes.dense.heads (by simp) (by simp) (by simp)).bind fun attn => ?_
  refine (project_keeps shapes.dense.out o (by simp)).bind fun o => ?_
  refine (graphBinary_keeps (w:=w) .add (by simp [known]) (by simp)).bind fun h => ?_
  refine (graphRmsNorm_keeps (w:=w) _ (by simp) shapes.postAttnNorm).bind fun hn => ?_
  refine (swiglu_keeps ffn (by simp)).bind fun down => ?_
  refine (graphBinary_keeps (w:=w) .add (by simp) (by simp)).bind fun cur => ?_
  exact graphLayerBoundary_keeps s l (by simp)

theorem qwen25Layer_keeps {ws : Qwen25Workspace} (shapes : LlamaShapes (s.layers l) s.cfg ws.ffnHidden w)
    (cur : Nat) (K : List Known) (known : .width cur w ∈ K) :
    Keeps s.cfg bytes K (qwen25Layer s ws cur l) fun i => [.width i w] := by
  obtain ⟨f,ffn⟩ := shapes.ffn
  refine (graphSetLayer_keeps l).bind fun _ => ?_
  refine .given fun tq q => .given fun tk k => .given fun tv v => .given fun tO o => ?_
  refine (graphRmsNorm_keeps (w:=w) _ (by simp [known]) shapes.attnNorm).bind fun n => ?_
  refine (project_keeps shapes.dense.query q (by simp)).bind fun q => ?_
  refine (project_keeps shapes.dense.key k (by simp)).bind fun k => ?_
  refine (project_keeps shapes.dense.value v (by simp)).bind fun v => ?_
  refine (addBias_keeps (w:=qDim s.cfg) _ (by simp)).bind fun q => ?_
  refine (addBias_keeps (w:=kvDim s.cfg) _ (by simp)).bind fun k => ?_
  refine (addBias_keeps (w:=kvDim s.cfg) _ (by simp)).bind fun v => ?_
  refine (graphRope_keeps (w:=qDim s.cfg) _ _ _ _ (by simp)).bind fun q => ?_
  refine (graphRope_keeps (w:=kvDim s.cfg) _ _ _ _ (by simp)).bind fun k => ?_
  refine (graphAttn_keeps _ _ shapes.dense.heads (by simp) (by simp) (by simp)).bind fun attn => ?_
  refine (project_keeps shapes.dense.out o (by simp)).bind fun o => ?_
  refine (graphBinary_keeps (w:=w) .add (by simp [known]) (by simp)).bind fun h => ?_
  refine (graphRmsNorm_keeps (w:=w) _ (by simp) shapes.postAttnNorm).bind fun hn => ?_
  refine (swiglu_keeps ffn (by simp)).bind fun down => ?_
  refine (graphBinary_keeps (w:=w) .add (by simp) (by simp)).bind fun cur => ?_
  exact graphLayerBoundary_keeps s l (by simp)

theorem headNorm_keeps {c : ArchConfig} {src nHeads headDim : Nat} (weight : Option TensorInfo)
    (small : nHeads < 2^32 ∧ headDim < 2^32) (fits : nHeads*headDim < 2^32) (known : .width src (u32 (nHeads*headDim)) ∈ K) :
    Keeps c bytes K (graphRmsNormHeads src weight nHeads headDim headDim headDim)
      fun i => [.width i (u32 (nHeads*headDim))] :=
  graphRmsNormHeads_keeps ⟨small.1,small.2,small.2,small.2⟩ known (u32_of_lt fits).symm

theorem gemma3Layer_keeps {ws : Gemma3WorkSpace} (words : Words s.cfg)
    (shapes : Gemma3Shapes (s.layers l) s.cfg ws.ffnHidden w) (cur : Nat) (K : List Known) (known : .width cur w ∈ K) :
    Keeps s.cfg bytes K (gemma3Layer s ws cur l) fun i => [.width i w] := by
  obtain ⟨f,ffn⟩ := shapes.ffn
  refine (graphSetLayer_keeps l).bind fun _ => ?_
  refine .given fun tq q => .given fun tk k => .given fun tv v => .given fun tO o => ?_
  refine .given fun tg g => .given fun tu u => .given fun td d => ?_
  refine (graphRmsNorm_keeps (w:=w) _ (by simp [known]) shapes.attnNorm).bind fun n => ?_
  refine (project_keeps shapes.dense.query q (by simp)).bind fun q => ?_
  refine (project_keeps shapes.dense.key k (by simp)).bind fun k => ?_
  refine (project_keeps shapes.dense.value v (by simp)).bind fun v => ?_
  refine (headNorm_keeps _ ⟨words.nHead,words.headDim⟩ shapes.dense.heads.queries (by simp [qDim])).bind fun q => ?_
  refine (headNorm_keeps _ ⟨words.nKvHead,words.kvHeadDim⟩ shapes.dense.heads.keys (by simp [kvDim])).bind fun k => ?_
  refine (graphRope_keeps (w:=qDim s.cfg) _ _ _ _ (by simp [qDim])).bind fun q => ?_
  refine (graphRope_keeps (w:=kvDim s.cfg) _ _ _ _ (by simp [kvDim])).bind fun k => ?_
  refine (graphScale_keeps (w:=qDim s.cfg) _ (by simp)).bind fun q => ?_
  refine (graphAttn_keeps _ _ shapes.dense.heads (by simp) (by simp) (by simp)).bind fun attn => ?_
  refine (project_keeps shapes.dense.out o (by simp)).bind fun o => ?_
  refine (graphRmsNorm_keeps (w:=w) _ (by simp) shapes.postAttnNorm).bind fun o => ?_
  refine (graphBinary_keeps (w:=w) .add (by simp [known]) (by simp)).bind fun h => ?_
  refine (graphRmsNorm_keeps (w:=w) _ (by simp) shapes.ffnNorm).bind fun hn => ?_
  refine (project_keeps ffn.gate g (by simp)).bind fun gate => ?_
  refine (graphGelu_keeps (w:=f) (by simp)).bind fun gate => ?_
  refine (project_keeps ffn.up u (by simp)).bind fun up => ?_
  refine (graphBinary_keeps (w:=f) .mul (by simp) (by simp)).bind fun mul => ?_
  refine (project_keeps ffn.down d (by simp)).bind fun down => ?_
  refine (graphRmsNorm_keeps (w:=w) _ (by simp) shapes.ffnPostNorm).bind fun down => ?_
  refine (graphBinary_keeps (w:=w) .add (by simp) (by simp)).bind fun cur => ?_
  exact graphLayerBoundary_keeps s l (by simp)

theorem outputGate_keeps {c : ArchConfig} {gate : Option TensorInfo} {x n width out : Nat}
    (shape : Projects gate (fun t => ssmMmTrans t width c.nEmbd) w out) (known : .width x out ∈ K) (known' : .width n w ∈ K) :
    Keeps c bytes K (outputGate gate x n width c) fun i => [.width i out] := by
  cases gate with
  | none => exact .pure x fun f listed => by cases List.mem_singleton.mp listed; exact known
  | some t =>
    refine (project_keeps shape rfl known').bind fun a => ?_
    refine (graphSilu_keeps (w:=out) (by simp)).bind fun a => ?_
    exact graphBinary_keeps (w:=out) .mul (by simp [known]) (by simp)

theorem qwen35Ssm_keeps {ws : Qwen35Workspace} (words : Qwen35Words ws) (shapes : SsmShapes (s.layers l) s.cfg ws w)
    (rooms : ws.convState l ≠ 0 → ws.ssmState l ≠ 0 → Qwen35Rooms bytes ws l) (conv : TensorInfo) {cur n : Nat}
    (known : .width cur w ∈ K) (known' : .width n w ∈ K) :
    Keeps s.cfg bytes K (qwen35Ssm s ws conv cur n l) fun i => [.width i w] := by
  refine .given fun tqkv qkv => .given fun ta a => .given fun tb b => .given fun _ _ => .given fun _ _ => .given fun tso so => ?_
  refine .state fun lives convSt => .state fun lives' ssmSt => ?_
  have rooms := rooms lives lives'
  refine (project_keeps shapes.qkv qkv (by simp [known'])).bind fun f => ?_
  refine (graphSsmConv_keeps (w:=fusedWidth ws) conv words.kernel (by simp) (by simp) rooms.conv).bind fun f => ?_
  refine (graphSilu_keeps (w:=fusedWidth ws) (by simp)).bind fun f => ?_
  refine (project_keeps shapes.alpha a (by simp [known'])).bind fun a => ?_
  refine (project_keeps shapes.beta b (by simp [known'])).bind fun b => ?_
  refine (graphSsmDelta_keeps _ ⟨words.nV,words.nK,words.headV⟩ (by simp [fusedWidth]) (by simp) (by simp)
    (by simp : Known.state ssmSt (bytes (ws.ssmState l)) ∈ _) rooms.ssm).bind fun d => ?_
  refine (outputGate_keeps shapes.gate (by simp [deltaWidth]) (by simp [known'])).bind fun d => ?_
  refine (project_keeps shapes.out so (by simp)).bind fun y => ?_
  exact graphBinary_keeps (w:=w) .add (by simp [known]) (by simp)

theorem optionalNorm_keeps {c : ArchConfig} {src nHeads headDim : Nat} (weight : Option TensorInfo)
    (small : nHeads < 2^32 ∧ headDim < 2^32) (fits : nHeads*headDim < 2^32) (known : .width src (u32 (nHeads*headDim)) ∈ K) :
    Keeps c bytes K (optionalNorm src weight nHeads headDim) fun i => [.width i (u32 (nHeads*headDim))] := by
  cases weight with
  | none => exact .pure src fun f listed => by cases List.mem_singleton.mp listed; exact known
  | some t => exact headNorm_keeps (some t) small fits known

theorem queryHalf_keeps {lw : TensorRole → Option TensorInfo} {c : ArchConfig} (words : Words c)
    (fits : queryWidth lw c < 2^32) {fq : Nat} (proj : Nat) (known : .width fq (queryWidth lw c) ∈ K) :
    Keeps c bytes K (queryHalf (lw .attnQNorm) fq proj c) fun i => [.width i (qDim c)] := by
  unfold queryWidth at fits known
  cases gated : lw .attnQNorm with
  | none =>
    rw [gated] at known
    exact .require fun _ => .pure fq fun f listed => by cases List.mem_singleton.mp listed; exact known
  | some t =>
    rw [gated] at fits known
    have fits : c.nHead*(2*c.headDim) < 2^32 := fits
    have stride : c.nHead*u32 (2*c.headDim) = c.nHead*(2*c.headDim) := by
      rcases Nat.eq_zero_or_pos c.nHead with zero | some'
      · rw [zero,Nat.zero_mul,Nat.zero_mul]
      · rw [u32_of_lt (lt_of_le_of_lt (Nat.le_mul_of_pos_left _ some') fits)]
    exact .require fun _ => graphRmsNormHeads_keeps ⟨words.nHead,words.headDim,u32_lt _,words.headDim⟩ known stride

theorem sigmoidGated_keeps {lw : TensorRole → Option TensorInfo} {c : ArchConfig} (words : Words c) (heads : HeadsFit c)
    {attn fq : Nat} (known : .width attn (qDim c) ∈ K) (known' : .width fq (queryWidth lw c) ∈ K) :
    Keeps c bytes K (sigmoidGated (lw .attnQNorm) attn fq c) fun i => [.width i (qDim c)] := by
  unfold queryWidth at known'
  have exact' : qDim c = c.nHead*c.headDim := u32_of_lt heads.queries
  cases gated : lw .attnQNorm with
  | none => exact .pure attn fun f listed => by cases List.mem_singleton.mp listed; exact known
  | some t =>
    rw [gated] at known'
    rw [exact'] at known ⊢
    exact graphSigmoidGate_keeps heads.queries ⟨words.nHead,words.headDim⟩ known known'

theorem qwen35Dense_keeps {ws : Qwen35Workspace} (words : Words s.cfg)
    (shapes : GatedShapes (s.layers l) s.cfg w) {cur n : Nat} (known : .width cur w ∈ K) (known' : .width n w ∈ K) :
    Keeps s.cfg bytes K (qwen35Dense s ws cur n l) fun i => [.width i w] := by
  refine .given fun tq q => .given fun tk k => .given fun tv v => .given fun tO o => .require fun _ => ?_
  refine (project_keeps shapes.query q known').bind fun fq => ?_
  refine (addBias_keeps (w:=queryWidth (s.layers l) s.cfg) _ (by simp)).bind fun fq => ?_
  refine (queryHalf_keeps words shapes.fits _ (by simp)).bind fun q => ?_
  refine (project_keeps shapes.key k (by simp [known'])).bind fun k => ?_
  refine (project_keeps shapes.value v (by simp [known'])).bind fun v => ?_
  refine (addBias_keeps (w:=kvDim s.cfg) _ (by simp)).bind fun k => ?_
  refine (addBias_keeps (w:=kvDim s.cfg) _ (by simp)).bind fun v => ?_
  refine (optionalNorm_keeps _ ⟨words.nKvHead,words.kvHeadDim⟩ shapes.heads.keys (by simp [kvDim])).bind fun k => ?_
  refine (graphRope_keeps (w:=qDim s.cfg) _ _ _ _ (by simp)).bind fun q => ?_
  refine (graphRope_keeps (w:=kvDim s.cfg) _ _ _ _ (by simp [kvDim])).bind fun k => ?_
  refine (graphAttn_keeps _ _ shapes.heads (by simp) (by simp) (by simp)).bind fun attn => ?_
  refine (outputGate_keeps shapes.gate (by simp) (by simp [known'])).bind fun attn => ?_
  refine (sigmoidGated_keeps words shapes.heads (by simp) (by simp)).bind fun attn => ?_
  refine (project_keeps shapes.out o (by simp)).bind fun o => ?_
  exact graphBinary_keeps (w:=w) .add (by simp [known]) (by simp)

theorem qwen35Layer_keeps {ws : Qwen35Workspace} (words : Words s.cfg) (ssmWords : Qwen35Words ws)
    (shapes : Qwen35Shapes (s.layers l) s.cfg ws w)
    (rooms : (s.layers l .ssmConv1d).isSome = true → ws.convState l ≠ 0 → ws.ssmState l ≠ 0 → Qwen35Rooms bytes ws l)
    (cur : Nat) (K : List Known) (known : .width cur w ∈ K) :
    Keeps s.cfg bytes K (qwen35Layer s ws cur l) fun i => [.width i w] := by
  obtain ⟨f,ffn⟩ := shapes.ffn
  refine (graphSetLayer_keeps l).bind fun _ => ?_
  refine (graphRmsNorm_keeps (w:=w) _ (by simp [known]) shapes.attnNorm).bind fun n => ?_
  have rest : ∀ cur K, .width cur w ∈ K → Keeps s.cfg bytes K (do
      let hn ← graphRmsNorm cur (s.layers l .postAttnNorm)
      let down ← swiglu (s.layers l) s.cfg ws.ffnHidden hn
      let cur ← graphBinary .add cur down
      graphLayerBoundary cur s l) fun i => [.width i w] := by
    intro cur K known
    refine (graphRmsNorm_keeps (w:=w) _ known shapes.postAttnNorm).bind fun hn => ?_
    refine (swiglu_keeps ffn (by simp)).bind fun down => ?_
    refine (graphBinary_keeps (w:=w) .add (by simp [known]) (by simp)).bind fun cur => ?_
    exact graphLayerBoundary_keeps s l (by simp)
  have mixer := shapes.mixer
  cases kind : s.layers l .ssmConv1d with
  | some conv =>
    rw [kind] at mixer rooms
    exact (qwen35Ssm_keeps ssmWords mixer (rooms rfl) conv (by simp [known]) (by simp)).bind fun cur => rest cur _ (by simp)
  | none =>
    rw [kind] at mixer
    exact (qwen35Dense_keeps words mixer (by simp [known]) (by simp)).bind fun cur => rest cur _ (by simp)

theorem falconH1Attention_keeps {ws : FalconH1WorkSpace} (shapes : Fh1Shapes (s.layers l) s.cfg ws w)
    {n : Nat} (known : .width n w ∈ K) : Keeps s.cfg bytes K (falconH1Attention s ws n l) fun i => [.width i w] := by
  refine .given fun tq q => .given fun tk k => .given fun tv v => .given fun tO o => ?_
  refine (project_keeps shapes.query q known).bind fun q => ?_
  refine (project_keeps shapes.key k (by simp [known])).bind fun k => ?_
  refine (project_keeps shapes.value v (by simp [known])).bind fun v => ?_
  refine (addBias_keeps (w:=qDim s.cfg) _ (by simp)).bind fun q => ?_
  refine (addBias_keeps (w:=kvDim s.cfg) _ (by simp)).bind fun k => ?_
  refine (addBias_keeps (w:=kvDim s.cfg) _ (by simp)).bind fun v => ?_
  refine (graphRope_keeps (w:=qDim s.cfg) _ _ _ _ (by simp)).bind fun q => ?_
  refine (graphRope_keeps (w:=kvDim s.cfg) _ _ _ _ (by simp)).bind fun k => ?_
  refine (graphAttn_keeps _ _ shapes.heads (by simp) (by simp) (by simp)).bind fun attn => ?_
  exact project_keeps shapes.out o (by simp)

theorem falconH1Mixer_keeps {ws : FalconH1WorkSpace} (words : Fh1Words ws)
    (fits : MambaFits ws.ssmDInner ws.ssmNGroup ws.ssmDState ws.ssmNHead) (shapes : Fh1Shapes (s.layers l) s.cfg ws w)
    (rooms : ws.convState l ≠ 0 → ws.ssmState l ≠ 0 → Fh1Rooms bytes ws l) {n : Nat} (known : .width n w ∈ K) :
    Keeps s.cfg bytes K (falconH1Mixer s ws n l) fun i => [.width i w] := by
  refine .given fun tIn inn => .given fun tConv _ => .given fun tA _ => .given fun tD _ => .given fun tDt _ => .given fun tSo so => ?_
  refine (project_keeps shapes.proj inn known).bind fun proj => ?_
  refine .state fun lives convSt => .state fun lives' ssmSt => ?_
  have rooms := rooms lives lives'
  refine (graphMamba2Conv_keeps tConv _ _ ⟨words.kernel,words.dInner,words.nGroup,words.dState,words.nHead⟩ fits (by simp)
    (by simp : Known.state convSt (bytes (ws.convState l)) ∈ _) rooms.conv).bind fun cv => ?_
  refine (graphMamba2Scan_keeps tA tD tDt _ _ ⟨words.nHead,words.headDim,words.dState,words.nGroup,words.dInner⟩ fits words.split
    (by simp) (by simp) (by simp : Known.state ssmSt (bytes (ws.ssmState l)) ∈ _) rooms.ssm).bind fun scan => ?_
  exact project_keeps shapes.mixed so (by simp)

theorem falconH1Layer_keeps {ws : FalconH1WorkSpace} (words : Fh1Words ws)
    (fits : MambaFits ws.ssmDInner ws.ssmNGroup ws.ssmDState ws.ssmNHead) (shapes : Fh1Shapes (s.layers l) s.cfg ws w)
    (rooms : ws.convState l ≠ 0 → ws.ssmState l ≠ 0 → Fh1Rooms bytes ws l) (cur : Nat) (K : List Known) (known : .width cur w ∈ K) :
    Keeps s.cfg bytes K (falconH1Layer s ws cur l) fun i => [.width i w] := by
  refine (graphSetLayer_keeps l).bind fun _ => ?_
  refine (graphRmsNorm_keeps (w:=w) _ (by simp [known]) shapes.attnNorm).bind fun n => ?_
  refine (falconH1Attention_keeps shapes (by simp)).bind fun attn => ?_
  refine (falconH1Mixer_keeps words fits shapes rooms (by simp)).bind fun ssm => ?_
  refine (graphBinary_keeps (w:=w) .add (by simp [known]) (by simp)).bind fun cur => ?_
  refine (graphBinary_keeps (w:=w) .add (by simp) (by simp)).bind fun cur => ?_
  refine (graphRmsNorm_keeps (w:=w) _ (by simp) shapes.ffnNorm).bind fun hn => ?_
  have ffn : ∀ K, .width hn w ∈ K → Keeps s.cfg bytes K (falconH1Ffn s hn l) fun i => [.width i w] := by
    refine fun K known => .given fun tg g => .given fun tu u => .given fun td d => ?_
    obtain ⟨f,gateShape,upShape,downShape⟩ := shapes.ffn tg g
    refine (project_keeps gateShape g known).bind fun gate => ?_
    refine (graphSilu_keeps (w:=f) (by simp)).bind fun gate => ?_
    refine (project_keeps upShape u (by simp [known])).bind fun up => ?_
    refine (graphBinary_keeps (w:=f) .mul (by simp) (by simp)).bind fun mul => ?_
    exact project_keeps downShape d (by simp)
  refine Keeps.bind (ffn _ (by simp)) fun down => ?_
  refine (graphBinary_keeps (w:=w) .add (by simp) (by simp)).bind fun cur => ?_
  exact graphLayerBoundary_keeps s l (by simp)

theorem cappedHead_keeps {src : Nat} (shape : HeadShape s w) (cap : Nat) (known : .width src w ∈ K) :
    Keeps s.cfg bytes K (do
      let cur ← lmHead s src
      if floatPositive cap then graphSoftcap cur cap else pure cur) fun _ => [] := by
  unfold lmHead
  rw [bind_assoc]
  refine .given fun t there => (graphMulMat_keeps t _ known (shape t there)).bind fun cur => ?_
  split
  · exact (graphSoftcap_keeps (w:=gives t (embdFlag s.cfg t)) cap (by simp [embdFlag])).less fun _ _ listed => by cases listed
  · exact .pure cur fun f listed => by cases listed

theorem builder_keeps {layer : Nat → Nat → Build Nat} {tail : Nat → Build Nat} {final : Option TensorInfo}
    (each : ∀ l < s.cfg.nLayer, ∀ cur K, .width cur w ∈ K → Keeps s.cfg bytes K (layer cur l) fun i => [.width i w])
    (norm : NormOf final w) (head : ∀ fn K, .width fn w ∈ K → Keeps s.cfg bytes K (tail fn) fun _ => [])
    (cur : Nat) (known : .width cur w ∈ K) :
    Keeps s.cfg bytes K (do
      let cur ← overLayers layer (List.range s.cfg.nLayer) cur
      graphSetLayer s.cfg.nLayer
      let fn ← graphRmsNorm cur final
      tail fn) fun _ => [] := by
  refine (overLayers_keeps _ (fun l present => each l (List.mem_range.mp present)) cur K known).bind fun cur => ?_
  refine (graphSetLayer_keeps _).bind fun _ => ?_
  refine (graphRmsNorm_keeps (w:=w) _ (by simp) norm).bind fun fn => ?_
  exact head fn _ (by simp)

theorem Keeps.sound {c : ArchConfig} {b : Build α} (keeps : Keeps c bytes [] b fun _ => [])
    (built : (b graphNew).map Prod.snd = some g) : Sound c bytes g := by
  obtain ⟨⟨a,g'⟩,run,rfl⟩ := Option.map_eq_some_iff.mp built
  exact (keeps graphNew a g' (fun i node at' => by cases at') (fun f listed => by cases listed) run).1

end layers

end TinyLlama.Graph
