import TinyLlama.Graph.Builders
import TinyLlama.Graph.Shapes

-- Each model as a term over the interpretation f of the ops.
namespace TinyLlama.Graph
open Gguf Causal

section terms
variable {X : Type} (f : GraphOp → List (Option TensorInfo) → List Nat → List X → X)

def projected (t : Option TensorInfo) (flag : TensorInfo → Bool) (x : X) : X :=
  f (if (t.map flag).getD false then .matmulT else .matmul) [t] [] [x]

def normed (t : Option TensorInfo) (x : X) : X := f .rmsNorm [t] [] [x]

def biased (bias : Option TensorInfo) (x : X) : X :=
  match bias with
  | none => x
  | some b => f .bias [some b] [] [x]

def headNormed (t : Option TensorInfo) (nHeads headDim inStride : Nat) (x : X) : X :=
  f .rmsNormHeads [t] [nHeads,headDim,inStride,headDim] [x]

def rotated (op : GraphOp) (theta nHeads headDim ropeDim : Nat) (x : X) : X := f op [] [theta,nHeads,headDim,ropeDim] [x]

def added (x y : X) : X := f .add [] [] [x,y]

-- down(activation(gate x) * up x)
def feedForward (activation : GraphOp) (gate up down : X → X) (x : X) : X := down (f .mul [] [] [f activation [] [] [gate x],up x])

-- Attention among the rows of one projection's queries, keys and values.
def attended (win : Nat) (query key value : X → X) (x : X) : X := f .attn [] [0,win] [query x,key x,value x]

def tokenRows (s : Session) : X := f .embed [s.tensors .tokenEmbd] [] [f .input [] [] []]

def logitsOf (s : Session) (x : X) : X := projected f ((s.tensors .output).or (s.tensors .tokenEmbd)) (embdFlag s.cfg) x

def denseFeed (activation : GraphOp) (lw : TensorRole → Option TensorInfo) (c : ArchConfig) (fh : Nat) : X → X :=
  feedForward f activation (projected f (lw .ffnGate) (embdFlag c)) (projected f (lw .ffnUp) (embdFlag c))
    (projected f (lw .ffnDown) fun t => readsTransposed t fh)

def denseBlock (s : Session) (fh : Nat) (query key : X → X) (x : X) (l : Nat) : X :=
  let lw := s.layers l
  let c := s.cfg
  let mixed := attended f 0 (fun n => query (biased f (lw .attnQBias) (projected f (lw .attnQ) (qFlag c) n)))
    (fun n => key (biased f (lw .attnKBias) (projected f (lw .attnK) (embdFlag c) n)))
    (fun n => biased f (lw .attnVBias) (projected f (lw .attnV) (embdFlag c) n)) (normed f (lw .attnNorm) x)
  let h := added f x (projected f (lw .attnOut) (outFlag c) mixed)
  added f h (denseFeed f .silu lw c fh (normed f (lw .postAttnNorm) h))

def llamaBlock (s : Session) (ws : LlamaWorkSpace) : X → Nat → X :=
  let c := s.cfg
  let ropeDim := if c.ropeDim ≠ 0 then c.ropeDim else c.headDim
  let kvHeadDim := if c.kvHeadDim ≠ 0 then c.kvHeadDim else c.headDim
  denseBlock f s ws.ffnHidden (rotated f .ropeNorm ws.ropeTheta c.nHead c.headDim ropeDim)
    (rotated f .ropeNorm ws.ropeTheta c.nKvHead kvHeadDim (if ropeDim ≤ kvHeadDim then ropeDim else kvHeadDim))

def qwen25Block (s : Session) (ws : Qwen25Workspace) : X → Nat → X :=
  let c := s.cfg
  denseBlock f s ws.ffnHidden (rotated f .ropeNeox ws.ropeTheta c.nHead c.headDim c.headDim)
    (rotated f .ropeNeox ws.ropeTheta c.nKvHead c.kvHeadDim c.kvHeadDim)

def gemma3Block (s : Session) (ws : Gemma3WorkSpace) (x : X) (l : Nat) : X :=
  let lw := s.layers l
  let c := s.cfg
  let isSwa : Bool := ws.nSwa > 0 ∧ l%6 ≠ 5
  let theta := if isSwa then ws.ropeThetaSwa else ws.ropeTheta
  let query := fun n => f .scale [] [ws.attnScale] [rotated f .ropeNeox theta c.nHead c.headDim c.headDim
    (headNormed f (lw .attnQNorm) c.nHead c.headDim c.headDim (projected f (lw .attnQ) (qFlag c) n))]
  let key := fun n => rotated f .ropeNeox theta c.nKvHead c.kvHeadDim c.kvHeadDim
    (headNormed f (lw .attnKNorm) c.nKvHead c.kvHeadDim c.kvHeadDim (projected f (lw .attnK) (embdFlag c) n))
  let mixed := attended f (if isSwa then ws.nSwa else 0) query key (projected f (lw .attnV) (embdFlag c)) (normed f (lw .attnNorm) x)
  let h := added f x (normed f (lw .postAttnNorm) (projected f (lw .attnOut) (outFlag c) mixed))
  added f h (normed f (lw .ffnPostNorm) (denseFeed f .gelu lw c ws.ffnHidden (normed f (lw .ffnNorm) h)))

-- x * silu(gate n), where there is a gate.
def gatedBy (gate : Option TensorInfo) (width : Nat) (c : ArchConfig) (x n : X) : X :=
  match gate with
  | none => x
  | some ag => f .mul [] [] [x,f .silu [] [] [projected f (some ag) (fun t => ssmMmTrans t width c.nEmbd) n]]

-- The gated delta rule over a convolution of the fused projection.
def deltaMixer (s : Session) (ws : Qwen35Workspace) (conv : TensorInfo) (l : Nat) (n : X) : X :=
  let lw := s.layers l
  let c := s.cfg
  let rates := fun role => projected f (lw role) (fun t => ssmMmTrans t ws.ssmNV c.nEmbd) n
  let fused := f .silu [] [] [f .ssmConv [some conv] [0,ws.convKernel] [projected f (lw .attnQkv) (embdFlag c) n]]
  let d := f .ssmDelta [lw .ssmA,lw .ssmDtBias,lw .ssmNorm] [0,ws.ssmNV,ws.ssmNK,ws.ssmHeadV] [fused,rates .ssmAlpha,rates .ssmBeta]
  projected f (lw .ssmOut) (fun t => ssmMmTrans t c.nEmbd ws.ssmValDim) (gatedBy f (lw .attnGate) ws.ssmValDim c d n)

-- The query half of a gated projection, normed; without a norm it is the whole of it.
def queryRows (norm : Option TensorInfo) (c : ArchConfig) (x : X) : X :=
  match norm with
  | some qn => headNormed f (some qn) c.nHead c.headDim (u32 (2*c.headDim)) x
  | none => x

def gateHalf (norm : Option TensorInfo) (c : ArchConfig) (attn x : X) : X :=
  match norm with
  | some _ => f .sigmoidGate [] [c.nHead,c.headDim] [attn,x]
  | none => attn

def keyRows (norm : Option TensorInfo) (c : ArchConfig) (x : X) : X :=
  match norm with
  | none => x
  | some t => headNormed f (some t) c.nKvHead c.kvHeadDim c.kvHeadDim x

def gatedMixer (s : Session) (ws : Qwen35Workspace) (l : Nat) (n : X) : X :=
  let lw := s.layers l
  let c := s.cfg
  let fq := biased f (lw .attnQBias) (projected f (lw .attnQ) (fun t => qProj t c ≠ c.nEmbd && readsTransposed t c.nEmbd) n)
  let query := fun _ => rotated f .ropeNeox ws.ropeTheta c.nHead c.headDim c.ropeDim (queryRows f (lw .attnQNorm) c fq)
  let key := fun n => rotated f .ropeNeox ws.ropeTheta c.nKvHead c.kvHeadDim c.ropeDim
    (keyRows f (lw .attnKNorm) c (biased f (lw .attnKBias) (projected f (lw .attnK) (embdFlag c) n)))
  let value := fun n => biased f (lw .attnVBias) (projected f (lw .attnV) (embdFlag c) n)
  projected f (lw .attnOut) (outFlag c)
    (gateHalf f (lw .attnQNorm) c (gatedBy f (lw .attnGate) (qDim c) c (attended f 0 query key value n) n) fq)

-- A layer with a convolution has the delta rule, one without has attention.
def qwen35Block (s : Session) (ws : Qwen35Workspace) (x : X) (l : Nat) : X :=
  let lw := s.layers l
  let n := normed f (lw .attnNorm) x
  let h := added f x (match lw .ssmConv1d with
    | some conv => deltaMixer f s ws conv l n
    | none => gatedMixer f s ws l n)
  added f h (denseFeed f .silu lw s.cfg ws.ffnHidden (normed f (lw .postAttnNorm) h))

def fh1Projected (t : Option TensorInfo) (out input : Nat) (x : X) : X := projected f t (fun t => fh1MmTrans t out input) x

def falconH1Attended (s : Session) (ws : FalconH1WorkSpace) (l : Nat) (n : X) : X :=
  let lw := s.layers l
  let c := s.cfg
  let ropeDim := if c.ropeDim ≠ 0 then c.ropeDim else c.headDim
  let query := fun n => rotated f .ropeNeox ws.ropeTheta c.nHead c.headDim ropeDim
    (biased f (lw .attnQBias) (fh1Projected f (lw .attnQ) (qDim c) c.nEmbd n))
  let key := fun n => rotated f .ropeNeox ws.ropeTheta c.nKvHead c.kvHeadDim ropeDim
    (biased f (lw .attnKBias) (fh1Projected f (lw .attnK) (kvDim c) c.nEmbd n))
  let value := fun n => biased f (lw .attnVBias) (fh1Projected f (lw .attnV) (kvDim c) c.nEmbd n)
  fh1Projected f (lw .attnOut) c.nEmbd (qDim c) (attended f 0 query key value n)

def falconH1Scanned (s : Session) (ws : FalconH1WorkSpace) (l : Nat) (n : X) : X :=
  let lw := s.layers l
  let c := s.cfg
  let proj := fh1Projected f (lw .ssmIn) (projDim ws) c.nEmbd n
  let conv := f .mamba2Conv [lw .ssmConv1d,lw .ssmConv1dBias] [0,ws.ssmConvKernel,ws.ssmDInner,ws.ssmNGroup,ws.ssmDState,ws.ssmNHead] [proj]
  let scan := f .mamba2Scan [lw .ssmA,lw .ssmD,lw .ssmDtBias,lw .ssmNorm]
    [0,ws.ssmNHead,ws.ssmHeadDim,ws.ssmDState,ws.ssmNGroup,ws.ssmDInner] [conv,proj]
  fh1Projected f (lw .ssmOut) c.nEmbd ws.ssmDInner scan

def falconH1Feed (s : Session) (l : Nat) : X → X :=
  let lw := s.layers l
  let c := s.cfg
  let fh := ((lw .ffnGate).map fun tg => u32 (tg.dim.getD 0 0)).getD 0
  feedForward f .silu (fh1Projected f (lw .ffnGate) fh c.nEmbd) (fh1Projected f (lw .ffnUp) fh c.nEmbd)
    (fh1Projected f (lw .ffnDown) c.nEmbd fh)

-- Attention and the scan side by side, on one normed input.
def falconH1Block (s : Session) (ws : FalconH1WorkSpace) (x : X) (l : Nat) : X :=
  let lw := s.layers l
  let n := normed f (lw .attnNorm) x
  let h := added f (added f x (falconH1Attended f s ws l n)) (falconH1Scanned f s ws l n)
  added f h (falconH1Feed f s l (normed f ((lw .ffnNorm).or (lw .postAttnNorm)) h))

def stacked (s : Session) (block : X → Nat → X) (final : Option TensorInfo) (x : X) : X :=
  logitsOf f s (normed f final ((List.range s.cfg.nLayer).foldl block x))

end terms

variable {β K : Type}

-- Moving a row to another backend leaves it as it is.
def Meaning.Copies (M : Meaning β K) : Prop := ∀ weights params q row,M.plain .d2h weights params q [some row] = row

def Meaning.op (M : Meaning β K) (c : ArchConfig) (tok : Nat → Nat) (op : GraphOp) (weights : List (Option TensorInfo)) (params : List Nat)
    (xs : List (Stream (List β))) : Stream (List β) := M.stream c tok op weights (params.map u32) (xs.map some)

section parts
variable {M : Meaning β K} {c : ArchConfig} {tok : Nat → Nat} {src : Nat} {x : Stream (List β)}
  {f : GraphOp → List (Option TensorInfo) → List Nat → List (Stream (List β)) → Stream (List β)} (meant : f = M.op c tok)
include meant

theorem one_adds {b : Build Nat} {op : GraphOp} {weights : List (Option TensorInfo)} {params : List Nat} (adds : Adds b op [src] weights params)
    (computes : op ≠ .input) : Acts M c tok b [(src,x)] [] (f op weights params [x]) := by
  subst meant
  exact Adds.acts adds computes

theorem two_adds {b : Build Nat} {op : GraphOp} {weights : List (Option TensorInfo)} {params : List Nat} {src' : Nat} {x' : Stream (List β)}
    (adds : Adds b op [src,src'] weights params) (computes : op ≠ .input) :
    Acts M c tok b [(src,x),(src',x')] [] (f op weights params [x,x']) := by
  subst meant
  exact Adds.acts adds computes

theorem three_adds {b : Build Nat} {op : GraphOp} {weights : List (Option TensorInfo)} {params : List Nat} {src' src'' : Nat}
    {x' x'' : Stream (List β)} (adds : Adds b op [src,src',src''] weights params) (computes : op ≠ .input) :
    Acts M c tok b [(src,x),(src',x'),(src'',x'')] [] (f op weights params [x,x',x'']) := by
  subst meant
  exact Adds.acts adds computes

theorem op_handle {op : GraphOp} (cached : op = .attn ∨ op.recurrent = true) (weights : List (Option TensorInfo)) (k : Nat) (params : List Nat)
    (xs : List (Stream (List β))) : f op weights (k :: params) xs = f op weights (0 :: params) xs := by
  subst meant
  funext q
  unfold Meaning.op Meaning.stream
  cases cached with
  | inl attn =>
    subst attn
    rfl
  | inr recurrent =>
    have input : op ≠ .input := by
      rintro rfl
      cases recurrent
    have attn : op ≠ .attn := by
      rintro rfl
      cases recurrent
    rw [if_neg input,if_neg input,if_neg attn,if_neg attn,if_pos recurrent,if_pos recurrent]
    rfl

omit meant in
theorem Acts.given {o : Option TensorInfo} {k : TensorInfo → Build Nat} {reads also : List (Spoken β)} {y : Stream (List β)}
    (rest : ∀ t,o = some t → Acts M c tok (k t) reads also y) : Acts M c tok (Graph.given o >>= k) reads also y := by
  intro g r g' there run
  obtain ⟨⟨t,g₁⟩,began,later⟩ := Option.bind_eq_some_iff.mp run
  obtain ⟨t',found,same⟩ := Option.map_eq_some_iff.mp began
  cases same
  exact rest t found g r g' there later

theorem graphRmsNorm_acts (weight : Option TensorInfo) : Acts M c tok (graphRmsNorm src weight) [(src,x)] [] (normed f weight x) := by
  refine Acts.given fun t there => ?_
  rw [there]
  exact one_adds meant (graphRmsNorm_adds t) (by decide)

theorem graphRmsNormHeads_acts (weight : Option TensorInfo) (nHeads headDim inStride : Nat) :
    Acts M c tok (graphRmsNormHeads src weight nHeads headDim inStride headDim) [(src,x)] []
      (headNormed f weight nHeads headDim inStride x) := by
  cases weight with
  | none => exact fun g a g' _ run => by cases run
  | some t => exact one_adds meant (graphRmsNormHeads_adds t nHeads headDim inStride headDim) (by decide)

theorem graphMulMat_acts {o : Option TensorInfo} {t : TensorInfo} (there : o = some t) (flag : TensorInfo → Bool) :
    Acts M c tok (graphMulMat src t (flag t)) [(src,x)] [] (projected f o flag x) := by
  subst there
  exact one_adds meant (graphMulMat_adds t (flag t)) (by split <;> decide)

theorem addBias_acts (bias : Option TensorInfo) : Acts M c tok (addBias src bias) [(src,x)] [] (biased f bias x) := by
  cases bias with
  | none => exact Acts.stay (k:=(src,x))
  | some b => exact one_adds meant (graphBias_adds b) (by decide)

theorem ropeNode_acts {op : GraphOp} (computes : op ≠ .input) (theta nHeads headDim ropeDim : Nat) :
    Acts M c tok (ropeNode op src theta nHeads headDim ropeDim) [(src,x)] [] (rotated f op theta nHeads headDim ropeDim x) :=
  one_adds meant (ropeNode_adds op theta nHeads headDim ropeDim) computes

theorem graphAttn_acts (q k v layer window : Nat) {x y z : Stream (List β)} :
    Acts M c tok (graphAttn q k v layer window) [(q,x),(k,y),(v,z)] [] (f .attn [] [0,window] [x,y,z]) := by
  rw [← op_handle meant (.inl rfl) [] layer [window]]
  exact three_adds meant (graphAttn_adds q k v layer window) (by decide)

theorem graphBinary_acts (op : GraphOp) (computes : op ≠ .input) {a b : Nat} {x y : Stream (List β)} :
    Acts M c tok (graphBinary op a b) [(a,x),(b,y)] [] (f op [] [] [x,y]) := two_adds meant (graphBinary_adds op a b) computes

omit meant in
theorem graphLayerBoundary_acts (copies : M.Copies) (s : Session) (layer : Nat) :
    Acts M c tok (graphLayerBoundary src s layer) [(src,x)] [] x := by
  cases graphLayerBoundary_adds s layer with
  | inl stays =>
    rw [stays]
    exact Acts.stay (k:=(src,x))
  | inr moves =>
    have same : M.op c tok .d2h [] [0] [x] = x := funext fun q => copies _ _ q (x q)
    have acts : Acts M c tok _ [(src,x)] [] (M.op c tok .d2h [] [0] [x]) := one_adds rfl moves (by decide)
    rwa [same] at acts

theorem swiglu_acts (lw : TensorRole → Option TensorInfo) (cfg : ArchConfig) (fh : Nat) {hn : Nat} :
    Acts M c tok (swiglu lw cfg fh hn) [(hn,x)] [] (denseFeed f .silu lw cfg fh x) := by
  refine acts_of 1 1 rfl rfl fun start => ?_
  refine Builds.given fun tg g => Builds.given fun tu u => Builds.given fun td d => ?_
  refine Builds.step (graphMulMat_acts meant g (embdFlag cfg)) [0] [] rfl rfl fun gate => ?_
  refine Builds.step (one_adds meant graphSilu_adds (by decide)) [1] [] rfl rfl fun gate => ?_
  refine Builds.step (graphMulMat_acts meant u (embdFlag cfg)) [0] [] rfl rfl fun up => ?_
  refine Builds.step (graphBinary_acts meant .mul (by decide)) [2,3] [] rfl rfl fun mul => ?_
  exact Builds.last (graphMulMat_acts meant d fun t => readsTransposed t fh) [4] [] rfl rfl (by decide +kernel)

theorem graphSsmConv_acts (weight : TensorInfo) (state kernel : Nat) :
    Acts M c tok (graphSsmConv src weight state kernel) [(src,x)] [] (f .ssmConv [some weight] [0,kernel] [x]) := by
  rw [← op_handle meant (.inr rfl) [some weight] state [kernel]]
  exact one_adds meant (graphSsmConv_adds weight state kernel) (by decide)

theorem graphSsmDelta_acts (args : GraphSsmDelta) {a dt : Option TensorInfo} (rates : a = some args.ssmA) (bias : dt = some args.dtBias)
    {y z : Stream (List β)} : Acts M c tok (graphSsmDelta args) [(args.fused,x),(args.alpha,y),(args.beta,z)] []
      (f .ssmDelta [a,dt,args.norm] [0,args.nVHeads,args.nKHeads,args.headDim] [x,y,z]) := by
  subst rates bias
  rw [← op_handle meant (.inr rfl) _ args.state]
  exact three_adds meant (graphSsmDelta_adds args) (by decide)

theorem graphMamba2Conv_acts {weight : TensorInfo} {o : Option TensorInfo} (there : o = some weight) (bias : Option TensorInfo)
    (args : Mamba2Conv) : Acts M c tok (graphMamba2Conv src weight bias args) [(src,x)] []
      (f .mamba2Conv [o,bias] [0,args.kernel,args.dInner,args.nGroup,args.dState,args.nHead] [x]) := by
  subst there
  rw [← op_handle meant (.inr rfl) _ args.state]
  exact one_adds meant (graphMamba2Conv_adds weight bias args) (by decide)

theorem graphMamba2Scan_acts {conv proj : Nat} {ssmA ssmD dtBias : TensorInfo} {a d dt : Option TensorInfo} (rates : a = some ssmA)
    (skips : d = some ssmD) (bias : dt = some dtBias) (norm : Option TensorInfo) (args : Mamba2Scan) {y : Stream (List β)} :
    Acts M c tok (graphMamba2Scan conv proj ssmA ssmD dtBias norm args) [(conv,x),(proj,y)] []
      (f .mamba2Scan [a,d,dt,norm] [0,args.nHead,args.headDim,args.dState,args.nGroup,args.dInner] [x,y]) := by
  subst rates skips bias
  rw [← op_handle meant (.inr rfl) _ args.state]
  exact two_adds meant (graphMamba2Scan_adds ssmA ssmD dtBias norm args) (by decide)

theorem outputGate_acts (gate : Option TensorInfo) (width : Nat) (cfg : ArchConfig) {n : Nat} {y : Stream (List β)} :
    Acts M c tok (outputGate gate src n width cfg) [(src,x)] [(n,y)] (gatedBy f gate width cfg x y) := by
  cases gate with
  | none => exact (Acts.stay (k:=(src,x))).weaken (fun _ listed => listed) fun k listed => List.mem_append_left _ (by simpa using listed)
  | some ag =>
    refine acts_of 1 2 rfl rfl fun start => ?_
    refine Builds.step (graphMulMat_acts meant rfl fun t => ssmMmTrans t width cfg.nEmbd) [1] [] rfl rfl fun a => ?_
    refine Builds.step (one_adds meant graphSilu_adds (by decide)) [2] [] rfl rfl fun a => ?_
    exact Builds.last (graphBinary_acts meant .mul (by decide)) [0,3] [] rfl rfl (by decide +kernel)

theorem queryHalf_acts (norm : Option TensorInfo) (proj : Nat) (cfg : ArchConfig) :
    Acts M c tok (queryHalf norm src proj cfg) [(src,x)] [] (queryRows f norm cfg x) := by
  refine acts_of 1 1 rfl rfl fun start => ?_
  cases norm with
  | none => exact Builds.idle (require_idle _) fun _ => Builds.last (Acts.stay (k:=(src,x))) [0] [] rfl rfl (by decide +kernel)
  | some qn => exact Builds.idle (require_idle _) fun _ => Builds.last (graphRmsNormHeads_acts meant (some qn) _ _ _) [0] [] rfl rfl (by decide +kernel)

theorem optionalNorm_acts (norm : Option TensorInfo) (cfg : ArchConfig) :
    Acts M c tok (optionalNorm src norm cfg.nKvHead cfg.kvHeadDim) [(src,x)] [] (keyRows f norm cfg x) := by
  cases norm with
  | none => exact Acts.stay (k:=(src,x))
  | some t => exact graphRmsNormHeads_acts meant (some t) _ _ _

theorem sigmoidGated_acts (norm : Option TensorInfo) (cfg : ArchConfig) {fq : Nat} {y : Stream (List β)} :
    Acts M c tok (sigmoidGated norm src fq cfg) [(src,x)] [(fq,y)] (gateHalf f norm cfg x y) := by
  cases norm with
  | none => exact (Acts.stay (k:=(src,x))).weaken (fun _ listed => listed) fun k listed => List.mem_append_left _ (by simpa using listed)
  | some t =>
    have acts : Acts M c tok (graphSigmoidGate src fq cfg.nHead cfg.headDim) [(src,x),(fq,y)] [] _ :=
      two_adds meant (graphSigmoidGate_adds src fq cfg.nHead cfg.headDim) (by decide)
    exact acts.weaken (fun k listed => by simp_all) fun k listed => by simpa using listed

theorem lmHead_acts (s : Session) : Acts M c tok (lmHead s src) [(src,x)] [] (logitsOf f s x) :=
  Acts.given fun _ there => graphMulMat_acts meant there (embdFlag s.cfg)

omit meant in
theorem overLayers_acts {layer : Nat → Nat → Build Nat} {block : Stream (List β) → Nat → Stream (List β)} (ls : List Nat)
    (each : ∀ l ∈ ls,∀ cur x,Acts M c tok (layer cur l) [(cur,x)] [] (block x l)) :
    ∀ cur x,Acts M c tok (overLayers layer ls cur) [(cur,x)] [] (ls.foldl block x) := by
  induction ls with
  | nil => exact fun cur x => Acts.stay (k:=(cur,x))
  | cons l rest ih =>
    intro cur x
    have later := ih fun k present => each k (List.mem_cons_of_mem _ present)
    refine acts_of 1 1 rfl rfl fun start => ?_
    refine Builds.step (each l List.mem_cons_self cur x) [0] [] rfl rfl fun next => ?_
    exact Builds.last (later next (block x l)) [1] [] rfl rfl (by decide +kernel)

end parts

section layers
variable {M : Meaning β K} {tok : Nat → Nat} {s : Session} {cur l : Nat} {x : Stream (List β)}
  {f : GraphOp → List (Option TensorInfo) → List Nat → List (Stream (List β)) → Stream (List β)} (meant : f = M.op s.cfg tok)
include meant

theorem llamaLayer_acts (copies : M.Copies) (ws : LlamaWorkSpace) :
    Acts M s.cfg tok (llamaLayer s ws cur l) [(cur,x)] [] (llamaBlock f s ws x l) := by
  refine acts_of 1 1 rfl rfl fun start => ?_
  refine Builds.idle (graphSetLayer_idle l) fun _ => ?_
  refine Builds.given fun tq q => Builds.given fun tk k => Builds.given fun tv v => Builds.given fun tO o => ?_
  refine Builds.step (graphRmsNorm_acts meant _) [0] [] rfl rfl fun n => ?_
  refine Builds.step (graphMulMat_acts meant q (qFlag s.cfg)) [1] [] rfl rfl fun q => ?_
  refine Builds.step (graphMulMat_acts meant k (embdFlag s.cfg)) [1] [] rfl rfl fun k => ?_
  refine Builds.step (graphMulMat_acts meant v (embdFlag s.cfg)) [1] [] rfl rfl fun v => ?_
  refine Builds.step (addBias_acts meant _) [2] [] rfl rfl fun q => ?_
  refine Builds.step (addBias_acts meant _) [3] [] rfl rfl fun k => ?_
  refine Builds.step (addBias_acts meant _) [4] [] rfl rfl fun v => ?_
  refine Builds.step (ropeNode_acts meant (by decide) _ _ _ _) [5] [] rfl rfl fun q => ?_
  refine Builds.step (ropeNode_acts meant (by decide) _ _ _ _) [6] [] rfl rfl fun k => ?_
  refine Builds.step (graphAttn_acts meant _ _ _ l 0) [8,9,7] [] rfl rfl fun attn => ?_
  refine Builds.step (graphMulMat_acts meant o (outFlag s.cfg)) [10] [] rfl rfl fun o => ?_
  refine Builds.step (graphBinary_acts meant .add (by decide)) [0,11] [] rfl rfl fun h => ?_
  refine Builds.step (graphRmsNorm_acts meant _) [12] [] rfl rfl fun hn => ?_
  refine Builds.step (swiglu_acts meant _ _ _) [13] [] rfl rfl fun down => ?_
  refine Builds.step (graphBinary_acts meant .add (by decide)) [12,14] [] rfl rfl fun cur => ?_
  exact Builds.last (graphLayerBoundary_acts copies s l) [15] [] rfl rfl (by decide +kernel)

theorem qwen25Layer_acts (copies : M.Copies) (ws : Qwen25Workspace) :
    Acts M s.cfg tok (qwen25Layer s ws cur l) [(cur,x)] [] (qwen25Block f s ws x l) := by
  refine acts_of 1 1 rfl rfl fun start => ?_
  refine Builds.idle (graphSetLayer_idle l) fun _ => ?_
  refine Builds.given fun tq q => Builds.given fun tk k => Builds.given fun tv v => Builds.given fun tO o => ?_
  refine Builds.step (graphRmsNorm_acts meant _) [0] [] rfl rfl fun n => ?_
  refine Builds.step (graphMulMat_acts meant q (qFlag s.cfg)) [1] [] rfl rfl fun q => ?_
  refine Builds.step (graphMulMat_acts meant k (embdFlag s.cfg)) [1] [] rfl rfl fun k => ?_
  refine Builds.step (graphMulMat_acts meant v (embdFlag s.cfg)) [1] [] rfl rfl fun v => ?_
  refine Builds.step (addBias_acts meant _) [2] [] rfl rfl fun q => ?_
  refine Builds.step (addBias_acts meant _) [3] [] rfl rfl fun k => ?_
  refine Builds.step (addBias_acts meant _) [4] [] rfl rfl fun v => ?_
  refine Builds.step (ropeNode_acts meant (by decide) _ _ _ _) [5] [] rfl rfl fun q => ?_
  refine Builds.step (ropeNode_acts meant (by decide) _ _ _ _) [6] [] rfl rfl fun k => ?_
  refine Builds.step (graphAttn_acts meant _ _ _ l 0) [8,9,7] [] rfl rfl fun attn => ?_
  refine Builds.step (graphMulMat_acts meant o (outFlag s.cfg)) [10] [] rfl rfl fun o => ?_
  refine Builds.step (graphBinary_acts meant .add (by decide)) [0,11] [] rfl rfl fun h => ?_
  refine Builds.step (graphRmsNorm_acts meant _) [12] [] rfl rfl fun hn => ?_
  refine Builds.step (swiglu_acts meant _ _ _) [13] [] rfl rfl fun down => ?_
  refine Builds.step (graphBinary_acts meant .add (by decide)) [12,14] [] rfl rfl fun cur => ?_
  exact Builds.last (graphLayerBoundary_acts copies s l) [15] [] rfl rfl (by decide +kernel)

theorem gemma3Layer_acts (copies : M.Copies) (ws : Gemma3WorkSpace) :
    Acts M s.cfg tok (gemma3Layer s ws cur l) [(cur,x)] [] (gemma3Block f s ws x l) := by
  refine acts_of 1 1 rfl rfl fun start => ?_
  refine Builds.idle (graphSetLayer_idle l) fun _ => ?_
  refine Builds.given fun tq q => Builds.given fun tk k => Builds.given fun tv v => Builds.given fun tO o => ?_
  refine Builds.given fun tg g => Builds.given fun tu u => Builds.given fun td d => ?_
  refine Builds.step (graphRmsNorm_acts meant _) [0] [] rfl rfl fun n => ?_
  refine Builds.step (graphMulMat_acts meant q (qFlag s.cfg)) [1] [] rfl rfl fun q => ?_
  refine Builds.step (graphMulMat_acts meant k (embdFlag s.cfg)) [1] [] rfl rfl fun k => ?_
  refine Builds.step (graphMulMat_acts meant v (embdFlag s.cfg)) [1] [] rfl rfl fun v => ?_
  refine Builds.step (graphRmsNormHeads_acts meant _ _ _ _) [2] [] rfl rfl fun q => ?_
  refine Builds.step (graphRmsNormHeads_acts meant _ _ _ _) [3] [] rfl rfl fun k => ?_
  refine Builds.step (ropeNode_acts meant (by decide) _ _ _ _) [5] [] rfl rfl fun q => ?_
  refine Builds.step (ropeNode_acts meant (by decide) _ _ _ _) [6] [] rfl rfl fun k => ?_
  refine Builds.step (one_adds meant (graphScale_adds _) (by decide)) [7] [] rfl rfl fun q => ?_
  refine Builds.step (graphAttn_acts meant _ _ _ l _) [9,8,4] [] rfl rfl fun attn => ?_
  refine Builds.step (graphMulMat_acts meant o (outFlag s.cfg)) [10] [] rfl rfl fun o => ?_
  refine Builds.step (graphRmsNorm_acts meant _) [11] [] rfl rfl fun o => ?_
  refine Builds.step (graphBinary_acts meant .add (by decide)) [0,12] [] rfl rfl fun h => ?_
  refine Builds.step (graphRmsNorm_acts meant _) [13] [] rfl rfl fun hn => ?_
  refine Builds.step (graphMulMat_acts meant g (embdFlag s.cfg)) [14] [] rfl rfl fun gate => ?_
  refine Builds.step (one_adds meant graphGelu_adds (by decide)) [15] [] rfl rfl fun gate => ?_
  refine Builds.step (graphMulMat_acts meant u (embdFlag s.cfg)) [14] [] rfl rfl fun up => ?_
  refine Builds.step (graphBinary_acts meant .mul (by decide)) [16,17] [] rfl rfl fun mul => ?_
  refine Builds.step (graphMulMat_acts meant d fun t => readsTransposed t ws.ffnHidden) [18] [] rfl rfl fun down => ?_
  refine Builds.step (graphRmsNorm_acts meant _) [19] [] rfl rfl fun down => ?_
  refine Builds.step (graphBinary_acts meant .add (by decide)) [13,20] [] rfl rfl fun cur => ?_
  exact Builds.last (graphLayerBoundary_acts copies s l) [21] [] rfl rfl (by decide +kernel)

theorem qwen35Ssm_acts (ws : Qwen35Workspace) (conv : TensorInfo) {n : Nat} {y : Stream (List β)} :
    Acts M s.cfg tok (qwen35Ssm s ws conv cur n l) [(cur,x),(n,y)] [] (added f x (deltaMixer f s ws conv l y)) := by
  refine acts_of 2 2 rfl rfl fun start => ?_
  refine Builds.given fun qkv fused => Builds.given fun ta alpha => Builds.given fun tb beta => ?_
  refine Builds.given fun tA rates => Builds.given fun dt bias => Builds.given fun so out => ?_
  refine Builds.idle (graphState_idle _) fun convSt => Builds.idle (graphState_idle _) fun ssmSt => ?_
  refine Builds.step (graphMulMat_acts meant fused (embdFlag s.cfg)) [1] [] rfl rfl fun f => ?_
  refine Builds.step (graphSsmConv_acts meant conv convSt ws.convKernel) [2] [] rfl rfl fun f => ?_
  refine Builds.step (one_adds meant graphSilu_adds (by decide)) [3] [] rfl rfl fun f => ?_
  refine Builds.step (graphMulMat_acts meant alpha fun t => ssmMmTrans t ws.ssmNV s.cfg.nEmbd) [1] [] rfl rfl fun a => ?_
  refine Builds.step (graphMulMat_acts meant beta fun t => ssmMmTrans t ws.ssmNV s.cfg.nEmbd) [1] [] rfl rfl fun b => ?_
  refine Builds.step (graphSsmDelta_acts meant _ rates bias) [4,5,6] [] rfl rfl fun d => ?_
  refine Builds.step (outputGate_acts meant _ _ _) [7] [1] rfl rfl fun d => ?_
  refine Builds.step (graphMulMat_acts meant out fun t => ssmMmTrans t s.cfg.nEmbd ws.ssmValDim) [8] [] rfl rfl fun y => ?_
  exact Builds.last (graphBinary_acts meant .add (by decide)) [0,9] [] rfl rfl (by decide +kernel)

theorem qwen35Dense_acts (ws : Qwen35Workspace) {n : Nat} {y : Stream (List β)} :
    Acts M s.cfg tok (qwen35Dense s ws cur n l) [(cur,x),(n,y)] [] (added f x (gatedMixer f s ws l y)) := by
  refine acts_of 2 2 rfl rfl fun start => ?_
  refine Builds.given fun tq q => Builds.given fun tk k => Builds.given fun tv v => Builds.given fun tO o => ?_
  refine Builds.idle (require_idle _) fun _ => ?_
  refine Builds.step (graphMulMat_acts meant q fun t => qProj t s.cfg ≠ s.cfg.nEmbd && readsTransposed t s.cfg.nEmbd)
    [1] [] rfl rfl fun fq => ?_
  refine Builds.step (addBias_acts meant _) [2] [] rfl rfl fun fq => ?_
  refine Builds.step (queryHalf_acts meant _ _ _) [3] [] rfl rfl fun q => ?_
  refine Builds.step (graphMulMat_acts meant k (embdFlag s.cfg)) [1] [] rfl rfl fun k => ?_
  refine Builds.step (graphMulMat_acts meant v (embdFlag s.cfg)) [1] [] rfl rfl fun v => ?_
  refine Builds.step (addBias_acts meant _) [5] [] rfl rfl fun k => ?_
  refine Builds.step (addBias_acts meant _) [6] [] rfl rfl fun v => ?_
  refine Builds.step (optionalNorm_acts meant _ _) [7] [] rfl rfl fun k => ?_
  refine Builds.step (ropeNode_acts meant (by decide) _ _ _ _) [4] [] rfl rfl fun q => ?_
  refine Builds.step (ropeNode_acts meant (by decide) _ _ _ _) [9] [] rfl rfl fun k => ?_
  refine Builds.step (graphAttn_acts meant _ _ _ l 0) [10,11,8] [] rfl rfl fun attn => ?_
  refine Builds.step (outputGate_acts meant _ _ _) [12] [1] rfl rfl fun attn => ?_
  refine Builds.step (sigmoidGated_acts meant _ _) [13] [3] rfl rfl fun attn => ?_
  refine Builds.step (graphMulMat_acts meant o (outFlag s.cfg)) [14] [] rfl rfl fun o => ?_
  exact Builds.last (graphBinary_acts meant .add (by decide)) [0,15] [] rfl rfl (by decide +kernel)

theorem qwen35Layer_acts (copies : M.Copies) (ws : Qwen35Workspace) :
    Acts M s.cfg tok (qwen35Layer s ws cur l) [(cur,x)] [] (qwen35Block f s ws x l) := by
  refine acts_of 1 1 rfl rfl fun start => ?_
  refine Builds.idle (graphSetLayer_idle l) fun _ => ?_
  refine Builds.step (graphRmsNorm_acts meant _) [0] [] rfl rfl fun n => ?_
  dsimp only [qwen35Block]
  cases s.layers l .ssmConv1d with
  | some conv =>
    refine Builds.step (qwen35Ssm_acts meant ws conv) [0,1] [] rfl rfl fun cur => ?_
    refine Builds.step (graphRmsNorm_acts meant _) [2] [] rfl rfl fun hn => ?_
    refine Builds.step (swiglu_acts meant _ _ _) [3] [] rfl rfl fun down => ?_
    refine Builds.step (graphBinary_acts meant .add (by decide)) [2,4] [] rfl rfl fun cur => ?_
    exact Builds.last (graphLayerBoundary_acts copies s l) [5] [] rfl rfl (by decide +kernel)
  | none =>
    refine Builds.step (qwen35Dense_acts meant ws) [0,1] [] rfl rfl fun cur => ?_
    refine Builds.step (graphRmsNorm_acts meant _) [2] [] rfl rfl fun hn => ?_
    refine Builds.step (swiglu_acts meant _ _ _) [3] [] rfl rfl fun down => ?_
    refine Builds.step (graphBinary_acts meant .add (by decide)) [2,4] [] rfl rfl fun cur => ?_
    exact Builds.last (graphLayerBoundary_acts copies s l) [5] [] rfl rfl (by decide +kernel)

theorem falconH1Attention_acts (ws : FalconH1WorkSpace) :
    Acts M s.cfg tok (falconH1Attention s ws cur l) [(cur,x)] [] (falconH1Attended f s ws l x) := by
  refine acts_of 1 1 rfl rfl fun start => ?_
  refine Builds.given fun tq q => Builds.given fun tk k => Builds.given fun tv v => Builds.given fun tO o => ?_
  refine Builds.step (graphMulMat_acts meant q fun t => fh1MmTrans t (qDim s.cfg) s.cfg.nEmbd) [0] [] rfl rfl fun q => ?_
  refine Builds.step (graphMulMat_acts meant k fun t => fh1MmTrans t (kvDim s.cfg) s.cfg.nEmbd) [0] [] rfl rfl fun k => ?_
  refine Builds.step (graphMulMat_acts meant v fun t => fh1MmTrans t (kvDim s.cfg) s.cfg.nEmbd) [0] [] rfl rfl fun v => ?_
  refine Builds.step (addBias_acts meant _) [1] [] rfl rfl fun q => ?_
  refine Builds.step (addBias_acts meant _) [2] [] rfl rfl fun k => ?_
  refine Builds.step (addBias_acts meant _) [3] [] rfl rfl fun v => ?_
  refine Builds.step (ropeNode_acts meant (by decide) _ _ _ _) [4] [] rfl rfl fun q => ?_
  refine Builds.step (ropeNode_acts meant (by decide) _ _ _ _) [5] [] rfl rfl fun k => ?_
  refine Builds.step (graphAttn_acts meant _ _ _ l 0) [7,8,6] [] rfl rfl fun attn => ?_
  exact Builds.last (graphMulMat_acts meant o fun t => fh1MmTrans t s.cfg.nEmbd (qDim s.cfg)) [9] [] rfl rfl (by decide +kernel)

theorem falconH1Mixer_acts (ws : FalconH1WorkSpace) :
    Acts M s.cfg tok (falconH1Mixer s ws cur l) [(cur,x)] [] (falconH1Scanned f s ws l x) := by
  refine acts_of 1 1 rfl rfl fun start => ?_
  refine Builds.given fun tIn inner => Builds.given fun tConv conv => Builds.given fun tA rates => ?_
  refine Builds.given fun tD skips => Builds.given fun tDt bias => Builds.given fun tSo out => ?_
  refine Builds.step (graphMulMat_acts meant inner fun t => fh1MmTrans t (projDim ws) s.cfg.nEmbd) [0] [] rfl rfl fun proj => ?_
  refine Builds.idle (graphState_idle _) fun convSt => Builds.idle (graphState_idle _) fun ssmSt => ?_
  refine Builds.step (graphMamba2Conv_acts meant conv _ _) [1] [] rfl rfl fun cv => ?_
  refine Builds.step (graphMamba2Scan_acts meant rates skips bias _ _) [2,1] [] rfl rfl fun scan => ?_
  exact Builds.last (graphMulMat_acts meant out fun t => fh1MmTrans t s.cfg.nEmbd ws.ssmDInner) [3] [] rfl rfl (by decide +kernel)

theorem falconH1Ffn_acts : Acts M s.cfg tok (falconH1Ffn s cur l) [(cur,x)] [] (falconH1Feed f s l x) := by
  refine acts_of 1 1 rfl rfl fun start => ?_
  refine Builds.given fun tg g => Builds.given fun tu u => Builds.given fun td d => ?_
  have hidden : ((s.layers l .ffnGate).map fun tg => u32 (tg.dim.getD 0 0)).getD 0 = u32 (tg.dim.getD 0 0) := by rw [g]; rfl
  simp only [falconH1Feed,hidden]
  refine Builds.step (graphMulMat_acts meant g fun t => fh1MmTrans t (u32 (tg.dim.getD 0 0)) s.cfg.nEmbd) [0] [] rfl rfl fun gate => ?_
  refine Builds.step (one_adds meant graphSilu_adds (by decide)) [1] [] rfl rfl fun gate => ?_
  refine Builds.step (graphMulMat_acts meant u fun t => fh1MmTrans t (u32 (tg.dim.getD 0 0)) s.cfg.nEmbd) [0] [] rfl rfl fun up => ?_
  refine Builds.step (graphBinary_acts meant .mul (by decide)) [2,3] [] rfl rfl fun mul => ?_
  exact Builds.last (graphMulMat_acts meant d fun t => fh1MmTrans t s.cfg.nEmbd (u32 (tg.dim.getD 0 0))) [4] [] rfl rfl (by decide +kernel)

theorem falconH1Layer_acts (copies : M.Copies) (ws : FalconH1WorkSpace) :
    Acts M s.cfg tok (falconH1Layer s ws cur l) [(cur,x)] [] (falconH1Block f s ws x l) := by
  refine acts_of 1 1 rfl rfl fun start => ?_
  refine Builds.idle (graphSetLayer_idle l) fun _ => ?_
  refine Builds.step (graphRmsNorm_acts meant _) [0] [] rfl rfl fun n => ?_
  refine Builds.step (falconH1Attention_acts meant ws) [1] [] rfl rfl fun attn => ?_
  refine Builds.step (falconH1Mixer_acts meant ws) [1] [] rfl rfl fun ssm => ?_
  refine Builds.step (graphBinary_acts meant .add (by decide)) [0,2] [] rfl rfl fun cur => ?_
  refine Builds.step (graphBinary_acts meant .add (by decide)) [4,3] [] rfl rfl fun cur => ?_
  refine Builds.step (graphRmsNorm_acts meant _) [5] [] rfl rfl fun hn => ?_
  refine Builds.step (falconH1Ffn_acts meant) [6] [] rfl rfl fun down => ?_
  refine Builds.step (graphBinary_acts meant .add (by decide)) [5,7] [] rfl rfl fun cur => ?_
  exact Builds.last (graphLayerBoundary_acts copies s l) [8] [] rfl rfl (by decide +kernel)

theorem stacked_acts {layer : Nat → Nat → Build Nat} {block : Stream (List β) → Nat → Stream (List β)} {tail : Nat → Build Nat}
    {head : Stream (List β) → Stream (List β)} {final : Option TensorInfo}
    (each : ∀ l cur x,Acts M s.cfg tok (layer cur l) [(cur,x)] [] (block x l)) (ends : ∀ fn x,Acts M s.cfg tok (tail fn) [(fn,x)] [] (head x)) :
    Acts M s.cfg tok (do
      let cur ← overLayers layer (List.range s.cfg.nLayer) cur
      graphSetLayer s.cfg.nLayer
      let fn ← graphRmsNorm cur final
      tail fn) [(cur,x)] [] (head (normed f final ((List.range s.cfg.nLayer).foldl block x))) := by
  refine acts_of 1 1 rfl rfl fun start => ?_
  refine Builds.step (overLayers_acts _ (fun l _ => each l) cur x) [0] [] rfl rfl fun cur => ?_
  refine Builds.idle (graphSetLayer_idle _) fun _ => ?_
  refine Builds.step (graphRmsNorm_acts meant _) [1] [] rfl rfl fun fn => ?_
  exact Builds.last (ends fn _) [2] [] rfl rfl (by decide +kernel)

theorem cappedHead_acts (cap : Nat) : Acts M s.cfg tok (do
      let cur ← lmHead s cur
      if floatPositive cap then graphSoftcap cur cap else pure cur) [(cur,x)] []
    (if floatPositive cap then f .softcap [] [cap] [logitsOf f s x] else logitsOf f s x) := by
  refine acts_of 1 1 rfl rfl fun start => ?_
  refine Builds.step (lmHead_acts meant s) [0] [] rfl rfl fun cur => ?_
  split
  · exact Builds.last (one_adds meant (graphSoftcap_adds cap) (by decide)) [1] [] rfl rfl (by decide +kernel)
  · exact Builds.last (Acts.stay (k:=(cur,_))) [1] [] rfl rfl (by decide +kernel)

theorem embedded_starts {n : Nat} {g : Graph} {a : Nat} (run : embedded s n graphNew = some (a,g)) :
    ∃ i e,g.nodes = [i,e] ∧ i.op = .input ∧ i.src = [] ∧ e.op ≠ .input ∧ e.src = [some 0] ∧ a = 1 ∧
      M.output s.cfg tok g.nodes 1 = tokenRows f s := by
  obtain ⟨⟨te,g₁⟩,began,run⟩ := Option.bind_eq_some_iff.mp run
  obtain ⟨t,found,same⟩ := Option.map_eq_some_iff.mp began
  cases same
  obtain ⟨⟨_,g₂⟩,began,run⟩ := Option.bind_eq_some_iff.mp run
  obtain rfl : g₂ = graphNew := by
    unfold Graph.require at began
    split at began
    · cases began
      rfl
    · cases began
  obtain ⟨⟨input,g₃⟩,began,run⟩ := Option.bind_eq_some_iff.mp run
  unfold graphInput at began
  split at began
  · cases began
  · cases began
    obtain ⟨rfl,rfl⟩ := graphEmbed_adds te n _ a g run
    refine ⟨_,_,rfl,rfl,rfl,by change GraphOp.embed ≠ .input; decide,rfl,rfl,?_⟩
    subst meant
    rw [tokenRows,found]
    rfl

end layers

theorem grown_built {M : Meaning β K} {c : ArchConfig} {tok : Nat → Nat} {nodes : List GraphNode} {i e : GraphNode} {x y : Stream (List β)}
    {a : Nat} (input : i.op = .input ∧ i.src = []) (embeds : e.op ≠ .input ∧ e.src = [some 0])
    (grew : Grew M c tok [i,e] nodes [(1,x)] (a,y)) : WellBuilt nodes ∧ M.output c tok nodes (nodes.length-1) = y := by
  obtain ⟨added,more⟩ := grew.more
  have length : 2 ≤ nodes.length := by
    rw [more,List.length_append]
    exact Nat.le_add_right _ _
  have zero : isInput nodes 0 = true := by
    rw [more,isInput_extend [i,e] added Nat.zero_lt_two]
    exact decide_eq_true input.1
  have one : isInput nodes 1 = false := by
    rw [more,isInput_extend [i,e] added Nat.one_lt_two]
    exact decide_eq_false embeds.1
  have computes : ∀ k,0 < k → k < nodes.length → isInput nodes k = false := by
    intro k some' below
    by_cases first' : k = 1
    · rw [first']
      exact one
    · exact grew.computes k (by change 2 ≤ k; omega) below
  have back : ∀ k j,some j ∈ sourcesOf nodes k → j < k := by
    intro k j src
    by_cases late : 2 ≤ k
    · exact grew.back k j late src
    · rw [more,sourcesOf_append [i,e] added (show k < 2 by omega)] at src
      by_cases first' : k = 0
      · subst first'
        change some j ∈ i.src at src
        rw [input.2] at src
        cases src
      · obtain rfl : k = 1 := by omega
        change some j ∈ e.src at src
        rw [embeds.2] at src
        cases List.mem_singleton.mp src
        exact Nat.zero_lt_one
  have unread : isSink nodes (nodes.length-1) = true := by
    rw [isSink,List.all_eq_true]
    intro node listed
    obtain ⟨k,below,found⟩ := List.getElem_of_mem listed
    rw [Bool.not_eq_true',Bool.eq_false_iff]
    intro reads
    have src : some (nodes.length-1) ∈ sourcesOf nodes k := by
      rw [sourcesOf,List.getElem?_eq_getElem below,found]
      exact List.contains_iff_mem.mp reads
    have := back k _ src
    omega
  have only : ∀ k,0 < k → k < nodes.length → isSink nodes k = true → k = a := by
    intro k some' below sink
    refine grew.read k ?_ below sink
    by_cases first' : k = 1
    · exact .inr (List.mem_singleton.mpr first')
    · exact .inl (by change 2 ≤ k; omega)
  have last := only (nodes.length-1) (by omega) (by omega) unread
  refine ⟨⟨back,⟨1,fun k below => ?_⟩,fun k below node => ?_,⟨1,by omega,one⟩⟩,?_⟩
  · constructor
    · intro flagged
      by_contra late
      rw [computes k (by omega) below] at flagged
      exact Bool.false_ne_true flagged
    · intro first'
      rw [show k = 0 by omega]
      exact zero
  · have some' : 0 < k := by
      refine Nat.pos_of_ne_zero ?_
      rintro rfl
      rw [zero] at node
      exact Bool.false_ne_true node.symm
    constructor
    · intro sink
      have := only k some' below sink
      omega
    · intro ends
      rw [show k = nodes.length-1 by omega]
      exact unread
  · rw [last]
    exact grew.there.2

end TinyLlama.Graph
