import TinyLlama.Graph.Orientation

namespace TinyLlama.Graph
open Gguf

-- Two widths that the flag tells apart, or for which the transpose is the same.
def Distinct (out input : Nat) : Prop := out ≠ input ∨ out = 1

-- The down projection is compared with the larger width of the first gate.
def Wider (f n : Nat) : Prop := n < f ∨ f = 1 ∧ n = 1

instance (out input : Nat) : Decidable (Distinct out input) := inferInstanceAs (Decidable (_ ∨ _))
instance (f n : Nat) : Decidable (Wider f n) := inferInstanceAs (Decidable (_ ∨ _))

-- The widths [out, in] of the weights that a layer multiplies by.
def ffnShape (c : ArchConfig) (f : Nat) : TensorRole → Option (Nat × Nat)
  | .ffnGate | .ffnUp => some (f,c.nEmbd)
  | .ffnDown => some (c.nEmbd,f)
  | _ => none

def denseShape (c : ArchConfig) (f qRows : Nat) : TensorRole → Option (Nat × Nat)
  | .attnQ => some (qRows,c.nEmbd)
  | .attnK | .attnV => some (kvDim c,c.nEmbd)
  | .attnOut => some (c.nEmbd,qDim c)
  | role => ffnShape c f role

def gatedShape (c : ArchConfig) (f qRows : Nat) : TensorRole → Option (Nat × Nat)
  | .attnGate => some (qDim c,c.nEmbd)
  | role => denseShape c f qRows role

def ssmShape (c : ArchConfig) (ws : Qwen35Workspace) (f fused : Nat) : TensorRole → Option (Nat × Nat)
  | .attnQkv => some (fused,c.nEmbd)
  | .ssmAlpha | .ssmBeta => some (ws.ssmNV,c.nEmbd)
  | .attnGate => some (ws.ssmValDim,c.nEmbd)
  | .ssmOut => some (c.nEmbd,ws.ssmValDim)
  | role => ffnShape c f role

def StoredAs (shape : TensorRole → Option (Nat × Nat)) (tensors : TensorRole → Option TensorInfo) : Prop :=
  ∀ role out input, shape role = some (out,input) → ∀ t, tensors role = some t → StoredRows t out input

def headShape (c : ArchConfig) : TensorRole → Option (Nat × Nat)
  | .tokenEmbd | .output => some (c.nVocab,c.nEmbd)
  | _ => none

section layers
variable {R : Type} [Semiring R] {s : Session} {n f : Nat}

theorem readsTransposed_stored (stored : StoredRows t out input) (n : Nat) : readsTransposed t n = decide (out = n) := by
  simp [readsTransposed,stored.dim]

theorem guarded_settles (stored : StoredRows t out input) (src : Nat) :
    Settles R (graphMulMat src t (out ≠ input && readsTransposed t input)) True := by
  refine (mulMat_settles src t _).iff ?_
  rw [readsTransposed_stored stored]
  have plain : (out ≠ input && decide (out = input)) = false := by simp
  rw [plain]
  exact iff_true_intro (multiplies_plain stored)

theorem ssm_settles (stored : StoredRows t out input) (src : Nat) :
    Settles R (graphMulMat src t (ssmMmTrans t out input)) True := by
  refine (mulMat_settles src t _).iff ?_
  have plain : ssmMmTrans t out input = false := by simp [ssmMmTrans,stored.ndim,stored.dim]
  rw [plain]
  exact iff_true_intro (multiplies_plain stored)

theorem outputGate_settles {gate : Option TensorInfo} {c : ArchConfig}
    (stored : ∀ t, gate = some t → StoredRows t width c.nEmbd) (x n : Nat) :
    Settles R (outputGate gate x n width c) True := by
  cases gate with
  | none => exact .pure x
  | some t =>
    refine (ssm_settles (stored t rfl) n).after fun a => (graphSilu_settles _).after fun a => ?_
    exact graphBinary_settles _ _ _

theorem queryHalf_settles (norm : Option TensorInfo) (fq proj : Nat) (c : ArchConfig) : Settles R (queryHalf norm fq proj c) True := by
  cases norm with
  | none => exact .require fun _ => .pure fq
  | some t => exact .require fun _ => graphRmsNormHeads_settles _ _ _ _ _ _

theorem sigmoidGated_settles (norm : Option TensorInfo) (attn fq : Nat) (c : ArchConfig) : Settles R (sigmoidGated norm attn fq c) True := by
  cases norm with
  | none => exact .pure attn
  | some t => exact graphSigmoidGate_settles _ _ _ _

variable [Nontrivial R]

theorem unguarded_settles (stored : StoredRows t out n) (src : Nat) :
    Settles R (graphMulMat src t (readsTransposed t n)) (Distinct out n) := by
  refine (mulMat_settles src t _).iff ?_
  rw [readsTransposed_stored stored]
  by_cases square : out = n
  · rw [decide_eq_true square,multiplies_transposed stored]
    unfold Distinct
    omega
  · rw [decide_eq_false square]
    exact ⟨fun _ => .inl square,fun _ => multiplies_plain stored⟩

theorem down_settles (stored : StoredRows t n f) (src : Nat) :
    Settles R (graphMulMat src t (readsTransposed t (max f n))) (Wider f n) := by
  refine (mulMat_settles src t _).iff ?_
  rw [readsTransposed_stored stored]
  by_cases wider : n < f
  · have other : ¬n = max f n := by omega
    rw [decide_eq_false other]
    exact ⟨fun _ => .inl wider,fun _ => multiplies_plain stored⟩
  · have same : n = max f n := by omega
    rw [decide_eq_true same,multiplies_transposed stored]
    unfold Wider
    omega

theorem swiglu_settles {lw : TensorRole → Option TensorInfo} {c : ArchConfig} (stored : StoredAs (ffnShape c f) lw) (hn : Nat) :
    Settles R (swiglu lw c (max f c.nEmbd) hn) (Wider f c.nEmbd) := by
  refine .given fun tg gate => .given fun tu up => .given fun td down => ?_
  have gateRows := unguarded_settles (R:=R) (stored .ffnGate _ _ rfl tg gate) hn
  have upRows := unguarded_settles (R:=R) (stored .ffnUp _ _ rfl tu up) hn
  have chain := gateRows.bind fun gate => (graphSilu_settles gate).after fun gate =>
    upRows.bind fun up => (graphBinary_settles .mul gate up).after fun mul =>
      down_settles (R:=R) (stored .ffnDown _ _ rfl td down) mul
  refine chain.iff ?_
  unfold Distinct Wider
  omega

theorem lmHead_settles (stored : StoredAs (headShape s.cfg) s.tensors) (src : Nat) :
    Settles R (lmHead s src) (Distinct s.cfg.nVocab s.cfg.nEmbd) := by
  refine .given fun t there => unguarded_settles (R:=R) ?_ src
  rcases Option.or_eq_some_iff.mp there with output | ⟨_,tied⟩
  · exact stored .output _ _ rfl t output
  · exact stored .tokenEmbd _ _ rfl t tied

theorem StoredAs.ffn {lw : TensorRole → Option TensorInfo} (stored : StoredAs shape lw)
    (same : ∀ role out input, ffnShape c f role = some (out,input) → shape role = some (out,input)) : StoredAs (ffnShape c f) lw :=
  fun role out input present => stored role out input (same role out input present)

theorem denseShape_ffn (c : ArchConfig) (f qRows : Nat) (role : TensorRole) (out input : Nat)
    (present : ffnShape c f role = some (out,input)) : denseShape c f qRows role = some (out,input) := by
  cases role <;> first | exact present | cases present

theorem llamaLayer_settles {ws : LlamaWorkSpace} (stored : StoredAs (denseShape s.cfg f (qDim s.cfg)) (s.layers l))
    (width : ws.ffnHidden = max f s.cfg.nEmbd) (cur : Nat) :
    Settles R (llamaLayer s ws cur l) (Distinct (kvDim s.cfg) s.cfg.nEmbd ∧ Wider f s.cfg.nEmbd) := by
  have ffn := swiglu_settles (R:=R) (stored.ffn (denseShape_ffn s.cfg f (qDim s.cfg)))
  rw [← width] at ffn
  refine (graphSetLayer_settles l).after fun _ => ?_
  refine .given fun tq q => .given fun tk k => .given fun tv v => .given fun tO o => ?_
  have kRows := unguarded_settles (R:=R) (stored .attnK _ _ rfl tk k)
  have vRows := unguarded_settles (R:=R) (stored .attnV _ _ rfl tv v)
  refine (graphRmsNorm_settles _ _).after fun n => ?_
  refine (guarded_settles (stored .attnQ _ _ rfl tq q) n).after fun q => ?_
  refine Settles.iff ((kRows n).bind fun k => (vRows n).bind (Q:=Wider f s.cfg.nEmbd) fun v => ?_) (by tauto)
  refine (addBias_settles _ _).after fun q => (addBias_settles _ _).after fun k => (addBias_settles _ _).after fun v => ?_
  refine (graphRopeNorm_settles _ _ _ _ _).after fun q => (graphRopeNorm_settles _ _ _ _ _).after fun k => ?_
  refine (graphAttn_settles _ _ _ _ _).after fun attn => ?_
  refine (guarded_settles (stored .attnOut _ _ rfl tO o) attn).after fun o => ?_
  refine (graphBinary_settles _ _ _).after fun h => (graphRmsNorm_settles _ _).after fun hn => ?_
  exact (ffn hn).before fun down => (graphBinary_settles _ _ _).after fun cur => graphLayerBoundary_settles _ _ _

theorem qwen25Layer_settles {ws : Qwen25Workspace} (stored : StoredAs (denseShape s.cfg f (qDim s.cfg)) (s.layers l))
    (width : ws.ffnHidden = max f s.cfg.nEmbd) (cur : Nat) :
    Settles R (qwen25Layer s ws cur l) (Distinct (kvDim s.cfg) s.cfg.nEmbd ∧ Wider f s.cfg.nEmbd) := by
  have ffn := swiglu_settles (R:=R) (stored.ffn (denseShape_ffn s.cfg f (qDim s.cfg)))
  rw [← width] at ffn
  refine (graphSetLayer_settles l).after fun _ => ?_
  refine .given fun tq q => .given fun tk k => .given fun tv v => .given fun tO o => ?_
  have kRows := unguarded_settles (R:=R) (stored .attnK _ _ rfl tk k)
  have vRows := unguarded_settles (R:=R) (stored .attnV _ _ rfl tv v)
  refine (graphRmsNorm_settles _ _).after fun n => ?_
  refine (guarded_settles (stored .attnQ _ _ rfl tq q) n).after fun q => ?_
  refine Settles.iff ((kRows n).bind fun k => (vRows n).bind (Q:=Wider f s.cfg.nEmbd) fun v => ?_) (by tauto)
  refine (addBias_settles _ _).after fun q => (addBias_settles _ _).after fun k => (addBias_settles _ _).after fun v => ?_
  refine (graphRope_settles _ _ _ _ _).after fun q => (graphRope_settles _ _ _ _ _).after fun k => ?_
  refine (graphAttn_settles _ _ _ _ _).after fun attn => ?_
  refine (guarded_settles (stored .attnOut _ _ rfl tO o) attn).after fun o => ?_
  refine (graphBinary_settles _ _ _).after fun h => (graphRmsNorm_settles _ _).after fun hn => ?_
  exact (ffn hn).before fun down => (graphBinary_settles _ _ _).after fun cur => graphLayerBoundary_settles _ _ _

theorem gemma3Layer_settles {ws : Gemma3WorkSpace} (stored : StoredAs (denseShape s.cfg f (qDim s.cfg)) (s.layers l))
    (width : ws.ffnHidden = max f s.cfg.nEmbd) (cur : Nat) :
    Settles R (gemma3Layer s ws cur l) (Distinct (kvDim s.cfg) s.cfg.nEmbd ∧ Wider f s.cfg.nEmbd) := by
  refine (graphSetLayer_settles l).after fun _ => ?_
  refine .given fun tq q => .given fun tk k => .given fun tv v => .given fun tO o => ?_
  refine .given fun tg g => .given fun tu u => .given fun td d => ?_
  have kRows := unguarded_settles (R:=R) (stored .attnK _ _ rfl tk k)
  have vRows := unguarded_settles (R:=R) (stored .attnV _ _ rfl tv v)
  have gateRows := unguarded_settles (R:=R) (stored .ffnGate _ _ rfl tg g)
  have upRows := unguarded_settles (R:=R) (stored .ffnUp _ _ rfl tu u)
  have downRows := down_settles (R:=R) (stored .ffnDown _ _ rfl td d)
  rw [← width] at downRows
  have narrow : Wider f s.cfg.nEmbd → Distinct f s.cfg.nEmbd := by
    unfold Distinct Wider
    omega
  refine (graphRmsNorm_settles _ _).after fun n => ?_
  refine (guarded_settles (stored .attnQ _ _ rfl tq q) n).after fun q => ?_
  refine Settles.iff ((kRows n).bind fun k => (vRows n).bind (Q:=Wider f s.cfg.nEmbd) fun v => ?_) (by tauto)
  refine (graphRmsNormHeads_settles _ _ _ _ _ _).after fun q => (graphRmsNormHeads_settles _ _ _ _ _ _).after fun k => ?_
  refine (graphRope_settles _ _ _ _ _).after fun q => (graphRope_settles _ _ _ _ _).after fun k => ?_
  refine (graphScale_settles _ _).after fun q => (graphAttn_settles _ _ _ _ _).after fun attn => ?_
  refine (guarded_settles (stored .attnOut _ _ rfl tO o) attn).after fun o => ?_
  refine (graphRmsNorm_settles _ _).after fun o => (graphBinary_settles _ _ _).after fun h => ?_
  refine (graphRmsNorm_settles _ _).after fun hn => ?_
  refine Settles.iff ((gateRows hn).bind (Q:=Distinct f s.cfg.nEmbd ∧ Wider f s.cfg.nEmbd) fun gate => ?_)
    ⟨fun all => all.2.2,fun wider => ⟨narrow wider,narrow wider,wider⟩⟩
  refine (graphGelu_settles _).after fun gate => (upRows hn).bind fun up => ?_
  refine (graphBinary_settles _ _ _).after fun mul => (downRows mul).before fun down => ?_
  refine (graphRmsNorm_settles _ _).after fun down => (graphBinary_settles _ _ _).after fun cur => ?_
  exact graphLayerBoundary_settles _ _ _

theorem qwen35Ssm_settles {ws : Qwen35Workspace} (stored : StoredAs (ssmShape s.cfg ws f fused) (s.layers l))
    (conv : TensorInfo) (cur n : Nat) : Settles R (qwen35Ssm s ws conv cur n l) (Distinct fused s.cfg.nEmbd) := by
  refine .given fun tqkv qkv => .given fun ta a => .given fun tb b => .given fun _ _ => .given fun _ _ => .given fun tso so => ?_
  refine (graphState_settles _).after fun _ => (graphState_settles _).after fun _ => ?_
  refine (unguarded_settles (stored .attnQkv _ _ rfl tqkv qkv) n).before fun f => ?_
  refine (graphSsmConv_settles _ _ _ _).after fun f => (graphSilu_settles _).after fun f => ?_
  refine (ssm_settles (stored .ssmAlpha _ _ rfl ta a) n).after fun a => ?_
  refine (ssm_settles (stored .ssmBeta _ _ rfl tb b) n).after fun b => (graphSsmDelta_settles _).after fun d => ?_
  refine (outputGate_settles (stored .attnGate _ _ rfl) d n).after fun d => ?_
  refine (ssm_settles (stored .ssmOut _ _ rfl tso so) d).after fun y => ?_
  exact graphBinary_settles _ _ _

theorem qProj_stored {c : ArchConfig} (stored : StoredRows t qRows c.nEmbd) : qProj t c = qRows := by
  have first : t.dim.getD 0 0 = qRows := by rw [stored.dim]; rfl
  have second : t.dim.getD 1 0 = c.nEmbd := by rw [stored.dim]; rfl
  rw [qProj,first,second]
  split
  · rename_i same
    rw [← same,u32_of_lt stored.outFits]
  · exact u32_of_lt stored.outFits

theorem qwen35Dense_settles {ws : Qwen35Workspace} (stored : StoredAs (gatedShape s.cfg f qRows) (s.layers l))
    (cur n : Nat) : Settles R (qwen35Dense s ws cur n l) (Distinct (kvDim s.cfg) s.cfg.nEmbd) := by
  refine .given fun tq q => .given fun tk k => .given fun tv v => .given fun tO o => .require fun _ => ?_
  have qRows' := guarded_settles (R:=R) (stored .attnQ _ _ rfl tq q) n
  rw [← qProj_stored (stored .attnQ _ _ rfl tq q)] at qRows'
  have kRows := unguarded_settles (R:=R) (stored .attnK _ _ rfl tk k) n
  have vRows := unguarded_settles (R:=R) (stored .attnV _ _ rfl tv v) n
  refine qRows'.after fun fq => (addBias_settles _ _).after fun fq => (queryHalf_settles _ _ _ _).after fun q => ?_
  refine Settles.iff (kRows.bind fun k => vRows.before fun v => ?_) (and_self_iff)
  refine (addBias_settles _ _).after fun k => (addBias_settles _ _).after fun v => (optionalNorm_settles _ _ _ _).after fun k => ?_
  refine (graphRope_settles _ _ _ _ _).after fun q => (graphRope_settles _ _ _ _ _).after fun k => ?_
  refine (graphAttn_settles _ _ _ _ _).after fun attn => (outputGate_settles (stored .attnGate _ _ rfl) attn n).after fun attn => ?_
  refine (sigmoidGated_settles _ _ _ _).after fun attn => ?_
  exact (guarded_settles (stored .attnOut _ _ rfl tO o) attn).after fun o => graphBinary_settles _ _ _

def qwen35Shape (s : Session) (ws : Qwen35Workspace) (f fused l : Nat) : TensorRole → Option (Nat × Nat) :=
  match s.layers l .ssmConv1d with
  | some _ => ssmShape s.cfg ws f fused
  | none => gatedShape s.cfg f (if (s.layers l .attnQNorm).isSome then u32 (2*qDim s.cfg) else qDim s.cfg)

def qwen35Width (s : Session) (fused l : Nat) : Nat :=
  match s.layers l .ssmConv1d with
  | some _ => fused
  | none => kvDim s.cfg

theorem qwen35Layer_settles {ws : Qwen35Workspace} (stored : StoredAs (qwen35Shape s ws f fused l) (s.layers l))
    (width : ws.ffnHidden = max f s.cfg.nEmbd) (cur : Nat) : Settles R (qwen35Layer s ws cur l)
      (Distinct (qwen35Width s fused l) s.cfg.nEmbd ∧ Wider f s.cfg.nEmbd) := by
  have ffn : StoredAs (ffnShape s.cfg f) (s.layers l) := by
    refine stored.ffn fun role out input present => ?_
    unfold qwen35Shape
    cases s.layers l .ssmConv1d <;> cases role <;> first | exact present | cases present
  have ffnRows := swiglu_settles (R:=R) ffn
  rw [← width] at ffnRows
  refine (graphSetLayer_settles l).after fun _ => (graphRmsNorm_settles _ _).after fun n => ?_
  have rest : ∀ cur, Settles R (do
      let hn ← graphRmsNorm cur (s.layers l .postAttnNorm)
      let down ← swiglu (s.layers l) s.cfg ws.ffnHidden hn
      let cur ← graphBinary .add cur down
      graphLayerBoundary cur s l) (Wider f s.cfg.nEmbd) := fun cur =>
    (graphRmsNorm_settles _ _).after fun hn => (ffnRows hn).before fun down =>
      (graphBinary_settles _ _ _).after fun cur => graphLayerBoundary_settles _ _ _
  unfold qwen35Width qwen35Shape at *
  cases kind : s.layers l .ssmConv1d with
  | some conv =>
    rw [kind] at stored
    exact (qwen35Ssm_settles stored conv cur n).bind rest
  | none =>
    rw [kind] at stored
    exact (qwen35Dense_settles stored cur n).bind rest

end layers

-- The four architectures; a Qwen3.5 session also has the width of its fused projections.
inductive Workspace where
  | llama (ws : LlamaWorkSpace)
  | qwen25 (ws : Qwen25Workspace)
  | gemma3 (ws : Gemma3WorkSpace)
  | qwen35 (ws : Qwen35Workspace) (fused : Nat)

def Workspace.ffnHidden : Workspace → Nat
  | .llama ws => ws.ffnHidden
  | .qwen25 ws => ws.ffnHidden
  | .gemma3 ws => ws.ffnHidden
  | .qwen35 ws _ => ws.ffnHidden

def graphBuild (s : Session) (ws : Workspace) (nTokens : Nat) : Option Graph :=
  ((match ws with
    | .llama ws => llamaGraphBuild s ws nTokens
    | .qwen25 ws => qwen25GraphBuild s ws nTokens
    | .gemma3 ws => gemma3GraphBuild s ws nTokens
    | .qwen35 ws _ => qwen35GraphBuild s ws nTokens) graphNew).map Prod.snd

def Workspace.shape (s : Session) (f l : Nat) : Workspace → TensorRole → Option (Nat × Nat)
  | .qwen35 ws fused => qwen35Shape s ws f fused l
  | _ => denseShape s.cfg f (qDim s.cfg)

def Workspace.width (s : Session) (l : Nat) : Workspace → Nat
  | .qwen35 _ fused => qwen35Width s fused l
  | _ => kvDim s.cfg

-- Weights stored as rows, with FFN width f; the loader requires every layer's gate.
structure StoredModel (s : Session) (ws : Workspace) (f : Nat) : Prop where
  head : StoredAs (headShape s.cfg) s.tensors
  layers : ∀ l < s.cfg.nLayer, StoredAs (ws.shape s f l) (s.layers l)
  gate : 0 < s.cfg.nLayer → ∃ t, s.layers 0 .ffnGate = some t
  hidden : ws.ffnHidden = ffnHidden s

def Oriented (s : Session) (ws : Workspace) (f : Nat) : Prop :=
  (∀ l < s.cfg.nLayer, Distinct (ws.width s l) s.cfg.nEmbd ∧ Wider f s.cfg.nEmbd) ∧ Distinct s.cfg.nVocab s.cfg.nEmbd

section whole
variable {R : Type} [Semiring R] {s : Session} {f : Nat}

theorem ffnHidden_stored (gate : s.layers 0 .ffnGate = some t) (stored : StoredRows t f s.cfg.nEmbd) :
    ffnHidden s = max f s.cfg.nEmbd := by
  have first : t.dim.getD 0 0 = f := by rw [stored.dim]; rfl
  have second : t.dim.getD 1 0 = s.cfg.nEmbd := by rw [stored.dim]; rfl
  have ndim := stored.ndim
  have low := u32_of_lt stored.outFits
  have low' := u32_of_lt stored.inFits
  simp only [ffnHidden,gate,first,second,ndim]
  split
  · split <;> simp only [if_pos (Nat.le_refl 2),low,low'] <;> omega
  · contradiction

theorem Workspace.shape_ffn (ws : Workspace) (s : Session) (f l : Nat) (role : TensorRole) (out input : Nat)
    (present : ffnShape s.cfg f role = some (out,input)) : ws.shape s f l role = some (out,input) := by
  cases ws with
  | qwen35 ws fused =>
    simp only [Workspace.shape,qwen35Shape]
    cases s.layers l .ssmConv1d <;> cases role <;> first | exact present | cases present
  | _ => exact denseShape_ffn s.cfg f (qDim s.cfg) role out input present

theorem StoredModel.width (stored : StoredModel s ws f) (some' : 0 < s.cfg.nLayer) : ws.ffnHidden = max f s.cfg.nEmbd := by
  obtain ⟨t,gate⟩ := stored.gate some'
  rw [stored.hidden]
  exact ffnHidden_stored gate (stored.layers 0 some' .ffnGate _ _ (ws.shape_ffn s f 0 .ffnGate _ _ rfl) t gate)

theorem builder_settles (ws : Workspace) {layer : Nat → Nat → Build Nat} {tail : Nat → Build Nat}
    (each : ∀ l < s.cfg.nLayer, ∀ cur, Settles R (layer cur l) (Distinct (ws.width s l) s.cfg.nEmbd ∧ Wider f s.cfg.nEmbd))
    (last : ∀ cur, Settles R (tail cur) (Distinct s.cfg.nVocab s.cfg.nEmbd)) (cur : Nat) :
    Settles R (overLayers layer (List.range s.cfg.nLayer) cur >>= tail) (Oriented s ws f) := by
  have all := overLayers_settles (R:=R) (List.range s.cfg.nLayer) (fun l present => each l (List.mem_range.mp present)) cur
  refine (all.bind last).iff ?_
  simp only [Oriented,List.mem_range]

theorem Settles.built {b : Build Nat} (settles : Settles R b P) (built : (b graphNew).map Prod.snd = some g) :
    (∀ node ∈ g.nodes, node.isMatmul → RowsAreOutputs R node) ↔ P := by
  obtain ⟨⟨a,g'⟩,run,rfl⟩ := Option.map_eq_some_iff.mp built
  obtain ⟨added,nodes,right⟩ := settles _ _ _ run
  rw [nodes]
  exact right

theorem orientation_iff [Nontrivial R] (stored : StoredModel s ws f) (built : graphBuild s ws nTokens = some g) :
    (∀ node ∈ g.nodes, node.isMatmul → RowsAreOutputs R node) ↔ Oriented s ws f := by
  have hidden := fun l (below : l < s.cfg.nLayer) => stored.width (Nat.zero_lt_of_lt below)
  have layers := stored.layers
  have head := lmHead_settles (R:=R) stored.head
  cases ws with
  | llama w =>
    refine Settles.built (.require fun _ => (embedded_settles _ _).after fun cur => ?_) built
    refine builder_settles _ (fun l below cur => llamaLayer_settles (layers l below) (hidden l below) cur) (fun cur => ?_) cur
    exact (graphSetLayer_settles _).after fun _ => (graphRmsNorm_settles _ _).after head
  | qwen25 w =>
    refine Settles.built (.require fun _ => (embedded_settles _ _).after fun cur => ?_) built
    refine builder_settles _ (fun l below cur => qwen25Layer_settles (layers l below) (hidden l below) cur) (fun cur => ?_) cur
    exact (graphSetLayer_settles _).after fun _ => (graphRmsNorm_settles _ _).after head
  | gemma3 w =>
    refine Settles.built (.require fun _ => (embedded_settles _ _).after fun cur => (graphScale_settles _ _).after fun cur => ?_) built
    refine builder_settles _ (fun l below cur => gemma3Layer_settles (layers l below) (hidden l below) cur) (fun cur => ?_) cur
    refine (graphSetLayer_settles _).after fun _ => (graphRmsNorm_settles _ _).after fun fn => (head fn).before fun cur => ?_
    split
    · exact graphSoftcap_settles _ _
    · exact .pure cur
  | qwen35 w fused =>
    refine Settles.built (.require fun _ => .require fun _ => (embedded_settles _ _).after fun cur => ?_) built
    refine builder_settles _ (fun l below cur => qwen35Layer_settles (layers l below) (hidden l below) cur) (fun cur => ?_) cur
    exact (graphSetLayer_settles _).after fun _ => (graphRmsNorm_settles _ _).after head

-- A layer of two heads of width 2 over embeddings of width 4: with two KV heads,
-- K and V are square.
def someWeight (out input : Nat) : TensorInfo := ⟨⟨0,[]⟩,2,[out,input],0,0,none,out*input,4*out*input,input⟩

theorem someWeight_stored (outFits : out < 2^32) (inFits : input < 2^32) (positive : 0 < input) :
    StoredRows (someWeight out input) out input := ⟨rfl,rfl,outFits,inFits,positive⟩

def twoHeads (nKvHead : Nat) : ArchConfig := ⟨2,nKvHead,2,2,2,4,1,16⟩

def twoHeadsSession (nKvHead : Nat) : Session :=
  ⟨twoHeads nKvHead,8,0,
    fun role => if role = .outputNorm then some (someWeight 1 4)
      else (headShape (twoHeads nKvHead) role).map fun r => someWeight r.1 r.2,
    fun _ role => if role = .attnNorm ∨ role = .postAttnNorm then some (someWeight 1 4)
      else (denseShape (twoHeads nKvHead) 8 4 role).map fun r => someWeight r.1 r.2⟩

theorem twoHeads_stored (few : nKvHead = 1 ∨ nKvHead = 2) : StoredModel (twoHeadsSession nKvHead) (.llama ⟨8,0⟩) 8 := by
  rcases few with rfl | rfl <;>
    refine ⟨fun role out input present t there => ?_,fun l _ role out input present t there => ?_,fun _ => ⟨_,rfl⟩,rfl⟩ <;>
    cases role <;> cases present <;> cases there <;> exact someWeight_stored (by decide) (by decide) (by decide)

theorem squareKv_transposed : ∃ g, StoredModel (twoHeadsSession 2) (.llama ⟨8,0⟩) 8 ∧
    graphBuild (twoHeadsSession 2) (.llama ⟨8,0⟩) 1 = some g ∧ ¬∀ node ∈ g.nodes, node.isMatmul → RowsAreOutputs ℤ node := by
  have made : (graphBuild (twoHeadsSession 2) (.llama ⟨8,0⟩) 1).any (fun g => g.nodes.any fun node =>
      node.op = .matmulT ∧ node.weight 0 = some (someWeight 4 4)) = true := by decide +kernel
  obtain ⟨g,built,found⟩ := (Option.any_eq_true _ _).mp made
  obtain ⟨node,listed,both⟩ := List.any_eq_true.mp found
  obtain ⟨op,weight⟩ := of_decide_eq_true both
  refine ⟨g,twoHeads_stored (.inr rfl),built,fun right => ?_⟩
  obtain ⟨w,same,multiplies⟩ := right node listed (by simp [GraphNode.isMatmul,op])
  obtain rfl := Option.some.inj (weight.symm.trans same)
  have transposed : Multiplies ℤ (someWeight 4 4) true := by
    intro W X old base r some'
    have row := multiplies W X old base r some'
    simpa only [opMatmul,weight,op,decide_true] using row
  have one := (multiplies_transposed (someWeight_stored (by decide) (by decide) (by decide))).mp transposed
  exact absurd one.1 (by decide)

theorem orientation_grouped : ∃ g, graphBuild (twoHeadsSession 1) (.llama ⟨8,0⟩) 1 = some g ∧
    ((∀ node ∈ g.nodes, node.isMatmul → RowsAreOutputs ℤ node) ↔ Oriented (twoHeadsSession 1) (.llama ⟨8,0⟩) 8) := by
  have made : (graphBuild (twoHeadsSession 1) (.llama ⟨8,0⟩) 1).isSome = true := by decide +kernel
  obtain ⟨g,built⟩ := Option.isSome_iff_exists.mp made
  exact ⟨g,built,orientation_iff (twoHeads_stored (.inl rfl)) built⟩

end whole

end TinyLlama.Graph
