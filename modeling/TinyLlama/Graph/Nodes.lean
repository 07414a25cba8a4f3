import TinyLlama.Graph.Widths

namespace TinyLlama.Graph
open Gguf

-- The input a projection reads with its flag, and the outputs it makes.
def takes (t : TensorInfo) (trans : Bool) : Nat := u32 (t.dim.getD (if trans then 0 else 1) 0)
def gives (t : TensorInfo) (trans : Bool) : Nat := u32 (t.dim.getD (if trans then 1 else 0) 0)

def embedWidth (c : ArchConfig) (te : TensorInfo) : Nat :=
  if te.dim.getD 0 0 = c.nVocab then u32 (te.dim.getD 1 0) else u32 (te.dim.getD 0 0)

-- Head counts and widths whose products do not wrap, as attention needs them.
structure HeadsFit (c : ArchConfig) : Prop where
  queries : c.nHead*c.headDim < 2^32
  keys : c.nKvHead*c.kvHeadDim < 2^32
  narrower : c.kvHeadDim ≤ c.headDim

def GraphOp.plain : GraphOp → Bool
  | .silu | .gelu | .scale | .softcap | .bias | .ropeNeox | .ropeNorm | .d2h | .ssmConv => true
  | _ => false

section ranges

theorem headRanges_inside (heads stride off len : Nat) (fits : off+len ≤ stride) :
    ∀ r ∈ headRanges heads stride off len, r.1+r.2 ≤ heads*stride := by
  intro r listed
  obtain ⟨h,below,rfl⟩ := List.mem_map.mp listed
  have next := Nat.mul_le_mul_right stride (Nat.succ_le_of_lt (List.mem_range.mp below))
  rw [Nat.succ_mul] at next
  change h*stride+off+len ≤ heads*stride
  omega

theorem convTouches_inside (kernel channels : Nat) :
    ∀ t ∈ convTouches kernel channels, t.1+t.2 ≤ (kernel-1)*channels := by
  intro t listed
  rcases List.mem_append.mp listed with tap | moved
  · obtain ⟨k,below,inner⟩ := List.mem_flatMap.mp tap
    obtain ⟨ch,inside,rfl⟩ := List.mem_map.mp inner
    have next := Nat.mul_le_mul_right channels (Nat.succ_le_of_lt (List.mem_range.mp below))
    have wrapped : u32 (k*channels+ch) ≤ k*channels+ch := Nat.mod_le _ _
    have inside := List.mem_range.mp inside
    rw [Nat.succ_mul] at next
    change u32 (k*channels+ch)+1 ≤ (kernel-1)*channels
    omega
  · split at moved
    · next several =>
      obtain ⟨k,rfl⟩ : ∃ k, kernel = k+2 := ⟨kernel-2,by omega⟩
      have wrapped : u32 ((k+2-2)*channels) ≤ (k+2-2)*channels := Nat.mod_le _ _
      rw [Nat.add_sub_cancel] at wrapped moved
      rw [show k+2-1 = k+1 from rfl,Nat.succ_mul]
      rcases List.mem_append.mp moved with shifted | newest
      · split at shifted
        · rcases List.mem_cons.mp shifted with rfl | last
          · change 0+u32 (k*channels) ≤ _
            omega
          · cases List.mem_singleton.mp last
            change channels+u32 (k*channels) ≤ _
            omega
        · cases shifted
      · cases List.mem_singleton.mp newest
        change u32 (k*channels)+channels ≤ _
        omega
    · cases moved

theorem mambaChannels_inside (nHead headDim : Nat) : ∀ i ∈ mambaChannels nHead headDim, i < nHead*headDim := by
  intro i listed
  obtain ⟨h,below,inner⟩ := List.mem_flatMap.mp listed
  obtain ⟨d,inside,rfl⟩ := List.mem_map.mp inner
  have next := Nat.mul_le_mul_right headDim (Nat.succ_le_of_lt (List.mem_range.mp below))
  have wrapped : u32 (h*headDim+d) ≤ h*headDim+d := Nat.mod_le _ _
  have inside := List.mem_range.mp inside
  rw [Nat.succ_mul] at next
  omega

theorem groupRanges_inside {nHead nGroup : Nat} (even : nHead%nGroup = 0) (dState off : Nat) :
    ∀ r ∈ groupRanges nHead nGroup dState off, r.1+r.2 ≤ off+nGroup*dState := by
  intro r listed
  obtain ⟨h,below,rfl⟩ := List.mem_map.mp listed
  have below := List.mem_range.mp below
  have heads : nGroup*(nHead/nGroup) = nHead := Nat.mul_div_cancel' (Nat.dvd_of_mod_eq_zero even)
  have group : h/(nHead/nGroup) < nGroup := by
    refine Nat.div_lt_of_lt_mul ?_
    rw [Nat.mul_comm,heads]
    exact below
  have next := Nat.mul_le_mul_right dState (Nat.succ_le_of_lt group)
  rw [Nat.succ_mul] at next
  change off+h/(nHead/nGroup)*dState+dState ≤ off+nGroup*dState
  omega

end ranges

section agree
variable {c : ArchConfig} {bytes : Nat → Nat} {g : Graph}

theorem ranges_agree {n : GraphNode} {k i w stride : Nat} {ranges : List (Nat × Nat)} (src : (n.src[k]?).join = some i)
    (holds : (Known.width i w).Holds c bytes g) (same : stride = w) (inside : ∀ r ∈ ranges, r.1+r.2 ≤ w) :
    ∀ read ∈ rangesOf n k stride ranges,
      read.src < g.nodes.length ∧ rowWidth c g read.src = read.stride ∧ read.off+read.len ≤ read.stride := by
  subst same
  intro read listed
  rw [rangesOf,src] at listed
  obtain ⟨r,present,rfl⟩ := List.mem_map.mp listed
  exact ⟨holds.1,holds.row,inside r present⟩

theorem row_agree {n : GraphNode} {k i w stride : Nat} (src : (n.src[k]?).join = some i)
    (holds : (Known.width i w).Holds c bytes g) (same : stride = w) : ∀ read ∈ rangesOf n k stride [(0,stride)],
      read.src < g.nodes.length ∧ rowWidth c g read.src = read.stride ∧ read.off+read.len ≤ read.stride := by
  refine ranges_agree src holds same fun r listed => ?_
  cases List.mem_singleton.mp listed
  change 0+stride ≤ w
  omega

end agree

section constructors
variable {c : ArchConfig} {bytes : Nat → Nat} {K : List Known} {src w : Nat}

theorem graphInput_keeps (nTokens : Nat) : Keeps c bytes K (graphInput nTokens) fun i => [.tokens i] := by
  intro g a g' sound known run
  unfold graphInput at run
  split at run
  · cases run
  · cases run
    have agree : Agree c bytes g ⟨.input,g.curLayer,.cpu,[],[],[],nTokens⟩ 0 :=
      ⟨fun _ listed => (by cases listed),fun _ listed => by cases listed⟩
    refine ⟨sound.concat agree,fun f listed => ?_⟩
    rcases List.mem_cons.mp listed with rfl | old
    · refine ⟨?_,?_⟩
      · change _ < (g.nodes++[_]).length
        simp
      · change isInput (g.nodes++[_]) g.nodes.length = true
        rw [isInput,List.getElem?_concat_length]
        rfl
    · exact (Extends.node g _).holds f (known f old)

theorem graphEmbed_keeps (te : TensorInfo) (nTokens : Nat) (tokens : .tokens src ∈ K) :
    Keeps c bytes K (graphEmbed src te nTokens) fun i => [.width i (embedWidth c te)] := by
  refine .require fun _ => .get fun g => ?_
  split
  · exact .fails
  · refine .require fun _ => nodeAdd_keeps (by decide) fun g layer known => ⟨rfl,?_,fun _ listed => by cases listed⟩
    intro read listed
    cases List.mem_singleton.mp listed
    exact ⟨(known _ tokens).1,(known _ tokens).token,Nat.le_refl _⟩

theorem plain_keeps {op : GraphOp} (plain : op.plain = true) (other : op ≠ .ssmConv) (weights : List (Option TensorInfo))
    (params : List Nat) (known : .width src w ∈ K) : Keeps c bytes K (nodeAdd op [src] weights params) fun i => [.width i w] := by
  refine nodeAdd_keeps (fun same => by subst same; cases plain) fun g layer holds => ⟨?_,?_,?_⟩
  · have width := (holds _ known).2.2
    cases op <;> first | exact width | cases plain
  · have rows := row_agree (n:=addedNode op layer [src] weights params) (k:=0) rfl (holds _ known) rfl
    cases op <;> first | exact rows | cases plain
  · intro t listed
    cases op <;> first | exact absurd rfl other | cases listed | cases plain

theorem graphSilu_keeps (known : .width src w ∈ K) : Keeps c bytes K (graphSilu src) fun i => [.width i w] :=
  plain_keeps rfl (by decide) _ _ known

theorem graphGelu_keeps (known : .width src w ∈ K) : Keeps c bytes K (graphGelu src) fun i => [.width i w] :=
  plain_keeps rfl (by decide) _ _ known

theorem graphScale_keeps (scale : Nat) (known : .width src w ∈ K) : Keeps c bytes K (graphScale src scale) fun i => [.width i w] :=
  plain_keeps rfl (by decide) _ _ known

theorem graphSoftcap_keeps (cap : Nat) (known : .width src w ∈ K) : Keeps c bytes K (graphSoftcap src cap) fun i => [.width i w] :=
  .require fun _ => plain_keeps rfl (by decide) _ _ known

theorem addBias_keeps (bias : Option TensorInfo) (known : .width src w ∈ K) : Keeps c bytes K (addBias src bias) fun i => [.width i w] := by
  cases bias with
  | none => exact .pure src fun f listed => by cases List.mem_singleton.mp listed; exact known
  | some b => exact .require fun _ => plain_keeps rfl (by decide) _ _ known

theorem graphRope_keeps (theta nHeads headDim ropeDim : Nat) (known : .width src w ∈ K) :
    Keeps c bytes K (graphRope src theta nHeads headDim ropeDim) fun i => [.width i w] :=
  .require fun _ => plain_keeps rfl (by decide) _ _ known

theorem graphRopeNorm_keeps (theta nHeads headDim ropeDim : Nat) (known : .width src w ∈ K) :
    Keeps c bytes K (graphRopeNorm src theta nHeads headDim ropeDim) fun i => [.width i w] :=
  .require fun _ => plain_keeps rfl (by decide) _ _ known

theorem graphLayerBoundary_keeps (s : Session) (layer : Nat) (known : .width src w ∈ K) :
    Keeps c bytes K (graphLayerBoundary src s layer) fun i => [.width i w] := by
  have stays : Keeps c bytes K (pure src : Build Nat) fun i => [.width i w] :=
    .pure src fun f listed => by cases List.mem_singleton.mp listed; exact known
  unfold graphLayerBoundary
  split
  · exact stays
  · split
    · exact stays
    · exact plain_keeps rfl (by decide) _ _ known

theorem graphRmsNorm_keeps (weight : Option TensorInfo) (known : .width src w ∈ K)
    (elements : ∀ t, weight = some t → u32 t.nElement = w) : Keeps c bytes K (graphRmsNorm src weight) fun i => [.width i w] := by
  refine .given fun t there => nodeAdd_keeps (by decide) fun g layer holds => ⟨elements t there,?_,fun _ listed => by cases listed⟩
  have rows := row_agree (n:=addedNode .rmsNorm layer [src] [some t] []) (k:=0) rfl (holds _ known) rfl
  exact rows

theorem graphMulMat_keeps (t : TensorInfo) (trans : Bool) (known : .width src w ∈ K) (input : takes t trans = w) :
    Keeps c bytes K (graphMulMat src t trans) fun i => [.width i (gives t trans)] := by
  refine .require fun _ => ?_
  refine nodeAdd_keeps (by cases trans <;> decide) fun g layer holds => ?_
  have rows := row_agree (n:=addedNode (if trans then .matmulT else .matmul) layer [src] [some t] []) (k:=0) rfl (holds _ known) input
  cases trans
  · exact ⟨rfl,rows,fun _ listed => by cases listed⟩
  · exact ⟨rfl,rows,fun _ listed => by cases listed⟩

theorem graphBinary_keeps {a b : Nat} (op : GraphOp) (left : .width a w ∈ K) (right : .width b w ∈ K) :
    Keeps c bytes K (graphBinary op a b) fun i => [.width i w] := by
  refine .require fun allowed => ?_
  have both : op = .add ∨ op = .mul := of_decide_eq_true allowed
  refine nodeAdd_keeps (by rcases both with rfl | rfl <;> decide) fun g layer holds => ?_
  have rows := List.forall_mem_append.mpr
    ⟨row_agree (n:=addedNode op layer [a,b] [] []) (k:=0) rfl (holds _ left) rfl,
      row_agree (n:=addedNode op layer [a,b] [] []) (k:=1) rfl (holds _ right) rfl⟩
  rcases both with rfl | rfl
  · exact ⟨(holds _ left).2.2,rows,fun _ listed => by cases listed⟩
  · exact ⟨(holds _ left).2.2,rows,fun _ listed => by cases listed⟩

theorem graphRmsNormHeads_keeps {weight : Option TensorInfo} {nHeads headDim inStride outStride : Nat}
    (small : nHeads < 2^32 ∧ headDim < 2^32 ∧ inStride < 2^32 ∧ outStride < 2^32)
    (known : .width src w ∈ K) (heads : nHeads*inStride = w) :
    Keeps c bytes K (graphRmsNormHeads src weight nHeads headDim inStride outStride)
      fun i => [.width i (u32 (nHeads*outStride))] := by
  refine .given fun t _ => .require fun _ => .require fun strides => ?_
  have strides : inStride ≥ headDim ∧ outStride ≥ headDim := of_decide_eq_true strides
  refine nodeAdd_keeps (by decide) fun g layer holds => ?_
  have stored : [nHeads,headDim,inStride,outStride].map u32 = [nHeads,headDim,inStride,outStride] := by
    simp only [List.map_cons,List.map_nil,u32_of_lt small.1,u32_of_lt small.2.1,u32_of_lt small.2.2.1,u32_of_lt small.2.2.2]
  have inside := headRanges_inside nHeads inStride 0 headDim (by omega)
  rw [heads] at inside
  rw [addedNode,stored]
  refine ⟨rfl,?_,fun _ listed => by cases listed⟩
  exact ranges_agree (n:=⟨.rmsNormHeads,layer,.cpu,[some src],[some t],[nHeads,headDim,inStride,outStride],0⟩) (k:=0) rfl
    (holds _ known) heads inside

theorem graphSigmoidGate_keeps {a gate nHeads headDim : Nat} (fits : nHeads*headDim < 2^32)
    (small : nHeads < 2^32 ∧ headDim < 2^32) (left : .width a (nHeads*headDim) ∈ K)
    (right : .width gate (nHeads*(2*headDim)) ∈ K) :
    Keeps c bytes K (graphSigmoidGate a gate nHeads headDim) fun i => [.width i (nHeads*headDim)] := by
  refine .require fun _ => nodeAdd_keeps (by decide) fun g layer holds => ?_
  have stored : [nHeads,headDim].map u32 = [nHeads,headDim] := by
    simp only [List.map_cons,List.map_nil,u32_of_lt small.1,u32_of_lt small.2]
  have whole := headRanges_inside nHeads headDim 0 headDim (by omega)
  have half := headRanges_inside nHeads (2*headDim) headDim headDim (by omega)
  rw [addedNode,stored]
  refine ⟨u32_of_lt fits,List.forall_mem_append.mpr ⟨?_,?_⟩,fun _ listed => by cases listed⟩
  · exact ranges_agree (n:=⟨.sigmoidGate,layer,.cpu,[some a,some gate],[],[nHeads,headDim],0⟩) (k:=0) rfl
      (holds _ left) rfl whole
  · exact ranges_agree (n:=⟨.sigmoidGate,layer,.cpu,[some a,some gate],[],[nHeads,headDim],0⟩) (k:=1) rfl
      (holds _ right) (Nat.mul_assoc _ _ _) half

theorem graphAttn_keeps {q k v : Nat} (layer window : Nat) (heads : HeadsFit c) (query : .width q (qDim c) ∈ K)
    (key : .width k (kvDim c) ∈ K) (value : .width v (kvDim c) ∈ K) :
    Keeps c bytes K (graphAttn q k v layer window) fun i => [.width i (qDim c)] := by
  refine nodeAdd_keeps (by decide) fun g at' holds => ⟨rfl,?_,fun _ listed => by cases listed⟩
  have queries := headRanges_inside c.nHead c.headDim 0 c.kvHeadDim (by have := heads.narrower; omega)
  have keys := headRanges_inside c.nKvHead c.kvHeadDim 0 c.kvHeadDim (by omega)
  have qWidth : c.nHead*c.headDim = qDim c := (u32_of_lt heads.queries).symm
  have kvWidth : c.nKvHead*c.kvHeadDim = kvDim c := (u32_of_lt heads.keys).symm
  rw [qWidth] at queries
  rw [kvWidth] at keys
  refine List.forall_mem_append.mpr ⟨List.forall_mem_append.mpr ⟨?_,?_⟩,?_⟩
  · exact ranges_agree (n:=addedNode .attn at' [q,k,v] [] [layer,window]) (k:=0) rfl (holds _ query) rfl queries
  · exact ranges_agree (n:=addedNode .attn at' [q,k,v] [] [layer,window]) (k:=1) rfl (holds _ key) rfl keys
  · exact ranges_agree (n:=addedNode .attn at' [q,k,v] [] [layer,window]) (k:=2) rfl (holds _ value) rfl keys

end constructors

section states
variable {c : ArchConfig} {bytes : Nat → Nat} {K : List Known} {src w state size : Nat}

theorem graphSsmConv_keeps (t : TensorInfo) (small : kernel < 2^32) (known : .width src w ∈ K) (held : .state state size ∈ K)
    (room : 4*((kernel-1)*w) ≤ size) : Keeps c bytes K (graphSsmConv src t state kernel) fun i => [.width i w] := by
  refine .require fun _ => .get fun _ => .require fun _ => nodeAdd_keeps (by decide) fun g layer holds => ?_
  have rows := row_agree (n:=addedNode .ssmConv layer [src] [some t] [state,kernel]) (k:=0) rfl (holds _ known) rfl
  refine ⟨(holds _ known).2.2,rows,fun touch listed => ⟨state,(holds _ held).1,rfl,?_⟩⟩
  have inside := convTouches_inside (u32 kernel) w touch listed
  rw [u32_of_lt small] at inside
  rw [(holds _ held).2]
  omega

theorem graphSsmDelta_keeps (args : GraphSsmDelta) (small : args.nVHeads < 2^32 ∧ args.nKHeads < 2^32 ∧ args.headDim < 2^32)
    (fused : .width args.fused (2*u32 (args.nKHeads*args.headDim)+args.nVHeads*args.headDim) ∈ K)
    (alpha : .width args.alpha args.nVHeads ∈ K) (beta : .width args.beta args.nVHeads ∈ K) (held : .state args.state size ∈ K)
    (room : 4*(args.nVHeads*(args.headDim*args.headDim)) ≤ size) :
    Keeps c bytes K (graphSsmDelta args) fun i => [.width i (u32 (args.nVHeads*args.headDim))] := by
  obtain ⟨f,a,b,ssmA,dtBias,weight,st,nV,nK,hd⟩ := args
  refine .require fun _ => .require fun _ => .get fun _ => .require fun _ => nodeAdd_keeps (by decide) fun g layer holds => ?_
  dsimp only at small fused alpha beta held room ⊢
  have stored : [st,nV,nK,hd].map u32 = [u32 st,nV,nK,hd] := by
    simp only [List.map_cons,List.map_nil,u32_of_lt small.1,u32_of_lt small.2.1,u32_of_lt small.2.2]
  rw [addedNode,stored]
  refine ⟨rfl,List.forall_mem_append.mpr ⟨List.forall_mem_append.mpr ⟨?_,?_⟩,?_⟩,fun touch listed => ⟨st,(holds _ held).1,rfl,?_⟩⟩
  · exact row_agree (n:=⟨.ssmDelta,layer,.cpu,[some f,some a,some b],[some ssmA,some dtBias,weight],[u32 st,nV,nK,hd],0⟩)
      (k:=0) rfl (holds _ fused) rfl
  · exact row_agree (n:=⟨.ssmDelta,layer,.cpu,[some f,some a,some b],[some ssmA,some dtBias,weight],[u32 st,nV,nK,hd],0⟩)
      (k:=1) rfl (holds _ alpha) rfl
  · exact row_agree (n:=⟨.ssmDelta,layer,.cpu,[some f,some a,some b],[some ssmA,some dtBias,weight],[u32 st,nV,nK,hd],0⟩)
      (k:=2) rfl (holds _ beta) rfl
  · have inside := headRanges_inside nV (hd*hd) 0 (hd*hd) (by omega) touch listed
    rw [(holds _ held).2]
    omega

-- The geometry of a Mamba2 layer, in numbers that its u32 products hold.
structure MambaFits (dInner nGroup dState nHead : Nat) : Prop where
  conv : dInner+2*nGroup*dState < 2^32
  proj : dInner+2*nGroup*dState+dInner+nHead < 2^32

theorem MambaFits.convDim (fits : MambaFits dInner nGroup dState nHead) :
    mambaConvDim dInner nGroup dState = dInner+2*nGroup*dState := u32_of_lt fits.conv

theorem MambaFits.projWidth (fits : MambaFits dInner nGroup dState nHead) :
    mambaProjWidth dInner nGroup dState nHead = dInner+2*nGroup*dState+dInner+nHead := by
  rw [mambaProjWidth,fits.convDim,u32_of_lt fits.proj]

theorem graphMamba2Conv_keeps (t : TensorInfo) (bias : Option TensorInfo) (args : Mamba2Conv)
    (small : args.kernel < 2^32 ∧ args.dInner < 2^32 ∧ args.nGroup < 2^32 ∧ args.dState < 2^32 ∧ args.nHead < 2^32)
    (fits : MambaFits args.dInner args.nGroup args.dState args.nHead)
    (known : .width src (mambaProjWidth args.dInner args.nGroup args.dState args.nHead) ∈ K) (held : .state args.state size ∈ K)
    (room : 4*((args.kernel-1)*mambaConvDim args.dInner args.nGroup args.dState) ≤ size) :
    Keeps c bytes K (graphMamba2Conv src t bias args) fun i => [.width i (mambaConvDim args.dInner args.nGroup args.dState)] := by
  obtain ⟨st,kernel,dInner,nGroup,dState,nHead⟩ := args
  refine .require fun _ => .require fun _ => .get fun _ => .require fun _ => nodeAdd_keeps (by decide) fun g layer holds => ?_
  dsimp only at small fits known held room ⊢
  obtain ⟨taps,inner,groups,states,heads⟩ := small
  have stored : [st,kernel,dInner,nGroup,dState,nHead].map u32 = [u32 st,kernel,dInner,nGroup,dState,nHead] := by
    simp only [List.map_cons,List.map_nil,u32_of_lt taps,u32_of_lt inner,u32_of_lt groups,u32_of_lt states,u32_of_lt heads]
  rw [addedNode,stored]
  refine ⟨rfl,?_,fun touch listed => ⟨st,(holds _ held).1,rfl,?_⟩⟩
  · refine ranges_agree (n:=⟨.mamba2Conv,layer,.cpu,[some src],[some t,bias],[u32 st,kernel,dInner,nGroup,dState,nHead],0⟩)
      (k:=0) rfl (holds _ known) rfl fun r listed => ?_
    cases List.mem_singleton.mp listed
    change dInner+mambaConvDim dInner nGroup dState ≤ _
    rw [fits.convDim,fits.projWidth]
    omega
  · have inside := convTouches_inside kernel (mambaConvDim dInner nGroup dState) touch listed
    rw [(holds _ held).2]
    omega

theorem graphMamba2Scan_keeps {conv proj : Nat} (ssmA ssmD dtBias : TensorInfo) (weight : Option TensorInfo) (args : Mamba2Scan)
    (small : args.nHead < 2^32 ∧ args.headDim < 2^32 ∧ args.dState < 2^32 ∧ args.nGroup < 2^32 ∧ args.dInner < 2^32)
    (fits : MambaFits args.dInner args.nGroup args.dState args.nHead) (split : args.nHead*args.headDim ≤ args.dInner)
    (known : .width conv (mambaConvDim args.dInner args.nGroup args.dState) ∈ K)
    (known' : .width proj (mambaProjWidth args.dInner args.nGroup args.dState args.nHead) ∈ K) (held : .state args.state size ∈ K)
    (room : 4*(args.nHead*args.headDim*args.dState) ≤ size) :
    Keeps c bytes K (graphMamba2Scan conv proj ssmA ssmD dtBias weight args) fun i => [.width i args.dInner] := by
  obtain ⟨st,nHead,headDim,dState,nGroup,dInner⟩ := args
  refine .require fun _ => .require fun even => .get fun _ => .require fun _ =>
    nodeAdd_keeps (by decide) fun g layer holds => ?_
  dsimp only at small fits split known known' held room even ⊢
  have even : nHead%nGroup = 0 ∧ u32 (nHead*headDim) = dInner := of_decide_eq_true even
  obtain ⟨heads,widths,states,groups,inner⟩ := small
  have product' : nHead*headDim = dInner := by
    rw [u32_of_lt (lt_of_le_of_lt split inner)] at even
    exact even.2
  have stored : [st,nHead,headDim,dState,nGroup,dInner].map u32 = [u32 st,nHead,headDim,dState,nGroup,dInner] := by
    simp only [List.map_cons,List.map_nil,u32_of_lt heads,u32_of_lt widths,u32_of_lt states,u32_of_lt groups,u32_of_lt inner]
  rw [addedNode,stored]
  have convDim := fits.convDim
  have projWidth := fits.projWidth
  have channels := mambaChannels_inside nHead headDim
  rw [product'] at channels room
  have product : 2*nGroup*dState = nGroup*dState+nGroup*dState := by rw [Nat.mul_assoc,Nat.two_mul]
  have wrapped : u32 (nGroup*dState) ≤ nGroup*dState := Nat.mod_le _ _
  have inConv : ∀ r ∈ (mambaChannels nHead headDim).map (fun i => (i,1))++groupRanges nHead nGroup dState dInner++
      groupRanges nHead nGroup dState (dInner+u32 (nGroup*dState)), r.1+r.2 ≤ mambaConvDim dInner nGroup dState := by
    rw [convDim]
    refine List.forall_mem_append.mpr ⟨List.forall_mem_append.mpr ⟨fun r listed => ?_,fun r listed => ?_⟩,fun r listed => ?_⟩
    · obtain ⟨i,present,rfl⟩ := List.mem_map.mp listed
      have := channels i present
      change i+1 ≤ _
      omega
    · have := groupRanges_inside even.1 dState dInner r listed
      omega
    · have := groupRanges_inside even.1 dState (dInner+u32 (nGroup*dState)) r listed
      omega
  have inProj : ∀ r ∈ (mambaChannels nHead headDim).map (fun i => (i,1))++
      headRanges nHead 1 (dInner+mambaConvDim dInner nGroup dState) 1,
      r.1+r.2 ≤ mambaProjWidth dInner nGroup dState nHead := by
    rw [projWidth,convDim]
    refine List.forall_mem_append.mpr ⟨fun r listed => ?_,fun r listed => ?_⟩
    · obtain ⟨i,present,rfl⟩ := List.mem_map.mp listed
      have := channels i present
      change i+1 ≤ _
      omega
    · obtain ⟨h,below,rfl⟩ := List.mem_map.mp listed
      have below := List.mem_range.mp below
      change h*1+(dInner+(dInner+2*nGroup*dState))+1 ≤ _
      omega
  refine ⟨rfl,List.forall_mem_append.mpr ⟨?_,?_⟩,fun touch listed => ⟨st,(holds _ held).1,rfl,?_⟩⟩
  · exact ranges_agree (n:=⟨.mamba2Scan,layer,.cpu,[some conv,some proj],[some ssmA,some ssmD,some dtBias,weight],
      [u32 st,nHead,headDim,dState,nGroup,dInner],0⟩) (k:=0) rfl (holds _ known) rfl inConv
  · exact ranges_agree (n:=⟨.mamba2Scan,layer,.cpu,[some conv,some proj],[some ssmA,some ssmD,some dtBias,weight],
      [u32 st,nHead,headDim,dState,nGroup,dInner],0⟩) (k:=1) rfl (holds _ known') rfl inProj
  · obtain ⟨i,present,rfl⟩ := List.mem_map.mp listed
    have next := Nat.mul_le_mul_right dState (Nat.succ_le_of_lt (channels i present))
    rw [Nat.succ_mul] at next
    rw [(holds _ held).2]
    change 4*(i*dState+dState) ≤ size
    omega

end states

end TinyLlama.Graph
