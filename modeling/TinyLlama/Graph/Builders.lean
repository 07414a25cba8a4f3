import TinyLlama.Lib.Triples
import TinyLlama.Graph.Meaning
import TinyLlama.Graph.Mamba
import TinyLlama.Graph.Widths

namespace TinyLlama.Graph
open Gguf Causal Triples

def Adds (b : Build Nat) (op : GraphOp) (src : List Nat) (weights : List (Option TensorInfo)) (params : List Nat) : Prop :=
  ∀ g a g',b g = some (a,g') → a = g.nodes.length ∧ g' = {g with nodes:=g.nodes++[addedNode op g.curLayer src weights params]}

section adds
variable {op : GraphOp} {sources : List Nat} {weights : List (Option TensorInfo)} {params : List Nat} {src : Nat}

theorem nodeAdd_adds : Adds (nodeAdd op sources weights params) op sources weights params := by
  intro g a g' run
  cases run
  exact ⟨rfl,rfl⟩

theorem Adds.require {condition : Bool} {k : Unit → Build Nat} (rest : condition = true → Adds (k ()) op sources weights params) :
    Adds (Graph.require condition >>= k) op sources weights params := by
  intro g a g' run
  obtain ⟨⟨_,g₁⟩,start,later⟩ := Option.bind_eq_some_iff.mp run
  unfold Graph.require at start
  split at start
  · next holds =>
    cases start
    exact rest holds g a g' later
  · cases start

theorem Adds.get {k : Graph → Build Nat} (rest : ∀ g,Adds (k g) op sources weights params) :
    Adds (MonadState.get >>= k) op sources weights params :=
  fun g a g' run => rest g g a g' run

theorem Adds.given {t : TensorInfo} {k : TensorInfo → Build Nat} (rest : Adds (k t) op sources weights params) :
    Adds (Graph.given (some t) >>= k) op sources weights params :=
  fun g a g' run => rest g a g' run

theorem graphEmbed_adds (weight : TensorInfo) (nTokens : Nat) : Adds (graphEmbed src weight nTokens) .embed [src] [weight] [] := by
  refine .require fun _ => .get fun g => ?_
  cases g.nodes[src]? with
  | none => exact fun _ _ _ run => by cases run
  | some input => exact .require fun _ => nodeAdd_adds

theorem graphRmsNorm_adds (weight : TensorInfo) : Adds (graphRmsNorm src (some weight)) .rmsNorm [src] [weight] [] := nodeAdd_adds

theorem graphRmsNormHeads_adds (weight : TensorInfo) (nHeads headDim inStride outStride : Nat) :
    Adds (graphRmsNormHeads src (some weight) nHeads headDim inStride outStride) .rmsNormHeads [src] [weight]
      [nHeads,headDim,inStride,outStride] :=
  .given (.require fun _ => .require fun _ => nodeAdd_adds)

theorem graphMulMat_adds (weight : TensorInfo) (trans : Bool) :
    Adds (graphMulMat src weight trans) (if trans then .matmulT else .matmul) [src] [weight] [] := .require fun _ => nodeAdd_adds

theorem graphBinary_adds (op : GraphOp) (a b : Nat) : Adds (graphBinary op a b) op [a,b] [] [] := .require fun _ => nodeAdd_adds

theorem graphSilu_adds : Adds (graphSilu src) .silu [src] [] [] := nodeAdd_adds

theorem graphGelu_adds : Adds (graphGelu src) .gelu [src] [] [] := nodeAdd_adds

theorem graphScale_adds (scale : Nat) : Adds (graphScale src scale) .scale [src] [] [scale] := nodeAdd_adds

theorem graphSoftcap_adds (cap : Nat) : Adds (graphSoftcap src cap) .softcap [src] [] [cap] := .require fun _ => nodeAdd_adds

theorem graphBias_adds (bias : TensorInfo) : Adds (graphBias src bias) .bias [src] [bias] [] := .require fun _ => nodeAdd_adds

theorem graphSigmoidGate_adds (a gate nHeads headDim : Nat) :
    Adds (graphSigmoidGate a gate nHeads headDim) .sigmoidGate [a,gate] [] [nHeads,headDim] := .require fun _ => nodeAdd_adds

theorem graphSsmConv_adds (weight : TensorInfo) (state kernel : Nat) :
    Adds (graphSsmConv src weight state kernel) .ssmConv [src] [weight] [state,kernel] :=
  .require fun _ => .get fun _ => .require fun _ => nodeAdd_adds

theorem graphSsmDelta_adds (args : GraphSsmDelta) :
    Adds (graphSsmDelta args) .ssmDelta [args.fused,args.alpha,args.beta] [args.ssmA,args.dtBias,args.norm]
      [args.state,args.nVHeads,args.nKHeads,args.headDim] :=
  .require fun _ => .require fun _ => .get fun _ => .require fun _ => nodeAdd_adds

theorem graphMamba2Conv_adds (weight : TensorInfo) (bias : Option TensorInfo) (args : Mamba2Conv) :
    Adds (graphMamba2Conv src weight bias args) .mamba2Conv [src] [weight,bias]
      [args.state,args.kernel,args.dInner,args.nGroup,args.dState,args.nHead] :=
  .require fun _ => .require fun _ => .get fun _ => .require fun _ => nodeAdd_adds

theorem graphMamba2Scan_adds {conv proj : Nat} (ssmA ssmD dtBias : TensorInfo) (norm : Option TensorInfo) (args : Mamba2Scan) :
    Adds (graphMamba2Scan conv proj ssmA ssmD dtBias norm args) .mamba2Scan [conv,proj] [ssmA,ssmD,dtBias,norm]
      [args.state,args.nHead,args.headDim,args.dState,args.nGroup,args.dInner] :=
  .require fun _ => .require fun _ => .get fun _ => .require fun _ => nodeAdd_adds

theorem graphAttn_adds (q k v layer window : Nat) : Adds (graphAttn q k v layer window) .attn [q,k,v] [] [layer,window] := nodeAdd_adds

theorem ropeNode_adds (op : GraphOp) (theta nHeads headDim ropeDim : Nat) :
    Adds (ropeNode op src theta nHeads headDim ropeDim) op [src] [] [theta,nHeads,headDim,ropeDim] := .require fun _ => nodeAdd_adds

theorem graphLayerBoundary_adds (s : Session) (layer : Nat) :
    graphLayerBoundary src s layer = pure src ∨ Adds (graphLayerBoundary src s layer) .d2h [src] [] [0] := by
  unfold graphLayerBoundary
  split
  · exact .inl rfl
  · split
    · exact .inl rfl
    · exact .inr nodeAdd_adds

end adds

variable {β K : Type} (M : Meaning β K) (c : ArchConfig) (tok : Nat → Nat)

abbrev Spoken (β : Type) := Nat × Stream (List β)

def There (g : List GraphNode) (n : Spoken β) : Prop := n.1 < g.length ∧ M.output c tok g n.1 = n.2

-- From g to g': no node is lost, the new ones read earlier ones, and each of them and of the
-- nodes that were to be read is, but the node that is left.
structure Grew (g g' : List GraphNode) (reads : List (Spoken β)) (left : Spoken β) : Prop where
  more : ∃ added, g' = g++added
  there : There M c tok g' left
  back : ∀ i j,g.length ≤ i → some j ∈ sourcesOf g' i → j < i
  computes : ∀ i,g.length ≤ i → i < g'.length → isInput g' i = false
  read : ∀ i,(g.length ≤ i ∨ i ∈ reads.map Prod.fst) → i < g'.length → isSink g' i = true → i = left.1

-- A part of a builder over known nodes: those that it reads, and others that it may.
def Acts (b : Build Nat) (reads also : List (Spoken β)) (y : Stream (List β)) : Prop :=
  ∀ g a g',(∀ n ∈ reads++also,There M c tok g.nodes n) → b g = some (a,g') → Grew M c tok g.nodes g'.nodes reads (a,y)

def placed {α : Type} (known : List α) (n k : Nat) : Option α := known[n-1-k]?

-- Inside such a part, that began with `start`: the nodes so far, and which of them may be
-- unread, by their places.
structure Grown (start : List GraphNode) (reads known : List (Spoken β)) (unread : List Nat) (n : Nat) (g : Graph) : Prop where
  more : ∃ added, g.nodes = start++added
  places : known.length = n
  there : ∀ k ∈ known,There M c tok g.nodes k
  back : ∀ i j,start.length ≤ i → some j ∈ sourcesOf g.nodes i → j < i
  computes : ∀ i,start.length ≤ i → i < g.nodes.length → isInput g.nodes i = false
  unread : ∀ i,(start.length ≤ i ∨ i ∈ reads.map Prod.fst) → i < g.nodes.length → isSink g.nodes i = true →
    ∃ k ∈ unread,k < n ∧ placed (known.map Prod.fst) n k = some i

def Builds (start : List GraphNode) (reads known : List (Spoken β)) (unread : List Nat) (n : Nat) (b : Build Nat) (y : Stream (List β)) :
    Prop := Triple (Grown M c tok start reads known unread n) b fun a g => Grew M c tok start g.nodes reads (a,y)

section growth
variable {M : Meaning β K} {c : ArchConfig} {tok : Nat → Nat} {start g g' : List GraphNode} {reads known also : List (Spoken β)}
  {unread : List Nat} {n : Nat} {b : Build Nat} {y z : Stream (List β)}

theorem There.extend {k : Spoken β} (there : There M c tok g k) (more : ∃ added, g' = g++added) : There M c tok g' k := by
  obtain ⟨added,rfl⟩ := more
  refine ⟨?_,?_⟩
  · rw [List.length_append]
    have := there.1
    omega
  · rw [output_append added there.1]
    exact there.2

theorem sourcesOf_append (nodes added : List GraphNode) {i : Nat} (below : i < nodes.length) : sourcesOf (nodes++added) i = sourcesOf nodes i := by
  rw [sourcesOf,List.getElem?_append_left below,sourcesOf]

theorem isSink_append {nodes added : List GraphNode} {i : Nat} (sink : isSink (nodes++added) i = true) : isSink nodes i = true := by
  rw [isSink,List.all_append,Bool.and_eq_true] at sink
  exact sink.1

theorem Grown.step {start : List GraphNode} {positions : List Nat} {gr gr' : Graph} {a : Nat} {mine : List (Spoken β)}
    (grown : Grown M c tok start reads known unread n gr) (look : positions.map (placed known n) = mine.map some)
    (grew : Grew M c tok gr.nodes gr'.nodes mine (a,z)) :
    Grown M c tok start reads ((a,z) :: known) (unread.filter (fun k => !positions.contains k)++[n]) (n+1) gr' := by
  obtain ⟨added,more⟩ := grown.more
  obtain ⟨added',more'⟩ := grew.more
  have kept : gr.nodes.length ≤ gr'.nodes.length := by
    rw [more',List.length_append]
    omega
  have began : start.length ≤ gr.nodes.length := by
    rw [more,List.length_append]
    omega
  refine ⟨⟨added++added',by rw [more',more,List.append_assoc]⟩,congrArg (·+1) grown.places,fun k listed => ?_,
    fun i j late src => ?_,fun i late below => ?_,fun i mine' below sink => ?_⟩
  · cases listed with
    | head => exact grew.there
    | tail _ old => exact (grown.there k old).extend grew.more
  · by_cases old : i < gr.nodes.length
    · rw [more',sourcesOf_append _ _ old] at src
      exact grown.back i j late src
    · exact grew.back i j (not_lt.mp old) src
  · by_cases old : i < gr.nodes.length
    · rw [more',isInput_extend _ _ old]
      exact grown.computes i late old
    · exact grew.computes i (not_lt.mp old) below
  · have last : i = a → ∃ k ∈ unread.filter (fun k => !positions.contains k)++[n],k < n+1 ∧
        placed (((a,z) :: known).map Prod.fst) (n+1) k = some i := by
      rintro rfl
      refine ⟨n,List.mem_append_right _ (List.mem_singleton.mpr rfl),Nat.lt_succ_self n,?_⟩
      rw [placed,Nat.add_sub_cancel,Nat.sub_self]
      rfl
    by_cases old : i < gr.nodes.length
    · rw [more'] at sink
      obtain ⟨k,listed,inside,place⟩ := grown.unread i mine' old (isSink_append sink)
      rw [← more'] at sink
      by_cases took : k ∈ positions
      · apply last
        apply grew.read i (.inr ?_) below sink
        have found : placed known n k ∈ mine.map some := look ▸ List.mem_map.mpr ⟨k,took,rfl⟩
        obtain ⟨node,listed',same⟩ := List.mem_map.mp found
        rw [placed,List.getElem?_map,← placed,← same] at place
        exact List.mem_map.mpr ⟨node,listed',Option.some.inj place⟩
      · refine ⟨k,List.mem_append_left _ (List.mem_filter.mpr ⟨listed,by simpa using took⟩),by omega,?_⟩
        rw [placed,show n+1-1-k = (n-1-k)+1 by omega]
        exact place
    · exact last (grew.read i (.inl (not_lt.mp old)) below sink)

theorem grown_start {g : Graph} (there : ∀ k ∈ reads++also,There M c tok g.nodes k) :
    Grown M c tok g.nodes reads (reads++also).reverse (List.range reads.length) (reads++also).length g := by
  refine ⟨⟨[],(List.append_nil _).symm⟩,List.length_reverse,fun k listed => there k (List.mem_reverse.mp listed),fun i j late src => ?_,
    fun i late below => absurd below (not_lt.mpr late),fun i mine below sink => ?_⟩
  · rw [sourcesOf,List.getElem?_eq_none_iff.mpr late] at src
    cases src
  · have own := mine.resolve_left (not_le.mpr below)
    obtain ⟨k,inside,place⟩ := List.getElem_of_mem own
    rw [List.length_map] at inside
    have whole : (reads++also).length = reads.length+also.length := List.length_append
    refine ⟨k,List.mem_range.mpr inside,by omega,?_⟩
    rw [placed,List.map_reverse,List.getElem?_reverse (by rw [List.length_map]; omega),List.length_map,
      show (reads++also).length-1-((reads++also).length-1-k) = k by omega,List.map_append,
      List.getElem?_append_left (by rwa [List.length_map]),List.getElem?_eq_getElem (by rwa [List.length_map]),place]

theorem Grown.grew {start : List GraphNode} {gr : Graph} {a k : Nat} (grown : Grown M c tok start reads known unread n gr)
    (place : placed known n k = some (a,y)) (only : ∀ u ∈ unread,u = k) : Grew M c tok start gr.nodes reads (a,y) := by
  refine ⟨grown.more,grown.there _ (List.mem_of_getElem? place),grown.back,grown.computes,fun i mine below sink => ?_⟩
  obtain ⟨u,listed,_,place'⟩ := grown.unread i mine below sink
  rw [only u listed,placed,List.getElem?_map,← placed,place] at place'
  exact (Option.some.inj place').symm

theorem acts_of (few all : Nat) (length : reads.length = few) (length' : (reads++also).length = all)
    (builds : ∀ start,Builds M c tok start reads (reads++also).reverse (List.range few) all b y) : Acts M c tok b reads also y := by
  subst length length'
  exact fun g a g' there run => builds g.nodes g a g' (grown_start there) run

theorem Acts.weaken {reads' also' : List (Spoken β)} (acts : Acts M c tok b reads also y) (fewer : ∀ k ∈ reads',k ∈ reads)
    (there : ∀ k ∈ reads++also,k ∈ reads'++also') : Acts M c tok b reads' also' y := by
  intro g a g' known run
  have grew := acts g a g' (fun k listed => known k (there k listed)) run
  refine ⟨grew.more,grew.there,grew.back,grew.computes,fun i mine => grew.read i (mine.imp_right fun listed => ?_)⟩
  obtain ⟨k,member,same⟩ := List.mem_map.mp listed
  exact List.mem_map.mpr ⟨k,fewer k member,same⟩

theorem Acts.stay {k : Spoken β} : Acts M c tok (pure k.1 : Build Nat) [k] [] k.2 := by
  intro g a g' there run
  cases run
  refine ⟨⟨[],(List.append_nil _).symm⟩,there k List.mem_cons_self,fun i j late src => ?_,
    fun i late below => absurd below (not_lt.mpr late),fun i mine below _ => ?_⟩
  · rw [sourcesOf,List.getElem?_eq_none_iff.mpr late] at src
    cases src
  · exact List.mem_singleton.mp (mine.resolve_left (not_le.mpr below))

theorem Adds.acts {op : GraphOp} {weights : List (Option TensorInfo)} {params : List Nat} (adds : Adds b op (reads.map Prod.fst) weights params)
    (computes : op ≠ .input) : Acts M c tok b reads [] (M.stream c tok op weights (params.map u32) (reads.map fun k => some k.2)) := by
  intro g a g' there run
  rw [List.append_nil] at there
  obtain ⟨rfl,rfl⟩ := adds g a g' run
  have length : (g.nodes++[addedNode op g.curLayer (reads.map Prod.fst) weights params]).length = g.nodes.length+1 := by
    rw [List.length_append]
    rfl
  have earlier : ∀ j,some j ∈ (reads.map Prod.fst).map some → j < g.nodes.length := by
    intro j listed
    obtain ⟨i,listed',same⟩ := List.mem_map.mp listed
    obtain ⟨k,known,rfl⟩ := List.mem_map.mp listed'
    cases same
    exact (there k known).1
  have own : (g.nodes++[addedNode op g.curLayer (reads.map Prod.fst) weights params])[g.nodes.length]? =
      some (addedNode op g.curLayer (reads.map Prod.fst) weights params) := List.getElem?_concat_length
  refine ⟨⟨_,rfl⟩,⟨by rw [length]; exact Nat.lt_succ_self _,?_⟩,fun i j late src => ?_,fun i late below => ?_,fun i mine below sink => ?_⟩
  · dsimp only
    rw [output_node own earlier]
    change M.stream c tok op weights (params.map u32) _ = _
    congr 1
    change List.map _ (List.map some (reads.map Prod.fst)) = _
    rw [List.map_map,List.map_map]
    refine List.map_congr_left fun k listed => congrArg some ?_
    exact (output_append _ (there k listed).1).trans (there k listed).2
  · dsimp only at src ⊢
    by_cases last : i = g.nodes.length
    · subst last
      rw [sourcesOf,own] at src
      exact earlier j src
    · rw [sourcesOf,List.getElem?_eq_none_iff.mpr (by rw [length]; omega)] at src
      cases src
  · dsimp only at below ⊢
    obtain rfl : i = g.nodes.length := by
      rw [length] at below
      omega
    rw [isInput,own]
    exact decide_eq_false computes
  · dsimp only at below sink ⊢
    rw [length] at below
    by_contra other
    have listed := mine.resolve_left (by omega)
    rw [isSink,List.all_eq_true] at sink
    have unread' := sink _ (List.mem_append_right _ (List.mem_singleton.mpr rfl))
    have taken : (addedNode op g.curLayer (reads.map Prod.fst) weights params).reads i = true :=
      List.elem_eq_true_of_mem (List.mem_map.mpr ⟨i,listed,rfl⟩)
    simp [taken] at unread'

end growth

section rules
variable {M : Meaning β K} {c : ArchConfig} {tok : Nat → Nat} {start : List GraphNode} {reads known mine also : List (Spoken β)}
  {unread : List Nat} {n : Nat} {y z : Stream (List β)}

theorem Builds.step {b : Build Nat} {k : Nat → Build Nat} (acts : Acts M c tok b mine also z) (positions others : List Nat)
    (look : positions.map (placed known n) = mine.map some) (look' : others.map (placed known n) = also.map some)
    (rest : ∀ a,Builds M c tok start reads ((a,z) :: known) (unread.filter (fun k => !positions.contains k)++[n]) (n+1) (k a) y) :
    Builds M c tok start reads known unread n (b >>= k) y := by
  have found {l : List (Spoken β)} {at' : List Nat} (look : at'.map (placed known n) = l.map some) : ∀ k ∈ l,k ∈ known := by
    intro k listed
    have member : some k ∈ at'.map (placed known n) := look ▸ List.mem_map.mpr ⟨k,listed,rfl⟩
    obtain ⟨i,_,place⟩ := List.mem_map.mp member
    exact List.mem_of_getElem? place
  refine Triple.bind ?_ rest
  intro g a g' grown run
  apply grown.step look
  refine acts g a g' (fun k listed => grown.there k ?_) run
  rcases List.mem_append.mp listed with own | other
  · exact found look k own
  · exact found look' k other

theorem Builds.last {b : Build Nat} (acts : Acts M c tok b mine also y) (positions others : List Nat)
    (look : positions.map (placed known n) = mine.map some) (look' : others.map (placed known n) = also.map some)
    (all : ∀ u ∈ unread,u ∈ positions) : Builds M c tok start reads known unread n b y := by
  have whole : Builds M c tok start reads known unread n (b >>= pure) y := by
    refine Builds.step acts positions others look look' fun a => Triple.pure fun g grown => ?_
    refine grown.grew (k:=n) ?_ fun u listed => ?_
    · rw [placed,Nat.add_sub_cancel,Nat.sub_self]
      rfl
    · rcases List.mem_append.mp listed with old | new
      · obtain ⟨old,free⟩ := List.mem_filter.mp old
        have taken := all u old
        simp [taken] at free
      · exact List.mem_singleton.mp new
  rwa [bind_pure] at whole

def Idle (b : Build α) : Prop := ∀ g a g',b g = some (a,g') → g'.nodes = g.nodes

theorem Builds.idle {b : Build α} {k : α → Build Nat} (idle : Idle b) (rest : ∀ a,Builds M c tok start reads known unread n (k a) y) :
    Builds M c tok start reads known unread n (b >>= k) y := by
  refine Triple.bind ?_ rest
  intro g a g' grown run
  have same := idle g a g' run
  obtain ⟨more,places,there,back,computes,unread'⟩ := grown
  rw [← same] at more there back computes unread'
  exact ⟨more,places,there,back,computes,unread'⟩

theorem graphSetLayer_idle (l : Nat) : Idle (graphSetLayer l) := by
  intro g a g' run
  cases run
  rfl

theorem graphState_idle (ptr : Nat) : Idle (graphState ptr) := by
  intro g a g' run
  unfold graphState at run
  split at run
  · cases run
  · cases run
    rfl

theorem require_idle (condition : Bool) : Idle (Graph.require condition) := by
  intro g a g' run
  unfold Graph.require at run
  split at run
  · cases run
    rfl
  · cases run

theorem Builds.given {o : Option TensorInfo} {k : TensorInfo → Build Nat}
    (rest : ∀ t,o = some t → Builds M c tok start reads known unread n (k t) y) :
    Builds M c tok start reads known unread n (Graph.given o >>= k) y := by
  intro g r g' grown run
  obtain ⟨⟨t,g₁⟩,began,later⟩ := Option.bind_eq_some_iff.mp run
  obtain ⟨t',found,same⟩ := Option.map_eq_some_iff.mp began
  cases same
  exact rest t found g r g' grown later

end rules

end TinyLlama.Graph
