import TinyLlama.Graph.Models

-- Which matrix a matmul node multiplies by: its weight's rows as outputs, or the transpose. Exact, over any semiring.
namespace TinyLlama.Graph
open Gguf

section multiply
variable {R : Type} [Semiring R]

-- cpu_op.c: mat_vec_mul. `W` reads an element of the tensor.
def matVecMul (t : TensorInfo) (W x : Nat → R) (rows cols : Nat) (trans : Bool) : Option (List R) :=
  let tc := t.dim.getD (t.ndim-1) 0
  let tr := t.dim.getD 0 0
  if t.ndim < 2 then none
  else if (if trans then tr ≠ cols ∨ tc ≠ rows else tr ≠ rows ∨ tc ≠ cols) then none
  else some ((List.range rows).map fun r =>
    ∑ c ∈ Finset.range cols, (if trans then W (c*tc+r) else W (r*cols+c))*x c)

def matmatChunkRows : Nat := 16

def matmatChunk (W xT : Nat → R) (batch cols tc : Nat) (trans : Bool) (r0 r b : Nat) : R :=
  let wRow := fun ci => if trans then W (ci*tc+(r0+r)) else W ((r0+r)*cols+ci)
  ∑ ci ∈ Finset.range cols, wRow ci*xT (ci*batch+b)

-- mat_mat_mul, the rows of Y; `old` is what Y held.
def matMatMul (t : TensorInfo) (W X old : Nat → R) (batch rows cols : Nat) (trans : Bool) : Option (List (List R)) :=
  let tc := t.dim.getD (t.ndim-1) 0
  let tr := t.dim.getD 0 0
  if t.ndim < 2 then none
  else if (if trans then tr ≠ cols ∨ tc ≠ rows else tr ≠ rows ∨ tc ≠ cols) then none
  else if rows = 0 ∨ batch = 0 ∨ cols = 0 then
    some ((List.range batch).map fun b => (List.range rows).map fun r => old (b*rows+r))
  else
    let xT := fun i => X (i%batch*cols+i/batch)
    some ((List.range batch).map fun b => (List.range rows).map fun r =>
      matmatChunk W xT batch cols tc trans (r/matmatChunkRows*matmatChunkRows) (r%matmatChunkRows) b)

def mulRows (w : TensorInfo) (tr : Bool) (W X old : Nat → R) (base r : Nat) : Option (List (List R)) :=
  let input := u32 (w.dim.getD (if tr then 0 else 1) 0)
  let od := u32 (w.dim.getD (if tr then 1 else 0) 0)
  let x := fun i => X (base*input+i)
  if r = 1 then (matVecMul w W x od input tr).map fun y => [y] else matMatMul w W x old r od input tr

def opMatmul (node : GraphNode) (W X old : Nat → R) (base r : Nat) : Option (List (List R)) :=
  match node.weight 0 with
  | none => none
  | some w => mulRows w (node.op = .matmulT) W X old base r

def rowsTimes (out input : Nat) (W X : Nat → R) (base r : Nat) : List (List R) :=
  (List.range r).map fun b => (List.range out).map fun i =>
    ∑ c ∈ Finset.range input, W (i*input+c)*X ((base+b)*input+c)

end multiply

def GraphNode.isMatmul (node : GraphNode) : Bool := node.op = .matmul ∨ node.op = .matmulT

-- dim[0] rows of dim[1] elements: the node computes W*x, whatever the payload.
def RowsAreOutputs (R : Type) [Semiring R] (node : GraphNode) : Prop :=
  ∃ w, node.weight 0 = some w ∧ ∀ (W X old : Nat → R) (base r : Nat), 0 < r →
    opMatmul node W X old base r = some (rowsTimes (w.dim.getD 0 0) (w.dim.getD 1 0) W X base r)

-- A weight stored as [out, in].
structure StoredRows (t : TensorInfo) (out input : Nat) : Prop where
  ndim : t.ndim = 2
  dim : t.dim = [out,input]
  outFits : out < 2^32
  inFits : input < 2^32
  positive : 0 < input

section orientation
variable {R : Type} [Semiring R]

def Multiplies (R : Type) [Semiring R] (w : TensorInfo) (tr : Bool) : Prop :=
  ∀ (W X old : Nat → R) (base r : Nat), 0 < r →
    mulRows w tr W X old base r = some (rowsTimes (w.dim.getD 0 0) (w.dim.getD 1 0) W X base r)

theorem matVecMul_eq (ndim : t.ndim = 2) (dim : t.dim = [a,b]) (tr : Bool) (W x : Nat → R) :
    matVecMul t W x (if tr then b else a) (if tr then a else b) tr = some ((List.range (if tr then b else a)).map fun r =>
      ∑ c ∈ Finset.range (if tr then a else b), (if tr then W (c*b+r) else W (r*b+c))*x c) := by
  cases tr <;> simp [matVecMul,ndim,dim]

theorem matmatChunk_eq (W X : Nat → R) (tr : Bool) (inside : b < batch) : matmatChunk W (fun i => X (i%batch*cols+i/batch)) batch cols tc tr
    (r/matmatChunkRows*matmatChunkRows) (r%matmatChunkRows) b =
      ∑ c ∈ Finset.range cols, (if tr then W (c*tc+r) else W (r*cols+c))*X (b*cols+c) := by
  have row : r/matmatChunkRows*matmatChunkRows+r%matmatChunkRows = r := Nat.div_add_mod' r matmatChunkRows
  refine Finset.sum_congr rfl fun c _ => ?_
  have col : (c*batch+b)%batch = b := by
    rw [Nat.add_comm,Nat.add_mul_mod_self_right,Nat.mod_eq_of_lt inside]
  have at' : (c*batch+b)/batch = c := by
    rw [Nat.add_comm,Nat.add_mul_div_right _ _ (by omega),Nat.div_eq_of_lt inside,Nat.zero_add]
  simp only [row,col,at']

theorem matMatMul_eq (ndim : t.ndim = 2) (dim : t.dim = [a,b]) (tr : Bool) (W X old : Nat → R) (wide : 0 < if tr then a else b) :
    matMatMul t W X old batch (if tr then b else a) (if tr then a else b) tr = some ((List.range batch).map fun k =>
      (List.range (if tr then b else a)).map fun r => ∑ c ∈ Finset.range (if tr then a else b),
        (if tr then W (c*b+r) else W (r*b+c))*X (k*(if tr then a else b)+c)) := by
  have last : t.dim.getD (t.ndim-1) 0 = b := by rw [ndim,dim]; rfl
  have first : t.dim.getD 0 0 = a := by rw [dim]; rfl
  have fit : ¬(if tr then a ≠ (if tr then a else b) ∨ b ≠ (if tr then b else a)
      else a ≠ (if tr then b else a) ∨ b ≠ (if tr then a else b)) := by cases tr <;> simp
  have two : ¬t.ndim < 2 := by omega
  simp only [matMatMul,last,first,if_neg two,if_neg fit]
  by_cases empty : (if tr then b else a) = 0 ∨ batch = 0 ∨ (if tr then a else b) = 0
  · have none' : (if tr then b else a) = 0 ∨ batch = 0 := by omega
    rw [if_pos empty]
    rcases none' with none' | rfl
    · simp [none']
    · simp
  · rw [if_neg empty]
    refine congrArg some (List.map_congr_left fun k below => List.map_congr_left fun r _ => ?_)
    rw [matmatChunk_eq W X tr (List.mem_range.mp below)]
    cases tr <;> rfl

theorem mulRows_eq (stored : StoredRows t out input) (tr : Bool) (W X old : Nat → R) (base r : Nat) (some' : 0 < r)
    (wide : 0 < (if tr then out else input)) : mulRows t tr W X old base r =
      some ((List.range r).map fun b => (List.range (if tr then input else out)).map fun i =>
        ∑ c ∈ Finset.range (if tr then out else input),
          (if tr then W (c*input+i) else W (i*input+c))*X ((base+b)*(if tr then out else input)+c)) := by
  obtain ⟨ndim,dim,outFits,inFits,_⟩ := stored
  have input' : u32 (t.dim.getD (if tr then 0 else 1) 0) = if tr then out else input := by
    rw [dim]
    cases tr
    · exact u32_of_lt inFits
    · exact u32_of_lt outFits
  have od : u32 (t.dim.getD (if tr then 1 else 0) 0) = if tr then input else out := by
    rw [dim]
    cases tr
    · exact u32_of_lt outFits
    · exact u32_of_lt inFits
  unfold mulRows
  simp only [input',od]
  by_cases one : r = 1
  · subst one
    rw [if_pos rfl,matVecMul_eq ndim dim]
    simp
  · rw [if_neg one,matMatMul_eq ndim dim tr W _ old wide]
    simp only [Nat.add_mul,Nat.add_assoc]

theorem multiplies_plain (stored : StoredRows t out input) : Multiplies R t false := by
  intro W X old base r some'
  rw [mulRows_eq stored false W X old base r some' stored.positive]
  simp [rowsTimes,stored.dim]

theorem multiplies_transposed [Nontrivial R] (stored : StoredRows t out input) :
    Multiplies R t true ↔ out = 1 ∧ input = 1 := by
  have outDim : t.dim.getD 0 0 = out := by rw [stored.dim]; rfl
  have inDim : t.dim.getD 1 0 = input := by rw [stored.dim]; rfl
  constructor
  · intro multiplies
    -- One row in, a weight with one entry above the diagonal.
    have one := multiplies (fun i => if i = 1 then 1 else 0) (fun i => if i = 1 then 1 else 0) (fun _ => 0) 0 1 (by decide)
    rw [outDim,inDim] at one
    have square : input = out := by
      have length := congrArg (Option.map fun rows => (rows.headD []).length) one
      rw [mulRows,if_pos rfl] at length
      have od := u32_of_lt stored.inFits
      have cols := u32_of_lt stored.outFits
      simp only [if_true,outDim,inDim,od,cols] at length
      have run := matVecMul_eq stored.ndim stored.dim true (fun i => if i = 1 then (1 : R) else 0)
      simp only [if_true] at run
      simpa [run,rowsTimes] using length
    subst square
    refine and_self_iff.mpr ?_
    by_contra large
    have large : 1 < input := by have := stored.positive; omega
    obtain ⟨n,rfl⟩ : ∃ n, input = n+2 := ⟨input-2,by omega⟩
    have entry := congrArg (Option.map fun rows => (rows.headD []).headD 0) one
    rw [mulRows_eq stored true _ _ _ 0 1 (by decide) stored.positive] at entry
    simp [rowsTimes,List.range_succ_eq_map] at entry
  · rintro ⟨rfl,rfl⟩ W X old base r some'
    rw [mulRows_eq stored true W X old base r some' (by decide),outDim,inDim]
    simp [rowsTimes]

-- The matmul nodes that a build adds are all right exactly when P.
def Settles (R : Type) [Semiring R] (b : Build α) (P : Prop) : Prop := ∀ g a g', b g = some (a,g') →
  ∃ added, g'.nodes = g.nodes++added ∧ ((∀ node ∈ added, node.isMatmul → RowsAreOutputs R node) ↔ P)

theorem Settles.iff {b : Build α} (settles : Settles R b P) (same : P ↔ Q) : Settles R b Q :=
  fun g a g' run => (settles g a g' run).imp fun _ both => ⟨both.1,both.2.trans same⟩

theorem Settles.keep {b : Build α} (same : ∀ g a g', b g = some (a,g') → g'.nodes = g.nodes) : Settles R b True :=
  fun g a g' run => ⟨[],by rw [same g a g' run,List.append_nil],by simp⟩

theorem Settles.bind {b : Build α} {k : α → Build β} (first : Settles R b P) (rest : ∀ a, Settles R (k a) Q) :
    Settles R (b >>= k) (P ∧ Q) := by
  intro g c g' run
  obtain ⟨⟨a,g₁⟩,start,later⟩ := Option.bind_eq_some_iff.mp run
  obtain ⟨added,nodes,right⟩ := first g a g₁ start
  obtain ⟨added',nodes',right'⟩ := rest a g₁ c g' later
  refine ⟨added++added',by rw [nodes',nodes,List.append_assoc],?_⟩
  rw [← right,← right',List.forall_mem_append]

theorem Settles.after {b : Build α} {k : α → Build β} (first : Settles R b True) (rest : ∀ a, Settles R (k a) P) :
    Settles R (b >>= k) P := (first.bind rest).iff (by rw [true_and])

theorem Settles.before {b : Build α} {k : α → Build β} (first : Settles R b P) (rest : ∀ a, Settles R (k a) True) :
    Settles R (b >>= k) P := (first.bind rest).iff (by rw [and_true])

theorem Settles.pure (a : α) : Settles R (Pure.pure a : Build α) True := .keep fun g _ g' run => by cases run; rfl

theorem Settles.given {o : Option TensorInfo} {k : TensorInfo → Build β} (rest : ∀ t, o = some t → Settles R (k t) P) :
    Settles R (Graph.given o >>= k) P := by
  intro g c g' run
  obtain ⟨⟨t,g₁⟩,start,later⟩ := Option.bind_eq_some_iff.mp run
  obtain ⟨t',there,same⟩ := Option.map_eq_some_iff.mp start
  cases same
  exact rest t there g c g' later

theorem Settles.require {condition : Bool} {k : Unit → Build β} (rest : condition = true → Settles R (k ()) P) :
    Settles R (Graph.require condition >>= k) P := by
  intro g c g' run
  obtain ⟨⟨_,g₁⟩,start,later⟩ := Option.bind_eq_some_iff.mp run
  unfold Graph.require at start
  split at start
  · rename_i holds
    cases start
    exact rest holds g c g' later
  · cases start

theorem Settles.get {k : Graph → Build β} (rest : ∀ g, Settles R (k g) P) : Settles R (MonadState.get >>= k) P :=
  fun g c g' run => rest g g c g' run

theorem Settles.fails : Settles R (failure : Build α) P := fun _ _ _ run => by cases run

theorem nodeAdd_settles (op : GraphOp) (src : List Nat) (weights : List (Option TensorInfo)) (params : List Nat)
    (other : op ≠ .matmul ∧ op ≠ .matmulT) : Settles R (nodeAdd op src weights params) True := by
  intro g a g' run
  cases run
  refine ⟨_,rfl,?_⟩
  simp [GraphNode.isMatmul,other]

theorem mulMat_settles (src : Nat) (w : TensorInfo) (trans : Bool) : Settles R (graphMulMat src w trans) (Multiplies R w trans) := by
  refine Settles.require fun _ => ?_
  intro g a g' run
  cases run
  refine ⟨_,rfl,?_⟩
  cases trans <;> simp [GraphNode.isMatmul,RowsAreOutputs,opMatmul,GraphNode.weight,Multiplies]

theorem graphSetLayer_settles (layer : Nat) : Settles R (graphSetLayer layer) True := .keep fun _ _ _ run => by cases run; rfl

theorem graphState_settles (ptr : Nat) : Settles R (graphState ptr) True := by
  refine .keep fun g a g' run => ?_
  unfold graphState at run
  split at run
  · cases run
  · cases run
    rfl

theorem graphInput_settles (nTokens : Nat) : Settles R (graphInput nTokens) True := by
  intro g a g' run
  unfold graphInput at run
  split at run
  · cases run
  · cases run
    exact ⟨_,rfl,by simp [GraphNode.isMatmul]⟩

theorem graphEmbed_settles (src : Nat) (weight : TensorInfo) (nTokens : Nat) : Settles R (graphEmbed src weight nTokens) True := by
  refine .require fun _ => .get fun g => ?_
  split
  · exact .fails
  · exact .require fun _ => nodeAdd_settles _ _ _ _ (by decide)

theorem graphRmsNorm_settles (src : Nat) (weight : Option TensorInfo) : Settles R (graphRmsNorm src weight) True :=
  .given fun _ _ => nodeAdd_settles _ _ _ _ (by decide)

theorem graphRmsNormHeads_settles (src : Nat) (weight : Option TensorInfo) (nHeads headDim inStride outStride : Nat) :
    Settles R (graphRmsNormHeads src weight nHeads headDim inStride outStride) True :=
  .given fun _ _ => .require fun _ => .require fun _ => nodeAdd_settles _ _ _ _ (by decide)

theorem graphBinary_settles (op : GraphOp) (a b : Nat) : Settles R (graphBinary op a b) True := by
  refine .require fun allowed => nodeAdd_settles _ _ _ _ ?_
  rcases of_decide_eq_true allowed with rfl | rfl <;> decide

theorem graphSilu_settles (src : Nat) : Settles R (graphSilu src) True := nodeAdd_settles _ _ _ _ (by decide)
theorem graphGelu_settles (src : Nat) : Settles R (graphGelu src) True := nodeAdd_settles _ _ _ _ (by decide)
theorem graphScale_settles (src scale : Nat) : Settles R (graphScale src scale) True := nodeAdd_settles _ _ _ _ (by decide)

theorem graphSoftcap_settles (src cap : Nat) : Settles R (graphSoftcap src cap) True :=
  .require fun _ => nodeAdd_settles _ _ _ _ (by decide)

theorem graphSigmoidGate_settles (a gate nHeads headDim : Nat) : Settles R (graphSigmoidGate a gate nHeads headDim) True :=
  .require fun _ => nodeAdd_settles _ _ _ _ (by decide)

theorem graphSsmConv_settles (src : Nat) (weight : TensorInfo) (state kernel : Nat) :
    Settles R (graphSsmConv src weight state kernel) True :=
  .require fun _ => .get fun _ => .require fun _ => nodeAdd_settles _ _ _ _ (by decide)

theorem graphSsmDelta_settles (args : GraphSsmDelta) : Settles R (graphSsmDelta args) True :=
  .require fun _ => .require fun _ => .get fun _ => .require fun _ => nodeAdd_settles _ _ _ _ (by decide)

theorem graphAttn_settles (q k v layer window : Nat) : Settles R (graphAttn q k v layer window) True :=
  nodeAdd_settles _ _ _ _ (by decide)

theorem graphRope_settles (src theta nHeads headDim ropeDim : Nat) : Settles R (graphRope src theta nHeads headDim ropeDim) True :=
  .require fun _ => nodeAdd_settles _ _ _ _ (by decide)

theorem graphRopeNorm_settles (src theta nHeads headDim ropeDim : Nat) :
    Settles R (graphRopeNorm src theta nHeads headDim ropeDim) True :=
  .require fun _ => nodeAdd_settles _ _ _ _ (by decide)

theorem graphLayerBoundary_settles (src : Nat) (s : Session) (layer : Nat) : Settles R (graphLayerBoundary src s layer) True := by
  unfold graphLayerBoundary
  split
  · exact .pure src
  · split
    · exact .pure src
    · exact nodeAdd_settles _ _ _ _ (by decide)

theorem addBias_settles (src : Nat) (bias : Option TensorInfo) : Settles R (addBias src bias) True := by
  cases bias with
  | none => exact .pure src
  | some b => exact .require fun _ => nodeAdd_settles _ _ _ _ (by decide)

theorem optionalNorm_settles (src : Nat) (norm : Option TensorInfo) (nHeads headDim : Nat) :
    Settles R (optionalNorm src norm nHeads headDim) True := by
  cases norm with
  | none => exact .pure src
  | some t => exact graphRmsNormHeads_settles _ _ _ _ _ _

theorem embedded_settles (s : Session) (nTokens : Nat) : Settles R (embedded s nTokens) True :=
  .given fun _ _ => .require fun _ => (graphInput_settles _).after fun _ => graphEmbed_settles _ _ _

theorem overLayers_settles {layer : Nat → Nat → Build Nat} {P : Nat → Prop} (ls : List Nat)
    (each : ∀ l ∈ ls, ∀ cur, Settles R (layer cur l) (P l)) : ∀ cur, Settles R (overLayers layer ls cur) (∀ l ∈ ls, P l) := by
  induction ls with
  | nil => exact fun cur => (Settles.pure cur).iff (by simp)
  | cons l rest ih =>
    intro cur
    have later := ih fun k present => each k (List.mem_cons_of_mem _ present)
    refine Settles.iff ((each l (List.mem_cons_self ..) cur).bind later) ?_
    rw [List.forall_mem_cons]

end orientation

end TinyLlama.Graph
