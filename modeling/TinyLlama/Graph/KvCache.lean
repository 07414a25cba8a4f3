import TinyLlama.Graph.Plan
import TinyLlama.Lib.Cells
import TinyLlama.Lib.Sweep

-- graph.c: the K and V caches in their backends' arenas, and the cells op_attn addresses there.
namespace TinyLlama.Graph
open Gguf Cells TinyLlama.Sweep

-- The backend of a layer with an attention node. The last such node decides.
def attnSeen (nLayer : Nat) (lb : Nat → Option BackendType) (n : GraphNode) : Nat → Option BackendType :=
  if n.op ≠ .attn then lb
  else if n.param 0 ≥ nLayer then lb
  else Function.update lb (n.param 0) (some n.backend)

def attnBackends (nodes : List GraphNode) (nLayer : Nat) : Nat → Option BackendType := nodes.foldl (attnSeen nLayer) fun _ => none

-- An arena's start, or NULL, with the bytes added to it since.
structure Pointer where
  arena : Option BackendType
  offset : Nat
deriving Repr,DecidableEq

def Pointer.isNull (p : Pointer) : Bool := p.arena = none ∧ p.offset = 0
def Pointer.plus (p : Pointer) (bytes : Nat) : Pointer := ⟨p.arena,u64 (p.offset+bytes)⟩

def nullPointer : Pointer := ⟨none,0⟩

structure AttnKvCache where
  k : Pointer
  v : Pointer
  cap : Nat
deriving Repr,DecidableEq

structure KvLayout where
  kvcacheSize : BackendType → Nat
  std : Nat → AttnKvCache

def kvcacheSizes (lb : Nat → Option BackendType) (bytes nLayer : Nat) : BackendType → Nat :=
  nLayer.fold (fun l _ size =>
    match lb l with
    | none => size
    | some b => Function.update size b (u64 (size b+u64 (bytes*2)))) fun _ => 0

structure Placing where
  base : BackendType → Pointer
  std : Nat → AttnKvCache

def placeLayer (lb : Nat → Option BackendType) (bytes ctxSize l : Nat) (s : Placing) : Placing :=
  match lb l with
  | none => s
  | some b =>
    let k := s.base b
    let v := k.plus bytes
    ⟨Function.update s.base b (v.plus bytes),Function.update s.std l ⟨k,v,ctxSize⟩⟩

def arenaStart (size : BackendType → Nat) (b : BackendType) : Pointer := ⟨if size b = 0 then none else some b,0⟩

def placeLayers (lb : Nat → Option BackendType) (size : BackendType → Nat) (bytes ctxSize nLayer : Nat) : Placing :=
  nLayer.fold (fun l _ => placeLayer lb bytes ctxSize l) ⟨arenaStart size,fun _ => ⟨nullPointer,nullPointer,0⟩⟩

-- arena_alloc may refuse a size; what it grants is an arena of that size.
def cacheBuildAttnKvcache (arenaAlloc : BackendType → Nat → Bool) (c : ArchConfig) (ctxSize : Nat) (nodes : List GraphNode) :
    Option KvLayout :=
  let bytes := u64 (ctxSize*c.nKvHead*c.kvHeadDim*4)
  let lb := attnBackends nodes c.nLayer
  let size := kvcacheSizes lb bytes c.nLayer
  if [BackendType.cpu,.cuda,.metal].all fun b => size b = 0 || arenaAlloc b (size b) then
    some ⟨size,(placeLayers lb size bytes ctxSize c.nLayer).std⟩
  else none

-- cpu_op.c keeps the stride between heads in 32 bits, the device ops in 64.
def headStride (b : BackendType) (cap kvHeadDim : Nat) : Nat :=
  match b with
  | .cpu => u32 (cap*kvHeadDim)
  | .cuda | .metal => u64 (cap*kvHeadDim)

structure KvCell where
  layer : Nat
  value : Bool
  head : Nat
  pos : Nat
  dim : Nat
deriving Repr,DecidableEq

def opAttnCell (c : ArchConfig) (b : BackendType) (akc : AttnKvCache) (x : KvCell) : Pointer :=
  (if x.value then akc.v else akc.k).plus (4*(x.head*headStride b akc.cap c.kvHeadDim+x.pos*c.kvHeadDim+x.dim))

-- The cells of a layer on backend b. op_attn refuses a layer without a cache.
structure Addressed (c : ArchConfig) (nodes : List GraphNode) (layout : KvLayout) (x : KvCell) (b : BackendType) : Prop where
  layer : attnBackends nodes c.nLayer x.layer = some b
  keys : (layout.std x.layer).k.isNull = false
  values : (layout.std x.layer).v.isNull = false
  head : x.head < c.nKvHead
  pos : x.pos < (layout.std x.layer).cap
  dim : x.dim < c.kvHeadDim

def InArena (layout : KvLayout) (b : BackendType) (p : Pointer) : Prop := p.arena = some b ∧ p.offset+4 ≤ layout.kvcacheSize b

structure CellsApart (c : ArchConfig) (nodes : List GraphNode) (layout : KvLayout) : Prop where
  distinct : ∀ x b y b',Addressed c nodes layout x b → Addressed c nodes layout y b' →
    opAttnCell c b (layout.std x.layer) x = opAttnCell c b' (layout.std y.layer) y → x = y
  inside : ∀ x b,Addressed c nodes layout x b → InArena layout b (opAttnCell c b (layout.std x.layer) x)

-- The bytes of one layer's K before they are cut to 64 bits, and the layers of a backend.
def kvTotal (c : ArchConfig) (ctxSize : Nat) : Nat := ctxSize*c.nKvHead*c.kvHeadDim*4

def attnLayers (c : ArchConfig) (nodes : List GraphNode) (b : BackendType) : Nat :=
  Nat.count (fun l => attnBackends nodes c.nLayer l = some b) c.nLayer

theorem u64_add (x y : Nat) : u64 (u64 x+u64 y) = u64 (x+y) := (Nat.add_mod x y _).symm

section Layout
variable {lb : Nat → Option BackendType} {B ctxSize : Nat}

def layersBefore (lb : Nat → Option BackendType) (b : BackendType) (l : Nat) : Nat := Nat.count (fun l => lb l = some b) l

theorem layersBefore_succ (b : BackendType) (l : Nat) :
    layersBefore lb b (l+1) = layersBefore lb b l+if lb l = some b then 1 else 0 := Nat.count_succ _ _

theorem kvcacheSizes_eq (b : BackendType) (n : Nat) : kvcacheSizes lb (u64 B) n b = u64 (2*layersBefore lb b n*B) := by
  induction n with
  | zero => simp [kvcacheSizes,layersBefore,u64]
  | succ n ih =>
    unfold kvcacheSizes at ih ⊢
    rw [Nat.fold_succ,layersBefore_succ]
    cases owner : lb n with
    | none => simpa using ih
    | some b' =>
      by_cases own : b' = b
      · subst own
        have grown : 2*(layersBefore lb b' n+1)*B = 2*layersBefore lb b' n*B+2*B := by ring
        have twice : u64 (u64 B*2) = u64 (2*B) := by
          unfold u64
          omega
        simp only [Function.update_self,if_pos]
        rw [ih,twice,u64_add,grown]
      · simp [Function.update_of_ne (Ne.symm own),own,ih]

theorem placeLayers_succ (size : BackendType → Nat) (bytes n : Nat) :
    placeLayers lb size bytes ctxSize (n+1) = placeLayer lb bytes ctxSize n (placeLayers lb size bytes ctxSize n) := by
  unfold placeLayers
  rw [Nat.fold_succ]

theorem placeLayers_spec (size : BackendType → Nat) (n : Nat) :
    (∀ b,(placeLayers lb size (u64 B) ctxSize n).base b = ⟨(arenaStart size b).arena,u64 (2*layersBefore lb b n*B)⟩) ∧
      ∀ l b,l < n → lb l = some b → (placeLayers lb size (u64 B) ctxSize n).std l =
        ⟨⟨(arenaStart size b).arena,u64 (2*layersBefore lb b l*B)⟩,
          ⟨(arenaStart size b).arena,u64 ((2*layersBefore lb b l+1)*B)⟩,ctxSize⟩ := by
  induction n with
  | zero => exact ⟨fun b => by simp [placeLayers,arenaStart,layersBefore,u64],fun l b none' => absurd none' (Nat.not_lt_zero _)⟩
  | succ n ih =>
    obtain ⟨base,std⟩ := ih
    rw [placeLayers_succ,placeLayer]
    cases owner : lb n with
    | none =>
      refine ⟨fun b => ?_,fun l b below own => ?_⟩
      · rw [layersBefore_succ,owner]
        exact base b
      · have other : l ≠ n := by
          rintro rfl
          exact Option.some_ne_none b (own.symm.trans owner)
        exact std l b (by omega) own
    | some b' =>
      have values : u64 (u64 (2*layersBefore lb b' n*B)+u64 B) = u64 ((2*layersBefore lb b' n+1)*B) := by
        rw [u64_add]
        congr 1
        ring
      have next : u64 (u64 ((2*layersBefore lb b' n+1)*B)+u64 B) = u64 (2*(layersBefore lb b' n+1)*B) := by
        rw [u64_add]
        congr 1
        ring
      dsimp only
      rw [base b']
      simp only [Pointer.plus]
      refine ⟨fun b => ?_,fun l b below own => ?_⟩
      · rw [layersBefore_succ,owner]
        by_cases same : b = b'
        · subst same
          rw [Function.update_self,if_pos rfl,values,next]
        · rw [Function.update_of_ne same,if_neg fun eq => same (Option.some.inj eq).symm]
          exact base b
      · by_cases last : l = n
        · subst last
          obtain rfl : b' = b := Option.some.inj (owner.symm.trans own)
          rw [Function.update_self,values]
        · rw [Function.update_of_ne last]
          exact std l b (by omega) own

end Layout

-- What a built layout is: sizes and offsets as multiples of a layer's bytes.
structure Laid (c : ArchConfig) (ctxSize : Nat) (nodes : List GraphNode) (layout : KvLayout) : Prop where
  size : ∀ b,layout.kvcacheSize b = u64 (2*attnLayers c nodes b*kvTotal c ctxSize)
  std : ∀ l b,attnBackends nodes c.nLayer l = some b → layout.std l =
    ⟨⟨(arenaStart layout.kvcacheSize b).arena,u64 (2*layersBefore (attnBackends nodes c.nLayer) b l*kvTotal c ctxSize)⟩,
      ⟨(arenaStart layout.kvcacheSize b).arena,u64 ((2*layersBefore (attnBackends nodes c.nLayer) b l+1)*kvTotal c ctxSize)⟩,ctxSize⟩

theorem attnBackends_inside {nodes : List GraphNode} {nLayer l : Nat} {b : BackendType} (owner : attnBackends nodes nLayer l = some b) :
    l < nLayer := by
  have all : ∀ lb : Nat → Option BackendType,(∀ l b,lb l = some b → l < nLayer) →
      ∀ l b,(nodes.foldl (attnSeen nLayer) lb) l = some b → l < nLayer := by
    clear owner
    induction nodes with
    | nil => exact fun _ below => below
    | cons node rest ih =>
      intro lb below
      rw [List.foldl_cons]
      apply ih
      unfold attnSeen
      split
      · exact below
      split
      · exact below
      · next small =>
        intro l b owner
        by_cases here : l = node.param 0
        · subst here
          exact not_le.mp small
        · rw [Function.update_of_ne here] at owner
          exact below l b owner
  exact all (fun _ => none) (fun _ _ none' => nomatch none') l b owner

theorem cacheBuild_laid {arenaAlloc : BackendType → Nat → Bool} {c : ArchConfig} {ctxSize : Nat} {nodes : List GraphNode}
    {layout : KvLayout} (built : cacheBuildAttnKvcache arenaAlloc c ctxSize nodes = some layout) : Laid c ctxSize nodes layout := by
  unfold cacheBuildAttnKvcache at built
  dsimp only at built
  split at built
  · cases built
    refine ⟨fun b => kvcacheSizes_eq b _,fun l b owner => ?_⟩
    exact (placeLayers_spec _ _).2 l b (attnBackends_inside owner) owner
  · cases built

section Cells
variable {c : ArchConfig} {ctxSize : Nat} {nodes : List GraphNode} {layout : KvLayout} {x : KvCell} {b : BackendType}

-- Two rows of heads for every layer of the backend.
def cellRow (c : ArchConfig) (nodes : List GraphNode) (b : BackendType) (x : KvCell) : Nat :=
  2*layersBefore (attnBackends nodes c.nLayer) b x.layer+x.value.toNat

def cellIndex (c : ArchConfig) (ctxSize : Nat) (nodes : List GraphNode) (b : BackendType) (x : KvCell) : Nat :=
  ((cellRow c nodes b x*c.nKvHead+x.head)*ctxSize+x.pos)*c.kvHeadDim+x.dim

theorem opAttnCell_eq (laid : Laid c ctxSize nodes layout) (owner : attnBackends nodes c.nLayer x.layer = some b) :
    opAttnCell c b (layout.std x.layer) x = ⟨(arenaStart layout.kvcacheSize b).arena,
      u64 (cellRow c nodes b x*kvTotal c ctxSize+4*(x.head*headStride b ctxSize c.kvHeadDim+x.pos*c.kvHeadDim+x.dim))⟩ := by
  unfold opAttnCell
  rw [laid.std _ _ owner]
  unfold Pointer.plus cellRow
  cases x.value with
  | false =>
    simp only [Bool.false_eq_true,if_false,Bool.toNat_false,Nat.add_zero,Pointer.mk.injEq,true_and]
    exact Nat.mod_add_mod _ _ _
  | true =>
    simp only [if_true,Bool.toNat_true,Pointer.mk.injEq,true_and]
    exact Nat.mod_add_mod _ _ _

theorem cell_offset (stride : x.head*headStride b ctxSize c.kvHeadDim = x.head*(ctxSize*c.kvHeadDim)) :
    cellRow c nodes b x*kvTotal c ctxSize+4*(x.head*headStride b ctxSize c.kvHeadDim+x.pos*c.kvHeadDim+x.dim) =
      4*cellIndex c ctxSize nodes b x := by
  rw [stride]
  unfold kvTotal cellIndex
  ring

theorem layer_below (owner : attnBackends nodes c.nLayer x.layer = some b) :
    layersBefore (attnBackends nodes c.nLayer) b x.layer < attnLayers c nodes b :=
  Nat.count_strict_mono owner (attnBackends_inside owner)

theorem index_below (owner : attnBackends nodes c.nLayer x.layer = some b) (head : x.head < c.nKvHead) (pos : x.pos < ctxSize)
    (dim : x.dim < c.kvHeadDim) : 4*cellIndex c ctxSize nodes b x+4 ≤ 2*attnLayers c nodes b*kvTotal c ctxSize := by
  have layer := layer_below owner
  have which : x.value.toNat < 2 := Nat.lt_succ_of_le (Bool.toNat_le _)
  have row : cellRow c nodes b x < 2*attnLayers c nodes b := by
    unfold cellRow
    omega
  have index : cellIndex c ctxSize nodes b x < 2*attnLayers c nodes b*c.nKvHead*ctxSize*c.kvHeadDim :=
    row_below (row_below (row_below row head) pos) dim
  have total : 2*attnLayers c nodes b*kvTotal c ctxSize = 4*(2*attnLayers c nodes b*c.nKvHead*ctxSize*c.kvHeadDim) := by
    unfold kvTotal
    ring
  omega

theorem index_inj {y : KvCell} (owner : attnBackends nodes c.nLayer x.layer = some b)
    (owner' : attnBackends nodes c.nLayer y.layer = some b) (head : x.head < c.nKvHead) (head' : y.head < c.nKvHead)
    (pos : x.pos < ctxSize) (pos' : y.pos < ctxSize) (dim : x.dim < c.kvHeadDim) (dim' : y.dim < c.kvHeadDim)
    (same : cellIndex c ctxSize nodes b x = cellIndex c ctxSize nodes b y) : x = y := by
  obtain ⟨row,dims⟩ := row_inj dim dim' same
  obtain ⟨heads,places⟩ := row_inj pos pos' row
  obtain ⟨rows,which⟩ := row_inj head head' heads
  unfold cellRow at rows
  have small : x.value.toNat < 2 := Nat.lt_succ_of_le (Bool.toNat_le _)
  have small' : y.value.toNat < 2 := Nat.lt_succ_of_le (Bool.toNat_le _)
  have layers : x.layer = y.layer := by
    have counts : layersBefore (attnBackends nodes c.nLayer) b x.layer = layersBefore (attnBackends nodes c.nLayer) b y.layer := by omega
    exact @Nat.count_injective (fun l => attnBackends nodes c.nLayer l = some b) _ _ _ owner owner' counts
  have values : x.value = y.value := by
    have bits : x.value.toNat = y.value.toNat := by omega
    revert bits
    cases x.value <;> cases y.value <;> decide
  cases x
  cases y
  simp_all

end Cells

section Exactness
variable {c : ArchConfig} {ctxSize : Nat} {nodes : List GraphNode} {layout : KvLayout} {x : KvCell} {b : BackendType}

theorem Laid.addressed (laid : Laid c ctxSize nodes layout) (owner : attnBackends nodes c.nLayer x.layer = some b)
    (some' : layout.kvcacheSize b ≠ 0) (head : x.head < c.nKvHead) (pos : x.pos < ctxSize) (dim : x.dim < c.kvHeadDim) :
    Addressed c nodes layout x b := by
  have std := laid.std _ _ owner
  have arena : (arenaStart layout.kvcacheSize b).arena = some b := if_neg some'
  refine ⟨owner,?_,?_,head,?_,dim⟩
  · simp [std,Pointer.isNull,arena]
  · simp [std,Pointer.isNull,arena]
  · rw [std]
    exact pos

theorem Addressed.pos' (addressed : Addressed c nodes layout x b) (laid : Laid c ctxSize nodes layout) : x.pos < ctxSize := by
  have pos := addressed.pos
  rwa [laid.std _ _ addressed.layer] at pos

theorem cell_exact (laid : Laid c ctxSize nodes layout) (fits : 2*attnLayers c nodes b*kvTotal c ctxSize < 2^64)
    (stride : b = .cpu → c.nKvHead ≤ 1 ∨ ctxSize*c.kvHeadDim < 2^32) (addressed : Addressed c nodes layout x b) :
    opAttnCell c b (layout.std x.layer) x = ⟨some b,4*cellIndex c ctxSize nodes b x⟩ ∧
      4*cellIndex c ctxSize nodes b x+4 ≤ layout.kvcacheSize b := by
  have owner := addressed.layer
  have head := addressed.head
  have below := index_below owner head (addressed.pos' laid) addressed.dim
  have size := laid.size b
  rw [u64_of_lt fits] at size
  have arena : (arenaStart layout.kvcacheSize b).arena = some b := if_neg (by omega)
  have layer := layer_below owner
  have narrow : c.nKvHead*(ctxSize*c.kvHeadDim) < 2^64 := by
    have one : kvTotal c ctxSize ≤ 2*attnLayers c nodes b*kvTotal c ctxSize := Nat.le_mul_of_pos_left _ (by omega)
    have total : kvTotal c ctxSize = 4*(c.nKvHead*(ctxSize*c.kvHeadDim)) := by
      unfold kvTotal
      ring
    omega
  have wide : ctxSize*c.kvHeadDim < 2^64 := lt_of_le_of_lt (Nat.le_mul_of_pos_left _ (by omega)) narrow
  have exact' : x.head*headStride b ctxSize c.kvHeadDim = x.head*(ctxSize*c.kvHeadDim) := by
    cases b with
    | cpu =>
      rcases stride rfl with alone | short
      · have first' : x.head = 0 := by omega
        rw [first',Nat.zero_mul,Nat.zero_mul]
      · exact congrArg _ (u32_of_lt short)
    | cuda => exact congrArg _ (u64_of_lt wide)
    | metal => exact congrArg _ (u64_of_lt wide)
  rw [opAttnCell_eq laid owner,cell_offset exact',arena,u64_of_lt (by omega),size]
  exact ⟨rfl,below⟩

theorem cells_apart (laid : Laid c ctxSize nodes layout) (fits : ∀ b,2*attnLayers c nodes b*kvTotal c ctxSize < 2^64)
    (stride : 0 < attnLayers c nodes .cpu → c.nKvHead ≤ 1 ∨ ctxSize*c.kvHeadDim < 2^32) : CellsApart c nodes layout := by
  have place : ∀ x b,Addressed c nodes layout x b → opAttnCell c b (layout.std x.layer) x = ⟨some b,4*cellIndex c ctxSize nodes b x⟩ ∧
      4*cellIndex c ctxSize nodes b x+4 ≤ layout.kvcacheSize b := by
    intro x b addressed
    refine cell_exact laid (fits b) ?_ addressed
    rintro rfl
    exact stride (Nat.zero_lt_of_lt (layer_below addressed.layer))
  constructor
  · intro x b y b' here there same
    rw [(place x b here).1,(place y b' there).1,Pointer.mk.injEq] at same
    obtain ⟨backend,offset⟩ := same
    obtain rfl : b = b' := Option.some.inj backend
    exact index_inj here.layer there.layer here.head there.head (here.pos' laid) (there.pos' laid) here.dim there.dim (by omega)
  · intro x b addressed
    obtain ⟨at',room⟩ := place x b addressed
    rw [at']
    exact ⟨rfl,room⟩

theorem unaddressed (laid : Laid c ctxSize nodes layout) (wrapped : kvTotal c ctxSize%2^63 = 0) : ¬ Addressed c nodes layout x b := by
  intro addressed
  obtain ⟨q,total⟩ := Nat.dvd_of_mod_eq_zero wrapped
  have even : ∀ n,u64 (2*n*kvTotal c ctxSize) = 0 := by
    intro n
    have whole : 2*n*kvTotal c ctxSize = 2^64*(n*q) := by
      rw [total]
      ring
    rw [whole]
    exact Nat.mul_mod_right _ _
  have size : layout.kvcacheSize b = 0 := (laid.size b).trans (even _)
  have keys := addressed.keys
  rw [laid.std _ _ addressed.layer] at keys
  simp [Pointer.isNull,arenaStart,size,even] at keys

theorem fits_of_apart (laid : Laid c ctxSize nodes layout) (apart : CellsApart c nodes layout) (some' : kvTotal c ctxSize%2^63 ≠ 0)
    (b : BackendType) : 2*attnLayers c nodes b*kvTotal c ctxSize < 2^64 := by
  by_contra big
  have total : kvTotal c ctxSize = 4*(c.nKvHead*(ctxSize*c.kvHeadDim)) := by
    unfold kvTotal
    ring
  have cells : 0 < c.nKvHead ∧ 0 < ctxSize ∧ 0 < c.kvHeadDim := by
    refine ⟨?_,?_,?_⟩ <;>
    · rw [Nat.pos_iff_ne_zero]
      intro none'
      simp [kvTotal,none'] at some'
  obtain ⟨heads,rows,dims⟩ := cells
  have several : 0 < attnLayers c nodes b := by
    by_contra none'
    simp [Nat.eq_zero_of_not_pos none'] at big
  have size := laid.size b
  by_cases none' : layout.kvcacheSize b = 0
  · -- The last layer's pointers are not NULL, and there is no arena.
    obtain ⟨l,_,owner,last⟩ := exists_count (show attnLayers c nodes b-1 < Nat.count _ _ from Nat.sub_lt several one_pos)
    have std := laid.std _ _ owner
    have split : 2*attnLayers c nodes b*kvTotal c ctxSize = 2*(attnLayers c nodes b-1)*kvTotal c ctxSize+2*kvTotal c ctxSize := by
      obtain ⟨m,count⟩ := Nat.exists_eq_add_of_lt several
      rw [count,show 0+m+1-1 = m from by omega]
      ring
    have odd : (2*(attnLayers c nodes b-1)+1)*kvTotal c ctxSize = 2*(attnLayers c nodes b-1)*kvTotal c ctxSize+kvTotal c ctxSize :=
      Nat.succ_mul _ _
    have last' : layersBefore (attnBackends nodes c.nLayer) b l = attnLayers c nodes b-1 := last
    rw [last',odd] at std
    rw [none',split] at size
    have addressed : Addressed c nodes layout ⟨l,false,0,0,0⟩ b := by
      refine ⟨owner,?_,?_,heads,?_,dims⟩
      · rw [std]
        unfold u64 at size
        simp only [Pointer.isNull,decide_eq_false_iff_not,not_and]
        intro _
        unfold u64
        omega
      · rw [std]
        unfold u64 at size
        simp only [Pointer.isNull,decide_eq_false_iff_not,not_and]
        intro _
        unfold u64
        omega
      · rw [std]
        exact rows
    have room := (apart.inside _ _ addressed).2
    omega
  · let layers := (Finset.range c.nLayer).filter fun l => attnBackends nodes c.nLayer l = some b
    let s := layers ×ˢ (Finset.univ : Finset Bool) ×ˢ Finset.range c.nKvHead ×ˢ Finset.range ctxSize ×ˢ Finset.range c.kvHeadDim
    let cell : Nat × Bool × Nat × Nat × Nat → KvCell := fun t => ⟨t.1,t.2.1,t.2.2.1,t.2.2.2.1,t.2.2.2.2⟩
    have addressed : ∀ t ∈ s,Addressed c nodes layout (cell t) b := by
      intro t member
      simp only [s,layers,Finset.mem_product,Finset.mem_filter,Finset.mem_range] at member
      obtain ⟨⟨_,owner⟩,_,head,pos,dim⟩ := member
      exact laid.addressed owner none' head pos dim
    have room := @cells_fit _ s (fun t => (opAttnCell c b (layout.std t.1) (cell t)).offset) 4 (layout.kvcacheSize b) (by decide) ?_ ?_ ?_
    · have many : s.card*4 = 2*attnLayers c nodes b*kvTotal c ctxSize := by
        rw [Finset.card_product,Finset.card_product,Finset.card_product,Finset.card_product,Finset.card_range,Finset.card_range,
          Finset.card_range,← Nat.count_eq_card_filter_range,total,Finset.card_univ,Fintype.card_bool]
        change attnLayers c nodes b*_*4 = _
        ring
      have short : layout.kvcacheSize b < 2^64 := size ▸ u64_lt _
      omega
    · intro t member
      have owner := (addressed t member).layer
      rw [opAttnCell_eq laid owner]
      refine (Nat.dvd_mod_iff (by decide)).mpr ?_
      rw [total]
      exact Nat.dvd_add (Dvd.dvd.mul_left (Nat.dvd_mul_right _ _) _) (Nat.dvd_mul_right _ _)
    · intro t member
      exact (apart.inside _ _ (addressed t member)).2
    · intro t member t' member' same
      have here := addressed t member
      have there := addressed t' member'
      have one : cell t = cell t' := by
        refine apart.distinct _ _ _ _ here there ?_
        have offset : (opAttnCell c b (layout.std (cell t).layer) (cell t)).offset =
          (opAttnCell c b (layout.std (cell t').layer) (cell t')).offset := same
        rw [opAttnCell_eq laid here.layer,opAttnCell_eq laid there.layer] at offset ⊢
        exact congrArg _ offset
      simp only [cell,KvCell.mk.injEq] at one
      ext <;> simp [one]

theorem stride_of_apart (laid : Laid c ctxSize nodes layout) (apart : CellsApart c nodes layout) (some' : kvTotal c ctxSize%2^63 ≠ 0)
    (layers : 0 < attnLayers c nodes .cpu) : c.nKvHead ≤ 1 ∨ ctxSize*c.kvHeadDim < 2^32 := by
  by_contra wide
  obtain ⟨several,long⟩ : 1 < c.nKvHead ∧ 2^32 ≤ ctxSize*c.kvHeadDim := by simpa using wide
  have fits := fits_of_apart laid apart some' .cpu
  obtain ⟨l,_,owner,_⟩ := exists_count layers
  have cells : 0 < ctxSize*c.kvHeadDim := by omega
  have rows : 0 < ctxSize := Nat.pos_of_mul_pos_right cells
  have dims : 0 < c.kvHeadDim := Nat.pos_of_mul_pos_left cells
  have size := laid.size .cpu
  rw [u64_of_lt fits] at size
  have rest : 0 < 2*attnLayers c nodes .cpu*kvTotal c ctxSize := Nat.mul_pos (by omega) (by omega)
  set hs := u32 (ctxSize*c.kvHeadDim) with stride
  have short : hs < ctxSize*c.kvHeadDim := lt_of_lt_of_le (u32_lt _) long
  have row : hs/c.kvHeadDim < ctxSize := Nat.div_lt_of_lt_mul (by rwa [Nat.mul_comm])
  have second' : Addressed c nodes layout ⟨l,false,1,0,0⟩ .cpu := laid.addressed owner (by omega) several rows dims
  have inner : Addressed c nodes layout ⟨l,false,0,hs/c.kvHeadDim,hs%c.kvHeadDim⟩ .cpu :=
    laid.addressed owner (by omega) (Nat.zero_lt_of_lt several) row (Nat.mod_lt _ dims)
  have one := apart.distinct _ _ _ _ second' inner (by
    rw [opAttnCell_eq laid owner,opAttnCell_eq laid owner]
    have place : 1*hs+0*c.kvHeadDim+0 = 0*hs+hs/c.kvHeadDim*c.kvHeadDim+hs%c.kvHeadDim := by
      have split := Nat.div_add_mod' hs c.kvHeadDim
      omega
    change Pointer.mk _ (u64 (_+4*(1*hs+0*c.kvHeadDim+0))) = ⟨_,u64 (_+4*(0*hs+hs/c.kvHeadDim*c.kvHeadDim+hs%c.kvHeadDim))⟩
    rw [place]
    rfl)
  exact nomatch one

-- The cells collide or leave the arena exactly where a size of the planner or the 32-bit
-- stride of op_attn is cut; a layer of a multiple of 2^63 bytes has no cells at all.
theorem kvCells_apart_iff {arenaAlloc : BackendType → Nat → Bool}
    (built : cacheBuildAttnKvcache arenaAlloc c ctxSize nodes = some layout) :
    CellsApart c nodes layout ↔ kvTotal c ctxSize%2^63 = 0 ∨
      (∀ b,2*attnLayers c nodes b*kvTotal c ctxSize < 2^64) ∧
        (0 < attnLayers c nodes .cpu → c.nKvHead ≤ 1 ∨ ctxSize*c.kvHeadDim < 2^32) := by
  have laid := cacheBuild_laid built
  constructor
  · intro apart
    by_cases wrapped : kvTotal c ctxSize%2^63 = 0
    · exact Or.inl wrapped
    · exact Or.inr ⟨fits_of_apart laid apart wrapped,stride_of_apart laid apart wrapped⟩
  · rintro (wrapped | ⟨fits,stride⟩)
    · exact ⟨fun _ _ _ _ here => absurd here (unaddressed laid wrapped),fun _ _ here => absurd here (unaddressed laid wrapped)⟩
    · exact cells_apart laid fits stride

end Exactness

def attnNode (layer : Nat) (backend : BackendType) : GraphNode := ⟨.attn,layer,backend,[],[],[layer,0],0⟩

-- One layer on each side of a split.
theorem splitLayers_apart : ∃ layout,cacheBuildAttnKvcache (fun _ _ => true) ⟨32,8,128,128,128,4096,2,32000⟩ 32768
    [attnNode 0 .cuda,attnNode 1 .cpu] = some layout ∧
    CellsApart ⟨32,8,128,128,128,4096,2,32000⟩ [attnNode 0 .cuda,attnNode 1 .cpu] layout := by
  obtain ⟨layout,built⟩ : ∃ layout,cacheBuildAttnKvcache (fun _ _ => true) ⟨32,8,128,128,128,4096,2,32000⟩ 32768
    [attnNode 0 .cuda,attnNode 1 .cpu] = some layout := ⟨_,rfl⟩
  refine ⟨layout,built,(kvCells_apart_iff built).mpr (Or.inr ⟨?_,?_⟩)⟩
  · intro b
    cases b <;> decide
  · decide

-- Two heads of width 128 at a context of 2^25: their strides are 0.
theorem longContext_collides : ¬ ∀ (arenaAlloc : BackendType → Nat → Bool) (c : ArchConfig) (ctxSize : Nat) (nodes : List GraphNode)
    (layout : KvLayout),ctxSize < 2^32 → c.nKvHead < 2^32 → c.kvHeadDim < 2^32 →
      cacheBuildAttnKvcache arenaAlloc c ctxSize nodes = some layout → CellsApart c nodes layout := by
  intro all
  obtain ⟨layout,built⟩ : ∃ layout,cacheBuildAttnKvcache (fun _ _ => true) ⟨16,2,128,128,128,2048,1,32000⟩ (2^25) [attnNode 0 .cpu] =
    some layout := ⟨_,rfl⟩
  have apart := all _ _ _ _ layout (by decide) (by decide) (by decide) built
  have stride := stride_of_apart (cacheBuild_laid built) apart (by decide) (by decide)
  revert stride
  decide

end TinyLlama.Graph
