import TinyLlama.Engine.Shapes
import TinyLlama.Graph.Execute

-- op_attn's two integer divisions, and core.c's head counts that reach them.
namespace TinyLlama.Engine
open Gguf TinyLlama.Graph

-- a / b of two u32. Nothing defines a division by 0.
def quotient (a b : Nat) : Option Nat := if b = 0 then none else some (a/b)

-- gqa = n_head / n_kv
def groupSize (c : Cpu.AttnConfig) : Option Nat := quotient c.nHead c.nKvHead

-- kv_h = h / gqa
def kvHead (c : Cpu.AttnConfig) (h : Nat) : Option Nat := (groupSize c).bind (quotient h)

-- Where op_attn reads K and V for a head: the stride between heads is cut to 32 bits.
def headCell (c : Cpu.AttnConfig) (cap k pos d : Nat) : Nat := k*u32 (cap*c.kvHeadDim)+pos*c.kvHeadDim+d

structure GroupedSafely (c : Cpu.AttnConfig) : Prop where
  group : ∃ g, groupSize c = some g ∧ g ≠ 0
  heads : ∀ h < c.nHead, ∃ k, kvHead c h = some k ∧ k < c.nKvHead ∧
    ∀ cap, ∀ pos < cap, ∀ d < c.kvHeadDim, headCell c cap k pos d < cap*c.nKvHead*c.kvHeadDim

theorem quotient_some (found : quotient a b = some q) : b ≠ 0 ∧ q = a/b := by
  unfold quotient at found
  split at found
  · cases found
  · next some' => exact ⟨some',(Option.some.inj found).symm⟩

theorem quotient_eq (some' : b ≠ 0) : quotient a b = some (a/b) := if_neg some'

-- The head that op_attn takes, wherever it takes one.
theorem kvHead_some {c : Cpu.AttnConfig} (found : kvHead c h = some k) : k = h/c.gqa := by
  obtain ⟨g,size,found⟩ := Option.bind_eq_some_iff.mp found
  obtain ⟨_,rfl⟩ := quotient_some size
  exact (quotient_some found).2

theorem headCell_lt {c : Cpu.AttnConfig} (head : k < c.nKvHead) (below : pos < cap) (dim : d < c.kvHeadDim) :
    headCell c cap k pos d < cap*c.nKvHead*c.kvHeadDim := by
  have stride : k*u32 (cap*c.kvHeadDim) ≤ k*(cap*c.kvHeadDim) := Nat.mul_le_mul_left k (Nat.mod_le _ _)
  have row : pos*c.kvHeadDim+d < cap*c.kvHeadDim := by
    have filled : (pos+1)*c.kvHeadDim ≤ cap*c.kvHeadDim := Nat.mul_le_mul_right _ below
    rw [Nat.add_mul,Nat.one_mul] at filled
    omega
  have heads : (k+1)*(cap*c.kvHeadDim) ≤ c.nKvHead*(cap*c.kvHeadDim) := Nat.mul_le_mul_right _ head
  have cells : cap*c.nKvHead*c.kvHeadDim = c.nKvHead*(cap*c.kvHeadDim) := by ring
  rw [Nat.add_mul,Nat.one_mul] at heads
  unfold headCell
  omega

theorem groups_iff {nHead nKv : Nat} (some' : nKv ≠ 0) :
    (nHead/nKv ≠ 0 ∧ ∀ h < nHead,h/(nHead/nKv) < nKv) ↔ nHead ≠ 0 ∧ nKv ∣ nHead := by
  constructor
  · rintro ⟨size,heads⟩
    have some'' : nHead ≠ 0 := fun none' => size (by rw [none',Nat.zero_div])
    refine ⟨some'',Nat.dvd_iff_mod_eq_zero.mpr ?_⟩
    by_contra rest
    have split := Nat.div_add_mod nHead nKv
    -- the head behind the last group
    have last := heads (nKv*(nHead/nKv)) (by omega)
    rw [Nat.mul_div_cancel _ (Nat.pos_of_ne_zero size)] at last
    omega
  · rintro ⟨some'',q,rfl⟩
    have positive : 0 < q := Nat.pos_of_ne_zero (right_ne_zero_of_mul some'')
    rw [Nat.mul_div_cancel_left q (Nat.pos_of_ne_zero some')]
    exact ⟨positive.ne',fun h below => (Nat.div_lt_iff_lt_mul positive).mpr below⟩

theorem groupedSafely_iff {c : Cpu.AttnConfig} : GroupedSafely c ↔ c.nHead ≠ 0 ∧ c.nKvHead ≠ 0 ∧ c.nKvHead ∣ c.nHead := by
  constructor
  · rintro ⟨⟨g,size,some'⟩,heads⟩
    obtain ⟨kv,rfl⟩ := quotient_some size
    have grouped := (groups_iff kv).mp ⟨some',fun h below => by
      obtain ⟨k,found,small,_⟩ := heads h below
      rwa [kvHead_some found] at small⟩
    exact ⟨grouped.1,kv,grouped.2⟩
  · rintro ⟨some',kv,divides⟩
    obtain ⟨size,heads⟩ := (groups_iff kv).mpr ⟨some',divides⟩
    have group : groupSize c = some c.gqa := quotient_eq kv
    refine ⟨⟨c.gqa,group,size⟩,fun h below => ⟨h/c.gqa,?_,heads h below,fun cap pos room d dim => ?_⟩⟩
    · rw [kvHead,group]
      exact quotient_eq size
    · exact headCell_lt (heads h below) room dim

section models
variable {m : Model} {s s' : Session} {ws : ArchWorkspace} {blocks : List Nat} {read : Floats} {granted : List Nat → Nat → Bool}

theorem archInit_cfg (init : archInit m s read granted = some (s',ws,blocks)) : s'.cfg = s.cfg := by
  unfold archInit at init
  split at init <;> cases init <;> rfl

-- The counts of the metadata. Without head_count_kv every head has its own K and V.
theorem groupedHeads_iff {w : Weights}
    (init : archInit m (sessionOf m w vocabSize ctxSize nGpuLayers) read granted = some (s,ws,blocks)) :
    GroupedSafely (attnConfig s.cfg) ↔ tryI32 m "attention.head_count" 0 ≠ 0 ∧
      (tryI32 m "attention.head_count_kv" 0 = 0 ∨ tryI32 m "attention.head_count_kv" 0 ∣ tryI32 m "attention.head_count" 0) := by
  rw [archInit_cfg init,groupedSafely_iff]
  change tryI32 m "attention.head_count" 0 ≠ 0 ∧ (archConfigInit m w vocabSize).nKvHead ≠ 0 ∧
    (archConfigInit m w vocabSize).nKvHead ∣ tryI32 m "attention.head_count" 0 ↔ _
  have counts : (archConfigInit m w vocabSize).nKvHead = if tryI32 m "attention.head_count_kv" 0 = 0
      then tryI32 m "attention.head_count" 0 else tryI32 m "attention.head_count_kv" 0 := rfl
  rw [counts]
  split
  · next own => simp [own]
  · next kv => simp [kv]

end models

def groupedLayout (heads kvHeads : Nat) : Layout :=
  ⟨[⟨cstr "general.architecture",.string (cstr "llama")⟩,entryU32 "llama.attention.head_count" heads,
    entryU32 "llama.attention.head_count_kv" kvHeads],
   [⟨cstr "token_embd.weight",[2*heads,4],0,0⟩,⟨cstr "output_norm.weight",[2*heads],0,0⟩,
    ⟨cstr "blk.0.attn_norm.weight",[2*heads],0,0⟩,⟨cstr "blk.0.attn_q.weight",[2*heads,2*heads],0,0⟩,
    ⟨cstr "blk.0.attn_k.weight",[2*heads,2*kvHeads],0,0⟩,⟨cstr "blk.0.attn_v.weight",[2*heads,2*kvHeads],0,0⟩,
    ⟨cstr "blk.0.attn_output.weight",[2*heads,2*heads],0,0⟩,⟨cstr "blk.0.ffn_norm.weight",[2*heads],0,0⟩,
    ⟨cstr "blk.0.ffn_gate.weight",[2*heads,3],0,0⟩,⟨cstr "blk.0.ffn_up.weight",[2*heads,3],0,0⟩,
    ⟨cstr "blk.0.ffn_down.weight",[3,2*heads],0,0⟩],
   List.replicate (16*heads*heads+32) 0⟩

def groupedFile (heads kvHeads : Nat) (fits : (groupedLayout heads kvHeads).encode.length < addressSpace) : MappedFile :=
  ⟨(groupedLayout heads kvHeads).encode,fits⟩

theorem three_fits : (groupedLayout 3 2).encode.length < addressSpace := by decide +kernel

theorem four_fits : (groupedLayout 4 2).encode.length < addressSpace := by decide +kernel

def attends (g : Graph) : Bool := (List.range g.nodes.length).any (isAttn g.nodes)

theorem three_attends : (load (groupedFile 3 2 three_fits)).any (fun x => attends x.g && decide (attnConfig x.s.cfg = ⟨3,2,2,2⟩)) = true := by
  decide +kernel

-- The third head reads behind the two heads of the cache.
theorem threeHeads_unsafe : ∃ m w s ws blocks g, modelLoad (groupedFile 3 2 three_fits) = .ok m ∧ weightsLoad m = .ok w ∧
    archInit m (sessionOf m w 4 8 0) noFloats (fun _ _ => true) = some (s,ws,blocks) ∧ archBuild s ws 2 = some g ∧
    attends g = true ∧ ¬ GroupedSafely (attnConfig s.cfg) := by
  obtain ⟨x,loaded,found⟩ := (Option.any_eq_true _ _).mp three_attends
  obtain ⟨attn,counts⟩ := (Bool.and_eq_true _ _).mp found
  obtain ⟨parsed,weights,init,built⟩ := load_parts loaded
  refine ⟨x.m,x.w,x.s,x.ws,x.blocks,x.g,parsed,weights,init,built,attn,fun safe => ?_⟩
  rw [of_decide_eq_true counts,groupedSafely_iff] at safe
  exact absurd safe.2.2 (by decide)

theorem four_attends : (load (groupedFile 4 2 four_fits)).any (fun x => attends x.g &&
    decide (tryI32 x.m "attention.head_count" 0 = 4 ∧ tryI32 x.m "attention.head_count_kv" 0 = 2)) = true := by decide +kernel

theorem fourHeads_safe : ∃ m w s ws blocks g, modelLoad (groupedFile 4 2 four_fits) = .ok m ∧ weightsLoad m = .ok w ∧
    archInit m (sessionOf m w 4 8 0) noFloats (fun _ _ => true) = some (s,ws,blocks) ∧ archBuild s ws 2 = some g ∧
    attends g = true ∧ GroupedSafely (attnConfig s.cfg) := by
  obtain ⟨x,loaded,found⟩ := (Option.any_eq_true _ _).mp four_attends
  obtain ⟨attn,counts⟩ := (Bool.and_eq_true _ _).mp found
  obtain ⟨parsed,weights,init,built⟩ := load_parts loaded
  obtain ⟨heads,kvHeads⟩ := of_decide_eq_true counts
  refine ⟨x.m,x.w,x.s,x.ws,x.blocks,x.g,parsed,weights,init,built,attn,?_⟩
  rw [groupedHeads_iff init,heads,kvHeads]
  decide

end TinyLlama.Engine
