import TinyLlama.Graph.Execute

namespace TinyLlama.Graph
open Slots TinyLlama.Sweep

variable {β K : Type}

namespace Executor

def place (p : Executor β K) (h q d : Nat) : Nat := Cpu.cell (attnConfig p.c) p.ctxSize h q d

-- The cached rows of the attention layers below a position.
def Below (p : Executor β K) (pos : Nat) (k k' : Nat → Nat → K) : Prop :=
  ∀ i,isAttn p.g i = true → ∀ h < p.c.nKvHead,∀ q < pos,∀ d < p.c.kvHeadDim,k (handle p.g i) (p.place h q d) = k' (handle p.g i) (p.place h q d)

-- The device starts the state of node i anew.
def Restarted (p : Executor β K) (pos i : Nat) : Prop := pos = 0 ∧ backendOf p.g i = .metal

-- What calls from a position on can see of a session.
structure Agree (p : Executor β K) (pos : Nat) (s s' : SessionState β K) : Prop where
  k : p.Below pos s.k s'.k
  v : p.Below pos s.v s'.v
  state : ∀ i,isRecurrent p.g i = true → s.state (handle p.g i) = s'.state (handle p.g i) ∨ p.Restarted pos i
  logits : ∀ a,(∀ i,sinkNode p.g = some i → p.publishedBytes i ≤ a) → s.logits a = s'.logits a

-- No head's rows overlap another's: its stride has not wrapped.
def Unwrapped (p : Executor β K) : Prop := p.c.nKvHead ≤ 1 ∨ ∀ i,isAttn p.g i = true → p.stride i = p.ctxSize*p.c.kvHeadDim

section Cells
variable {p : Executor β K} {pos n i : Nat} {k k' : Nat → Nat → K}

theorem Unwrapped.strides (unwrapped : p.Unwrapped) (attn : isAttn p.g i = true) : Cpu.Strides (attnConfig p.c) p.ctxSize (p.stride i) := by
  intro h head
  rcases unwrapped with one | all
  · have only : h = 0 := by
      have bound : h < p.c.nKvHead := head
      omega
    rw [only,Nat.zero_mul,Nat.zero_mul]
  · rw [all i attn]
    rfl

theorem below_refl (p : Executor β K) (pos : Nat) (k : Nat → Nat → K) : p.Below pos k k := fun _ _ _ _ _ _ _ _ => rfl

theorem Below.symm (below : p.Below pos k k') : p.Below pos k' k := fun i attn h head q low d small => (below i attn h head q low d small).symm

theorem Below.trans {k'' : Nat → Nat → K} (one : p.Below pos k k') (two : p.Below pos k' k'') : p.Below pos k k'' :=
  fun i attn h head q low d small => (one i attn h head q low d small).trans (two i attn h head q low d small)

theorem Below.shorter {base : Nat} (below : p.Below pos k k') (low : base ≤ pos) : p.Below base k k' :=
  fun i attn h head q under d small => below i attn h head q (under.trans_le low) d small

theorem write_below {base : Nat} (strides : Cpu.Strides (attnConfig p.c) p.ctxSize (p.stride i)) (low : base ≤ pos)
    (room : pos+n ≤ p.ctxSize) (src : Nat → K) (k : Nat → Nat → K) :
    p.Below base (Function.update k (handle p.g i) (Cpu.kvWrite (attnConfig p.c) (p.stride i) pos n src (k (handle p.g i)))) k := by
  intro j _ h head q under d small
  rw [Function.update_apply]
  split
  · next same =>
    rw [place,Cpu.kvWrite_cell strides room head (by omega) small,if_neg (by omega),same]
  · rfl

end Cells

section Frames
variable {p : Executor β K} {pos n i base : Nat} {s s' s'' : SessionState β K} {fault : Nat → Option (Fault β K)}

-- What a forward pass leaves alone.
structure Framed (p : Executor β K) (base : Nat) (s s' : SessionState β K) : Prop where
  nTokens : s'.nTokens = s.nTokens
  tokens : s'.tokens = s.tokens
  logits : ∀ a,(∀ i,sinkNode p.g = some i → p.publishedBytes i ≤ a) → s'.logits a = s.logits a
  k : p.Below base s'.k s.k
  v : p.Below base s'.v s.v

theorem framed_refl (p : Executor β K) (base : Nat) (s : SessionState β K) : p.Framed base s s :=
  ⟨rfl,rfl,fun _ _ => rfl,p.below_refl base s.k,p.below_refl base s.v⟩

theorem Framed.trans (one : p.Framed base s s') (two : p.Framed base s' s'') : p.Framed base s s'' :=
  ⟨two.nTokens.trans one.nTokens,two.tokens.trans one.tokens,fun a past => (two.logits a past).trans (one.logits a past),
    two.k.trans one.k,two.v.trans one.v⟩

theorem opCompute_framed (unwrapped : p.Unwrapped) (low : base ≤ pos) (room : pos+n ≤ p.ctxSize) (s : SessionState β K) :
    p.Framed base s (p.opCompute pos n i s) := by
  unfold opCompute
  split
  · next attn =>
    have strides := unwrapped.strides attn
    exact ⟨rfl,rfl,fun _ _ => rfl,write_below strides low room _ s.k,write_below strides low room _ s.v⟩
  · split
    · exact ⟨rfl,rfl,fun _ _ => rfl,p.below_refl base s.k,p.below_refl base s.v⟩
    · exact ⟨rfl,rfl,fun _ _ => rfl,p.below_refl base s.k,p.below_refl base s.v⟩

theorem debris_framed (unwrapped : p.Unwrapped) (low : base ≤ pos) (room : pos+n ≤ p.ctxSize) (fault : Fault β K) (s : SessionState β K) :
    p.Framed base s (p.debris pos n i fault s) := by
  unfold debris
  by_cases attn : isAttn p.g i = true
  · have strides := unwrapped.strides attn
    refine ⟨rfl,rfl,fun _ _ => rfl,?_,?_⟩
    · simp only [if_pos attn]
      exact write_below strides low room _ s.k
    · simp only [if_pos attn]
      exact write_below strides low room _ s.v
  · refine ⟨rfl,rfl,fun _ _ => rfl,?_,?_⟩
    · simp only [if_neg attn]
      exact p.below_refl base s.k
    · simp only [if_neg attn]
      exact p.below_refl base s.v

theorem computeNode_framed (unwrapped : p.Unwrapped) (low : base ≤ pos) (room : pos+n ≤ p.ctxSize) (s : SessionState β K) :
    p.Framed base s (p.computeNode fault pos n i s).1 := by
  unfold computeNode
  split
  · exact framed_refl p base s
  · split
    · exact framed_refl p base s
    · split
      · exact debris_framed unwrapped low room _ s
      · exact opCompute_framed unwrapped low room s

theorem computeNodes_framed (unwrapped : p.Unwrapped) (low : base ≤ pos) (room : pos+n ≤ p.ctxSize) (nodes : List Nat) (s : SessionState β K) :
    p.Framed base s (p.computeNodes fault pos n nodes s).1 := by
  induction nodes generalizing s with
  | nil => exact framed_refl p base s
  | cons i rest ih =>
    have node := @computeNode_framed β K p pos n i base fault unwrapped low room s
    rw [computeNodes]
    generalize p.computeNode fault pos n i s = out at node
    obtain ⟨s',ok⟩ := out
    cases ok with
    | true => exact node.trans (ih s')
    | false => exact node

-- A recurrent state changes where its own op runs, or fails as it starts the state anew.
theorem computeNode_state (j : Nat) (s : SessionState β K) :
    (p.computeNode fault pos n i s).1.state (handle p.g j) = s.state (handle p.g j) ∨
      isRecurrent p.g i = true ∧ handle p.g j = handle p.g i ∧ isInput p.g i = false ∧ (fault i = none ∨ p.Restarted pos i) := by
  unfold computeNode
  split
  · exact .inl rfl
  · next node =>
    have node' : isInput p.g i = false := by simpa using node
    split
    · exact .inl rfl
    · by_cases same : isRecurrent p.g i = true ∧ handle p.g j = handle p.g i
      · obtain ⟨recurrent,same⟩ := same
        split
        · next fault _ =>
          by_cases restarted : p.Restarted pos i
          · exact .inr ⟨recurrent,same,node',.inr restarted⟩
          · exact .inl (congrFun (if_neg fun all => restarted all.2) _)
        · next none' => exact .inr ⟨recurrent,same,node',.inl none'⟩
      · refine .inl ?_
        split
        · unfold debris
          dsimp only
          split
          · next all => exact Function.update_of_ne (fun eq => same ⟨all.1,eq⟩) _ _
          · rfl
        · unfold opCompute
          split
          · rfl
          · split
            · next recurrent => exact Function.update_of_ne (fun eq => same ⟨recurrent,eq⟩) _ _
            · rfl

theorem computeNode_done {s : SessionState β K} (done : (p.computeNode fault pos n i s).2 = true) (node : isInput p.g i = false) :
    fault i = none := by
  unfold computeNode at done
  rw [if_neg (by simp [node])] at done
  split at done
  · exact absurd done Bool.false_ne_true
  · split at done
    · exact absurd done Bool.false_ne_true
    · next none' => exact none'

theorem computeNodes_done (nodes : List Nat) (s : SessionState β K) (done : (p.computeNodes fault pos n nodes s).2 = true) :
    ∀ r ∈ nodes,isInput p.g r = false → fault r = none := by
  induction nodes generalizing s with
  | nil =>
    intro r member
    cases member
  | cons i rest ih =>
    intro r member node
    have own := @computeNode_done β K p pos n i fault s
    rw [computeNodes] at done
    generalize p.computeNode fault pos n i s = out at done own
    obtain ⟨s',ok⟩ := out
    cases ok with
    | false => exact absurd done Bool.false_ne_true
    | true =>
      cases List.mem_cons.mp member with
      | inr later => exact ih s' done r later node
      | inl here =>
        subst here
        exact own rfl node

-- The nodes of a state lie on one backend.
def Owned (p : Executor β K) : Prop := ∀ i j,isRecurrent p.g i = true → isRecurrent p.g j = true → handle p.g j = handle p.g i →
  backendOf p.g j = backendOf p.g i

-- A walk that fails at or before a recurrent node has not advanced its state.
theorem computeNodes_state (owned : p.Owned) (len : Nat) : ∀ lo (s : SessionState β K),
    (∀ j,isRecurrent p.g j = true → p.Restarted pos j ∨ ∃ r,lo ≤ r ∧ r ≤ j ∧ isInput p.g r = false ∧ fault r ≠ none) →
      ∀ j,isRecurrent p.g j = true → (p.computeNodes fault pos n (List.range' lo len) s).1.state (handle p.g j) = s.state (handle p.g j) ∨
        p.Restarted pos j := by
  induction len with
  | zero => exact fun lo s _ j _ => .inl rfl
  | succ len ih =>
    intro lo s early j recurrent
    have node := @computeNode_state β K p pos n lo fault j s
    rw [List.range'_succ,computeNodes]
    -- What the node at hand has changed, its device starts anew.
    have kept : (p.computeNode fault pos n lo s).1.state (handle p.g j) = s.state (handle p.g j) ∨ p.Restarted pos j := by
      rcases node with same | ⟨own,handles,input,ran⟩
      · exact .inl same
      · have backends := owned lo j own recurrent handles
        have restarted : p.Restarted pos lo := by
          rcases ran with ran | restarted
          · rcases early lo own with restarted | ⟨r,low,high,_,failed⟩
            · exact restarted
            · have here : r = lo := by omega
              exact absurd ran (here ▸ failed)
          · exact restarted
        exact .inr ⟨restarted.1,backends.trans restarted.2⟩
    have step := @computeNode_done β K p pos n lo fault s
    generalize p.computeNode fault pos n lo s = out at kept step
    obtain ⟨s',ok⟩ := out
    cases ok with
    | false => exact kept
    | true =>
      have rest := ih (lo+1) s' (fun j recurrent => ?_) j recurrent
      · rcases rest with same | restarted
        · rcases kept with same' | restarted
          · exact .inl (same.trans same')
          · exact .inr restarted
        · exact .inr restarted
      · rcases early j recurrent with restarted | ⟨r,low,high,input,failed⟩
        · exact .inl restarted
        · have past : r ≠ lo := by
            rintro rfl
            exact failed (step rfl input)
          exact .inr ⟨r,by omega,high,input,failed⟩

end Frames

section Failed
variable {p : Executor β K} {base : Nat} {s s' : SessionState β K} {fault : Nat → Option (Fault β K)} {call : Call β K}

theorem bindInputs_spec (b : GraphBatch) (nodes : List Nat) (s : SessionState β K) :
    ∃ mem,(p.bindInputs b nodes s).1 = {s with mem:=mem} := by
  induction nodes generalizing s with
  | nil => exact ⟨s.mem,rfl⟩
  | cons i rest ih =>
    unfold bindInputs
    split
    · split
      · exact ⟨s.mem,rfl⟩
      · obtain ⟨mem,same⟩ := ih {s with mem:=p.put b.n i (fun a => p.ops.idByte (b.tokens (a/4)) (a%4)) s.mem}
        exact ⟨mem,same⟩
    · exact ih s

theorem publish_spec (n : Nat) (s : SessionState β K) :
    ∃ logits,p.publish n s = {s with logits:=logits} ∧
      ∀ a,(∀ i,sinkNode p.g = some i → p.publishedBytes i ≤ a) → logits a = s.logits a := by
  unfold publish
  cases sinkNode p.g with
  | none => exact ⟨s.logits,rfl,fun a _ => rfl⟩
  | some i =>
    refine ⟨_,rfl,fun a past => ?_⟩
    have bound := past i rfl
    rw [splice,if_neg (by omega)]

theorem graphCompute_framed (unwrapped : p.Unwrapped) (b : GraphBatch) (low : base ≤ b.pos) (s : SessionState β K) :
    p.Framed base s (p.graphCompute fault b s).1 := by
  unfold graphCompute
  split
  · exact framed_refl p base s
  · split
    · exact framed_refl p base s
    · split
      · exact framed_refl p base s
      · next room =>
        obtain ⟨mem,bound⟩ := @bindInputs_spec β K p b (List.range p.g.length) s
        generalize p.bindInputs b (List.range p.g.length) s = out at bound
        obtain ⟨s1,ok⟩ := out
        obtain rfl : s1 = {s with mem:=mem} := bound
        have start : p.Framed base s {s with mem:=mem} := ⟨rfl,rfl,fun _ _ => rfl,p.below_refl base s.k,p.below_refl base s.v⟩
        cases ok with
        | false => exact start
        | true =>
          dsimp only
          have walked := @computeNodes_framed β K p b.pos b.n base fault unwrapped low (by omega) (List.range p.g.length) {s with mem:=mem}
          generalize p.computeNodes fault b.pos b.n (List.range p.g.length) {s with mem:=mem} = out at walked
          obtain ⟨s2,ok⟩ := out
          cases ok with
          | false => exact start.trans walked
          | true =>
            obtain ⟨logits,published,outside⟩ := @publish_spec β K p b.n s2
            have copied : p.Framed base s2 {s2 with logits:=logits} := ⟨rfl,rfl,outside,p.below_refl base s2.k,p.below_refl base s2.v⟩
            dsimp only
            rw [published]
            exact start.trans (walked.trans copied)

-- The state of what is recurrent, where the walk fails early enough.
theorem graphCompute_state (owned : p.Owned) (b : GraphBatch) (s : SessionState β K)
    (early : ∀ j,isRecurrent p.g j = true → p.Restarted b.pos j ∨ ∃ r ≤ j,isInput p.g r = false ∧ fault r ≠ none) (j : Nat)
    (recurrent : isRecurrent p.g j = true) :
    (p.graphCompute fault b s).1.state (handle p.g j) = s.state (handle p.g j) ∨ p.Restarted b.pos j := by
  unfold graphCompute
  split
  · exact .inl rfl
  · split
    · exact .inl rfl
    · split
      · exact .inl rfl
      · obtain ⟨mem,bound⟩ := @bindInputs_spec β K p b (List.range p.g.length) s
        generalize p.bindInputs b (List.range p.g.length) s = out at bound
        obtain ⟨s1,ok⟩ := out
        obtain rfl : s1 = {s with mem:=mem} := bound
        cases ok with
        | false => exact .inl rfl
        | true =>
          dsimp only
          have walked := @computeNodes_state β K p b.pos b.n fault owned p.g.length 0 {s with mem:=mem} (fun j recurrent => by
            rcases early j recurrent with restarted | ⟨r,high,input,failed⟩
            · exact .inl restarted
            · exact .inr ⟨r,Nat.zero_le r,high,input,failed⟩) j recurrent
          rw [← List.range_eq_range'] at walked
          generalize p.computeNodes fault b.pos b.n (List.range p.g.length) {s with mem:=mem} = out at walked
          obtain ⟨s2,ok⟩ := out
          cases ok with
          | false => exact walked
          | true =>
            obtain ⟨logits,published,_⟩ := @publish_spec β K p b.n s2
            dsimp only
            rw [published]
            exact walked

theorem graphCompute_done (b : GraphBatch) (some' : b.n ≠ 0) (done : (p.graphCompute fault b s).2 = true) :
    ∀ r < p.g.length,isInput p.g r = false → fault r = none := by
  unfold graphCompute at done
  split at done
  · exact absurd done Bool.false_ne_true
  · split at done
    · exact absurd done Bool.false_ne_true
    · generalize p.bindInputs b (List.range p.g.length) s = out at done
      obtain ⟨s1,ok⟩ := out
      cases ok with
      | false => exact absurd done Bool.false_ne_true
      | true =>
        dsimp only at done
        have walked := @computeNodes_done β K p b.pos b.n fault (List.range p.g.length) s1
        generalize p.computeNodes fault b.pos b.n (List.range p.g.length) s1 = out at done walked
        obtain ⟨s2,ok⟩ := out
        cases ok with
        | false => exact absurd done Bool.false_ne_true
        | true => exact fun r below => walked rfl r (List.mem_range.mpr below)

-- What micro-batches leave alone: the ids before them too.
structure Spared (p : Executor β K) (base : Nat) (s' s : SessionState β K) : Prop where
  nTokens : s'.nTokens = s.nTokens
  tokens : ∀ t < base,s'.tokens t = s.tokens t
  k : p.Below base s'.k s.k
  v : p.Below base s'.v s.v
  logits : ∀ a,(∀ i,sinkNode p.g = some i → p.publishedBytes i ≤ a) → s'.logits a = s.logits a

theorem spared_refl (p : Executor β K) (base : Nat) (s : SessionState β K) : p.Spared base s s :=
  ⟨rfl,fun _ _ => rfl,p.below_refl base s.k,p.below_refl base s.v,fun _ _ => rfl⟩

theorem Spared.trans {s'' : SessionState β K} (one : p.Spared base s s') (two : p.Spared base s' s'') : p.Spared base s s'' :=
  ⟨one.nTokens.trans two.nTokens,fun t low => (one.tokens t low).trans (two.tokens t low),one.k.trans two.k,one.v.trans two.v,
    fun a past => (one.logits a past).trans (two.logits a past)⟩

theorem microBatch_spared (unwrapped : p.Unwrapped) {pos : Nat} (low : base ≤ pos) (j done : Nat) (s : SessionState β K) :
    p.Spared base (p.microBatch call pos j done s).1 s := by
  have computed := @graphCompute_framed β K p base (call.fault j) unwrapped
    ⟨fun t => splice s.tokens (pos+done) (p.chunkSize call done) (fun t => call.tokens (done+t)) (pos+done+t),pos+done,p.chunkSize call done⟩
    (low.trans (Nat.le_add_right pos done)) {s with tokens:=splice s.tokens (pos+done) (p.chunkSize call done) fun t => call.tokens (done+t)}
  refine ⟨computed.nTokens,fun t below => (congrFun computed.tokens t).trans (if_neg ?_),computed.k,computed.v,computed.logits⟩
  omega

theorem microBatch_tokens (unwrapped : p.Unwrapped) (pos j done : Nat) (s : SessionState β K) :
    (p.microBatch call pos j done s).1.tokens = splice s.tokens (pos+done) (p.chunkSize call done) fun t => call.tokens (done+t) :=
  (@graphCompute_framed β K p 0 (call.fault j) unwrapped _ (Nat.zero_le _) _).tokens

theorem chunks_spared (unwrapped : p.Unwrapped) {pos : Nat} (low : base ≤ pos) (fuel : Nat) : ∀ j done (s : SessionState β K),
    p.Spared base (p.chunks call pos fuel j done s).1 s := by
  induction fuel with
  | zero => exact fun _ _ s => spared_refl p base s
  | succ fuel ih =>
    intro j done s
    have walked := @microBatch_spared β K p base call unwrapped pos low j done s
    rw [chunks]
    split
    · generalize p.microBatch call pos j done s = out at walked
      obtain ⟨s',ok⟩ := out
      cases ok with
      | true => exact (ih (j+1) _ s').trans walked
      | false => exact walked
    · exact spared_refl p base s

theorem flagged_lt {g : List GraphNode} {flag : GraphNode → Bool} {i : Nat} (flagged : ((g[i]?).map flag).getD false = true) : i < g.length := by
  by_contra past
  rw [List.getElem?_eq_none_iff.mpr (not_lt.mp past)] at flagged
  exact absurd flagged Bool.false_ne_true

-- What a failed call may do without a later call seeing it: be refused before its first
-- walk; or fail in its first micro-batch at or before each recurrent node whose device does
-- not start its state anew.
def Harmless (p : Executor β K) (call : Call β K) (s : SessionState β K) : Prop :=
  call.nTokens = 0 ∨ p.nUbatch = 0 ∨ s.nTokens+call.nTokens > p.ctxSize ∨
    ∀ j,isRecurrent p.g j = true → p.Restarted s.nTokens j ∨ ∃ r ≤ j,isInput p.g r = false ∧ call.fault 0 r ≠ none

structure Similar (p : Executor β K) (pos : Nat) (s s' : SessionState β K) : Prop where
  nTokens : s.nTokens = s'.nTokens
  tokens : ∀ t < pos,s.tokens t = s'.tokens t
  agree : p.Agree pos s s'

theorem similar_refl (p : Executor β K) (pos : Nat) (s : SessionState β K) : p.Similar pos s s :=
  ⟨rfl,fun _ _ => rfl,p.below_refl _ s.k,p.below_refl _ s.v,fun _ _ => .inl rfl,fun _ _ => rfl⟩

theorem Spared.similar (spared : p.Spared base s' s)
    (state : ∀ j,isRecurrent p.g j = true → s'.state (handle p.g j) = s.state (handle p.g j) ∨ p.Restarted base j) : p.Similar base s' s :=
  ⟨spared.nTokens,spared.tokens,spared.k,spared.v,state,spared.logits⟩

theorem graphExecute_failed (unwrapped : p.Unwrapped) (owned : p.Owned) (harmless : p.Harmless call s)
    (failed : (p.graphExecute call s).2 = false) : p.Similar s.nTokens (p.graphExecute call s).1 s := by
  unfold graphExecute at failed ⊢
  split
  · exact similar_refl p _ s
  · next some' =>
    rw [if_neg some'] at failed
    split
    · exact similar_refl p _ s
    · next room =>
      rw [if_neg room] at failed
      have early := ((harmless.resolve_left fun none' => some' (.inl none')).resolve_left fun none' => some' (.inr none')).resolve_left room
      have spared := @chunks_spared β K p s.nTokens call unwrapped s.nTokens le_rfl call.nTokens 0 0 s
      have state : ∀ j,isRecurrent p.g j = true →
          (p.chunks call s.nTokens call.nTokens 0 0 s).1.state (handle p.g j) = s.state (handle p.g j) ∨ p.Restarted s.nTokens j := by
        intro j recurrent
        obtain ⟨t,count⟩ : ∃ t,call.nTokens = t+1 := ⟨call.nTokens-1,by omega⟩
        have size : p.chunkSize call 0 ≠ 0 := by
          unfold chunkSize
          split <;> omega
        have walked : (p.microBatch call s.nTokens 0 0 s).1.state (handle p.g j) = s.state (handle p.g j) ∨ p.Restarted s.nTokens j :=
          graphCompute_state owned _ _ early j recurrent
        have all : (p.microBatch call s.nTokens 0 0 s).2 = true → ∀ r < p.g.length,isInput p.g r = false → call.fault 0 r = none :=
          graphCompute_done _ size
        rw [count,chunks,if_pos (by omega)]
        generalize p.microBatch call s.nTokens 0 0 s = out at walked all
        obtain ⟨s',ok⟩ := out
        cases ok with
        | false => exact walked
        | true =>
          -- The walk ended, so that nothing failed in it.
          rcases early j recurrent with restarted | ⟨r,high,input,fault⟩
          · exact .inr restarted
          · exact absurd (all rfl r (high.trans_lt (flagged_lt recurrent)) input) fault
      have similar := spared.similar state
      generalize p.chunks call s.nTokens call.nTokens 0 0 s = out at similar failed
      obtain ⟨s',ok⟩ := out
      cases ok with
      | true => exact absurd failed.symm Bool.false_ne_true
      | false => exact similar

end Failed

end Executor

end TinyLlama.Graph
