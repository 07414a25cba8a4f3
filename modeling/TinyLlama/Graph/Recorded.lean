import TinyLlama.Graph.Streams
import TinyLlama.Graph.Widths

namespace TinyLlama.Graph
open Gguf Causal TinyLlama.Sweep

variable {β K : Type}

namespace Executor

def Call.ids (call : Call β K) : List Nat := (List.range call.nTokens).map call.tokens

def history (calls : List (Call β K)) : List Nat := calls.flatMap Call.ids

def tokenAt (ids : List Nat) (t : Nat) : Nat := ids.getD t 0

-- A session that is new or has been reset.
structure Fresh (p : Executor β K) (s : SessionState β K) : Prop where
  empty : s.nTokens = 0
  state : ∀ i,isRecurrent p.g i = true → s.state (handle p.g i) = fun _ => p.ops.zero

-- A session that has taken in these ids.
structure Recorded (p : Executor β K) (M : Meaning β K) (valid : Nat → Prop) (ids : List Nat) (s : SessionState β K) : Prop where
  nTokens : s.nTokens = ids.length
  room : ids.length ≤ p.ctxSize
  tokens : ∀ t < ids.length,s.tokens t = tokenAt ids t
  known : ∀ q < s.nTokens,valid (s.tokens q)
  tracks : p.Tracks M s.nTokens s

section Runs
variable {p : Executor β K} {M : Meaning β K} {valid : Nat → Prop} {s : SessionState β K} {call : Call β K} {ids : List Nat}

theorem Call.ids_length (call : Call β K) : call.ids.length = call.nTokens := by rw [ids,List.length_map,List.length_range]

theorem Call.ids_token (call : Call β K) {t : Nat} (below : t < call.nTokens) : tokenAt call.ids t = call.tokens t := by
  rw [tokenAt,ids,List.getD_eq_getElem _ _ (by simpa using below),List.getElem_map,List.getElem_range]

theorem tokenAt_left (ids more : List Nat) {t : Nat} (below : t < ids.length) : tokenAt (ids++more) t = tokenAt ids t :=
  List.getD_append ids more 0 t below

theorem tokenAt_right (ids more : List Nat) {t : Nat} (past : ids.length ≤ t) : tokenAt (ids++more) t = tokenAt more (t-ids.length) :=
  List.getD_append_right ids more 0 t past

theorem Fresh.recorded (fresh : p.Fresh s) (rowwise : p.Rowwise M valid) : p.Recorded M valid [] s := by
  refine ⟨fresh.empty,Nat.zero_le _,fun t none' => absurd none' (Nat.not_lt_zero t),fun q none' => ?_,?_⟩
  · rw [fresh.empty] at none'
    exact absurd none' (Nat.not_lt_zero q)
  rw [fresh.empty]
  refine ⟨fun i _ h _ q none' => absurd none' (Nat.not_lt_zero q),fun i _ h _ q none' => absurd none' (Nat.not_lt_zero q),fun i recurrent => ?_⟩
  have zero : p.stateAt 0 i s = M.fresh := by
    rw [rowwise.fresh,stateAt,fresh.state i recurrent]
    split <;> rfl
  rw [zero,heldState]
  cases p.g[i]? with
  | none => rfl
  | some node => rfl

theorem Own.owned (own : p.Own) : p.Owned := by
  intro i j recurrent recurrent' same
  rw [own.recurrent j i recurrent' recurrent same]

theorem Recorded.grow (recorded : p.Recorded M valid ids s) (ready : p.Ready M valid) (own : ∀ t < call.nTokens,valid (call.tokens t))
    (ended : (p.graphExecute call s).2 = true) :
    p.Recorded M valid (ids++call.ids) (p.graphExecute call s).1 ∧
      p.Tells M (tokenAt (ids++call.ids)) ((ids++call.ids).length-1) (p.graphExecute call s).1.logits := by
  obtain ⟨tracks,tells,count,room,tokens⟩ := graphExecute_tells ready own recorded.known recorded.tracks ended
  have length : (ids++call.ids).length = s.nTokens+call.nTokens := by rw [List.length_append,call.ids_length,recorded.nTokens]
  have same : ∀ t < (ids++call.ids).length,(p.graphExecute call s).1.tokens t = tokenAt (ids++call.ids) t := by
    intro t below
    rw [tokens t (length ▸ below)]
    split
    · next late =>
      rw [tokenAt_right _ _ (recorded.nTokens ▸ late),call.ids_token (by have := recorded.nTokens; omega),recorded.nTokens]
    · next early =>
      have inside : t < ids.length := recorded.nTokens ▸ not_le.mp early
      rw [tokenAt_left _ _ inside,recorded.tokens t inside]
  have known : ∀ q < (p.graphExecute call s).1.nTokens,valid ((p.graphExecute call s).1.tokens q) := by
    intro q below
    rw [tokens q (count ▸ below)]
    split
    · exact own _ (by omega)
    · exact recorded.known q (by omega)
  refine ⟨⟨count.trans length.symm,length ▸ room,same,known,tracks⟩,?_⟩
  have some' : call.nTokens ≠ 0 := by
    intro none'
    rw [graphExecute,if_pos (.inl none')] at ended
    cases ended
  unfold Tells at tells ⊢
  rw [tells,count,← length]
  exact congrArg _ (output_upto (fun r upto => same r (by omega)) _ _ le_rfl)

theorem Recorded.stay (recorded : p.Recorded M valid ids s) (ready : p.Ready M valid) (harmless : p.Harmless call s)
    (failed : (p.graphExecute call s).2 = false) : p.Recorded M valid ids (p.graphExecute call s).1 := by
  have similar := graphExecute_failed ready.unwrapped ready.own.owned harmless failed
  have tracks := recorded.tracks
  refine ⟨similar.nTokens.trans recorded.nTokens,recorded.room,fun t below => ?_,fun q below => ?_,?_⟩
  · rw [similar.tokens t (recorded.nTokens ▸ below)]
    exact recorded.tokens t below
  · rw [similar.nTokens] at below
    rw [similar.tokens q below]
    exact recorded.known q below
  · rw [similar.nTokens]
    refine ⟨fun i attn h head q low d small => ?_,fun i attn h head q low d small => ?_,fun i recurrent => ?_⟩
    · rw [similar.agree.k i attn h head q low d small,tracks.k i attn h head q low d small]
      exact heldCell_upto (fun r upto => (similar.tokens r (upto.trans_lt low)).symm) i 1 h d
    · rw [similar.agree.v i attn h head q low d small,tracks.v i attn h head q low d small]
      exact heldCell_upto (fun r upto => (similar.tokens r (upto.trans_lt low)).symm) i 2 h d
    · have before := tracks.state i recurrent
      rw [heldState_upto fun r low => similar.tokens r low]
      cases similar.agree.state i recurrent with
      | inl same =>
        rw [← before,stateAt,stateAt,same]
      | inr restarted =>
        rw [← before,stateAt,stateAt]
        exact (if_pos restarted).trans (if_pos restarted).symm

theorem run_recorded (ready : p.Ready M valid) (calls : List (Call β K)) : ∀ (ids : List Nat) (s : SessionState β K),
    (∀ call ∈ calls,∀ t < call.nTokens,valid (call.tokens t)) → p.HarmlessRun calls s → p.Recorded M valid ids s → p.Recorded M valid (ids++history (p.kept calls s)) (p.run calls s).2 := by
  induction calls with
  | nil =>
    intro ids s _ _ recorded
    rw [kept,history,List.flatMap_nil,List.append_nil]
    exact recorded
  | cons call rest ih =>
    intro ids s known harmless recorded
    have rest' := fun call' listed => known call' (List.mem_cons_of_mem _ listed)
    obtain ⟨own,later⟩ := harmless
    rw [kept]
    by_cases ok : (p.graphExecute call s).2 = true
    · rw [if_pos ok,history,List.flatMap_cons,← List.append_assoc]
      exact ih _ _ rest' later (recorded.grow ready (known call List.mem_cons_self) ok).1
    · have failed : (p.graphExecute call s).2 = false := by simpa using ok
      rw [if_neg ok]
      exact ih _ _ rest' later (recorded.stay ready (own failed) failed)

theorem run_then_tells (ready : p.Ready M valid) (fresh : p.Fresh s) (calls : List (Call β K))
    (known : ∀ call' ∈ call :: calls,∀ t < call'.nTokens,valid (call'.tokens t)) (harmless : p.HarmlessRun calls s)
    (ended : (p.graphExecute call (p.run calls s).2).2 = true) :
    let ids := history (p.kept calls s)++call.ids
    ids.length ≤ p.ctxSize ∧ p.Tells M (tokenAt ids) (ids.length-1) (p.graphExecute call (p.run calls s).2).1.logits := by
  have recorded := run_recorded ready calls [] s (fun call' listed => known call' (List.mem_cons_of_mem _ listed)) harmless
    (fresh.recorded ready.rowwise)
  obtain ⟨after,tells⟩ := recorded.grow ready (known call List.mem_cons_self) ended
  exact ⟨after.room,tells⟩

end Runs

end Executor

end TinyLlama.Graph
