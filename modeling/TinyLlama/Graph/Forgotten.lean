import TinyLlama.Graph.Unseen
import TinyLlama.Cpu.Conv

namespace TinyLlama.Graph
open Gguf TinyLlama.Sweep

variable {β K : Type}

namespace Executor

section Calls
variable {p : Executor β K} {states : List Nat} {call : Call β K} {s s' : SessionState β K} {pos : Nat}

theorem Agree.shorter {q base : Nat} (agree : p.Agree q s s') (low : base ≤ q) : p.Agree base s s' := by
  refine ⟨agree.k.shorter low,agree.v.shorter low,fun j recurrent => ?_,agree.logits⟩
  rcases agree.state j recurrent with same | restarted
  · exact .inl same
  · exact .inr ⟨Nat.le_zero.mp (restarted.1 ▸ low),restarted.2⟩

theorem microBatch_outcome (unwrapped : p.Unwrapped) (addressed : p.Addressed states) (enclosed : p.Enclosed states) (built : WellBuilt p.g)
    (fits : Fits p.g p.c p.nUbatch) (some' : p.nUbatch ≠ 0) (j done : Nat) (more : done < call.nTokens) (similar : p.Similar (pos+done) s s') :
    let out := p.microBatch call pos j done s
    let out' := p.microBatch call pos j done s'
    out.2 = out'.2 ∧ (out.2 = true → p.Similar (pos+(done+p.chunkSize call done)) out.1 out'.1 ∧ out.1.logits = out'.1.logits) ∧
      (out.2 = false → p.Similar (pos+done) out.1 out'.1) := by
  intro out out'
  have size : p.chunkSize call done ≠ 0 ∧ p.chunkSize call done ≤ p.nUbatch := by
    unfold chunkSize
    split <;> omega
  have ids : ∀ t < p.chunkSize call done,
      splice s.tokens (pos+done) (p.chunkSize call done) (fun t => call.tokens (done+t)) (pos+done+t) =
        splice s'.tokens (pos+done) (p.chunkSize call done) (fun t => call.tokens (done+t)) (pos+done+t) := by
    intro t inside
    rw [splice,splice,if_pos (by omega),if_pos (by omega)]
  obtain ⟨same,ended,failed⟩ := @graphCompute_outcome β K p states
    {s with tokens:=splice s.tokens (pos+done) (p.chunkSize call done) fun t => call.tokens (done+t)}
    {s' with tokens:=splice s'.tokens (pos+done) (p.chunkSize call done) fun t => call.tokens (done+t)} (call.fault j) unwrapped addressed enclosed
    built fits
    ⟨fun t => splice s.tokens (pos+done) (p.chunkSize call done) (fun t => call.tokens (done+t)) (pos+done+t),pos+done,p.chunkSize call done⟩
    ⟨fun t => splice s'.tokens (pos+done) (p.chunkSize call done) (fun t => call.tokens (done+t)) (pos+done+t),pos+done,p.chunkSize call done⟩
    rfl rfl ids size.1 size.2 ⟨similar.agree.k,similar.agree.v,similar.agree.state,similar.agree.logits⟩
  have count : out.1.nTokens = out'.1.nTokens := by
    have left := @microBatch_spared β K p pos call unwrapped pos le_rfl j done s
    have right := @microBatch_spared β K p pos call unwrapped pos le_rfl j done s'
    exact left.nTokens.trans (similar.nTokens.trans right.nTokens.symm)
  have tokens : ∀ t < pos+(done+p.chunkSize call done),out.1.tokens t = out'.1.tokens t := by
    intro t below
    rw [show out.1.tokens = _ from microBatch_tokens unwrapped pos j done s,
      show out'.1.tokens = _ from microBatch_tokens unwrapped pos j done s',
      splice,splice]
    split
    · rfl
    · exact similar.tokens t (by omega)
  refine ⟨same,fun ok => ⟨⟨count,tokens,?_⟩,(ended ok).2⟩,fun bad => ⟨count,fun t below => tokens t (by omega),failed bad⟩⟩
  rw [← Nat.add_assoc]
  exact (ended ok).1

theorem chunks_outcome (unwrapped : p.Unwrapped) (addressed : p.Addressed states) (enclosed : p.Enclosed states) (built : WellBuilt p.g)
    (fits : Fits p.g p.c p.nUbatch) (some' : p.nUbatch ≠ 0) (fuel : Nat) :
    ∀ j done (s s' : SessionState β K),done ≤ call.nTokens → call.nTokens-done ≤ fuel → p.Similar (pos+done) s s' →
      (call.nTokens ≤ done → s.logits = s'.logits) →
      let out := p.chunks call pos fuel j done s
      let out' := p.chunks call pos fuel j done s'
      out.2 = out'.2 ∧ (out.2 = true → p.Similar (pos+call.nTokens) out.1 out'.1 ∧ out.1.logits = out'.1.logits) ∧
        (out.2 = false → p.Similar pos out.1 out'.1) := by
  induction fuel with
  | zero =>
    intro j done s s' upto enough similar logits
    obtain rfl : done = call.nTokens := by omega
    exact ⟨rfl,fun _ => ⟨similar,logits le_rfl⟩,fun failed => absurd failed.symm Bool.false_ne_true⟩
  | succ fuel ih =>
    intro j done s s' upto enough similar logits
    dsimp only
    rw [chunks,chunks]
    by_cases more : done < call.nTokens
    · rw [if_pos more,if_pos more]
      have size : p.chunkSize call done ≠ 0 ∧ done+p.chunkSize call done ≤ call.nTokens := by
        unfold chunkSize
        split <;> omega
      obtain ⟨same,ended,failed⟩ := @microBatch_outcome β K p states call s s' pos unwrapped addressed enclosed built fits some' j done more similar
      generalize p.microBatch call pos j done s = out at same ended failed
      generalize p.microBatch call pos j done s' = out' at same ended failed
      obtain ⟨s1,ok⟩ := out
      obtain ⟨s1',ok'⟩ := out'
      obtain rfl : ok = ok' := same
      cases ok with
      | true =>
        obtain ⟨similar',logits'⟩ := ended rfl
        exact ih (j+1) _ s1 s1' size.2 (by omega) similar' fun _ => logits'
      | false =>
        have left := failed rfl
        exact ⟨rfl,fun ended => absurd ended Bool.false_ne_true,fun _ => ⟨left.nTokens,fun t below => left.tokens t (by omega),
          left.agree.shorter (Nat.le_add_right pos done)⟩⟩
    · rw [if_neg more,if_neg more]
      obtain rfl : done = call.nTokens := by omega
      exact ⟨rfl,fun _ => ⟨similar,logits le_rfl⟩,fun failed => absurd failed.symm Bool.false_ne_true⟩

theorem graphExecute_outcome (unwrapped : p.Unwrapped) (addressed : p.Addressed states) (enclosed : p.Enclosed states) (built : WellBuilt p.g)
    (fits : Fits p.g p.c p.nUbatch) (call : Call β K) (similar : p.Similar s'.nTokens s s') :
    let out := p.graphExecute call s
    let out' := p.graphExecute call s'
    out.2 = out'.2 ∧ (out.2 = true → out.1.logits = out'.1.logits) ∧ p.Similar out'.1.nTokens out.1 out'.1 := by
  dsimp only
  unfold graphExecute
  rw [similar.nTokens]
  split
  · exact ⟨rfl,fun ended => absurd ended Bool.false_ne_true,similar⟩
  · next some' =>
    split
    · exact ⟨rfl,fun ended => absurd ended Bool.false_ne_true,similar⟩
    · have spared := @chunks_spared β K p s'.nTokens call unwrapped s'.nTokens le_rfl call.nTokens 0 0 s'
      obtain ⟨same,ended,failed⟩ := @chunks_outcome β K p states call s'.nTokens unwrapped addressed enclosed built fits
        (fun none' => some' (.inr none')) call.nTokens 0 0 s s' (Nat.zero_le _) (Nat.sub_le _ _) similar fun none' => absurd (Nat.le_zero.mp none') fun none' => some' (.inl none')
      generalize p.chunks call s'.nTokens call.nTokens 0 0 s = out at same ended failed
      generalize p.chunks call s'.nTokens call.nTokens 0 0 s' = out' at same ended failed spared
      obtain ⟨s1,ok⟩ := out
      obtain ⟨s1',ok'⟩ := out'
      obtain rfl : ok = ok' := same
      cases ok with
      | true =>
        obtain ⟨similar',logits⟩ := ended rfl
        exact ⟨rfl,fun _ => logits,rfl,similar'.tokens,similar'.agree.k,similar'.agree.v,similar'.agree.state,similar'.agree.logits⟩
      | false =>
        have kept : s1'.nTokens = s'.nTokens := spared.nTokens
        refine ⟨rfl,fun ended => absurd ended Bool.false_ne_true,?_⟩
        rw [show s1'.nTokens = s'.nTokens from kept]
        exact failed rfl

theorem run_outcome (unwrapped : p.Unwrapped) (addressed : p.Addressed states) (enclosed : p.Enclosed states) (built : WellBuilt p.g)
    (fits : Fits p.g p.c p.nUbatch) (calls : List (Call β K)) :
    ∀ s s' : SessionState β K,p.Similar s'.nTokens s s' →
      (p.run calls s).1 = (p.run calls s').1 ∧ p.Similar (p.run calls s').2.nTokens (p.run calls s).2 (p.run calls s').2 := by
  induction calls with
  | nil => exact fun s s' similar => ⟨rfl,similar⟩
  | cons call rest ih =>
    intro s s' similar
    obtain ⟨same,logits,similar'⟩ := graphExecute_outcome unwrapped addressed enclosed built fits call similar
    obtain ⟨rest',last⟩ := ih _ _ similar'
    refine ⟨?_,last⟩
    rw [run,run]
    dsimp only
    rw [rest']
    congr 1
    by_cases ok : (p.graphExecute call s).2 = true
    · rw [if_pos ok,if_pos (same.symm.trans ok),logits ok]
    · rw [if_neg ok,if_neg fun ok' => ok (same.trans ok')]

-- The calls of a run that succeed.
def kept (p : Executor β K) : List (Call β K) → SessionState β K → List (Call β K)
  | [],_ => []
  | call :: rest,s =>
    let out := p.graphExecute call s
    if out.2 then call :: kept p rest out.1 else kept p rest out.1

def HarmlessRun (p : Executor β K) : List (Call β K) → SessionState β K → Prop
  | [],_ => True
  | call :: rest,s => ((p.graphExecute call s).2 = false → p.Harmless call s) ∧ HarmlessRun p rest (p.graphExecute call s).1

theorem run_kept (unwrapped : p.Unwrapped) (addressed : p.Addressed states) (enclosed : p.Enclosed states) (owned : p.Owned) (built : WellBuilt p.g)
    (fits : Fits p.g p.c p.nUbatch) (calls : List (Call β K)) :
    ∀ s s' : SessionState β K,p.HarmlessRun calls s → p.Similar s'.nTokens s s' →
      (p.run calls s).1.filter Option.isSome = (p.run (p.kept calls s) s').1 ∧
        p.Similar (p.run (p.kept calls s) s').2.nTokens (p.run calls s).2 (p.run (p.kept calls s) s').2 := by
  induction calls with
  | nil => exact fun s s' _ similar => ⟨rfl,similar⟩
  | cons call rest ih =>
    intro s s' harmless similar
    obtain ⟨own,later⟩ := harmless
    rw [run,kept]
    dsimp only
    by_cases ok : (p.graphExecute call s).2 = true
    · obtain ⟨same,logits,similar'⟩ := graphExecute_outcome unwrapped addressed enclosed built fits call similar
      obtain ⟨rest',last⟩ := ih _ _ later similar'
      rw [if_pos ok,if_pos ok,run]
      dsimp only
      rw [if_pos (same.symm.trans ok),logits ok,List.filter_cons_of_pos rfl,rest']
      exact ⟨rfl,last⟩
    · have failed : (p.graphExecute call s).2 = false := by simpa using ok
      have spared := graphExecute_failed unwrapped owned (own failed) failed
      -- The failed call leaves the session as the other run has it.
      have similar' : p.Similar s'.nTokens (p.graphExecute call s).1 s' := by
        have position := similar.nTokens
        rw [position] at spared
        refine ⟨spared.nTokens.trans position,fun t below => (spared.tokens t below).trans (similar.tokens t below),
          spared.agree.k.trans similar.agree.k,spared.agree.v.trans similar.agree.v,fun j recurrent => ?_,
          fun a past => (spared.agree.logits a past).trans (similar.agree.logits a past)⟩
        rcases spared.agree.state j recurrent with same | restarted
        · rcases similar.agree.state j recurrent with same' | restarted
          · exact .inl (same.trans same')
          · exact .inr restarted
        · exact .inr restarted
      rw [if_neg ok,if_neg ok,List.filter_cons_of_neg Bool.false_ne_true]
      exact ih _ _ later similar'

theorem graphExecute_nTokens (unwrapped : p.Unwrapped) (failed : (p.graphExecute call s).2 = false) :
    (p.graphExecute call s).1.nTokens = s.nTokens := by
  unfold graphExecute at failed ⊢
  split
  · rfl
  · next some' =>
    rw [if_neg some'] at failed
    split
    · rfl
    · next room =>
      rw [if_neg room] at failed
      have spared := @chunks_spared β K p s.nTokens call unwrapped s.nTokens le_rfl call.nTokens 0 0 s
      generalize p.chunks call s.nTokens call.nTokens 0 0 s = out at failed spared
      obtain ⟨s',ok⟩ := out
      cases ok with
      | true => exact absurd failed.symm Bool.false_ne_true
      | false => exact spared.nTokens

-- Where each failed call of a run is harmless, the run is that of its other calls.
theorem failed_calls_forgotten (unwrapped : p.Unwrapped) (addressed : p.Addressed states) (enclosed : p.Enclosed states) (owned : p.Owned)
    (built : WellBuilt p.g) (fits : Fits p.g p.c p.nUbatch) (calls later : List (Call β K)) (s : SessionState β K) (harmless : p.HarmlessRun calls s) :
    (∀ (call : Call β K) (s : SessionState β K),(p.graphExecute call s).2 = false → (p.graphExecute call s).1.nTokens = s.nTokens) ∧
      (p.run calls s).1.filter Option.isSome = (p.run (p.kept calls s) s).1 ∧
      (p.run calls s).2.nTokens = (p.run (p.kept calls s) s).2.nTokens ∧
      (p.run later (p.run calls s).2).1 = (p.run later (p.run (p.kept calls s) s).2).1 := by
  obtain ⟨same,similar⟩ := run_kept unwrapped addressed enclosed owned built fits calls s s harmless (similar_refl p _ s)
  exact ⟨fun call s => graphExecute_nTokens unwrapped,same,similar.nTokens,(run_outcome unwrapped addressed enclosed built fits later _ _ similar).1⟩

end Calls

end Executor

def ringGraph : List GraphNode :=
  [⟨.input,0,.cpu,[none],[],[],4⟩,⟨.embed,0,.cpu,[some 0],[some ⟨⟨0,[]⟩,2,[5,1],0,0,none,5,20,0⟩],[],0⟩,
   ⟨.ssmConv,0,.cpu,[some 1],[],[0,2],0⟩,⟨.add,0,.cpu,[some 2,some 2],[],[],0⟩]

def ringConfig : ArchConfig := ⟨1,1,1,1,0,1,1,5⟩

-- From the pointer of node j's slot on.
def ringSlot (j : Nat) (s : SessionState ℚ ℚ) (a : Nat) : ℚ := s.mem (backendOf ringGraph j) ((planSlot ringGraph ringConfig 4 j).off+a)

def ringOps : Ops ℚ ℚ where
  idByte id _ := id
  zero := 0
  source _ _ _ _ := 0
  plain
    | 1,_,_,s => ringSlot 0 s
    | 3,_,n,s => fun a => ringSlot 2 s (4*(n-1)+a)+ringSlot 2 s (4*(n-1)+a)
    | _,_,_,_ => fun _ => 0
  attend _ _ _ _ _ := 0
  advance
    | 2,_,n,s,state =>
      let out := Cpu.opSsmConv 2 1 (fun _ => 1) ⟨0,n,fun j => ringSlot 1 s (4*j),fun _ => 0⟩ state
      (out.2,fun a => out.1 (a/4))
    | _,_,_,_,state => (state,fun _ => 0)

def ringExecutor : Executor ℚ ℚ := ⟨ringGraph,ringConfig,4,8,ringOps⟩

def emptySession : SessionState ℚ ℚ := ⟨0,fun _ => 0,fun _ _ => 0,fun _ _ => 0,fun _ _ => 0,fun _ _ => 0,fun _ => 0⟩

def tokenCall (token : Nat) (failing : Option Nat) : Executor.Call ℚ ℚ :=
  ⟨fun _ => token,1,fun _ i => if some i = failing then some ⟨id,id,id,id⟩ else none⟩

theorem ringGraph_built : WellBuilt ringGraph := by
  refine ⟨fun i j listed => ?_,⟨1,by decide⟩,by decide,⟨1,by decide⟩⟩
  have back : ∀ i < 4,∀ src ∈ sourcesOf ringGraph i,∀ j ∈ src,j < i := by decide
  by_cases below : i < 4
  · exact back i below _ listed j rfl
  · have past : ringGraph[i]? = none := List.getElem?_eq_none_iff.mpr (Nat.le_of_not_lt below)
    simp [sourcesOf,past] at listed

theorem ringGraph_fits : Fits ringGraph ringExecutor.c ringExecutor.nUbatch := ⟨by decide +kernel,by decide +kernel⟩

theorem ring_reads (n : Nat) : opReads ringConfig ⟨ringGraph,0,[1]⟩ n 1 = (List.range n).map (fun row => ⟨0,row,row*1+0,1⟩) ∧
    opReads ringConfig ⟨ringGraph,0,[1]⟩ n 2 = (List.range n).map (fun row => ⟨1,0+row,(0+row)*1+0,1⟩) ∧
    opReads ringConfig ⟨ringGraph,0,[1]⟩ n 3 = [⟨2,n-1+0,(n-1+0)*1+0,1⟩,⟨2,n-1+0,(n-1+0)*1+0,1⟩] := by
  refine ⟨List.map_eq_flatMap.symm,?_,rfl⟩
  refine Eq.trans (b:=((List.range n).map fun b => 0+b).flatMap fun row => [⟨1,row,row*1+0,1⟩]) rfl ?_
  rw [List.flatMap_map]
  exact List.map_eq_flatMap.symm

theorem ring_row {j r : Nat} {s s' : SessionState ℚ ℚ} (same : ringExecutor.SameFloats s s' ⟨j,r,r,1⟩) {a : Nat} (low : 4*r ≤ a)
    (high : a < 4*(r+1)) : ringSlot j s a = ringSlot j s' a := same a low high

theorem ring_addressed : ringExecutor.Addressed [1] := by
  refine ⟨fun i k n s s' attn _ _ => fun _ _ _ _ _ _ => rfl,fun i pos n s s' same a below => ?_,fun _ _ _ _ _ _ _ _ _ => rfl,
    fun i pos n s s' start same => ?_⟩
  · match i,same,below with
    | 0,_,_ => rfl
    | 1,same,below =>
      have size : ringExecutor.batchBytes n 1 = n*1*4 := rfl
      have reads : ∀ row < n,ringExecutor.SameFloats s s' ⟨0,row,row*1+0,1⟩ := by
        have all := (ring_reads n).1
        intro row inside
        exact same _ (all ▸ List.mem_map.mpr ⟨row,List.mem_range.mpr inside,rfl⟩)
      exact ring_row (by simpa using reads (a/4) (by omega)) (by omega) (by omega)
    | 2,_,_ => rfl
    | 3,same,below =>
      have size : ringExecutor.batchBytes n 3 = 1*1*4 := rfl
      have last : ringExecutor.SameFloats s s' ⟨2,n-1+0,(n-1+0)*1+0,1⟩ := same _ ((ring_reads n).2.2 ▸ List.mem_cons_self)
      have value : ringSlot 2 s (4*(n-1)+a) = ringSlot 2 s' (4*(n-1)+a) := ring_row (by simpa using last) (by omega) (by omega)
      exact congrArg (fun x => x+x) value
    | i+4,_,_ => rfl
  · match i,same with
    | 0,_ => exact ⟨rfl,fun _ _ => rfl⟩
    | 1,_ => exact ⟨rfl,fun _ _ => rfl⟩
    | 2,same =>
      have reads : ∀ row < n,ringExecutor.SameFloats s s' ⟨1,0+row,(0+row)*1+0,1⟩ := by
        have all := (ring_reads n).2.1
        intro row inside
        exact same _ (all ▸ List.mem_map.mpr ⟨row,List.mem_range.mpr inside,rfl⟩)
      have conv := @Cpu.opSsmConv_near ℚ _ 2 1 (fun _ => 1) ⟨0,n,fun j => ringSlot 1 s (4*j),fun _ => 0⟩ (fun j => ringSlot 1 s' (4*j)) start
        fun p inside j small => ring_row (r:=p) (by simpa using reads p inside) (by dsimp only; omega) (by dsimp only; omega)
      exact ⟨congrArg Prod.snd conv,fun a _ => congrArg (fun out => out.1 (a/4)) conv⟩
    | i+3,_ => exact ⟨rfl,fun _ _ => rfl⟩

theorem ring_enclosed : ringExecutor.Enclosed [1] := by
  refine ⟨fun n i some' a listed => ?_,fun i attn => one_dvd _⟩
  obtain ⟨embed,conv,last⟩ := ring_reads n
  have width : ∀ j,j = 0 ∨ j = 1 ∨ j = 2 → rowCount ⟨ringGraph,0,[1]⟩ n j = n ∧ rowWidth ringConfig ⟨ringGraph,0,[1]⟩ j = 1 := by
    rintro j (rfl | rfl | rfl) <;> exact ⟨rfl,rfl⟩
  have inside (j row : Nat) (which : j = 0 ∨ j = 1 ∨ j = 2) (below : row < n) :
      RowAccess.Inside ringConfig ⟨ringGraph,0,[1]⟩ n ⟨j,row,row*1+0,1⟩ := by
    obtain ⟨count,wide⟩ := width j which
    exact ⟨below.trans_eq count.symm,by rw [wide]; exact le_rfl,by rw [wide]; dsimp only; omega⟩
  match i,listed with
  | 0,listed => cases listed
  | 1,listed =>
    rw [show ringExecutor.c = ringConfig from rfl,show ringExecutor.g = ringGraph from rfl,embed] at listed
    obtain ⟨row,below,rfl⟩ := List.mem_map.mp listed
    exact inside 0 row (.inl rfl) (List.mem_range.mp below)
  | 2,listed =>
    rw [show ringExecutor.c = ringConfig from rfl,show ringExecutor.g = ringGraph from rfl,conv] at listed
    obtain ⟨row,below,rfl⟩ := List.mem_map.mp listed
    have row' := List.mem_range.mp below
    exact inside 1 (0+row) (.inr (.inl rfl)) (by omega)
  | 3,listed =>
    rw [show ringExecutor.c = ringConfig from rfl,show ringExecutor.g = ringGraph from rfl,last] at listed
    have here : a = ⟨2,n-1+0,(n-1+0)*1+0,1⟩ := by simpa using listed
    rw [here]
    exact inside 2 (n-1+0) (.inr (.inr rfl)) (by omega)
  | i+4,listed => cases listed

theorem ring_recurrent {j : Nat} (recurrent : isRecurrent ringGraph j = true) : j = 2 := by
  have all : ∀ j < 4,isRecurrent ringGraph j = true → j = 2 := by decide
  exact all j (Executor.flagged_lt recurrent) recurrent

-- The last op fails after the convolution: its ring holds the token of the failed call.
theorem ring_advanced :
    let before := (ringExecutor.graphExecute (tokenCall 1 none) emptySession).1
    let failed := ringExecutor.graphExecute (tokenCall 4 (some 3)) before
    failed.2 = false ∧ (ringExecutor.run [tokenCall 2 none] failed.1).1 ≠ (ringExecutor.run [tokenCall 2 none] before).1 := by
  refine ⟨by decide +kernel,fun same => ?_⟩
  have logit := congrArg (List.map (Option.map fun logits => logits 0)) same
  exact absurd logit (by decide +kernel)

-- The embedding fails, before the convolution.
theorem early_forgotten :
    let calls := [tokenCall 1 none,tokenCall 4 (some 1),tokenCall 2 none]
    (∀ (call : Executor.Call ℚ ℚ) (s : SessionState ℚ ℚ),
        (ringExecutor.graphExecute call s).2 = false → (ringExecutor.graphExecute call s).1.nTokens = s.nTokens) ∧
      (ringExecutor.run calls emptySession).1.filter Option.isSome = (ringExecutor.run (ringExecutor.kept calls emptySession) emptySession).1 ∧
      (ringExecutor.run calls emptySession).2.nTokens = (ringExecutor.run (ringExecutor.kept calls emptySession) emptySession).2.nTokens ∧
      (ringExecutor.run [tokenCall 3 none] (ringExecutor.run calls emptySession).2).1 =
        (ringExecutor.run [tokenCall 3 none] (ringExecutor.run (ringExecutor.kept calls emptySession) emptySession).2).1 := by
  refine Executor.failed_calls_forgotten (.inl le_rfl) ring_addressed ring_enclosed (fun i j one two _ => ?_) ringGraph_built ringGraph_fits _ _ _
    ⟨fun failed => ?_,?_,fun failed => ?_,trivial⟩
  · rw [ring_recurrent one,ring_recurrent two]
  · exact absurd failed (by decide +kernel)
  · intro _
    refine .inr (.inr (.inr fun j recurrent => .inr ⟨1,?_,rfl,Option.some_ne_none _⟩))
    rw [ring_recurrent recurrent]
    decide
  · exact absurd failed (by decide +kernel)

end TinyLlama.Graph
