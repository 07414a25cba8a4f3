import TinyLlama.Engine.Split
import TinyLlama.Graph.KvCache
import TinyLlama.Lib.Ledger

-- graph.c: how graph_prepare and graph_execute plan a graph in a CUDA build. There is no graph of a model with MLA.
namespace TinyLlama.Engine
open Gguf TinyLlama.Graph Allocations

def backends : List BackendType := [.cpu,.cuda,.metal]

structure KvCache where
  block : Option Nat
  stdBlock : Option Nat
  nLayer : Nat
  nKvHead : Nat
  headDim : Nat
  std : Nat → AttnKvCache

structure GraphPlan where
  backend : BackendType
  arena : BackendType → Option Nat
  arenaSize : BackendType → Nat
  weightsSize : BackendType → Nat
  cache : Option KvCache
  cacheArena : BackendType → Option Nat
  kvcacheSize : BackendType → Nat
  ready : Bool

def planShell : GraphPlan := ⟨.cpu,fun _ => none,fun _ => 0,fun _ => 0,none,fun _ => none,fun _ => 0,false⟩

-- node->data and node->data_cap.
structure NodeSlot where
  data : Pointer
  dataCap : Nat
deriving Repr,DecidableEq

-- Which requests of one attempt are granted: the shell, an arena, the descriptors of the
-- cache, its arenas, and the upload of a node's weight.
structure Luck where
  shell : Bool
  arena : BackendType → Nat → Bool
  cache : Bool
  std : Bool
  cacheArena : BackendType → Nat → Bool
  upload : Nat → Nat → Bool

structure Luck.Generous (luck : Luck) : Prop where
  shell : luck.shell = true
  arena : ∀ b bytes,luck.arena b bytes = true
  cache : luck.cache = true
  std : luck.std = true
  cacheArena : ∀ b bytes,luck.cacheArena b bytes = true
  upload : ∀ i k,luck.upload i k = true

structure Granted where
  arena : BackendType → Option Nat
  size : BackendType → Nat

def allocArenas (grants : BackendType → Nat → Bool) (want : BackendType → Nat) :
    List BackendType → Granted → Ledger → Bool × Granted × Ledger
  | [],s,w => (true,s,w)
  | b :: rest,s,w =>
    if want b = 0 then allocArenas grants want rest s w
    else
      let (arena,w) := w.alloc (grants b (want b))
      let s := {s with arena:=Function.update s.arena b arena}
      if arena = none then (false,s,w)
      else allocArenas grants want rest {s with size:=Function.update s.size b (want b)} w

structure Planner where
  plan : GraphPlan
  slots : Nat → NodeSlot
  ledger : Ledger

namespace Planner

def cacheDestroy (x : Planner) : Planner :=
  match x.plan.cache with
  | none => x
  | some kc =>
    {x with
      plan:={x.plan with cache:=none,cacheArena:=fun _ => none,kvcacheSize:=fun _ => 0}
      ledger:=x.ledger.freeAll (kc.stdBlock :: kc.block :: backends.map x.plan.cacheArena)}

def planReset (x : Planner) : Planner :=
  let x := x.cacheDestroy
  {x with
    plan:={x.plan with arena:=fun _ => none,arenaSize:=fun _ => 0,weightsSize:=fun _ => 0,ready:=false}
    ledger:=x.ledger.freeAll (backends.map x.plan.arena)}

-- Each weight once for a backend that uses it.
def accountWeights (nodes : List GraphNode) (x : Planner) : Planner :=
  let uses := nodes.flatMap fun n => n.weights.filterMap (Option.map fun w => (n.backend,w))
  {x with plan:={x.plan with
    weightsSize:=uses.eraseDups.foldl (fun size use => Function.update size use.1 (u64 (size use.1+use.2.bytes))) fun _ => 0}}

def arenaPlan (luck : Luck) (nodes : List GraphNode) (c : ArchConfig) (nUbatch : Nat) (x : Planner) : Bool × Planner :=
  if nodes = [] then (true,x)
  else
    let sweep := Graph.arenaPlan nodes c nUbatch
    let (done,granted,w) := allocArenas luck.arena sweep.bump backends ⟨x.plan.arena,x.plan.arenaSize⟩ x.ledger
    let x := {x with plan:={x.plan with arena:=granted.arena,arenaSize:=granted.size},ledger:=w}
    if done then
      (true,{x with slots:=fun i =>
        if i < nodes.length then
          ⟨⟨(granted.arena (backendOf nodes i)).map fun _ => backendOf nodes i,sweep.off.getD i 0⟩,need nodes c nUbatch i⟩
        else x.slots i})
    else (false,x.planReset)

-- The sizes are added to what the plan has.
def kvcacheGrown (lb : Nat → Option BackendType) (bytes nLayer : Nat) (size : BackendType → Nat) : BackendType → Nat :=
  nLayer.fold (fun l _ size =>
    match lb l with
    | none => size
    | some b => Function.update size b (u64 (size b+u64 (bytes*2)))) size

def cacheBuildAttnKvcache (luck : Luck) (nodes : List GraphNode) (c : ArchConfig) (ctxSize : Nat) (kc : KvCache) (x : Planner) :
    Bool × Planner :=
  let bytes := u64 (ctxSize*c.nKvHead*c.kvHeadDim*4)
  let lb := attnBackends nodes c.nLayer
  let (stdBlock,w) := x.ledger.alloc luck.std
  let kc := {kc with headDim:=c.kvHeadDim,stdBlock:=stdBlock}
  let x := {x with plan:={x.plan with cache:=some kc},ledger:=w}
  if stdBlock = none then (false,x)
  else
    let size := kvcacheGrown lb bytes c.nLayer x.plan.kvcacheSize
    let (done,granted,w) := allocArenas luck.cacheArena size backends ⟨x.plan.cacheArena,size⟩ x.ledger
    let x := {x with plan:={x.plan with cacheArena:=granted.arena,kvcacheSize:=size},ledger:=w}
    if done then
      (true,{x with plan:={x.plan with cache:=some {kc with std:=(placeLayers lb size bytes ctxSize c.nLayer).std}}})
    else (false,x)

def cacheBuild (luck : Luck) (nodes : List GraphNode) (c : ArchConfig) (ctxSize : Nat) (x : Planner) : Bool × Planner :=
  if x.plan.cache.isSome then (true,x)
  else
    let (block,w) := x.ledger.alloc luck.cache
    let x := {x with ledger:=w}
    if block = none then (false,x)
    else cacheBuildAttnKvcache luck nodes c ctxSize ⟨block,none,c.nLayer,c.nKvHead,0,fun _ => ⟨nullPointer,nullPointer,0⟩⟩ x

end Planner

def graphWarmup (luck : Luck) (nodes : List GraphNode) : Bool :=
  nodes.zipIdx.all fun (n,i) => n.weights.zipIdx.all fun (w,k) => w.isNone || n.backend ≠ .cuda || luck.upload i k

structure PlannedGraph where
  nodes : List GraphNode
  slots : Nat → NodeSlot
  plan : Option GraphPlan

def PlannedGraph.ready (g : PlannedGraph) : Bool := g.plan.any GraphPlan.ready

structure Stage where
  session : Session
  graph : PlannedGraph
  ledger : Ledger

section calls
variable (nUbatch : Nat) (luck : Luck)

def Planner.stage (s : Session) (nodes : List GraphNode) (x : Planner) : Stage := ⟨s,⟨nodes,x.slots,some x.plan⟩,x.ledger⟩

def Planner.graphPlan (s : Session) (nodes : List GraphNode) (x : Planner) : Bool × Planner :=
  match (x.accountWeights nodes).arenaPlan luck nodes s.cfg nUbatch with
  | (false,x) => (false,x.planReset)
  | (true,x) =>
    match x.cacheBuild luck nodes s.cfg s.ctxSize with
    | (false,x) => (false,x.planReset)
    | (true,x) =>
      if graphWarmup luck nodes then (true,{x with plan:={x.plan with ready:=true}})
      else (false,x.planReset)

def graphPlan (x : Stage) : Bool × Stage :=
  if x.graph.ready then (true,x)
  else
    -- assign_backends, which makes the shell where there is none.
    let s := assigned x.session
    let nodes := assignBackends x.session x.graph.nodes
    match x.graph.plan <|> if luck.shell then some planShell else none with
    | none => (false,⟨s,{x.graph with nodes:=nodes},x.ledger⟩)
    | some p =>
      let p := {p with backend:=if s.nGpuLayers > 0 then .cuda else .cpu}
      let out := Planner.graphPlan nUbatch luck s nodes ⟨p,x.graph.slots,x.ledger⟩
      (out.1,out.2.stage s nodes)

def graphCompute (ops : Bool) (pos n : Nat) (x : Stage) : Bool × Stage :=
  if x.graph.nodes = [] then (false,x)
  else if n = 0 then (true,x)
  else if pos+n > x.session.ctxSize then (false,x)
  else if x.graph.ready then (ops,x)
  else
    match graphPlan nUbatch luck x with
    | (false,x) => (false,x)
    | (true,x) => (ops,x)

def computeChunks (ops : Nat → Bool) (pos n : Nat) : Nat → Nat → Stage → Bool × Stage
  | 0,_,x => (true,x)
  | fuel+1,done,x =>
    if done < n then
      let chunk := if n-done > nUbatch then nUbatch else n-done
      match graphCompute nUbatch luck (ops done) (pos+done) chunk x with
      | (false,x) => (false,x)
      | (true,x) => computeChunks ops pos n fuel (done+chunk) x
    else (true,x)

end calls

-- What a session keeps from call to call, as far as planning goes.
structure PlanState where
  session : Session
  nTokens : Nat
  graph : Option PlannedGraph
  ledger : Ledger

def PlanState.ready (st : PlanState) : Bool := st.graph.any PlannedGraph.ready

def Stage.state (nTokens : Nat) (x : Stage) : PlanState := ⟨x.session,nTokens,some x.graph,x.ledger⟩

-- Of the tokens their number matters; none are those of a missing pointer too.
inductive PlanCall where
  | prepare
  | execute (nTokens : Nat) (tokenBuffer : Bool) (ops : Nat → Bool)

section session
variable (graphBuild : Session → Nat → Option (List GraphNode)) (nUbatch : Nat) (luck : Luck)

def openGraph (st : PlanState) : Option Stage :=
  match st.graph with
  | some g => some ⟨st.session,g,st.ledger⟩
  | none => (graphBuild st.session nUbatch).map fun nodes => ⟨st.session,⟨nodes,fun _ => ⟨nullPointer,0⟩,none⟩,st.ledger⟩

def graphPrepare (st : PlanState) : Bool × PlanState :=
  match openGraph graphBuild nUbatch st with
  | none => (false,st)
  | some x =>
    match x.graph.plan with
    | some _ => (true,x.state st.nTokens)
    | none =>
      let out := graphPlan nUbatch luck x
      (out.1,out.2.state st.nTokens)

-- There are no micro-batches of none: a context of no token has no room for one.
def graphExecute (n : Nat) (tokenBuffer : Bool) (ops : Nat → Bool) (st : PlanState) : Bool × PlanState :=
  if n = 0 then (false,st)
  else
    match openGraph graphBuild nUbatch st with
    | none => (false,st)
    | some x =>
      if st.nTokens+n > st.session.ctxSize ∨ nUbatch = 0 then (false,x.state st.nTokens)
      else if !tokenBuffer then (false,x.state st.nTokens)
      else
        match computeChunks nUbatch luck ops st.nTokens n n 0 x with
        | (false,x) => (false,x.state st.nTokens)
        | (true,x) => (true,x.state (st.nTokens+n))

def PlanCall.run (call : PlanCall) (st : PlanState) : Bool × PlanState :=
  match call with
  | .prepare => graphPrepare graphBuild nUbatch luck st
  | .execute n tokenBuffer ops => graphExecute graphBuild nUbatch luck n tokenBuffer ops st

end session

section arenas
variable {grants : BackendType → Nat → Bool} {want : BackendType → Nat} {s : Granted} {w : Ledger} {qs : List (Option Nat)}

theorem backends_all (b : BackendType) : b ∈ backends := by cases b <;> decide

theorem allocArenas_owns (grants : BackendType → Nat → Bool) (want : BackendType → Nat) {bs : List BackendType}
    (distinct : bs.Nodup) (vacant : ∀ b ∈ bs,s.arena b = none)
    (owns : Owns (backends.map s.arena++qs) w) :
    Owns (backends.map (allocArenas grants want bs s w).2.1.arena++qs) (allocArenas grants want bs s w).2.2 := by
  induction bs generalizing s w with
  | nil => exact owns
  | cons b rest ih =>
    obtain ⟨new,distinct⟩ := List.nodup_cons.mp distinct
    have later : ∀ j ∈ rest,s.arena j = none := fun j listed => vacant j (List.mem_cons_of_mem _ listed)
    unfold allocArenas
    split
    · exact ih distinct later owns
    · have stored := owns.store (by decide) (backends_all b) (vacant b List.mem_cons_self) (grants b (want b))
      dsimp only
      split
      · exact stored
      · refine ih distinct (fun j listed => ?_) stored
        have other : j ≠ b := by
          rintro rfl
          exact new listed
        exact (Function.update_of_ne other _ _).trans (later j listed)

theorem allocArenas_done {bs : List BackendType} (distinct : bs.Nodup) (done : (allocArenas grants want bs s w).1 = true)
    (b : BackendType) :
    (allocArenas grants want bs s w).2.1.size b = (if b ∈ bs ∧ want b ≠ 0 then want b else s.size b) ∧
      ((allocArenas grants want bs s w).2.1.arena b).isSome = if b ∈ bs ∧ want b ≠ 0 then true else (s.arena b).isSome := by
  induction bs generalizing s w with
  | nil => exact ⟨rfl,rfl⟩
  | cons j rest ih =>
    obtain ⟨new,distinct⟩ := List.nodup_cons.mp distinct
    unfold allocArenas at done ⊢
    by_cases nothing : want j = 0
    · rw [if_pos nothing] at done ⊢
      obtain ⟨size,arena⟩ := ih distinct done
      rw [size,arena]
      have same : (b ∈ j :: rest ∧ want b ≠ 0) ↔ (b ∈ rest ∧ want b ≠ 0) := by
        rw [List.mem_cons]
        constructor
        · rintro ⟨rfl | later,some'⟩
          · exact absurd nothing some'
          · exact ⟨later,some'⟩
        · exact fun ⟨later,some'⟩ => ⟨Or.inr later,some'⟩
      simp only [same]
      exact ⟨trivial,trivial⟩
    · rw [if_neg nothing] at done ⊢
      dsimp only at done ⊢
      split at done
      · cases done
      · next granted =>
        rw [if_neg granted]
        obtain ⟨size,arena⟩ := ih distinct done
        rw [size,arena]
        by_cases here : b = j
        · subst here
          simp [new,nothing,Option.isSome_iff_ne_none.mpr granted]
        · simp [here]

theorem allocArenas_granted (generous : ∀ b bytes,grants b bytes = true) (bs : List BackendType) :
    (allocArenas grants want bs s w).1 = true := by
  induction bs generalizing s w with
  | nil => rfl
  | cons b rest ih =>
    unfold allocArenas
    split
    · exact ih
    · dsimp only
      rw [if_neg (by simp [alloc_none,generous])]
      exact ih

end arenas

def cachePointers (p : GraphPlan) : List (Option Nat) :=
  match p.cache with
  | none => []
  | some kc => kc.stdBlock :: kc.block :: backends.map p.cacheArena

structure GraphPlan.Bare (p : GraphPlan) : Prop where
  cache : p.cache = none
  cacheArena : p.cacheArena = fun _ => none
  kvcacheSize : p.kvcacheSize = fun _ => 0

namespace Planner
variable {luck : Luck} {nodes : List GraphNode} {c : ArchConfig} {nUbatch ctxSize : Nat} {x : Planner}

-- The plan's pointers are all that is allocated.
structure Accounted (x : Planner) : Prop where
  owns : Owns (backends.map x.plan.arena++cachePointers x.plan) x.ledger
  bare : x.plan.cache = none → x.plan.Bare

structure Clean (x : Planner) : Prop where
  plan : x.plan = {planShell with backend:=x.plan.backend}
  held : x.ledger.held = []

theorem Clean.accounted (clean : x.Clean) : x.Accounted := by
  obtain ⟨p,slots,w⟩ := x
  obtain ⟨plan,held⟩ := clean
  dsimp only at plan held
  rw [plan]
  refine ⟨?_,fun _ => ⟨rfl,rfl,rfl⟩⟩
  change w.held.Perm []
  rw [held]

theorem Accounted.planReset (all : x.Accounted) : x.planReset.Clean := by
  obtain ⟨owns,bare⟩ := all
  unfold Planner.planReset cacheDestroy
  cases cache : x.plan.cache with
  | none =>
    obtain ⟨-,cacheArena,kvcacheSize⟩ := bare cache
    rw [cachePointers,cache] at owns
    refine ⟨?_,owns_nil.mp (owns.freeAll (backends.map x.plan.arena))⟩
    simp only [planShell,cache,cacheArena,kvcacheSize]
  | some kc =>
    rw [cachePointers,cache] at owns
    have cached := (owns.perm List.perm_append_comm).freeAll (kc.stdBlock :: kc.block :: backends.map x.plan.cacheArena)
    exact ⟨rfl,owns_nil.mp ((List.append_nil (backends.map x.plan.arena) ▸ cached).freeAll (backends.map x.plan.arena))⟩

def plannedSlot (nodes : List GraphNode) (c : ArchConfig) (nUbatch i : Nat) : NodeSlot :=
  let sweep := Graph.arenaPlan nodes c nUbatch
  ⟨⟨(arenaStart sweep.bump (backendOf nodes i)).arena,sweep.off.getD i 0⟩,need nodes c nUbatch i⟩

section steps
variable (bare : x.plan.Bare)
include bare

theorem arenaPlan_accounted (luck : Luck) (nodes : List GraphNode) (c : ArchConfig) (nUbatch : Nat)
    (vacant : x.plan.arena = fun _ => none) (held : x.ledger.held = []) :
    (x.arenaPlan luck nodes c nUbatch).2.Accounted := by
  have owns : Owns (backends.map x.plan.arena++cachePointers x.plan) x.ledger := by
    rw [vacant,cachePointers,bare.cache]
    change x.ledger.held.Perm []
    rw [held]
  unfold arenaPlan
  split
  · exact ⟨owns,fun _ => bare⟩
  · have granted := @allocArenas_owns ⟨x.plan.arena,x.plan.arenaSize⟩ x.ledger _ luck.arena (Graph.arenaPlan nodes c nUbatch).bump backends
      (by decide) (fun b _ => congrFun vacant b) owns
    dsimp only
    split
    · exact ⟨granted,fun _ => ⟨bare.cache,bare.cacheArena,bare.kvcacheSize⟩⟩
    · refine (Accounted.planReset ?_).accounted
      exact ⟨granted,fun _ => ⟨bare.cache,bare.cacheArena,bare.kvcacheSize⟩⟩

end steps

theorem arenaPlan_done (luck : Luck) (nodes : List GraphNode) (c : ArchConfig) (nUbatch : Nat)
    (fresh : x.plan.arena = fun _ => none) (empty : x.plan.arenaSize = fun _ => 0)
    (done : (x.arenaPlan luck nodes c nUbatch).1 = true) :
    (x.arenaPlan luck nodes c nUbatch).2.plan =
        {x.plan with arena:=(x.arenaPlan luck nodes c nUbatch).2.plan.arena,arenaSize:=(Graph.arenaPlan nodes c nUbatch).bump} ∧
      (List.range nodes.length).map (x.arenaPlan luck nodes c nUbatch).2.slots =
        (List.range nodes.length).map (plannedSlot nodes c nUbatch) := by
  unfold arenaPlan at done ⊢
  by_cases none' : nodes = []
  · subst none'
    refine ⟨?_,rfl⟩
    rw [if_pos rfl]
    change x.plan = {x.plan with arenaSize:=fun _ => 0}
    rw [← empty]
  · rw [if_neg none'] at done ⊢
    dsimp only at done ⊢
    split at done
    · next granted =>
      rw [if_pos granted]
      have all := allocArenas_done (by decide) granted
      constructor
      · have sizes : (allocArenas luck.arena (Graph.arenaPlan nodes c nUbatch).bump backends ⟨x.plan.arena,x.plan.arenaSize⟩
            x.ledger).2.1.size = (Graph.arenaPlan nodes c nUbatch).bump := by
          funext b
          rw [(all b).1,empty]
          by_cases nothing : (Graph.arenaPlan nodes c nUbatch).bump b = 0 <;> simp [backends_all,nothing]
        rw [sizes]
      · refine List.map_congr_left fun i listed => ?_
        dsimp only
        rw [if_pos (List.mem_range.mp listed),plannedSlot]
        congr 2
        have here := (all (backendOf nodes i)).2
        dsimp only at here
        rw [congrFun fresh (backendOf nodes i)] at here
        unfold arenaStart
        by_cases nothing : (Graph.arenaPlan nodes c nUbatch).bump (backendOf nodes i) = 0
        · rw [if_pos nothing]
          simpa [nothing] using here
        · rw [if_neg nothing]
          simp only [backends_all,ne_eq,nothing,not_false_eq_true,and_self,if_true] at here
          obtain ⟨a,there⟩ := Option.isSome_iff_exists.mp here
          rw [there]
          rfl
    · cases done

theorem arenaPlan_granted (generous : luck.Generous) : (x.arenaPlan luck nodes c nUbatch).1 = true := by
  unfold arenaPlan
  split
  · rfl
  · have granted := @allocArenas_granted luck.arena (Graph.arenaPlan nodes c nUbatch).bump ⟨x.plan.arena,x.plan.arenaSize⟩ x.ledger
      generous.arena backends
    dsimp only
    rw [if_pos granted]

def described (kc : KvCache) : KvCache := {kc with block:=none,stdBlock:=none}

def plannedCache (nodes : List GraphNode) (c : ArchConfig) (ctxSize : Nat) : KvCache :=
  let bytes := u64 (ctxSize*c.nKvHead*c.kvHeadDim*4)
  let lb := attnBackends nodes c.nLayer
  ⟨none,none,c.nLayer,c.nKvHead,c.kvHeadDim,(placeLayers lb (kvcacheSizes lb bytes c.nLayer) bytes ctxSize c.nLayer).std⟩

def plannedKvcacheSize (nodes : List GraphNode) (c : ArchConfig) (ctxSize : Nat) : BackendType → Nat :=
  kvcacheSizes (attnBackends nodes c.nLayer) (u64 (ctxSize*c.nKvHead*c.kvHeadDim*4)) c.nLayer

theorem kvcacheGrown_fresh (lb : Nat → Option BackendType) (bytes nLayer : Nat) :
    kvcacheGrown lb bytes nLayer (fun _ => 0) = kvcacheSizes lb bytes nLayer := rfl

theorem cacheBuild_accounted (luck : Luck) (nodes : List GraphNode) (c : ArchConfig) (ctxSize : Nat)
    (bare : x.plan.Bare) (owns : Owns (backends.map x.plan.arena) x.ledger) :
    (x.cacheBuild luck nodes c ctxSize).2.Accounted := by
  have uncached : cachePointers x.plan = [] := by rw [cachePointers,bare.cache]
  have first' := owns.alloc luck.cache
  have second' := first'.alloc luck.std
  unfold cacheBuild cacheBuildAttnKvcache
  rw [bare.cache]
  dsimp only [Option.isSome_none]
  rw [if_neg Bool.false_ne_true]
  split
  · next refused =>
    rw [refused] at first'
    refine ⟨?_,fun _ => bare⟩
    change Owns (backends.map x.plan.arena++cachePointers x.plan) _
    rw [uncached,List.append_nil]
    exact (owns_null _ _).mp first'
  · have reorder : ∀ (a b : Option Nat) (as bs : List (Option Nat)),(as++(a :: b :: bs)).Perm (bs++(a :: b :: as)) := fun a b as bs =>
      List.perm_append_comm.trans ((((@List.perm_append_comm _ bs as).cons b).cons a).trans (@List.perm_append_comm _ (a :: b :: as) bs))
    have table : Owns (backends.map x.plan.cacheArena++((((x.ledger.alloc luck.cache).2.alloc luck.std).1 ::
        (x.ledger.alloc luck.cache).1 :: backends.map x.plan.arena))) ((x.ledger.alloc luck.cache).2.alloc luck.std).2 := by
      rw [bare.cacheArena]
      exact second'
    split
    · exact ⟨table.perm (reorder _ _ _ _),fun none' => (by cases none')⟩
    · have granted := fun size => @allocArenas_owns ⟨x.plan.cacheArena,size⟩ _ _ luck.cacheArena size backends (by decide)
        (fun b _ => congrFun bare.cacheArena b) table
      split
      · exact ⟨(granted _).perm (reorder _ _ _ _),fun none' => (by cases none')⟩
      · exact ⟨(granted _).perm (reorder _ _ _ _),fun none' => (by cases none')⟩

theorem cacheBuild_done (luck : Luck) (nodes : List GraphNode) (c : ArchConfig) (ctxSize : Nat)
    (bare : x.plan.Bare) (done : (x.cacheBuild luck nodes c ctxSize).1 = true) :
    ∃ kc arenas w,(x.cacheBuild luck nodes c ctxSize).2 = ⟨{x.plan with
        cache:=some kc,cacheArena:=arenas,kvcacheSize:=plannedKvcacheSize nodes c ctxSize},x.slots,w⟩ ∧
      described kc = plannedCache nodes c ctxSize := by
  unfold cacheBuild cacheBuildAttnKvcache at done ⊢
  rw [bare.cache] at done ⊢
  dsimp only [Option.isSome_none] at done ⊢
  rw [if_neg Bool.false_ne_true] at done ⊢
  split at done
  · cases done
  · next some' =>
    rw [if_neg some']
    split at done
    · cases done
    · next some'' =>
      rw [if_neg some'']
      split at done
      · next granted =>
        rw [if_pos granted,bare.kvcacheSize,kvcacheGrown_fresh]
        exact ⟨_,_,_,rfl,rfl⟩
      · cases done

theorem cacheBuild_granted (generous : luck.Generous) : (x.cacheBuild luck nodes c ctxSize).1 = true := by
  unfold cacheBuild cacheBuildAttnKvcache
  split
  · rfl
  · dsimp only
    rw [if_neg (by simp [alloc_none,generous.cache]),if_neg (by simp [alloc_none,generous.std]),
      if_pos (allocArenas_granted generous.cacheArena backends)]

theorem plannedCache_layout {arenaAlloc : BackendType → Nat → Bool} {layout : KvLayout}
    (built : Graph.cacheBuildAttnKvcache arenaAlloc c ctxSize nodes = some layout) :
    layout = ⟨plannedKvcacheSize nodes c ctxSize,(plannedCache nodes c ctxSize).std⟩ := by
  unfold Graph.cacheBuildAttnKvcache at built
  dsimp only at built
  split at built
  · cases built
    rfl
  · cases built

section plan
variable {s : Session}

theorem accountWeights_bare (clean : x.Clean) (nodes : List GraphNode) :
    (x.accountWeights nodes).plan = {x.plan with weightsSize:=(x.accountWeights nodes).plan.weightsSize} ∧
      (x.accountWeights nodes).plan.Bare ∧ (x.accountWeights nodes).plan.arena = (fun _ => none) ∧
      (x.accountWeights nodes).plan.arenaSize = fun _ => 0 := by
  have plan := clean.plan
  unfold accountWeights
  refine ⟨rfl,⟨?_,?_,?_⟩,?_,?_⟩ <;>
  · dsimp only
    rw [plan]
    rfl

theorem graphWarmup_granted (generous : luck.Generous) (nodes : List GraphNode) : graphWarmup luck nodes = true := by
  unfold graphWarmup
  simp [generous.upload]

def plannedWeights (nodes : List GraphNode) : BackendType → Nat :=
  ((⟨planShell,fun _ => ⟨nullPointer,0⟩,⟨[],0⟩⟩ : Planner).accountWeights nodes).plan.weightsSize

theorem graphPlan_cases (luck : Luck) (nodes : List GraphNode) (nUbatch : Nat) (s : Session) (clean : x.Clean) :
    (∃ y : Planner,y.Accounted ∧ ¬ luck.Generous ∧ x.graphPlan nUbatch luck s nodes = (false,y.planReset)) ∨
      ∃ (y : Planner) (kc : KvCache) (arenas cacheArenas : BackendType → Option Nat),x.graphPlan nUbatch luck s nodes = (true,y) ∧
        y.plan = ⟨x.plan.backend,arenas,(Graph.arenaPlan nodes s.cfg nUbatch).bump,plannedWeights nodes,some kc,cacheArenas,
          plannedKvcacheSize nodes s.cfg s.ctxSize,true⟩ ∧
        described kc = plannedCache nodes s.cfg s.ctxSize ∧
        (List.range nodes.length).map y.slots = (List.range nodes.length).map (plannedSlot nodes s.cfg nUbatch) := by
  obtain ⟨same,bare,vacant,empty⟩ := accountWeights_bare clean nodes
  have accounted := arenaPlan_accounted bare luck nodes s.cfg nUbatch vacant clean.held
  have planned := arenaPlan_done luck nodes s.cfg nUbatch vacant empty
  have granted := @arenaPlan_granted luck nodes s.cfg nUbatch (x.accountWeights nodes)
  unfold Planner.graphPlan
  generalize (x.accountWeights nodes).arenaPlan luck nodes s.cfg nUbatch = out at accounted planned granted ⊢
  obtain ⟨done,y⟩ := out
  cases done with
  | false => exact Or.inl ⟨y,accounted,fun generous => Bool.false_ne_true (granted generous),rfl⟩
  | true =>
    obtain ⟨plan,slots⟩ := planned rfl
    dsimp only at plan slots accounted ⊢
    have bare' : y.plan.Bare := by
      rw [plan]
      exact ⟨bare.cache,bare.cacheArena,bare.kvcacheSize⟩
    have owns : Owns (backends.map y.plan.arena) y.ledger := by
      have all := accounted.owns
      rwa [cachePointers,bare'.cache,List.append_nil] at all
    have accounted' := cacheBuild_accounted luck nodes s.cfg s.ctxSize bare' owns
    have cached := cacheBuild_done luck nodes s.cfg s.ctxSize bare'
    have granted' := @cacheBuild_granted luck nodes s.cfg s.ctxSize y
    generalize y.cacheBuild luck nodes s.cfg s.ctxSize = out at accounted' cached granted' ⊢
    obtain ⟨done,z⟩ := out
    cases done with
    | false => exact Or.inl ⟨z,accounted',fun generous => Bool.false_ne_true (granted' generous),rfl⟩
    | true =>
      dsimp only at accounted' cached ⊢
      obtain ⟨kc,arenas,w,rfl,cache⟩ := cached rfl
      split
      · refine Or.inr ⟨_,kc,y.plan.arena,arenas,rfl,?_,cache,slots⟩
        rw [plan,same]
        rfl
      · next cold => exact Or.inl ⟨_,accounted',fun generous => cold (graphWarmup_granted generous nodes),rfl⟩

end plan

end Planner

end TinyLlama.Engine
