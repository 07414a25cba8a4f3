import TinyLlama.Engine.Planning

namespace TinyLlama.Engine
open Gguf TinyLlama.Graph Allocations

-- A planned graph without the numbers of its allocations.
structure PlanLayout where
  backend : BackendType
  slots : List NodeSlot
  arenaSize : BackendType → Nat
  weightsSize : BackendType → Nat
  kvcacheSize : BackendType → Nat
  cache : Option KvCache

def PlannedGraph.layout (g : PlannedGraph) : Option PlanLayout :=
  g.plan.map fun p => ⟨p.backend,(List.range g.nodes.length).map g.slots,p.arenaSize,p.weightsSize,p.kvcacheSize,
    p.cache.map Planner.described⟩

def PlanState.layout (st : PlanState) : Option PlanLayout := st.graph.bind PlannedGraph.layout

def plannedLayout (nUbatch : Nat) (s : Session) (nodes : List GraphNode) : PlanLayout :=
  ⟨if s.nGpuLayers > 0 then .cuda else .cpu,(List.range nodes.length).map (Planner.plannedSlot nodes s.cfg nUbatch),
    (Graph.arenaPlan nodes s.cfg nUbatch).bump,Planner.plannedWeights nodes,Planner.plannedKvcacheSize nodes s.cfg s.ctxSize,
    some (Planner.plannedCache nodes s.cfg s.ctxSize)⟩

theorem assigned_assigned (s : Session) : assigned (assigned s) = assigned s := by
  unfold assigned
  rw [show clampedLayers {s with nGpuLayers:=clampedLayers s} = clampedLayers s from clampedLayers_assigned s]

theorem assignBackends_assigned (s : Session) (nodes : List GraphNode) :
    assignBackends (assigned s) (assignBackends s nodes) = assignBackends s nodes := by
  unfold assignBackends
  rw [List.map_map]
  refine List.map_congr_left fun n _ => ?_
  have same : assignedBackend (assigned s) {n with backend:=assignedBackend s n} = assignedBackend s n := by
    change (if n.op = .h2d ∨ n.op = .d2h then backendType (n.param 0) else layerBackend (assigned s) n.layer) = _
    rw [layerBackend_assigned]
    rfl
  dsimp only [Function.comp_apply]
  rw [same]

-- A graph as built from the session s, planned or with nothing of a plan but the shell.
structure Steady (graphBuild : Session → Nat → Option (List GraphNode)) (nUbatch : Nat) (s : Session) (nodes : List GraphNode)
    (x : Stage) : Prop where
  built : graphBuild s nUbatch = some nodes
  session : assigned x.session = assigned s
  again : assignBackends x.session x.graph.nodes = assignBackends s nodes
  planned : x.graph.ready = true → x.graph.layout = some (plannedLayout nUbatch (assigned s) (assignBackends s nodes))
  shell : x.graph.ready = false → (∀ p,x.graph.plan = some p → p = {planShell with backend:=p.backend}) ∧ x.ledger.held = []

section attempts
variable {graphBuild : Session → Nat → Option (List GraphNode)} {nUbatch : Nat} {luck : Luck} {s : Session} {nodes : List GraphNode}
  {x : Stage}

theorem shell_fresh {plan : Option GraphPlan} {p : GraphPlan} (clean : ∀ p,plan = some p → p = {planShell with backend:=p.backend})
    (made : (plan <|> if luck.shell then some planShell else none) = some p) : p = {planShell with backend:=p.backend} := by
  cases plan with
  | none =>
    change (if luck.shell = true then some planShell else none) = some p at made
    split at made
    · cases made
      rfl
    · cases made
  | some q =>
    exact clean p made

theorem graphPlan_attempt (luck : Luck) (steady : Steady graphBuild nUbatch s nodes x) :
    Steady graphBuild nUbatch s nodes (graphPlan nUbatch luck x).2 ∧
      (graphPlan nUbatch luck x).2.graph.ready = (graphPlan nUbatch luck x).1 ∧
      (luck.Generous → (graphPlan nUbatch luck x).1 = true) := by
  have session : assigned (assigned x.session) = assigned s := (assigned_assigned _).trans steady.session
  have again : assignBackends (assigned x.session) (assignBackends x.session x.graph.nodes) = assignBackends s nodes :=
    (assignBackends_assigned _ _).trans steady.again
  unfold graphPlan
  by_cases ready : x.graph.ready = true
  · rw [if_pos ready]
    exact ⟨steady,ready,fun _ => rfl⟩
  · rw [if_neg ready]
    obtain ⟨clean,held⟩ := steady.shell (Bool.not_eq_true _ ▸ ready)
    dsimp only
    split
    · next shell =>
      have none' : x.graph.plan = none ∧ luck.shell = false := by
        cases plan : x.graph.plan with
        | none => simpa [plan] using shell
        | some p => simp [plan] at shell
      have unready : ({x.graph with nodes:=assignBackends x.session x.graph.nodes} : PlannedGraph).ready = false := by
        simp [PlannedGraph.ready,none'.1]
      refine ⟨⟨steady.built,session,again,fun ready => absurd ready (by simp [unready]),fun _ => ⟨clean,held⟩⟩,unready,
        fun generous => ?_⟩
      exact absurd (generous.shell.symm.trans none'.2) (by decide)
    · next p shell =>
      have shell' := shell_fresh clean shell
      have start : (⟨{p with backend:=if (assigned x.session).nGpuLayers > 0 then .cuda else .cpu},x.graph.slots,x.ledger⟩ :
          Planner).Clean := by
        refine ⟨?_,held⟩
        rw [shell']
      have attempt := Planner.graphPlan_cases luck (assignBackends x.session x.graph.nodes) nUbatch (assigned x.session) start
      rcases attempt with ⟨y,accounted,refused,out⟩ | ⟨y,kc,arenas,cacheArenas,out,plan,cache,slots⟩
      · rw [out]
        obtain ⟨reset,none'⟩ := accounted.planReset
        have unready : (y.planReset.stage (assigned x.session) (assignBackends x.session x.graph.nodes)).graph.ready = false := by
          change y.planReset.plan.ready = false
          rw [reset]
          rfl
        refine ⟨⟨steady.built,session,again,fun ready => absurd ready (by simp [unready]),fun _ => ⟨fun p same => ?_,none'⟩⟩,unready,
          fun generous => absurd generous refused⟩
        cases same
        exact reset
      · rw [out]
        have ready : (y.stage (assigned x.session) (assignBackends x.session x.graph.nodes)).graph.ready = true := by
          change y.plan.ready = true
          rw [plan]
        refine ⟨⟨steady.built,session,again,fun _ => ?_,fun unready => absurd ready (by simp [unready])⟩,ready,fun _ => rfl⟩
        change some (PlanLayout.mk y.plan.backend _ y.plan.arenaSize y.plan.weightsSize y.plan.kvcacheSize
          (y.plan.cache.map Planner.described)) = _
        rw [plan,plannedLayout,← steady.session,← steady.again,← slots,← cache]
        rfl

end attempts

-- A call of a run, with what it met.
structure Visit where
  call : PlanCall
  luck : Luck
  before : PlanState
  result : Bool
  after : PlanState

section runs
variable (graphBuild : Session → Nat → Option (List GraphNode)) (nUbatch : Nat) (s : Session)

def visits : List (PlanCall × Luck) → PlanState → List Visit
  | [],_ => []
  | (call,luck) :: rest,st =>
    let out := call.run graphBuild nUbatch luck st
    ⟨call,luck,st,out.1,out.2⟩ :: visits rest out.2

def newSession : PlanState := ⟨s,0,none,⟨[],0⟩⟩

def generous : Luck := ⟨true,fun _ _ => true,true,true,fun _ _ => true,fun _ _ => true⟩

-- The layout of a first attempt that is granted all it asks for.
def firstLayout : Option PlanLayout := (graphPrepare graphBuild nUbatch generous (newSession s)).2.layout

-- Nothing is allocated and every counter is zero.
structure Released (st : PlanState) : Prop where
  held : st.ledger.held = []
  counters : ∀ g,st.graph = some g → ∀ p,g.plan = some p → ∀ b,p.arenaSize b = 0 ∧ p.weightsSize b = 0 ∧ p.kvcacheSize b = 0

-- An attempt on the graph that is granted all it asks for plans as a first one.
def Retries (st : PlanState) : Prop :=
  ∀ g,st.graph = some g → ∀ luck : Luck,luck.Generous →
    (graphPlan nUbatch luck ⟨st.session,g,st.ledger⟩).1 = true ∧
      (graphPlan nUbatch luck ⟨st.session,g,st.ledger⟩).2.graph.layout = firstLayout graphBuild nUbatch s

structure AllOrNothing (v : Visit) : Prop where
  prepared : v.call = .prepare → v.result = true → v.after.ready = true
  released : v.after.ready = false → Released v.after
  planned : v.after.ready = true → v.after.layout = firstLayout graphBuild nUbatch s
  retries : Retries graphBuild nUbatch s v.after

-- A shell that is not ready: what a failed attempt leaves.
def PlanState.stuck (st : PlanState) : Bool := st.graph.any fun g => g.plan.any fun p => !p.ready

end runs

section states
variable {graphBuild : Session → Nat → Option (List GraphNode)} {nUbatch : Nat} {luck : Luck} {s : Session} {nodes : List GraphNode}
  {st : PlanState}

inductive Standing (graphBuild : Session → Nat → Option (List GraphNode)) (nUbatch : Nat) (s : Session) (st : PlanState) : Prop where
  | unbuilt (graph : st.graph = none) (session : st.session = s) (held : st.ledger.held = [])
  | built (nodes : List GraphNode) (g : PlannedGraph) (graph : st.graph = some g)
    (steady : Steady graphBuild nUbatch s nodes ⟨st.session,g,st.ledger⟩)

theorem newSession_standing : Standing graphBuild nUbatch s (newSession s) := .unbuilt rfl rfl rfl

theorem Steady.standing (steady : Steady graphBuild nUbatch s nodes x) (nTokens : Nat) : Standing graphBuild nUbatch s (x.state nTokens) :=
  .built nodes x.graph rfl steady

theorem openGraph_steady (standing : Standing graphBuild nUbatch s st) (opened : openGraph graphBuild nUbatch st = some x) :
    ∃ nodes,Steady graphBuild nUbatch s nodes x := by
  unfold openGraph at opened
  cases standing with
  | unbuilt graph session held =>
    rw [graph] at opened
    obtain ⟨nodes,built,rfl⟩ := Option.map_eq_some_iff.mp opened
    rw [session] at built ⊢
    exact ⟨nodes,built,rfl,rfl,fun ready => (by cases ready),fun _ => ⟨fun p none' => (by cases none'),held⟩⟩
  | built nodes g graph steady =>
    rw [graph] at opened
    cases opened
    exact ⟨nodes,steady⟩

theorem graphCompute_steady (luck : Luck) (steady : Steady graphBuild nUbatch s nodes x) (ops : Bool) (pos n : Nat) :
    Steady graphBuild nUbatch s nodes (graphCompute nUbatch luck ops pos n x).2 := by
  have attempt := (graphPlan_attempt luck steady).1
  unfold graphCompute
  split
  · exact steady
  split
  · exact steady
  split
  · exact steady
  split
  · exact steady
  generalize graphPlan nUbatch luck x = out at attempt ⊢
  obtain ⟨done,y⟩ := out
  cases done with
  | false => exact attempt
  | true => exact attempt

theorem computeChunks_steady (luck : Luck) (ops : Nat → Bool) (pos n : Nat) : ∀ (fuel done : Nat) {x : Stage},
    Steady graphBuild nUbatch s nodes x →
    Steady graphBuild nUbatch s nodes (computeChunks nUbatch luck ops pos n fuel done x).2
  | 0,_,_,steady => steady
  | fuel+1,done,x,steady => by
    unfold computeChunks
    split
    · dsimp only
      have computed := graphCompute_steady luck steady (ops done) (pos+done) (if n-done > nUbatch then nUbatch else n-done)
      generalize graphCompute nUbatch luck (ops done) (pos+done) (if n-done > nUbatch then nUbatch else n-done) x = out at computed ⊢
      obtain ⟨ok,y⟩ := out
      cases ok with
      | false => exact computed
      | true => exact computeChunks_steady luck ops pos n fuel _ computed
    · exact steady

theorem run_standing (standing : Standing graphBuild nUbatch s st) (call : PlanCall) :
    Standing graphBuild nUbatch s (call.run graphBuild nUbatch luck st).2 := by
  cases call with
  | prepare =>
    change Standing _ _ _ (graphPrepare graphBuild nUbatch luck st).2
    unfold graphPrepare
    cases opened : openGraph graphBuild nUbatch st with
    | none => exact standing
    | some x =>
      obtain ⟨nodes,steady⟩ := openGraph_steady standing opened
      dsimp only
      split
      · exact steady.standing _
      · exact (graphPlan_attempt luck steady).1.standing _
  | execute n tokenBuffer ops =>
    change Standing _ _ _ (graphExecute graphBuild nUbatch luck n tokenBuffer ops st).2
    unfold graphExecute
    split
    · exact standing
    cases opened : openGraph graphBuild nUbatch st with
    | none => exact standing
    | some x =>
      obtain ⟨nodes,steady⟩ := openGraph_steady standing opened
      dsimp only
      split
      · exact steady.standing _
      split
      · exact steady.standing _
      have computed := computeChunks_steady luck ops st.nTokens n n 0 steady
      generalize computeChunks nUbatch luck ops st.nTokens n n 0 x = out at computed ⊢
      obtain ⟨ok,y⟩ := out
      cases ok with
      | false => exact computed.standing _
      | true => exact computed.standing _

theorem firstLayout_eq (built : graphBuild s nUbatch = some nodes) :
    firstLayout graphBuild nUbatch s = some (plannedLayout nUbatch (assigned s) (assignBackends s nodes)) := by
  have steady : Steady graphBuild nUbatch s nodes ⟨s,⟨nodes,fun _ => ⟨nullPointer,0⟩,none⟩,⟨[],0⟩⟩ :=
    ⟨built,rfl,rfl,fun ready => (by cases ready),fun _ => ⟨fun p none' => (by cases none'),rfl⟩⟩
  obtain ⟨after,ready,granted⟩ := graphPlan_attempt generous steady
  have done := granted ⟨rfl,fun _ _ => rfl,rfl,rfl,fun _ _ => rfl,fun _ _ => rfl⟩
  unfold firstLayout graphPrepare openGraph newSession
  dsimp only
  rw [built]
  exact after.planned (ready.trans done)

theorem graphPrepare_ready (standing : Standing graphBuild nUbatch s st) (stuck : st.stuck = false)
    (done : (graphPrepare graphBuild nUbatch luck st).1 = true) : (graphPrepare graphBuild nUbatch luck st).2.ready = true := by
  unfold graphPrepare at done ⊢
  cases opened : openGraph graphBuild nUbatch st with
  | none =>
    rw [opened] at done
    cases done
  | some x =>
    obtain ⟨nodes,steady⟩ := openGraph_steady standing opened
    rw [opened] at done
    dsimp only at done ⊢
    cases plan : x.graph.plan with
    | none =>
      rw [plan] at done
      dsimp only at done ⊢
      exact (graphPlan_attempt luck steady).2.1.trans done
    | some p =>
      dsimp only
      change x.graph.plan.any GraphPlan.ready = true
      rw [plan]
      unfold openGraph at opened
      cases graph : st.graph with
      | none =>
        rw [graph] at opened
        obtain ⟨_,_,rfl⟩ := Option.map_eq_some_iff.mp opened
        cases plan
      | some g =>
        rw [graph] at opened
        cases opened
        dsimp only at plan
        simpa [PlanState.stuck,graph,plan] using stuck

theorem graphPrepare_stuck (graphBuild : Session → Nat → Option (List GraphNode)) (nUbatch : Nat) (luck : Luck) (stuck : st.stuck = true) :
    (graphPrepare graphBuild nUbatch luck st).1 = true ∧ (graphPrepare graphBuild nUbatch luck st).2.ready = false := by
  unfold PlanState.stuck at stuck
  cases graph : st.graph with
  | none => simp [graph] at stuck
  | some g =>
    cases plan : g.plan with
    | none => simp [graph,plan] at stuck
    | some p =>
      have unready : p.ready = false := by simpa [graph,plan] using stuck
      unfold graphPrepare openGraph
      simp [graph,plan,Stage.state,PlanState.ready,PlannedGraph.ready,unready]

theorem Standing.released (standing : Standing graphBuild nUbatch s st) (unready : st.ready = false) : Released st := by
  cases standing with
  | unbuilt graph session held => exact ⟨held,fun g there => by simp [graph] at there⟩
  | built nodes g graph steady =>
    have unready' : g.ready = false := by simpa [PlanState.ready,graph] using unready
    obtain ⟨clean,held⟩ := steady.shell unready'
    refine ⟨held,fun g' there p plan b => ?_⟩
    obtain rfl : g = g' := Option.some.inj (graph.symm.trans there)
    rw [clean p plan]
    exact ⟨rfl,rfl,rfl⟩

theorem Standing.planned (standing : Standing graphBuild nUbatch s st) (ready : st.ready = true) :
    st.layout = firstLayout graphBuild nUbatch s := by
  cases standing with
  | unbuilt graph => simp [PlanState.ready,graph] at ready
  | built nodes g graph steady =>
    have ready' : g.ready = true := by simpa [PlanState.ready,graph] using ready
    rw [firstLayout_eq steady.built,PlanState.layout,graph]
    exact steady.planned ready'

theorem Standing.retries (standing : Standing graphBuild nUbatch s st) : Retries graphBuild nUbatch s st := by
  intro g there luck generous
  cases standing with
  | unbuilt graph => simp [graph] at there
  | built nodes g' graph steady =>
    obtain rfl : g' = g := Option.some.inj (graph.symm.trans there)
    obtain ⟨after,ready,granted⟩ := graphPlan_attempt luck steady
    refine ⟨granted generous,?_⟩
    rw [firstLayout_eq steady.built]
    exact after.planned (ready.trans (granted generous))

theorem visit_allOrNothing (standing : Standing graphBuild nUbatch s st) (call : PlanCall) :
    AllOrNothing graphBuild nUbatch s
        ⟨call,luck,st,(call.run graphBuild nUbatch luck st).1,(call.run graphBuild nUbatch luck st).2⟩ ↔
      (call = .prepare → st.stuck = false) := by
  have standing' : Standing graphBuild nUbatch s (call.run graphBuild nUbatch luck st).2 := run_standing standing call
  constructor
  · intro all prepare
    subst prepare
    by_contra stuck
    obtain ⟨done,unready⟩ := graphPrepare_stuck graphBuild nUbatch luck ((Bool.not_eq_false _).mp stuck)
    have ready := all.prepared rfl done
    exact absurd (unready.symm.trans ready) (by decide)
  · intro prepared
    refine ⟨fun prepare done => ?_,standing'.released,standing'.planned,standing'.retries⟩
    dsimp only at prepare
    subst prepare
    exact graphPrepare_ready standing (prepared rfl) done

theorem visits_allOrNothing (calls : List (PlanCall × Luck)) (standing : Standing graphBuild nUbatch s st) :
    (∀ v ∈ visits graphBuild nUbatch calls st,AllOrNothing graphBuild nUbatch s v) ↔
      ∀ v ∈ visits graphBuild nUbatch calls st,v.call = .prepare → v.before.stuck = false := by
  induction calls generalizing st with
  | nil => simp [visits]
  | cons head rest ih =>
    unfold visits
    rw [List.forall_mem_cons,List.forall_mem_cons]
    exact and_congr (visit_allOrNothing standing head.1) (ih (run_standing standing head.1))

-- A run plans all or nothing unless graph_prepare is called on what a failed attempt has left.
theorem planning_allOrNothing_iff (graphBuild : Session → Nat → Option (List GraphNode)) (nUbatch : Nat) (s : Session)
    (calls : List (PlanCall × Luck)) :
    (∀ v ∈ visits graphBuild nUbatch calls (newSession s),AllOrNothing graphBuild nUbatch s v) ↔
      ∀ v ∈ visits graphBuild nUbatch calls (newSession s),v.call = .prepare → v.before.stuck = false :=
  visits_allOrNothing calls newSession_standing

end states

-- The device refuses the arena of the first call; the second prepares nothing and says so.
def refusing : Luck := {generous with arena:=fun b _ => b ≠ .cuda}

def builder (ws : ArchWorkspace) (s : Session) (nTokens : Nat) : Option (List GraphNode) := (archBuild s ws nTokens).map Graph.nodes

theorem refusedArena_prepared : ¬ ∀ (m : Model) (s s' : Session) (granted : List Nat → Nat → Bool) (ws : ArchWorkspace)
    (blocks : List Nat) (nUbatch : Nat) (calls : List (PlanCall × Luck)),archInit m s noFloats granted = some (s',ws,blocks) →
      ∀ v ∈ visits (builder ws) nUbatch calls (newSession s'),AllOrNothing (builder ws) nUbatch s' v := by
  intro all
  have stuck : ((archInit plainModel twoSides noFloats fun _ _ => true).any fun x =>
      (graphPrepare (builder x.2.1) 2 refusing (newSession x.1)).2.stuck) = true := by decide +kernel
  obtain ⟨⟨s,ws,blocks⟩,init,stuck⟩ := (Option.any_eq_true _ _).mp stuck
  have visit := all plainModel twoSides s (fun _ _ => true) ws blocks 2 [(.prepare,refusing),(.prepare,generous)] init _
    (List.mem_cons_of_mem _ List.mem_cons_self)
  have ready := (visit_allOrNothing (run_standing newSession_standing .prepare) .prepare).mp visit rfl
  exact Bool.false_ne_true (ready.symm.trans stuck)

end TinyLlama.Engine
