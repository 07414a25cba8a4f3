import TinyLlama.Pthreads.Invariant
import TinyLlama.Lib.Transition

namespace TinyLlama.Pthreads
open Transition

variable {n : Nat} {ω α : Type}

abbrev CleanRun : State n ω α → State n ω α → Prop := Reached CleanStep apply

theorem cleanRun_inv (path : CleanRun (pthreadsCreate nthreads : State _ ω α) s) : Inv s :=
  path.keeps Inv inv_preserved (inv_initial nthreads)

theorem Inv.exactlyOnce {s : State n ω α} (inv : Inv s) : ExactlyOnce s := by
  have between : s.dispatcher = .idle ∨ s.dispatcher = .closed → s.dispatcher.call = none := by
    rintro (at' | at') <;> rw [at'] <;> rfl
  refine ⟨inv.own,inv.once,?_,?_⟩
  · intro r job known ended
    exact inv.past r job known (ended.imp id between)
  · intro ended w i inside
    have still := ((inv.quiet (between ended)).1 w).2
    rw [inside] at still
    simp [Worker.busy] at still

-- No call is added to a dispatch that is over.
structure Later (s t : State n ω α) : Prop where
  round : s.round ≤ t.round
  ended : t.round = s.round → t.dispatcher.call = none
  calls : ∀ c ∈ t.calls, c ∈ s.calls ∨ s.round < c.round

theorem Later.step {s t : State n ω α} (later : Later s t) (a : Action n ω α) (inv : Inv t) (step : CleanStep t a) :
    Later s (apply t a) := by
  obtain ⟨allowed,_⟩ := step
  have during : ∀ k job, t.dispatcher.call = some (k,job) → s.round < t.round := by
    intro k job call
    refine Nat.lt_of_le_of_ne later.round fun same => ?_
    rw [later.ended same.symm] at call
    simp at call
  cases a with
  | dispatch job =>
    simp only [apply]
    split
    · exact later
    · exact ⟨Nat.le_succ_of_le later.round,fun same => absurd later.round (by simp only at same; omega),later.calls⟩
  | store k job =>
    obtain ⟨calls,_,round,_⟩ := store_frame t job k
    have busy := during k job (by rw [allowed.1]; rfl)
    exact ⟨by rw [apply,round]; exact later.round,fun same => by rw [apply,round] at same; omega,by
      rw [apply]; simpa only [calls] using later.calls⟩
  | publish job =>
    have setting : t.dispatcher = .setting 7 job := allowed
    have busy := during 7 job (by rw [setting]; rfl)
    exact ⟨later.round,fun same => absurd same (Nat.ne_of_gt busy),later.calls⟩
  | test job =>
    simp only [apply]
    split
    · exact later
    · exact ⟨later.round,fun _ => rfl,later.calls⟩
  | finish job => exact ⟨later.round,fun _ => rfl,later.calls⟩
  | destroy => exact ⟨later.round,fun _ => rfl,later.calls⟩
  | call w i work arg =>
    have at' : t.worker w = .ready i (some work) (some arg) := allowed
    have held : t.pending w = some i := by rw [State.pending,at']; rfl
    obtain ⟨k,job,call,_⟩ := inv.holds held
    refine ⟨later.round,later.ended,fun c listed => ?_⟩
    rcases List.mem_cons.mp listed with rfl | before
    · exact .inr (during k job call)
    · exact later.calls c before
  | swap w i =>
    simp only [apply]
    split
    · exact ⟨later.round,later.ended,later.calls⟩
    · exact ⟨later.round,later.ended,later.calls⟩
  | _ => exact ⟨later.round,later.ended,later.calls⟩

theorem cleanRun_later (start : CleanRun (pthreadsCreate nthreads : State _ ω α) s) (idle : s.dispatcher = .idle)
    (path : CleanRun s t) : Later s t := by
  have both : Inv t ∧ Later s t := by
    refine path.keeps (fun t => Inv t ∧ Later s t) (fun t a held step => ?_) ⟨cleanRun_inv start,?_⟩
    · exact ⟨inv_preserved t a held.1 step,held.2.step a held.1 step⟩
    · exact ⟨Nat.le_refl _,fun _ => by rw [idle]; rfl,fun c listed => .inl listed⟩
  exact both.2

theorem parallel_for_exactly_once (nthreads : Int) (s t : State (poolSize nthreads) ω α)
    (start : CleanRun (pthreadsCreate nthreads) s) (path : CleanRun s t) :
    ExactlyOnce s ∧ ExactlyOnce t ∧
      (s.dispatcher = .idle → ∀ c ∈ t.calls, c ∈ s.calls ∨ s.round < c.round) :=
  ⟨(cleanRun_inv start).exactlyOnce,(cleanRun_inv (start.trans path)).exactlyOnce,
    fun idle => (cleanRun_later start idle path).calls⟩

instance [DecidableEq ω] [DecidableEq α] (s : State n ω α) (a : Action n ω α) : Decidable (CleanStep s a) :=
  inferInstanceAs (Decidable (Allowed s a ∧ Clean s a))

def oneJob (stop : Int) (high : stop ≤ intMax) (work : Nat) : Job Nat Nat := ⟨0,stop,work,work,by decide,high⟩

def setUp (job : Job Nat Nat) : List (Action n Nat Nat) :=
  .dispatch job :: (List.range 7).map (fun k => .store k job)++[.publish job]

def serve (w : Fin n) (i : Int) (job : Job Nat Nat) : List (Action n Nat Nat) :=
  [.loadWork w i none,.loadArg w i (some (some job.work)),.call w i (some job.work) (some job.arg),.leave w i,.count w]

def take (w : Fin n) (i : Int) (round : Nat) : List (Action n Nat Nat) := [.read w,.swap w i,.compare w i round]

def firstJob : Job Nat Nat := oneJob 1 (by decide) 10
def secondJob : Job Nat Nat := oneJob 3 (by decide) 20

-- Two workers and two dispatches: worker 1 loses the first index to worker 0, and both report before each return.
def promptSchedule : List (Action 2 Nat Nat) :=
  setUp secondJob++[.enter 0,.enter 1,.read 0,.read 1,.swap 0 0,.swap 1 0,.compare 0 0 1]++take 1 1 1++serve 1 1 secondJob++
    serve 0 0 secondJob++take 0 2 1++take 1 3 1++serve 0 2 secondJob++take 0 4 1++
    [.report 1,.report 0,.test secondJob,.finish secondJob]++
    setUp firstJob++[.enter 1,.enter 0]++take 1 0 2++take 0 1 2++serve 1 0 firstJob++take 1 2 2++
    [.report 0,.report 1,.test firstJob,.finish firstJob]

theorem promptSchedule_once : ∃ s : State (poolSize 2) Nat Nat, CleanRun (pthreadsCreate 2) s ∧ s.dispatcher = .idle ∧
    s.calls.map (fun c => (c.round,c.index,c.tid.val)) = [(2,0,1),(1,2,0),(1,0,0),(1,1,1)] ∧ ExactlyOnce s := by
  have ends : (run CleanStep apply (pthreadsCreate 2) promptSchedule).map
      (fun s => (s.dispatcher,s.calls.map fun c => (c.round,c.index,c.tid.val))) = some (.idle,[(2,0,1),(1,2,0),(1,0,0),(1,1,1)]) := by
    decide +kernel
  obtain ⟨s,reached,facts⟩ := Option.map_eq_some_iff.mp ends
  obtain ⟨idle,calls⟩ := Prod.mk.inj facts
  have path := run_reached CleanStep apply _ _ _ reached
  exact ⟨s,path,idle,calls,(parallel_for_exactly_once 2 s s path .refl).1⟩

-- The worker that is done takes an index more before the first call returns,
-- and finds it below `end` in the second: index 2 is called twice.
def lateSchedule : List (Action 1 Nat Nat) :=
  setUp firstJob++[.enter 0]++take 0 0 1++serve 0 0 firstJob++take 0 1 1++
    [.report 0,.enter 0,.read 0,.swap 0 2,.test firstJob,.finish firstJob]++
    setUp secondJob++[.compare 0 2 1]++serve 0 2 secondJob++
    take 0 0 2++serve 0 0 secondJob++take 0 1 2++serve 0 1 secondJob++take 0 2 2++serve 0 2 secondJob

theorem lateSchedule_twice : ∃ s : State (poolSize 1) Nat Nat, Reached Allowed apply (pthreadsCreate 1) s ∧
    ¬ExactlyOnce s := by
  have ends : (run Allowed apply (pthreadsCreate 1) lateSchedule).map
      (fun s => s.calls.map fun c => (c.round,c.index)) = some [(2,2),(2,1),(2,0),(2,2),(1,0)] := by
    decide +kernel
  obtain ⟨s,reached,calls⟩ := Option.map_eq_some_iff.mp ends
  refine ⟨s,run_reached Allowed apply _ _ _ reached,fun promise => ?_⟩
  have distinct := promise.once
  rw [calls] at distinct
  exact absurd distinct (by decide)

end TinyLlama.Pthreads
