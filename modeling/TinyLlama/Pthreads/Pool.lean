import TinyLlama.Machine

-- pthreads.c: what the code does under the lock is one step, except a dispatch's stores, which unlocked reads see one by one.
namespace TinyLlama.Pthreads

def intMin : Int := -2^31
def intMax : Int := 2^31-1

-- int arithmetic; what overflows wraps.
def int (x : Int) : Int := x.bmod (2^32)

-- The arguments of one call of pthreads_parallel_for; `stop` is `end`.
structure Job (ω α : Type) where
  start : Int
  stop : Int
  work : ω
  arg : α
  low : intMin ≤ start
  high : stop ≤ intMax
deriving DecidableEq

-- A worker's program counter and registers. A ready worker has passed the test
-- against `end` and loads `work` and `work_arg` in either order before the call.
-- `claimed` remembers which dispatch's `current` the index was taken from.
inductive Worker (ω α : Type) where
  | top
  | asleep
  | gone
  | claim
  | swap (i : Int)
  | claimed (i : Int) (round : Nat)
  | ready (i : Int) (work : Option (Option ω)) (arg : Option (Option α))
  | inside (i : Int)
  | returned
  | finished
deriving DecidableEq

-- `setting k` holds the lock and has done the first k of its seven stores.
inductive Dispatcher (ω α : Type) where
  | idle
  | setting (k : Nat) (job : Job ω α)
  | waiting (job : Job ω α)
  | returning (job : Job ω α)
  | closed
deriving DecidableEq

structure Call (n : Nat) (ω α : Type) where
  round : Nat
  work : Option ω
  arg : Option α
  tid : Fin n
  index : Int
deriving DecidableEq

-- The pool, the program counters, and what the run has done so far: how many
-- dispatches, with which arguments, and the callback calls, newest first.
structure State (n : Nat) (ω α : Type) where
  start : Int
  stop : Int
  current : Int
  doneCount : Int
  doneWork : Int
  work : Option ω
  workArg : Option α
  shutdown : Bool
  dispatcher : Dispatcher ω α
  worker : Fin n → Worker ω α
  round : Nat
  job : Nat → Option (Job ω α)
  calls : List (Call n ω α)

def poolSize (nthreads : Int) : Nat := if nthreads < 1 then 1 else nthreads.toNat

def pthreadsCreate (nthreads : Int) : State (poolSize nthreads) ω α :=
  ⟨0,0,0,0,0,none,none,false,.idle,fun _ => .top,0,fun _ => none,[]⟩

inductive Action (n : Nat) (ω α : Type) where
  | dispatch (job : Job ω α)
  | store (k : Nat) (job : Job ω α)
  | publish (job : Job ω α)
  | test (job : Job ω α)
  | finish (job : Job ω α)
  | destroy
  | wake (w : Fin n)
  | enter (w : Fin n)
  | read (w : Fin n)
  | swap (w : Fin n) (i : Int)
  | compare (w : Fin n) (i : Int) (round : Nat)
  | loadWork (w : Fin n) (i : Int) (arg : Option (Option α))
  | loadArg (w : Fin n) (i : Int) (work : Option (Option ω))
  | call (w : Fin n) (i : Int) (work : Option ω) (arg : Option α)
  | leave (w : Fin n) (i : Int)
  | count (w : Fin n)
  | report (w : Fin n)

def Dispatcher.locks : Dispatcher ω α → Bool
  | .setting _ _ | .returning _ => true
  | _ => false

-- The dispatch whose values `current` holds: the stores before it still leave
-- the previous one's there.
def State.claimRound (s : State n ω α) : Nat :=
  match s.dispatcher with
  | .setting k _ => if k < 3 then s.round-1 else s.round
  | _ => s.round

def State.put (s : State n ω α) (w : Fin n) (x : Worker ω α) : State n ω α :=
  {s with worker:=Function.update s.worker w x}

def State.store (s : State n ω α) (job : Job ω α) : Nat → State n ω α
  | 0 => {s with start:=job.start}
  | 1 => {s with stop:=job.stop}
  | 2 => {s with current:=job.start}
  | 3 => {s with doneCount:=0}
  | 4 => {s with doneWork:=job.start}
  | 5 => {s with work:=some job.work}
  | _ => {s with workArg:=some job.arg}

-- A wake-up may be a signal, a broadcast or spurious.
def Allowed (s : State n ω α) : Action n ω α → Prop
  | .dispatch _ => s.dispatcher = .idle
  | .store k job => s.dispatcher = .setting k job ∧ k < 7
  | .publish job => s.dispatcher = .setting 7 job
  | .test job => s.dispatcher = .waiting job
  | .finish job => s.dispatcher = .returning job
  | .destroy => s.dispatcher = .idle
  | .wake w => s.worker w = .asleep
  | .enter w => s.worker w = .top ∧ s.dispatcher.locks = false
  | .read w => s.worker w = .claim
  | .swap w i => s.worker w = .swap i
  | .compare w i round => s.worker w = .claimed i round
  | .loadWork w i arg => s.worker w = .ready i none arg
  | .loadArg w i work => s.worker w = .ready i work none
  | .call w i work arg => s.worker w = .ready i (some work) (some arg)
  | .leave w i => s.worker w = .inside i
  | .count w => s.worker w = .returned
  | .report w => s.worker w = .finished ∧ s.dispatcher.locks = false

instance [DecidableEq ω] [DecidableEq α] (s : State n ω α) : (a : Action n ω α) → Decidable (Allowed s a)
  | .dispatch _ | .destroy => inferInstanceAs (Decidable (s.dispatcher = .idle))
  | .store k job => inferInstanceAs (Decidable (s.dispatcher = .setting k job ∧ k < 7))
  | .publish job => inferInstanceAs (Decidable (s.dispatcher = .setting 7 job))
  | .test job => inferInstanceAs (Decidable (s.dispatcher = .waiting job))
  | .finish job => inferInstanceAs (Decidable (s.dispatcher = .returning job))
  | .wake w => inferInstanceAs (Decidable (s.worker w = .asleep))
  | .enter w => inferInstanceAs (Decidable (s.worker w = .top ∧ s.dispatcher.locks = false))
  | .read w => inferInstanceAs (Decidable (s.worker w = .claim))
  | .swap w i => inferInstanceAs (Decidable (s.worker w = .swap i))
  | .compare w i round => inferInstanceAs (Decidable (s.worker w = .claimed i round))
  | .loadWork w i arg => inferInstanceAs (Decidable (s.worker w = .ready i none arg))
  | .loadArg w i work => inferInstanceAs (Decidable (s.worker w = .ready i work none))
  | .call w i work arg => inferInstanceAs (Decidable (s.worker w = .ready i (some work) (some arg)))
  | .leave w i => inferInstanceAs (Decidable (s.worker w = .inside i))
  | .count w => inferInstanceAs (Decidable (s.worker w = .returned))
  | .report w => inferInstanceAs (Decidable (s.worker w = .finished ∧ s.dispatcher.locks = false))

def apply (s : State n ω α) : Action n ω α → State n ω α
  | .dispatch job =>
    if job.start ≥ job.stop then s
    else {s with dispatcher:=.setting 0 job,round:=s.round+1,job:=Function.update s.job (s.round+1) (some job)}
  | .store k job => {s.store job k with dispatcher:=.setting (k+1) job}
  | .publish job => {s with dispatcher:=.waiting job}
  | .test job =>
    if s.doneCount < n ∨ s.doneWork < job.stop then s else {s with dispatcher:=.returning job}
  | .finish _ => {s with dispatcher:=.idle,work:=none}
  | .destroy => {s with dispatcher:=.closed,shutdown:=true}
  | .wake w => s.put w .top
  | .enter w => s.put w (if s.shutdown then .gone else if s.work.isNone then .asleep else .claim)
  | .read w => s.put w (.swap s.current)
  | .swap w i =>
    if s.current = i then {s.put w (.claimed i s.claimRound) with current:=int (i+1)} else s.put w .claim
  | .compare w i _ => s.put w (if i ≥ s.stop then .finished else .ready i none none)
  | .loadWork w i arg => s.put w (.ready i (some s.work) arg)
  | .loadArg w i work => s.put w (.ready i work (some s.workArg))
  | .call w i work arg => {s.put w (.inside i) with calls:=⟨s.round,work,arg,w,i⟩ :: s.calls}
  | .leave w _ => s.put w .returned
  | .count w => {s.put w .claim with doneWork:=int (s.doneWork+1)}
  | .report w => {s.put w .top with doneCount:=int (s.doneCount+1)}

-- Dispatch r is over: a later one has begun, or the call has returned.
def State.ended (s : State n ω α) (r : Nat) : Prop :=
  r < s.round ∨ s.dispatcher = .idle ∨ s.dispatcher = .closed

-- What the pool promises of the calls made so far.
structure ExactlyOnce (s : State n ω α) : Prop where
  own : ∀ c ∈ s.calls, ∃ job, s.job c.round = some job ∧ c.work = some job.work ∧ c.arg = some job.arg ∧
    job.start ≤ c.index ∧ c.index < job.stop
  once : (s.calls.map fun c => (c.round,c.index)).Nodup
  all : ∀ r job, s.job r = some job → s.ended r → ∀ i, job.start ≤ i → i < job.stop →
    ∃ c ∈ s.calls, c.round = r ∧ c.index = i
  left : s.dispatcher = .idle ∨ s.dispatcher = .closed → ∀ w i, s.worker w ≠ .inside i

end TinyLlama.Pthreads
