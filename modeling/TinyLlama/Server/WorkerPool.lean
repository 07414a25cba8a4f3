import Mathlib
import TinyLlama.Lib.Transition
import TinyLlama.Machine

-- server.c: the ring of requests. What is done under the lock is one step.
namespace TinyLlama.Server
open Transition

def jobQueueCap : Nat := 256

-- A job, with the number of the submit call that brought it.
structure ClientJob (β : Type) where
  call : Nat
  fd : Int
  body : β
deriving DecidableEq

-- A worker handles what the slot at `head` held; `none` is a slot as scalloc left it.
inductive Worker (β : Type) where
  | idle
  | handling (job : Option (ClientJob β))
  | gone
deriving DecidableEq

-- The pool, the workers, and what the run has done so far, oldest first.
structure WorkerPool (n : Nat) (β : Type) where
  queue : Nat → Option (ClientJob β)
  head : Nat
  tail : Nat
  count : Nat
  stop : Bool
  worker : Fin n → Worker β
  calls : Nat
  accepted : List (ClientJob β)
  rejected : List (ClientJob β)
  taken : List (Fin n × Option (ClientJob β))
  handled : List (Fin n × Option (ClientJob β))

inductive PoolAction (n : Nat) (β : Type) where
  | submit (fd : Int) (body : β)
  | enter (w : Fin n)
  | leave (w : Fin n)
  | destroy
deriving DecidableEq

def workerPoolCreate : WorkerPool n β := ⟨fun _ => none,0,0,0,false,fun _ => .idle,0,[],[],[],[]⟩

def workerPoolSubmit (pool : WorkerPool n β) (fd : Int) (body : β) : WorkerPool n β :=
  let job := ⟨pool.calls,fd,body⟩
  if pool.stop ∨ pool.count = jobQueueCap then {pool with calls:=pool.calls+1,rejected:=pool.rejected++[job]}
  else
    {pool with
      queue:=Function.update pool.queue pool.tail (some job)
      tail:=(pool.tail+1)%jobQueueCap
      count:=pool.count+1
      calls:=pool.calls+1
      accepted:=pool.accepted++[job]}

def workerEnter (pool : WorkerPool n β) (w : Fin n) : WorkerPool n β :=
  if pool.count = 0 then
    if pool.stop then {pool with worker:=Function.update pool.worker w .gone} else pool
  else
    let job := pool.queue pool.head
    {pool with
      head:=(pool.head+1)%jobQueueCap
      count:=pool.count-1
      worker:=Function.update pool.worker w (.handling job)
      taken:=pool.taken++[(w,job)]}

def workerLeave (pool : WorkerPool n β) (w : Fin n) : WorkerPool n β :=
  match pool.worker w with
  | .handling job => {pool with worker:=Function.update pool.worker w .idle,handled:=pool.handled++[(w,job)]}
  | _ => pool

def PoolAllowed (pool : WorkerPool n β) : PoolAction n β → Prop
  | .submit _ _ => True
  | .enter w => pool.worker w = .idle
  | .leave w => ∃ job, pool.worker w = .handling job
  | .destroy => True

def poolStep (pool : WorkerPool n β) : PoolAction n β → WorkerPool n β
  | .submit fd body => workerPoolSubmit pool fd body
  | .enter w => workerEnter pool w
  | .leave w => workerLeave pool w
  | .destroy => {pool with stop:=true}

-- The k-th job ever accepted waits in slot k mod 256 from its submit to its take.
structure Ring (pool : WorkerPool n β) : Prop where
  count : pool.count+pool.taken.length = pool.accepted.length
  full : pool.count ≤ jobQueueCap
  head : pool.head = pool.taken.length%jobQueueCap
  tail : pool.tail = pool.accepted.length%jobQueueCap
  order : pool.taken.map Prod.snd = (pool.accepted.take pool.taken.length).map some
  slots : ∀ k, pool.taken.length ≤ k → k < pool.accepted.length → pool.queue (k%jobQueueCap) = pool.accepted[k]?

-- Each submit call is accepted or rejected, once.
structure Numbered (pool : WorkerPool n β) : Prop where
  below : ∀ job ∈ pool.accepted++pool.rejected, job.call < pool.calls
  distinct : ((pool.accepted++pool.rejected).map ClientJob.call).Nodup

-- What a worker took it handles or has handled, and it leaves an empty queue behind.
structure Served (pool : WorkerPool n β) : Prop where
  taken : ∀ w job, (w,job) ∈ pool.taken ↔ (w,job) ∈ pool.handled ∨ pool.worker w = .handling job
  once : pool.handled.Nodup
  current : ∀ w job, pool.worker w = .handling job → (w,job) ∉ pool.handled
  gone : ∀ w, pool.worker w = .gone → pool.stop = true ∧ pool.count = 0

structure PoolInv (pool : WorkerPool n β) : Prop where
  ring : Ring pool
  numbered : Numbered pool
  served : Served pool

variable {pool : WorkerPool n β}

theorem Ring.taken_le (ring : Ring pool) : pool.taken.length ≤ pool.accepted.length := by
  have total := ring.count
  omega

theorem Ring.next (ring : Ring pool) (some' : pool.count ≠ 0) :
    ∃ job, pool.accepted[pool.taken.length]? = some job ∧ pool.queue pool.head = some job := by
  have total := ring.count
  have inside : pool.taken.length < pool.accepted.length := by omega
  refine ⟨pool.accepted[pool.taken.length],List.getElem?_eq_getElem inside,?_⟩
  rw [ring.head,ring.slots _ (Nat.le_refl _) inside,List.getElem?_eq_getElem inside]

theorem Ring.submit (ring : Ring pool) (room : ¬(pool.stop ∨ pool.count = jobQueueCap)) (fd : Int) (body : β) :
    Ring (workerPoolSubmit pool fd body) := by
  have full := ring.full
  have total := ring.count
  have below : pool.count < jobQueueCap := by
    have different : pool.count ≠ jobQueueCap := fun same => room (.inr same)
    omega
  rw [workerPoolSubmit,if_neg room]
  refine ⟨?_,by simpa using below,ring.head,?_,?_,?_⟩
  · simp only [List.length_append,List.length_cons,List.length_nil]
    omega
  · simp only [List.length_append,List.length_cons,List.length_nil,ring.tail,Nat.mod_add_mod]
  · simp only [List.take_append_of_le_length ring.taken_le]
    exact ring.order
  · intro k from' upto
    change pool.taken.length ≤ k at from'
    simp only [List.length_append,List.length_cons,List.length_nil] at upto
    by_cases last : k = pool.accepted.length
    · simp [last,ring.tail]
    · have other : k%jobQueueCap ≠ pool.tail := by
        rw [ring.tail]
        unfold jobQueueCap at *
        omega
      simp only [Function.update_of_ne other]
      rw [ring.slots k from' (by omega),List.getElem?_append_left (by omega)]

theorem Ring.take (ring : Ring pool) (some' : pool.count ≠ 0) (w : Fin n) : Ring (workerEnter pool w) := by
  obtain ⟨job,listed,slot⟩ := ring.next some'
  have full := ring.full
  have total := ring.count
  rw [workerEnter,if_neg some']
  refine ⟨?_,?_,?_,ring.tail,?_,?_⟩
  · simp only [List.length_append,List.length_cons,List.length_nil]
    omega
  · show pool.count-1 ≤ jobQueueCap
    omega
  · simp only [List.length_append,List.length_cons,List.length_nil,ring.head,Nat.mod_add_mod]
  · simp only [List.map_append,List.map_cons,List.map_nil,List.length_append,List.length_cons,List.length_nil,slot,
      ring.order,List.take_add_one,listed,Option.toList_some]
  · intro k from' upto
    simp only [List.length_append,List.length_cons,List.length_nil] at from'
    exact ring.slots k (by omega) upto

theorem Numbered.add (numbered : Numbered pool) (fd : Int) (body : β) : Numbered (workerPoolSubmit pool fd body) := by
  have fresh : ∀ job ∈ pool.accepted++pool.rejected, job.call ≠ pool.calls := fun job listed =>
    Nat.ne_of_lt (numbered.below job listed)
  have distinct := numbered.distinct
  rw [workerPoolSubmit]
  split
  · refine ⟨?_,?_⟩
    · intro job listed
      rw [← List.append_assoc] at listed
      rcases List.mem_append.mp listed with before | last
      · exact Nat.lt_succ_of_lt (numbered.below job before)
      · obtain rfl := List.mem_singleton.mp last
        exact Nat.lt_succ_self _
    · simp only [← List.append_assoc]
      rw [List.map_append,List.nodup_append]
      refine ⟨distinct,List.nodup_singleton _,?_⟩
      intro a before b last same
      obtain ⟨job,listed,rfl⟩ := List.mem_map.mp before
      simp only [List.map_cons,List.map_nil,List.mem_singleton] at last
      exact fresh job listed (same.trans last)
  · have moved (job : ClientJob β) :
        ((pool.accepted++[job])++pool.rejected).Perm (job :: (pool.accepted++pool.rejected)) := by
      rw [List.append_assoc]
      exact List.perm_middle
    refine ⟨?_,?_⟩
    · intro job listed
      rcases List.mem_cons.mp ((moved _).mem_iff.mp listed) with rfl | before
      · exact Nat.lt_succ_self _
      · exact Nat.lt_succ_of_lt (numbered.below job before)
    · rw [((moved _).map ClientJob.call).nodup_iff,List.map_cons,List.nodup_cons]
      refine ⟨fun listed => ?_,distinct⟩
      obtain ⟨job,inside,same⟩ := List.mem_map.mp listed
      exact fresh job inside same

theorem PoolInv.taken_nodup (inv : PoolInv pool) : (pool.taken.map Prod.snd).Nodup := by
  have all := (List.nodup_append.mp (by simpa only [List.map_append] using inv.numbered.distinct)).1
  have jobs : pool.accepted.Nodup := List.Nodup.of_map _ all
  rw [inv.ring.order]
  exact (jobs.sublist (List.take_sublist _ _)).map (Option.some_injective _)

theorem PoolInv.fresh (inv : PoolInv pool) (some' : pool.count ≠ 0) (w : Fin n) :
    (w,pool.queue pool.head) ∉ pool.taken := by
  obtain ⟨job,listed,slot⟩ := inv.ring.next some'
  have all := (List.nodup_append.mp (by simpa only [List.map_append] using inv.numbered.distinct)).1
  have jobs : pool.accepted.Nodup := List.Nodup.of_map _ all
  intro before
  have inside := List.mem_map_of_mem (f:=Prod.snd) before
  rw [inv.ring.order,slot] at inside
  obtain ⟨job',early,same⟩ := List.mem_map.mp inside
  obtain rfl := Option.some.inj same
  obtain ⟨k,below,found⟩ := List.mem_iff_getElem.mp early
  simp only [List.length_take,List.getElem_take] at below found
  obtain ⟨end',at'⟩ := List.getElem?_eq_some_iff.mp listed
  have index := jobs.getElem_inj_iff.mp (found.trans at'.symm)
  omega

theorem Served.take (inv : PoolInv pool) (some' : pool.count ≠ 0) (idle : pool.worker w = .idle) :
    Served (workerEnter pool w) := by
  have served := inv.served
  have new := inv.fresh some' w
  rw [workerEnter,if_neg some']
  refine ⟨?_,served.once,?_,?_⟩
  · intro v job
    simp only [List.mem_append,List.mem_singleton,Prod.mk.injEq]
    rw [served.taken v job]
    by_cases same : v = w
    · subst same
      simp only [Function.update_self,idle,Worker.handling.injEq,reduceCtorEq,or_false,true_and]
      rw [eq_comm]
    · simp only [Function.update_of_ne same,same,false_and,or_false]
  · intro v job
    by_cases same : v = w
    · subst same
      simp only [Function.update_self,Worker.handling.injEq]
      rintro rfl before
      exact new ((served.taken v _).mpr (.inl before))
    · simp only [Function.update_of_ne same]
      exact served.current v job
  · intro v
    by_cases same : v = w
    · subst same
      simp
    · simp only [Function.update_of_ne same]
      intro gone
      exact absurd (served.gone v gone).2 some'

theorem Served.leave (served : Served pool) (busy : pool.worker w = .handling job) : Served (workerLeave pool w) := by
  have first := served.current w job busy
  simp only [workerLeave,busy]
  refine ⟨?_,?_,?_,?_⟩
  · intro v job'
    simp only [List.mem_append,List.mem_singleton,Prod.mk.injEq]
    rw [served.taken v job']
    by_cases same : v = w
    · subst same
      simp only [Function.update_self,busy,Worker.handling.injEq,reduceCtorEq,or_false,true_and]
      rw [eq_comm]
    · simp only [Function.update_of_ne same,same,false_and,or_false]
  · rw [List.nodup_append]
    refine ⟨served.once,List.nodup_singleton _,?_⟩
    rintro a before b last rfl
    exact first (List.mem_singleton.mp last ▸ before)
  · intro v job'
    by_cases same : v = w
    · subst same
      simp
    · simp only [Function.update_of_ne same,List.mem_append,List.mem_singleton,Prod.mk.injEq,same,false_and,or_false]
      exact served.current v job'
  · intro v
    by_cases same : v = w
    · subst same
      simp
    · simp only [Function.update_of_ne same]
      exact served.gone v

theorem poolInv_preserved (pool : WorkerPool n β) (a : PoolAction n β) (inv : PoolInv pool) (allowed : PoolAllowed pool a) :
    PoolInv (poolStep pool a) := by
  obtain ⟨ring,numbered,served⟩ := inv
  cases a with
  | submit fd body =>
    refine ⟨?_,numbered.add fd body,?_⟩
    · by_cases refused : pool.stop ∨ pool.count = jobQueueCap
      · simp only [poolStep,workerPoolSubmit,if_pos refused]
        exact ⟨ring.count,ring.full,ring.head,ring.tail,ring.order,ring.slots⟩
      · exact ring.submit refused fd body
    · simp only [poolStep,workerPoolSubmit]
      split
      · exact ⟨served.taken,served.once,served.current,served.gone⟩
      · rename_i room
        refine ⟨served.taken,served.once,served.current,fun w gone => ?_⟩
        exact absurd (.inl (served.gone w gone).1) room
  | enter w =>
    by_cases empty : pool.count = 0
    · simp only [poolStep,workerEnter,if_pos empty]
      split
      · rename_i stop
        refine ⟨⟨ring.count,ring.full,ring.head,ring.tail,ring.order,ring.slots⟩,⟨numbered.below,numbered.distinct⟩,?_⟩
        have idle : pool.worker w = .idle := allowed
        refine ⟨fun v job => ?_,served.once,fun v job => ?_,fun v gone => ⟨stop,empty⟩⟩
        · rw [served.taken v job]
          by_cases same : v = w
          · subst same
            simp [idle]
          · simp [Function.update_of_ne same]
        · by_cases same : v = w
          · subst same
            simp
          · simp only [Function.update_of_ne same]
            exact served.current v job
      · exact ⟨ring,numbered,served⟩
    · refine ⟨ring.take empty w,?_,Served.take ⟨ring,numbered,served⟩ empty allowed⟩
      simp only [poolStep,workerEnter,if_neg empty]
      exact ⟨numbered.below,numbered.distinct⟩
  | leave w =>
    obtain ⟨job,busy⟩ := allowed
    refine ⟨?_,?_,served.leave busy⟩
    · simp only [poolStep,workerLeave,busy]
      exact ⟨ring.count,ring.full,ring.head,ring.tail,ring.order,ring.slots⟩
    · simp only [poolStep,workerLeave,busy]
      exact ⟨numbered.below,numbered.distinct⟩
  | destroy =>
    exact ⟨⟨ring.count,ring.full,ring.head,ring.tail,ring.order,ring.slots⟩,⟨numbered.below,numbered.distinct⟩,
      served.taken,served.once,served.current,fun w gone => ⟨rfl,(served.gone w gone).2⟩⟩

theorem create_inv : PoolInv (workerPoolCreate : WorkerPool n β) := by
  refine ⟨⟨rfl,Nat.zero_le _,rfl,rfl,rfl,?_⟩,⟨?_,List.nodup_nil⟩,?_,List.nodup_nil,?_,?_⟩
  · intro k _ below
    exact absurd below (Nat.not_lt_zero k)
  · intro job listed
    exact absurd listed List.not_mem_nil
  · intro w job
    simp [workerPoolCreate]
  · intro w job busy
    simp [workerPoolCreate] at busy
  · intro w gone
    simp [workerPoolCreate] at gone

-- What a client of the pool relies on, in every state of every run.
structure JobSafe (pool : WorkerPool n β) : Prop where
  bounded : pool.count ≤ 256
  queued : pool.count = (pool.accepted.drop pool.taken.length).length
  wrap : ((pool.tail : Int)-pool.head)%256 = (pool.count : Int)%256
  slots : ∀ k < pool.count, pool.queue ((pool.head+k)%256) = (pool.accepted.drop pool.taken.length)[k]?
  order : pool.taken.map Prod.snd = (pool.accepted.take pool.taken.length).map some
  once : (pool.taken.map Prod.snd).Nodup
  handled : pool.handled.Nodup ∧ ∀ entry ∈ pool.handled, entry ∈ pool.taken
  rejected : ∀ job ∈ pool.rejected, job ∉ pool.accepted ∧ ∀ w, (w,some job) ∉ pool.taken ∧ (w,some job) ∉ pool.handled
  drained : 0 < n → (∀ w, pool.worker w = .gone) → ∀ job ∈ pool.accepted,
    ∃ w, (w,some job) ∈ pool.handled ∧ ∀ v, (v,some job) ∈ pool.taken → v = w

theorem PoolInv.rejected (inv : PoolInv pool) (refused : job ∈ pool.rejected) :
    job ∉ pool.accepted ∧ ∀ w, (w,some job) ∉ pool.taken := by
  have apart := (List.nodup_append.mp (by simpa only [List.map_append] using inv.numbered.distinct)).2.2
  have outside : job ∉ pool.accepted := fun inside =>
    apart _ (List.mem_map_of_mem (f:=ClientJob.call) inside) _ (List.mem_map_of_mem (f:=ClientJob.call) refused) rfl
  refine ⟨outside,fun w listed => outside ?_⟩
  have handed := List.mem_map_of_mem (f:=Prod.snd) listed
  rw [inv.ring.order] at handed
  obtain ⟨job',early,same⟩ := List.mem_map.mp handed
  obtain rfl := Option.some.inj same
  exact List.mem_of_mem_take early

theorem PoolInv.drained (inv : PoolInv pool) (gone : ∀ w, pool.worker w = .gone) (w : Fin n) (listed : job ∈ pool.accepted) :
    ∃ v, (v,some job) ∈ pool.handled := by
  have empty := (inv.served.gone w (gone w)).2
  have total := inv.ring.count
  have whole : pool.accepted.take pool.taken.length = pool.accepted := List.take_of_length_le (by omega)
  have handed : some job ∈ pool.taken.map Prod.snd := by
    rw [inv.ring.order,whole]
    exact List.mem_map_of_mem listed
  obtain ⟨⟨v,job'⟩,entry,same⟩ := List.mem_map.mp handed
  obtain rfl : job' = some job := same
  rcases (inv.served.taken v (some job)).mp entry with done | busy
  · exact ⟨v,done⟩
  · rw [gone v] at busy
    exact absurd busy (by simp)

theorem PoolInv.jobSafe (inv : PoolInv pool) : JobSafe pool := by
  have ring := inv.ring
  have total := ring.count
  refine ⟨ring.full,?_,?_,?_,ring.order,inv.taken_nodup,⟨inv.served.once,?_⟩,?_,?_⟩
  · rw [List.length_drop]
    omega
  · rw [ring.head,ring.tail]
    unfold jobQueueCap
    omega
  · intro k below
    rw [ring.head,List.getElem?_drop,← ring.slots _ (Nat.le_add_right _ k) (by omega)]
    exact congrArg pool.queue (Nat.mod_add_mod _ _ _)
  · intro entry done
    exact (inv.served.taken entry.1 entry.2).mpr (.inl done)
  · intro job refused
    obtain ⟨outside,untaken⟩ := inv.rejected refused
    refine ⟨outside,fun w => ⟨untaken w,fun done => untaken w ?_⟩⟩
    exact (inv.served.taken w _).mpr (.inl done)
  · intro some' gone job listed
    obtain ⟨w,done⟩ := inv.drained gone ⟨0,some'⟩ listed
    have entry : (w,some job) ∈ pool.taken := (inv.served.taken w _).mpr (.inl done)
    refine ⟨w,done,fun v other => ?_⟩
    exact congrArg Prod.fst (List.inj_on_of_nodup_map inv.taken_nodup other entry rfl)

theorem worker_pool_safe (n : Nat) (pool : WorkerPool n β) (run : Reached PoolAllowed poolStep workerPoolCreate pool) :
    JobSafe pool :=
  (run.keeps PoolInv poolInv_preserved create_inv).jobSafe

def onlyWorker : Fin 1 := ⟨0,Nat.one_pos⟩

def drainSchedule : List (PoolAction 1 Nat) :=
  [.submit 5 70,.submit 6 71,.enter onlyWorker,.destroy,.submit 7 72,.leave onlyWorker,.enter onlyWorker,.leave onlyWorker,
    .enter onlyWorker]

instance (pool : WorkerPool n β) [DecidableEq β] (a : PoolAction n β) : Decidable (PoolAllowed pool a) :=
  match a with
  | .submit _ _ => .isTrue trivial
  | .enter w => inferInstanceAs (Decidable (pool.worker w = .idle))
  | .leave w =>
    match found : pool.worker w with
    | .handling job => .isTrue ⟨job,found⟩
    | .idle => .isFalse fun ⟨_,busy⟩ => by simp [found] at busy
    | .gone => .isFalse fun ⟨_,busy⟩ => by simp [found] at busy
  | .destroy => .isTrue trivial

theorem drainSchedule_safe : ∃ pool : WorkerPool 1 Nat, Reached PoolAllowed poolStep workerPoolCreate pool ∧
    pool.handled.map (fun entry => entry.2.map ClientJob.body) = [some 70,some 71] ∧
    pool.rejected.map ClientJob.body = [72] ∧ pool.worker 0 = .gone ∧ JobSafe pool := by
  have ends : (run PoolAllowed poolStep workerPoolCreate drainSchedule).map (fun pool =>
      (pool.handled.map (fun entry => entry.2.map ClientJob.body),pool.rejected.map ClientJob.body,pool.worker 0)) =
      some ([some 70,some 71],[72],.gone) := by decide +kernel
  obtain ⟨pool,reached,facts⟩ := Option.map_eq_some_iff.mp ends
  have path := run_reached PoolAllowed poolStep _ _ _ reached
  simp only [Prod.mk.injEq] at facts
  exact ⟨pool,path,facts.1,facts.2.1,facts.2.2,worker_pool_safe 1 pool path⟩

end TinyLlama.Server
