import TinyLlama.Pthreads.Pool

namespace TinyLlama.Pthreads

variable {n : Nat} {ω α : Type}

def Dispatcher.stored (d : Dispatcher ω α) (k : Nat) : Bool :=
  match d with
  | .setting j _ => k ≤ j
  | _ => true

-- A finished worker takes the claim loop again while `work` is still set, so it
-- may be anywhere in it when the next dispatch stores its fields. What goes wrong
-- then: an index of the earlier dispatch below the new `end`, a load of `work` or
-- `work_arg` ahead of its store, a `current` that is out of int.
def Clean (s : State n ω α) : Action n ω α → Prop
  | .swap _ i => s.current = i → i < intMax
  | .compare _ i round => i < s.stop → round = s.round
  | .loadWork _ _ _ => s.dispatcher.stored 6
  | .loadArg _ _ _ => s.dispatcher.stored 7
  | _ => True

instance (s : State n ω α) : (a : Action n ω α) → Decidable (Clean s a)
  | .swap _ i => inferInstanceAs (Decidable (s.current = i → i < intMax))
  | .compare _ i round => inferInstanceAs (Decidable (i < s.stop → round = s.round))
  | .loadWork _ _ _ => inferInstanceAs (Decidable (s.dispatcher.stored 6 = true))
  | .loadArg _ _ _ => inferInstanceAs (Decidable (s.dispatcher.stored 7 = true))
  | .dispatch _ | .store _ _ | .publish _ | .test _ | .finish _ | .destroy | .wake _ | .enter _ | .read _ | .call _ _ _ _
  | .leave _ _ | .count _ | .report _ => inferInstanceAs (Decidable True)

def CleanStep (s : State n ω α) (a : Action n ω α) : Prop := Allowed s a ∧ Clean s a

-- The index a worker of this dispatch has taken and not yet called with.
def Worker.pending (round : Nat) (stop : Int) : Worker ω α → Option Int
  | .claimed i r => if r = round ∧ i < stop then some i else none
  | .ready i _ _ => some i
  | _ => none

-- Called, and not yet counted in `done_work`.
def Worker.busy : Worker ω α → Bool
  | .inside _ | .returned => true
  | _ => false

def busyCount (worker : Fin n → Worker ω α) : Nat := (Finset.univ.filter fun w => (worker w).busy = true).card

def State.pending (s : State n ω α) (w : Fin n) : Option Int := (s.worker w).pending s.round s.stop

def State.roundCalls (s : State n ω α) : List (Call n ω α) := s.calls.filter fun c => c.round = s.round

-- The call in progress, with how many of its stores are done.
def Dispatcher.call : Dispatcher ω α → Option (Nat × Job ω α)
  | .setting k job => some (k,job)
  | .waiting job => some (7,job)
  | _ => none

-- What a ready worker has loaded is what the dispatch stored.
def Worker.Loaded (k : Nat) (job : Job ω α) (x : Worker ω α) : Prop :=
  ∀ i work arg, x = .ready i work arg →
    (∀ y, work = some y → y = some job.work ∧ 6 ≤ k) ∧ (∀ y, arg = some y → y = some job.arg ∧ 7 ≤ k)

structure Running (s : State n ω α) (k : Nat) (job : Job ω α) : Prop where
  current : s.job s.round = some job
  range : job.start < job.stop
  stop : 2 ≤ k → s.stop = job.stop
  lower : 3 ≤ k → job.start ≤ s.current
  counted : 5 ≤ k → job.start ≤ s.doneWork
  pending : ∀ w i, s.pending w = some i → 3 ≤ k ∧ job.start ≤ i ∧ i < s.current ∧ i < s.stop ∧
    ∀ c ∈ s.calls, c.round = s.round → c.index ≠ i
  apart : ∀ w w' i, s.pending w = some i → s.pending w' = some i → w = w'
  called : ∀ c ∈ s.calls, c.round = s.round → 7 ≤ k ∧ c.index < s.current
  loads : ∀ w, (s.worker w).Loaded k job
  work : 6 ≤ k → s.work = some job.work
  arg : 7 ≤ k → s.workArg = some job.arg
  busy : ∀ w, (s.worker w).busy = true → 7 ≤ k
  count : 5 ≤ k → s.doneWork+busyCount s.worker = job.start+s.roundCalls.length

def Quiet (s : State n ω α) : Prop := ∀ w, s.pending w = none ∧ (s.worker w).busy = false

def Covered (s : State n ω α) (r : Nat) (job : Job ω α) : Prop :=
  ∀ i, job.start ≤ i → i < job.stop → ∃ c ∈ s.calls, c.round = r ∧ c.index = i

structure Inv (s : State n ω α) : Prop where
  own : ∀ c ∈ s.calls, ∃ job, s.job c.round = some job ∧ c.work = some job.work ∧ c.arg = some job.arg ∧
    job.start ≤ c.index ∧ c.index < job.stop
  once : (s.calls.map fun c => (c.round,c.index)).Nodup
  jobs : ∀ r job, s.job r = some job → 1 ≤ r ∧ r ≤ s.round
  low : intMin ≤ s.current
  claims : ∀ w i r, s.worker w = .claimed i r → r ≤ s.claimRound
  past : ∀ r job, s.job r = some job → r < s.round ∨ s.dispatcher.call = none → Covered s r job
  running : ∀ k job, s.dispatcher.call = some (k,job) → Running s k job
  quiet : s.dispatcher.call = none → Quiet s ∧ s.stop ≤ s.current

theorem put_self (s : State n ω α) (w : Fin n) (x : Worker ω α) : (s.put w x).worker w = x :=
  Function.update_self (β:=fun _ => Worker ω α) w x s.worker

theorem put_other (s : State n ω α) (x : Worker ω α) (other : w' ≠ w) : (s.put w x).worker w' = s.worker w' :=
  Function.update_of_ne (β:=fun _ => Worker ω α) other x s.worker

theorem put_cases {P : Fin n → Worker ω α → Prop} (s : State n ω α) (w : Fin n) (x : Worker ω α) (new : P w x)
    (old : ∀ w', w' ≠ w → P w' (s.worker w')) (w' : Fin n) : P w' ((s.put w x).worker w') := by
  by_cases same : w' = w
  · rw [same,put_self]; exact new
  · rw [put_other s x same]; exact old w' same

theorem busyCount_update (worker : Fin n → Worker ω α) (w : Fin n) (x : Worker ω α) :
    busyCount (Function.update worker w x)+(if (worker w).busy then 1 else 0) =
      busyCount worker+(if x.busy then 1 else 0) := by
  have others : ∀ v ∈ Finset.univ.erase w, (if (Function.update worker w x v).busy = true then 1 else 0) =
      if (worker v).busy = true then 1 else 0 := by
    intro v different
    rw [Function.update_of_ne (Finset.ne_of_mem_erase different)]
  unfold busyCount
  simp only [Finset.card_filter]
  rw [← Finset.add_sum_erase Finset.univ _ (Finset.mem_univ w),← Finset.add_sum_erase Finset.univ
    (fun v => if (worker v).busy = true then 1 else 0) (Finset.mem_univ w),Finset.sum_congr rfl others,
    Function.update_self]
  omega

theorem Running.moved {s : State n ω α} (run : Running s k job) (w : Fin n) (x : Worker ω α)
    (pending : x.pending s.round s.stop = none ∨ x.pending s.round s.stop = s.pending w)
    (busy : x.busy = (s.worker w).busy) (loads : x.Loaded k job) : Running (s.put w x) k job := by
  have earlier : ∀ w' i, (s.put w x).pending w' = some i → s.pending w' = some i := by
    intro w' i held
    by_cases same : w' = w
    · subst same
      rw [State.pending,put_self] at held
      change x.pending s.round s.stop = some i at held
      rcases pending with none' | kept
      · simp [none'] at held
      · rw [← kept]; exact held
    · rw [State.pending,put_other s x same] at held
      exact held
  refine ⟨run.current,run.range,run.stop,run.lower,run.counted,?_,?_,run.called,?_,run.work,run.arg,?_,?_⟩
  · exact fun w' i held => run.pending w' i (earlier w' i held)
  · exact fun w₁ w₂ i first second => run.apart w₁ w₂ i (earlier w₁ i first) (earlier w₂ i second)
  · exact put_cases (P:=fun _ y => y.Loaded k job) s w x loads (fun w' _ => run.loads w')
  · exact put_cases (P:=fun _ y => y.busy = true → 7 ≤ k) s w x (fun b => run.busy w (busy ▸ b))
      (fun w' _ => run.busy w')
  · intro enough
    have before := run.count enough
    have same := busyCount_update s.worker w x
    rw [busy] at same
    have kept : busyCount (Function.update s.worker w x) = busyCount s.worker := by omega
    change s.doneWork+busyCount (Function.update s.worker w x) = job.start+s.roundCalls.length
    rw [kept]
    exact before

theorem Inv.moved {s : State n ω α} (inv : Inv s) (w : Fin n) (x : Worker ω α)
    (pending : x.pending s.round s.stop = none ∨ x.pending s.round s.stop = s.pending w)
    (busy : x.busy = (s.worker w).busy) (claims : ∀ i r, x = .claimed i r → r ≤ s.claimRound)
    (loads : ∀ k job, s.dispatcher.call = some (k,job) → x.Loaded k job) : Inv (s.put w x) := by
  refine ⟨inv.own,inv.once,inv.jobs,inv.low,?_,inv.past,?_,?_⟩
  · exact put_cases (P:=fun _ y => ∀ i r, y = .claimed i r → r ≤ s.claimRound) s w x claims (fun w' _ => inv.claims w')
  · exact fun k job call => (inv.running k job call).moved w x pending busy (loads k job call)
  · intro ended
    obtain ⟨quiet,beyond⟩ := inv.quiet ended
    refine ⟨put_cases (P:=fun _ y => y.pending s.round s.stop = none ∧ y.busy = false) s w x ?_
      (fun w' _ => quiet w'),beyond⟩
    obtain ⟨nothing,still⟩ := quiet w
    exact ⟨pending.elim id (·.trans nothing),busy.trans still⟩

theorem Inv.idles {s : State n ω α} (inv : Inv s) (w : Fin n) (x : Worker ω α)
    (pending : ∀ round stop, x.pending round stop = none) (busy : x.busy = false) (was : (s.worker w).busy = false) :
    Inv (s.put w x) := by
  have unclaimed : ∀ i r, x ≠ .claimed i r := by
    intro i r same
    have none' := pending r (i+1)
    rw [same] at none'
    simp [Worker.pending] at none'
  refine inv.moved w x (.inl (pending _ _)) (busy.trans was.symm) (fun i r same => absurd same (unclaimed i r)) ?_
  intro k job _ i work arg same
  have none' := pending 0 0
  rw [same] at none'
  simp [Worker.pending] at none'

theorem Inv.counts {s : State n ω α} (inv : Inv s) (x : Int) : Inv {s with doneCount:=x} := by
  refine ⟨inv.own,inv.once,inv.jobs,inv.low,inv.claims,inv.past,?_,inv.quiet⟩
  intro k job call
  have run := inv.running k job call
  exact ⟨run.current,run.range,run.stop,run.lower,run.counted,run.pending,run.apart,run.called,run.loads,run.work,run.arg,run.busy,
    run.count⟩

theorem int_exact (low : intMin ≤ x) (high : x ≤ intMax) : int x = x := by
  simp only [intMin,intMax] at low high
  exact Int.bmod_eq_of_le_mul_two (by omega) (by omega)

-- `current` belongs to the call in progress once its third store is done.
theorem claimRound_ended {s : State n ω α} (ended : s.dispatcher.call = none) : s.claimRound = s.round := by
  unfold State.claimRound
  split
  · rename_i k job setting
    simp [setting,Dispatcher.call] at ended
  · rfl

theorem claimRound_call {s : State n ω α} (call : s.dispatcher.call = some (k,job)) :
    s.claimRound = if k < 3 then s.round-1 else s.round := by
  unfold State.claimRound
  split
  · rename_i k' job' setting
    obtain ⟨rfl,rfl⟩ : k' = k ∧ job' = job := by simpa [setting,Dispatcher.call] using call
    rfl
  · rename_i other
    cases at' : s.dispatcher with
    | setting k' job' => exact absurd at' (other k' job')
    | waiting job' =>
      obtain ⟨rfl,_⟩ : 7 = k ∧ job' = job := by simpa [at',Dispatcher.call] using call
      rfl
    | idle => simp [at',Dispatcher.call] at call
    | returning job' => simp [at',Dispatcher.call] at call
    | closed => simp [at',Dispatcher.call] at call

theorem Running.takes {s : State n ω α} (run : Running s k job) (began : 1 ≤ s.round)
    (call : s.dispatcher.call = some (k,job)) (held : s.worker w = .swap s.current) :
    Running {s.put w (.claimed s.current s.claimRound) with current:=s.current+1} k job := by
  have new : ∀ i, (Worker.claimed (ω:=ω) (α:=α) s.current s.claimRound).pending s.round s.stop = some i →
      i = s.current ∧ 3 ≤ k ∧ s.current < s.stop := by
    intro i taken
    simp only [Worker.pending] at taken
    split at taken
    · rename_i mine
      obtain ⟨round,below⟩ := mine
      rw [claimRound_call call] at round
      refine ⟨(Option.some.inj taken).symm,?_,below⟩
      by_contra early
      rw [if_pos (by omega)] at round
      omega
    · simp at taken
  have pending : ∀ w' i, (s.put w (.claimed s.current s.claimRound)).pending w' = some i →
      (w' = w ∧ i = s.current ∧ 3 ≤ k ∧ s.current < s.stop) ∨ (w' ≠ w ∧ s.pending w' = some i) := by
    intro w' i taken
    by_cases same : w' = w
    · subst same
      rw [State.pending,put_self] at taken
      exact .inl ⟨rfl,new i taken⟩
    · rw [State.pending,put_other s _ same] at taken
      exact .inr ⟨same,taken⟩
  refine ⟨run.current,run.range,run.stop,?_,run.counted,?_,?_,?_,?_,run.work,run.arg,?_,?_⟩
  · intro enough
    have lower := run.lower enough
    change job.start ≤ s.current+1
    omega
  · intro w' i taken
    change 3 ≤ k ∧ job.start ≤ i ∧ i < s.current+1 ∧ i < s.stop ∧ _
    rcases pending w' i taken with ⟨_,rfl,enough,below⟩ | ⟨_,earlier⟩
    · refine ⟨enough,run.lower enough,by omega,below,fun c listed round => ?_⟩
      have called := (run.called c listed round).2
      omega
    · obtain ⟨enough,lower,upper,below,fresh⟩ := run.pending w' i earlier
      exact ⟨enough,lower,by omega,below,fresh⟩
  · intro w₁ w₂ i first second
    rcases pending w₁ i first with ⟨rfl,rfl,_⟩ | ⟨_,one⟩
    · rcases pending w₂ _ second with ⟨rfl,_⟩ | ⟨_,two⟩
      · rfl
      · have upper := (run.pending w₂ _ two).2.2.1
        omega
    · rcases pending w₂ i second with ⟨rfl,rfl,_⟩ | ⟨_,two⟩
      · have upper := (run.pending w₁ _ one).2.2.1
        omega
      · exact run.apart w₁ w₂ i one two
  · intro c listed round
    obtain ⟨enough,upper⟩ := run.called c listed round
    exact ⟨enough,by change c.index < s.current+1; omega⟩
  · exact put_cases (P:=fun _ y => y.Loaded k job) s w _ (fun i work arg same => by simp at same)
      (fun w' _ => run.loads w')
  · exact put_cases (P:=fun _ y => y.busy = true → 7 ≤ k) s w _ (fun b => by simp [Worker.busy] at b)
      (fun w' _ => run.busy w')
  · intro enough
    have before := run.count enough
    have same := busyCount_update s.worker w (.claimed s.current s.claimRound)
    rw [held] at same
    simp only [Worker.busy,Bool.false_eq_true,if_false,Nat.add_zero] at same
    change s.doneWork+busyCount (Function.update s.worker w _) = job.start+s.roundCalls.length
    rw [same]
    exact before

theorem Inv.takes {s : State n ω α} (inv : Inv s) (held : s.worker w = .swap s.current) :
    Inv {s.put w (.claimed s.current s.claimRound) with current:=s.current+1} := by
  have low := inv.low
  have claims : ∀ w' i r, (s.put w (.claimed s.current s.claimRound)).worker w' = .claimed i r → r ≤ s.claimRound := by
    refine put_cases (P:=fun _ y => ∀ i r, y = .claimed i r → r ≤ s.claimRound) s w _ ?_ (fun w' _ => inv.claims w')
    intro i r same
    injection same with _ round
    exact round ▸ Nat.le_refl _
  refine ⟨inv.own,inv.once,inv.jobs,by change intMin ≤ s.current+1; omega,claims,inv.past,?_,?_⟩
  · intro k job call
    have run := inv.running k job call
    exact run.takes (inv.jobs _ _ run.current).1 call held
  · intro ended
    obtain ⟨quiet,beyond⟩ := inv.quiet ended
    refine ⟨put_cases (P:=fun _ y => y.pending s.round s.stop = none ∧ y.busy = false) s w _ ?_
      (fun w' _ => quiet w'),by change s.stop ≤ s.current+1; omega⟩
    exact ⟨by simp [Worker.pending,Int.not_lt.mpr beyond],rfl⟩

theorem Inv.holds {s : State n ω α} (inv : Inv s) (held : s.pending w = some i) :
    ∃ k job, s.dispatcher.call = some (k,job) ∧ Running s k job := by
  cases call : s.dispatcher.call with
  | none =>
    have nothing := ((inv.quiet call).1 w).1
    rw [held] at nothing
    simp at nothing
  | some p => exact ⟨p.1,p.2,rfl,inv.running p.1 p.2 call⟩

theorem Running.callback {s : State n ω α} {work : Option ω} {arg : Option α} (run : Running s k job)
    (ready : s.worker w = .ready i (some work) (some arg)) :
    work = some job.work ∧ arg = some job.arg ∧ 7 ≤ k ∧
    Running {s.put w (.inside i) with calls:=⟨s.round,work,arg,w,i⟩ :: s.calls} k job := by
  obtain ⟨loadedWork,loadedArg⟩ := run.loads w i _ _ ready
  obtain ⟨own,_⟩ := loadedWork work rfl
  obtain ⟨ownArg,enough⟩ := loadedArg arg rfl
  have held : s.pending w = some i := by rw [State.pending,ready]; rfl
  have pending : ∀ w' j, (s.put w (.inside i)).pending w' = some j → w' ≠ w ∧ s.pending w' = some j := by
    intro w' j taken
    by_cases same : w' = w
    · rw [State.pending,same,put_self] at taken
      simp [Worker.pending] at taken
    · rw [State.pending,put_other s _ same] at taken
      exact ⟨same,taken⟩
  obtain ⟨_,_,upper,_,_⟩ := run.pending w i held
  refine ⟨own,ownArg,enough,run.current,run.range,run.stop,run.lower,run.counted,?_,?_,?_,?_,run.work,run.arg,
    fun _ _ => enough,?_⟩
  · intro w' j taken
    obtain ⟨different,earlier⟩ := pending w' j taken
    obtain ⟨third,lower,upper',below,fresh⟩ := run.pending w' j earlier
    refine ⟨third,lower,upper',below,fun c listed round => ?_⟩
    rcases List.mem_cons.mp listed with rfl | before
    · rintro rfl
      exact different (run.apart w' w _ earlier held)
    · exact fresh c before round
  · intro w₁ w₂ j first second
    exact run.apart w₁ w₂ j (pending w₁ j first).2 (pending w₂ j second).2
  · intro c listed round
    rcases List.mem_cons.mp listed with rfl | before
    · exact ⟨enough,upper⟩
    · exact run.called c before round
  · exact put_cases (P:=fun _ y => y.Loaded k job) s w _ (fun j work arg same => by simp at same)
      (fun w' _ => run.loads w')
  · intro fifth
    have before := run.count fifth
    have more := busyCount_update s.worker w (.inside i)
    rw [ready] at more
    simp only [Worker.busy,Bool.false_eq_true,if_false,if_true,Nat.add_zero] at more
    have calls : (State.roundCalls {s.put w (.inside i) with calls:=⟨s.round,work,arg,w,i⟩ :: s.calls}).length =
        s.roundCalls.length+1 := by
      simp only [State.roundCalls,State.put,List.filter_cons,decide_true,if_true,List.length_cons]
      rfl
    rw [calls]
    change s.doneWork+busyCount (Function.update s.worker w _) = _
    rw [more]
    push_cast
    omega

theorem Inv.callback {s : State n ω α} (inv : Inv s) (ready : s.worker w = .ready i (some work) (some arg)) :
    Inv {s.put w (.inside i) with calls:=⟨s.round,work,arg,w,i⟩ :: s.calls} := by
  have held : s.pending w = some i := by rw [State.pending,ready]; rfl
  obtain ⟨k,job,call,run⟩ := inv.holds held
  obtain ⟨_,lower,_,below,fresh⟩ := run.pending w i held
  obtain ⟨rfl,rfl,enough,next⟩ := run.callback ready
  have stop := run.stop (by omega)
  refine ⟨?_,?_,inv.jobs,inv.low,?_,?_,?_,?_⟩
  · intro c listed
    rcases List.mem_cons.mp listed with rfl | before
    · exact ⟨job,run.current,rfl,rfl,lower,by change i < job.stop; omega⟩
    · exact inv.own c before
  · refine List.nodup_cons.mpr ⟨?_,inv.once⟩
    intro listed
    obtain ⟨c,before,same⟩ := List.mem_map.mp listed
    obtain ⟨round,index⟩ := Prod.mk.inj same
    exact fresh c before round index
  · exact put_cases (P:=fun _ y => ∀ i r, y = .claimed i r → r ≤ s.claimRound) s w _ (fun i r same => by simp at same)
      (fun w' _ => inv.claims w')
  · intro r job' known ended j lower' upper'
    obtain ⟨c,listed,found⟩ := inv.past r job' known ended j lower' upper'
    exact ⟨c,List.mem_cons_of_mem _ listed,found⟩
  · intro k' job' call'
    obtain ⟨rfl,rfl⟩ : k = k' ∧ job = job' := by simpa [State.put,call] using call'
    exact next
  · intro ended
    simp [State.put,call] at ended

-- Distinct integers of an interval: never more than it has, and all of them
-- when they are as many.
theorem interval_length (l : List Int) (distinct : l.Nodup) (inside : ∀ i ∈ l, a ≤ i ∧ i < b) (range : a ≤ b) :
    (l.length : Int) ≤ b-a ∧ (b-a ≤ l.length → ∀ i, a ≤ i → i < b → i ∈ l) := by
  have subset : l.toFinset ⊆ Finset.Ico a b := by
    intro i listed
    exact Finset.mem_Ico.mpr (inside i (List.mem_toFinset.mp listed))
  have size := Finset.card_le_card subset
  rw [List.toFinset_card_of_nodup distinct,Int.card_Ico] at size
  refine ⟨by omega,fun enough i low high => ?_⟩
  have whole := Finset.eq_of_subset_of_card_le subset (by
    rw [List.toFinset_card_of_nodup distinct,Int.card_Ico]
    omega)
  rw [← List.mem_toFinset,whole]
  exact Finset.mem_Ico.mpr ⟨low,high⟩

theorem Inv.roundCalls {s : State n ω α} (inv : Inv s) (current : s.job s.round = some job) :
    (s.roundCalls.map Call.index).Nodup ∧ ∀ i ∈ s.roundCalls.map Call.index, job.start ≤ i ∧ i < job.stop := by
  constructor
  · have pairs : (s.roundCalls.map fun c => (c.round,c.index)).Nodup :=
      inv.once.sublist (List.filter_sublist.map _)
    have same : (s.roundCalls.map fun c => (c.round,c.index)) = (s.roundCalls.map Call.index).map fun i => (s.round,i) := by
      rw [List.map_map]
      refine List.map_congr_left fun c listed => ?_
      have round := (List.mem_filter.mp listed).2
      exact Prod.ext (of_decide_eq_true round) rfl
    rw [same] at pairs
    exact pairs.of_map
  · intro i listed
    obtain ⟨c,mine,rfl⟩ := List.mem_map.mp listed
    obtain ⟨called,round⟩ := List.mem_filter.mp mine
    obtain ⟨job',known,_,_,range⟩ := inv.own c called
    rw [of_decide_eq_true round,current] at known
    obtain rfl := Option.some.inj known
    exact range

theorem Inv.completes {s : State n ω α} (inv : Inv s) (back : s.worker w = .returned) :
    Inv {s.put w .claim with doneWork:=int (s.doneWork+1)} := by
  have busy : (s.worker w).busy = true := by rw [back]; rfl
  cases call : s.dispatcher.call with
  | none =>
    have still := ((inv.quiet call).1 w).2
    rw [busy] at still
    simp at still
  | some p =>
    obtain ⟨k,job⟩ := p
    have run := inv.running k job call
    have enough := run.busy w busy
    have count := run.count (by omega)
    have counted := run.counted (by omega)
    have fewer : busyCount (Function.update s.worker w .claim)+1 = busyCount s.worker := by
      have update := busyCount_update s.worker w .claim
      rwa [if_pos busy,if_neg (by simp [Worker.busy]),Nat.add_zero] at update
    obtain ⟨distinct,range⟩ := inv.roundCalls run.current
    have most := (interval_length _ distinct range (by have := run.range; omega)).1
    rw [List.length_map] at most
    have low := job.low
    have high := job.high
    -- One call of this round at least is not counted yet, so the sum fits an int.
    have exact' : int (s.doneWork+1) = s.doneWork+1 := int_exact (by omega) (by omega)
    rw [exact']
    have pending : ∀ w' i, (s.put w .claim).pending w' = some i → s.pending w' = some i := by
      intro w' i taken
      by_cases same : w' = w
      · rw [State.pending,same,put_self] at taken
        simp [Worker.pending] at taken
      · rwa [State.pending,put_other s _ same] at taken
    refine ⟨inv.own,inv.once,inv.jobs,inv.low,?_,inv.past,?_,?_⟩
    · exact put_cases (P:=fun _ y => ∀ i r, y = .claimed i r → r ≤ s.claimRound) s w _ (fun i r same => by simp at same)
        (fun w' _ => inv.claims w')
    · intro k' job' call'
      obtain ⟨rfl,rfl⟩ : k = k' ∧ job = job' := by simpa [State.put,call] using call'
      refine ⟨run.current,run.range,run.stop,run.lower,?_,?_,?_,run.called,?_,run.work,run.arg,fun _ _ => enough,?_⟩
      · intro _
        change job.start ≤ s.doneWork+1
        omega
      · exact fun w' i taken => run.pending w' i (pending w' i taken)
      · exact fun w₁ w₂ i first second => run.apart w₁ w₂ i (pending w₁ i first) (pending w₂ i second)
      · exact put_cases (P:=fun _ y => y.Loaded k job) s w _ (fun i work arg same => by simp at same)
          (fun w' _ => run.loads w')
      · intro _
        change s.doneWork+1+busyCount (Function.update s.worker w .claim) = job.start+s.roundCalls.length
        omega
    · intro ended
      simp [State.put,call] at ended

-- Before the third store nothing is held, and before the last nothing is called.
theorem Running.early {s : State n ω α} (run : Running s k job) (early : k < 3) (w : Fin n) : s.pending w = none := by
  cases held : s.pending w with
  | none => rfl
  | some i =>
    have third := (run.pending w i held).1
    omega

theorem Running.uncalled {s : State n ω α} (run : Running s k job) (early : k < 7) :
    s.roundCalls = [] ∧ busyCount s.worker = 0 := by
  constructor
  · refine List.filter_eq_nil_iff.mpr fun c listed round => ?_
    have called := (run.called c listed (of_decide_eq_true round)).1
    omega
  · refine Finset.card_eq_zero.mpr (Finset.filter_eq_empty_iff.mpr fun w _ busy => ?_)
    have called := run.busy w busy
    omega

theorem Running.stores {s : State n ω α} (run : Running s k job) (more : k < 7)
    (claims : k < 3 → ∀ w i r, s.worker w = .claimed i r → r < s.round) (d : Dispatcher ω α) :
    Running {s.store job k with dispatcher:=d} (k+1) job := by
  obtain ⟨none',idle⟩ := run.uncalled more
  have uncalled : ∀ c ∈ s.calls, c.round = s.round → False := by
    intro c listed round
    have called := (run.called c listed round).1
    omega
  have unready : k < 3 → ∀ w i work arg, s.worker w ≠ .ready i work arg := by
    intro early w i work arg ready
    have nothing := run.early early w
    rw [State.pending,ready] at nothing
    simp [Worker.pending] at nothing
  have unheld : k < 3 → ∀ stop w, (s.worker w).pending s.round stop = none := by
    intro early stop w
    cases at' : s.worker w with
    | claimed i r =>
      have older := claims early w i r at'
      exact if_neg (by omega)
    | ready i work arg => exact absurd at' (unready early w i work arg)
    | _ => rfl
  have unbusy : ∀ w, (s.worker w).busy = true → False := by
    intro w busy
    have called := run.busy w busy
    omega
  have loads : ∀ w, (s.worker w).Loaded (k+1) job := by
    intro w i work arg ready
    obtain ⟨first,second⟩ := run.loads w i work arg ready
    exact ⟨fun y same => ⟨(first y same).1,by have := (first y same).2; omega⟩,
      fun y same => ⟨(second y same).1,by have := (second y same).2; omega⟩⟩
  -- One case for each store.
  obtain rfl | rfl | rfl | rfl | rfl | rfl | rfl : k = 0 ∨ k = 1 ∨ k = 2 ∨ k = 3 ∨ k = 4 ∨ k = 5 ∨ k = 6 := by omega
  · refine ⟨run.current,run.range,by omega,by omega,by omega,?_,?_,fun c listed round => (uncalled c listed round).elim,
      loads,by omega,by omega,fun w busy => (unbusy w busy).elim,by omega⟩
    · exact fun w i held => absurd held (by simp [State.pending,State.store,unheld (by omega) s.stop w])
    · exact fun w _ i held => absurd held (by simp [State.pending,State.store,unheld (by omega) s.stop w])
  · refine ⟨run.current,run.range,fun _ => rfl,by omega,by omega,?_,?_,fun c listed round => (uncalled c listed round).elim,
      loads,by omega,by omega,fun w busy => (unbusy w busy).elim,by omega⟩
    · exact fun w i held => absurd held (by simp [State.pending,State.store,unheld (by omega) job.stop w])
    · exact fun w _ i held => absurd held (by simp [State.pending,State.store,unheld (by omega) job.stop w])
  · refine ⟨run.current,run.range,fun _ => run.stop (by omega),fun _ => Int.le_refl _,by omega,?_,?_,
      fun c listed round => (uncalled c listed round).elim,loads,by omega,by omega,fun w busy => (unbusy w busy).elim,
      by omega⟩
    · exact fun w i held => absurd held (by simp [State.pending,State.store,unheld (by omega) s.stop w])
    · exact fun w _ i held => absurd held (by simp [State.pending,State.store,unheld (by omega) s.stop w])
  · exact ⟨run.current,run.range,fun _ => run.stop (by omega),fun _ => run.lower (by omega),by omega,
      fun w i held => ⟨by omega,(run.pending w i held).2⟩,run.apart,fun c listed round => (uncalled c listed round).elim,
      loads,by omega,by omega,fun w busy => (unbusy w busy).elim,by omega⟩
  · refine ⟨run.current,run.range,fun _ => run.stop (by omega),fun _ => run.lower (by omega),fun _ => Int.le_refl _,
      fun w i held => ⟨by omega,(run.pending w i held).2⟩,run.apart,fun c listed round => (uncalled c listed round).elim,
      loads,by omega,by omega,fun w busy => (unbusy w busy).elim,fun _ => ?_⟩
    change job.start+(busyCount s.worker : Int) = job.start+(s.roundCalls.length : Int)
    rw [none',idle]
    rfl
  · exact ⟨run.current,run.range,fun _ => run.stop (by omega),fun _ => run.lower (by omega),
      fun _ => run.counted (by omega),fun w i held => ⟨by omega,(run.pending w i held).2⟩,run.apart,
      fun c listed round => (uncalled c listed round).elim,loads,fun _ => rfl,by omega,
      fun w busy => (unbusy w busy).elim,fun _ => run.count (by omega)⟩
  · exact ⟨run.current,run.range,fun _ => run.stop (by omega),fun _ => run.lower (by omega),
      fun _ => run.counted (by omega),fun w i held => ⟨by omega,(run.pending w i held).2⟩,run.apart,
      fun c listed round => (uncalled c listed round).elim,loads,fun _ => run.work (by omega),fun _ => rfl,
      fun w busy => (unbusy w busy).elim,fun _ => run.count (by omega)⟩

theorem store_frame (s : State n ω α) (job : Job ω α) (k : Nat) : (s.store job k).calls = s.calls ∧
    (s.store job k).worker = s.worker ∧ (s.store job k).round = s.round ∧ (s.store job k).job = s.job ∧
    ((s.store job k).current = s.current ∨ (s.store job k).current = job.start) := by
  unfold State.store
  split
  all_goals exact ⟨rfl,rfl,rfl,rfl,by first | exact .inl rfl | exact .inr rfl⟩

theorem Inv.stores {s : State n ω α} (inv : Inv s) (setting : s.dispatcher = .setting k job) (more : k < 7) :
    Inv {s.store job k with dispatcher:=.setting (k+1) job} := by
  have call : s.dispatcher.call = some (k,job) := by rw [setting]; rfl
  have run := inv.running k job call
  have began := (inv.jobs _ _ run.current).1
  have round := claimRound_call call
  have claims : k < 3 → ∀ w i r, s.worker w = .claimed i r → r < s.round := by
    intro early w i r held
    have older := inv.claims w i r held
    rw [round,if_pos early] at older
    omega
  have next := run.stores more claims (.setting (k+1) job)
  obtain ⟨calls,worker,same,jobs,current⟩ := store_frame s job k
  refine ⟨?_,?_,?_,?_,?_,?_,?_,fun ended => by simp [Dispatcher.call] at ended⟩
  · simpa only [calls,jobs] using inv.own
  · simpa only [calls] using inv.once
  · simpa only [jobs,same] using inv.jobs
  · rcases current with kept | set'
    · exact kept ▸ inv.low
    · exact set' ▸ job.low
  · intro w i r held
    simp only [worker] at held
    have older := inv.claims w i r held
    rw [round] at older
    simp only [State.claimRound,same]
    split at older
    · split <;> omega
    · rwa [if_neg (by omega)]
  · intro r job' known ended
    simp only [Covered,calls,jobs,same,Dispatcher.call,reduceCtorEq,or_false] at known ended ⊢
    exact inv.past r job' known (.inl ended)
  · intro k' job' call'
    obtain ⟨rfl,rfl⟩ : k+1 = k' ∧ job = job' := by simpa [Dispatcher.call] using call'
    exact next

theorem Inv.begins {s : State n ω α} (inv : Inv s) (idle : s.dispatcher = .idle) (range : job.start < job.stop) :
    Inv {s with dispatcher:=.setting 0 job,round:=s.round+1,job:=Function.update s.job (s.round+1) (some job)} := by
  have ended : s.dispatcher.call = none := by rw [idle]; rfl
  obtain ⟨quiet,_⟩ := inv.quiet ended
  have old : ∀ r, r ≤ s.round → Function.update s.job (s.round+1) (some job) r = s.job r := fun r earlier =>
    Function.update_of_ne (by omega) _ _
  have claims : ∀ w i r, s.worker w = .claimed i r → r ≤ s.round := by
    intro w i r held
    have older := inv.claims w i r held
    rwa [claimRound_ended ended] at older
  have unready : ∀ w i work arg, s.worker w ≠ .ready i work arg := by
    intro w i work arg ready
    have nothing := (quiet w).1
    rw [State.pending,ready] at nothing
    simp [Worker.pending] at nothing
  have unheld : ∀ w, (s.worker w).pending (s.round+1) s.stop = none := by
    intro w
    cases at' : s.worker w with
    | claimed i r =>
      have older := claims w i r at'
      exact if_neg (by omega)
    | ready i work arg => exact absurd at' (unready w i work arg)
    | _ => rfl
  have uncalled : ∀ c ∈ s.calls, c.round ≤ s.round := by
    intro c listed
    obtain ⟨job',known,_⟩ := inv.own c listed
    exact (inv.jobs _ _ known).2
  refine ⟨?_,inv.once,?_,inv.low,?_,?_,?_,fun ended' => by simp [Dispatcher.call] at ended'⟩
  · intro c listed
    obtain ⟨job',known,rest⟩ := inv.own c listed
    exact ⟨job',(old _ (uncalled c listed)).trans known,rest⟩
  · intro r job' known
    by_cases new : r = s.round+1
    · exact ⟨by omega,Nat.le_of_eq new⟩
    · have before := inv.jobs r job' (by simpa [Function.update_of_ne new] using known)
      exact ⟨before.1,Nat.le_succ_of_le before.2⟩
  · exact claims
  · intro r job' known before
    have earlier : r ≤ s.round := by simpa [Dispatcher.call,Nat.lt_succ_iff] using before
    have known' : s.job r = some job' := (old r earlier).symm.trans known
    exact inv.past r job' known' (.inr ended)
  · intro k job' call
    obtain ⟨rfl,rfl⟩ : 0 = k ∧ job = job' := by simpa [Dispatcher.call] using call
    refine ⟨Function.update_self _ _ _,range,by omega,by omega,by omega,?_,?_,?_,?_,by omega,by omega,?_,by omega⟩
    · exact fun w i held => absurd held (by simp [State.pending,unheld w])
    · exact fun w _ i held => absurd held (by simp [State.pending,unheld w])
    · intro c listed round
      have older := uncalled c listed
      have now : c.round = s.round+1 := round
      omega
    · exact fun w i work arg ready => absurd ready (unready w i work arg)
    · intro w busy
      have still := (quiet w).2
      rw [still] at busy
      simp at busy

-- The dispatcher's test passes: everything has been called and counted.
theorem Inv.returns {s : State n ω α} (inv : Inv s) (waiting : s.dispatcher = .waiting job)
    (done : job.stop ≤ s.doneWork) : Inv {s with dispatcher:=.returning job} := by
  have call : s.dispatcher.call = some (7,job) := by rw [waiting]; rfl
  have run := inv.running 7 job call
  have count := run.count (by omega)
  have order := run.range
  have stop := run.stop (by omega)
  obtain ⟨distinct,range⟩ := inv.roundCalls run.current
  obtain ⟨most,whole⟩ := interval_length _ distinct range (Int.le_of_lt order)
  rw [List.length_map] at most whole
  have free : busyCount s.worker = 0 := by omega
  have covered : Covered s s.round job := by
    intro i low high
    obtain ⟨c,mine,index⟩ := List.mem_map.mp (whole (by omega) i low high)
    obtain ⟨listed,round⟩ := List.mem_filter.mp mine
    exact ⟨c,listed,of_decide_eq_true round,index⟩
  have still : ∀ w, (s.worker w).busy = false := by
    intro w
    have none' := Finset.filter_eq_empty_iff.mp (Finset.card_eq_zero.mp free) (Finset.mem_univ w)
    simpa using none'
  have quiet : Quiet s := by
    refine fun w => ⟨?_,still w⟩
    cases held : s.pending w with
    | none => rfl
    | some i =>
      obtain ⟨_,low,_,high,fresh⟩ := run.pending w i held
      obtain ⟨c,listed,round,index⟩ := covered i low (by omega)
      exact absurd index (fresh c listed round)
  have beyond : s.stop ≤ s.current := by
    obtain ⟨c,listed,round,index⟩ := covered (job.stop-1) (by omega) (by omega)
    have called := (run.called c listed round).2
    omega
  have claimRound : s.claimRound = s.round := by rw [claimRound_call call]; rfl
  refine ⟨inv.own,inv.once,inv.jobs,inv.low,?_,?_,fun k job' call' => by simp [Dispatcher.call] at call',
    fun _ => ⟨quiet,beyond⟩⟩
  · intro w i r held
    have older := inv.claims w i r held
    rw [claimRound] at older
    exact older
  · intro r job' known _
    by_cases current : r = s.round
    · rw [current] at known ⊢
      have same : some job = some job' := run.current.symm.trans known
      obtain rfl := Option.some.inj same
      exact covered
    · have earlier := (inv.jobs r job' known).2
      exact inv.past r job' known (.inl (by omega))

theorem Inv.redirects {s : State n ω α} (inv : Inv s) (d : Dispatcher ω α) (same : d.call = s.dispatcher.call)
    (work : Option ω) (kept : d.call = none ∨ work = s.work) (shutdown : Bool) :
    Inv {s with dispatcher:=d,work:=work,shutdown:=shutdown} := by
  have claimRound : State.claimRound {s with dispatcher:=d,work:=work,shutdown:=shutdown} = s.claimRound := by
    cases call : s.dispatcher.call with
    | none => rw [claimRound_ended call,claimRound_ended (by exact same.trans call)]
    | some p => rw [claimRound_call call,claimRound_call (same.trans call)]
  refine ⟨inv.own,inv.once,inv.jobs,inv.low,?_,?_,?_,?_⟩
  · intro w i r held
    rw [claimRound]
    exact inv.claims w i r held
  · intro r job known ended
    exact inv.past r job known (ended.imp id same.symm.trans)
  · intro k job call
    have run := inv.running k job (same.symm.trans call)
    obtain rfl : work = s.work := kept.resolve_left (fun none' => by simp [none'] at call)
    exact ⟨run.current,run.range,run.stop,run.lower,run.counted,run.pending,run.apart,run.called,run.loads,run.work,
      run.arg,run.busy,run.count⟩
  · exact fun ended => inv.quiet (same.symm.trans ended)

theorem stored_call {s : State n ω α} (stored : s.dispatcher.stored m = true) (call : s.dispatcher.call = some (k,job))
    (bound : m ≤ 7) : m ≤ k := by
  cases at' : s.dispatcher with
  | setting j job' =>
    obtain ⟨rfl,_⟩ : j = k ∧ job' = job := by simpa [at',Dispatcher.call] using call
    simpa [at',Dispatcher.stored] using stored
  | waiting job' =>
    obtain ⟨rfl,_⟩ : 7 = k ∧ job' = job := by simpa [at',Dispatcher.call] using call
    exact bound
  | _ => simp [at',Dispatcher.call] at call

theorem inv_initial (nthreads : Int) : Inv (pthreadsCreate nthreads : State _ ω α) := by
  refine ⟨by simp [pthreadsCreate],by simp [pthreadsCreate],by simp [pthreadsCreate],show intMin ≤ 0 by decide,by simp [pthreadsCreate],
    by simp [pthreadsCreate],by simp [pthreadsCreate,Dispatcher.call],fun _ => ⟨?_,Int.le_refl _⟩⟩
  exact fun w => ⟨rfl,rfl⟩

theorem inv_preserved (s : State n ω α) (a : Action n ω α) (inv : Inv s) (step : CleanStep s a) : Inv (apply s a) := by
  obtain ⟨allowed,clean⟩ := step
  cases a with
  | dispatch job =>
    simp only [apply]
    split
    · exact inv
    · exact inv.begins allowed (by omega)
  | store k job => exact inv.stores allowed.1 allowed.2
  | publish job =>
    have setting : s.dispatcher = .setting 7 job := allowed
    exact inv.redirects (.waiting job) (by rw [setting]; rfl) s.work (.inr rfl) s.shutdown
  | test job =>
    simp only [apply]
    split
    · exact inv
    · exact inv.returns allowed (by omega)
  | finish job =>
    have returning : s.dispatcher = .returning job := allowed
    exact inv.redirects .idle (by rw [returning]; rfl) none (.inl rfl) s.shutdown
  | destroy =>
    have idle : s.dispatcher = .idle := allowed
    exact inv.redirects .closed (by rw [idle]; rfl) s.work (.inr rfl) true
  | wake w =>
    have at' : s.worker w = .asleep := allowed
    exact inv.idles w .top (fun _ _ => rfl) rfl (by rw [at']; rfl)
  | enter w =>
    have at' : s.worker w = .top := allowed.1
    have was : (s.worker w).busy = false := by rw [at']; rfl
    simp only [apply]
    split
    · exact inv.idles w .gone (fun _ _ => rfl) rfl was
    · split
      · exact inv.idles w .asleep (fun _ _ => rfl) rfl was
      · exact inv.idles w .claim (fun _ _ => rfl) rfl was
  | read w =>
    have at' : s.worker w = .claim := allowed
    exact inv.idles w (.swap s.current) (fun _ _ => rfl) rfl (by rw [at']; rfl)
  | swap w i =>
    have at' : s.worker w = .swap i := allowed
    simp only [apply]
    split
    · rename_i hit
      have room : i < intMax := clean hit
      have low := inv.low
      subst hit
      have exact' : int (s.current+1) = s.current+1 :=
        int_exact (Int.le_trans low (Int.le_of_lt (Int.lt_succ s.current))) room
      rw [exact']
      exact inv.takes at'
    · exact inv.idles w .claim (fun _ _ => rfl) rfl (by rw [at']; rfl)
  | compare w i round =>
    have at' : s.worker w = .claimed i round := allowed
    have was : (s.worker w).busy = false := by rw [at']; rfl
    simp only [apply]
    split
    · exact inv.idles w .finished (fun _ _ => rfl) rfl was
    · rename_i below
      have mine : round = s.round := clean (by omega)
      have held : s.pending w = some i := by
        rw [State.pending,at',mine]
        exact if_pos ⟨rfl,by omega⟩
      refine inv.moved w _ (.inr held.symm) was.symm (fun _ _ => nofun) ?_
      intro k job _ j work arg same
      injection same with _ none' none''
      exact ⟨fun y some' => by simp [← none'] at some',fun y some' => by simp [← none''] at some'⟩
  | loadWork w i arg =>
    have at' : s.worker w = .ready i none arg := allowed
    refine inv.moved w _ (.inr (by rw [State.pending,at']; rfl)) (by rw [at']; rfl) (fun _ _ => nofun) ?_
    intro k job call j work arg' same
    injection same with _ work' same'
    have run := inv.running k job call
    have enough := stored_call clean call (by omega)
    refine ⟨fun y some' => ?_,(same' ▸ run.loads w i none arg at').2⟩
    rw [← work'] at some'
    exact ⟨(Option.some.inj some').symm.trans (run.work enough),enough⟩
  | loadArg w i work =>
    have at' : s.worker w = .ready i work none := allowed
    refine inv.moved w _ (.inr (by rw [State.pending,at']; rfl)) (by rw [at']; rfl) (fun _ _ => nofun) ?_
    intro k job call j work' arg same
    injection same with _ same' arg'
    have run := inv.running k job call
    have enough := stored_call clean call (by omega)
    refine ⟨(same' ▸ run.loads w i work none at').1,fun y some' => ?_⟩
    rw [← arg'] at some'
    exact ⟨(Option.some.inj some').symm.trans (run.arg enough),enough⟩
  | call w i work arg => exact inv.callback allowed
  | leave w i =>
    have at' : s.worker w = .inside i := allowed
    refine inv.moved w .returned (.inl rfl) (by rw [at']; rfl) (fun _ _ => nofun) ?_
    exact fun _ _ _ _ _ => nofun
  | count w => exact inv.completes allowed
  | report w =>
    have at' : s.worker w = .finished := allowed.1
    exact (inv.idles w .top (fun _ _ => rfl) rfl (by rw [at']; rfl)).counts _

end TinyLlama.Pthreads
