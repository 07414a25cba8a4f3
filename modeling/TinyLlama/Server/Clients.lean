import Mathlib
import TinyLlama.Server.EventLoop

namespace TinyLlama.Server
open Framing Ownership Transition

section Jobs
variable {n : Nat} {pool : WorkerPool n (List UInt8)}

theorem PoolInv.accepted_nodup (inv : PoolInv pool) : pool.accepted.Nodup := by
  have distinct := inv.numbered.distinct
  rw [List.map_append] at distinct
  exact (List.nodup_append.mp distinct).1.of_map _

theorem PoolInv.taken_accepted (inv : PoolInv pool) (listed : (w,job) ∈ pool.taken) : ∃ j ∈ pool.accepted, job = some j := by
  have inside := List.mem_map_of_mem (f:=Prod.snd) listed
  rw [inv.ring.order] at inside
  obtain ⟨j,early,same⟩ := List.mem_map.mp inside
  exact ⟨j,List.mem_of_mem_take early,same.symm⟩

theorem unhandled_submit (inv : PoolInv pool) (room : ¬(pool.stop ∨ pool.count = jobQueueCap)) (fd : Int) (body : List UInt8) :
    unhandled (workerPoolSubmit pool fd body) = unhandled pool++[⟨pool.calls,fd,body⟩] := by
  have fresh : some (⟨pool.calls,fd,body⟩ : ClientJob (List UInt8)) ∉ pool.handled.map Prod.snd := by
    intro listed
    obtain ⟨⟨w,job⟩,done,same⟩ := List.mem_map.mp listed
    obtain ⟨j,accepted,same'⟩ := inv.taken_accepted ((inv.served.taken w job).mpr (.inl done))
    have below := inv.numbered.below j (List.mem_append_left _ accepted)
    simp only [same'] at same
    rw [Option.some.inj same] at below
    exact Nat.lt_irrefl _ below
  rw [workerPoolSubmit,if_neg room]
  simp only [unhandled,List.filter_append]
  rw [List.filter_cons_of_pos (by simpa using fresh),List.filter_nil]

theorem unhandled_refused (full : pool.stop ∨ pool.count = jobQueueCap) (fd : Int) (body : List UInt8) :
    unhandled (workerPoolSubmit pool fd body) = unhandled pool := by
  rw [workerPoolSubmit,if_pos full]
  rfl

theorem unhandled_enter (w : Fin n) : unhandled (workerEnter pool w) = unhandled pool := by
  unfold workerEnter
  split
  · split <;> rfl
  · rfl

theorem unhandled_leave (inv : PoolInv pool) (busy : pool.worker w = .handling job) :
    ∃ j, job = some j ∧ (unhandled pool).Perm (j :: unhandled (workerLeave pool w)) := by
  have taken := (inv.served.taken w job).mpr (.inr busy)
  obtain ⟨j,accepted,rfl⟩ := inv.taken_accepted taken
  have undone : some j ∉ pool.handled.map Prod.snd := by
    intro listed
    obtain ⟨⟨v,job⟩,done,same⟩ := List.mem_map.mp listed
    obtain rfl : job = some j := same
    have other := (inv.served.taken v (some j)).mpr (.inl done)
    have worker := List.inj_on_of_nodup_map inv.taken_nodup other taken rfl
    obtain rfl := (Prod.mk.inj worker).1
    exact inv.served.current v (some j) busy done
  have member : j ∈ unhandled pool := List.mem_filter.mpr ⟨accepted,by simpa using undone⟩
  have rest : unhandled (workerLeave pool w) = (unhandled pool).erase j := by
    have once : (unhandled pool).Nodup := inv.accepted_nodup.filter _
    rw [once.erase_eq_filter j]
    simp only [unhandled,workerLeave,busy,List.filter_filter]
    refine List.filter_congr fun other _ => ?_
    change _ = (!decide (other = j) && _)
    simp [and_comm]
  exact ⟨j,rfl,rest ▸ List.perm_cons_erase member⟩

end Jobs

variable {n : Nat} {s : ServerState n}

structure ServerInv (s : ServerState n) (held : List Nat) : Prop where
  up : s.down = none
  pool : PoolInv s.pool
  walk : s.visiting.Sublist s.events
  distinct : (s.events.map FileEvent.fd).Nodup
  small : ∀ fe ∈ s.events, fe.fd < fdSetSize
  listener : ∀ fe ∈ s.events, fe.proc = .accept → fe.fd ∈ s.own
  unheld : ∀ fd ∈ s.own, s.clients.holder fd = none
  booked : Booked s.clients (held++places s)

-- The accepts that give a descriptor select can watch, and the first reads that give data.
def Calm : ServerAction n → Prop
  | .accept returns => ∃ given ∈ serverAccept returns, ∃ cfd ∈ given, cfd < fdSetSize
  | .read got => got ≠ .error
  | _ => True

instance (a : ServerAction n) : Decidable (Calm a) :=
  match a with
  | .accept _ | .read _ => by unfold Calm; infer_instance
  | .select _ | .skip | .enter _ | .leave _ _ => .isTrue trivial

theorem ServerInv.delete {fe : FileEvent} (inv : ServerInv s []) (here : s.visiting = fe :: rest) (client : fe.proc = .clientRead) :
    ServerInv (deleteFileEvent {s with visiting:=rest} fe.fd) [fe.fd] := by
  have walk := inv.walk
  rw [here] at walk
  have member : fe ∈ s.events := walk.subset List.mem_cons_self
  have same : decide (fe.fd = fe.fd) = true := decide_eq_true rfl
  obtain ⟨fe',front,back,_,found,split,erased⟩ := List.exists_of_eraseP (p:=fun e : FileEvent => decide (e.fd = fe.fd)) member same
  have there : fe' ∈ s.events := split ▸ List.mem_append_right _ List.mem_cons_self
  obtain rfl : fe' = fe := List.inj_on_of_nodup_map inv.distinct there member (of_decide_eq_true found)
  have less := List.eraseP_sublist (p:=fun e : FileEvent => decide (e.fd = fe'.fd)) (l:=s.events)
  have walk' := walk.eraseP (p:=fun e : FileEvent => decide (e.fd = fe'.fd))
  rw [List.eraseP_cons_of_pos (p:=fun e : FileEvent => decide (e.fd = fe'.fd)) same] at walk'
  refine ⟨inv.up,inv.pool,walk',(less.map _).nodup inv.distinct,fun e listed => inv.small e (less.subset listed),
    fun e listed => inv.listener e (less.subset listed),inv.unheld,inv.booked.perm ?_⟩
  have before : clientFds s.events = clientFds front++fe'.fd :: clientFds back := by
    rw [split]
    simp [clientFds,client]
  have after : clientFds (s.events.eraseP fun e => e.fd = fe'.fd) = clientFds front++clientFds back := by
    rw [erased]
    simp [clientFds]
  change (clientFds s.events++_).Perm (fe'.fd :: (clientFds (s.events.eraseP fun e => e.fd = fe'.fd)++_))
  rw [before,after]
  simp only [List.append_assoc,List.cons_append]
  exact List.perm_middle

theorem ServerInv.close (inv : ServerInv s (fd :: held)) : ServerInv (closeFd s fd) held := by
  refine ⟨inv.up,inv.pool,inv.walk,inv.distinct,inv.small,inv.listener,fun fd' own => ?_,inv.booked.close⟩
  have before := inv.unheld fd' own
  by_cases same : fd' = fd
  · subst same
    simp [closeFd,Handles.close]
  · simpa [closeFd,Handles.close,same] using before

theorem ServerInv.submit (inv : ServerInv s [fd]) (room : ¬(s.pool.stop ∨ s.pool.count = jobQueueCap)) (body : List UInt8) :
    ServerInv {s with pool:=workerPoolSubmit s.pool fd body} [] := by
  refine ⟨inv.up,poolInv_preserved s.pool (.submit fd body) inv.pool trivial,inv.walk,inv.distinct,inv.small,inv.listener,
    inv.unheld,inv.booked.perm ?_⟩
  simp only [places,unhandled_submit inv.pool room,List.map_append,List.map_cons,List.map_nil,Int.toNat_natCast,
    List.nil_append,← List.append_assoc]
  exact (List.perm_append_singleton fd _).symm

theorem ServerInv.refused (inv : ServerInv s held) (full : s.pool.stop ∨ s.pool.count = jobQueueCap) (fd : Nat) (body : List UInt8) :
    ServerInv {s with pool:=workerPoolSubmit s.pool fd body} held := by
  refine ⟨inv.up,poolInv_preserved s.pool (.submit fd body) inv.pool trivial,inv.walk,inv.distinct,inv.small,inv.listener,
    inv.unheld,?_⟩
  have booked := inv.booked
  rwa [places,← unhandled_refused full fd body] at booked

theorem ServerInv.read {fe : FileEvent} (inv : ServerInv s []) (here : s.visiting = fe :: rest) (client : fe.proc = .clientRead)
    (chunks : List (List UInt8)) : ServerInv (clientReadProc {s with visiting:=rest} fe.fd (.arrived chunks)) [] := by
  have deleted := inv.delete here client
  unfold clientReadProc
  simp only
  cases Framing.clientReadProc chunks with
  | closed => exact deleted.close
  | reject status error => exact deleted.close
  | submit body =>
    simp only
    split
    · rename_i full
      exact (deleted.refused full fe.fd body).close
    · rename_i room
      exact deleted.submit room body

theorem ServerInv.accept {fe : FileEvent} (inv : ServerInv s []) (here : s.visiting = fe :: rest)
    (given : serverAccept returns = some (some cfd)) (small : cfd < fdSetSize) (outside : cfd ∉ s.own)
    (free : s.clients.holder cfd = none) : ServerInv (acceptProc {s with visiting:=rest} returns) [] := by
  have walk := inv.walk
  rw [here] at walk
  have unlisted : ∀ e ∈ s.events, e.fd ≠ cfd := by
    intro e listed same
    cases kind : e.proc with
    | accept => exact outside (same ▸ inv.listener e listed kind)
    | clientRead =>
      have kept : e.fd ∈ [] ++ places s := List.mem_append_right _ (List.mem_append_left _
        (List.mem_map_of_mem (f:=FileEvent.fd) (List.mem_filter.mpr ⟨listed,decide_eq_true kind⟩)))
      exact inv.booked.free free (same ▸ kept)
  unfold acceptProc
  rw [given]
  refine ⟨inv.up,inv.pool,((List.sublist_cons_self _ _).trans walk).trans (List.sublist_cons_self _ _),
    List.nodup_cons.mpr ⟨?_,inv.distinct⟩,?_,?_,?_,inv.booked.issue free⟩
  · intro listed
    obtain ⟨e,there,same⟩ := List.mem_map.mp listed
    exact unlisted e there same
  · intro e listed
    rcases List.mem_cons.mp listed with rfl | before
    · exact small
    · exact inv.small e before
  · intro e listed kind
    rcases List.mem_cons.mp listed with rfl | before
    · cases kind
    · exact inv.listener e before kind
  · intro fd' own
    have other : fd' ≠ cfd := fun same => outside (same ▸ own)
    simpa [createFileEvent,Handles.issue,other] using inv.unheld fd' own

theorem ServerInv.leave {w : Fin n} (inv : ServerInv s []) (busy : s.pool.worker w = .handling job) (exit : RequestExit) :
    ServerInv {handleRequest s w exit with pool:=workerLeave (handleRequest s w exit).pool w} [] := by
  obtain ⟨j,rfl,same⟩ := unhandled_leave inv.pool busy
  have once : handleRequest s w exit = closeFd s j.fd.toNat := by
    unfold handleRequest
    rw [busy]
    cases exit <;> rfl
  rw [once]
  have owing : ServerInv {s with pool:=workerLeave s.pool w} [j.fd.toNat] := by
    refine ⟨inv.up,poolInv_preserved s.pool (.leave w) inv.pool ⟨some j,busy⟩,inv.walk,inv.distinct,inv.small,inv.listener,
      inv.unheld,inv.booked.perm ?_⟩
    have moved := (same.map fun job => job.fd.toNat).append_left (clientFds s.events)
    exact moved.trans List.perm_middle
  exact owing.close

theorem serverInv_start (serverfd : Nat) (own : List Nat) (small : serverfd < fdSetSize) :
    ServerInv (serverStart (n:=n) serverfd own) [] := by
  refine ⟨rfl,create_inv,List.nil_sublist _,List.nodup_singleton _,?_,?_,fun _ _ => rfl,?_⟩
  · intro fe listed
    obtain rfl := List.mem_singleton.mp listed
    exact small
  · intro fe listed _
    obtain rfl := List.mem_singleton.mp listed
    exact List.mem_cons_self
  · refine ⟨List.nodup_nil,fun fd => ?_,fun _ _ impossible => ?_,fun _ _ _ impossible => ?_,fun k below => ?_,fun _ _ => rfl,
      List.not_mem_nil⟩
    · simp [serverStart,places,clientFds,unhandled,workerPoolCreate]
    · cases impossible
    · cases impossible
    · exact absurd below (Nat.not_lt_zero k)

theorem serverInv_preserved (s : ServerState n) (a : ServerAction n) (inv : ServerInv s []) (allowed : ServerAllowed s a)
    (calm : Calm a) : ServerInv (serverStep s a) [] := by
  cases a with
  | select ready =>
    have every : s.events.all (·.fd < fdSetSize) = true := List.all_eq_true.mpr fun fe listed => decide_eq_true (inv.small fe listed)
    change ServerInv (selectEvents s ready) []
    unfold selectEvents
    rw [if_pos every]
    exact ⟨inv.up,inv.pool,List.Sublist.refl _,inv.distinct,inv.small,inv.listener,inv.unheld,inv.booked⟩
  | skip =>
    exact ⟨inv.up,inv.pool,(List.tail_sublist _).trans inv.walk,inv.distinct,inv.small,inv.listener,inv.unheld,inv.booked⟩
  | accept returns =>
    obtain ⟨_,⟨fe,first,_,_⟩,_,kernel⟩ := allowed
    obtain ⟨rest,here⟩ := List.head?_eq_some_iff.mp first
    obtain ⟨given,returned,cfd,new,small⟩ := calm
    obtain ⟨outside,free⟩ := kernel given returned cfd new
    obtain rfl : given = some cfd := new
    have done := inv.accept here returned small outside free
    change ServerInv (visit s fun s _ => acceptProc s returns) []
    unfold visit
    rw [here]
    exact ⟨done.up,done.pool,done.walk,done.distinct,done.small,done.listener,done.unheld,done.booked⟩
  | read got =>
    obtain ⟨_,fe,first,_,client⟩ := allowed
    obtain ⟨rest,here⟩ := List.head?_eq_some_iff.mp first
    cases got with
    | error => exact absurd rfl calm
    | arrived chunks =>
      have done := inv.read here client chunks
      change ServerInv (visit s fun s fe => clientReadProc s fe.fd (.arrived chunks)) []
      unfold visit
      rw [here]
      exact ⟨done.up,done.pool,done.walk,done.distinct,done.small,done.listener,done.unheld,done.booked⟩
  | enter w =>
    refine ⟨inv.up,poolInv_preserved s.pool (.enter w) inv.pool allowed.2,inv.walk,inv.distinct,inv.small,inv.listener,
      inv.unheld,?_⟩
    have booked := inv.booked
    rwa [places,← unhandled_enter w] at booked
  | leave w exit =>
    obtain ⟨_,job,busy⟩ := allowed
    exact inv.leave busy exit

def Registered (s : ServerState n) (fd : Nat) : Prop := ⟨fd,.clientRead⟩ ∈ s.events

-- In a job that waits in the ring or is handled.
def WithWorker (s : ServerState n) (fd : Nat) : Prop := ∃ job ∈ unhandled s.pool, job.fd.toNat = fd

def Open (s : ServerState n) (k fd : Nat) : Prop := s.clients.holder fd = some k

-- The k-th client: its descriptor is in one place and was never closed, or it was
-- closed once and is in none.
def Accounted (s : ServerState n) (k : Nat) : Prop :=
  (∃ fd, Open s k fd ∧ (Registered s fd ∧ ¬WithWorker s fd ∨ WithWorker s fd ∧ ¬Registered s fd) ∧
      s.clients.closes.count (some k) = 0) ∨
    s.clients.closes.count (some k) = 1 ∧ ∀ fd, ¬Open s k fd

theorem ServerInv.accounted (inv : ServerInv s []) (issued : k < s.clients.issued) : Accounted s k := by
  have registered : ∀ fd, fd ∈ clientFds s.events ↔ Registered s fd := by
    intro fd
    simp only [clientFds,List.mem_map,List.mem_filter,decide_eq_true_iff,Registered]
    constructor
    · rintro ⟨⟨fd',proc⟩,⟨listed,rfl⟩,rfl⟩
      exact listed
    · exact fun listed => ⟨_,⟨listed,rfl⟩,rfl⟩
  have working : ∀ fd, (fd ∈ (unhandled s.pool).map fun job => job.fd.toNat) ↔ WithWorker s fd := fun fd => List.mem_map
  rcases inv.booked.fate issued with ⟨fd,listed,holds,unclosed⟩ | ⟨once,gone⟩
  · refine .inl ⟨fd,holds,?_,unclosed⟩
    rw [List.nil_append,places] at listed
    have disjoint := (List.nodup_append.mp (show (places s).Nodup from inv.booked.distinct)).2.2
    rcases List.mem_append.mp listed with loop | job
    · exact .inl ⟨(registered fd).mp loop,fun busy => disjoint fd loop fd ((working fd).mpr busy) rfl⟩
    · exact .inr ⟨(working fd).mp job,fun loop => disjoint fd ((registered fd).mpr loop) fd job rfl⟩
  · exact .inr ⟨once,gone⟩

theorem server_survives (n : Nat) (serverfd : Nat) (own : List Nat) (small : serverfd < fdSetSize) (s : ServerState n)
    (run : Reached (fun s a => ServerAllowed s a ∧ Calm a) serverStep (serverStart serverfd own) s) :
    s.down = none ∧ none ∉ s.clients.closes ∧ ∀ k < s.clients.issued, Accounted s k := by
  have inv := run.keeps (fun s => ServerInv s []) (fun s a inv allowed => serverInv_preserved s a inv allowed.1 allowed.2)
    (serverInv_start serverfd own small)
  exact ⟨inv.up,inv.booked.clean,fun k issued => inv.accounted issued⟩

def calmSchedule : List (ServerAction 1) :=
  [.select [3],.accept [.descriptor 4],.select [4],.read (.arrived [crlf++crlf++cstr "x"]),.skip,
    .enter onlyWorker,.leave onlyWorker .noUserMessage,
    .select [3],.accept [.interrupted,.descriptor 4],.select [4],.read (.arrived []),.skip]

theorem calmSchedule_survives : ∃ s : ServerState 1, s.clients.issued = 2 ∧ s.clients.closes = [some 0,some 1] ∧
    s.down = none ∧ ∀ k < s.clients.issued, Accounted s k := by
  have ends : (Transition.run (fun (s : ServerState 1) a => ServerAllowed s a ∧ Calm a) serverStep (serverStart 3 [0,1,2])
      calmSchedule).map (fun s => (s.clients.issued,s.clients.closes)) = some (2,[some 0,some 1]) := by decide +kernel
  obtain ⟨s,reached,facts⟩ := Option.map_eq_some_iff.mp ends
  have path := run_reached _ _ _ _ _ reached
  obtain ⟨up,_,accounted⟩ := server_survives 1 3 [0,1,2] (by decide) s path
  exact ⟨s,(Prod.mk.inj facts).1,(Prod.mk.inj facts).2,up,accounted⟩

-- A client that resets its connection before the server reads, or before it accepts.
theorem reset_stops_server : ∃ s s' : ServerState 1,
    Reached ServerAllowed serverStep (serverStart 3 [0,1,2]) s ∧ s.clients.issued = 1 ∧ s.down = some (.exited 100) ∧
    Reached ServerAllowed serverStep (serverStart 3 [0,1,2]) s' ∧ s'.down = some (.exited 100) := by
  have read : (Transition.run ServerAllowed serverStep (serverStart (n:=1) 3 [0,1,2])
      [.select [3],.accept [.descriptor 4],.select [4],.read .error]).map (fun s => (s.clients.issued,s.down)) =
      some (1,some (.exited 100)) := by decide +kernel
  have accept : (Transition.run ServerAllowed serverStep (serverStart (n:=1) 3 [0,1,2])
      [.select [3],.accept [.error]]).map ServerState.down = some (some (.exited 100)) := by decide +kernel
  obtain ⟨s,reached,facts⟩ := Option.map_eq_some_iff.mp read
  obtain ⟨s',reached',stopped⟩ := Option.map_eq_some_iff.mp accept
  exact ⟨s,s',run_reached _ _ _ _ _ reached,(Prod.mk.inj facts).1,(Prod.mk.inj facts).2,run_reached _ _ _ _ _ reached',stopped⟩

end TinyLlama.Server
