import TinyLlama.Server.WorkerPool
import TinyLlama.Server.Framing
import TinyLlama.Lib.Handles

-- el.c and server.c's callbacks: one pass of process_event walks the registered events; the workers step in between.
namespace TinyLlama.Server
open Framing Ownership

inductive FileProc where
  | accept | clientRead
deriving DecidableEq

structure FileEvent where
  fd : Nat
  proc : FileProc
deriving DecidableEq

def fdSetSize : Nat := 1024

-- exit(status), or a bit set outside an fd_set.
inductive Down where
  | exited (status : Nat)
  | setOverrun
deriving DecidableEq

-- accept: a descriptor, an interrupted call, or any other error.
inductive AcceptReturn where
  | descriptor (fd : Nat)
  | interrupted
  | error
deriving DecidableEq

-- The first read of a request: an error, or what arrives for it and the next one.
inductive ReadReturn where
  | error
  | arrived (chunks : List (List UInt8))
deriving DecidableEq

-- The exits of handle_request.
inductive RequestExit where
  | noUserMessage | noTokens | forwardFailed | streamed | answered
deriving DecidableEq

inductive SocketCall where
  | respond (status : Nat)
  | stream
  | close
deriving DecidableEq

def RequestExit.calls : RequestExit → List SocketCall
  | .noUserMessage => [.respond 400,.close]
  | .noTokens => [.respond 400,.close]
  | .forwardFailed => [.respond 500,.close]
  | .streamed => [.stream,.close]
  | .answered => [.respond 200,.close]

-- `events` is the list at fileEventHead; `visiting` is what a pass has yet to walk and
-- `ready` what its select found. `own` descriptors are no client's.
structure ServerState (n : Nat) where
  events : List FileEvent
  visiting : List FileEvent
  ready : List Nat
  pool : WorkerPool n (List UInt8)
  clients : Handles Nat
  own : List Nat
  down : Option Down

variable {n : Nat}

def serverStart (serverfd : Nat) (own : List Nat) : ServerState n :=
  ⟨[⟨serverfd,.accept⟩],[],[],workerPoolCreate,⟨fun _ => none,0,[]⟩,serverfd :: own,none⟩

def createFileEvent (s : ServerState n) (fd : Nat) (proc : FileProc) : ServerState n := {s with events:=⟨fd,proc⟩ :: s.events}

def deleteFileEvent (s : ServerState n) (fd : Nat) : ServerState n := {s with events:=s.events.eraseP fun fe => fe.fd = fd}

def closeFd (s : ServerState n) (fd : Nat) : ServerState n := {s with clients:=s.clients.close fd}

-- slog_errno ends in exit(100), as slog does from ERROR on.
def slogErrno (s : ServerState n) : ServerState n := {s with down:=some (.exited 100)}

-- server_accept: interrupted calls are repeated; none while it blocks.
def serverAccept : List AcceptReturn → Option (Option Nat)
  | [] => none
  | .interrupted :: rest => serverAccept rest
  | .descriptor fd :: _ => some (some fd)
  | .error :: _ => some none

def acceptProc (s : ServerState n) (returns : List AcceptReturn) : ServerState n :=
  match serverAccept returns with
  | none => s
  | some none => slogErrno s
  | some (some cfd) => createFileEvent {s with clients:=s.clients.issue cfd} cfd .clientRead

def clientReadProc (s : ServerState n) (fd : Nat) : ReadReturn → ServerState n
  | .error => slogErrno s
  | .arrived chunks =>
    match Framing.clientReadProc chunks with
    | .closed => closeFd (deleteFileEvent s fd) fd
    | .reject _ _ => closeFd (deleteFileEvent s fd) fd
    | .submit body =>
      let s := deleteFileEvent s fd
      if s.pool.stop ∨ s.pool.count = jobQueueCap then closeFd {s with pool:=workerPoolSubmit s.pool fd body} fd
      else {s with pool:=workerPoolSubmit s.pool fd body}

def socketCall (fd : Nat) (s : ServerState n) : SocketCall → ServerState n
  | .close => closeFd s fd
  | _ => s

-- handle_request on the job that worker w took; a slot as scalloc left it names descriptor 0.
def handleRequest (s : ServerState n) (w : Fin n) (exit : RequestExit) : ServerState n :=
  match s.pool.worker w with
  | .handling job => exit.calls.foldl (socketCall ((job.map ClientJob.fd).getD 0).toNat) s
  | _ => s

inductive ServerAction (n : Nat) where
  | select (ready : List Nat)
  | skip
  | accept (returns : List AcceptReturn)
  | read (got : ReadReturn)
  | enter (w : Fin n)
  | leave (w : Fin n) (exit : RequestExit)
deriving DecidableEq

-- A pass starts when the last one is through, and visits its events in order; accept
-- gives no descriptor that is open.
def ServerAllowed (s : ServerState n) : ServerAction n → Prop
  | .select _ => s.down = none ∧ s.visiting = []
  | .skip => s.down = none ∧ ∃ fe ∈ s.visiting.head?, fe.fd ∉ s.ready
  | .accept returns => s.down = none ∧ (∃ fe ∈ s.visiting.head?, fe.fd ∈ s.ready ∧ fe.proc = .accept) ∧
      serverAccept returns ≠ none ∧
      ∀ given ∈ serverAccept returns, ∀ cfd ∈ given, cfd ∉ s.own ∧ s.clients.holder cfd = none
  | .read _ => s.down = none ∧ ∃ fe ∈ s.visiting.head?, fe.fd ∈ s.ready ∧ fe.proc = .clientRead
  | .enter w => s.down = none ∧ s.pool.worker w = .idle
  | .leave w _ => s.down = none ∧ ∃ job, s.pool.worker w = .handling job

instance (s : ServerState n) (a : ServerAction n) : Decidable (ServerAllowed s a) :=
  match a with
  | .select _ | .skip | .accept _ | .read _ | .enter _ => by unfold ServerAllowed; infer_instance
  | .leave w _ =>
    match found : s.pool.worker w with
    | .handling job => decidable_of_iff (s.down = none) ⟨fun up => ⟨up,job,found⟩,fun allowed => allowed.1⟩
    | .idle => .isFalse fun ⟨_,_,busy⟩ => by simp [found] at busy
    | .gone => .isFalse fun ⟨_,_,busy⟩ => by simp [found] at busy

-- FD_SET, select and FD_ISSET; the walk then takes the events as they are linked now.
def selectEvents (s : ServerState n) (ready : List Nat) : ServerState n :=
  if s.events.all (·.fd < fdSetSize) then {s with visiting:=s.events,ready:=ready} else {s with down:=some .setOverrun}

-- The callback of the event visited, then FD_CLR.
def visit (s : ServerState n) (callback : ServerState n → FileEvent → ServerState n) : ServerState n :=
  match s.visiting with
  | [] => s
  | fe :: rest =>
    let s := callback {s with visiting:=rest} fe
    {s with ready:=s.ready.filter (· ≠ fe.fd)}

def serverStep (s : ServerState n) : ServerAction n → ServerState n
  | .select ready => selectEvents s ready
  | .skip => {s with visiting:=s.visiting.tail}
  | .accept returns => visit s fun s _ => acceptProc s returns
  | .read got => visit s fun s fe => clientReadProc s fe.fd got
  | .enter w => {s with pool:=workerEnter s.pool w}
  | .leave w exit =>
    let s := handleRequest s w exit
    {s with pool:=workerLeave s.pool w}

def unhandled (pool : WorkerPool n (List UInt8)) : List (ClientJob (List UInt8)) :=
  pool.accepted.filter fun job => some job ∉ pool.handled.map Prod.snd

def clientFds (events : List FileEvent) : List Nat :=
  (events.filter fun fe => fe.proc = .clientRead).map FileEvent.fd

def places (s : ServerState n) : List Nat := clientFds s.events++(unhandled s.pool).map fun job => job.fd.toNat

end TinyLlama.Server
