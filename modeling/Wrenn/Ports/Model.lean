import Wrenn.Lib.Runs
import Wrenn.Lib.Tables

/-!
# Port forwarding

envd scans for sockets that listen on a loopback address, and a forwarder starts a `socat` for each of them, which
listens on the same port of the address that the host can reach.  The table of a forwarder has an entry for each pair
of an inode and a port; a scan marks all entries for deletion, takes the mark off those it finds, starts what is new,
and kills what is left marked.

`/init` restarts the subsystem: the token of the running forwarder is cancelled and a new forwarder starts, with an
empty table, while the old one may have a scan in hand or its children to kill.

A forwarder makes a step for each connection of a scan and for each child it kills.  A `socat` starts, binds its port
unless another one has it, may exit, and is reaped by a thread of its own; from then on its PID is free.
-/

namespace Wrenn.Ports.Model

open Lib.Tables

/-! ### Scans -/

structure ConnStat where
  localIP : String
  localPort : ℕ
  status : String
  family : ℕ
  inode : ℕ
  deriving DecidableEq, Repr

structure ScannerFilter where
  ips : List String
  state : String
  deriving DecidableEq, Repr

def ScannerFilter.admits (f : ScannerFilter) (c : ConnStat) : Bool :=
  if f.state.isEmpty && f.ips.isEmpty then false
  else f.ips.contains c.localIP && f.state == c.status

/-- The filter of the subscriber `port-forwarder`. -/
def loopbackFilter : ScannerFilter := ⟨["127.0.0.1", "localhost", "::1"], "LISTEN"⟩

/-- What the forwarder is sent. -/
def payload (conns : List ConnStat) : List ConnStat := conns.filter loopbackFilter.admits

def AF_INET : ℕ := 2

def AF_INET6 : ℕ := 10

def familyToIPVersion (family : ℕ) : ℕ := if family = AF_INET then 4 else if family = AF_INET6 then 6 else 0

/-! ### Forwarders -/

inductive PortState
  | forward
  | delete
  deriving DecidableEq, Repr

structure PortToForward where
  pid : Option ℕ
  inode : ℕ
  family : ℕ
  state : PortState
  port : ℕ
  deriving DecidableEq, Repr

/-- `"{inode}-{port}"` -/
def PortToForward.key (e : PortToForward) : ℕ × ℕ := (e.inode, e.port)

def ConnStat.key (c : ConnStat) : ℕ × ℕ := (c.inode, c.localPort)

def ConnStat.entry (c : ConnStat) (pid : Option ℕ) : PortToForward :=
  ⟨pid, c.inode, familyToIPVersion c.family, .forward, c.localPort⟩

def DEFAULT_GATEWAY_IP : String := "169.254.0.21"

def socatArgs (port family : ℕ) : List String :=
  ["-d", "-d", "-d", "TCP4-LISTEN:" ++ toString port ++ ",bind=" ++ DEFAULT_GATEWAY_IP ++ ",reuseaddr,fork",
    "TCP" ++ toString family ++ ":localhost:" ++ toString port]

/-- Where a forwarder is: in its `select!`, in one of the two loops of `process_scan`, or in `stop_all`. -/
inductive Pc
  | idle
  | scanning (left : List ConnStat)
  | stopping (left : List (ℕ × ℕ))
  | draining (left : List PortToForward)
  | finished
  deriving DecidableEq, Repr

structure Forwarder where
  cancelled : Bool
  ports : Table PortToForward.key
  pc : Pc
  /-- the scan in hand, or the last one -/
  scan : List ConnStat
  /-- whether a scan has been processed since the start -/
  scanned : Bool

/-- What a step does to the processes of the system. -/
inductive Effect
  | none
  | spawn (pid port : ℕ) (args : List String)
  | kill (pid : ℕ)
  deriving DecidableEq, Repr

/-- `stop_port_forwarding` -/
def stopPortForwarding (e : PortToForward) : Effect := e.pid.elim .none .kill

/-- What the step meets: a message, the cancelled token, or the outcome of a spawn. -/
inductive Choice
  | scan (conns : List ConnStat)
  | cancelled
  | spawned (pid : ℕ)
  | spawnFailed
  | go
  deriving DecidableEq, Repr

def mark (state : PortState) (e : PortToForward) : PortToForward := { e with state := state }

/-- `start_port_forwarding` and the insert after it. -/
def Forwarder.startPort (fw : Forwarder) (c : ConnStat) (cs : List ConnStat) : Choice → Option (Effect × Forwarder)
  | .spawned pid => (fw.ports.insert (c.entry (some pid))).map fun ports =>
    (.spawn pid c.localPort (socatArgs c.localPort (familyToIPVersion c.family)),
      { fw with ports := ports, pc := .scanning cs })
  | .spawnFailed => (fw.ports.insert (c.entry .none)).map fun ports =>
      (.none, { fw with ports := ports, pc := .scanning cs })
  | _ => none

def Forwarder.advance (fw : Forwarder) (choice : Choice) : Option (Effect × Forwarder) :=
  match fw.pc with
  | .idle =>
    match choice with
    | .scan conns =>
      some (.none, { fw with ports := fw.ports.update (fun _ => true) (mark .delete) (fun _ => rfl)
                             pc := .scanning (payload conns), scan := payload conns })
    | .cancelled => if fw.cancelled then some (.none, { fw with pc := .draining fw.ports.rows }) else none
    | _ => none
  | .scanning [] =>
    some (.none, { fw with
      pc := .stopping ((fw.ports.list fun e => decide (e.state = .delete)).map PortToForward.key) })
  | .scanning (c :: cs) =>
    match fw.ports.select c.key with
    | some _ =>
      some (.none, { fw with ports := fw.ports.update (fun e => decide (e.key = c.key)) (mark .forward) (fun _ => rfl)
                             pc := .scanning cs })
    | none => fw.startPort c cs choice
  | .stopping [] => some (.none, { fw with pc := .idle, scanned := true })
  | .stopping (key :: keys) =>
    some ((fw.ports.select key).elim .none stopPortForwarding,
      { fw with ports := fw.ports.delete (fun e => decide (e.key = key)), pc := .stopping keys })
  | .draining [] => some (.none, { fw with ports := .empty, pc := .finished })
  | .draining (e :: es) => some (stopPortForwarding e, { fw with pc := .draining es })
  | .finished => none

/-! ### The system -/

inductive Status
  | starting
  | bound
  /-- sent SIGKILL, and not gone yet -/
  | killed (bound : Bool)
  | zombie
  | reaped
  deriving DecidableEq, Repr

def Status.live : Status → Bool
  | .starting | .bound => true
  | _ => false

/-- It has the port, or may still get it. -/
def Status.claims : Status → Bool
  | .starting | .bound | .killed _ => true
  | _ => false

/-- It listens on the port. -/
def Status.listens : Status → Bool
  | .bound | .killed true => true
  | _ => false

structure Socat where
  pid : ℕ
  port : ℕ
  owner : ℕ
  args : List String
  status : Status
  deriving DecidableEq, Repr

/-- A SIGKILL to the group of a PID, and whether the group was that of a child of the forwarder. -/
structure Kill where
  forwarder : ℕ
  pid : ℕ
  own : Bool
  deriving DecidableEq, Repr

structure State where
  socats : List Socat
  forwarders : List Forwarder
  /-- the forwarder whose token the subsystem has -/
  current : Option ℕ
  kills : List Kill

def Socat.kill (pid : ℕ) (q : Socat) : Socat :=
  if q.pid = pid then
    match q.status with
    | .starting => { q with status := .killed false }
    | .bound => { q with status := .killed true }
    | _ => q
  else q

/-- The pid leads the group of a child of the forwarder that has not been reaped. -/
def ownGroup (socats : List Socat) (i pid : ℕ) : Bool :=
  socats.any fun q => decide (q.pid = pid ∧ q.owner = i ∧ q.status ≠ .reaped)

def State.apply (s : State) (i : ℕ) : Effect → Option State
  | .none => some s
  | .spawn pid port args =>
    if ∃ q ∈ s.socats, q.pid = pid ∧ q.status ≠ .reaped then none
    else some { s with socats := s.socats ++ [⟨pid, port, i, args, .starting⟩] }
  | .kill pid => some { s with socats := s.socats.map (Socat.kill pid)
                               kills := ⟨i, pid, ownGroup s.socats i pid⟩ :: s.kills }

inductive Event
  | bind
  | exit
  | die
  | reap
  deriving DecidableEq, Repr

/-- The next status of a child, `busy` if another one listens on its port. -/
def Status.next (busy : Bool) : Status → Event → Option Status
  | .starting, .bind => some (if busy then .zombie else .bound)
  | .starting, .exit | .bound, .exit | .killed _, .die => some .zombie
  | .zombie, .reap => some .reaped
  | _, _ => none

def busy (socats : List Socat) (j : ℕ) (port : ℕ) : Bool :=
  (socats.eraseIdx j).any fun q => decide (q.port = port) && q.status.listens

inductive Act
  | start
  | stop
  | forward (i : ℕ) (choice : Choice)
  | socat (j : ℕ) (e : Event)
  deriving DecidableEq, Repr

/-- `restart` is a `stop` followed by a `start`. -/
def step (s : State) : Act → Option State
  | .start =>
    if s.current.isSome then none
    else some { s with forwarders := s.forwarders ++ [⟨false, .empty, .idle, [], false⟩]
                       current := some s.forwarders.length }
  | .stop => s.current.map fun i =>
    { s with forwarders := s.forwarders.modify i fun fw => { fw with cancelled := true }, current := none }
  | .forward i choice => (s.forwarders[i]?).bind fun fw => (fw.advance choice).bind fun r =>
    { s with forwarders := s.forwarders.set i r.2 }.apply i r.1
  | .socat j e => (s.socats[j]?).bind fun q => (q.status.next (busy s.socats j q.port) e).map fun status =>
    { s with socats := s.socats.set j { q with status := status } }

def Initial (s : State) : Prop := s = ⟨[], [], none, []⟩

/-! ### Entries and children -/

/-- The PID and the port of an entry. -/
abbrev Link := Option ℕ × ℕ

def PortToForward.link (e : PortToForward) : Link := (e.pid, e.port)

/-- The entries whose children the forwarder has not killed. -/
def Forwarder.links (fw : Forwarder) : List Link :=
  match fw.pc with
  | .draining left => left.map PortToForward.link
  | .finished => []
  | _ => fw.ports.rows.map PortToForward.link

/-- The port of the connection that the scan comes to. -/
def Forwarder.nextPort (fw : Forwarder) : Option ℕ :=
  match fw.pc with
  | .scanning (c :: _) => some c.localPort
  | _ => none

def State.links (s : State) (i : ℕ) : List Link := (s.forwarders[i]?).elim [] Forwarder.links

end Wrenn.Ports.Model
