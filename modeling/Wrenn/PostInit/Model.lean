import Mathlib.Data.List.AList
import Wrenn.Lib.Runs

/-!
# `POST /init`

The host calls `/init` after boot and after each resume.  A request is validated against the access token, refreshes
the lifecycle, passes a gate that lets only growing timestamps through, and then sets the defaults and the token, one
after the other.

Requests run side by side.  Each operation on a lock, an atomic or the map of variables is one step: `is_set` and
`equals` of the validation, `bump_lifecycle`, the load and the exchange of `set_to_greater`, each insert, and the
setters.
-/

namespace Wrenn.PostInit.Model

/-! ### What requests share -/

/-- A token is never empty. -/
abbrev SecureToken := Option { t : String // t ≠ "" }

def SecureToken.set (_ : SecureToken) (token : String) : Except String SecureToken :=
  if h : token = "" then .error "empty token not allowed" else .ok (some ⟨token, h⟩)

def SecureToken.isSet (t : SecureToken) : Bool := t.isSome

def SecureToken.equals (t : SecureToken) (other : String) : Bool := t.elim false fun buf => decide (buf.val = other)

def SecureToken.destroy (_ : SecureToken) : SecureToken := none

/-- The name of a default. -/
inductive Default
  | env (name : String)
  | user
  | workdir
  deriving DecidableEq, Repr

structure Defaults where
  envVars : AList fun _ : String => String
  user : String
  workdir : Option String

def Defaults.get (ds : Defaults) : Default → Option String
  | .env name => ds.envVars.lookup name
  | .user => some ds.user
  | .workdir => ds.workdir

/-- `env_vars.insert`, `set_user` or `set_workdir`. -/
def Defaults.set (ds : Defaults) (d : Default) (value : String) : Defaults :=
  match d with
  | .env name => { ds with envVars := ds.envVars.insert name value }
  | .user => { ds with user := value }
  | .workdir => { ds with workdir := some value }

structure Shared where
  defaults : Defaults
  accessToken : SecureToken
  lastSetTime : ℤ
  lifecycleId : Option String
  /-- how often a changed lifecycle has reset the preload flags, restarted the ports and stepped the clock -/
  refreshes : ℕ

def bumpLifecycle (k : Shared) (newId : String) : Shared × Bool :=
  ({ k with lifecycleId := some newId }, k.lifecycleId.elim false fun existing => decide (existing ≠ newId))

/-! ### Requests -/

structure InitRequest where
  accessToken : Option String
  defaultUser : Option String
  defaultWorkdir : Option String
  envVars : Option (AList fun _ : String => String)
  hyperloopIp : Option String
  /-- in nanoseconds; one that cannot be parsed is as good as none -/
  timestamp : Option ℤ
  sandboxId : Option String
  templateId : Option String
  proxyDomain : Option String
  lifecycleId : Option String

/-- The steps after the gate. -/
inductive Op
  | set (d : Default) (value : String)
  | setToken (token : String)
  /-- `is_set`, of an empty token -/
  | checkToken
  | destroyToken
  deriving DecidableEq, Repr

/-- A value that is empty is not set. -/
def nonempty (value : Option String) : Option String := value.filter fun v => decide (v ≠ "")

def tokenOps (token : Option String) : List Op :=
  token.elim [] fun t => if t ≠ "" then [.setToken t] else [.checkToken]

/-- The steps after the gate, of which `hosts` says whether `setup_hyperloop` has a valid address and gets it into
`/etc/hosts`. -/
def InitRequest.ops (req : InitRequest) (hosts : Bool) : List Op :=
  (req.envVars.elim [] fun vars => vars.entries.map fun e => .set (.env e.1) e.2) ++
  tokenOps req.accessToken ++
  ((nonempty req.defaultUser).map fun user => Op.set .user user).toList ++
  ((nonempty req.defaultWorkdir).map fun workdir => Op.set .workdir workdir).toList ++
  ((req.hyperloopIp.filter fun _ => hosts).map fun ip =>
    Op.set (.env "WRENN_EVENTS_ADDRESS") ("http://" ++ ip)).toList ++
  (req.sandboxId.map fun id => Op.set (.env "WRENN_SANDBOX_ID") id).toList ++
  (req.templateId.map fun id => Op.set (.env "WRENN_TEMPLATE_ID") id).toList ++
  ((nonempty req.proxyDomain).map fun domain => Op.set (.env "WRENN_PROXY_DOMAIN") domain).toList

inductive Response
  | unauthorized (message : String)
  /-- stopped at the gate -/
  | stale
  | applied
  deriving DecidableEq, Repr

inductive Pc
  /-- before the first `is_set` -/
  | validate (token : String)
  /-- before `equals` -/
  | compare (token : String)
  /-- before the second `is_set` -/
  | recheck (token : String)
  | lifecycle
  | load (nanos : ℤ)
  | exchange (nanos current : ℤ)
  | applying (left : List Op)
  | returned (response : Response)
  deriving DecidableEq, Repr

structure Call where
  req : InitRequest
  hosts : Bool
  pc : Pc

def Call.ops (c : Call) : List Op := c.req.ops c.hosts

def Call.initial (req : InitRequest) (hosts : Bool) : Call := ⟨req, hosts, req.accessToken.elim .lifecycle .validate⟩

/-- One step after the gate, and what comes in front of the rest. -/
def Op.exec (k : Shared) : Op → Shared × List Op
  | .set d value => ({ k with defaults := k.defaults.set d value }, [])
  | .setToken token => ({ k with accessToken := (k.accessToken.set token).toOption.getD k.accessToken }, [])
  | .checkToken => (k, if k.accessToken.isSet then [.destroyToken] else [])
  | .destroyToken => ({ k with accessToken := k.accessToken.destroy }, [])

/-- `bump_lifecycle` and what follows from a changed lifecycle. -/
def refresh (k : Shared) (lifecycleId : Option String) : Shared :=
  lifecycleId.elim k fun newId =>
    let (k, changed) := bumpLifecycle k newId
    if changed then { k with refreshes := k.refreshes + 1 } else k

/-- `weak` is a `compare_exchange_weak` that fails for no reason. -/
def Call.advance (c : Call) (k : Shared) (weak : Bool) : Option (Shared × Pc) :=
  match c.pc with
  | .validate token => some (k, if k.accessToken.isSet && decide (token ≠ "") then .compare token else .recheck token)
  | .compare token => some (k, if k.accessToken.equals token then .lifecycle else .recheck token)
  | .recheck token =>
    some (k, if k.accessToken.isSet then
        .returned (.unauthorized
          (if token = "" then "access token reset not authorized" else "access token validation failed"))
      else .lifecycle)
  | .lifecycle => some (refresh k c.req.lifecycleId, c.req.timestamp.elim (.applying c.ops) .load)
  | .load nanos =>
    some (k, if nanos ≤ k.lastSetTime then .returned .stale else .exchange nanos k.lastSetTime)
  | .exchange nanos current =>
    if k.lastSetTime = current ∧ weak = false then some ({ k with lastSetTime := nanos }, .applying c.ops)
    else some (k, .load nanos)
  | .applying [] => some (k, .returned .applied)
  | .applying (op :: left) =>
    let (k, next) := op.exec k
    some (k, .applying (next ++ left))
  | .returned _ => none

/-! ### Runs -/

structure State where
  shared : Shared
  calls : List Call

inductive Act
  | post (req : InitRequest) (hosts : Bool)
  | move (i : ℕ) (weak : Bool)

def step (s : State) : Act → Option State
  | .post req hosts => some { s with calls := s.calls ++ [.initial req hosts] }
  | .move i weak => (s.calls[i]?).bind fun c => (c.advance s.shared weak).map fun r =>
    ⟨r.1, s.calls.set i { c with pc := r.2 }⟩

/-- `i64::MIN` -/
def minTime : ℤ := -9223372036854775808

/-- envd before the first request. -/
def booted (user : String) : State := ⟨⟨⟨∅, user, none⟩, none, minTime, none, 0⟩, []⟩

def Initial (s : State) : Prop := ∃ user, s = booted user

/-! ### Where a request is, and what it gives -/

abbrev Write := Default × String

def Op.write : Op → Option Write
  | .set d value => some (d, value)
  | _ => none

def writes (ops : List Op) : List Write := ops.filterMap Op.write

/-- The last value for a default. -/
def given : List Write → Default → Option String
  | [], _ => none
  | w :: ws, d => (given ws d).or (if w.1 = d then some w.2 else none)

/-- The request is setting its values. -/
def Pc.underway : Pc → Bool
  | .applying _ => true
  | _ => false

/-- The request has passed the gate. -/
def Pc.accepted : Pc → Bool
  | .applying _ | .returned .applied => true
  | _ => false

def Pc.left : Pc → List Op
  | .applying left => left
  | _ => []

/-- The next step passes the gate. -/
def Pc.passes (k : Shared) (weak : Bool) : Pc → Bool
  | .exchange _ current => decide (k.lastSetTime = current ∧ weak = false)
  | _ => false

def Call.nanos (c : Call) : ℤ := c.req.timestamp.getD minTime

def Op.ofToken : Op → Bool
  | .set _ _ => false
  | _ => true

def Pc.validates : Pc → Bool
  | .validate _ => true
  | _ => false

/-- Validation is over. -/
def Pc.checked : Pc → Bool
  | .validate _ | .compare _ | .recheck _ => false
  | _ => true

/-- A request with a token, between the begin of its validation and its token step. -/
def Call.window (c : Call) : Bool :=
  c.req.accessToken.isSome &&
    match c.pc with
    | .validate _ | .returned _ => false
    | .applying left => left.any Op.ofToken
    | _ => true

/-- The value that a request gives to a default. -/
def Call.gives (c : Call) (d : Default) : Option String := given (writes c.ops) d

/-- The request has set the default. -/
def Call.sets (c : Call) (d : Default) : Bool := decide (c.pc = .returned .applied) && (c.gives d).isSome

def Pc.returns : Pc → Bool
  | .returned _ => true
  | _ => false

end Wrenn.PostInit.Model
