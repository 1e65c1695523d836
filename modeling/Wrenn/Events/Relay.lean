import Wrenn.Ids.Base36

/-!
# The SSE relay

`handleMessage` decodes an event, adds the capsule's row to a capsule event and dispatches the result to the
subscribers of the event's team.  `hydrateSandbox` answers a row that is absent with neither a capsule nor an error,
and `handleMessage` writes the implied status through what it got.

* `relay_iff`: when a message is relayed as it should be;
* `absent_row_panics`: a capsule that is resumed by the system and deleted before the relay reads its row.
-/

namespace Wrenn.Events.Relay

open Wrenn.Ids.Base36

/-! ### Events -/

/-- `event.Event` -/
inductive Kind
  | capsuleCreate
  | capsulePause
  | capsuleResume
  | capsuleDestroy
  | capsuleStateChanged
  | other (name : String)
  deriving DecidableEq, Repr

inductive Outcome
  | success
  | error
  | other (name : String)
  deriving DecidableEq, Repr

inductive ActorKind
  | user
  | apiKey
  | system
  | other (name : String)
  deriving DecidableEq, Repr

/-- `δ` is what the relay copies and does not look at: the timestamp, the rest of the actor and of the resource, the
metadata and the error. -/
structure Event (δ : Type*) where
  event : Kind
  outcome : Outcome
  teamID : String
  actorType : ActorKind
  resourceID : Text
  other : δ

/-- A row of `sandboxes`; `ρ` are the columns that `sandboxToResponse` copies besides the status. -/
structure Row (ρ : Type*) where
  id : UUID
  status : String
  other : ρ

structure SandboxResponse (ρ : Type*) where
  id : Text
  status : String
  other : ρ
  deriving DecidableEq

variable {π δ ρ : Type*}

def kindSandbox : Text := ['c', 'l', '-'].map Char.toUInt8

def sandboxToResponse (sb : Row ρ) : SandboxResponse ρ := ⟨formatUUID kindSandbox sb.id, sb.status, sb.other⟩

/-! ### The relay -/

/-- `GetSandbox` -/
inductive Lookup (ρ : Type*)
  | row (sb : Row ρ)
  | noRows
  | error

/-- The two results of `hydrateSandbox`, unless the identifier makes it panic. -/
inductive Hydrated (ρ : Type*)
  | result (sb : Option (SandboxResponse ρ))
  | error
  | panic

def hydrateSandbox (getSandbox : UUID → Lookup ρ) (sandboxID : Text) : Hydrated ρ :=
  match parseUUID kindSandbox sandboxID with
  | .panic => .panic
  | .error _ => .error
  | .ok u =>
    match getSandbox u with
    | .row sb => .result (some (sandboxToResponse sb))
    | .noRows => .result none
    | .error => .error

def impliedSandboxStatus (ev : Event δ) : Option String :=
  if ev.outcome ≠ .success then none
  else if ev.actorType ≠ .system then none
  else
    match ev.event with
    | .capsulePause => some "paused"
    | .capsuleResume | .capsuleCreate => some "running"
    | _ => none

def isCapsuleEvent : Kind → Bool
  | .other _ => false
  | _ => true

inductive Result (δ ρ : Type*)
  /-- the payload does not decode -/
  | ignored
  | dispatched (kind : Kind) (teamID : String) (ev : Event δ) (sandbox : Option (SandboxResponse ρ))
  | panic

/-- The payload is made of strings and numbers, and so `json.Marshal` does not fail. -/
def handleMessage (unmarshal : π → Option (Event δ)) (getSandbox : UUID → Lookup ρ) (payload : π) : Result δ ρ :=
  match unmarshal payload with
  | none => .ignored
  | some ev =>
    if isCapsuleEvent ev.event then
      match hydrateSandbox getSandbox ev.resourceID with
      | .panic => .panic
      | .error => .dispatched ev.event ev.teamID ev none
      | .result sb =>
        match impliedSandboxStatus ev with
        | none => .dispatched ev.event ev.teamID ev sb
        | some status =>
          match sb with
          -- `sb.Status = status` through a nil pointer
          | none => .panic
          | some sb => .dispatched ev.event ev.teamID ev (some { sb with status := status })
    else .dispatched ev.event ev.teamID ev none

/-! ### The purpose -/

/-- The row of the event's capsule, if it is a capsule event and the row is found. -/
def found (getSandbox : UUID → Lookup ρ) (ev : Event δ) : Option (Row ρ) :=
  match isCapsuleEvent ev.event, parseUUID kindSandbox ev.resourceID with
  | true, .ok u =>
    match getSandbox u with
    | .row sb => some sb
    | _ => none
  | _, _ => none

/-- One message for the team of the event, with the row that was found and the status that the event implies. -/
def Relayed (unmarshal : π → Option (Event δ)) (getSandbox : UUID → Lookup ρ) (payload : π) : Prop :=
  handleMessage unmarshal getSandbox payload =
    match unmarshal payload with
    | none => .ignored
    | some ev => .dispatched ev.event ev.teamID ev ((found getSandbox ev).map fun sb =>
        { sandboxToResponse sb with status := (impliedSandboxStatus ev).getD sb.status })

/-- **When a message is relayed**: a capsule event must not name a numeral above the largest UUID, nor a capsule
without a row if a status is implied. -/
theorem relay_iff (unmarshal : π → Option (Event δ)) (getSandbox : UUID → Lookup ρ) (payload : π) :
    Relayed unmarshal getSandbox payload ↔
      ∀ ev, unmarshal payload = some ev → isCapsuleEvent ev.event = true →
        ¬ Oversized kindSandbox ev.resourceID ∧
          (impliedSandboxStatus ev ≠ none → ∀ u, parseUUID kindSandbox ev.resourceID = .ok u →
          getSandbox u ≠ .noRows) := by
  unfold Relayed handleMessage
  rcases hev : unmarshal payload with _ | ev
  · simp
  cases hk : isCapsuleEvent ev.event with
  | false => simp [hk, found]
  | true =>
    simp only [Option.some.injEq, forall_eq', hk, forall_const, if_true, ← parseUUID_panics_iff]
    rcases hp : parseUUID kindSandbox ev.resourceID with u | e | _
    · rcases hg : getSandbox u with sb | _ | _ <;> rcases hs : impliedSandboxStatus ev with _ | status <;>
        simp [hydrateSandbox, found, hk, hp, hg, sandboxToResponse]
    · simp [hydrateSandbox, found, hk, hp]
    · simp [hydrateSandbox, hp]

/-- The capsule of the largest UUID is resumed by the system. -/
def resumed : Event Unit :=
  ⟨.capsuleResume, .success, "team", .system, formatUUID kindSandbox largest, ()⟩

theorem absent_row_panics :
    handleMessage (fun _ : Unit => some resumed) (fun _ => (.noRows : Lookup Unit)) () = .panic := by
  unfold handleMessage
  simp [hydrateSandbox, resumed, isCapsuleEvent, impliedSandboxStatus, parseUUID_formatUUID]

end Wrenn.Events.Relay
