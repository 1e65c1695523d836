import Wrenn.Lib.Runs
import Wrenn.Lib.Threads

/-!
# Builds of templates

One build of a template: the worker that executes it, and any number of calls of `Cancel`.  A build is put
into the queue once, so one worker takes it.  Each statement, each read of the context of the build and each
cancellation of it is a step.

The worker marks the build `running`, provisions a capsule, runs the phases of the recipe and the healthcheck,
and makes the template; it writes `failed` or `success` at the end.  None of the writes of the status looks at
the status that it replaces.  What keeps a cancelled build from being written over is the context of the
build: statements on a context that is done fail.  `failBuild` writes on a context of its own, after the
context of the build was looked at in some of the places that call it and without a look in the others.

The rows for the capsule of the build, the logs and the published events are no part of the model.
-/

namespace Wrenn.Builds.Model

open Lib.Threads

inductive Status
  | pending
  | running
  | success
  | failed
  | cancelled
  deriving DecidableEq, Repr

/-- The statuses that `Cancel` refuses. -/
def Status.final : Status → Bool
  | .success | .failed | .cancelled => true
  | _ => false

/-- The columns of the build that decide its way. -/
structure Build where
  /-- the recipe is valid JSON -/
  recipeJSON : Bool
  /-- the steps of the recipe can be parsed -/
  recipeParses : Bool
  /-- whether the healthcheck can be parsed, if there is one -/
  healthcheck : Option Bool
  skipPrePost : Bool
  /-- an archive was uploaded with the build -/
  archive : Bool
  deriving DecidableEq, Repr

/-! ### The worker -/

inductive Provision
  | selectHost
  | getForHost
  | getTemplate
  | createSandbox
  | uploadArchive
  deriving DecidableEq, Repr

/-- The call takes the context of the build. -/
def Provision.usesCtx : Provision → Bool
  | .getForHost => false
  | _ => true

inductive Phase
  | preBuild
  | recipe
  | postBuild
  deriving DecidableEq, Repr

/-- Where the worker is in `executeBuild`. -/
inductive Stage
  | queued
  | register
  | fetch
  | markRunning
  | readRecipe
  | provision (p : Provision)
  | parseRecipe
  | phase (ph : Phase)
  | healthcheck
  /-- after a failure, before the look at the context -/
  | check
  /-- the snapshot or the flattening of the root file system -/
  | persist
  | insertTemplate
  | markSuccess
  /-- the write of `failBuild` -/
  | markFailed
  | unregister
  | done
  deriving DecidableEq, Repr

structure Core where
  build : Build
  status : Status
  /-- the template of the build has been inserted -/
  template : Bool
  worker : Stage
  /-- `cancelMap` has an entry for the build -/
  registered : Bool
  /-- the context of the build is done -/
  ctxDone : Bool
  /-- some call of `Cancel` has returned nil -/
  cancelReturned : Bool
  deriving DecidableEq, Repr

/-- What becomes of a statement, a call or a phase. -/
inductive Reply
  | ok
  /-- executed, but the caller gets an error -/
  | lost
  | failed
  deriving DecidableEq, Repr

/-- The reply to a call on the context of the build. -/
def onCtx (k : Core) (r : Reply) : Reply := if k.ctxDone then .failed else r

/-- The status after the statement was replied to. -/
def written (k : Core) (st : Status) : Reply → Status
  | .ok | .lost => st
  | .failed => k.status

def afterProvision (b : Build) : Provision → Stage
  | .selectHost => .provision .getForHost
  | .getForHost => .provision .getTemplate
  | .getTemplate => .provision .createSandbox
  | .createSandbox => if b.archive then .provision .uploadArchive else .parseRecipe
  | .uploadArchive => .parseRecipe

def afterHealthcheck (b : Build) : Stage := if b.skipPrePost then .persist else .phase .postBuild

def afterPhase : Phase → Stage
  | .preBuild => .phase .recipe
  | .recipe => .healthcheck
  | .postBuild => .persist

def work (k : Core) (r : Reply) : Option Core :=
  match k.worker with
  | .queued => some { k with worker := .register }
  | .register => some { k with registered := true, worker := .fetch }
  | .fetch =>
    if onCtx k r = .ok ∧ k.status ≠ .cancelled then some { k with worker := .markRunning }
    else some { k with worker := .unregister }
  | .markRunning => some { k with
      status := written k .running (onCtx k r)
      worker := if onCtx k r = .ok then .readRecipe else .unregister }
  | .readRecipe =>
    some { k with worker := if k.build.recipeJSON then .provision .selectHost else .markFailed }
  | .provision p => some { k with
      worker := if (if p.usesCtx then onCtx k r else r) = .ok then afterProvision k.build p else .markFailed }
  | .parseRecipe => some { k with
      worker := if k.build.recipeParses then
          if k.build.skipPrePost then .phase .recipe else .phase .preBuild
        else .markFailed }
  | .phase ph => some { k with worker := if r = .ok then afterPhase ph else .check }
  | .healthcheck => some { k with
      worker := match k.build.healthcheck with
        | none => afterHealthcheck k.build
        | some false => .markFailed
        | some true => if r = .ok then afterHealthcheck k.build else .check }
  | .check => some { k with worker := if k.ctxDone then .unregister else .markFailed }
  | .persist => some { k with worker := if onCtx k r = .ok then .insertTemplate else .check }
  | .insertTemplate => some { k with
      template := k.template || decide (onCtx k r ≠ .failed)
      worker := .markSuccess }
  | .markSuccess => some { k with status := written k .success (onCtx k r), worker := .unregister }
  | .markFailed => some { k with status := written k .failed r, worker := .unregister }
  | .unregister => some { k with registered := false, ctxDone := true, worker := .done }
  | .done => none

/-! ### `Cancel` -/

inductive Proc
  | read
  | write
  | lookup
  | signal
  | halt
  deriving DecidableEq, Repr

def run (k : Core) (r : Reply) : Proc → Option (Core × Proc)
  | .read => some (k, if r = .ok ∧ k.status.final = false then .write else .halt)
  | .write => some ({ k with status := written k .cancelled r }, if r = .ok then .lookup else .halt)
  | .lookup =>
    if k.registered then some (k, .signal) else some ({ k with cancelReturned := true }, .halt)
  | .signal => some ({ k with ctxDone := true, cancelReturned := true }, .halt)
  | .halt => none

/-! ### The system -/

inductive Env
  | work (r : Reply)
  /-- the workers are shut down -/
  | shutdown
  /-- the worker dies -/
  | die
  deriving DecidableEq, Repr

def env (k : Core) : Env → Option Core
  | .work r => work k r
  | .shutdown => some { k with ctxDone := true }
  | .die => some { k with worker := .done }

def prog : Prog Core Proc Unit Reply Env where
  spawn := fun k _ => some (k, .read)
  run := run
  halt := .halt
  env := env

abbrev State := Sys Core Proc

abbrev Act := Label Unit Reply Env

def step : State → Act → Option State := prog.step

def Initial (s : State) : Prop := ∃ build, s = ⟨⟨build, .pending, false, .queued, false, false, false⟩, []⟩

end Wrenn.Builds.Model
