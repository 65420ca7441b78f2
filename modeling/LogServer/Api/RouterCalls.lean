import LogServer.Api.Routers
import LogServer.Database.Connection

/-!
# Ways to change the router table

The handlers of the API and the `add-router` command of the command line, as calls with their
arguments.  `RouterCall.run` is a call on a connection, and `RouterCall.execute` is the table it leaves, if
it succeeds; `run_idle` says that they agree.
-/

namespace LogServer

/-! ## Calls -/

/-- `cmd_add_router`: the exit code. -/
def Cli.cmdAddRouter (u : CharTable) (now name ip : Text) (description : Option Text)
    (disabled : Bool) : Sqlite Nat :=
  tryCatch
    (do
      let _ ← MetadataStore.addRouter u now name ip (description.getD []) !disabled
      return 0)
    fun _ ↦ return 1

/-- A call that changes the router table, with the time at which it does. -/
inductive RouterCall where
  | addRouter (payload : RouterIn) (now : Text)
  | updateRouter (id : Nat) (payload : RouterPatch) (now : Text)
  | deleteRouter (id : Nat)
  | cmdAddRouter (name ip : Text) (description : Option Text) (disabled : Bool) (now : Text)

namespace RouterCall

variable (u : CharTable)

/-- Whether a method has succeeded, and the connection it leaves. -/
def succeeded {α : Type} : EStateM.Result PyError Connection α → Bool × Connection
  | .ok _ conn => (true, conn)
  | .error _ conn => (false, conn)

/-- A call on a connection, and whether it succeeds.  The handlers raise an `HTTPException` where they
find no router. -/
def run (conn : Connection) : RouterCall → Bool × Connection
  | .addRouter payload now =>
      succeeded (MetadataStore.addRouter u now payload.name payload.ipAddress payload.description
        payload.enabled conn)
  | .updateRouter id payload now =>
      match MetadataStore.getRouter id conn with
      | .ok (some _) conn => succeeded (MetadataStore.updateRouter u now id payload.fields conn)
      | .ok none conn => (false, conn)
      | .error _ conn => (false, conn)
  | .deleteRouter id =>
      match MetadataStore.deleteRouter id conn with
      | .ok deleted conn => (deleted, conn)
      | .error _ conn => (false, conn)
  | .cmdAddRouter name ip description disabled now =>
      match Cli.cmdAddRouter u now name ip description disabled conn with
      | .ok code conn => (code = 0, conn)
      | .error _ conn => (false, conn)

def execute (t : Routers) : RouterCall → Option Routers
  | .addRouter payload now => ((RoutersApi.addRouter u now t payload).map Prod.fst).toOption
  | .updateRouter id payload now => do
      (RoutersApi.checkRouter t id).toOption
      ((RoutersApi.updateRouter u now t id payload).map Prod.fst).toOption
  | .deleteRouter id => (RoutersApi.deleteRouter t id).toOption
  | .cmdAddRouter name ip description disabled now =>
      ((t.addRouter u now name ip (description.getD []) !disabled).map Prod.fst).toOption

def name : RouterCall → Option Text
  | .addRouter payload _ => payload.name
  | .updateRouter _ payload _ => payload.fields.name
  | .deleteRouter _ => none
  | .cmdAddRouter name _ _ _ _ => name

/-! ## Calls on a connection -/

section run

variable {u} {t : Routers}

def outcome (t : Routers) : Option Routers → Bool × Connection
  | some t' => (true, .idle t')
  | none => (false, .idle t)

theorem succeeded_outcome {α : Type} (x : Except PyError (Routers × α)) :
    succeeded (MetadataStore.outcome t x) = outcome t (x.map Prod.fst).toOption := by
  cases x <;> rfl

/-- Deleting a router that is not there. -/
theorem deleteRouter_of_not {id : Nat} (h : (t.deleteRouter id).2 = false) :
    (t.deleteRouter id).1 = t := by
  have hfilter : t.rows.filter (fun row ↦ row.id ≠ id) = t.rows := by
    refine List.filter_eq_self.mpr fun row hrow ↦ ?_
    have hnot := List.any_eq_false.mp h row hrow
    simpa using hnot
  rw [Routers.deleteRouter, hfilter]

theorem deleteRouter_eq (id : Nat) : RoutersApi.deleteRouter t id =
    if (t.deleteRouter id).2 then .ok (t.deleteRouter id).1 else .error .gone := rfl

/-- The command catches every exception. -/
theorem cmdAddRouter_run (now name ip : Text) (description : Option Text) (disabled : Bool) :
    Cli.cmdAddRouter u now name ip description disabled (.idle t) =
      match t.addRouter u now name ip (description.getD []) !disabled with
      | .ok (t', _) => .ok 0 (.idle t')
      | .error _ => .ok 1 (.idle t) := by
  have hrun : MetadataStore.addRouter u now name ip (description.getD []) (!disabled) (.idle t) = _ :=
    MetadataStore.addRouter_run name ip (description.getD []) !disabled
  cases hadd : t.addRouter u now name ip (description.getD []) !disabled with
  | error e =>
      rw [hadd] at hrun
      exact Raising.tryCatch_error (Raising.bind_error hrun)
  | ok x =>
      rw [hadd] at hrun
      exact Raising.tryCatch_ok (Raising.bind_ok hrun)

/-- **A call on a connection** without an open transaction leaves the table of its execution, and the
table as it was if it does not succeed. -/
theorem run_idle (c : RouterCall) : c.run u (.idle t) = outcome t (c.execute u t) := by
  cases c with
  | addRouter payload now =>
      rw [run, MetadataStore.addRouter_run, succeeded_outcome, execute, RoutersApi.addRouter]
      cases t.addRouter u now payload.name payload.ipAddress payload.description payload.enabled <;>
        rfl
  | updateRouter id payload now =>
      rw [run, MetadataStore.getRouter, MetadataStore.select_idle, execute, RoutersApi.checkRouter]
      cases t.getRouter id with
      | none => rfl
      | some row =>
          show succeeded (MetadataStore.updateRouter u now id payload.fields (.idle t)) = _
          rw [MetadataStore.updateRouter_run, succeeded_outcome, RoutersApi.updateRouter]
          cases t.updateRouter u now id payload.fields <;> rfl
  | deleteRouter id =>
      rw [run, MetadataStore.deleteRouter_run, execute, deleteRouter_eq]
      show ((t.deleteRouter id).2, Connection.idle (t.deleteRouter id).1) = _
      cases h : (t.deleteRouter id).2 with
      | true => rfl
      | false =>
          rw [deleteRouter_of_not h]
          rfl
  | cmdAddRouter name ip description disabled now =>
      rw [run, cmdAddRouter_run, execute]
      cases t.addRouter u now name ip (description.getD []) !disabled <;> rfl

end run

end RouterCall

end LogServer
