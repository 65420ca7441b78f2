import LogServer.Database.Meta
import LogServer.Lib.Raising

/-!
# Connections to the metadata store

The methods of `MetadataStore` on the router table as they run on a connection: statements change the
table that the transaction sees, `commit` makes the change permanent, and `connect` rolls the
transaction back when its body raises.

`Routers` has the same operations as functions from a table to a table, or to an exception.  Each method
does what its function says (`addRouter_run`, `updateRouter_run`, `deleteRouter_run`): a method that
raises leaves the connection as it was, with no transaction open.
-/

namespace LogServer

/-- The table that is stored, and the table that the transaction of the connection sees. -/
structure Connection where
  committed : Routers
  current : Routers
deriving DecidableEq

namespace Connection

def idle (t : Routers) : Connection := ⟨t, t⟩

end Connection

/-- A computation with a connection, which may raise. -/
abbrev Sqlite (α : Type) := EStateM PyError Connection α

namespace Sqlite

/-- A statement that changes the table, or violates a constraint. -/
def execute {α : Type} (statement : Routers → Except PyError (Routers × α)) : Sqlite α := fun conn ↦
  match statement conn.current with
  | .ok (t, a) => .ok a { conn with current := t }
  | .error e => .error e conn

def select {α : Type} (query : Routers → α) : Sqlite α := fun conn ↦ .ok (query conn.current) conn

def commit : Sqlite Unit := fun conn ↦ .ok () { conn with committed := conn.current }

def rollback : Sqlite Unit := fun conn ↦ .ok () { conn with current := conn.committed }

def connect {α : Type} (body : Sqlite α) : Sqlite α :=
  tryCatch body fun e ↦ do
    rollback
    throw e

end Sqlite

namespace MetadataStore

open Sqlite Raising

variable (u : CharTable) (now : Text)

/-- `INSERT INTO routers`, and `lastrowid`. -/
def insert (name ipAddress description : Text) (enabled : Bool) (t : Routers) :
    Except PyError (Routers × Nat) :=
  let router : Router := ⟨t.sequence + 1, name, ipAddress, description, enabled, now, now⟩
  if t.Conflicts router then .error .integrityError
  else .ok (⟨t.rows ++ [router], t.sequence + 1⟩, t.sequence + 1)

def getRouter (id : Nat) : Sqlite (Option Router) := connect (select (·.getRouter id))

def addRouter (name ipAddress description : Text) (enabled : Bool) :
    Sqlite (Option Router) := do
  let ipAddress ← ofExcept (normaliseIp u ipAddress)
  connect do
    let id ← execute (insert now (strip u name) ipAddress (strip u description) enabled)
    commit
    select (·.getRouter id)

def updateRouter (id : Nat) (fields : Routers.Fields) : Sqlite (Option Router) := do
  let fields ← ofExcept (fields.clean u)
  if fields = {} then getRouter id
  else
    connect do
      execute fun t ↦ (t.update id (fields.apply now)).map (·, ())
      commit
      return ()
    getRouter id

def deleteRouter (id : Nat) : Sqlite Bool :=
  connect do
    let deleted ← execute fun t ↦ .ok (t.deleteRouter id)
    commit
    return deleted

/-! ## What the methods do -/

section run

variable {u now} {t t' : Routers} {α : Type}

/-- The outcome of a method on a connection without an open transaction, by the outcome of the
function on the table. -/
def outcome (t : Routers) : Except PyError (Routers × α) → EStateM.Result PyError Connection α
  | .ok (t', a) => .ok a (.idle t')
  | .error e => .error e (.idle t)

theorem connect_ok {body : Sqlite α} {conn conn' : Connection} {a : α}
    (h : body conn = .ok a conn') : connect body conn = .ok a conn' := by
  rw [connect, tryCatch_ok h]

/-- What raises is rolled back. -/
theorem connect_error {body : Sqlite α} {conn conn' : Connection} {e : PyError}
    (h : body conn = .error e conn') :
    connect body conn = .error e { conn' with current := conn'.committed } := by
  rw [connect, tryCatch_error h]
  rfl

theorem select_idle (query : Routers → α) :
    connect (select query) (.idle t) = .ok (query t) (.idle t) := connect_ok rfl

/-- A transaction of one statement. -/
theorem transaction {statement : Routers → Except PyError (Routers × α)} {β : Type}
    {rest : α → Sqlite β} (b : Routers → α → β)
    (hrest : ∀ t a, rest a (.idle t) = .ok (b t a) (.idle t)) :
    connect (do
      let a ← execute statement
      commit
      rest a) (.idle t) = outcome t ((statement t).map fun x ↦ (x.1, b x.1 x.2)) := by
  cases h : statement t with
  | error e =>
      have hexecute : execute statement (.idle t) = .error e (.idle t) := by
        rw [execute, Connection.idle, h]
      rw [connect_error (bind_error hexecute)]
      rfl
  | ok x =>
      obtain ⟨t', a⟩ := x
      have hexecute : execute statement (.idle t) = .ok a { Connection.idle t with current := t' } := by
        rw [execute, Connection.idle, h]
      rw [connect_ok ((bind_ok hexecute).trans ((bind_ok rfl).trans (hrest t' a)))]
      rfl

/-- **`add_router`** inserts the row of the table's function and reads it back. -/
theorem addRouter_run (name ipAddress description : Text) (enabled : Bool) :
    addRouter u now name ipAddress description enabled (.idle t) =
      outcome t ((t.addRouter u now name ipAddress description enabled).map fun x ↦
        (x.1, x.1.getRouter (t.sequence + 1))) := by
  unfold addRouter
  cases h : normaliseIp u ipAddress with
  | error e =>
      unfold Routers.addRouter
      rw [h]
      rfl
  | ok ip =>
      refine (transaction (fun t id ↦ t.getRouter id) fun _ _ ↦ rfl).trans ?_
      rw [Routers.addRouter_eq h, insert]
      split <;> rfl

/-- **`update_router`** does what the table's function does. -/
theorem updateRouter_run (id : Nat) (fields : Routers.Fields) :
    updateRouter u now id fields (.idle t) = outcome t (t.updateRouter u now id fields) := by
  unfold updateRouter
  cases h : fields.clean u with
  | error e =>
      unfold Routers.updateRouter
      rw [h]
      rfl
  | ok cleaned =>
      rw [Routers.updateRouter_eq h]
      split
      · rename_i hempty
        refine Eq.trans ?_ (select_idle (·.getRouter id))
        exact congrFun (if_pos hempty) _
      · rename_i hne
        refine (congrFun (if_neg hne) _).trans ?_
        have hupdate : connect (do
            execute fun t ↦ (t.update id (cleaned.apply now)).map (·, ())
            commit
            return ()) (.idle t) =
              outcome t ((t.update id (cleaned.apply now)).map (·, ())) := by
          refine (transaction (fun _ _ ↦ ()) fun _ _ ↦ rfl).trans ?_
          cases t.update id (cleaned.apply now) <;> rfl
        cases hresult : t.update id (cleaned.apply now) with
        | error e =>
            rw [hresult] at hupdate
            exact bind_error hupdate
        | ok t' =>
            rw [hresult] at hupdate
            exact (bind_ok hupdate).trans (select_idle (·.getRouter id))

/-- **`delete_router`** does what the table's function does. -/
theorem deleteRouter_run (id : Nat) :
    deleteRouter id (.idle t) = outcome t (.ok (t.deleteRouter id)) :=
  transaction (fun _ deleted ↦ deleted) fun _ _ ↦ rfl

end run

end MetadataStore

end LogServer
