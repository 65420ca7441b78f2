import LogServer.Database.Meta

/-!
# Router management

The request models and handlers of the router endpoints, up to the point where they publish the
allow-list.  An error of the store becomes an HTTP answer and nothing is published.
-/

namespace LogServer

structure RouterIn where
  name : Text
  ipAddress : Text
  description : Text := []
  enabled : Bool := true
  name_length : 1 ≤ name.length ∧ name.length ≤ 64
  ipAddress_length : 7 ≤ ipAddress.length ∧ ipAddress.length ≤ 15
  description_length : description.length ≤ 256

structure RouterPatch where
  fields : Routers.Fields
  name_length : ∀ name, fields.name = some name → 1 ≤ name.length ∧ name.length ≤ 64
  ipAddress_length : ∀ ipAddress, fields.ipAddress = some ipAddress →
    7 ≤ ipAddress.length ∧ ipAddress.length ≤ 15
  description_length : ∀ description, fields.description = some description →
    description.length ≤ 256

structure HTTPException where
  status : Nat
  detail : Text
deriving DecidableEq, Repr

def HTTPException.ofError : PyError → HTTPException
  | .valueError message => ⟨400, message⟩
  | .integrityError => ⟨409, "A router with that name or IP address already exists.".toList⟩
  | .other => ⟨500, "Internal Server Error".toList⟩

def HTTPException.gone : HTTPException := ⟨404, "That router no longer exists.".toList⟩

namespace RoutersApi

variable (u : CharTable) (now : Text) (t : Routers)

/-- `add_router`, up to its publication. -/
def addRouter (payload : RouterIn) : Except HTTPException (Routers × Router) :=
  (t.addRouter u now payload.name payload.ipAddress payload.description payload.enabled).mapError
    .ofError

def checkRouter (id : Nat) : Except HTTPException Unit :=
  if (t.getRouter id).isNone then .error .gone else .ok ()

/-- `update_router` after its check, up to its publication. -/
def updateRouter (id : Nat) (payload : RouterPatch) :
    Except HTTPException (Routers × Option Router) :=
  (t.updateRouter u now id payload.fields).mapError .ofError

/-- `delete_router`, up to its publication. -/
def deleteRouter (id : Nat) : Except HTTPException Routers :=
  let (t, deleted) := t.deleteRouter id
  if deleted then .ok t else .error .gone

end RoutersApi

end LogServer
