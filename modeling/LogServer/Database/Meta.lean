import LogServer.Ipv4

/-!
# The router table

The `routers` table of the metadata store, with the two columns that SQLite keeps unique, and the
operations of `MetadataStore` on it.  A statement that violates a constraint raises, and the
transaction is rolled back: it returns no table.

`normaliseIp` is the only way an address gets into the table.  Whatever it returns is the canonical
form of an IPv4 address.
-/

namespace LogServer

/-- A decimal octet of an address: at most three ASCII digits, without superfluous zeros. -/
def parseOctet (t : Text) : Option (Fin 256) :=
  if t ≠ [] ∧ t.all Char.isDigit ∧ t.length ≤ 3 ∧ (t = ['0'] ∨ t.head? ≠ some '0') then
    let n := Nat.ofDigitChars 10 t 0
    if h : n < 256 then some ⟨n, h⟩ else none
  else none

/-- `ipaddress.IPv4Address` of a text. -/
def ipv4Address (t : Text) : Option Ipv4 :=
  match t.splitOn '.' with
  | [a, b, c, d] => do
      let a ← parseOctet a
      let b ← parseOctet b
      let c ← parseOctet c
      let d ← parseOctet d
      return ⟨a, b, c, d⟩
  | _ => none

/-- Reject anything that is not a plain IPv4 host address.  A text that is no address at all is rejected
by `ipaddress.ip_address`, with a message of its own. -/
def normaliseIp (u : CharTable) (value : Text) : Except PyError Text :=
  match ipv4Address (strip u value) with
  | some addr => .ok addr.text
  | none =>
      if u.ipv6Address (strip u value) then
        .error (.valueError "only IPv4 router addresses are supported".toList)
      else .error (.valueError (u.repr (strip u value) ++
        " does not appear to be an IPv4 or IPv6 address".toList))

/-- **A normalised address is canonical.** -/
theorem isIpv4_of_normaliseIp {u : CharTable} {value ip : Text}
    (h : normaliseIp u value = .ok ip) : IsIpv4 ip := by
  unfold normaliseIp at h
  split at h
  · rename_i addr _
    cases h
    exact ⟨addr, rfl⟩
  · split at h <;> cases h

structure Router where
  id : Nat
  name : Text
  ipAddress : Text
  description : Text
  enabled : Bool
  createdAt : Text
  updatedAt : Text
deriving DecidableEq, Repr

/-- The table, with the last number `AUTOINCREMENT` gave out. -/
structure Routers where
  rows : List Router
  sequence : Nat
deriving DecidableEq, Repr

namespace Routers

variable (u : CharTable) (now : Text) (t : Routers)

/-- A row breaks a unique constraint if another row has its name or its address. -/
def Conflicts (router : Router) : Prop :=
  ∃ row ∈ t.rows, row.id ≠ router.id ∧ (row.name = router.name ∨ row.ipAddress = router.ipAddress)

instance (router : Router) : Decidable (t.Conflicts router) :=
  inferInstanceAs (Decidable (∃ row ∈ t.rows, _ ∧ _))

def enabledRouterIps : List Text :=
  (t.rows.filter fun row ↦ row.enabled).map fun row ↦ row.ipAddress

def getRouter (id : Nat) : Option Router := t.rows.find? fun row ↦ row.id = id

def addRouter (name ipAddress description : Text) (enabled : Bool) :
    Except PyError (Routers × Router) := do
  let ipAddress ← normaliseIp u ipAddress
  let router : Router :=
    ⟨t.sequence + 1, strip u name, ipAddress, strip u description, enabled, now, now⟩
  if t.Conflicts router then throw .integrityError
  return (⟨t.rows ++ [router], t.sequence + 1⟩, router)

/-- The columns an update sets. -/
structure Fields where
  name : Option Text := none
  ipAddress : Option Text := none
  description : Option Text := none
  enabled : Option Bool := none
deriving DecidableEq, Repr

/-- The row after `SET`. -/
def Fields.apply (fields : Fields) (row : Router) : Router :=
  { row with
    name := fields.name.getD row.name
    ipAddress := fields.ipAddress.getD row.ipAddress
    description := fields.description.getD row.description
    enabled := fields.enabled.getD row.enabled
    updatedAt := now }

def Fields.clean (fields : Fields) : Except PyError Fields := do
  let ipAddress ← fields.ipAddress.mapM (normaliseIp u)
  return { fields with
    name := fields.name.map (strip u)
    ipAddress
    description := fields.description.map (strip u) }

/-- `UPDATE` of the row with an id, if there is one. -/
def update (id : Nat) (f : Router → Router) : Except PyError Routers :=
  if ∃ row ∈ t.rows, row.id = id ∧ t.Conflicts (f row) then throw .integrityError
  else return { t with rows := t.rows.map fun row ↦ if row.id = id then f row else row }

def updateRouter (id : Nat) (fields : Fields) : Except PyError (Routers × Option Router) := do
  let fields ← fields.clean u
  if fields = {} then return (t, t.getRouter id)
  let t ← t.update id (fields.apply now)
  return (t, t.getRouter id)

/-- The table without the row, and whether there was one. -/
def deleteRouter (id : Nat) : Routers × Bool :=
  ({ t with rows := t.rows.filter fun row ↦ row.id ≠ id }, t.rows.any fun row ↦ row.id = id)

/-! ## The operations without their exceptions -/

section equations

variable {u now t}

/-- An addition whose address is one. -/
theorem addRouter_eq {name ipAddress description ip : Text} {enabled : Bool}
    (h : normaliseIp u ipAddress = .ok ip) :
    t.addRouter u now name ipAddress description enabled =
      if t.Conflicts ⟨t.sequence + 1, strip u name, ip, strip u description, enabled, now, now⟩ then
        .error .integrityError
      else
        .ok (⟨t.rows ++
            [⟨t.sequence + 1, strip u name, ip, strip u description, enabled, now, now⟩],
          t.sequence + 1⟩,
          ⟨t.sequence + 1, strip u name, ip, strip u description, enabled, now, now⟩) := by
  unfold addRouter
  rw [h]
  split
  · rename_i hc
    exact if_pos hc
  · rename_i hc
    exact if_neg hc

/-- An update whose address is one, if it has any. -/
theorem updateRouter_eq {id : Nat} {fields cleaned : Fields} (h : fields.clean u = .ok cleaned) :
    t.updateRouter u now id fields =
      if cleaned = {} then .ok (t, t.getRouter id)
      else (t.update id (cleaned.apply now)).map fun t ↦ (t, t.getRouter id) := by
  unfold updateRouter
  rw [h]
  split
  · rename_i hc
    exact if_pos hc
  · rename_i hc
    refine (if_neg hc).trans ?_
    cases t.update id (cleaned.apply now) <;> rfl

end equations

end Routers

end LogServer
