import LogServer.Queue.Wire

/-!
# The log table

The columns an insert names, with the types the schema gives them, and which Python values each
type accepts.  `Insertable` says this of a whole row, matched with the columns by position.
-/

namespace LogServer

/-- The column types of the log table that an insert writes. -/
inductive ColumnType where
  | dateTime
  | ipv4
  | uint16
  | string
  | nullableDateTime
deriving DecidableEq, Repr

def COLUMNS : List Text :=
  ["timestamp".toList, "router_ip".toList, "subscriber_id".toList, "private_ip".toList,
    "private_port".toList, "public_ip".toList, "public_port".toList, "dest_ip".toList,
    "dest_port".toList, "protocol".toList, "session_end_time".toList]

def schema : List (Text × ColumnType) :=
  [("timestamp".toList, .dateTime), ("router_ip".toList, .ipv4), ("subscriber_id".toList, .string),
    ("private_ip".toList, .ipv4), ("private_port".toList, .uint16), ("public_ip".toList, .ipv4),
    ("public_port".toList, .uint16), ("dest_ip".toList, .ipv4), ("dest_port".toList, .uint16),
    ("protocol".toList, .string), ("session_end_time".toList, .nullableDateTime)]

/-- An insert names the columns in the order of the schema. -/
theorem schema_columns : schema.map Prod.fst = COLUMNS := rfl

/-- Python's `datetime`: made from a number, and converted back. -/
structure Clock (δ : Type) where
  fromtimestamp : PyValue → Except PyError δ
  timestamp : δ → Int

/-- **`fromtimestamp` is inverted by `timestamp`** on the seconds a `DateTime` column can hold. -/
def Clock.Lawful {δ : Type} (clock : Clock δ) : Prop :=
  ∀ n : Nat, n < 2 ^ 32 → ∃ d, clock.fromtimestamp (.int n) = .ok d ∧ clock.timestamp d = n

/-- Times as epoch seconds. -/
def Clock.seconds : Clock Int where
  fromtimestamp
    | .int n => .ok n
    | _ => .error .other
  timestamp := id

theorem Clock.seconds_lawful : Clock.seconds.Lawful := fun n _ ↦ ⟨n, rfl, rfl⟩

inductive Field (δ : Type) where
  | datetime (d : δ)
  | value (v : PyValue)

variable {δ : Type}

inductive ColumnType.Accepts (clock : Clock δ) : ColumnType → Field δ → Prop
  | dateTime {d : δ} : 0 ≤ clock.timestamp d → clock.timestamp d < 2 ^ 32 →
      Accepts clock .dateTime (.datetime d)
  | ipv4 {t : Text} : IsIpv4 t → Accepts clock .ipv4 (.value (.str t))
  | uint16 {n : Int} : 0 ≤ n → n < 2 ^ 16 → Accepts clock .uint16 (.value (.int n))
  | string {t : Text} : Accepts clock .string (.value (.str t))
  | null : Accepts clock .nullableDateTime (.value .none)

def Insertable (clock : Clock δ) (row : List (Field δ)) : Prop :=
  List.Forall₂ (fun column field ↦ ColumnType.Accepts clock column.2 field) schema row

end LogServer
