import LogServer.Parser.Base

/-!
# The wire format of the queue

A row travels through the queue as a positional msgpack array.  The msgpack library is a
parameter, `Msgpack`: a packer for rows, which may raise, and an unpacker for arbitrary bytes,
which returns whatever value they spell.  `Msgpack.Lawful` is the one thing the program relies on:
that a packed row unpacks to the same row.  The format bounds what a row may have: integers of 64 bits,
and strings below a limit, which no datagram and no line of a router comes near.
-/

namespace LogServer

inductive PyValue where
  | none
  | bool (b : Bool)
  | int (n : Int)
  | float (bits : UInt64)
  | str (t : Text)
  | bytes (b : Bytes)
  | list (xs : List PyValue)
  | dict (items : List (PyValue × PyValue))
  | ext (code : Int) (data : Bytes)

def Cell.value : Cell → PyValue
  | .int n => .int n
  | .str t => .str t
  | .none => .none

/-- The msgpack library. -/
structure Msgpack where
  packb : List Cell → Except PyError Bytes
  unpackb : Bytes → Except PyError PyValue
  /-- A string of so many bytes is refused. -/
  limit : Nat

namespace Msgpack

variable (msgpack : Msgpack)

def Fits : Cell → Prop
  | .int n => n < 2 ^ 64
  | .str t => (encodeUtf8 t).length < msgpack.limit
  | .none => True

/-- **Packing is inverted by unpacking**, on rows of the length the program uses whose cells fit the
format. -/
structure Lawful : Prop where
  limit : 2 ^ 32 ≤ msgpack.limit
  unpackb_packb : ∀ row : List Cell, row.length = 11 → (∀ c ∈ row, msgpack.Fits c) →
    ∃ bs, msgpack.packb row = .ok bs ∧ msgpack.unpackb bs = .ok (.list (row.map Cell.value))

/-- A payload and a source whose row has no string that is refused: of one byte of a payload no more
than sixteen bytes are made. -/
structure Carries (payload : Bytes) (source : Text) : Prop where
  payload : 16 * payload.length < msgpack.limit
  source : 4 * source.length < msgpack.limit

variable {msgpack}

/-- No datagram and no line comes near the limit. -/
theorem Lawful.carries (h : msgpack.Lawful) {payload : Bytes} {source : Text}
    (hpayload : payload.length < 2 ^ 28) (hsource : source.length < 2 ^ 28) :
    msgpack.Carries payload source where
  payload := Nat.lt_of_lt_of_le (by omega) h.limit
  source := Nat.lt_of_lt_of_le (by omega) h.limit

end Msgpack

namespace LogQueue

variable (msgpack : Msgpack)

def encode (row : List Cell) : Except PyError Bytes := msgpack.packb row

def decode (payload : Bytes) : Option (List PyValue) :=
  match msgpack.unpackb payload with
  | .ok (.list row) => if row.length = 11 then some row else none
  | _ => none

variable {msgpack}

/-- A decoded entry has eleven fields. -/
theorem length_of_decode {payload : Bytes} {row : List PyValue}
    (h : decode msgpack payload = some row) : row.length = 11 := by
  unfold decode at h
  split at h
  · split at h
    · cases h
      assumption
    · cases h
  · cases h

/-- **An encoded row decodes to itself.** -/
theorem decode_encode (hlaw : msgpack.Lawful) {row : List Cell} (hlen : row.length = 11)
    (hfits : ∀ c ∈ row, msgpack.Fits c) :
    ∃ bs, encode msgpack row = .ok bs ∧ decode msgpack bs = some (row.map Cell.value) := by
  obtain ⟨bs, hpack, hunpack⟩ := hlaw.unpackb_packb row hlen hfits
  refine ⟨bs, hpack, ?_⟩
  rw [decode, hunpack]
  show (if (row.map Cell.value).length = 11 then _ else _) = _
  rw [List.length_map, if_pos hlen]

end LogQueue

end LogServer
