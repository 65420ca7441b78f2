import LogServer.Queue.Wire

/-!
# Msgpack for rows

The part of the msgpack format that rows are written in: unsigned integers, UTF-8 strings, nil, and
arrays of fewer than sixteen of these, each in its shortest form.  Strings of `2 ^ 32` bytes and more are
refused.  `msgpackRows_lawful` is its round trip, so that the assumption about the library is one that an
implementation meets.
-/

namespace LogServer

namespace MsgpackRows

/-! ## Numbers -/

def bigEndian : Nat → Nat → Bytes
  | 0, _ => []
  | k + 1, n => bigEndian k (n / 256) ++ [UInt8.ofNat (n % 256)]

def ofBigEndian (bs : Bytes) : Nat := bs.foldl (fun n b ↦ 256 * n + b.toNat) 0

@[simp] theorem length_bigEndian (k n : Nat) : (bigEndian k n).length = k := by
  induction k generalizing n with
  | zero => rfl
  | succ k ih => rw [bigEndian, List.length_append, ih]; rfl

theorem ofBigEndian_bigEndian {k n : Nat} (h : n < 256 ^ k) :
    ofBigEndian (bigEndian k n) = n := by
  induction k generalizing n with
  | zero =>
      rw [Nat.pow_zero] at h
      show 0 = n
      omega
  | succ k ih =>
      have hdiv : n / 256 < 256 ^ k := by
        rw [Nat.pow_succ] at h
        omega
      have hlast : (UInt8.ofNat (n % 256)).toNat = n % 256 :=
        UInt8.toNat_ofNat_of_lt (Nat.mod_lt n (by decide))
      have hinit := ih hdiv
      rw [ofBigEndian] at hinit
      rw [bigEndian, ofBigEndian, List.foldl_append, hinit, List.foldl_cons, List.foldl_nil, hlast]
      omega

def readBigEndian {α : Type} (k : Nat) (bs : Bytes) (f : Nat → Bytes → Option α) : Option α :=
  if k ≤ bs.length then f (ofBigEndian (bs.take k)) (bs.drop k) else none

theorem readBigEndian_append {α : Type} {k n : Nat} (h : n < 256 ^ k) (rest : Bytes)
    (f : Nat → Bytes → Option α) : readBigEndian k (bigEndian k n ++ rest) f = f n rest := by
  have htake : (bigEndian k n ++ rest).take k = bigEndian k n :=
    List.take_left' (length_bigEndian k n)
  have hdrop : (bigEndian k n ++ rest).drop k = rest := List.drop_left' (length_bigEndian k n)
  rw [readBigEndian, if_pos (by simp), htake, hdrop, ofBigEndian_bigEndian h]

/-! ## Cells -/

/-- Strict UTF-8 decoding. -/
def ofUtf8 (bs : Bytes) : Option Text := bs.toByteArray.utf8Decode?.map Array.toList

theorem ofUtf8_encodeUtf8 (t : Text) : ofUtf8 (encodeUtf8 t) = some t := by
  have hencode : (encodeUtf8 t).toByteArray = t.utf8Encode := rfl
  rw [ofUtf8, hencode, List.utf8Decode?_utf8Encode]
  rfl

def packLength (n : Nat) : Bytes :=
  if n < 32 then [UInt8.ofNat (0xA0 + n)]
  else if n < 256 then 0xD9 :: bigEndian 1 n
  else if n < 65536 then 0xDA :: bigEndian 2 n
  else 0xDB :: bigEndian 4 n

/-- What can be packed; anything else raises. -/
def Packable : Cell → Prop
  | .none => True
  | .int n => n < 2 ^ 64
  | .str t => (encodeUtf8 t).length < 2 ^ 32

instance : DecidablePred Packable
  | .none => .isTrue trivial
  | .int n => inferInstanceAs (Decidable (n < 2 ^ 64))
  | .str t => inferInstanceAs (Decidable ((encodeUtf8 t).length < 2 ^ 32))

def packCell : Cell → Bytes
  | .none => [0xC0]
  | .int n =>
      if n < 128 then [UInt8.ofNat n]
      else if n < 256 then 0xCC :: bigEndian 1 n
      else if n < 65536 then 0xCD :: bigEndian 2 n
      else if n < 2 ^ 32 then 0xCE :: bigEndian 4 n
      else 0xCF :: bigEndian 8 n
  | .str t => packLength (encodeUtf8 t).length ++ encodeUtf8 t

def unpackStr (n : Nat) (bs : Bytes) : Option (PyValue × Bytes) :=
  if n ≤ bs.length then (ofUtf8 (bs.take n)).map fun t ↦ (.str t, bs.drop n) else none

def unpackInt (k : Nat) (bs : Bytes) : Option (PyValue × Bytes) :=
  readBigEndian k bs fun n rest ↦ some (.int n, rest)

def unpackCell : Bytes → Option (PyValue × Bytes)
  | [] => none
  | b :: bs =>
      if b.toNat < 128 then some (.int b.toNat, bs)
      else if b = 0xC0 then some (.none, bs)
      else if b = 0xCC then unpackInt 1 bs
      else if b = 0xCD then unpackInt 2 bs
      else if b = 0xCE then unpackInt 4 bs
      else if b = 0xCF then unpackInt 8 bs
      else if 0xA0 ≤ b.toNat ∧ b.toNat < 0xC0 then unpackStr (b.toNat - 0xA0) bs
      else if b = 0xD9 then readBigEndian 1 bs unpackStr
      else if b = 0xDA then readBigEndian 2 bs unpackStr
      else if b = 0xDB then readBigEndian 4 bs unpackStr
      else none

theorem unpackStr_encodeUtf8 (t : Text) (rest : Bytes) :
    unpackStr (encodeUtf8 t).length (encodeUtf8 t ++ rest) = some (.str t, rest) := by
  rw [unpackStr, if_pos (by simp), List.take_left, List.drop_left, ofUtf8_encodeUtf8]
  rfl

/-- The head of a string leads to its bytes. -/
theorem unpackCell_packLength {n : Nat} (hn : n < 2 ^ 32) (rest : Bytes) :
    unpackCell (packLength n ++ rest) = unpackStr n rest := by
  have hread : ∀ k, n < 256 ^ k →
      readBigEndian k (bigEndian k n ++ rest) unpackStr = unpackStr n rest := fun k hk ↦
    readBigEndian_append hk rest unpackStr
  unfold packLength
  split
  · rename_i h
    have hbyte : (UInt8.ofNat (0xA0 + n)).toNat = 0xA0 + n :=
      UInt8.toNat_ofNat_of_lt (show 0xA0 + n < 256 by omega)
    have hne : ∀ b : UInt8, 0xC0 ≤ b.toNat → UInt8.ofNat (0xA0 + n) ≠ b := by
      rintro b hb rfl
      omega
    show unpackCell (UInt8.ofNat (0xA0 + n) :: rest) = _
    rw [unpackCell, hbyte, if_neg (by omega), if_neg (hne _ (by decide)), if_neg (hne _ (by decide)),
      if_neg (hne _ (by decide)), if_neg (hne _ (by decide)), if_neg (hne _ (by decide)),
      if_pos (by omega), Nat.add_sub_cancel_left]
  · split
    · exact hread 1 (by omega)
    · split
      · exact hread 2 (by omega)
      · exact hread 4 (by omega)

/-- **A packed cell is read back**, whatever follows. -/
theorem unpackCell_packCell {c : Cell} (h : Packable c) (rest : Bytes) :
    unpackCell (packCell c ++ rest) = some (c.value, rest) := by
  cases c with
  | none => rfl
  | int n =>
      have hn : n < 2 ^ 64 := h
      have hread : ∀ k, n < 256 ^ k →
          unpackInt k (bigEndian k n ++ rest) = some (.int n, rest) := fun k hk ↦
        readBigEndian_append hk rest _
      rw [packCell]
      split
      · rename_i hlt
        have hbyte : (UInt8.ofNat n).toNat = n :=
          UInt8.toNat_ofNat_of_lt (show n < 256 by omega)
        show unpackCell (UInt8.ofNat n :: rest) = _
        rw [unpackCell, hbyte, if_pos hlt]
        rfl
      · split
        · exact hread 1 (by omega)
        · split
          · exact hread 2 (by omega)
          · split
            · exact hread 4 (by omega)
            · exact hread 8 (by omega)
  | str t =>
      show unpackCell ((packLength (encodeUtf8 t).length ++ encodeUtf8 t) ++ rest) = _
      rw [List.append_assoc, unpackCell_packLength h, unpackStr_encodeUtf8]
      rfl

/-! ## Rows -/

def packb (row : List Cell) : Except PyError Bytes :=
  if row.length < 16 ∧ ∀ c ∈ row, Packable c then
    .ok (UInt8.ofNat (0x90 + row.length) :: row.flatMap packCell)
  else .error .other

def unpackCells : Nat → Bytes → Option (List PyValue × Bytes)
  | 0, bs => some ([], bs)
  | n + 1, bs =>
      (unpackCell bs).bind fun x ↦ (unpackCells n x.2).map fun y ↦ (x.1 :: y.1, y.2)

def unpackb : Bytes → Except PyError PyValue
  | [] => .error .other
  | b :: bs =>
      if 0x90 ≤ b.toNat ∧ b.toNat < 0xA0 then
        match unpackCells (b.toNat - 0x90) bs with
        | some (row, []) => .ok (.list row)
        | _ => .error .other
      else .error .other

theorem unpackCells_flatMap {row : List Cell} (h : ∀ c ∈ row, Packable c) (rest : Bytes) :
    unpackCells row.length (row.flatMap packCell ++ rest) = some (row.map Cell.value, rest) := by
  induction row with
  | nil => rfl
  | cons c row ih =>
      obtain ⟨hc, hrow⟩ := List.forall_mem_cons.mp h
      have hhead := unpackCell_packCell hc (row.flatMap packCell ++ rest)
      have htail := ih hrow
      rw [List.length_cons, unpackCells, List.flatMap_cons, List.append_assoc, hhead]
      dsimp only [Option.bind_some]
      rw [htail]
      rfl

end MsgpackRows

/-- Msgpack as far as rows need it. -/
def msgpackRows : Msgpack where
  packb := MsgpackRows.packb
  unpackb := MsgpackRows.unpackb
  limit := 2 ^ 32

theorem msgpackRows_unpackb : msgpackRows.unpackb = MsgpackRows.unpackb := rfl

open MsgpackRows in
/-- **Rows survive packing.** -/
theorem msgpackRows_lawful : msgpackRows.Lawful := by
  refine ⟨Nat.le_refl _, fun row hlen hfits ↦ ?_⟩
  have hpackable : ∀ c ∈ row, Packable c := by
    intro c hc
    cases c with
    | none => exact trivial
    | int n => exact hfits _ hc
    | str t => exact hfits _ hc
  have hcells := unpackCells_flatMap hpackable []
  have hbyte : (UInt8.ofNat (0x90 + 11)).toNat = 0x90 + 11 := by decide
  have hpack : packb row = .ok (UInt8.ofNat (0x90 + 11) :: row.flatMap packCell) := by
    rw [packb, hlen, if_pos ⟨by decide, hpackable⟩]
  have hunpack : unpackb (UInt8.ofNat (0x90 + 11) :: row.flatMap packCell) =
      .ok (.list (row.map Cell.value)) := by
    rw [List.append_nil, hlen] at hcells
    rw [unpackb, hbyte, if_pos (by omega), Nat.add_sub_cancel_left, hcells]
  refine ⟨_, hpack, ?_⟩
  rw [msgpackRows_unpackb, hunpack]

end LogServer
