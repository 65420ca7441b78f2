import LogServer.Lib.Substring

/-!
# Python strings

The program's text functions consult the interpreter's Unicode tables: `\d` and `\s` of `re`, and
`int()`, `str.isdigit`, `str.strip` and `str.upper`.  These tables are a parameter, `CharTable`,
and so are two functions on texts whose results the program only passes on, `repr` and the grammar of
IPv6 addresses.  The laws it carries fix them on ASCII, and say that a decimal digit has a value below ten and an upper
case from one to three characters; nothing else is assumed, so what is proved holds for the tables of
every Unicode version.

`decodeUtf8` is `bytes.decode("utf-8", "replace")`: one replacement character for each maximal
part of an ill-formed sequence.
-/

namespace LogServer

/-- A Python `str`. -/
abbrev Text := List Char

-- Statements about the characters of a text are decided by going through the text, where the library
-- would go through all characters.
instance (p : Char → Prop) [DecidablePred p] (s : Text) : Decidable (∀ c ∈ s, p c) :=
  List.decidableBAll p s

instance decidableForallMem (p : Char → Prop) [DecidablePred p] (o : Option Char) :
    Decidable (∀ c ∈ o, p c) :=
  Option.decidableForallMem o

instance decidableExistsMem (p : Char → Prop) [DecidablePred p] (o : Option Char) :
    Decidable (∃ c ∈ o, p c) :=
  Option.decidableExistsMem o

-- One proof for all places where a text is looked up in a list.
instance lawfulBEqText : LawfulBEq Text := inferInstance

/-- A Python `bytes`. -/
abbrev Bytes := List UInt8

/-- An exception of the interpreter or of a library, as far as the program tells them apart. -/
inductive PyError where
  | valueError (message : Text)
  | integrityError
  | other
deriving DecidableEq, Repr

def asciiSpace (c : Char) : Bool := c.toNat ∈ [9, 10, 11, 12, 13, 28, 29, 30, 31, 32]

/-- The Unicode tables of the interpreter, and what its library says of texts by them. -/
structure CharTable where
  /-- The value of a decimal digit (general category `Nd`): `\d`, `int()`. -/
  decimal : Char → Option Nat
  /-- `str.isdigit` of one character. -/
  isDigit : Char → Bool
  /-- `\s`, and what `str.strip` removes. -/
  isSpace : Char → Bool
  /-- `\w`. -/
  isWord : Char → Bool
  /-- The full upper case mapping, possibly of several characters. -/
  upper : Char → Text
  /-- `repr` of a string, which escapes what is not printable. -/
  repr : Text → Text
  /-- Whether `ipaddress.IPv6Address` takes a text. -/
  ipv6Address : Text → Bool
  decimal_lt : ∀ c d, decimal c = some d → d < 10
  decimal_ascii : ∀ c, c.toNat < 128 →
    decimal c = if c.isDigit then some (c.toNat - 48) else none
  isDigit_ascii : ∀ c, c.toNat < 128 → isDigit c = c.isDigit
  isSpace_ascii : ∀ c, c.toNat < 128 → isSpace c = asciiSpace c
  isWord_ascii : ∀ c, c.toNat < 128 → isWord c = (c.isAlphanum || c == '_')
  upper_ascii : ∀ c, c.toNat < 128 → upper c = [c.toUpper]
  upper_ne_nil : ∀ c, upper c ≠ []
  length_upper : ∀ c, (upper c).length ≤ 3

namespace CharTable

/-- The tables of an interpreter that knows no character beyond ASCII, and no IPv6. -/
def ascii : CharTable where
  decimal c := if c.toNat < 128 ∧ c.isDigit then some (c.toNat - 48) else none
  isDigit c := c.isDigit
  isSpace c := asciiSpace c
  isWord c := c.isAlphanum || c == '_'
  upper c := [c.toUpper]
  repr t := ['\''] ++ t ++ ['\'']
  ipv6Address _ := false
  decimal_lt c d h := by
    split at h
    · rename_i hc
      have hd := hc.2
      simp only [Char.isDigit, Bool.and_eq_true, decide_eq_true_eq, ge_iff_le,
        UInt32.le_iff_toNat_le] at hd
      have : c.toNat ≤ 57 := hd.2
      cases h
      omega
    · cases h
  decimal_ascii c hc := by simp [hc]
  isDigit_ascii _ _ := rfl
  isSpace_ascii _ _ := rfl
  isWord_ascii _ _ := rfl
  upper_ascii _ _ := rfl
  upper_ne_nil _ := List.cons_ne_nil _ _
  length_upper _ := Nat.succ_le_succ (Nat.zero_le 2)

variable (u : CharTable)

/-- `\d`. -/
def isDecimal (c : Char) : Bool := (u.decimal c).isSome

theorem isDecimal_ascii {c : Char} (h : c.toNat < 128) : u.isDecimal c = c.isDigit := by
  rw [isDecimal, u.decimal_ascii c h]
  split <;> simp_all

theorem toNat_lt_of_isDigit {c : Char} (h : c.isDigit = true) : c.toNat < 128 := by
  simp only [Char.isDigit, Bool.and_eq_true, decide_eq_true_eq, ge_iff_le,
    UInt32.le_iff_toNat_le] at h
  have : c.toNat ≤ 57 := h.2
  omega

theorem isDecimal_of_isDigit {c : Char} (h : c.isDigit = true) : u.isDecimal c = true := by
  rw [u.isDecimal_ascii (toNat_lt_of_isDigit h), h]

theorem decimal_of_isDigit {c : Char} (h : c.isDigit = true) :
    u.decimal c = some (c.toNat - 48) := by
  rw [u.decimal_ascii c (toNat_lt_of_isDigit h), if_pos h]

end CharTable

section str

variable (u : CharTable)

def isdigit (t : Text) : Bool := !t.isEmpty && t.all u.isDigit

def upper (t : Text) : Text := t.flatMap u.upper

def strip (t : Text) : Text := ((t.dropWhile u.isSpace).reverse.dropWhile u.isSpace).reverse

/-- The number a run of decimal digits stands for. -/
def digitsValue (t : Text) : Nat := t.foldl (fun n c ↦ 10 * n + (u.decimal c).getD 0) 0

/-- `int` of a string, which may use the decimal digits of any script.  The white space, signs
and underscores `int` also takes do not occur in what the program passes to it. -/
def int (t : Text) : Except PyError Nat :=
  if t ≠ [] ∧ t.all u.isDecimal then .ok (digitsValue u t)
  else .error (.valueError ("invalid literal for int() with base 10: '".toList ++ t ++ ['\'']))

variable {u}

/-- A stripped text has nothing left to strip. -/
theorem strip_strip (t : Text) : strip u (strip u t) = strip u t := by
  have hstrip : ∀ s, strip u s = (s.dropWhile u.isSpace).rdropWhile u.isSpace := fun _ ↦ rfl
  have hself : (strip u t).dropWhile u.isSpace = strip u t := by
    rw [hstrip]
    obtain ⟨rest, hrest⟩ := List.rdropWhile_prefix u.isSpace (l := t.dropWhile u.isSpace)
    refine List.dropWhile_eq_self_iff.mpr fun hpos hblank ↦ ?_
    have hhead := List.head?_dropWhile_not u.isSpace t
    rw [← hrest, List.head?_append, List.head?_eq_getElem?, List.getElem?_eq_getElem hpos] at hhead
    exact Bool.false_ne_true (hhead.symm.trans hblank)
  rw [hstrip (strip u t), hself, hstrip, List.rdropWhile_idempotent]

/-- The blanks before a text are dropped. -/
theorem dropWhile_blanks {left t right : Text} (hleft : ∀ c ∈ left, u.isSpace c = true) (hne : t ≠ [])
    (ht : ∀ c ∈ t, u.isSpace c = false) :
    (left ++ (t ++ right)).dropWhile u.isSpace = t ++ right := by
  obtain ⟨c, t, rfl⟩ := List.exists_cons_of_ne_nil hne
  rw [List.dropWhile_append_of_pos hleft, List.cons_append, List.dropWhile_cons_of_neg]
  simp [ht c List.mem_cons_self]

/-- The blanks around a text are stripped. -/
theorem strip_blanks {left t right : Text} (hleft : ∀ c ∈ left, u.isSpace c = true) (hne : t ≠ [])
    (ht : ∀ c ∈ t, u.isSpace c = false) (hright : ∀ c ∈ right, u.isSpace c = true) :
    strip u (left ++ (t ++ right)) = t := by
  have hback : (right.reverse ++ (t.reverse ++ [])).dropWhile u.isSpace = t.reverse ++ [] :=
    dropWhile_blanks (by simpa using hright) (by simpa using hne) (by simpa using ht)
  rw [strip, dropWhile_blanks hleft hne ht, List.reverse_append, ← List.append_nil t.reverse, hback,
    List.append_nil, List.reverse_reverse]

theorem int_ok {t : Text} (hne : t ≠ []) (h : ∀ c ∈ t, u.isDecimal c = true) :
    int u t = .ok (digitsValue u t) := by
  rw [int, if_pos ⟨hne, List.all_eq_true.mpr h⟩]

/-- `int` undoes `str`. -/
theorem digitsValue_toDigits (n : Nat) : digitsValue u (Nat.toDigits 10 n) = n := by
  have hgen : ∀ (t : Text) (k : Nat), (∀ c ∈ t, c.isDigit = true) →
      t.foldl (fun n c ↦ 10 * n + (u.decimal c).getD 0) k = Nat.ofDigitChars 10 t k := by
    intro t
    induction t with
    | nil => intro k _; rfl
    | cons c t ih =>
        intro k h
        rw [List.forall_mem_cons] at h
        rw [List.foldl_cons, ih _ h.2, u.decimal_of_isDigit h.1]
        rfl
  rw [digitsValue, hgen _ _ fun c hc ↦ Nat.isDigit_of_mem_toDigits (by decide) (by decide) hc,
    Nat.ofDigitChars_ten_toDigits]

theorem int_toDigits (n : Nat) : int u (Nat.toDigits 10 n) = .ok n := by
  rw [int_ok Nat.toDigits_ne_nil fun c hc ↦
    u.isDecimal_of_isDigit (Nat.isDigit_of_mem_toDigits (by decide) (by decide) hc),
    digitsValue_toDigits]

/-- The digits of ASCII text. -/
theorem isdigit_ascii {t : Text} (hne : t ≠ []) (h : ∀ c ∈ t, c.toNat < 128) :
    isdigit u t = t.all Char.isDigit := by
  have hall : t.all u.isDigit = t.all Char.isDigit := by
    rw [Bool.eq_iff_iff, List.all_eq_true, List.all_eq_true]
    exact forall₂_congr fun c hc ↦ by rw [u.isDigit_ascii c (h c hc)]
  rw [isdigit, hall, List.isEmpty_eq_false_iff.mpr hne]
  rfl

/-- The case mapping of ASCII text. -/
theorem upper_ascii {t : Text} (h : ∀ c ∈ t, c.toNat < 128) :
    upper u t = t.map Char.toUpper := by
  induction t with
  | nil => rfl
  | cons c t ih =>
      rw [List.forall_mem_cons] at h
      rw [upper, List.flatMap_cons, u.upper_ascii c h.1, List.map_cons, ← ih h.2]
      rfl

theorem length_flatMap_le {α β : Type*} {f : α → List β} {n : Nat} (h : ∀ a, (f a).length ≤ n)
    (l : List α) : (l.flatMap f).length ≤ n * l.length := by
  induction l with
  | nil => exact Nat.zero_le _
  | cons a l ih =>
      rw [List.flatMap_cons, List.length_append, List.length_cons, Nat.mul_succ]
      have ha := h a
      omega

/-- An upper case is no shorter. -/
theorem length_le_length_upper (t : Text) : t.length ≤ (upper u t).length := by
  induction t with
  | nil => simp
  | cons c t ih =>
      have hpos := List.length_pos_iff.mpr (u.upper_ne_nil c)
      rw [upper, List.flatMap_cons, List.length_append, List.length_cons]
      rw [upper] at ih
      omega

theorem length_upper_le (t : Text) : (upper u t).length ≤ 3 * t.length :=
  length_flatMap_le u.length_upper t

end str

/-! ## UTF-8 -/

/-- `str.encode`. -/
def encodeUtf8 (t : Text) : Bytes := t.flatMap String.utf8EncodeChar

theorem length_encodeUtf8_le (t : Text) : (encodeUtf8 t).length ≤ 4 * t.length :=
  length_flatMap_le (fun c ↦ (String.length_utf8EncodeChar c).trans_le c.utf8Size_le_four) t

def replacement : Char := Char.ofNat 0xFFFD

/-- The bytes that may follow the lead byte `b` of a well-formed sequence. -/
def secondByte (b c : UInt8) : Bool :=
  if b = 0xE0 then 0xA0 ≤ c && c ≤ 0xBF
  else if b = 0xED then 0x80 ≤ c && c ≤ 0x9F
  else if b = 0xF0 then 0x90 ≤ c && c ≤ 0xBF
  else if b = 0xF4 then 0x80 ≤ c && c ≤ 0x8F
  else 0x80 ≤ c && c ≤ 0xBF

def continuation (c : UInt8) : Bool := 0x80 ≤ c && c ≤ 0xBF

/-- The number of bytes a lead byte announces, `0` for a byte that leads nothing. -/
def sequenceLength (b : UInt8) : Nat :=
  if b < 0x80 then 1
  else if 0xC2 ≤ b && b ≤ 0xDF then 2
  else if 0xE0 ≤ b && b ≤ 0xEF then 3
  else if 0xF0 ≤ b && b ≤ 0xF4 then 4
  else 0

/-- The character at the head of a byte string, and how many bytes it takes: a character, or the
replacement of the longest part that could have begun one. -/
def decodeHead (b : UInt8) (rest : Bytes) : Char × Nat :=
  match sequenceLength b, rest with
  | 1, _ => (Char.ofNat b.toNat, 1)
  | 2, c₁ :: _ =>
      if secondByte b c₁ then
        (Char.ofNat ((b.toNat - 0xC0) * 64 + (c₁.toNat - 0x80)), 2)
      else (replacement, 1)
  | 3, c₁ :: rest =>
      if secondByte b c₁ then
        match rest with
        | c₂ :: _ =>
            if continuation c₂ then
              (Char.ofNat ((b.toNat - 0xE0) * 4096 + (c₁.toNat - 0x80) * 64 + (c₂.toNat - 0x80)), 3)
            else (replacement, 2)
        | [] => (replacement, 2)
      else (replacement, 1)
  | 4, c₁ :: rest =>
      if secondByte b c₁ then
        match rest with
        | c₂ :: rest =>
            if continuation c₂ then
              match rest with
              | c₃ :: _ =>
                  if continuation c₃ then
                    (Char.ofNat ((b.toNat - 0xF0) * 262144 + (c₁.toNat - 0x80) * 4096 +
                      (c₂.toNat - 0x80) * 64 + (c₃.toNat - 0x80)), 4)
                  else (replacement, 3)
              | [] => (replacement, 3)
            else (replacement, 2)
        | [] => (replacement, 2)
      else (replacement, 1)
  | _, _ => (replacement, 1)

/-- Decoding with a bound on the number of characters. -/
def decodeUtf8Aux : Nat → Bytes → Text
  | 0, _ | _, [] => []
  | n + 1, b :: rest =>
      (decodeHead b rest).1 :: decodeUtf8Aux n ((b :: rest).drop (decodeHead b rest).2)

/-- `bytes.decode("utf-8", "replace")`. -/
def decodeUtf8 (bs : Bytes) : Text := decodeUtf8Aux bs.length bs

/-- A character is made of one byte at least. -/
theorem length_decodeUtf8_le (bs : Bytes) : (decodeUtf8 bs).length ≤ bs.length := by
  have haux : ∀ n bs, (decodeUtf8Aux n bs).length ≤ n := by
    intro n
    induction n with
    | zero => exact fun _ ↦ Nat.le_refl _
    | succ n ih =>
        intro bs
        cases bs with
        | nil => exact Nat.zero_le _
        | cons b rest => exact Nat.succ_le_succ (ih _)
  exact haux _ _

/-- A byte of ASCII is a character of its own. -/
theorem decodeUtf8_cons {b : UInt8} {rest : Bytes} (h : b < 0x80) :
    decodeUtf8 (b :: rest) = Char.ofNat b.toNat :: decodeUtf8 rest := by
  have hlength : sequenceLength b = 1 := if_pos h
  have hhead : decodeHead b rest = (Char.ofNat b.toNat, 1) := by
    simp only [decodeHead, hlength]
  rw [decodeUtf8, List.length_cons, decodeUtf8Aux, hhead]
  rfl

example : decodeUtf8 [0x4E, 0xC3, 0xA9, 0xE2, 0x82, 0x28, 0xFF] =
    ['N', 'é', replacement, '(', replacement] := by decide

end LogServer
