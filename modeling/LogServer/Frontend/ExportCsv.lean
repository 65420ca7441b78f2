import LogServer.Lib.Csv

/-!
# The export of a search

The operator console writes the rows of the last search into a file of comma separated values.  What
would be taken for a formula when the file is opened is preceded by an apostrophe.

`exportCsv_reads_back`: whatever the rows are, the file has a reading, which is the header and a record
for each row, and no cell of a row begins like a formula.  What a cell must be (`IsCell`) is said of the
value alone, in code units.
-/

namespace LogServer

namespace Console

/-- A string of the browser: UTF-16 code units, which need not be well formed. -/
abbrev JsString := List UInt16

def js (literal : String) : JsString := literal.toList.map fun c ↦ c.toNat.toUInt16

inductive Value (Number : Type) where
  | undefined
  | null
  | string (s : JsString)
  | number (n : Number)

abbrev Row (Number : Type) := JsString → Value Number

inductive Outcome where
  | flash (message : JsString)
  | download (content : JsString)
deriving DecidableEq

def cols : List JsString :=
  [js "timestamp", js "subscriber_id", js "private_ip", js "private_port", js "public_ip",
    js "public_port", js "dest_ip", js "dest_port", js "protocol", js "router_ip",
    js "session_start_time", js "session_end_time"]

/-- `/^[=+\-@\t\r]/` -/
def isFormula (s : JsString) : Bool := s.head?.any (· ∈ js "=+-@\t\r")

def safe (s : JsString) : JsString := if isFormula s then js "'" ++ s else s

section exporting

-- How numbers are written is left open.
variable {Number : Type} (toString : Number → JsString)

def text : Value Number → JsString
  | .undefined | .null => []
  | .string s => s
  | .number n => toString n

def escape (v : Value Number) : JsString :=
  let quotes := (safe (text toString v)).flatMap fun c ↦ if c = 34 then js "\"\"" else [c]
  js "\"" ++ quotes ++ js "\""

def lines (lastRows : List (Row Number)) : List JsString :=
  (js ",").intercalate cols ::
    lastRows.map fun r ↦ (js ",").intercalate (cols.map fun c ↦ escape toString (r c))

def exportCsv (lastRows : List (Row Number)) : Outcome :=
  if lastRows.isEmpty then .flash (js "Run a search before exporting.")
  else .download ((js "\r\n").intercalate (lines toString lastRows))

/-! ## What an export should be -/

def header : List JsString :=
  ["timestamp", "subscriber_id", "private_ip", "private_port", "public_ip", "public_port", "dest_ip",
    "dest_port", "protocol", "router_ip", "session_start_time", "session_end_time"].map fun name ↦
      name.toList.map fun c ↦ c.toNat.toUInt16

/-- `=`, `+`, `-`, `@`, tab and carriage return. -/
def formulaStarts : List UInt16 := [0x3D, 0x2B, 0x2D, 0x40, 0x09, 0x0D]

/-- A text, behind an apostrophe exactly if it begins like a formula. -/
def Guarded (s cell : JsString) : Prop :=
  ((∃ c ∈ s.head?, c ∈ formulaStarts) → cell = 0x27 :: s) ∧
    ((∀ c ∈ s.head?, c ∉ formulaStarts) → cell = s)

/-- **The cell of a value**: a string as it is, a number as it is written, and nothing for no value. -/
def IsCell : Value Number → JsString → Prop
  | .undefined, cell | .null, cell => cell = []
  | .string s, cell => Guarded s cell
  | .number n, cell => Guarded (toString n) cell

/-! ## Reading an export back -/

def rfc4180 : Csv.Symbols UInt16 := ⟨34, 44, 13, 10, by decide⟩

theorem js_symbols : js "\"" = [rfc4180.quote] ∧ js "," = [rfc4180.comma] ∧
    js "\r\n" = [rfc4180.cr, rfc4180.lf] ∧ js "\"\"" = [rfc4180.quote, rfc4180.quote] := by
  decide

/-- A value is written as a field. -/
theorem field_escape (v : Value Number) :
    Csv.Field rfc4180 (escape toString v) (safe (text toString v)) := by
  obtain ⟨hquote, -, -, htwo⟩ := js_symbols
  rw [escape, hquote, htwo]
  exact .escaped _

/-- The columns are written as a record. -/
theorem record_cols : Csv.Record rfc4180 ((js ",").intercalate cols) cols := by
  have hplain : cols.all (·.all (· ∉ [34, 44, 13, 10])) = true := by decide
  rw [js_symbols.2.1]
  refine .intercalate (List.forall₂_same.mpr fun col hcol ↦ .nonEscaped fun c hc ↦ ?_)
    (List.cons_ne_nil _ _)
  have hdata : c ∉ [34, 44, 13, 10] :=
    of_decide_eq_true (List.all_eq_true.mp (List.all_eq_true.mp hplain col hcol) c hc)
  exact hdata

/-- A row is written as a record. -/
theorem record_row (r : Row Number) :
    Csv.Record rfc4180 ((js ",").intercalate (cols.map fun c ↦ escape toString (r c)))
      (cols.map fun c ↦ safe (text toString (r c))) := by
  rw [js_symbols.2.1]
  refine .intercalate ?_ (List.cons_ne_nil _ _)
  rw [List.forall₂_map_left_iff, List.forall₂_map_right_iff, List.forall₂_same]
  exact fun c _ ↦ field_escape toString (r c)

/-- **The lines of an export** are read as the header and a record for each row. -/
theorem parse_lines (lastRows : List (Row Number)) :
    Csv.parse rfc4180 ((js "\r\n").intercalate (lines toString lastRows)) =
      some (cols :: lastRows.map fun r ↦ cols.map fun c ↦ safe (text toString (r c))) := by
  have hrecords : List.Forall₂ (Csv.Record rfc4180) (lines toString lastRows)
      (cols :: lastRows.map fun r ↦ cols.map fun c ↦ safe (text toString (r c))) := by
    refine .cons record_cols ?_
    rw [List.forall₂_map_left_iff, List.forall₂_map_right_iff, List.forall₂_same]
    exact fun r _ ↦ record_row toString r
  rw [Csv.parse_eq_some_iff, js_symbols.2.2.1]
  refine .intercalate hrecords (List.cons_ne_nil _ _) (List.forall_mem_cons.mpr ⟨by decide, ?_⟩)
  rintro record hrecord hempty
  obtain ⟨r, -, rfl⟩ := List.mem_map.mp hrecord
  have hlength := congrArg List.length hempty
  rw [List.length_map] at hlength
  cases hlength

/-- A text that begins like a formula is told by its first code unit. -/
theorem isFormula_iff (s : JsString) : isFormula s = true ↔ ∃ c ∈ s.head?, c ∈ formulaStarts := by
  have hstarts : js "=+-@\t\r" = formulaStarts := by decide
  rw [isFormula, hstarts, Option.any_eq_true]
  simp only [decide_eq_true_eq, Option.mem_def]

/-- What is safe is no formula. -/
theorem isFormula_safe (s : JsString) : isFormula (safe s) = false := by
  rw [safe]
  split
  · rfl
  · rename_i h
    exact Bool.eq_false_iff.mpr h

theorem guarded_safe (s : JsString) : Guarded s (safe s) := by
  have hquote : js "'" = [0x27] := by decide
  refine ⟨fun h ↦ ?_, fun h ↦ ?_⟩
  · rw [safe, if_pos ((isFormula_iff s).mpr h), hquote]
    rfl
  · refine if_neg fun hformula ↦ ?_
    obtain ⟨c, hc, hstart⟩ := (isFormula_iff s).mp hformula
    exact h c hc hstart

theorem isCell_safe (v : Value Number) : IsCell toString v (safe (text toString v)) := by
  cases v with
  | undefined => rfl
  | null => rfl
  | string s => exact guarded_safe s
  | number n => exact guarded_safe (toString n)

/-- **An export reads back**: as the header, and a record for each row with the cell of each column.  No
cell begins like a formula. -/
theorem exportCsv_reads_back (lastRows : List (Row Number)) :
    match exportCsv toString lastRows with
    | .flash _ => lastRows = []
    | .download content => ∃ records, Csv.parse rfc4180 content = some (header :: records) ∧
        List.Forall₂ (fun r record ↦ record.length = 12 ∧
          List.Forall₂ (fun c cell ↦ IsCell toString (r c) cell) header record) lastRows records ∧
        ∀ record ∈ records, ∀ cell ∈ record, ∀ c ∈ cell.head?, c ∉ formulaStarts := by
  have hheader : header = cols := by decide
  rw [exportCsv, hheader]
  cases hempty : lastRows.isEmpty with
  | true => exact List.isEmpty_iff.mp hempty
  | false =>
      refine ⟨_, parse_lines toString lastRows, ?_, ?_⟩
      · rw [List.forall₂_map_right_iff, List.forall₂_same]
        refine fun r _ ↦ ⟨List.length_map _, ?_⟩
        rw [List.forall₂_map_right_iff, List.forall₂_same]
        exact fun c _ ↦ isCell_safe toString (r c)
      · rintro record hrecord cell hcell c hc hstart
        obtain ⟨r, -, rfl⟩ := List.mem_map.mp hrecord
        obtain ⟨col, -, rfl⟩ := List.mem_map.mp hcell
        have hformula := (isFormula_iff _).mpr ⟨c, hc, hstart⟩
        rw [isFormula_safe] at hformula
        cases hformula

/-- The text `=1,"` in every column of a row. -/
theorem exportCsv_reads_back_sample : ∃ content record,
    exportCsv (fun n : Nat ↦ js (Nat.repr n)) [fun _ ↦ .string [0x3D, 0x31, 0x2C, 0x22]] =
      .download content ∧
    Csv.parse rfc4180 content = some [header, record] ∧
    record[1]? = some [0x27, 0x3D, 0x31, 0x2C, 0x22] := by
  have h := exportCsv_reads_back (fun n : Nat ↦ js (Nat.repr n))
    [fun _ ↦ .string [0x3D, 0x31, 0x2C, 0x22]]
  obtain ⟨records, hparse, hrecords, -⟩ := h
  obtain ⟨record, rest, ⟨-, hcells⟩, hrest, rfl⟩ := List.forall₂_cons_left_iff.mp hrecords
  rw [List.forall₂_nil_left_iff.mp hrest] at hparse
  refine ⟨_, record, rfl, hparse, ?_⟩
  obtain ⟨first, cells, -, hothers, rfl⟩ := List.forall₂_cons_left_iff.mp hcells
  obtain ⟨second, others, hsecond, -, rfl⟩ := List.forall₂_cons_left_iff.mp hothers
  exact congrArg some (hsecond.1 ⟨_, rfl, by decide⟩)

end exporting

end Console

end LogServer
