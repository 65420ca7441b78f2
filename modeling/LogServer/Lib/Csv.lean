import Mathlib.Data.List.Basic
import Mathlib.Data.List.Forall2

/-!
# Comma separated values

The grammar of RFC 4180 over any alphabet: every symbol but the quote, the comma and the two of a line
break is text data.  Where a text ends with a line break the grammar can be read in two ways; here the
line break ends the last record, and is not followed by an empty one.

`parse_eq_some_iff`: a text has a reading exactly if the parser reads it, and it is the only one.
-/

namespace LogServer

namespace Csv

structure Symbols (α : Type) where
  quote : α
  comma : α
  cr : α
  lf : α
  nodup : [quote, comma, cr, lf].Nodup

variable {α : Type}

theorem Symbols.ne (d : Symbols α) : d.comma ≠ d.quote ∧ d.cr ≠ d.quote ∧ d.cr ≠ d.comma ∧
    d.quote ≠ d.comma ∧ d.quote ≠ d.cr := by
  have h := d.nodup
  simp only [List.nodup_cons, List.mem_cons, not_or, ← ne_eq] at h
  exact ⟨h.1.1.symm, h.1.2.1.symm, h.2.1.1.symm, h.1.1, h.1.2.1⟩

theorem Symbols.lf_ne (d : Symbols α) : d.lf ≠ d.comma ∧ d.lf ≠ d.cr ∧ d.lf ≠ d.quote := by
  have h := d.nodup
  simp only [List.nodup_cons, List.mem_cons, not_or, ← ne_eq] at h
  exact ⟨h.2.1.2.1.symm, h.2.2.1.1.symm, h.1.2.2.1.symm⟩

variable [DecidableEq α] (d : Symbols α)

/-! ## The grammar -/

/-- A symbol without a meaning. -/
def TextData (c : α) : Prop := c ∉ [d.quote, d.comma, d.cr, d.lf]

omit [DecidableEq α] in
/-- A symbol ends a field, is a quote or a line feed, or is text data. -/
theorem Symbols.cases (d : Symbols α) (c : α) :
    (c = d.comma ∨ c = d.cr) ∨ c = d.quote ∨ c = d.lf ∨ TextData d c := by
  simp only [TextData, List.mem_cons, List.not_mem_nil, or_false]
  tauto

def double (f : List α) : List α := f.flatMap fun c ↦ if c = d.quote then [d.quote, d.quote] else [c]

def escaped (f : List α) : List α := d.quote :: (double d f ++ [d.quote])

inductive Field : List α → List α → Prop
  | nonEscaped {f : List α} (h : ∀ c ∈ f, TextData d c) : Field f f
  | escaped (f : List α) : Field (escaped d f) f

inductive Record : List α → List (List α) → Prop
  | field {s f : List α} (h : Field d s f) : Record s [f]
  | comma {s f t : List α} {r : List (List α)} (h : Field d s f) (hr : Record t r) :
      Record (s ++ d.comma :: t) (f :: r)

/-- The text of a file: one record or more, the last of which may have a line break. -/
inductive File : List α → List (List (List α)) → Prop
  | record {s : List α} {r : List (List α)} (h : Record d s r) : File s [r]
  | lineBreak {s : List α} {r : List (List α)} (h : Record d s r) : File (s ++ [d.cr, d.lf]) [r]
  | crlf {s t : List α} {r : List (List α)} {rs : List (List (List α))} (h : Record d s r)
      (hrs : File t rs) (hne : t ≠ []) : File (s ++ d.cr :: d.lf :: t) (r :: rs)

section grammar

variable {d}

theorem double_cons_quote {f : List α} :
    double d (d.quote :: f) = d.quote :: d.quote :: double d f := by
  rw [double, List.flatMap_cons, if_pos rfl]
  rfl

theorem double_cons_of_ne {c : α} {f : List α} (hc : c ≠ d.quote) :
    double d (c :: f) = c :: double d f := by
  rw [double, List.flatMap_cons, if_neg hc]
  rfl

/-- Fields that are joined by commas. -/
theorem Record.intercalate {texts r : List (List α)} (h : List.Forall₂ (Field d) texts r)
    (hne : r ≠ []) : Record d ([d.comma].intercalate texts) r := by
  induction h with
  | nil => exact absurd rfl hne
  | @cons s f texts r hfield hfields ih =>
      cases hfields with
      | nil =>
          rw [List.intercalate_singleton]
          exact .field hfield
      | cons hnext hothers =>
          rw [List.intercalate_cons_cons, List.append_assoc]
          exact .comma hfield (ih (List.cons_ne_nil _ _))

/-- The text of a record is empty only if the record is an empty field. -/
theorem Record.ne_nil {s : List α} {r : List (List α)} (h : Record d s r) (hr : r ≠ [[]]) :
    s ≠ [] := by
  rintro rfl
  generalize hnil : ([] : List α) = s at h
  cases h with
  | field h =>
      cases h with
      | nonEscaped => exact hr (by rw [← hnil])
      | escaped => exact List.cons_ne_nil _ _ hnil.symm
  | comma => exact List.append_ne_nil_of_right_ne_nil _ (List.cons_ne_nil _ _) hnil.symm

/-- Records that are joined by line breaks. -/
theorem File.intercalate {texts : List (List α)} {rs : List (List (List α))}
    (h : List.Forall₂ (Record d) texts rs) (hne : rs ≠ []) (hfull : ∀ r ∈ rs, r ≠ [[]]) :
    File d ([d.cr, d.lf].intercalate texts) rs := by
  induction h with
  | nil => exact absurd rfl hne
  | @cons s r texts rs hrecord hrecords ih =>
      rw [List.forall_mem_cons] at hfull
      cases hrecords with
      | nil =>
          rw [List.intercalate_singleton]
          exact .record hrecord
      | @cons t r' texts rs hnext hothers =>
          rw [List.intercalate_cons_cons, List.append_assoc]
          refine .crlf hrecord (ih (List.cons_ne_nil _ _) hfull.2) ?_
          have ht : t ≠ [] := hnext.ne_nil (hfull.2 r' List.mem_cons_self)
          cases texts with
          | nil => rwa [List.intercalate_singleton]
          | cons t' texts =>
              rw [List.intercalate_cons_cons, List.append_assoc]
              exact List.append_ne_nil_of_left_ne_nil ht _

end grammar

/-! ## The parser -/

/-- Where the parser stands: before a field, in one, behind its closing quote, or in a line break. -/
inductive Mode where
  | start
  | nonEscaped
  | escaped
  | closed
  | cr
deriving DecidableEq

/-- What a text is read as: the rest of a field, the fields of its record that follow, and the records
that follow. -/
structure Parts (α : Type) where
  field : List α
  record : List (List α)
  file : List (List (List α))

namespace Parts

def nil : Parts α := ⟨[], [], []⟩

def text (f : List α) (p : Parts α) : Parts α := { p with field := f ++ p.field }

def comma (p : Parts α) : Parts α := ⟨[], p.field :: p.record, p.file⟩

def crlf (p : Parts α) : Parts α := ⟨[], [], (p.field :: p.record) :: p.file⟩

def records (p : Parts α) : List (List (List α)) := (p.field :: p.record) :: p.file

end Parts

def read : Mode → List α → Option (Parts α)
  | .escaped, [] | .cr, [] => none
  | _, [] => some .nil
  | .escaped, c :: s =>
      if c = d.quote then read .closed s else (read .escaped s).map (.text [c])
  | .cr, c :: s =>
      if c ≠ d.lf then none else if s = [] then some .nil else (read .start s).map .crlf
  | mode, c :: s =>
      if c = d.comma then (read .start s).map .comma
      else if c = d.cr then read .cr s
      else if c = d.quote then
        match mode with
        | .start => read .escaped s
        | .closed => (read .escaped s).map (.text [c])
        | _ => none
      else if c = d.lf ∨ mode = .closed then none
      else (read .nonEscaped s).map (.text [c])

def parse (s : List α) : Option (List (List (List α))) := (read d .start s).map Parts.records

section parser

variable {d}

def Mode.Ends : Mode → Prop
  | .start | .nonEscaped | .closed => True
  | .escaped | .cr => False

theorem Mode.ends_start : Mode.start.Ends := trivial
theorem Mode.ends_nonEscaped : Mode.nonEscaped.Ends := trivial
theorem Mode.ends_closed : Mode.closed.Ends := trivial

/-- What can follow a field. -/
def Follows (d : Symbols α) (t : List α) : Prop := ∀ c ∈ t.head?, c = d.comma ∨ c = d.cr

section steps

variable {mode : Mode} {c : α} {s t f : List α}

theorem read_nil (h : mode.Ends) : read d mode [] = some .nil := by
  cases mode <;> first | rfl | exact h.elim

theorem read_comma (h : mode.Ends) : read d mode (d.comma :: s) = (read d .start s).map .comma := by
  cases mode <;> first | exact if_pos rfl | exact h.elim

theorem read_cr (h : mode.Ends) : read d mode (d.cr :: s) = read d .cr s := by
  cases mode <;> first | exact (if_neg d.ne.2.2.1).trans (if_pos rfl) | exact h.elim

theorem read_lf : read d .cr (d.lf :: s) =
    if s = [] then some .nil else (read d .start s).map .crlf := if_neg (not_not.mpr rfl)

theorem read_quote : read d .start (d.quote :: s) = read d .escaped s :=
  (if_neg d.ne.2.2.2.1).trans ((if_neg d.ne.2.2.2.2).trans (if_pos rfl))

theorem read_quote_closed :
    read d .closed (d.quote :: s) = (read d .escaped s).map (.text [d.quote]) :=
  (if_neg d.ne.2.2.2.1).trans ((if_neg d.ne.2.2.2.2).trans (if_pos rfl))

theorem read_quote_nonEscaped : read d .nonEscaped (d.quote :: s) = none :=
  (if_neg d.ne.2.2.2.1).trans ((if_neg d.ne.2.2.2.2).trans (if_pos rfl))

theorem read_textData (h : TextData d c) (hmode : mode = .start ∨ mode = .nonEscaped) :
    read d mode (c :: s) = (read d .nonEscaped s).map (.text [c]) := by
  simp only [TextData, List.mem_cons, not_or] at h
  have hlf : ¬(c = d.lf ∨ mode = .closed) := by
    rintro (rfl | rfl)
    · exact h.2.2.2.1 rfl
    · rcases hmode with h | h <;> cases h
  rcases hmode with rfl | rfl
  · exact (if_neg h.2.1).trans ((if_neg h.2.2.1).trans ((if_neg h.1).trans (if_neg hlf)))
  · exact (if_neg h.2.1).trans ((if_neg h.2.2.1).trans ((if_neg h.1).trans (if_neg hlf)))

theorem read_textData_closed (h : TextData d c) : read d .closed (c :: s) = none := by
  simp only [TextData, List.mem_cons, not_or] at h
  exact (if_neg h.2.1).trans ((if_neg h.2.2.1).trans ((if_neg h.1).trans (if_pos (.inr rfl))))

/-- A line feed stands only in a line break. -/
theorem read_lf_of_ends (h : mode.Ends) : read d mode (d.lf :: s) = none := by
  cases mode with
  | start | nonEscaped | closed =>
      exact (if_neg d.lf_ne.1).trans
        ((if_neg d.lf_ne.2.1).trans ((if_neg d.lf_ne.2.2).trans (if_pos (.inl rfl))))
  | escaped | cr => exact h.elim

/-- Behind a field it does not matter how the field was written. -/
theorem read_follows (h : Follows d t) (hmode : mode.Ends) : read d mode t = read d .closed t := by
  cases t with
  | nil => rw [read_nil hmode, read_nil Mode.ends_closed]
  | cons c t =>
      rcases h c rfl with rfl | rfl
      · rw [read_comma hmode, read_comma Mode.ends_closed]
      · rw [read_cr hmode, read_cr Mode.ends_closed]

omit [DecidableEq α] in
theorem map_text (x : Option (Parts α)) :
    (x.map (Parts.text f)).map (Parts.text [c]) = x.map (Parts.text (c :: f)) := by
  rw [Option.map_map]
  rfl

end steps

/-! ## What has a reading is read -/

section complete

variable {s t f : List α} {r : List (List α)} {rs : List (List (List α))}

theorem read_nonEscaped (h : ∀ c ∈ f, TextData d c) :
    read d .nonEscaped (f ++ t) = (read d .nonEscaped t).map (.text f) := by
  induction f with
  | nil => exact Option.map_id'.symm
  | cons c f ih =>
      rw [List.forall_mem_cons] at h
      rw [List.cons_append, read_textData h.1 (.inr rfl), ih h.2, map_text]

theorem read_double :
    read d .escaped (double d f ++ d.quote :: t) = (read d .closed t).map (.text f) := by
  induction f with
  | nil => exact (if_pos rfl).trans Option.map_id'.symm
  | cons c f ih =>
      by_cases hc : c = d.quote
      · subst hc
        rw [double_cons_quote, ← map_text, ← ih]
        exact (if_pos rfl).trans read_quote_closed
      · rw [double_cons_of_ne hc, ← map_text, ← ih]
        exact if_neg hc

/-- **A field is read.** -/
theorem read_field (h : Field d s f) (ht : Follows d t) :
    read d .start (s ++ t) = (read d .closed t).map (.text f) := by
  cases h with
  | nonEscaped h =>
      cases s with
      | nil => exact (read_follows ht Mode.ends_start).trans Option.map_id'.symm
      | cons c s =>
          rw [List.forall_mem_cons] at h
          rw [List.cons_append, read_textData h.1 (.inl rfl), read_nonEscaped h.2,
            read_follows ht Mode.ends_nonEscaped, map_text]
  | escaped f =>
      rw [escaped, List.cons_append, List.append_assoc, read_quote]
      exact read_double

/-- A record is read, whatever is made of what follows it. -/
theorem read_record (h : Record d s r) (ht : Follows d t)
    (hclosed : read d .closed t = some ⟨[], [], rs⟩) :
    ∃ p, read d .start (s ++ t) = some p ∧ p.records = r :: rs := by
  induction h with
  | @field s f h =>
      refine ⟨⟨f, [], rs⟩, ?_, rfl⟩
      rw [read_field h ht, hclosed, Option.map_some, Parts.text, List.append_nil]
  | @comma s f t' r h hr ih =>
      obtain ⟨p, hp, hrecords⟩ := ih
      obtain ⟨rfl, rfl⟩ := List.cons.inj hrecords
      have hcomma : Follows d (d.comma :: (t' ++ t)) := fun c hc ↦ .inl (Option.some.inj hc).symm
      refine ⟨⟨f, p.field :: p.record, p.file⟩, ?_, rfl⟩
      rw [List.append_assoc, List.cons_append, read_field h hcomma, read_comma Mode.ends_closed, hp,
        Option.map_some, Option.map_some, Parts.text, Parts.comma, List.append_nil]

/-- **A file is read.** -/
theorem exists_read (h : File d s rs) : ∃ p, read d .start s = some p ∧ p.records = rs := by
  have hcr : ∀ t, Follows d (d.cr :: t) := fun t c hc ↦ .inr (Option.some.inj hc).symm
  induction h with
  | @record s r h =>
      rw [← List.append_nil s]
      exact read_record h nofun (read_nil Mode.ends_closed)
  | lineBreak h =>
      refine read_record h (hcr _) ?_
      rw [read_cr Mode.ends_closed, read_lf]
      rfl
  | @crlf s t r rs h hrs hne ih =>
      obtain ⟨p, hp, rfl⟩ := ih
      refine read_record h (hcr _) ?_
      rw [read_cr Mode.ends_closed, read_lf, if_neg hne, hp]
      rfl

end complete

/-! ## What is read has a reading -/

/-- What follows a field: the rest of its record, and the records that follow. -/
inductive Rest (d : Symbols α) : List α → List (List α) → List (List (List α)) → Prop
  | nil : Rest d [] [] []
  | lineBreak : Rest d [d.cr, d.lf] [] []
  | comma {s f t : List α} {r : List (List α)} {rs : List (List (List α))} (h : Field d s f)
      (ht : Rest d t r rs) : Rest d (d.comma :: (s ++ t)) (f :: r) rs
  | crlf {s f t : List α} {r : List (List α)} {rs : List (List (List α))} (h : Field d s f)
      (ht : Rest d t r rs) (hne : s ++ t ≠ []) :
      Rest d (d.cr :: d.lf :: (s ++ t)) [] ((f :: r) :: rs)

section sound

variable {mode : Mode} {p : Parts α} {c : α} {s t f : List α} {r : List (List α)}
  {rs : List (List (List α))}

/-- One more field before a file. -/
theorem File.field (h : Field d s f) (ht : File d t (r :: rs)) :
    File d (s ++ d.comma :: t) ((f :: r) :: rs) := by
  cases ht with
  | record hr => exact .record (.comma h hr)
  | lineBreak hr =>
      rw [← List.cons_append, ← List.append_assoc]
      exact .lineBreak (.comma h hr)
  | crlf hr hrs hne =>
      rw [← List.cons_append, ← List.append_assoc]
      exact .crlf (.comma h hr) hrs hne

/-- A field and what follows it are a file. -/
theorem Rest.file (ht : Rest d t r rs) (h : Field d s f) : File d (s ++ t) ((f :: r) :: rs) := by
  induction ht generalizing s f with
  | nil =>
      rw [List.append_nil]
      exact .record (.field h)
  | lineBreak => exact .lineBreak (.field h)
  | comma hnext _ ih => exact .field h (ih hnext)
  | crlf hnext _ hne ih => exact .crlf (.field h) (ih hnext) hne

/-- What it means that the parts of a text are read. -/
def Reads (d : Symbols α) (p : Parts α) : Mode → List α → Prop
  | .start, s => ∃ a t, s = a ++ t ∧ Field d a p.field ∧ Rest d t p.record p.file
  | .nonEscaped, s => ∃ t, s = p.field ++ t ∧ (∀ c ∈ p.field, TextData d c) ∧
      Rest d t p.record p.file
  | .escaped, s => ∃ t, s = double d p.field ++ d.quote :: t ∧ Rest d t p.record p.file
  | .closed, s => (p.field = [] ∧ Rest d s p.record p.file) ∨
      ∃ f t, p.field = d.quote :: f ∧ s = d.quote :: (double d f ++ d.quote :: t) ∧
        Rest d t p.record p.file
  | .cr, s => p.field = [] ∧ Rest d (d.cr :: s) p.record p.file

/-- Where a field can end, nothing more has to be read of it. -/
theorem reads_of_rest (hmode : mode.Ends) (hfield : p.field = [])
    (h : Rest d s p.record p.file) : Reads d p mode s := by
  cases mode with
  | start =>
      refine ⟨[], s, rfl, ?_, h⟩
      rw [hfield]
      exact .nonEscaped fun c hc ↦ absurd hc List.not_mem_nil
  | nonEscaped => exact ⟨s, by rw [hfield]; rfl, by simp [hfield], h⟩
  | closed => exact .inl ⟨hfield, h⟩
  | escaped | cr => exact hmode.elim

/-- Reading on from the next symbol. -/
def ReadsOn (d : Symbols α) (s : List α) : Prop :=
  ∀ mode p, read d mode s = some p → Reads d p mode s

theorem reads_escaped (ih : ReadsOn d s) (h : read d .escaped (c :: s) = some p) :
    Reads d p .escaped (c :: s) := by
  rw [read] at h
  split at h
  · rename_i hc
    subst hc
    rcases ih .closed p h with ⟨hfield, hrest⟩ | ⟨f, t, hfield, rfl, hrest⟩
    · exact ⟨s, by rw [hfield]; rfl, hrest⟩
    · exact ⟨t, by rw [hfield, double_cons_quote]; rfl, hrest⟩
  · rename_i hc
    obtain ⟨q, hq, rfl⟩ := Option.map_eq_some_iff.mp h
    obtain ⟨t, rfl, hrest⟩ := ih .escaped q hq
    exact ⟨t, congrArg (· ++ d.quote :: t) (double_cons_of_ne hc).symm, hrest⟩

theorem reads_cr (ih : ReadsOn d s) (h : read d .cr (c :: s) = some p) : Reads d p .cr (c :: s) := by
  rw [read] at h
  split at h
  · cases h
  · rename_i hc
    obtain rfl := not_not.mp hc
    split at h
    · rename_i hnil
      cases h
      exact ⟨rfl, hnil ▸ .lineBreak⟩
    · rename_i hne
      obtain ⟨q, hq, rfl⟩ := Option.map_eq_some_iff.mp h
      obtain ⟨a, t, rfl, hfield, hrest⟩ := ih .start q hq
      exact ⟨rfl, .crlf hfield hrest hne⟩

/-- A comma or a line break ends a field, however it was written. -/
theorem reads_delimiter (ih : ReadsOn d s) (hmode : mode.Ends) (hc : c = d.comma ∨ c = d.cr)
    (h : read d mode (c :: s) = some p) : Reads d p mode (c :: s) := by
  rcases hc with rfl | rfl
  · rw [read_comma hmode] at h
    obtain ⟨q, hq, rfl⟩ := Option.map_eq_some_iff.mp h
    obtain ⟨a, t, rfl, hfield, hrest⟩ := ih .start q hq
    exact reads_of_rest hmode rfl (.comma hfield hrest)
  · rw [read_cr hmode] at h
    obtain ⟨hfield, hrest⟩ := ih .cr p h
    exact reads_of_rest hmode hfield hrest

theorem reads_start (ih : ReadsOn d s) (h : read d .start (c :: s) = some p) :
    Reads d p .start (c :: s) := by
  rcases d.cases c with hdelimiter | rfl | rfl | hdata
  · exact reads_delimiter ih Mode.ends_start hdelimiter h
  · rw [read_quote] at h
    obtain ⟨t, rfl, hrest⟩ := ih .escaped p h
    refine ⟨escaped d p.field, t, ?_, .escaped _, hrest⟩
    rw [escaped, List.cons_append, List.append_assoc]
    rfl
  · rw [read_lf_of_ends Mode.ends_start] at h
    cases h
  · rw [read_textData hdata (.inl rfl)] at h
    obtain ⟨q, hq, rfl⟩ := Option.map_eq_some_iff.mp h
    obtain ⟨t, rfl, hfield, hrest⟩ := ih .nonEscaped q hq
    exact ⟨c :: q.field, t, rfl, .nonEscaped (List.forall_mem_cons.mpr ⟨hdata, hfield⟩), hrest⟩

theorem reads_nonEscaped (ih : ReadsOn d s) (h : read d .nonEscaped (c :: s) = some p) :
    Reads d p .nonEscaped (c :: s) := by
  rcases d.cases c with hdelimiter | rfl | rfl | hdata
  · exact reads_delimiter ih Mode.ends_nonEscaped hdelimiter h
  · rw [read_quote_nonEscaped] at h
    cases h
  · rw [read_lf_of_ends Mode.ends_nonEscaped] at h
    cases h
  · rw [read_textData hdata (.inr rfl)] at h
    obtain ⟨q, hq, rfl⟩ := Option.map_eq_some_iff.mp h
    obtain ⟨t, rfl, hfield, hrest⟩ := ih .nonEscaped q hq
    exact ⟨t, rfl, List.forall_mem_cons.mpr ⟨hdata, hfield⟩, hrest⟩

theorem reads_closed (ih : ReadsOn d s) (h : read d .closed (c :: s) = some p) :
    Reads d p .closed (c :: s) := by
  rcases d.cases c with hdelimiter | rfl | rfl | hdata
  · exact reads_delimiter ih Mode.ends_closed hdelimiter h
  · rw [read_quote_closed] at h
    obtain ⟨q, hq, rfl⟩ := Option.map_eq_some_iff.mp h
    obtain ⟨t, rfl, hrest⟩ := ih .escaped q hq
    exact .inr ⟨q.field, t, rfl, rfl, hrest⟩
  · rw [read_lf_of_ends Mode.ends_closed] at h
    cases h
  · rw [read_textData_closed hdata] at h
    cases h

/-- **What is read** is there. -/
theorem reads_of_read : ReadsOn d s := by
  induction s with
  | nil =>
      intro mode p h
      cases mode with
      | start | nonEscaped | closed =>
          cases h
          exact reads_of_rest trivial rfl .nil
      | escaped | cr => cases h
  | cons c s ih =>
      intro mode p h
      cases mode with
      | start => exact reads_start ih h
      | nonEscaped => exact reads_nonEscaped ih h
      | escaped => exact reads_escaped ih h
      | closed => exact reads_closed ih h
      | cr => exact reads_cr ih h

end sound

/-- **The parser reads the texts of the grammar**, each in the only way there is. -/
theorem parse_eq_some_iff {s : List α} {rs : List (List (List α))} :
    parse d s = some rs ↔ File d s rs := by
  constructor
  · intro h
    obtain ⟨p, hp, rfl⟩ := Option.map_eq_some_iff.mp h
    obtain ⟨a, t, rfl, hfield, hrest⟩ := reads_of_read .start p hp
    exact hrest.file hfield
  · intro h
    obtain ⟨p, hp, rfl⟩ := exists_read h
    exact Option.map_eq_some_iff.mpr ⟨p, hp, rfl⟩

end parser

end Csv

end LogServer
