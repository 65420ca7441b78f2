import Mathlib

/-!
# Templates

A template is a text with placeholders: a name and a type, in braces, with a colon in between.
`placeholders` scans a text for them, in order.

A text that is cut in the middle of a placeholder has other placeholders than its parts.  A text is
`Closed` if nothing that follows it changes what is found in it; texts without braces and whole
placeholders are closed, and so is what is put together from closed texts.
-/

namespace Template

/-- How far a scan has come: outside of placeholders, or after a part of a name or of a type. -/
inductive Scan where
  | text
  | name (read : List Char)
  | type (name read : List Char)

/-- The placeholders that are completed in the rest of a text. -/
def scan : Scan → List Char → List (List Char × List Char)
  | _, [] => []
  | .text, c :: cs => if c = '\x7b' then scan (.name []) cs else scan .text cs
  | .name read, c :: cs =>
      if c = ':' then scan (.type read []) cs else scan (.name (read ++ [c])) cs
  | .type name read, c :: cs =>
      if c = '\x7d' then (name, read) :: scan .text cs else scan (.type name (read ++ [c])) cs

/-- The names and types of the placeholders in a text. -/
def placeholders (s : List Char) : List (List Char × List Char) := scan .text s

def placeholder (name type : List Char) : List Char :=
  '\x7b' :: (name ++ ':' :: (type ++ ['\x7d']))

/-- What follows a text does not change its placeholders. -/
def Closed (s : List Char) : Prop :=
  ∀ rest, placeholders (s ++ rest) = placeholders s ++ placeholders rest

@[simp] theorem placeholders_nil : placeholders [] = [] := rfl

/-! ## Scans -/

theorem scan_plain {s : List Char} (h : ∀ c ∈ s, c ≠ '\x7b') (rest : List Char) :
    scan .text (s ++ rest) = scan .text rest := by
  induction s with
  | nil => rfl
  | cons c cs ih =>
      rw [List.cons_append, scan, if_neg (h c List.mem_cons_self)]
      exact ih fun c' hc' ↦ h c' (List.mem_cons_of_mem c hc')

theorem scan_name {name : List Char} (h : ∀ c ∈ name, c ≠ ':') (read rest : List Char) :
    scan (.name read) (name ++ ':' :: rest) = scan (.type (read ++ name) []) rest := by
  induction name generalizing read with
  | nil => rw [List.nil_append, scan, if_pos rfl, List.append_nil]
  | cons c cs ih =>
      rw [List.cons_append, scan, if_neg (h c List.mem_cons_self),
        ih (fun c' hc' ↦ h c' (List.mem_cons_of_mem c hc')), List.append_assoc,
        List.singleton_append]

theorem scan_type {type : List Char} (h : ∀ c ∈ type, c ≠ '\x7d') (name read rest : List Char) :
    scan (.type name read) (type ++ '\x7d' :: rest) = (name, read ++ type) :: scan .text rest := by
  induction type generalizing read with
  | nil => rw [List.nil_append, scan, if_pos rfl, List.append_nil]
  | cons c cs ih =>
      rw [List.cons_append, scan, if_neg (h c List.mem_cons_self),
        ih (fun c' hc' ↦ h c' (List.mem_cons_of_mem c hc')), List.append_assoc,
        List.singleton_append]

/-! ## Closed texts -/

/-- A text without braces has no placeholders. -/
theorem placeholders_plain {s : List Char} (h : ∀ c ∈ s, c ≠ '\x7b') : placeholders s = [] := by
  have hscan := scan_plain h []
  rw [List.append_nil] at hscan
  exact hscan

theorem closed_plain {s : List Char} (h : ∀ c ∈ s, c ≠ '\x7b') : Closed s := by
  intro rest
  rw [placeholders_plain h, List.nil_append]
  exact scan_plain h rest

/-- **A placeholder is found** in front of any text. -/
theorem placeholders_placeholder_append {name type : List Char} (hname : ∀ c ∈ name, c ≠ ':')
    (htype : ∀ c ∈ type, c ≠ '\x7d') (rest : List Char) :
    placeholders (placeholder name type ++ rest) = (name, type) :: placeholders rest := by
  have hshape : placeholder name type ++ rest =
      '\x7b' :: (name ++ ':' :: (type ++ '\x7d' :: rest)) := by
    rw [placeholder, List.cons_append, List.append_assoc, List.cons_append, List.append_assoc,
      List.singleton_append]
  rw [hshape, placeholders, scan, if_pos rfl, scan_name hname, scan_type htype, List.nil_append,
    List.nil_append, placeholders]

theorem placeholders_placeholder {name type : List Char} (hname : ∀ c ∈ name, c ≠ ':')
    (htype : ∀ c ∈ type, c ≠ '\x7d') : placeholders (placeholder name type) = [(name, type)] := by
  have happend := placeholders_placeholder_append hname htype []
  rw [List.append_nil] at happend
  exact happend

theorem closed_placeholder {name type : List Char} (hname : ∀ c ∈ name, c ≠ ':')
    (htype : ∀ c ∈ type, c ≠ '\x7d') : Closed (placeholder name type) := by
  intro rest
  rw [placeholders_placeholder_append hname htype, placeholders_placeholder hname htype,
    List.singleton_append]

theorem Closed.append {s t : List Char} (hs : Closed s) (ht : Closed t) : Closed (s ++ t) := by
  intro rest
  rw [List.append_assoc, hs, ht, hs, List.append_assoc]

/-- A placeholder behind a text without braces. -/
theorem placeholders_behind {pre name type : List Char} (hpre : ∀ c ∈ pre, c ≠ '\x7b')
    (hname : ∀ c ∈ name, c ≠ ':') (htype : ∀ c ∈ type, c ≠ '\x7d') :
    placeholders (pre ++ placeholder name type) = [(name, type)] := by
  rw [closed_plain hpre, placeholders_plain hpre, placeholders_placeholder hname htype,
    List.nil_append]

theorem closed_behind {pre name type : List Char} (hpre : ∀ c ∈ pre, c ≠ '\x7b')
    (hname : ∀ c ∈ name, c ≠ ':') (htype : ∀ c ∈ type, c ≠ '\x7d') :
    Closed (pre ++ placeholder name type) :=
  (closed_plain hpre).append (closed_placeholder hname htype)

/-- A closed text after a text without braces, and two placeholders that follow it. -/
theorem placeholders_statement {head body pre pre' name name' type type' : List Char}
    (hhead : ∀ c ∈ head, c ≠ '\x7b') (hbody : Closed body) (hpre : ∀ c ∈ pre, c ≠ '\x7b')
    (hname : ∀ c ∈ name, c ≠ ':') (htype : ∀ c ∈ type, c ≠ '\x7d')
    (hpre' : ∀ c ∈ pre', c ≠ '\x7b') (hname' : ∀ c ∈ name', c ≠ ':')
    (htype' : ∀ c ∈ type', c ≠ '\x7d') :
    placeholders (head ++ body ++ (pre ++ placeholder name type) ++
        (pre' ++ placeholder name' type')) =
      placeholders body ++ [(name, type), (name', type')] := by
  have hstart : Closed (head ++ body) := (closed_plain hhead).append hbody
  rw [hstart.append (closed_behind hpre hname htype), hstart, closed_plain hhead,
    placeholders_plain hhead, List.nil_append, placeholders_behind hpre hname htype,
    placeholders_behind hpre' hname' htype', List.append_assoc, List.singleton_append]

/-- Closed texts, separated by a text without braces. -/
theorem closed_intercalate {sep : List Char} (hsep : ∀ c ∈ sep, c ≠ '\x7b')
    {parts : List (List Char)} (h : ∀ s ∈ parts, Closed s) :
    Closed (sep.intercalate parts) ∧
      placeholders (sep.intercalate parts) = parts.flatMap placeholders := by
  induction parts with
  | nil => exact ⟨fun _ ↦ rfl, rfl⟩
  | cons s rest ih =>
      have hs := h s List.mem_cons_self
      cases rest with
      | nil =>
          rw [List.intercalate_singleton, List.flatMap_singleton]
          exact ⟨hs, rfl⟩
      | cons s' rest =>
          obtain ⟨hclosed, hplaceholders⟩ := ih fun t ht ↦ h t (List.mem_cons_of_mem s ht)
          rw [List.intercalate_cons_cons, List.flatMap_cons, ← hplaceholders]
          refine ⟨(hs.append (closed_plain hsep)).append hclosed, ?_⟩
          rw [hs.append (closed_plain hsep), hs, placeholders_plain hsep, List.append_nil]

end Template
