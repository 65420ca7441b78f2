import Mathlib.Data.Finset.Basic
import Mathlib.Tactic.Tauto

/-!
# Dictionaries of counts in the order of their keys

A dictionary that counts under names keeps its keys in the order in which they came: counting more under
a key leaves the key where it is, and a new key goes to the end.

Such a dictionary is written out entry by entry, and the writing may stop after any entry.  A name
`lead` *leads* some other names if what is counted under them is never more than what is counted under
`lead`, and `lead` is written first (`Tally.Leads`).  Counting keeps it (`Tally.Leads.count`), and whatever
has been written so far, the rest owes no more than `lead` has brought (`Tally.Rest.tail`).
-/

universe u

/-- Counts by name. -/
abbrev Tally (ν : Type u) := List (ν × ℕ)

namespace Tally

variable {ν : Type u} [DecidableEq ν]

def incr (name : ν) (value : ℕ) : Tally ν → Tally ν
  | [] => [(name, value)]
  | (n, v) :: counts =>
      if n = name then (n, v + value) :: counts else (n, v) :: incr name value counts

/-- Count more under several names, one after the other. -/
def count (counts : Tally ν) (block : List (ν × ℕ)) : Tally ν :=
  block.foldl (fun counts x ↦ counts.incr x.1 x.2) counts

def names (counts : Tally ν) : List ν := counts.map Prod.fst

def amount (names : Finset ν) (counts : Tally ν) : ℕ :=
  counts.foldr (fun x n ↦ (if x.1 ∈ names then x.2 else 0) + n) 0

/-- None of the names comes before the lead. -/
def Ordered (lead : ν) (names : Finset ν) : Tally ν → Prop
  | [] => True
  | x :: counts => x.1 ∉ names ∧ (x.1 = lead ∨ Ordered lead names counts)

/-- What the names that are left to write owe to a lead that has been written. -/
def debt (lead : ν) (names : Finset ν) (rest : Tally ν) : ℕ :=
  if lead ∈ rest.names then 0 else rest.amount names

/-! ## Amounts -/

section amount

variable {names : Finset ν} {counts : Tally ν} {name lead : ν} {value : ℕ}

@[simp] theorem amount_nil : amount names ([] : Tally ν) = 0 := rfl

@[simp] theorem amount_cons (x : ν × ℕ) :
    amount names (x :: counts) = (if x.1 ∈ names then x.2 else 0) + counts.amount names := rfl

omit [DecidableEq ν] in
@[simp] theorem names_cons (x : ν × ℕ) :
    Tally.names (x :: counts) = x.1 :: counts.names := rfl

theorem amount_incr : (counts.incr name value).amount names =
    counts.amount names + if name ∈ names then value else 0 := by
  induction counts with
  | nil => simp [incr]
  | cons x counts ih =>
      rw [incr]
      split
      · rename_i heq
        rw [amount_cons, amount_cons, heq]
        split <;> omega
      · rw [amount_cons, amount_cons, ih, Nat.add_assoc]

theorem amount_count (block : List (ν × ℕ)) :
    (counts.count block).amount names = counts.amount names + amount names block := by
  induction block generalizing counts with
  | nil => rfl
  | cons x block ih =>
      show ((counts.incr x.1 x.2).count block).amount names = _
      rw [ih, amount_incr, amount_cons, Nat.add_assoc]

theorem mem_names_incr {n : ν} : n ∈ (counts.incr name value).names ↔
    n = name ∨ n ∈ counts.names := by
  induction counts with
  | nil => simp [incr]
  | cons x counts ih =>
      rw [incr]
      split
      · rename_i heq
        rw [names_cons, names_cons, List.mem_cons, heq]
        tauto
      · rw [names_cons, names_cons, List.mem_cons, List.mem_cons, ih]
        tauto

theorem nodup_incr (h : counts.names.Nodup) : (counts.incr name value).names.Nodup := by
  induction counts with
  | nil => exact List.nodup_singleton _
  | cons x counts ih =>
      obtain ⟨hx, hcounts⟩ := List.nodup_cons.mp h
      rw [incr]
      split
      · exact List.nodup_cons.mpr ⟨hx, hcounts⟩
      · rename_i hne
        exact List.nodup_cons.mpr
          ⟨fun hmem ↦ (mem_names_incr.mp hmem).elim hne hx, ih hcounts⟩

theorem nodup_count (h : counts.names.Nodup) (block : List (ν × ℕ)) :
    (counts.count block).names.Nodup := by
  induction block generalizing counts with
  | nil => exact h
  | cons x block ih => exact ih (nodup_incr h)

/-- Nothing is counted under a name that is not there. -/
theorem amount_eq_zero (h : lead ∉ counts.names) : counts.amount {lead} = 0 := by
  induction counts with
  | nil => rfl
  | cons x counts ih =>
      rw [names_cons, List.mem_cons, not_or] at h
      rw [amount_cons, if_neg (Finset.mem_singleton.not.mpr (Ne.symm h.1)), ih h.2]

end amount

/-! ## Order -/

section order

variable {names : Finset ν} {counts : Tally ν} {name lead : ν} {value : ℕ}

/-- A name that may come before the lead. -/
theorem Ordered.incr (h : counts.Ordered lead names)
    (hname : name ∉ names ∨ lead ∈ counts.names) :
    (counts.incr name value).Ordered lead names := by
  induction counts with
  | nil =>
      rcases hname with hname | hlead
      · exact ⟨hname, .inr trivial⟩
      · cases hlead
  | cons x counts ih =>
      obtain ⟨hx, hrest⟩ := h
      rw [Tally.incr]
      split
      · exact ⟨hx, hrest⟩
      · refine ⟨hx, ?_⟩
        rcases hrest with hlead | hrest
        · exact .inl hlead
        · by_cases heq : x.1 = lead
          · exact .inl heq
          · refine .inr (ih hrest (hname.imp_right fun hmem ↦ ?_))
            exact (List.mem_cons.mp hmem).resolve_left (Ne.symm heq)

/-- A block that has the lead first, or comes after it. -/
theorem Ordered.count (h : counts.Ordered lead names) {block : List (ν × ℕ)}
    (hblock : Ordered lead names block ∨ lead ∈ counts.names) :
    (counts.count block).Ordered lead names := by
  induction block generalizing counts with
  | nil => exact h
  | cons x block ih =>
      rcases hblock with ⟨hx, hrest⟩ | hlead
      · refine ih (h.incr (.inl hx)) (hrest.symm.imp_right fun heq ↦ ?_)
        exact mem_names_incr.mpr (.inl heq.symm)
      · exact ih (h.incr (.inr hlead)) (.inr (mem_names_incr.mpr (.inr hlead)))

end order

/-! ## Leads -/

/-- What is counted under the names is never more than what is counted under the lead, which comes
first. -/
structure Leads (lead : ν) (names : Finset ν) (counts : Tally ν) : Prop where
  nodup : counts.names.Nodup
  ordered : counts.Ordered lead names
  amount_le : counts.amount names ≤ counts.amount {lead}

section leads

variable {names : Finset ν} {counts rest : Tally ν} {x : ν × ℕ} {lead : ν}

theorem leads_nil : Leads lead names [] := ⟨List.nodup_nil, trivial, le_rfl⟩

/-- **Counting keeps it**, where each block has the lead first and brings it no less than the names. -/
theorem Leads.count (h : Leads lead names counts) {block : List (ν × ℕ)}
    (hordered : Ordered lead names block) (hle : amount names block ≤ amount {lead} block) :
    Leads lead names (counts.count block) where
  nodup := nodup_count h.nodup block
  ordered := h.ordered.count (.inl hordered)
  amount_le := by
    rw [amount_count, amount_count]
    exact Nat.add_le_add h.amount_le hle

/-- What is left of a dictionary that is written out: the names are still led, or the lead has been
written. -/
def Rest (lead : ν) (names : Finset ν) (rest : Tally ν) : Prop :=
  Leads lead names rest ∨ lead ∉ rest.names

/-- **Writing an entry** leaves the rest such that what it owes, and what the names are given, is no more
than what the lead is given and what was owed before. -/
theorem Rest.tail (h : Rest lead names (x :: rest)) :
    Rest lead names rest ∧ (if x.1 ∈ names then x.2 else 0) + rest.debt lead names ≤
      (if x.1 = lead then x.2 else 0) + debt lead names (x :: rest) := by
  rcases h with ⟨hnodup, ⟨hx, hrest⟩, hle⟩ | hwritten
  · obtain ⟨hnotMem, hnodup⟩ := List.nodup_cons.mp hnodup
    rw [amount_cons, amount_cons, if_neg hx, Nat.zero_add] at hle
    rw [if_neg hx, Nat.zero_add]
    by_cases heq : x.1 = lead
    · -- The lead is written: from now on the names are owed.
      rw [if_pos heq, debt, if_neg (heq ▸ hnotMem)]
      rw [if_pos (Finset.mem_singleton.mpr heq), amount_eq_zero (heq ▸ hnotMem)] at hle
      exact ⟨.inr (heq ▸ hnotMem), by omega⟩
    · rw [if_neg (Finset.mem_singleton.not.mpr heq), Nat.zero_add] at hle
      refine ⟨.inl ⟨hnodup, hrest.resolve_left heq, hle⟩, ?_⟩
      rw [if_neg heq, Nat.zero_add, debt, debt]
      by_cases hmem : lead ∈ rest.names
      · rw [if_pos hmem]
        exact Nat.zero_le _
      · have hcons : lead ∉ Tally.names (x :: rest) := by
          rw [names_cons, List.mem_cons]
          exact not_or.mpr ⟨Ne.symm heq, hmem⟩
        rw [if_neg hmem, if_neg hcons, amount_cons, if_neg hx, Nat.zero_add]
  · have hrest : x.1 ≠ lead ∧ lead ∉ rest.names := by
      rw [names_cons, List.mem_cons, not_or] at hwritten
      exact ⟨Ne.symm hwritten.1, hwritten.2⟩
    refine ⟨.inr hrest.2, ?_⟩
    rw [if_neg hrest.1, Nat.zero_add, debt, if_neg hrest.2, debt, if_neg hwritten, amount_cons]

/-- A dictionary that is led owes nothing. -/
theorem Leads.debt_eq (h : Leads lead names counts) : counts.debt lead names = 0 := by
  rw [debt]
  split
  · rfl
  · rename_i hlead
    have hle := h.amount_le
    rw [amount_eq_zero hlead] at hle
    exact Nat.le_zero.mp hle

end leads

end Tally
