import LogServer.Text

/-!
# The settings

The `settings` table of the metadata store maps keys to texts.  Opening a store fills in a default
for each key that is not there.  Numbers are written by `str` and read by `int`.
-/

namespace LogServer

/-! ## Numbers as texts -/

def str (n : Int) : Text :=
  if n < 0 then '-' :: Nat.toDigits 10 n.natAbs else Nat.toDigits 10 n.natAbs

/-- `int` of a text that may have a sign. -/
def signedInt (u : CharTable) (t : Text) : Except PyError Int :=
  if t.head? = some '-' then (int u t.tail).map fun n ↦ -(n : Int) else (int u t).map Int.ofNat

/-- **`int` undoes `str`.** -/
theorem signedInt_str (u : CharTable) (n : Int) : signedInt u (str n) = .ok n := by
  unfold str
  split
  · rw [signedInt, List.head?_cons, if_pos rfl, List.tail_cons, int_toDigits]
    refine congrArg Except.ok ?_
    show -(n.natAbs : Int) = n
    omega
  · have hhead : (Nat.toDigits 10 n.natAbs).head? ≠ some '-' := by
      intro h
      have hdigit := Nat.isDigit_of_mem_toDigits (by decide) (by decide) (List.mem_of_head? h)
      revert hdigit
      decide
    rw [signedInt, if_neg hhead, int_toDigits]
    refine congrArg Except.ok ?_
    show (n.natAbs : Int) = n
    omega

/-! ## The table -/

abbrev Settings := List (Text × Text)

def DEFAULT_SETTINGS : Settings :=
  [("company_name".toList, "Network Log Server".toList), ("logo_filename".toList, []),
    ("hot_days".toList, "30".toList), ("retention_months".toList, "12".toList)]

namespace Settings

def insertOrIgnore (t : Settings) (row : Text × Text) : Settings :=
  if (t.lookup row.1).isSome then t else t ++ [row]

def initSchema (t : Settings) : Settings := DEFAULT_SETTINGS.foldl insertOrIgnore t

def getSetting (t : Settings) (key default : Text) : Text := (t.lookup key).getD default

def setSetting (t : Settings) (key value : Text) : Settings :=
  if (t.lookup key).isSome then t.map fun row ↦ if row.1 = key then (key, value) else row
  else t ++ [(key, value)]

variable {t : Settings} {key : Text}

theorem lookup_insertOrIgnore (row : Text × Text) :
    (t.insertOrIgnore row).lookup key = (t.lookup key).or (List.lookup key [row]) := by
  unfold insertOrIgnore
  split
  · rename_i hsome
    by_cases hkey : key = row.1
    · subst hkey
      rw [Option.or_of_isSome hsome]
    · have hne : (key == row.1) = false := beq_eq_false_iff_ne.mpr hkey
      obtain ⟨k, v⟩ := row
      rw [List.lookup_cons, hne]
      exact Option.or_none.symm
  · rw [List.lookup_append]

/-- A row that is there stays, and else the defaults apply. -/
theorem lookup_initSchema :
    t.initSchema.lookup key = (t.lookup key).or (DEFAULT_SETTINGS.lookup key) := by
  have hfold : ∀ (defaults : Settings) (t : Settings),
      (defaults.foldl insertOrIgnore t).lookup key =
        (t.lookup key).or (defaults.lookup key) := by
    intro defaults
    induction defaults with
    | nil => exact fun t ↦ Option.or_none.symm
    | cons row defaults ih =>
        intro t
        rw [List.foldl_cons, ih, lookup_insertOrIgnore, Option.or_assoc, ← List.lookup_append,
          List.singleton_append]
  exact hfold _ _

/-- The update of a row, found under its key alone. -/
theorem lookup_map (t : Settings) (key key' value : Text) :
    (t.map fun row ↦ if row.1 = key' then (key', value) else row).lookup key =
      if key = key' then (t.lookup key).map fun _ ↦ value else t.lookup key := by
  induction t with
  | nil => split <;> rfl
  | cons row t ih =>
      obtain ⟨k, v⟩ := row
      rw [List.map_cons, List.lookup_cons]
      by_cases hk : k = key'
      · subst hk
        rw [if_pos rfl, List.lookup_cons]
        by_cases hkey : key = k
        · subst hkey
          rw [if_pos rfl, beq_self_eq_true]
          rfl
        · rw [beq_eq_false_iff_ne.mpr hkey, if_neg hkey]
          exact ih.trans (if_neg hkey)
      · rw [if_neg hk, List.lookup_cons]
        by_cases hkey : key = k
        · subst hkey
          rw [beq_self_eq_true, if_neg hk]
        · rw [beq_eq_false_iff_ne.mpr hkey]
          exact ih

/-- The value that was set is the value that is found, and the others stay. -/
theorem lookup_setSetting (key' value : Text) :
    (t.setSetting key' value).lookup key = if key = key' then some value else t.lookup key := by
  unfold setSetting
  split
  · rename_i hsome
    rw [lookup_map]
    split
    · rename_i hkey
      obtain ⟨v, hv⟩ := Option.isSome_iff_exists.mp (hkey ▸ hsome)
      rw [hv]
      rfl
    · rfl
  · rename_i hnone
    rw [List.lookup_append]
    split
    · rename_i hkey
      subst hkey
      rw [Option.not_isSome_iff_eq_none.mp hnone, Option.none_or, List.lookup_cons,
        beq_self_eq_true]
    · rename_i hkey
      rw [List.lookup_cons, beq_eq_false_iff_ne.mpr hkey]
      exact Option.or_none

end Settings

end LogServer
