import LogServer.Text

/-!
# Passwords and users

The password policy, the generator of initial passwords, and the table of users.  Hashing is the work of
a library, of which the model has what the program asks for: a hash of a password with a salt, whether a
password belongs to a hash, and whether a hash was made with other parameters than today's.
-/

namespace LogServer

/-! ## The policy -/

/-- `str.islower` and `str.isupper` of one character. -/
structure LetterTable where
  isLower : Char → Bool
  isUpper : Char → Bool
  isLower_ascii : ∀ c, c.toNat < 128 → isLower c = c.isLower
  isUpper_ascii : ∀ c, c.toNat < 128 → isUpper c = c.isUpper

def LetterTable.ascii : LetterTable where
  isLower c := c.isLower
  isUpper c := c.isUpper
  isLower_ascii _ _ := rfl
  isUpper_ascii _ _ := rfl

def MIN_PASSWORD_LENGTH : Nat := 12

def passwordProblems (u : CharTable) (letters : LetterTable) (password : Text) : List Text :=
  (if password.length < MIN_PASSWORD_LENGTH then
    ["Use at least ".toList ++ Nat.toDigits 10 MIN_PASSWORD_LENGTH ++ " characters.".toList] else []) ++
  (if !password.any letters.isLower then ["Add a lowercase letter.".toList] else []) ++
  (if !password.any letters.isUpper then ["Add an uppercase letter.".toList] else []) ++
  (if !password.any u.isDigit then ["Add a number.".toList] else [])

/-- The characters of a generated password: no `O` and `0`, and no `l`, `1` and `I`. -/
def ALPHABET : Text := "ABCDEFGHJKLMNPQRSTUVWXYZabcdefghijkmnopqrstuvwxyz23456789".toList

/-- A generated password, by the choices that were made. -/
def generatePassword (choices : Fin 20 → Fin ALPHABET.length) : Text :=
  List.ofFn fun i ↦ ALPHABET[choices i]

/-- A password is without problems exactly if it is long enough and has a character of each kind. -/
theorem passwordProblems_eq_nil {u : CharTable} {letters : LetterTable} {password : Text} :
    passwordProblems u letters password = [] ↔ MIN_PASSWORD_LENGTH ≤ password.length ∧
      (∃ c ∈ password, letters.isLower c) ∧ (∃ c ∈ password, letters.isUpper c) ∧
        ∃ c ∈ password, u.isDigit c := by
  have hif : ∀ (p : Prop) [Decidable p] (x : Text), (if p then [x] else []) = [] ↔ ¬p := by
    intro p _ x
    split <;> simp_all
  rw [passwordProblems, List.append_eq_nil_iff, List.append_eq_nil_iff, List.append_eq_nil_iff, hif,
    hif, hif, hif]
  simp only [Nat.not_lt, Bool.not_eq_true', Bool.not_eq_false, List.any_eq_true, and_assoc]

/-! ## Hashes -/

/-- The library, with hashes `η`. -/
structure Hasher (η : Type) where
  hash : Text → Bytes → η
  verify : η → Text → Bool
  needsRehash : η → Bool

/-- A hash belongs to one password. -/
def Hasher.Hashes {η : Type} (hasher : Hasher η) (h : η) (password : Text) : Prop :=
  ∀ p, hasher.verify h p = true ↔ p = password

/-- The library verifies the password that was hashed, and no other. -/
structure Hasher.Lawful {η : Type} (hasher : Hasher η) : Prop where
  hashes : ∀ password salt, hasher.Hashes (hasher.hash password salt) password

/-! ## Users -/

structure User (η : Type) where
  username : Text
  passwordHash : η
  mustChange : Bool
  lastLogin : Option Text

abbrev Users (η : Type) := List (User η)

namespace Users

variable {η : Type} (t : Users η)

/-- Add a user; the name is `UNIQUE`. -/
def createUser (username : Text) (passwordHash : η) (mustChange : Bool) : Except PyError (Users η) :=
  if t.any fun row ↦ row.username = username then .error .integrityError
  else .ok (t ++ [⟨username, passwordHash, mustChange, none⟩])

def getUser (username : Text) : Option (User η) := t.find? fun row ↦ row.username = username

def setPassword (username : Text) (passwordHash : η) : Users η :=
  t.map fun row ↦
    if row.username = username then { row with passwordHash := passwordHash, mustChange := false }
    else row

def touchLogin (username now : Text) : Users η :=
  t.map fun row ↦ if row.username = username then { row with lastLogin := some now } else row

section users

variable {t} {row : User η} {username now : Text} {h : η} {mustChange : Bool}

theorem getUser_eq_some (hrow : t.getUser username = some row) : row ∈ t ∧ row.username = username :=
  ⟨List.mem_of_find?_eq_some hrow, by simpa using List.find?_some hrow⟩

theorem createUser_eq_ok {t' : Users η} (ht : t.createUser username h mustChange = .ok t') :
    username ∉ t.map User.username ∧ t' = t ++ [⟨username, h, mustChange, none⟩] := by
  rw [createUser] at ht
  split at ht
  · cases ht
  · rename_i hnone
    cases ht
    refine ⟨fun hmem ↦ hnone ?_, rfl⟩
    obtain ⟨row, hrow, rfl⟩ := List.mem_map.mp hmem
    exact List.any_eq_true.mpr ⟨row, hrow, decide_eq_true rfl⟩

@[simp] theorem username_setPassword :
    (t.setPassword username h).map User.username = t.map User.username := by
  rw [setPassword, List.map_map]
  refine List.map_congr_left fun row _ ↦ ?_
  rw [Function.comp_apply]
  split <;> rfl

@[simp] theorem username_touchLogin :
    (t.touchLogin username now).map User.username = t.map User.username := by
  rw [touchLogin, List.map_map]
  refine List.map_congr_left fun row _ ↦ ?_
  rw [Function.comp_apply]
  split <;> rfl

/-- A row after a password was set: it is the row of that user, or is as it was. -/
theorem mem_setPassword (hrow : row ∈ t.setPassword username h) :
    row ∈ t ∧ row.username ≠ username ∨
      row.username = username ∧ row.passwordHash = h ∧ row.mustChange = false := by
  obtain ⟨old, hold, rfl⟩ := List.mem_map.mp hrow
  split
  · rename_i heq
    exact .inr ⟨heq, rfl, rfl⟩
  · rename_i hne
    exact .inl ⟨hold, hne⟩

/-- A row after a login was noted, and the row it was. -/
theorem exists_mem_touchLogin (hrow : row ∈ t.touchLogin username now) :
    ∃ old ∈ t, old.username = row.username ∧ old.passwordHash = row.passwordHash ∧
      old.mustChange = row.mustChange := by
  obtain ⟨old, hold, rfl⟩ := List.mem_map.mp hrow
  refine ⟨old, hold, ?_⟩
  split <;> exact ⟨rfl, rfl, rfl⟩

end users

end Users

end LogServer
