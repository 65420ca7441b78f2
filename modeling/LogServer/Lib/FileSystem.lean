import Mathlib

/-!
# A directory of files

Paths name inodes and inodes have contents.  A process that has opened a file writes to the inode,
whatever becomes of the path: another process may truncate the same inode by opening the path again,
rename the path, or remove it.  There are no hard links, so that a path that a `FileSystem` knows
determines its inode and the other way round.
-/

universe u v

/-- Paths, inodes, and the next unused inode. -/
structure FileSystem (π : Type u) (β : Type v) where
  entry : π → Option Nat
  content : Nat → List β
  next : Nat
  entry_lt : ∀ path i, entry path = some i → i < next
  entry_inj : ∀ path path' i, entry path = some i → entry path' = some i → path = path'

namespace FileSystem

variable {π : Type u} {β : Type v}

def empty : FileSystem π β where
  entry _ := none
  content _ := []
  next := 0
  entry_lt _ _ h := by cases h
  entry_inj _ _ _ h := by cases h

variable (fs : FileSystem π β)

/-! ## Inodes -/

def read (path : π) : Option (List β) := (fs.entry path).map fs.content

def setContent (i : Nat) (bytes : List β) : FileSystem π β :=
  { fs with content := Function.update fs.content i bytes }

/-- Write at an offset, over what is there.  A gap before the offset is filled with zeros. -/
def pwrite (zero : β) (i offset : Nat) (bytes : List β) : FileSystem π β :=
  let old := fs.content i
  fs.setContent i (old.take offset ++ List.replicate (offset - old.length) zero ++ bytes ++
    old.drop (offset + bytes.length))

variable {fs}

theorem content_setContent_ne {i j : Nat} (h : j ≠ i) (bytes : List β) :
    (fs.setContent i bytes).content j = fs.content j := Function.update_of_ne h _ _

/-- Writing at the end of a file appends. -/
theorem content_pwrite_end {zero : β} {i offset : Nat} (h : (fs.content i).length = offset)
    (bytes : List β) : (fs.pwrite zero i offset bytes).content i = fs.content i ++ bytes := by
  subst h
  show Function.update fs.content i _ i = _
  rw [Function.update_self, List.take_length, Nat.sub_self, List.replicate_zero, List.append_nil,
    List.drop_eq_nil_of_le (Nat.le_add_right _ _), List.append_nil]

/-! ## Paths -/

variable (fs)

/-- The next inode is unused. -/
theorem entry_ne_next (path : π) : fs.entry path ≠ some fs.next := fun h ↦
  Nat.lt_irrefl _ (fs.entry_lt path _ h)

/-- A new inode, without a path. -/
def allocate : FileSystem π β where
  entry := fs.entry
  content := Function.update fs.content fs.next []
  next := fs.next + 1
  entry_lt path i h := Nat.lt_succ_of_lt (fs.entry_lt path i h)
  entry_inj := fs.entry_inj

variable [DecidableEq π]

def unlink (path : π) : FileSystem π β where
  entry := Function.update fs.entry path none
  content := fs.content
  next := fs.next
  entry_lt path' i h := by
    rw [Function.update_apply] at h
    split at h
    · cases h
    · exact fs.entry_lt path' i h
  entry_inj a b i ha hb := by
    rw [Function.update_apply] at ha hb
    split at ha
    · cases ha
    · split at hb
      · cases hb
      · exact fs.entry_inj a b i ha hb

def link (path : π) (i : Nat) (hlt : i < fs.next) (hfree : ∀ path, fs.entry path ≠ some i) :
    FileSystem π β where
  entry := Function.update fs.entry path (some i)
  content := fs.content
  next := fs.next
  entry_lt path' j h := by
    rw [Function.update_apply] at h
    split at h
    · cases h
      exact hlt
    · exact fs.entry_lt path' j h
  entry_inj a b j ha hb := by
    rw [Function.update_apply] at ha hb
    split at ha
    · rename_i hpath
      split at hb
      · rename_i hpath'
        rw [hpath, hpath']
      · cases ha
        exact absurd hb (hfree b)
    · split at hb
      · cases hb
        exact absurd ha (hfree a)
      · exact fs.entry_inj a b j ha hb

variable {fs}

/-- What a path was, no path is once it is removed. -/
theorem entry_unlink_ne {path : π} {i : Nat} (h : fs.entry path = some i) (path' : π) :
    (fs.unlink path).entry path' ≠ some i := by
  intro hpath'
  replace hpath' : Function.update fs.entry path none path' = some i := hpath'
  rw [Function.update_apply] at hpath'
  split at hpath'
  · cases hpath'
  · rename_i hne
    exact hne (fs.entry_inj path' path i hpath' h)

variable (fs)

/-- Open a path for writing: a file that exists is truncated. -/
def openTruncate (path : π) : FileSystem π β × Nat :=
  match fs.entry path with
  | some i => (fs.setContent i [], i)
  | none => (fs.allocate.link path fs.next (Nat.lt_succ_self _)
      fun path' ↦ fs.entry_ne_next path', fs.next)

/-- Rename a path to another, over what is there.  It fails if there is no such path. -/
def rename (path path' : π) : Option (FileSystem π β) :=
  match h : fs.entry path with
  | none => none
  | some i => some ((fs.unlink path).link path' i (fs.entry_lt path i h) (entry_unlink_ne h))

/-! ## What the operations change -/

section operations

variable {fs}

/-- Opening a path changes the content of the opened inode alone. -/
theorem content_openTruncate {path : π} {j : Nat} (hj : j < fs.next)
    (hne : fs.entry path ≠ some j) : (fs.openTruncate path).1.content j = fs.content j := by
  unfold openTruncate
  split
  · rename_i i hi
    apply content_setContent_ne
    rintro rfl
    exact hne hi
  · exact Function.update_of_ne (Nat.ne_of_lt hj) _ _

theorem content_openTruncate_self (path : π) :
    (fs.openTruncate path).1.content (fs.openTruncate path).2 = [] := by
  unfold openTruncate
  split <;> exact Function.update_self ..

/-- After opening, the path is the inode, and the other paths are as before. -/
theorem entry_openTruncate (path : π) : (fs.openTruncate path).1.entry =
    Function.update fs.entry path (some (fs.openTruncate path).2) := by
  unfold openTruncate
  split
  · rename_i i hi
    show fs.entry = _
    rw [← hi, Function.update_eq_self]
  · rfl

theorem next_openTruncate (path : π) : fs.next ≤ (fs.openTruncate path).1.next := by
  unfold openTruncate
  split
  · exact Nat.le_refl _
  · exact Nat.le_succ _

/-- The opened inode is that of the path, or a new one. -/
theorem openTruncate_eq_or (fs : FileSystem π β) (path : π) :
    fs.entry path = some (fs.openTruncate path).2 ∨ (fs.openTruncate path).2 = fs.next := by
  unfold openTruncate
  split
  · rename_i i hi
    exact .inl hi
  · exact .inr rfl

theorem openTruncate_lt (path : π) : (fs.openTruncate path).2 < (fs.openTruncate path).1.next :=
  (fs.openTruncate path).1.entry_lt path _ (by rw [entry_openTruncate, Function.update_self])

/-- A path that exists can be renamed. -/
theorem exists_rename {path : π} {i : Nat} (h : fs.entry path = some i) (path' : π) :
    ∃ fs', fs.rename path path' = some fs' := by
  unfold rename
  split
  · rename_i hnone
    rw [h] at hnone
    cases hnone
  · exact ⟨_, rfl⟩

/-- A rename moves the inode. -/
theorem rename_eq_some {path path' : π} {fs' : FileSystem π β}
    (h : fs.rename path path' = some fs') : ∃ i, fs.entry path = some i ∧
      fs'.entry = Function.update (Function.update fs.entry path none) path' (some i) ∧
      fs'.content = fs.content ∧ fs'.next = fs.next := by
  unfold rename at h
  split at h
  · cases h
  · rename_i i hi
    cases h
    exact ⟨i, hi, rfl, rfl, rfl⟩

/-! ## What is read -/

omit [DecidableEq π] in
/-- Writing to an inode that a path is not. -/
theorem read_setContent {path : π} {i : Nat} (h : fs.entry path ≠ some i) (bytes : List β) :
    (fs.setContent i bytes).read path = fs.read path := by
  unfold read
  show (fs.entry path).map _ = _
  cases hentry : fs.entry path with
  | none => rfl
  | some j =>
      have hne : j ≠ i := fun heq ↦ h (heq ▸ hentry)
      exact congrArg some (content_setContent_ne hne bytes)

omit [DecidableEq π] in
/-- What was written is read. -/
theorem read_setContent_self {path : π} {i : Nat} (h : fs.entry path = some i) (bytes : List β) :
    (fs.setContent i bytes).read path = some bytes := by
  show (fs.entry path).map _ = _
  rw [h]
  show some (Function.update fs.content i bytes i) = some bytes
  rw [Function.update_self]

theorem read_openTruncate_ne {path path' : π} (h : path' ≠ path) :
    (fs.openTruncate path).1.read path' = fs.read path' := by
  unfold read
  rw [entry_openTruncate, Function.update_of_ne h]
  cases hentry : fs.entry path' with
  | none => rfl
  | some j =>
      refine congrArg some (content_openTruncate (fs.entry_lt path' j hentry) fun hpath ↦ ?_)
      exact h (fs.entry_inj path' path j hentry hpath)

theorem read_unlink_self (path : π) : (fs.unlink path).read path = none := by
  show (Function.update fs.entry path none path).map fs.content = none
  rw [Function.update_self]
  rfl

theorem read_unlink_ne {path path' : π} (h : path' ≠ path) :
    (fs.unlink path).read path' = fs.read path' := by
  unfold read
  show (Function.update fs.entry path none path').map fs.content = _
  rw [Function.update_of_ne h]

/-- The new path reads as the inode that was moved. -/
theorem read_rename {path path' : π} {fs' : FileSystem π β}
    (h : fs.rename path path' = some fs') : fs'.read path' = fs.read path := by
  obtain ⟨i, hi, hentry, hcontent, -⟩ := rename_eq_some h
  rw [read, hentry, hcontent, Function.update_self, read, hi]

/-- The old path is gone. -/
theorem read_rename_old {path path' : π} {fs' : FileSystem π β}
    (h : fs.rename path path' = some fs') (hne : path ≠ path') : fs'.read path = none := by
  obtain ⟨i, -, hentry, -, -⟩ := rename_eq_some h
  rw [read, hentry, Function.update_of_ne hne, Function.update_self]
  rfl

theorem read_rename_ne {path path' path'' : π} {fs' : FileSystem π β}
    (h : fs.rename path path' = some fs') (hne : path'' ≠ path) (hne' : path'' ≠ path') :
    fs'.read path'' = fs.read path'' := by
  obtain ⟨i, -, hentry, hcontent, -⟩ := rename_eq_some h
  rw [read, hentry, hcontent, Function.update_of_ne hne', Function.update_of_ne hne, read]

end operations

end FileSystem
