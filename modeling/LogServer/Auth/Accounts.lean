import LogServer.Auth.Login
import LogServer.Auth.Passwords

/-!
# Accounts and sessions

Who is let in, and with which password.  Login requests, password changes and `nls-admin create-admin`
run in several processes at once.  They read and write the table of users with one SQL statement at a
time, and `Accounts.system` interleaves these in any order.  A session is a signed token that the server
does not remember: `require_user` asks the signature and the clock, and nothing else.

So the questions are where a password comes from that opens a session (`custody`), and what a token is
good for (`admitted_iff`).  The state remembers every write of a password, every token that was issued and
every request that was let in.

Throttling is left to `Login.system`: here every login request may be let through.
-/

namespace LogServer

open Transition

/-! ## Tokens -/

structure Claims where
  sub : Text
  iat : Nat
  nbf : Nat
  exp : Nat
  iss : Text
  se : Nat
deriving DecidableEq

/-- The library, with tokens `τ`: a token of some claims, signed with a secret, and the claims of a token
that the secret verifies for an issuer at a time. -/
structure Jwt (τ : Type) where
  encode : Claims → Text → τ
  decode : τ → Text → Text → ℚ → Option Claims

/-- A token verifies with its secret, for its issuer, from when it was issued until it expires. -/
structure Jwt.Lawful {τ : Type} (jwt : Jwt τ) : Prop where
  decode_encode : ∀ claims secret issuer now, jwt.decode (jwt.encode claims secret) secret issuer now =
    if claims.iat ≤ now ∧ claims.nbf ≤ now ∧ now < claims.exp ∧ claims.iss = issuer then some claims
    else none

def ISSUER : Text := "network-log-server".toList

structure SessionConfig where
  secretKey : Text
  sessionHours : Nat := 12
  sessionHours_bounds : 1 ≤ sessionHours ∧ sessionHours ≤ 720 := by decide

namespace Tokens

variable {τ : Type} (jwt : Jwt τ)

def issue (secret username : Text) (ttlHours : Nat) (sessionEpoch : Nat) (now : Nat) : τ :=
  jwt.encode ⟨username, now, now, now + ttlHours * 3600, ISSUER, sessionEpoch⟩ secret

def verify (secret : Text) (token : τ) (now : ℚ) : Option Claims := jwt.decode token secret ISSUER now

/-- A token that was issued verifies within its time, and says for whom it is. -/
theorem verify_issue {jwt : Jwt τ} (hjwt : jwt.Lawful) (secret username : Text) (ttlHours now : Nat)
    (time : ℚ) : (verify jwt secret (issue jwt secret username ttlHours 0 now) time).map Claims.sub =
      if (now : ℚ) ≤ time ∧ time < now + ttlHours * 3600 then some username else none := by
  rw [verify, issue, hjwt.decode_encode]
  by_cases h : (now : ℚ) ≤ time ∧ time < now + ttlHours * 3600
  · rw [if_pos h, if_pos ⟨h.1, h.1, by exact_mod_cast h.2, rfl⟩]
    rfl
  · rw [if_neg h, if_neg fun hall ↦ h ⟨hall.1, by exact_mod_cast hall.2.2.1⟩]
    rfl

end Tokens

/-- The answers of `require_user`. -/
def HTTPException.signIn : HTTPException := ⟨401, "Sign in to continue.".toList⟩

def HTTPException.expired : HTTPException :=
  ⟨401, "Your session has expired. Sign in again.".toList⟩

def requireUser {τ : Type} (jwt : Jwt τ) (cfg : SessionConfig) (cookie : Option τ) (now : ℚ) :
    Except HTTPException Text :=
  match cookie with
  | none => .error .signIn
  | some token =>
      match Tokens.verify jwt cfg.secretKey token now with
      | none => .error .expired
      | some claims => .ok claims.sub

/-! ## Requests -/

/-- The arguments of `nls-admin create-admin`. -/
structure CreateAdmin where
  username : Text
  password : Option Text
  random : Bool
  force : Bool

/-- The password that `create-admin` goes on with: what was given, or generated, or typed twice. -/
def CreateAdmin.choose (args : CreateAdmin) (choices : Fin 20 → Fin ALPHABET.length)
    (typed confirm : Text) : Option Text :=
  match args.password with
  | some (c :: password) => some (c :: password)
  | _ => if args.random then some (generatePassword choices)
      else if typed = confirm then some typed else none

inductive PasswordSource where
  | created (random : Bool)
  | reset (random : Bool)
  /-- By a signed-in user, with the password at that time. -/
  | changed (current : Text)
  /-- A login hashed the password again. -/
  | rehashed
deriving DecidableEq

structure PasswordWrite where
  username : Text
  password : Text
  source : PasswordSource
deriving DecidableEq

/-- Whether the password must be changed: only the first one of a user that was created with `--random`. -/
def PasswordSource.mustChange : PasswordSource → Bool
  | .created random => random
  | _ => false

/-- Where a request, or a run of `create-admin`, is suspended. -/
inductive AccountPhase (η : Type) where
  /-- A login that was let through. -/
  | checked (username password : Text)
  /-- `record_failure` is under way. -/
  | failed
  /-- The password is right; `clear` is under way. -/
  | verified (user : User η) (password : Text)
  | cleared (user : User η) (password : Text)
  /-- The password was hashed again if need be. -/
  | rehashed (user : User η) (password : Text)
  | touched (user : User η) (password : Text)
  | changing (username current new : Text)
  /-- `create-admin` has a password. -/
  | creating (username password : Text) (random : Bool)
  | resetting (username password : Text) (random : Bool)
  | inserting (username password : Text) (random : Bool)

/-- A token, the login it answered, and the second in which it was issued. -/
structure Issued (τ : Type) where
  token : τ
  username : Text
  password : Text
  iat : Nat

/-- The table of users, the requests under way, and what the state remembers. -/
structure Accounts (τ η : Type) where
  users : Users η
  requests : Nat → Option (AccountPhase η)
  issued : List (Issued τ)
  admitted : List (Text × ℚ)
  writes : List PasswordWrite

namespace Accounts

variable {τ η : Type}

inductive Action (τ : Type) where
  | login (i : Nat) (username password : Text)
  /-- The user is read, and the password verified. -/
  | verify (i : Nat)
  | recordFailure (i : Nat)
  | clear (i : Nat)
  /-- The statement that writes a password. -/
  | write (i : Nat) (salt : Bytes)
  | touchLogin (i : Nat) (now : Text)
  | issue (i : Nat) (now : Nat)
  | changePassword (i : Nat) (cookie : Option τ) (now : ℚ) (currentPassword newPassword : Text)
  | createAdmin (i : Nat) (args : CreateAdmin) (choices : Fin 20 → Fin ALPHABET.length)
      (typed confirm : Text)
  /-- `create-admin` reads the user again. -/
  | lookup (i : Nat)
  /-- Any other request of a signed-in user. -/
  | request (cookie : Option τ) (now : ℚ)
  /-- The process of a request ends, or the request raises. -/
  | kill (i : Nat)

def empty : Accounts τ η := ⟨[], fun _ ↦ none, [], [], []⟩

variable (s : Accounts τ η)

def goto (i : Nat) (phase : AccountPhase η) : Accounts τ η :=
  { s with requests := Function.update s.requests i (some phase) }

def done (i : Nat) : Accounts τ η := { s with requests := Function.update s.requests i none }

def begin_ (i : Nat) (phase : AccountPhase η) : Option (Accounts τ η) :=
  if (s.requests i).isNone then some (s.goto i phase) else none

variable (jwt : Jwt τ) (hasher : Hasher η) (u : CharTable) (letters : LetterTable)
  (cfg : SessionConfig)

def setPassword (username password : Text) (source : PasswordSource) (salt : Bytes) : Accounts τ η :=
  { s with
    users := s.users.setPassword username (hasher.hash password salt)
    writes := s.writes ++ [⟨username, password, source⟩] }

def letIn (cookie : Option τ) (now : ℚ) : Option (Accounts τ η × Text) :=
  match requireUser jwt cfg cookie now with
  | .error _ => none
  | .ok username => some ({ s with admitted := s.admitted ++ [(username, now)] }, username)

/-- The endpoint `POST /password`, up to the statement that writes. -/
def changePassword (i : Nat) (username currentPassword newPassword : Text) : Accounts τ η :=
  match s.users.getUser username with
  | none => s
  | some user =>
      if !hasher.verify user.passwordHash currentPassword then s
      else if passwordProblems u letters newPassword ≠ [] then s
      else s.goto i (.changing username currentPassword newPassword)

/-- `cmd_create_admin`, up to the second look at the users. -/
def createAdmin (i : Nat) (args : CreateAdmin) (choices : Fin 20 → Fin ALPHABET.length)
    (typed confirm : Text) : Accounts τ η :=
  if (s.users.getUser args.username).isSome ∧ !args.force then s
  else
    match args.choose choices typed confirm with
    | none => s
    | some password =>
        if passwordProblems u letters password ≠ [] ∧ !args.random then s
        else s.goto i (.creating args.username password args.random)

def write (i : Nat) (salt : Bytes) : AccountPhase η → Option (Accounts τ η)
  | .cleared user password =>
      some ((if hasher.needsRehash user.passwordHash then
        s.setPassword hasher user.username password .rehashed salt else s).goto i
          (.rehashed user password))
  | .changing username current new =>
      some ((s.setPassword hasher username new (.changed current) salt).done i)
  | .resetting username password random =>
      some ((s.setPassword hasher username password (.reset random) salt).done i)
  | .inserting username password random =>
      match s.users.createUser username (hasher.hash password salt) random with
      | .error _ => some (s.done i)
      | .ok users =>
          some (({ s with
            users := users
            writes := s.writes ++ [⟨username, password, .created random⟩] } : Accounts τ η).done i)
  | _ => none

def step : Action τ → Option (Accounts τ η)
  | .login i username password => s.begin_ i (.checked username password)
  | .verify i =>
      match s.requests i with
      | some (.checked username password) =>
          match s.users.getUser username with
          -- For an unknown user the password is verified against a hash that nobody has.
          | none => some (s.goto i .failed)
          | some user =>
              some (s.goto i
                (if hasher.verify user.passwordHash password then .verified user password else .failed))
      | _ => none
  | .recordFailure i =>
      match s.requests i with
      | some .failed => some (s.done i)
      | _ => none
  | .clear i =>
      match s.requests i with
      | some (.verified user password) => some (s.goto i (.cleared user password))
      | _ => none
  | .write i salt => (s.requests i).bind (s.write hasher i salt)
  | .touchLogin i now =>
      match s.requests i with
      | some (.rehashed user password) =>
          some (({ s with users := s.users.touchLogin user.username now } : Accounts τ η).goto i
            (.touched user password))
      | _ => none
  | .issue i now =>
      match s.requests i with
      | some (.touched user password) =>
          let token := Tokens.issue jwt cfg.secretKey user.username cfg.sessionHours 0 now
          some (({ s with issued := s.issued ++ [⟨token, user.username, password, now⟩] } :
            Accounts τ η).done i)
      | _ => none
  | .changePassword i cookie now currentPassword newPassword =>
      if (s.requests i).isNone then
        (s.letIn jwt cfg cookie now).map fun x ↦
          x.1.changePassword hasher u letters i x.2 currentPassword newPassword
      else none
  | .createAdmin i args choices typed confirm =>
      if (s.requests i).isNone then some (s.createAdmin u letters i args choices typed confirm)
      else none
  | .lookup i =>
      match s.requests i with
      | some (.creating username password random) =>
          some (s.goto i (if (s.users.getUser username).isSome then .resetting username password random
            else .inserting username password random))
      | _ => none
  | .request cookie now => (s.letIn jwt cfg cookie now).map Prod.fst
  | .kill i => some (s.done i)

def system : System (Accounts τ η) (Action τ) where
  init s := s = empty
  step s := s.step jwt hasher u letters cfg

/-- Nobody else has the secret: what verifies with it was issued. -/
def Unforged (s : Accounts τ η) : Action τ → Prop
  | .changePassword _ (some token) now _ _ | .request (some token) now =>
      (Tokens.verify jwt cfg.secretKey token now).isSome → ∃ x ∈ s.issued, x.token = token
  | _ => True

/-! ## Where passwords come from -/

def Entitled (writes : List PasswordWrite) (username password : Text) : Prop :=
  ∃ w ∈ writes, w.username = username ∧ w.password = password

/-- A password without problems, or one from the command line with `--random`. -/
def Conforming (u : CharTable) (letters : LetterTable) (password : Text) (random : Bool) : Prop :=
  passwordProblems u letters password = [] ∨ random = true

/-- What justifies a write, after the writes before it. -/
def JustifiedBy (u : CharTable) (letters : LetterTable) (before : List PasswordWrite)
    (w : PasswordWrite) : Prop :=
  match w.source with
  | .created random | .reset random => Conforming u letters w.password random
  | .changed current => passwordProblems u letters w.password = [] ∧ Entitled before w.username current
  | .rehashed => Entitled before w.username w.password

/-- Each write is justified by the writes before it. -/
def Justified (u : CharTable) (letters : LetterTable) (writes : List PasswordWrite) : Prop :=
  ∀ before w after, writes = before ++ w :: after → JustifiedBy u letters before w

/-- A row holds what was last written for its user. -/
def RowOk (hasher : Hasher η) (writes : List PasswordWrite) (row : User η) : Prop :=
  ∃ w, (writes.filter fun w ↦ w.username = row.username).getLast? = some w ∧
    hasher.Hashes row.passwordHash w.password ∧ row.mustChange = w.source.mustChange

/-- What a request has made sure of. -/
def PhaseOk (u : CharTable) (letters : LetterTable) (writes : List PasswordWrite)
    (admitted : List (Text × ℚ)) : AccountPhase η → Prop
  | .checked _ _ | .failed => True
  | .verified user password | .cleared user password | .rehashed user password
  | .touched user password => Entitled writes user.username password
  | .changing username current new => Entitled writes username current ∧
      passwordProblems u letters new = [] ∧ ∃ now, (username, now) ∈ admitted
  | .creating _ password random | .resetting _ password random | .inserting _ password random =>
      Conforming u letters password random

structure Custody (hasher : Hasher η) (u : CharTable) (letters : LetterTable) (s : Accounts τ η) :
    Prop where
  nodup : (s.users.map User.username).Nodup
  rows : ∀ row ∈ s.users, RowOk hasher s.writes row
  justified : Justified u letters s.writes
  changed : ∀ w ∈ s.writes, ∀ current, w.source = .changed current →
    ∃ now, (w.username, now) ∈ s.admitted
  requests : ∀ i phase, s.requests i = some phase → PhaseOk u letters s.writes s.admitted phase
  issued : ∀ x ∈ s.issued, Entitled s.writes x.username x.password

section custody

variable {s} {t : Accounts τ η} {jwt hasher u letters cfg} {writes writes' : List PasswordWrite}
  {admitted admitted' : List (Text × ℚ)} {w : PasswordWrite} {username password : Text}
  {phase : AccountPhase η} {i : Nat}

theorem Entitled.mono (h : Entitled writes username password) (hsub : writes ⊆ writes') :
    Entitled writes' username password := by
  obtain ⟨w, hw, hname, hpassword⟩ := h
  exact ⟨w, hsub hw, hname, hpassword⟩

theorem PhaseOk.mono (h : PhaseOk u letters writes admitted phase) (hwrites : writes ⊆ writes')
    (hadmitted : admitted ⊆ admitted') : PhaseOk u letters writes' admitted' phase := by
  cases phase with
  | checked => exact trivial
  | failed => exact trivial
  | verified user password => exact Entitled.mono h hwrites
  | cleared user password => exact Entitled.mono h hwrites
  | rehashed user password => exact Entitled.mono h hwrites
  | touched user password => exact Entitled.mono h hwrites
  | changing username current new =>
      obtain ⟨hentitled, hproblems, now, hnow⟩ := h
      exact ⟨hentitled.mono hwrites, hproblems, now, hadmitted hnow⟩
  | creating => exact h
  | resetting => exact h
  | inserting => exact h

/-- One more write, justified by those before. -/
theorem Justified.append (h : Justified u letters writes) (hw : JustifiedBy u letters writes w) :
    Justified u letters (writes ++ [w]) := by
  intro before v after hsplit
  rcases List.eq_nil_or_concat after with rfl | ⟨after, last, rfl⟩
  · obtain ⟨rfl, hlast⟩ := List.append_inj' hsplit rfl
    cases hlast
    exact hw
  · rw [List.concat_eq_append, ← List.cons_append, ← List.append_assoc] at hsplit
    obtain ⟨hwrites, -⟩ := List.append_inj' hsplit rfl
    exact h before v after hwrites

/-- The row of another user after a write. -/
theorem RowOk.append {row : User η} (h : RowOk hasher writes row) (hne : row.username ≠ w.username) :
    RowOk hasher (writes ++ [w]) row := by
  obtain ⟨v, hv, hrow⟩ := h
  refine ⟨v, ?_, hrow⟩
  rw [List.filter_append, List.filter_singleton]
  simpa [Ne.symm hne] using hv

/-- The row of the user after a write. -/
theorem rowOk_append {row : User η} (hname : row.username = w.username)
    (hhash : hasher.Hashes row.passwordHash w.password)
    (hmust : row.mustChange = w.source.mustChange) : RowOk hasher (writes ++ [w]) row := by
  refine ⟨w, ?_, hhash, hmust⟩
  rw [List.filter_append, List.filter_singleton]
  simp [hname]

/-- A password that verifies is one that was set. -/
theorem RowOk.entitled {row : User η} (h : RowOk hasher writes row)
    (hverify : hasher.verify row.passwordHash password = true) :
    Entitled writes row.username password := by
  obtain ⟨w, hw, hhash, -⟩ := h
  have hmem := List.mem_filter.mp (List.mem_of_getLast? hw)
  exact ⟨w, hmem.1, by simpa using hmem.2, ((hhash password).mp hverify).symm⟩

theorem custody_empty : Custody hasher u letters (empty : Accounts τ η) where
  nodup := List.nodup_nil
  rows := fun row hrow ↦ by cases hrow
  justified := fun before w after h ↦ by simp [empty] at h
  changed := fun w hw ↦ by cases hw
  requests := fun i phase h ↦ by cases h
  issued := fun x hx ↦ by cases hx

/-- A request goes on. -/
theorem Custody.goto (h : s.Custody hasher u letters)
    (hphase : PhaseOk u letters s.writes s.admitted phase) :
    (s.goto i phase).Custody hasher u letters where
  nodup := h.nodup
  rows := h.rows
  justified := h.justified
  changed := h.changed
  requests := fun j other hother ↦ by
    replace hother : Function.update s.requests i (some phase) j = some other := hother
    rw [Function.update_apply] at hother
    split at hother
    · exact Option.some.inj hother ▸ hphase
    · exact h.requests j other hother
  issued := h.issued

/-- A request is answered. -/
theorem Custody.done (h : s.Custody hasher u letters) : (s.done i).Custody hasher u letters where
  nodup := h.nodup
  rows := h.rows
  justified := h.justified
  changed := h.changed
  requests := fun j other hother ↦ by
    replace hother : Function.update s.requests i none j = some other := hother
    rw [Function.update_apply] at hother
    split at hother
    · cases hother
    · exact h.requests j other hother
  issued := h.issued

/-- **A password is written**, with the rows as they should be then. -/
theorem Custody.write (h : s.Custody hasher u letters) {users : Users η}
    (hnodup : (users.map User.username).Nodup)
    (hrows : ∀ row ∈ users, row ∈ s.users ∧ row.username ≠ w.username ∨ row.username = w.username ∧
      hasher.Hashes row.passwordHash w.password ∧ row.mustChange = w.source.mustChange)
    (hjustified : JustifiedBy u letters s.writes w)
    (hchanged : ∀ current, w.source = .changed current → ∃ now, (w.username, now) ∈ s.admitted) :
    ({ s with users := users, writes := s.writes ++ [w] } : Accounts τ η).Custody hasher u letters where
  nodup := hnodup
  rows := fun row hrow ↦ by
    rcases hrows row hrow with ⟨hold, hne⟩ | ⟨hname, hhash, hmust⟩
    · exact (h.rows row hold).append hne
    · exact rowOk_append hname hhash hmust
  justified := h.justified.append hjustified
  changed := List.forall_mem_append.mpr ⟨h.changed, List.forall_mem_singleton.mpr hchanged⟩
  requests := fun j phase hphase ↦
    (h.requests j phase hphase).mono (List.subset_append_left _ _) (List.Subset.refl _)
  issued := fun x hx ↦ (h.issued x hx).mono (List.subset_append_left _ _)

/-- `UPDATE users SET password_hash = ?, must_change = 0`. -/
theorem Custody.setPassword (h : s.Custody hasher u letters) (hhasher : hasher.Lawful)
    {source : PasswordSource} (hmust : source.mustChange = false)
    (hjustified : JustifiedBy u letters s.writes ⟨username, password, source⟩)
    (hchanged : ∀ current, source = .changed current → ∃ now, (username, now) ∈ s.admitted)
    (salt : Bytes) : (s.setPassword hasher username password source salt).Custody hasher u letters := by
  refine h.write (w := ⟨username, password, source⟩) ?_ (fun row hrow ↦ ?_) hjustified hchanged
  · rw [Users.username_setPassword]
    exact h.nodup
  · refine (Users.mem_setPassword hrow).imp_right fun ⟨hname, hhash, hrowMust⟩ ↦ ⟨hname, ?_, ?_⟩
    · exact hhash ▸ hhasher.hashes password salt
    · exact hrowMust.trans hmust.symm

/-- A request is let in. -/
theorem Custody.letIn (h : s.Custody hasher u letters) {cookie : Option τ} {now : ℚ}
    {x : Accounts τ η × Text} (hx : s.letIn jwt cfg cookie now = some x) :
    x.1.Custody hasher u letters ∧ x.1.users = s.users ∧ x.1.writes = s.writes ∧
      (x.2, now) ∈ x.1.admitted := by
  rw [Accounts.letIn] at hx
  split at hx <;> cases hx
  rename_i username _
  have hsub : s.admitted ⊆ s.admitted ++ [(username, now)] := List.subset_append_left _ _
  refine ⟨⟨h.nodup, h.rows, h.justified, fun w hw current hcurrent ↦ ?_, fun j phase hphase ↦ ?_,
    h.issued⟩, rfl, rfl, List.mem_append_right _ (List.mem_singleton_self _)⟩
  · obtain ⟨time, htime⟩ := h.changed w hw current hcurrent
    exact ⟨time, hsub htime⟩
  · exact (h.requests j phase hphase).mono (List.Subset.refl _) hsub

/-! ### The steps -/

/-- A password is verified against the row of its user. -/
theorem Custody.verify (h : s.Custody hasher u letters) {user : User η} (huser : user ∈ s.users) :
    (s.goto i (if hasher.verify user.passwordHash password then .verified user password
      else .failed)).Custody hasher u letters := by
  apply h.goto
  split
  · rename_i hverify
    exact (h.rows user huser).entitled hverify
  · exact trivial

/-- A new user is inserted with a password. -/
theorem Custody.createUser (h : s.Custody hasher u letters) (hhasher : hasher.Lawful) {users : Users η}
    {random : Bool} {salt : Bytes}
    (hcreate : s.users.createUser username (hasher.hash password salt) random = .ok users)
    (hok : Conforming u letters password random) :
    ({ s with
      users := users
      writes := s.writes ++ [⟨username, password, .created random⟩] } : Accounts τ η).Custody
        hasher u letters := by
  obtain ⟨hnew, rfl⟩ := Users.createUser_eq_ok hcreate
  refine h.write (w := ⟨username, password, .created random⟩) ?_ (fun row hrow ↦ ?_) hok
    (fun current hcurrent ↦ by cases hcurrent)
  · rw [List.map_append, List.nodup_append']
    refine ⟨h.nodup, List.nodup_singleton _, ?_⟩
    rw [List.map_singleton, List.disjoint_singleton]
    exact hnew
  · rcases List.mem_append.mp hrow with hold | hrow
    · refine .inl ⟨hold, fun heq ↦ hnew ?_⟩
      exact List.mem_map.mpr ⟨row, hold, heq⟩
    · obtain rfl := List.mem_singleton.mp hrow
      exact .inr ⟨rfl, hhasher.hashes password salt, rfl⟩

/-- **The statement that writes a password** keeps custody. -/
theorem Custody.writeStep (h : s.Custody hasher u letters) (hhasher : hasher.Lawful)
    (hok : PhaseOk u letters s.writes s.admitted phase) {salt : Bytes}
    (hs : s.write hasher i salt phase = some t) : t.Custody hasher u letters := by
  cases phase with
  | cleared user password =>
      cases hs
      split
      · have hjustified : JustifiedBy u letters s.writes ⟨user.username, password, .rehashed⟩ := hok
        have hset := h.setPassword hhasher rfl hjustified (fun _ hcurrent ↦ by cases hcurrent) salt
        exact hset.goto (Entitled.mono hok (List.subset_append_left _ _))
      · exact h.goto hok
  | changing username current new =>
      cases hs
      obtain ⟨hentitled, hproblems, hadmitted⟩ := hok
      have hjustified : JustifiedBy u letters s.writes ⟨username, new, .changed current⟩ :=
        ⟨hproblems, hentitled⟩
      exact (h.setPassword hhasher rfl hjustified (fun _ _ ↦ hadmitted) salt).done
  | resetting username password random =>
      cases hs
      have hjustified : JustifiedBy u letters s.writes ⟨username, password, .reset random⟩ := hok
      exact (h.setPassword hhasher rfl hjustified (fun _ hcurrent ↦ by cases hcurrent) salt).done
  | inserting username password random =>
      rw [Accounts.write] at hs
      cases hcreate : s.users.createUser username (hasher.hash password salt) random with
      | error e =>
          rw [hcreate] at hs
          cases hs
          exact h.done
      | ok users =>
          rw [hcreate] at hs
          cases hs
          exact (h.createUser hhasher hcreate hok).done
  | _ => cases hs

/-- The time of a login is written. -/
theorem Custody.touchLogin (h : s.Custody hasher u letters) (now : Text) :
    ({ s with users := s.users.touchLogin username now } : Accounts τ η).Custody hasher u letters := by
  refine ⟨?_, fun row hrow ↦ ?_, h.justified, h.changed, h.requests, h.issued⟩
  · dsimp only
    rw [Users.username_touchLogin]
    exact h.nodup
  · obtain ⟨old, hold, hname, hhash, hmust⟩ := Users.exists_mem_touchLogin hrow
    obtain ⟨w, hw, hhashes, hmustOld⟩ := h.rows old hold
    exact ⟨w, hname ▸ hw, hhash ▸ hhashes, hmust ▸ hmustOld⟩

/-- A signed-in user asks for another password. -/
theorem Custody.changePassword (h : s.Custody hasher u letters) {now : ℚ}
    (hadmitted : (username, now) ∈ s.admitted) (currentPassword newPassword : Text) :
    (s.changePassword hasher u letters i username currentPassword newPassword).Custody
      hasher u letters := by
  rw [Accounts.changePassword]
  cases huser : s.users.getUser username with
  | none => exact h
  | some user =>
      obtain ⟨hmem, hname⟩ := Users.getUser_eq_some huser
      dsimp only
      split
      · exact h
      · rename_i hverify
        split
        · exact h
        · rename_i hproblems
          refine h.goto ⟨?_, not_not.mp hproblems, now, hadmitted⟩
          rw [← hname]
          exact (h.rows user hmem).entitled (by simpa using hverify)

/-- `create-admin` comes to a password. -/
theorem Custody.createAdmin (h : s.Custody hasher u letters) (args : CreateAdmin)
    (choices : Fin 20 → Fin ALPHABET.length) (typed confirm : Text) :
    (s.createAdmin u letters i args choices typed confirm).Custody hasher u letters := by
  rw [Accounts.createAdmin]
  split
  · exact h
  · cases args.choose choices typed confirm with
    | none => exact h
    | some password =>
        dsimp only
        split
        · exact h
        · rename_i hok
          refine h.goto (show Conforming u letters password args.random from ?_)
          rw [not_and_or, not_not] at hok
          exact hok.imp_right fun hrandom ↦ by simpa using hrandom

/-- **Every step keeps custody.** -/
theorem Custody.step (h : s.Custody hasher u letters) (hhasher : hasher.Lawful) {a : Action τ}
    (hs : s.step jwt hasher u letters cfg a = some t) : t.Custody hasher u letters := by
  cases a with
  | login i username password =>
      rw [Accounts.step, begin_] at hs
      split at hs <;> cases hs
      exact h.goto trivial
  | verify i =>
      rw [Accounts.step] at hs
      split at hs
      · rename_i username password _
        cases huser : s.users.getUser username with
        | none =>
            rw [huser] at hs
            cases hs
            exact h.goto trivial
        | some user =>
            rw [huser] at hs
            cases hs
            exact h.verify (Users.getUser_eq_some huser).1
      · cases hs
  | recordFailure i =>
      rw [Accounts.step] at hs
      split at hs <;> cases hs
      exact h.done
  | clear i =>
      rw [Accounts.step] at hs
      split at hs
      · rename_i hphase
        cases hs
        have hok := h.requests i _ hphase
        exact h.goto hok
      · cases hs
  | write i salt =>
      obtain ⟨phase, hphase, hs⟩ := Option.bind_eq_some_iff.mp hs
      exact h.writeStep hhasher (h.requests i phase hphase) hs
  | touchLogin i now =>
      rw [Accounts.step] at hs
      split at hs
      · rename_i hphase
        cases hs
        have hok := h.requests i _ hphase
        exact (h.touchLogin now).goto hok
      · cases hs
  | issue i now =>
      rw [Accounts.step] at hs
      split at hs
      · rename_i hphase
        cases hs
        refine Custody.done ⟨h.nodup, h.rows, h.justified, h.changed, h.requests, ?_⟩
        exact List.forall_mem_append.mpr
          ⟨h.issued, List.forall_mem_singleton.mpr (h.requests i _ hphase)⟩
      · cases hs
  | changePassword i cookie now currentPassword newPassword =>
      rw [Accounts.step] at hs
      split at hs
      · obtain ⟨x, hx, rfl⟩ := Option.map_eq_some_iff.mp hs
        obtain ⟨h', -, -, hadmitted⟩ := h.letIn hx
        exact h'.changePassword hadmitted currentPassword newPassword
      · cases hs
  | createAdmin i args choices typed confirm =>
      rw [Accounts.step] at hs
      split at hs
      · cases hs
        exact h.createAdmin args choices typed confirm
      · cases hs
  | lookup i =>
      rw [Accounts.step] at hs
      split at hs
      · rename_i hphase
        cases hs
        have hok := h.requests i _ hphase
        apply h.goto
        split <;> exact hok
      · cases hs
  | request cookie now =>
      obtain ⟨x, hx, rfl⟩ := Option.map_eq_some_iff.mp hs
      exact (h.letIn hx).1
  | kill i =>
      cases hs
      exact h.done

theorem custody_reach (hhasher : hasher.Lawful)
    (h : Reach (system jwt hasher u letters cfg) (fun _ _ ↦ True) s) : s.Custody hasher u letters := by
  refine Reach.invariant (P := Custody hasher u letters) ?_ ?_ h
  · rintro s rfl
    exact custody_empty
  · exact fun s a t hs _ hstep ↦ hs.step hhasher hstep

/-- The writes before the last, and the last. -/
theorem Justified.of_append (h : Justified u letters (writes ++ [w])) :
    Justified u letters writes ∧ JustifiedBy u letters writes w := by
  refine ⟨fun before v after hsplit ↦ ?_, h writes w [] rfl⟩
  exact h before v (after ++ [w]) (by rw [hsplit, List.append_assoc, List.cons_append])

/-- Hashing a password again makes no new password: each is without problems, or was given or generated
on the command line with `--random`. -/
theorem Justified.conforming (h : Justified u letters writes) (hw : w ∈ writes) :
    passwordProblems u letters w.password = [] ∨ ∃ v ∈ writes,
      v.username = w.username ∧ v.password = w.password ∧
        (v.source = .created true ∨ v.source = .reset true) := by
  induction writes using List.reverseRecOn generalizing w with
  | nil => cases hw
  | append_singleton writes last ih =>
      obtain ⟨hwrites, hlast⟩ := h.of_append
      have hold : ∀ v ∈ writes, passwordProblems u letters v.password = [] ∨
          ∃ v' ∈ writes ++ [last], v'.username = v.username ∧ v'.password = v.password ∧
            (v'.source = .created true ∨ v'.source = .reset true) := by
        intro v hv
        refine (ih hwrites hv).imp_right ?_
        rintro ⟨v', hv', hrest⟩
        exact ⟨v', List.mem_append_left _ hv', hrest⟩
      rcases List.mem_append.mp hw with hw | hw
      · exact hold w hw
      · obtain rfl := List.mem_singleton.mp hw
        rw [JustifiedBy] at hlast
        cases hsource : w.source with
        | created random =>
            rw [hsource] at hlast
            refine hlast.imp_right fun hrandom ↦ ⟨w, List.mem_append_right _ hw, rfl, rfl, .inl ?_⟩
            rw [hsource, hrandom]
        | reset random =>
            rw [hsource] at hlast
            refine hlast.imp_right fun hrandom ↦ ⟨w, List.mem_append_right _ hw, rfl, rfl, .inr ?_⟩
            rw [hsource, hrandom]
        | changed current =>
            rw [hsource] at hlast
            exact .inl hlast.1
        | rehashed =>
            rw [hsource] at hlast
            obtain ⟨v, hv, hname, hpassword⟩ := hlast
            rw [← hname, ← hpassword]
            exact hold v hv

/-- The sum of the libraries: tokens and hashes that anybody can read. -/
def plainJwt : Jwt (Claims × Text) where
  encode claims secret := (claims, secret)
  decode token secret issuer now :=
    if token.2 = secret ∧ token.1.iat ≤ now ∧ token.1.nbf ≤ now ∧ now < token.1.exp ∧
      token.1.iss = issuer then some token.1 else none

def plainHasher : Hasher Text where
  hash password _ := password
  verify h password := h = password
  needsRehash _ := true

theorem plainJwt_lawful : plainJwt.Lawful where
  decode_encode claims secret issuer now := by
    rw [plainJwt]
    simp only [true_and]

theorem plainHasher_lawful : plainHasher.Lawful where
  hashes password salt p := by
    rw [plainHasher, decide_eq_true_iff, eq_comm]

/-- A new administrator signs in. -/
theorem exists_session : ∃ s : Accounts (Claims × Text) Text,
    Reach (system plainJwt plainHasher .ascii .ascii ⟨['k'], 12, by decide⟩)
      (Unforged plainJwt ⟨['k'], 12, by decide⟩) s ∧ s.users.length = 1 ∧ s.issued.length = 1 ∧
      s.admitted = [(['a'], 101)] := by
  have hrun : ∃ s : Accounts (Claims × Text) Text,
      (system plainJwt plainHasher .ascii .ascii ⟨['k'], 12, by decide⟩).Run
        (Unforged plainJwt ⟨['k'], 12, by decide⟩) s empty
        [.createAdmin 0 ⟨['a'], some ['p'], true, false⟩ (fun _ ↦ ⟨0, by decide +kernel⟩) [] [],
          .lookup 0, .write 0 [], .login 0 ['a'] ['p'], .verify 0, .clear 0, .write 0 [],
          .touchLogin 0 [], .issue 0 100,
          .request (some (⟨['a'], 100, 100, 100 + 12 * 3600, ISSUER, 0⟩, ['k'])) 101] ∧
      s.users.length = 1 ∧ s.issued.length = 1 ∧ s.admitted = [(['a'], 101)] := by
    simp [System.Run, system, step, empty, createAdmin, CreateAdmin.choose, Users.getUser, goto, done,
      write, Users.createUser, begin_, plainHasher, plainJwt, setPassword, Users.setPassword,
      Users.touchLogin, Tokens.issue, Tokens.verify, letIn, requireUser, Unforged]
    norm_num
  obtain ⟨s, hrun, hrest⟩ := hrun
  exact ⟨s, (Reach.init rfl).run hrun, hrest⟩

/-- **Every password has a history.**  In every run, whatever overlaps: a row verifies the password that
was last set for its user, and no other, and must be changed exactly if setting it created the user with
`--random`; a password is set only from the command line, by a signed-in user who gave the password of some
earlier time, or again by a login that gave it; each password that is ever set is without problems or
comes from the command line with `--random`; and a token is issued only for a password that was set for
its user. -/
theorem password_custody (hhasher : hasher.Lawful)
    (h : Reach (system jwt hasher u letters cfg) (fun _ _ ↦ True) s) :
    (∀ row ∈ s.users, ∃ w, (s.writes.filter fun w ↦ w.username = row.username).getLast? = some w ∧
      (∀ p, hasher.verify row.passwordHash p = true ↔ p = w.password) ∧
      row.mustChange = w.source.mustChange) ∧
    (∀ before w after, s.writes = before ++ w :: after → JustifiedBy u letters before w) ∧
    (∀ w ∈ s.writes, (∀ current, w.source = .changed current → ∃ now, (w.username, now) ∈ s.admitted) ∧
      (passwordProblems u letters w.password = [] ∨ ∃ v ∈ s.writes, v.username = w.username ∧
        v.password = w.password ∧ (v.source = .created true ∨ v.source = .reset true))) ∧
    ∀ x ∈ s.issued, ∃ w ∈ s.writes, w.username = x.username ∧ w.password = x.password := by
  have hcustody := custody_reach hhasher h
  exact ⟨hcustody.rows, hcustody.justified,
    fun w hw ↦ ⟨hcustody.changed w hw, hcustody.justified.conforming hw⟩, hcustody.issued⟩

/-- The administrator's row. -/
theorem password_custody_session : ∃ s : Accounts (Claims × Text) Text, s.users.length = 1 ∧
    ∀ row ∈ s.users, ∃ w, (s.writes.filter fun w ↦ w.username = row.username).getLast? = some w ∧
      (∀ p, plainHasher.verify row.passwordHash p = true ↔ p = w.password) ∧
      row.mustChange = w.source.mustChange := by
  obtain ⟨s, h, hlength, -⟩ := exists_session
  exact ⟨s, hlength, (password_custody plainHasher_lawful h.weaken).1⟩

end custody

/-! ## What a token is good for -/

/-- What was issued and who was let in. -/
structure Sessions (jwt : Jwt τ) (cfg : SessionConfig) (s : Accounts τ η) : Prop where
  issued : ∀ x ∈ s.issued, x.token = Tokens.issue jwt cfg.secretKey x.username cfg.sessionHours 0 x.iat
  admitted : ∀ x ∈ s.admitted, ∃ y ∈ s.issued,
    y.username = x.1 ∧ (y.iat : ℚ) ≤ x.2 ∧ x.2 < y.iat + cfg.sessionHours * 3600

section sessions

variable {s} {t : Accounts τ η} {jwt hasher u letters cfg} {cookie : Option τ} {now : ℚ}
  {username : Text}

/-- The user of a request is that of a token which was issued, in its time. -/
theorem Sessions.requireUser_eq_ok (h : s.Sessions jwt cfg) (hjwt : jwt.Lawful)
    (hok : s.Unforged jwt cfg (.request cookie now)) :
    requireUser jwt cfg cookie now = .ok username ↔ ∃ x ∈ s.issued, cookie = some x.token ∧
      x.username = username ∧ (x.iat : ℚ) ≤ now ∧ now < x.iat + cfg.sessionHours * 3600 := by
  constructor
  · intro huser
    unfold requireUser at huser
    split at huser
    · cases huser
    · rename_i token
      split at huser
      · cases huser
      · rename_i claims hverify
        cases huser
        obtain ⟨x, hx, hxtoken⟩ := hok (by rw [hverify]; rfl)
        have hsub := Tokens.verify_issue hjwt cfg.secretKey x.username cfg.sessionHours x.iat now
        rw [← h.issued x hx, hxtoken, hverify] at hsub
        split at hsub
        · rename_i hwindow
          exact ⟨x, hx, by rw [hxtoken], (Option.some.inj hsub).symm, hwindow⟩
        · cases hsub
  · rintro ⟨x, hx, rfl, rfl, hwindow⟩
    have hsub := Tokens.verify_issue hjwt cfg.secretKey x.username cfg.sessionHours x.iat now
    rw [← h.issued x hx, if_pos hwindow] at hsub
    obtain ⟨claims, hverify, hname⟩ := Option.map_eq_some_iff.mp hsub
    rw [requireUser, hverify, ← hname]

/-- A step that issues nothing and lets nobody in. -/
theorem Sessions.congr (h : s.Sessions jwt cfg) (hissued : t.issued = s.issued)
    (hadmitted : t.admitted = s.admitted) : t.Sessions jwt cfg :=
  ⟨hissued ▸ h.issued, by rw [hissued, hadmitted]; exact h.admitted⟩

/-- A request is let in. -/
theorem Sessions.letIn (h : s.Sessions jwt cfg) (hjwt : jwt.Lawful)
    (hok : s.Unforged jwt cfg (.request cookie now)) {x : Accounts τ η × Text}
    (hx : s.letIn jwt cfg cookie now = some x) : x.1.Sessions jwt cfg := by
  rw [Accounts.letIn] at hx
  split at hx
  · cases hx
  · rename_i username huser
    cases hx
    obtain ⟨y, hy, -, hname, hwindow⟩ := (h.requireUser_eq_ok hjwt hok).mp huser
    exact ⟨h.issued, List.forall_mem_append.mpr
      ⟨h.admitted, List.forall_mem_singleton.mpr ⟨y, hy, hname, hwindow⟩⟩⟩

/-- What the table of users does is no business of the sessions. -/
theorem issued_admitted_write {phase : AccountPhase η} {i : Nat} {salt : Bytes}
    (hs : s.write hasher i salt phase = some t) : t.issued = s.issued ∧ t.admitted = s.admitted := by
  cases phase with
  | cleared user password =>
      cases hs
      split <;> exact ⟨rfl, rfl⟩
  | changing username current new =>
      cases hs
      exact ⟨rfl, rfl⟩
  | resetting username password random =>
      cases hs
      exact ⟨rfl, rfl⟩
  | inserting username password random =>
      rw [Accounts.write] at hs
      split at hs <;> cases hs <;> exact ⟨rfl, rfl⟩
  | _ => cases hs

theorem Sessions.step (h : s.Sessions jwt cfg) (hjwt : jwt.Lawful) {a : Action τ}
    (hok : s.Unforged jwt cfg a) (hs : s.step jwt hasher u letters cfg a = some t) :
    t.Sessions jwt cfg := by
  cases a with
  | login i username password =>
      rw [Accounts.step, begin_] at hs
      split at hs <;> cases hs
      exact h.congr rfl rfl
  | verify i =>
      rw [Accounts.step] at hs
      split at hs
      · split at hs <;> cases hs <;> exact h.congr rfl rfl
      · cases hs
  | recordFailure i =>
      rw [Accounts.step] at hs
      split at hs <;> cases hs
      exact h.congr rfl rfl
  | clear i =>
      rw [Accounts.step] at hs
      split at hs <;> cases hs
      exact h.congr rfl rfl
  | write i salt =>
      obtain ⟨phase, -, hs⟩ := Option.bind_eq_some_iff.mp hs
      obtain ⟨hissued, hadmitted⟩ := issued_admitted_write hs
      exact h.congr hissued hadmitted
  | touchLogin i now =>
      rw [Accounts.step] at hs
      split at hs <;> cases hs
      exact h.congr rfl rfl
  | issue i now =>
      rw [Accounts.step] at hs
      split at hs
      · cases hs
        refine ⟨List.forall_mem_append.mpr ⟨h.issued, List.forall_mem_singleton.mpr rfl⟩, fun x hx ↦ ?_⟩
        obtain ⟨y, hy, hwindow⟩ := h.admitted x hx
        exact ⟨y, List.mem_append_left _ hy, hwindow⟩
      · cases hs
  | changePassword i cookie now currentPassword newPassword =>
      rw [Accounts.step] at hs
      split at hs
      · obtain ⟨x, hx, rfl⟩ := Option.map_eq_some_iff.mp hs
        have hok' : s.Unforged jwt cfg (.request cookie now) := by
          cases cookie with
          | none => exact trivial
          | some token => exact hok
        refine (h.letIn hjwt hok' hx).congr ?_ ?_ <;>
          (rw [Accounts.changePassword]; repeat' split) <;> rfl
      · cases hs
  | createAdmin i args choices typed confirm =>
      rw [Accounts.step] at hs
      split at hs
      · cases hs
        refine h.congr ?_ ?_ <;> (rw [Accounts.createAdmin]; repeat' split) <;> rfl
      · cases hs
  | lookup i =>
      rw [Accounts.step] at hs
      split at hs <;> cases hs
      exact h.congr rfl rfl
  | request cookie now =>
      obtain ⟨x, hx, rfl⟩ := Option.map_eq_some_iff.mp hs
      exact h.letIn hjwt hok hx
  | kill i =>
      cases hs
      exact h.congr rfl rfl

/-- **A session is a token in its time.**  In every run in which nobody forges a token: everybody who was
let in had a token that a login was answered with, not longer ago than a session lasts; and whatever has
happened since to the user and the password, a request is let in exactly if it carries such a token. -/
theorem admitted_iff (hjwt : jwt.Lawful)
    (h : Reach (system jwt hasher u letters cfg) (Unforged jwt cfg) s) :
    (∀ x ∈ s.admitted, ∃ y ∈ s.issued,
      y.username = x.1 ∧ (y.iat : ℚ) ≤ x.2 ∧ x.2 < y.iat + cfg.sessionHours * 3600) ∧
    ∀ cookie now username, s.Unforged jwt cfg (.request cookie now) →
      (requireUser jwt cfg cookie now = .ok username ↔ ∃ x ∈ s.issued, cookie = some x.token ∧
        x.username = username ∧ (x.iat : ℚ) ≤ now ∧ now < x.iat + cfg.sessionHours * 3600) := by
  have hsessions : s.Sessions jwt cfg := by
    refine Reach.invariant (P := Sessions jwt cfg) ?_ ?_ h
    · rintro s rfl
      exact ⟨fun x hx ↦ (by cases hx), fun x hx ↦ by cases hx⟩
    · exact fun s a t hs hok hstep ↦ hs.step hjwt hok hstep
  exact ⟨hsessions.admitted, fun cookie now username hok ↦ hsessions.requireUser_eq_ok hjwt hok⟩

/-- The administrator is let in. -/
theorem admitted_iff_session : ∃ s : Accounts (Claims × Text) Text, s.admitted = [(['a'], 101)] ∧
    ∀ x ∈ s.admitted, ∃ y ∈ s.issued,
      y.username = x.1 ∧ (y.iat : ℚ) ≤ x.2 ∧ x.2 < y.iat + (12 : ℕ) * 3600 := by
  obtain ⟨s, h, -, -, hadmitted⟩ := exists_session
  exact ⟨s, hadmitted, (admitted_iff plainJwt_lawful h).1⟩

end sessions

end Accounts

end LogServer
