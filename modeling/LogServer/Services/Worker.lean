import LogServer.Database.ClickHouse
import LogServer.Lib.Transition
import LogServer.Queue.RedisQueue

/-!
# Workers, maintenance and the queue

Receivers push entries into the queue.  Workers claim batches, insert them into the log table and
acknowledge them.  Maintenance puts back the in-flight lists of workers it takes for dead.  All of
them are separate processes that share nothing but Redis, and `Pipeline.system` interleaves their
steps in any order.

A worker is where `BatchWorker.run` is suspended: before a check of the stop event, or waiting for
a Redis call or an insert (`Phase`).  Each call is atomic in Redis or ClickHouse but may raise at the
caller, without or after having taken effect (`Reply`).  A process may be killed between any two steps, and
a process under any id may be started at any time.

The state remembers every entry ever pushed and every entry whose row was inserted.
Entries are numbered as they are pushed, so that equal payloads are told apart.
-/

namespace LogServer

open Transition

variable {δ : Type}

/-! ## Decoding a claim -/

namespace BatchWorker

variable (msgpack : Msgpack) (clock : Clock δ)

/-- A decoded row with its epoch second made a `datetime`. -/
def stamp : List PyValue → Except PyError (List (Field δ))
  | [] => .error .other
  | second :: fields => do
      let d ← clock.fromtimestamp second
      return .datetime d :: fields.map .value

/-- The rows of a claim, and how many of its entries are undecodable. -/
def _decode : List Bytes → Except PyError (List (List (Field δ)) × Nat)
  | [] => .ok ([], 0)
  | payload :: claimed =>
      match LogQueue.decode msgpack payload with
      | none => do
          let (rows, bad) ← _decode claimed
          return (rows, bad + 1)
      | some row => do
          let row ← stamp clock row
          let (rows, bad) ← _decode claimed
          return (row :: rows, bad)

end BatchWorker

/-! ## Processes -/

/-- A queue entry, with its number. -/
structure Entry where
  id : Nat
  payload : Bytes
deriving DecidableEq, Repr

/-- How a call of Redis or ClickHouse ends for the caller. -/
inductive Reply where
  /-- It took effect and returned. -/
  | ok
  /-- It raised and had no effect. -/
  | failed
  /-- It took effect, and raised because the reply was lost. -/
  | lost
deriving DecidableEq, Repr

def Reply.effect : Reply → Bool
  | .ok | .lost => true
  | .failed => false

inductive Phase where
  /-- The release at the start. -/
  | starting
  /-- The check of the main loop. -/
  | idle
  /-- The claim. -/
  | claiming
  /-- The check of the retry loop. -/
  | writing (claimed : List Entry)
  /-- The insert. -/
  | inserting (claimed : List Entry)
  /-- The acknowledgement. -/
  | acking (claimed : List Entry)
  /-- The release of a claim that is given up. -/
  | releasing (claimed : List Entry)
  /-- The release of the shutdown. -/
  | draining
deriving DecidableEq, Repr

def Phase.claimed : Phase → List Entry
  | .writing claimed | .inserting claimed | .acking claimed | .releasing claimed => claimed
  | .starting | .idle | .claiming | .draining => []

structure Worker where
  host : Text
  pid : Nat
  /-- `NLS_WORKER_ID`. -/
  envId : Option Text
  phase : Phase
  stop : Bool
deriving DecidableEq, Repr

/-- The default id of a process. -/
def processId (host : Text) (pid : Text) : Text := host ++ ['-'] ++ pid

def workerId (host : Text) (pid : Nat) (envId : Option Text) : Text :=
  match envId with
  | some id => if id = [] then processId host (Nat.toDigits 10 pid) else id
  | none => processId host (Nat.toDigits 10 pid)

def inflightKey (workerId : Text) : Text := INFLIGHT_PREFIX ++ workerId

namespace Worker

def id (w : Worker) : Text := workerId w.host w.pid w.envId

def key (w : Worker) : Text := inflightKey w.id

end Worker

/-- The ids that maintenance takes for live: one for each process of its host, by the entries of
`/proc`. -/
def _liveWorkerIds (host : Text) (entries : List Text) : List Text :=
  (entries.filter fun entry ↦ !entry.isEmpty && entry.all Char.isDigit).map (processId host)

/-! ## The system -/

structure Pipeline where
  redis : Redis Entry
  pushed : List Entry
  inserted : List Entry
  workers : Nat → Option Worker
  /-- The maintenance runs, each with its snapshot of live ids. -/
  recoveries : Nat → Option (List Text)

structure WorkerConfig where
  batchSize : Nat
  batchSize_pos : 0 < batchSize

namespace Pipeline

inductive WorkerAction where
  /-- The stop event is checked. -/
  | check
  /-- A Redis call ends. -/
  | redis (reply : Reply)
  /-- An insert ends. -/
  | insert (reply : Reply)
deriving DecidableEq, Repr

inductive Action where
  | push (payloads : List Bytes) (reply : Reply)
  | start (p : Nat) (host : Text) (pid : Nat) (envId : Option Text)
  | kill (p : Nat)
  /-- A signal sets the stop event. -/
  | stop (p : Nat)
  | worker (p : Nat) (a : WorkerAction)
  | beginRecovery (m : Nat) (host : Text) (entries : List Text)
  /-- The scan comes to the in-flight list of a worker id. -/
  | visit (m : Nat) (id : Text) (reply : Reply)
  | endRecovery (m : Nat)
deriving DecidableEq, Repr

def empty : Pipeline := ⟨⟨[], fun _ ↦ []⟩, [], [], fun _ ↦ none, fun _ ↦ none⟩

variable (s : Pipeline) (p : Nat) (w : Worker)

def goto (phase : Phase) : Pipeline :=
  { s with workers := Function.update s.workers p (some { w with phase := phase }) }

def exit : Pipeline := { s with workers := Function.update s.workers p none }

/-- The entries made of payloads, numbered from `n` on. -/
def number : Nat → List Bytes → List Entry
  | _, [] => []
  | n, payload :: payloads => ⟨n, payload⟩ :: number (n + 1) payloads

def push (payloads : List Bytes) : Pipeline :=
  let entries := number s.pushed.length payloads
  { s with redis := s.redis.pushMany entries, pushed := s.pushed ++ entries }

def release (key : Text) (reply : Reply) : Pipeline :=
  if reply.effect then { s with redis := (s.redis.release key).1 } else s

def ack (key : Text) (reply : Reply) : Pipeline :=
  if reply.effect then { s with redis := s.redis.ack key } else s

variable (cfg : WorkerConfig) (msgpack : Msgpack) (clock : Clock δ)

/-- Whether an entry is one that the worker can decode. -/
def decodable (x : Entry) : Bool := (LogQueue.decode msgpack x.payload).isSome

/-- The rows of a claim are inserted, if the insert takes effect. -/
def store (claimed : List Entry) (reply : Reply) : Pipeline :=
  if reply.effect then
    { s with inserted := s.inserted ++ claimed.filter (decodable msgpack) }
  else s

def received (claimed : List Entry) : Pipeline :=
  if claimed.isEmpty then s.goto p w .idle
  else
    match BatchWorker._decode msgpack clock (claimed.map Entry.payload) with
    | .error _ => s.exit p
    | .ok (rows, _) =>
        if rows.isEmpty then s.goto p w (.acking claimed) else s.goto p w (.writing claimed)

def claim (reply : Reply) : Pipeline :=
  let x := s.redis.claim w.key cfg.batchSize
  match reply with
  | .ok => ({ s with redis := x.1 } : Pipeline).received p w msgpack clock x.2
  | .lost => ({ s with redis := x.1 } : Pipeline).goto p w .idle
  | .failed => s.goto p w .idle

def workerStep : Phase → WorkerAction → Option Pipeline
  | .starting, .redis reply =>
      let s := s.release w.key reply
      some (if reply = .ok then s.goto p w .idle else s.exit p)
  | .idle, .check => some (s.goto p w (if w.stop then .draining else .claiming))
  | .claiming, .redis reply => some (s.claim p w cfg msgpack clock reply)
  | .writing claimed, .check =>
      some (s.goto p w (if w.stop then .releasing claimed else .inserting claimed))
  | .inserting claimed, .insert reply =>
      let s := s.store msgpack claimed reply
      some (s.goto p w (if reply = .ok then .acking claimed else .writing claimed))
  | .acking _, .redis reply =>
      let s := s.ack w.key reply
      some (if reply = .ok then s.goto p w .idle else s.exit p)
  | .releasing _, .redis reply =>
      let s := s.release w.key reply
      some (if reply = .ok then s.goto p w .idle else s.exit p)
  | .draining, .redis reply => some ((s.release w.key reply).exit p)
  | _, _ => none

/-- The scan of a maintenance run comes to a key.  A call that raises ends the run. -/
def visit (m : Nat) (live : List Text) (id : Text) (reply : Reply) : Pipeline :=
  if id ∈ live then s
  else
    let s := s.release (inflightKey id) reply
    if reply = .ok then s else { s with recoveries := Function.update s.recoveries m none }

def step : Action → Option Pipeline
  | .push payloads reply => some (if reply.effect then s.push payloads else s)
  | .start p host pid envId =>
      if (s.workers p).isNone then
        some { s with workers := Function.update s.workers p (some ⟨host, pid, envId, .starting, false⟩) }
      else none
  | .kill p => some (s.exit p)
  | .stop p =>
      (s.workers p).map fun w ↦
        { s with workers := Function.update s.workers p (some { w with stop := true }) }
  | .worker p a => (s.workers p).bind fun w ↦ s.workerStep p w cfg msgpack clock w.phase a
  | .beginRecovery m host entries =>
      if (s.recoveries m).isNone then
        some { s with
          recoveries := Function.update s.recoveries m (some (_liveWorkerIds host entries)) }
      else none
  | .visit m id reply =>
      (s.recoveries m).map fun live ↦ s.visit m live id reply
  | .endRecovery m => some { s with recoveries := Function.update s.recoveries m none }

def system : System Pipeline Action where
  init s := s = empty
  step s := s.step cfg msgpack clock

/-! ## Keys -/

/-- A worker starts under an in-flight key that no running worker has. -/
def Distinct (s : Pipeline) : Action → Prop
  | .start _ host pid envId =>
      ∀ q w, s.workers q = some w → w.key ≠ inflightKey (workerId host pid envId)
  | _ => True

/-- The running workers have distinct in-flight keys. -/
def KeysDistinct (s : Pipeline) : Prop :=
  ∀ p q v w, s.workers p = some v → s.workers q = some w → v.key = w.key → p = q

section keys

variable {s : Pipeline} {p : Nat} {w : Worker} {cfg : WorkerConfig} {msgpack : Msgpack}
  {clock : Clock δ}

@[simp] theorem workers_release (key : Text) (reply : Reply) :
    (s.release key reply).workers = s.workers := by
  unfold release
  split <;> rfl

@[simp] theorem workers_ack (key : Text) (reply : Reply) :
    (s.ack key reply).workers = s.workers := by
  unfold ack
  split <;> rfl

@[simp] theorem workers_store (claimed : List Entry) (reply : Reply) :
    (s.store msgpack claimed reply).workers = s.workers := by
  unfold store
  split <;> rfl

@[simp] theorem workers_visit (m : Nat) (live : List Text) (id : Text) (reply : Reply) :
    (s.visit m live id reply).workers = s.workers := by
  unfold visit
  split
  · rfl
  · dsimp only
    split <;> exact workers_release _ _

/-- What a step changes of the processes: the worker that moves goes on in some phase, or ends. -/
def Moves (s : Pipeline) (p : Nat) (w : Worker) (s' : Pipeline) : Prop :=
  s'.workers = Function.update s.workers p none ∨
    ∃ phase, s'.workers = Function.update s.workers p (some { w with phase := phase })

theorem moves_received (claimed : List Entry) :
    s.Moves p w (s.received p w msgpack clock claimed) := by
  unfold received
  split
  · exact .inr ⟨_, rfl⟩
  · split
    · exact .inl rfl
    · split
      · exact .inr ⟨_, rfl⟩
      · exact .inr ⟨_, rfl⟩

/-- A worker that moves keeps its key, or ends. -/
theorem moves_workerStep {phase : Phase} {a : WorkerAction} {s' : Pipeline}
    (hs : s.workerStep p w cfg msgpack clock phase a = some s') : s.Moves p w s' := by
  have hreturn : ∀ (t : Pipeline) (reply : Reply), t.workers = s.workers →
      s.Moves p w (if reply = .ok then t.goto p w .idle else t.exit p) := by
    intro t reply ht
    split
    · exact .inr ⟨.idle, by rw [← ht]; rfl⟩
    · exact .inl (by rw [← ht]; rfl)
  unfold workerStep at hs
  split at hs
  case h_1 reply => exact Option.some.inj hs ▸ hreturn _ reply (workers_release _ _)
  case h_2 => exact Option.some.inj hs ▸ .inr ⟨_, rfl⟩
  case h_3 reply =>
      obtain rfl := Option.some.inj hs
      cases reply with
      | ok => exact moves_received (s := { s with redis := _ }) _
      | failed => exact .inr ⟨_, rfl⟩
      | lost => exact .inr ⟨_, rfl⟩
  case h_4 => exact Option.some.inj hs ▸ .inr ⟨_, rfl⟩
  case h_5 claimed reply =>
      obtain rfl := Option.some.inj hs
      refine .inr ⟨if reply = .ok then .acking claimed else .writing claimed, ?_⟩
      show Function.update (s.store msgpack claimed reply).workers p _ = _
      rw [workers_store]
  case h_6 reply => exact Option.some.inj hs ▸ hreturn _ reply (workers_ack _ _)
  case h_7 reply => exact Option.some.inj hs ▸ hreturn _ reply (workers_release _ _)
  case h_8 reply =>
      obtain rfl := Option.some.inj hs
      refine .inl ?_
      show Function.update (s.release w.key reply).workers p none = _
      rw [workers_release]
  case h_9 => cases hs

theorem KeysDistinct.congr (h : s.KeysDistinct) {s' : Pipeline} (hs : s'.workers = s.workers) :
    s'.KeysDistinct := by
  intro p q v w hp hq hkey
  rw [hs] at hp hq
  exact h p q v w hp hq hkey

/-- A worker that ends leaves the keys distinct. -/
theorem KeysDistinct.update_none (h : s.KeysDistinct) {s' : Pipeline}
    (hs : s'.workers = Function.update s.workers p none) : s'.KeysDistinct := by
  intro q r v w hq hr hkey
  rw [hs, Function.update_apply] at hq hr
  split at hq
  · cases hq
  · split at hr
    · cases hr
    · exact h q r v w hq hr hkey

/-- A worker whose key no other worker has leaves the keys distinct. -/
theorem KeysDistinct.update_some (h : s.KeysDistinct) {s' : Pipeline} {w' : Worker}
    (hs : s'.workers = Function.update s.workers p (some w'))
    (hkey : ∀ q v, s.workers q = some v → v.key = w'.key → q = p) : s'.KeysDistinct := by
  intro q r v w hq hr hvw
  rw [hs, Function.update_apply] at hq hr
  split at hq
  · rename_i hqp
    split at hr
    · rename_i hrp
      rw [hqp, hrp]
    · cases hq
      rw [hqp, hkey r w hr hvw.symm]
  · split at hr
    · rename_i hrp
      cases hr
      rw [hrp, hkey q v hq hvw]
    · exact h q r v w hq hr hvw

theorem KeysDistinct.moves (h : s.KeysDistinct) (hw : s.workers p = some w) {s' : Pipeline}
    (hs : s.Moves p w s') : s'.KeysDistinct := by
  rcases hs with hs | ⟨phase, hs⟩
  · exact h.update_none hs
  · exact h.update_some hs fun q v hq hv ↦ h q p v w hq hw hv

/-- The keys stay distinct. -/
theorem KeysDistinct.step (h : s.KeysDistinct) {a : Action} {s' : Pipeline} (ha : s.Distinct a)
    (hs : s.step cfg msgpack clock a = some s') : s'.KeysDistinct := by
  cases a with
  | push payloads reply =>
      cases hs
      split <;> exact h
  | start q host pid envId =>
      rw [Pipeline.step] at hs
      split at hs
      · obtain rfl := Option.some.inj hs
        exact h.update_some rfl fun r v hr hv ↦ absurd hv (ha r v hr)
      · cases hs
  | kill q =>
      cases hs
      exact h.update_none rfl
  | stop q =>
      obtain ⟨v, hv, rfl⟩ := Option.map_eq_some_iff.mp hs
      exact h.update_some rfl fun r u hr hu ↦ h r q u v hr hv hu
  | worker q a =>
      obtain ⟨v, hv, hstep⟩ := Option.bind_eq_some_iff.mp hs
      exact h.moves hv (moves_workerStep hstep)
  | beginRecovery m host entries =>
      rw [Pipeline.step] at hs
      split at hs
      · cases hs
        exact h
      · cases hs
  | visit m id reply =>
      obtain ⟨live, -, rfl⟩ := Option.map_eq_some_iff.mp hs
      exact h.congr (workers_visit m live id reply)
  | endRecovery m =>
      cases hs
      exact h

end keys

end Pipeline

end LogServer
