import LogServer.Services.Delivery
import LogServer.Services.Effects

/-!
# The order of arrival

Entries are claimed from the head of the queue, and what is given up is put back there, so that a
single worker writes them in the order in which they were pushed.  This survives kills, restarts under
the same id, calls that raise, inserts that are repeated, and maintenance runs that take the worker for
dead: the log table always has the entries of an initial segment of what was pushed, without a gap
(`stored_initial`).

Several workers do not give this guarantee: the batch that one of them is about to insert leaves a gap
behind which the others write.
-/

namespace LogServer

open Transition

namespace Pipeline

variable {δ : Type} {cfg : WorkerConfig} {msgpack : Msgpack} {clock : Clock δ}

def OneKey (key : Text) : Action → Prop
  | .start _ host pid envId => inflightKey (workerId host pid envId) = key
  | _ => True

/-- What Redis holds of the entries that are claimed under a key, in their order. -/
def held (s : Pipeline) (key : Text) : List Entry := s.redis.inflight key ++ s.redis.queue

/-- The entries that wait are the last ones that were pushed, in order, and the batch that a worker is
about to insert comes first among them, up to entries that cannot be decoded. -/
structure Ordered (msgpack : Msgpack) (key : Text) (s : Pipeline) : Prop where
  keys : ∀ p w, s.workers p = some w → w.key = key
  other : ∀ key', key' ≠ key → s.redis.inflight key' = []
  ids : s.pushed.map Entry.id = List.range s.pushed.length
  order : s.held key <:+ s.pushed
  batch : ∀ p w, s.workers p = some w → w.phase.pending → ∃ bad rest,
    s.held key = bad ++ (w.phase.claimed ++ rest) ∧ ∀ x ∈ bad, decodable msgpack x = false

section ordered

variable {key : Text} {s t : Pipeline} {p : Nat} {w : Worker}

theorem ids_number (n : Nat) (payloads : List Bytes) :
    (number n payloads).map Entry.id = List.range' n payloads.length := by
  induction payloads generalizing n with
  | nil => rfl
  | cons payload payloads ih =>
      rw [number, List.map_cons, ih, List.length_cons, List.range'_succ]

theorem length_number (n : Nat) (payloads : List Bytes) :
    (number n payloads).length = payloads.length := by
  rw [← List.length_map Entry.id, ids_number, List.length_range']

theorem ordered_empty : Ordered msgpack key empty where
  keys := fun p w hw ↦ by cases hw
  other := fun _ _ ↦ rfl
  ids := rfl
  order := List.suffix_refl _
  batch := fun p w hw ↦ by cases hw

/-- Entries are pushed once. -/
theorem Ordered.nodup (h : Ordered msgpack key s) : s.pushed.Nodup := by
  refine List.Nodup.of_map Entry.id ?_
  rw [h.ids]
  exact List.nodup_range

/-- The key and the batch of a process that goes on. -/
theorem Ordered.continues (h : Ordered msgpack key s) {a : Action} (ha : OneKey key a)
    (hw : s.Continues a p w) : w.key = key ∧ (w.phase.pending → ∃ bad rest,
      s.held key = bad ++ (w.phase.claimed ++ rest) ∧ ∀ x ∈ bad, decodable msgpack x = false) := by
  rcases hw with ⟨host, pid, envId, rfl, -, rfl⟩ |
    ⟨v, hv, hkey, ⟨-, hnot⟩ | ⟨hclaimed, hpending⟩⟩
  · exact ⟨ha, fun hpending ↦ by cases hpending⟩
  · refine ⟨hkey ▸ h.keys p v hv, fun hpending ↦ ?_⟩
    rw [hnot] at hpending
    cases hpending
  · refine ⟨hkey ▸ h.keys p v hv, fun hw ↦ ?_⟩
    rw [hclaimed]
    exact h.batch p v hv (hpending hw)

/-- The processes go on, and Redis holds what it held. -/
theorem Ordered.quiet (h : Ordered msgpack key s) {a : Action} (ha : OneKey key a)
    (hquiet : Quiet s a t) (hheld : t.held key = s.held key)
    (hother : ∀ key', key' ≠ key → t.redis.inflight key' = []) : Ordered msgpack key t where
  keys := fun p w hw ↦ (h.continues ha (hquiet.workers p w hw)).1
  other := hother
  ids := by rw [hquiet.pushed, h.ids]
  order := by
    rw [hheld, hquiet.pushed]
    exact h.order
  batch := by
    rw [hheld]
    exact fun p w hw ↦ (h.continues ha (hquiet.workers p w hw)).2

/-- Lists under other keys stay empty where one list is emptied. -/
theorem Ordered.other_update (h : Ordered msgpack key s) (key' : Text) {k : Text} (hk : k ≠ key) :
    Function.update s.redis.inflight key' [] k = [] := by
  rw [Function.update_apply]
  split
  · rfl
  · exact h.other k hk

/-- A release moves entries back to where they came from. -/
theorem Ordered.held_release (h : Ordered msgpack key s) (key' : Text) :
    (Function.update s.redis.inflight key' [] key) ++ (s.redis.inflight key' ++ s.redis.queue) =
      s.held key := by
  by_cases heq : key' = key
  · rw [heq, Function.update_self, List.nil_append, held]
  · rw [h.other key' heq, Function.update_of_ne (Ne.symm heq), List.nil_append, held]

/-- Processes under one key are one process. -/
theorem Ordered.eq (h : Ordered msgpack key s) (hkeys : s.KeysDistinct) {q : Nat} {v : Worker}
    (hp : s.workers p = some w) (hq : s.workers q = some v) : v = w := by
  obtain rfl := hkeys p q w v hp hq ((h.keys p w hp).trans (h.keys q v hq).symm)
  exact Option.some.inj (hq.symm.trans hp)

/-- **Every step keeps the order.** -/
theorem Ordered.effect (h : Ordered msgpack key s) (hkeys : s.KeysDistinct) {a : Action}
    (ha : OneKey key a) (hclean : ClaimClean msgpack s a) (heffect : Effect cfg msgpack s a t) :
    Ordered msgpack key t := by
  cases heffect with
  | none hredis hquiet =>
      refine h.quiet ha hquiet ?_ ?_
      · rw [held, hredis, held]
      · rw [hredis]
        exact h.other
  | push payloads reply hact ht =>
      have hheld : t.held key = s.held key ++ number s.pushed.length payloads := by
        rw [ht]
        exact (List.append_assoc _ _ _).symm
      rw [ht] at hheld ⊢
      refine ⟨h.keys, h.other, ?_, ?_, ?_⟩
      · show (s.pushed ++ _).map Entry.id = List.range (s.pushed ++ _).length
        rw [List.map_append, h.ids, ids_number, List.length_append, length_number,
          List.range_add, List.range'_eq_map_range]
      · rw [hheld]
        obtain ⟨gone, hgone⟩ := h.order
        exact ⟨gone, by rw [← List.append_assoc, hgone]; rfl⟩
      · intro p w hw hpending
        obtain ⟨bad, rest, heq, hbad⟩ := h.batch p w hw hpending
        refine ⟨bad, rest ++ number s.pushed.length payloads, ?_, hbad⟩
        rw [hheld, heq, List.append_assoc, List.append_assoc]
  | release key' hredis hquiet =>
      rw [Redis.release_eq] at hredis
      refine h.quiet ha hquiet ?_ ?_
      · rw [held, hredis]
        exact h.held_release key'
      · rw [hredis]
        exact fun k hk ↦ h.other_update key' hk
  | claim p w reply hact hw hphase hredis hpushed hinserted hworkers =>
      subst hact
      rw [Redis.claim_eq _ _ cfg.batchSize_pos, h.keys p w hw] at hredis
      have hlist : t.redis.inflight = Function.update s.redis.inflight key
          (s.redis.inflight key ++ s.redis.queue.take cfg.batchSize) := by rw [hredis]
      have hqueue : t.redis.queue = s.redis.queue.drop cfg.batchSize := by rw [hredis]
      have hheld : t.held key = s.held key := by
        rw [held, hlist, hqueue, Function.update_self, List.append_assoc, List.take_append_drop, held]
      constructor
      · intro q v hv
        rcases hworkers q v hv with hold | ⟨hkey, -⟩
        · exact (h.continues ha hold).1
        · exact hkey.trans (h.keys p w hw)
      · intro k hk
        rw [hlist, Function.update_of_ne hk]
        exact h.other k hk
      · rw [hpushed, h.ids]
      · rw [hheld, hpushed]
        exact h.order
      · intro q v hv hpending
        rw [hheld]
        rcases hworkers q v hv with hold | ⟨hkey, hclaimed, hne, rfl⟩
        · exact (h.continues ha hold).2 hpending
        · -- The claim found nothing in the list but what cannot be decoded.
          refine ⟨s.redis.inflight key, s.redis.queue.drop cfg.batchSize, ?_, ?_⟩
          · rw [hclaimed, List.take_append_drop, held]
          · rw [← h.keys p w hw]
            exact hclean w hw hphase hne
  | insert p w claimed hw hphase hredis hpushed hinserted hworkers =>
      constructor
      · exact fun q v hv ↦ (h.continues ha (hworkers q v hv)).1
      · rw [hredis]
        exact h.other
      · rw [hpushed, h.ids]
      · rw [held, hredis, hpushed]
        exact h.order
      · rw [held, hredis]
        exact fun q v hv ↦ (h.continues ha (hworkers q v hv)).2
  | ack p w claimed hw hphase hredis hquiet =>
      have hlist : t.redis.inflight = Function.update s.redis.inflight key [] := by
        rw [hredis, h.keys p w hw]
        rfl
      constructor
      · exact fun q v hv ↦ (h.continues ha (hquiet.workers q v hv)).1
      · rw [hlist]
        exact fun k hk ↦ h.other_update key hk
      · rw [hquiet.pushed, h.ids]
      · rw [held, hlist, Function.update_self, hredis, hquiet.pushed]
        exact (List.suffix_append _ _).trans h.order
      · -- The one process there is has no batch any more.
        intro q v hv hpending
        rcases hquiet.workers q v hv with ⟨host, pid, envId, -, -, rfl⟩ |
          ⟨u, hu, -, ⟨-, hnot⟩ | ⟨-, hstill⟩⟩
        · cases hpending
        · rw [hnot] at hpending
          cases hpending
        · obtain rfl := h.eq hkeys hw hu
          have hold := hstill hpending
          rw [hphase] at hold
          cases hold

/-! ## No gaps -/

/-- The log table has the entries of an initial segment of what was pushed. -/
def Gapless (msgpack : Msgpack) (s : Pipeline) : Prop :=
  ∃ stored, stored <+: s.pushed ∧ ∀ x, x ∈ s.inserted ↔ x ∈ stored ∧ decodable msgpack x

/-- What has been acknowledged is stored, but for what cannot be decoded. -/
theorem Ordered.mem_inserted (h : Ordered msgpack key s) (hkept : Kept msgpack s)
    {gone : List Entry} (hgone : gone ++ s.held key = s.pushed) {x : Entry} (hx : x ∈ gone)
    (hdec : decodable msgpack x) : x ∈ s.inserted := by
  have hnodup := h.nodup
  rw [← hgone, List.nodup_append] at hnodup
  have hnot : x ∉ s.held key := fun hheld ↦ hnodup.2.2 x hx x hheld rfl
  have hpushed : x ∈ s.pushed := hgone ▸ List.mem_append_left _ hx
  rcases hkept.safe x hpushed hdec with hqueue | ⟨key', hlist⟩ | hinserted
  · exact absurd (List.mem_append_right _ hqueue) hnot
  · by_cases heq : key' = key
    · exact absurd (List.mem_append_left _ (heq ▸ hlist)) hnot
    · rw [h.other key' heq] at hlist
      cases hlist
  · exact hinserted

/-- **An insert leaves no gap.** -/
theorem Gapless.insert (hgapless : Gapless msgpack s) (h : Ordered msgpack key s)
    (hkept : Kept msgpack s) (hw : s.workers p = some w) {claimed : List Entry}
    (hphase : w.phase = .inserting claimed) (hpushed : t.pushed = s.pushed)
    (hinserted : t.inserted = s.inserted ++ claimed.filter (decodable msgpack)) :
    Gapless msgpack t := by
  obtain ⟨stored, hprefix, hstored⟩ := hgapless
  obtain ⟨bad, rest, hheld, hbad⟩ := h.batch p w hw (by rw [hphase]; rfl)
  obtain ⟨gone, hgone⟩ := h.order
  rw [hphase] at hheld
  -- Everything up to the end of the batch is stored afterwards.
  have hbatch : (gone ++ (bad ++ claimed)) <+: s.pushed := by
    refine ⟨rest, ?_⟩
    rw [← hgone, hheld]
    simp [Phase.claimed]
  have hmem : ∀ x, x ∈ t.inserted ↔ x ∈ s.inserted ∨ x ∈ claimed ∧ decodable msgpack x := by
    intro x
    rw [hinserted, List.mem_append, List.mem_filter]
  rcases List.prefix_or_prefix_of_prefix hprefix hbatch with hshort | hlong
  · refine ⟨gone ++ (bad ++ claimed), hpushed ▸ hbatch, fun x ↦ ?_⟩
    rw [hmem]
    constructor
    · rintro (hold | ⟨hnew, hdec⟩)
      · obtain ⟨hx, hdec⟩ := (hstored x).mp hold
        exact ⟨hshort.subset hx, hdec⟩
      · exact ⟨List.mem_append_right _ (List.mem_append_right _ hnew), hdec⟩
    · rintro ⟨hx, hdec⟩
      rcases List.mem_append.mp hx with hx | hx
      · exact .inl (h.mem_inserted hkept hgone hx hdec)
      · rcases List.mem_append.mp hx with hx | hx
        · rw [hbad x hx] at hdec
          cases hdec
        · exact .inr ⟨hx, hdec⟩
  · refine ⟨stored, hpushed ▸ hprefix, fun x ↦ ?_⟩
    rw [hmem, hstored]
    constructor
    · rintro (hold | ⟨hnew, hdec⟩)
      · exact hold
      · exact ⟨hlong.subset (List.mem_append_right _ (List.mem_append_right _ hnew)), hdec⟩
    · exact .inl

/-- Every step leaves no gap. -/
theorem Gapless.effect (hgapless : Gapless msgpack s) (h : Ordered msgpack key s)
    (hkept : Kept msgpack s) {a : Action} (heffect : Effect cfg msgpack s a t) :
    Gapless msgpack t := by
  have hsame : t.pushed = s.pushed → t.inserted = s.inserted → Gapless msgpack t := by
    intro hpushed hinserted
    obtain ⟨stored, hprefix, hstored⟩ := hgapless
    exact ⟨stored, hpushed ▸ hprefix, hinserted ▸ hstored⟩
  cases heffect with
  | none hredis hquiet => exact hsame hquiet.pushed hquiet.inserted
  | push payloads reply hact ht =>
      obtain ⟨stored, hprefix, hstored⟩ := hgapless
      rw [ht]
      exact ⟨stored, hprefix.trans (List.prefix_append _ _), hstored⟩
  | release key' hredis hquiet => exact hsame hquiet.pushed hquiet.inserted
  | claim p w reply hact hw hphase hredis hpushed hinserted hworkers =>
      exact hsame hpushed hinserted
  | insert p w claimed hw hphase hredis hpushed hinserted hworkers =>
      exact hgapless.insert h hkept hw hphase hpushed hinserted
  | ack p w claimed hw hphase hredis hquiet => exact hsame hquiet.pushed hquiet.inserted

/-- **The log table holds what arrived first.**  In every run in which all workers have one id, one
worker runs at a time and each claim that returns entries finds the in-flight list clean, the log table
has exactly the decodable entries of an initial segment of what was pushed, and Redis holds the rest of
it in order, from some entry on. -/
theorem stored_initial (h : Reach (system cfg msgpack clock)
    (fun s a ↦ s.Distinct a ∧ ClaimClean msgpack s a ∧ OneKey key a) s) :
    (∃ stored, stored <+: s.pushed ∧
      ∀ x, x ∈ s.inserted ↔ x ∈ stored ∧ LogQueue.decode msgpack x.payload ≠ none) ∧
    s.redis.inflight key ++ s.redis.queue <:+ s.pushed := by
  have hall : (s.KeysDistinct ∧ Kept msgpack s) ∧ Ordered msgpack key s ∧ Gapless msgpack s := by
    refine Reach.invariant (P := fun s ↦ (s.KeysDistinct ∧ Kept msgpack s) ∧
      Ordered msgpack key s ∧ Gapless msgpack s) ?_ ?_ h
    · rintro s rfl
      refine ⟨⟨fun p q v w hv ↦ (by cases hv), Kept.empty⟩, ordered_empty, [], List.nil_prefix, ?_⟩
      intro x
      exact iff_of_false List.not_mem_nil fun hx ↦ absurd hx.1 List.not_mem_nil
    · rintro s a t ⟨⟨hkeys, hkept⟩, hordered, hgapless⟩ ⟨hdistinct, hclean, hone⟩ hs
      have heffect := effect_step hs
      exact ⟨⟨hkeys.step hdistinct hs, hkept.step hkeys hclean hs⟩,
        hordered.effect hkeys hone hclean heffect, hgapless.effect hordered hkept heffect⟩
  obtain ⟨-, hordered, stored, hprefix, hstored⟩ := hall
  refine ⟨⟨stored, hprefix, fun x ↦ ?_⟩, hordered.order⟩
  rw [hstored x, decodable, Option.isSome_iff_ne_none]

/-- A worker is killed between an insert and its acknowledgement, and starts again. -/
theorem stored_initial_session : ∃ s key, Reach (system ⟨100, by decide⟩ msgpackRows Clock.seconds)
    (fun s a ↦ s.Distinct a ∧ ClaimClean msgpackRows s a ∧ OneKey key a) s ∧
    s.pushed.length = 2 ∧ s.inserted.length = 1 ∧ ∃ stored, stored <+: s.pushed ∧
      ∀ x, x ∈ s.inserted ↔ x ∈ stored ∧ LogQueue.decode msgpackRows x.payload ≠ none := by
  obtain ⟨payload, hsome, row, hdecode⟩ := exists_payload
  have hrun : ∃ s, (system ⟨100, by decide⟩ msgpackRows Clock.seconds).Run
      (fun s a ↦ s.Distinct a ∧ ClaimClean msgpackRows s a ∧ OneKey (inflightKey ['w']) a) s empty
      [.push [payload] .ok, .start 0 [] 0 (some ['w']), .worker 0 (.redis .ok), .worker 0 .check,
        .worker 0 (.redis .ok), .push [payload] .ok, .worker 0 .check, .worker 0 (.insert .ok),
        .kill 0, .start 0 [] 1 (some ['w']), .worker 0 (.redis .ok)] ∧ s.pushed.length = 2 ∧
      s.inserted.length = 1 := by
    simp [System.Run, Distinct, ClaimClean, OneKey, system, step, workerStep, push, number, empty,
      release, goto, exit, claim, received, store, workerId, Reply.effect, Redis.pushMany, Redis.rpush,
      Redis.release_eq, Redis.claim_eq, hdecode, decodable, hsome]
  obtain ⟨s, hrun, hpushed, hinserted⟩ := hrun
  have h := (Reach.init rfl).run hrun
  exact ⟨s, inflightKey ['w'], h, hpushed, hinserted, (stored_initial h).1⟩

end ordered

end Pipeline

end LogServer
