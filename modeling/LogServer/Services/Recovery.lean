import LogServer.Services.Once

/-!
# Orphan recovery

`recover_orphaned_claims` takes each in-flight list it scans whose worker it takes for dead and
releases it.  While it does, nothing else runs here: the question is not the interleaving but which
lists it takes, and what it does to them.

It moves entries, loses none, and returns how many it moved, whatever it scans and in whatever order.
But a worker is taken for live if *any* process of the host has its number, so that the list of a
worker that is gone is recovered only if its number was not given to another process
(`recovered_iff`).
-/

namespace LogServer

variable {α : Type}

/-! ## The scan -/

def recoverLoop (live : List Text) : List Text → Redis α → Nat → Redis α × Nat
  | [], r, recovered => (r, recovered)
  | name :: scan, r, recovered =>
      if name.drop INFLIGHT_PREFIX.length ∈ live then recoverLoop live scan r recovered
      else
        let x := r.release name
        recoverLoop live scan x.1 (recovered + x.2)

/-- `recover_orphaned_claims`, on a host with the given entries of `/proc`. -/
def recoverOrphanedClaims (host : Text) (entries : List Text) (scan : List Text) (r : Redis α) :
    Redis α × Nat :=
  recoverLoop (_liveWorkerIds host entries) scan r 0

/-- What `SCAN` guarantees of the keys it returns: in any order, some maybe twice, they are all that
match the pattern. -/
structure Scan (r : Redis α) (scan : List Text) : Prop where
  matched : ∀ key ∈ scan, ∃ id, key = inflightKey id
  complete : ∀ id, r.inflight (inflightKey id) ≠ [] → inflightKey id ∈ scan

/-! ## What recovery promises -/

/-- Each list without a running worker is back at the queue, nothing else is lost or made, and the
number is that of the entries that moved. -/
structure Recovered (running : List Worker) (r r' : Redis α) (recovered : Nat) : Prop where
  orphans : ∀ id, (∀ w ∈ running, w.id ≠ id) →
    r'.inflight (inflightKey id) = [] ∧ r.inflight (inflightKey id) ⊆ r'.queue
  conserved : ∀ K, (∀ key, r'.inflight key ≠ r.inflight key → key ∈ K) → r'.total K = r.total K
  moved : ∃ moved, r'.queue = moved ++ r.queue ∧ moved.length = recovered

/-! ## The loop -/

section loop

variable {live scan : List Text} {r : Redis α} {recovered : Nat}

/-- The release of an empty list changes nothing. -/
theorem Redis.release_empty {key : Text} (h : r.inflight key = []) : r.release key = (r, 0) := by
  rw [Redis.release_eq, h, ← h, Function.update_eq_self, h]
  rfl

/-- A list is emptied if it is scanned and its worker is not taken for live. -/
theorem inflight_recoverLoop (key : Text) :
    (recoverLoop live scan r recovered).1.inflight key =
      if key ∈ scan ∧ key.drop INFLIGHT_PREFIX.length ∉ live then [] else r.inflight key := by
  induction scan generalizing r recovered with
  | nil => simp [recoverLoop]
  | cons name scan ih =>
      rw [recoverLoop]
      split
      · rename_i hlive
        rw [ih]
        by_cases hkey : key = name
        · subst hkey
          rw [if_neg (fun h ↦ h.2 hlive), if_neg (fun h ↦ h.2 hlive)]
        · simp [hkey]
      · rename_i hdead
        dsimp only
        rw [ih, Redis.release_eq]
        dsimp only
        by_cases hkey : key = name
        · subst hkey
          rw [Function.update_self, ite_self, if_pos ⟨List.mem_cons_self, hdead⟩]
        · rw [Function.update_of_ne hkey]
          simp [hkey]

/-- The queue gains entries at its head, as many as are counted. -/
theorem queue_recoverLoop (live scan : List Text) (r : Redis α) (recovered : Nat) :
    ∃ moved, (recoverLoop live scan r recovered).1.queue = moved ++ r.queue ∧
      (recoverLoop live scan r recovered).2 = recovered + moved.length := by
  induction scan generalizing r recovered with
  | nil => exact ⟨[], rfl, rfl⟩
  | cons name scan ih =>
      rw [recoverLoop]
      split
      · exact ih r recovered
      · dsimp only
        rw [Redis.release_eq]
        obtain ⟨moved, hqueue, hcount⟩ := ih
          ⟨r.inflight name ++ r.queue, Function.update r.inflight name []⟩
          (recovered + (r.inflight name).length)
        refine ⟨moved ++ r.inflight name, ?_, ?_⟩
        · rw [hqueue, List.append_assoc]
        · rw [hcount, List.length_append]
          ac_rfl

/-- An entry of a list is still there, or at the queue. -/
theorem mem_recoverLoop {key : Text} {x : α} (hx : x ∈ r.inflight key) :
    x ∈ (recoverLoop live scan r recovered).1.queue ∨
      x ∈ (recoverLoop live scan r recovered).1.inflight key := by
  induction scan generalizing r recovered with
  | nil => exact .inr hx
  | cons name scan ih =>
      rw [recoverLoop]
      split
      · exact ih hx
      · dsimp only
        rw [Redis.release_eq]
        by_cases hkey : key = name
        · subst hkey
          obtain ⟨moved, hqueue, -⟩ := queue_recoverLoop live scan
            ⟨r.inflight key ++ r.queue, Function.update r.inflight key []⟩
            (recovered + (r.inflight key).length)
          refine .inl ?_
          rw [hqueue]
          exact List.mem_append_right _ (List.mem_append_left _ hx)
        · apply ih
          show x ∈ Function.update r.inflight name [] key
          rwa [Function.update_of_ne hkey]

/-- Nothing is lost or made. -/
theorem total_recoverLoop {K : Finset Text}
    (hK : ∀ key ∈ scan, key.drop INFLIGHT_PREFIX.length ∉ live → r.inflight key ≠ [] → key ∈ K) :
    (recoverLoop live scan r recovered).1.total K = r.total K := by
  induction scan generalizing r recovered with
  | nil => rfl
  | cons name scan ih =>
      obtain ⟨hname, hscan⟩ := List.forall_mem_cons.mp hK
      rw [recoverLoop]
      split
      · exact ih hscan
      · rename_i hdead
        dsimp only
        by_cases hempty : r.inflight name = []
        · rw [Redis.release_empty hempty]
          exact ih hscan
        · rw [ih, Redis.total_release (hname hdead hempty)]
          intro key hkey hlive hne
          apply hscan key hkey hlive
          rw [Redis.release_eq] at hne
          intro hnil
          apply hne
          show Function.update r.inflight name [] key = []
          rw [Function.update_apply, hnil, ite_self]

end loop

/-! ## Completeness -/

theorem inflightKey_drop (id : Text) : (inflightKey id).drop INFLIGHT_PREFIX.length = id :=
  List.drop_left ..

/-- An id is taken for live if it is that of some process of the host. -/
theorem mem_liveWorkerIds {host id : Text} {entries : List Text} :
    id ∈ _liveWorkerIds host entries ↔
      ∃ entry ∈ entries, entry ≠ [] ∧ entry.all Char.isDigit ∧ id = processId host entry := by
  simp only [_liveWorkerIds, List.mem_map, List.mem_filter, Bool.and_eq_true, Bool.not_eq_true',
    List.isEmpty_eq_false_iff]
  constructor
  · rintro ⟨entry, ⟨hmem, hne, hdigits⟩, rfl⟩
    exact ⟨entry, hmem, hne, hdigits, rfl⟩
  · rintro ⟨entry, hmem, hne, hdigits, rfl⟩
    exact ⟨entry, ⟨hmem, hne, hdigits⟩, rfl⟩

/-- **Orphan recovery.**  It keeps its promises exactly if no list without a running worker has the
id of some process of the host. -/
theorem recovered_iff (running : List Worker) (host : Text) (entries : List Text) {r : Redis α}
    {scan : List Text} (hscan : Scan r scan) :
    Recovered running r (recoverOrphanedClaims host entries scan r).1
        (recoverOrphanedClaims host entries scan r).2 ↔
      ∀ id, (∀ w ∈ running, w.id ≠ id) → r.inflight (inflightKey id) ≠ [] →
        ∀ entry ∈ entries, entry ≠ [] → entry.all Char.isDigit → id ≠ processId host entry := by
  unfold recoverOrphanedClaims
  constructor
  · rintro ⟨horphans, -, -⟩ id hid hne entry hentry hnonempty hdigits rfl
    apply hne
    have hlive : processId host entry ∈ _liveWorkerIds host entries :=
      mem_liveWorkerIds.mpr ⟨entry, hentry, hnonempty, hdigits, rfl⟩
    have hlist := (horphans _ hid).1
    rwa [inflight_recoverLoop, inflightKey_drop, if_neg (fun h ↦ h.2 hlive)] at hlist
  · intro hdead
    constructor
    · intro id hid
      have hlist : (recoverLoop (_liveWorkerIds host entries) scan r 0).1.inflight
          (inflightKey id) = [] := by
        rw [inflight_recoverLoop, inflightKey_drop]
        by_cases hne : r.inflight (inflightKey id) = []
        · rw [hne, ite_self]
        · refine if_pos ⟨hscan.complete id hne, fun hlive ↦ ?_⟩
          obtain ⟨entry, hentry, hnonempty, hdigits, heq⟩ := mem_liveWorkerIds.mp hlive
          exact hdead id hid hne entry hentry hnonempty hdigits heq
      refine ⟨hlist, fun x hx ↦ ?_⟩
      rcases mem_recoverLoop hx with hqueue | hmem
      · exact hqueue
      · rw [hlist] at hmem
        cases hmem
    · intro K hK
      apply total_recoverLoop
      intro key hkey hlive hne
      apply hK
      rw [inflight_recoverLoop, if_pos ⟨hkey, hlive⟩]
      exact fun h ↦ hne h.symm
    · obtain ⟨moved, hqueue, hcount⟩ := queue_recoverLoop (_liveWorkerIds host entries) scan r 0
      exact ⟨moved, hqueue, by rw [hcount, Nat.zero_add]⟩

/-- What a killed worker had in flight. -/
def orphaned : Redis Nat := ⟨[], fun key ↦ if key = inflightKey ['h', '-', '7'] then [1, 2] else []⟩

theorem orphaned_scan : Scan orphaned [inflightKey ['h', '-', '7']] where
  matched := fun key hkey ↦ ⟨_, List.mem_singleton.mp hkey⟩
  complete := by
    intro id hne
    by_contra hmem
    exact hne (if_neg fun h ↦ hmem (List.mem_singleton.mpr h))

/-- Its number is free. -/
theorem recovered_session :
    Recovered [] orphaned
      (recoverOrphanedClaims ['h'] [['1'], ['s', 'y', 's']] [inflightKey ['h', '-', '7']] orphaned).1
      (recoverOrphanedClaims ['h'] [['1'], ['s', 'y', 's']] [inflightKey ['h', '-', '7']] orphaned).2
      := by
  refine (recovered_iff [] ['h'] [['1'], ['s', 'y', 's']] orphaned_scan).mpr ?_
  rintro id - hne entry hentry - - rfl
  have hid : processId ['h'] entry = ['h', '-', '7'] := by
    by_contra hid
    exact hne (if_neg fun h ↦ hid (inflightKey_inj.mp h))
  revert hid
  simp only [List.mem_cons, List.not_mem_nil, or_false] at hentry
  rcases hentry with rfl | rfl
  · decide
  · decide

/-- **A number that was given to another process.**  The list stays in flight. -/
theorem recovered_reused_pid :
    Scan orphaned [inflightKey ['h', '-', '7']] ∧
    ¬Recovered [] orphaned
      (recoverOrphanedClaims ['h'] [['7']] [inflightKey ['h', '-', '7']] orphaned).1
      (recoverOrphanedClaims ['h'] [['7']] [inflightKey ['h', '-', '7']] orphaned).2 := by
  refine ⟨orphaned_scan, fun h ↦ ?_⟩
  have hlist := (h.orphans ['h', '-', '7'] fun w hw ↦ by cases hw).1
  rw [recoverOrphanedClaims, inflight_recoverLoop] at hlist
  revert hlist
  decide

/-! ## Recovery among the other processes -/

/-- The visits of a maintenance run, with nothing in between, are the loop. -/
theorem Pipeline.foldl_visit (s : Pipeline) (m : Nat) (live ids : List Text) (recovered : Nat) :
    ids.foldl (fun s id ↦ s.visit m live id .ok) s =
      { s with redis := (recoverLoop live (ids.map inflightKey) s.redis recovered).1 } := by
  induction ids generalizing s recovered with
  | nil => rfl
  | cons id ids ih =>
      rw [List.foldl_cons, List.map_cons, recoverLoop, inflightKey_drop, Pipeline.visit]
      split
      · exact ih s recovered
      · exact ih _ _

end LogServer
