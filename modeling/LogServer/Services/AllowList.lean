import LogServer.Api.Routers
import LogServer.Lib.History

/-!
# The router allow-list

The enabled routers of the metadata store are published as a set in Redis, which receivers read.
Whoever publishes reads the store first and overwrites the set later, with other requests and
refreshes of any number of processes in between.

So a list may be published after the store has been written again.  No harm is done while some other
operation has yet to publish a list that it has read since, or has yet to read (`InOrder`); if all
overtaken lists are published at such a time, the set is right whenever nothing is in progress
(`allow_list_converges`).  Otherwise the set stays wrong: receivers do not compare a set that is not
empty with the store (`allow_list_stale_publish`).

Who has been overtaken by whom is noted beside the state (`Timeline`).
-/

namespace LogServer

open Transition

/-! ## The system -/

/-- An operation in progress, by where it is suspended. -/
inductive AllowListOp where
  /-- `update_router` has found the router. -/
  | checked (id : Nat) (payload : RouterPatch)
  /-- The store is up to date; `sync_allow_list` has yet to read it. -/
  | syncing
  /-- `sync_allow_list` has read the store. -/
  | publishing (ips : List Text)
  /-- `refresh` of a receiver has the answer of Redis, `none` if the call raised. -/
  | members (receiver : Nat) (ips : Option (Finset Text))
  /-- `refresh` has read the store. -/
  | refreshing (receiver : Nat) (ips : Finset Text)
  /-- `_publish` has returned. -/
  | published (receiver : Nat) (ips : Finset Text)

/-- The store, the set in Redis, the sets of the receivers, and the operations by number. -/
structure AllowList where
  store : Routers
  authorizedRouters : Finset Text
  registries : Nat → Finset Text
  ops : Nat → Option AllowListOp

namespace AllowList

inductive Action where
  | add (q : Nat) (payload : RouterIn) (now : Text)
  | update (q : Nat) (id : Nat) (payload : RouterPatch)
  /-- The write of an update that has found its router. -/
  | write (q : Nat) (now : Text)
  | delete (q : Nat) (id : Nat)
  /-- `sync_allow_list_startup`. -/
  | startup (q : Nat)
  /-- `enabled_router_ips` in `sync_allow_list`. -/
  | read (q : Nat)
  /-- The pipeline that overwrites the set, which may raise. -/
  | publish (q : Nat) (ok : Bool)
  /-- A refresh begins with `SMEMBERS`, which may raise. -/
  | smembers (q : Nat) (receiver : Nat) (ok : Bool)
  | resume (q : Nat)
  | finish (q : Nat)

def empty : AllowList := ⟨⟨[], 0⟩, ∅, fun _ ↦ ∅, fun _ ↦ none⟩

variable (u : CharTable) (s : AllowList) (q : Nat)

def enabled : Finset Text := s.store.enabledRouterIps.toFinset

def goto (op : AllowListOp) : AllowList := { s with ops := Function.update s.ops q (some op) }

def done : AllowList := { s with ops := Function.update s.ops q none }

def committed : Except HTTPException Routers → AllowList
  | .ok store => ({ s with store := store } : AllowList).goto q .syncing
  | .error _ => s.done q

def step : Action → Option AllowList
  | .add q payload now =>
      if (s.ops q).isNone then
        some (s.committed q ((RoutersApi.addRouter u now s.store payload).map Prod.fst))
      else none
  | .update q id payload =>
      if (s.ops q).isNone then
        match RoutersApi.checkRouter s.store id with
        | .ok () => some (s.goto q (.checked id payload))
        | .error _ => some s
      else none
  | .write q now =>
      match s.ops q with
      | some (.checked id payload) =>
          some (s.committed q ((RoutersApi.updateRouter u now s.store id payload).map Prod.fst))
      | _ => none
  | .delete q id =>
      if (s.ops q).isNone then some (s.committed q (RoutersApi.deleteRouter s.store id)) else none
  | .startup q => if (s.ops q).isNone then some (s.goto q .syncing) else none
  | .read q =>
      match s.ops q with
      | some .syncing => some (s.goto q (.publishing s.store.enabledRouterIps))
      | _ => none
  | .publish q ok =>
      match s.ops q with
      | some (.publishing ips) =>
          some (({ s with
            authorizedRouters := if ok then ips.toFinset else s.authorizedRouters } :
              AllowList).done q)
      | some (.refreshing receiver ips) =>
          some (({ s with authorizedRouters := if ok then ips else s.authorizedRouters } :
            AllowList).goto q (.published receiver ips))
      | _ => none
  | .smembers q receiver ok =>
      if (s.ops q).isNone then
        some (s.goto q (.members receiver (if ok then some s.authorizedRouters else none)))
      else none
  | .resume q =>
      match s.ops q with
      | some (.members receiver ips) =>
          -- An empty set and no answer at all are treated alike: `if not ips`.
          if ips.getD ∅ = ∅ then some (s.goto q (.refreshing receiver s.enabled))
          else
            some (({ s with
              registries := Function.update s.registries receiver (ips.getD ∅) } :
                AllowList).done q)
      | _ => none
  | .finish q =>
      match s.ops q with
      | some (.published receiver ips) =>
          some (({ s with registries := Function.update s.registries receiver ips } :
            AllowList).done q)
      | _ => none

def system : System AllowList Action where
  init s := s = empty
  step s := s.step u

/-- A refresh of a receiver with nothing in between. -/
def refresh (receiver : Nat) (ok : Bool) : Option AllowList := do
  let s ← s.step u (.smembers q receiver ok)
  let s ← s.step u (.resume q)
  if (s.ops q).isNone then return s
  let s ← s.step u (.publish q ok)
  s.step u (.finish q)

/-! ## The order of reads and writes -/

/-- How often the store has been written, and how often it had been when an operation read it. -/
structure Timeline where
  commits : Nat := 0
  readAt : Nat → Nat := fun _ ↦ 0

/-- A request that has come through to `sync_allow_list` has written the store. -/
def Timeline.note (n : Timeline) (_ : AllowList) (a : Action) (t : AllowList) : Timeline :=
  match a with
  | .add q _ _ | .write q _ | .delete q _ =>
      if (t.ops q).isSome then { n with commits := n.commits + 1 } else n
  | .read q | .resume q => { n with readAt := Function.update n.readAt q n.commits }
  | _ => n

def timed : System (AllowList × Timeline) Action :=
  (system u).noting (fun _ ↦ {}) Timeline.note

/-- The store was written after the operation had read it. -/
def Overtaken (n : Timeline) (q : Nat) : Prop := n.readAt q < n.commits

/-- An operation has yet to read the store and then publishes, or has read it since it was last written
and has yet to publish. -/
def Pending (x : AllowList × Timeline) (q : Nat) : Prop :=
  match x.1.ops q with
  | some .syncing => True
  | some (.publishing _) => ¬Overtaken x.2 q
  | some (.members _ ips) => ips.getD ∅ = ∅
  | some (.refreshing _ _) => ¬Overtaken x.2 q
  | _ => False

/-- A list that was overtaken is published only while another operation has yet to read or to publish. -/
def InOrder (x : AllowList × Timeline) : Action → Prop
  | .publish q _ => Overtaken x.2 q → ∃ q', q' ≠ q ∧ Pending x q'
  | _ => True

/-! ## Conditions -/

def Available : Action → Prop
  | .publish _ ok => ok
  | .smembers _ _ ok => ok
  | _ => True

/-- An operation publishes what is in the store now: it will read it, or has read the same. -/
def Fresh : AllowListOp → Prop
  | .checked _ _ => False
  | .syncing => True
  | .publishing ips => ips.toFinset = s.enabled
  | .members _ ips => ips.getD ∅ = ∅
  | .refreshing _ ips => ips = s.enabled
  | .published _ _ => False

/-- An operation that publishes another list than the store's does not have the last word: some
other operation in progress publishes what is in the store now. -/
def LastWord : Action → Prop
  | .publish q _ => ∀ op, s.ops q = some op → ¬s.Fresh op →
      ∃ q' op', q' ≠ q ∧ s.ops q' = some op' ∧ s.Fresh op'
  | _ => True

/-! ## Convergence -/

section convergence

variable {u} {s q} {s' : AllowList}

/-- The set is right, or about to be made right. -/
def Converging (s : AllowList) : Prop :=
  s.authorizedRouters = s.enabled ∨ ∃ q op, s.ops q = some op ∧ s.Fresh op

/-- An operation that goes on to publish the store's list. -/
theorem converging_goto {op : AllowListOp} (h : s.Fresh op) : (s.goto q op).Converging :=
  .inr ⟨q, op, Function.update_self .., by cases op <;> exact h⟩

/-- An operation that does not publish the store's list may go on or end. -/
theorem Converging.update (h : s.Converging) (hop : ∀ op, s.ops q = some op → ¬s.Fresh op)
    (hauthorized : s'.authorizedRouters = s.authorizedRouters) (hstore : s'.store = s.store)
    {o : Option AllowListOp} (hops : s'.ops = Function.update s.ops q o) : s'.Converging := by
  have henabled : s'.enabled = s.enabled := by rw [enabled, enabled, hstore]
  rcases h with hright | ⟨q', op, hq', hfresh⟩
  · exact .inl (by rw [hauthorized, henabled, hright])
  · refine .inr ⟨q', op, ?_, ?_⟩
    · have hne : q' ≠ q := by
        rintro rfl
        exact hop op hq' hfresh
      rw [hops, Function.update_of_ne hne, hq']
    · cases op with
      | checked id payload => exact hfresh
      | syncing => exact hfresh
      | publishing ips => exact hfresh.trans henabled.symm
      | members receiver ips => exact hfresh
      | refreshing receiver ips => exact hfresh.trans henabled.symm
      | published receiver ips => exact hfresh

theorem Converging.committed (h : s.Converging) (hop : ∀ op, s.ops q = some op → ¬s.Fresh op)
    (x : Except HTTPException Routers) : (s.committed q x).Converging := by
  cases x with
  | ok store => exact converging_goto trivial
  | error e => exact h.update hop rfl rfl rfl

/-- **Every step keeps the set converging.** -/
theorem Converging.step (h : s.Converging) {a : Action} (ha : Available a) (hlast : s.LastWord a)
    (hs : s.step u a = some s') : s'.Converging := by
  have hfree : ∀ {q}, (s.ops q).isNone → ∀ op, s.ops q = some op → ¬s.Fresh op := by
    intro q hnone op hop
    rw [hop] at hnone
    cases hnone
  cases a with
  | add q payload now =>
      rw [AllowList.step] at hs
      split at hs
      · cases hs
        exact h.committed (hfree ‹_›) _
      · cases hs
  | update q id payload =>
      rw [AllowList.step] at hs
      split at hs
      · split at hs
        · cases hs
          exact h.update (hfree ‹_›) rfl rfl rfl
        · cases hs
          exact h
      · cases hs
  | write q now =>
      rw [AllowList.step] at hs
      split at hs
      · rename_i id payload hq
        cases hs
        refine h.committed (fun op hop ↦ ?_) _
        obtain rfl := Option.some.inj (hq.symm.trans hop)
        exact fun hfresh ↦ hfresh
      · cases hs
  | delete q id =>
      rw [AllowList.step] at hs
      split at hs
      · cases hs
        exact h.committed (hfree ‹_›) _
      · cases hs
  | startup q =>
      rw [AllowList.step] at hs
      split at hs
      · cases hs
        exact converging_goto trivial
      · cases hs
  | read q =>
      rw [AllowList.step] at hs
      split at hs
      · cases hs
        exact converging_goto rfl
      · cases hs
  | publish q ok =>
      obtain rfl : ok = true := ha
      rw [AllowList.step] at hs
      split at hs
      · rename_i ips hq
        cases hs
        by_cases hfresh : s.Fresh (.publishing ips)
        · exact .inl hfresh
        · obtain ⟨q', op, hne, hq', hop⟩ := hlast _ hq hfresh
          refine .inr ⟨q', op, (Function.update_of_ne hne _ _).trans hq', ?_⟩
          cases op <;> exact hop
      · rename_i receiver ips hq
        cases hs
        by_cases hfresh : s.Fresh (.refreshing receiver ips)
        · exact .inl hfresh
        · obtain ⟨q', op, hne, hq', hop⟩ := hlast _ hq hfresh
          refine .inr ⟨q', op, (Function.update_of_ne hne _ _).trans hq', ?_⟩
          cases op <;> exact hop
      · cases hs
  | smembers q receiver ok =>
      rw [AllowList.step] at hs
      split at hs
      · cases hs
        exact h.update (hfree ‹_›) rfl rfl rfl
      · cases hs
  | resume q =>
      rw [AllowList.step] at hs
      split at hs
      · rename_i receiver ips hq
        split at hs
        · cases hs
          exact converging_goto rfl
        · rename_i hne
          cases hs
          refine h.update (q := q) (fun op hop ↦ ?_) rfl rfl rfl
          obtain rfl := Option.some.inj (hq.symm.trans hop)
          exact hne
      · cases hs
  | finish q =>
      rw [AllowList.step] at hs
      split at hs
      · rename_i receiver ips hq
        cases hs
        refine h.update (q := q) (fun op hop ↦ ?_) rfl rfl rfl
        obtain rfl := Option.some.inj (hq.symm.trans hop)
        exact fun hfresh ↦ hfresh
      · cases hs

/-- The set converges throughout a run. -/
theorem Converging.reach (h : Reach (system u) (fun s a ↦ Available a ∧ s.LastWord a) s) :
    s.Converging := by
  refine Reach.invariant (P := Converging) ?_ ?_ h
  · rintro s rfl
    exact .inl rfl
  · rintro s a s' hconverging ⟨ha, hlast⟩ hs
    exact hconverging.step ha hlast hs

/-! ### Where no overtaken list has the last word -/

/-- An operation has a list that it is about to publish. -/
def Listed : AllowListOp → Prop
  | .publishing _ | .refreshing _ _ => True
  | _ => False

/-- The timeline is in step with the system: a list that was not overtaken is that of the store. -/
structure Dated (x : AllowList × Timeline) : Prop where
  readAt_le : ∀ q, x.2.readAt q ≤ x.2.commits
  fresh : ∀ q op, x.1.ops q = some op → Listed op → ¬Overtaken x.2 q → x.1.Fresh op

section dated

variable {x x' : AllowList × Timeline}

/-- An operation that has a list now has just read it. -/
theorem Dated.update (h : Dated x) (hstore : x'.1.store = x.1.store) {o : Option AllowListOp}
    (hops : x'.1.ops = Function.update x.1.ops q o) (hcommits : x'.2.commits = x.2.commits)
    (hread : ∀ r, r ≠ q → x'.2.readAt r = x.2.readAt r) (hle : x'.2.readAt q ≤ x.2.commits)
    (ho : ∀ op, o = some op → Listed op → x'.1.Fresh op) : Dated x' where
  readAt_le r := by
    rw [hcommits]
    by_cases hr : r = q
    · exact hr ▸ hle
    · exact hread r hr ▸ h.readAt_le r
  fresh r op hop hlisted hnot := by
    have henabled : x'.1.enabled = x.1.enabled := by rw [enabled, enabled, hstore]
    by_cases hr : r = q
    · subst hr
      rw [hops, Function.update_self] at hop
      exact ho op hop hlisted
    · rw [hops, Function.update_of_ne hr] at hop
      rw [Overtaken, hread r hr, hcommits] at hnot
      have hfresh := h.fresh r op hop hlisted hnot
      cases op with
      | checked id payload => exact hlisted.elim
      | syncing => exact hlisted.elim
      | publishing ips => exact hfresh.trans henabled.symm
      | members receiver ips => exact hlisted.elim
      | refreshing receiver ips => exact hfresh.trans henabled.symm
      | published receiver ips => exact hlisted.elim

/-- A write overtakes whoever has read before. -/
theorem Dated.committed (h : Dated x) {r : Except HTTPException Routers}
    (hx : x'.1 = x.1.committed q r)
    (hnote : x'.2 = if (x'.1.ops q).isSome then { x.2 with commits := x.2.commits + 1 } else x.2) :
    Dated x' := by
  cases r with
  | ok store =>
      have hop : (x'.1.ops q).isSome := by
        rw [hx]
        simp [AllowList.committed, goto]
      rw [if_pos hop] at hnote
      constructor
      · intro r
        rw [hnote]
        exact Nat.le_succ_of_le (h.readAt_le r)
      · intro r op _ _ hnot
        rw [hnote] at hnot
        exact absurd (Nat.lt_succ_of_le (h.readAt_le r)) hnot
  | error e =>
      have hop : ¬(x'.1.ops q).isSome := by
        rw [hx]
        simp [AllowList.committed, AllowList.done]
      rw [if_neg hop] at hnote
      refine h.update (q := q) (o := none) (by rw [hx]; rfl) (by rw [hx]; rfl) (by rw [hnote])
        (fun r _ ↦ by rw [hnote]) (by rw [hnote]; exact h.readAt_le q) ?_
      intro op hop
      cases hop

/-- An operation goes on without a list, or ends. -/
theorem Dated.gone (h : Dated x) {t : AllowList} {o : Option AllowListOp} (hx : some t = some x'.1)
    (hstore : t.store = x.1.store) (hops : t.ops = Function.update x.1.ops q o) (hn : x'.2 = x.2)
    (ho : ∀ op, o = some op → ¬Listed op) : Dated x' := by
  obtain rfl := Option.some.inj hx
  refine h.update (q := q) hstore hops (by rw [hn]) (fun r _ ↦ by rw [hn]) ?_
    fun op hop hlisted ↦ absurd hlisted (ho op hop)
  rw [hn]
  exact h.readAt_le q

/-- An operation reads the store. -/
theorem Dated.reads (h : Dated x) {t : AllowList} {o : Option AllowListOp} (hx : some t = some x'.1)
    (hstore : t.store = x.1.store) (hops : t.ops = Function.update x.1.ops q o)
    (hn : x'.2 = { x.2 with readAt := Function.update x.2.readAt q x.2.commits })
    (ho : ∀ op, o = some op → t.Fresh op) : Dated x' := by
  obtain rfl := Option.some.inj hx
  refine h.update (q := q) hstore hops (by rw [hn]) (fun r hr ↦ ?_) ?_ fun op hop _ ↦ ho op hop
  · rw [hn]
    exact Function.update_of_ne hr _ _
  · rw [hn]
    exact (Function.update_self ..).le

/-- Every step keeps the timeline in step. -/
theorem Dated.step (h : Dated x) {a : Action} (hs : (timed u).step x a = some x') : Dated x' := by
  obtain ⟨hs, hnote⟩ := System.step_noting.mp hs
  rw [system] at hs
  cases a with
  | add q payload now =>
      dsimp only [AllowList.step] at hs
      split at hs
      · exact h.committed (Option.some.inj hs).symm hnote
      · cases hs
  | update q id payload =>
      dsimp only [AllowList.step] at hs
      split at hs
      · split at hs
        · refine h.gone hs rfl rfl hnote ?_
          rintro op ⟨⟩
          exact not_false
        · have heq : x' = x := Prod.ext (Option.some.inj hs).symm hnote
          exact heq ▸ h
      · cases hs
  | write q now =>
      dsimp only [AllowList.step] at hs
      split at hs
      · exact h.committed (Option.some.inj hs).symm hnote
      · cases hs
  | delete q id =>
      dsimp only [AllowList.step] at hs
      split at hs
      · exact h.committed (Option.some.inj hs).symm hnote
      · cases hs
  | startup q =>
      dsimp only [AllowList.step] at hs
      split at hs
      · refine h.gone hs rfl rfl hnote ?_
        rintro op ⟨⟩
        exact not_false
      · cases hs
  | read q =>
      dsimp only [AllowList.step] at hs
      split at hs
      · refine h.reads hs rfl rfl hnote ?_
        rintro op ⟨⟩
        rfl
      · cases hs
  | publish q ok =>
      dsimp only [AllowList.step] at hs
      split at hs
      · refine h.gone hs rfl rfl hnote ?_
        rintro op ⟨⟩
      · refine h.gone hs rfl rfl hnote ?_
        rintro op ⟨⟩
        exact not_false
      · cases hs
  | smembers q receiver ok =>
      dsimp only [AllowList.step] at hs
      split at hs
      · refine h.gone hs rfl rfl hnote ?_
        rintro op ⟨⟩
        exact not_false
      · cases hs
  | resume q =>
      dsimp only [AllowList.step] at hs
      split at hs
      · split at hs
        · refine h.reads hs rfl rfl hnote ?_
          rintro op ⟨⟩
          rfl
        · refine h.reads hs rfl rfl hnote ?_
          rintro op ⟨⟩
      · cases hs
  | finish q =>
      dsimp only [AllowList.step] at hs
      split at hs
      · refine h.gone hs rfl rfl hnote ?_
        rintro op ⟨⟩
      · cases hs

theorem Dated.reach {ok : AllowList × Timeline → Action → Prop} (h : Reach (timed u) ok x) :
    Dated x := by
  refine h.invariant (P := Dated) ?_ fun x a x' hx _ hs ↦ hx.step hs
  rintro x ⟨hx, hn⟩
  have hx : x.1 = empty := hx
  constructor
  · intro q
    rw [hn]
  · intro q op hop
    rw [hx] at hop
    cases hop

/-- Who has yet to read or to publish goes on to publish what is in the store now. -/
theorem Pending.fresh (h : Dated x) (hpending : Pending x q) :
    ∃ op, x.1.ops q = some op ∧ x.1.Fresh op := by
  rw [Pending] at hpending
  split at hpending
  · rename_i hq
    exact ⟨_, hq, trivial⟩
  · rename_i hq
    exact ⟨_, hq, h.fresh q _ hq trivial hpending⟩
  · rename_i hq
    exact ⟨_, hq, hpending⟩
  · rename_i hq
    exact ⟨_, hq, h.fresh q _ hq trivial hpending⟩
  · exact hpending.elim

/-- **Lists that are published in order do not have the last word** where they are out of date. -/
theorem InOrder.lastWord (h : Dated x) {a : Action} (horder : InOrder x a)
    (hs : (timed u).step x a = some x') : x.1.LastWord a := by
  cases a with
  | publish q ok =>
      intro op hop hstale
      have hlisted : Listed op := by
        have hs := (System.step_noting.mp hs).1
        dsimp only [system, AllowList.step] at hs
        cases op with
        | publishing ips => trivial
        | refreshing receiver ips => trivial
        | _ => simp [hop] at hs
      have hover : Overtaken x.2 q := by
        by_contra hnot
        exact hstale (h.fresh q op hop hlisted hnot)
      obtain ⟨q', hne, hpending⟩ := horder hover
      obtain ⟨op', hop', hfresh⟩ := hpending.fresh h
      exact ⟨q', op', hne, hop', hfresh⟩
  | _ => trivial

end dated

@[simp] theorem enabled_mk (store : Routers) (authorizedRouters : Finset Text)
    (registries : Nat → Finset Text) (ops : Nat → Option AllowListOp) :
    (⟨store, authorizedRouters, registries, ops⟩ : AllowList).enabled =
      store.enabledRouterIps.toFinset := rfl

/-- A refresh takes over a set that is not empty. -/
theorem refresh_of_ne (hne : s.authorizedRouters ≠ ∅) (hq : s.ops q = none) (receiver : Nat) :
    ∃ s', s.refresh u q receiver true = some s' ∧ s'.store = s.store ∧
      s'.registries receiver = s.authorizedRouters := by
  simp [refresh, AllowList.step, goto, done, hq, hne]

/-- A refresh that finds no set reads the store. -/
theorem refresh_of_empty (hempty : s.authorizedRouters = ∅) (hq : s.ops q = none)
    (receiver : Nat) : ∃ s', s.refresh u q receiver true = some s' ∧ s'.store = s.store ∧
      s'.registries receiver = s.enabled := by
  simp [refresh, AllowList.step, goto, done, hq, hempty, enabled]

/-- **The allow-list converges.**  In every run in which an overtaken list is published only while another
operation has yet to read the store or to publish what it has read since, the set in Redis is that of the
enabled routers whenever no operation is in progress, and a receiver that refreshes then accepts these and
no others. -/
theorem allow_list_converges {n : Timeline}
    (h : Reach (timed u) (fun x a ↦ Available a ∧ InOrder x a) (s, n)) (hquiet : ∀ q, s.ops q = none) :
    s.authorizedRouters = s.enabled ∧ ∀ q receiver, ∃ s', s.refresh u q receiver true = some s' ∧
      s'.store = s.store ∧ s'.registries receiver = s.enabled := by
  have hsim : Simulation (timed u) (fun x a ↦ Available a ∧ InOrder x a) (system u)
      (fun s a ↦ Available a ∧ s.LastWord a) Prod.fst :=
    .noting fun x a x' hx hok hs ↦ ⟨hok.1, hok.2.lastWord (Dated.reach hx) hs⟩
  have hconverging : s.Converging := Converging.reach (hsim.reach h)
  have hright : s.authorizedRouters = s.enabled := by
    rcases hconverging with hright | ⟨q, op, hq, -⟩
    · exact hright
    · rw [hquiet q] at hq
      cases hq
  refine ⟨hright, fun q receiver ↦ ?_⟩
  by_cases hempty : s.authorizedRouters = ∅
  · exact refresh_of_empty hempty (hquiet q) receiver
  · rw [← hright]
    exact refresh_of_ne hempty (hquiet q) receiver

/-! ## Runs -/

def routerIn : RouterIn :=
  ⟨"r".toList, "10.10.10.1".toList, [], true, by decide, by decide, by decide⟩

theorem addRouter_routerIn : RoutersApi.addRouter .ascii [] ⟨[], 0⟩ routerIn =
    .ok (⟨[⟨1, "r".toList, "10.10.10.1".toList, [], true, [], []⟩], 1⟩,
      ⟨1, "r".toList, "10.10.10.1".toList, [], true, [], []⟩) := by
  decide +kernel

/-- A router is added after a receiver has read the store: the receiver's list is overtaken and is published
first. -/
theorem allow_list_converges_session : ∃ s n, Reach (timed .ascii)
    (fun x a ↦ Available a ∧ InOrder x a) (s, n) ∧ s.enabled = {"10.10.10.1".toList} ∧
    s.authorizedRouters = s.enabled := by
  have hrun : ∃ s n, (timed .ascii).Run (fun x a ↦ Available a ∧ InOrder x a) (s, n) (empty, {})
      [.smembers 1 0 true, .resume 1, .add 0 routerIn [], .publish 1 true, .read 0, .finish 1,
        .publish 0 true] ∧ s.enabled = {"10.10.10.1".toList} ∧ ∀ q, s.ops q = none := by
    simp [System.Run, timed, System.noting, Timeline.note, system, AllowList.step, empty, Available,
      InOrder, Overtaken, Pending, goto, done, committed, addRouter_routerIn, Except.map,
      Routers.enabledRouterIps]
    refine ⟨⟨0, by decide, by simp⟩, fun q ↦ ?_⟩
    simp only [Function.update_apply]
    split_ifs <;> rfl
  obtain ⟨s, n, hrun, henabled, hquiet⟩ := hrun
  have hinit : (timed .ascii).init (empty, {}) := ⟨rfl, rfl⟩
  have h := (Reach.init hinit).run hrun
  exact ⟨s, n, h, henabled, (allow_list_converges h hquiet).1⟩

/-- **An outdated list has the last word.**  A router is added and deleted; the addition publishes
after the deletion has. -/
theorem allow_list_stale_publish : ∃ s, Reach (system .ascii) (fun _ a ↦ Available a) s ∧
    (∀ q, s.ops q = none) ∧ s.authorizedRouters ≠ s.enabled ∧
    ∀ q receiver, ∃ s', s.refresh .ascii q receiver true = some s' ∧ s'.store = s.store ∧
      s'.registries receiver ≠ s.enabled := by
  have hrun : ∃ s, (system .ascii).Run (fun _ a ↦ Available a) s empty
      [.add 0 routerIn [], .read 0, .delete 1 1, .read 1, .publish 1 true, .publish 0 true] ∧
      s.enabled = ∅ ∧ s.authorizedRouters = {"10.10.10.1".toList} ∧ ∀ q, s.ops q = none := by
    simp [System.Run, system, AllowList.step, empty, Available, goto, done, committed,
      addRouter_routerIn, RoutersApi.deleteRouter, Routers.deleteRouter, Except.map,
      Routers.enabledRouterIps]
    intro q
    simp only [Function.update_apply]
    split_ifs <;> rfl
  obtain ⟨s, hrun, henabled, hset, hquiet⟩ := hrun
  have hstale : s.authorizedRouters ≠ s.enabled := by
    rw [hset, henabled]
    exact Finset.singleton_ne_empty _
  refine ⟨s, (Reach.init rfl).run hrun, hquiet, hstale, fun q receiver ↦ ?_⟩
  have hne : s.authorizedRouters ≠ ∅ := by
    rw [hset]
    exact Finset.singleton_ne_empty _
  obtain ⟨s', hrefresh, hstore, hregistry⟩ := refresh_of_ne hne (hquiet q) receiver
  exact ⟨s', hrefresh, hstore, hregistry ▸ hstale⟩

end convergence

end AllowList

end LogServer
