import LogServer.Api.RouterTable
import LogServer.Services.AllowList

/-!
# The allow-list in sequential histories

Changes of the router table, API startups and receiver refreshes, one after another.  Each either
publishes the enabled routers or does not: a publication may fail, and the command line never
publishes.

A receiver takes over what Redis has, unless that is nothing.  So an empty set is as good as the right
one, and a set that is neither stays: it is there after a change of the enabled routers that was not
published, and only then (`failed_publish_repaired_iff`, `every_entry_point_iff`).
-/

namespace LogServer

open Transition

/-! ## Who is authorised -/

def Router.authorised (row : Router) : Option Text :=
  if row.enabled then some row.ipAddress else none

theorem Router.authorised_eq_some {row : Router} {ip : Text} :
    row.authorised = some ip ↔ row.enabled = true ∧ row.ipAddress = ip := by
  rw [Router.authorised, Option.ite_none_right_eq_some, Option.some.injEq]

/-- Only an enabled row authorises, and it authorises its own address. -/
theorem Router.authorised_ne {row : Router} {ip : Text} (h : row.ipAddress ≠ ip) :
    row.authorised ≠ some ip :=
  fun hauthorised ↦ h (Router.authorised_eq_some.mp hauthorised).2

namespace Routers

variable {t : Routers} {id : Nat}

/-- The addresses that the enabled routers authorise. -/
def authorised (t : Routers) : Finset Text := t.enabledRouterIps.toFinset

theorem mem_authorised {ip : Text} :
    ip ∈ t.authorised ↔ ∃ row ∈ t.rows, row.authorised = some ip := by
  rw [authorised, List.mem_toFinset, enabledRouterIps, List.mem_map]
  constructor
  · rintro ⟨row, hrow, rfl⟩
    obtain ⟨hmem, henabled⟩ := List.mem_filter.mp hrow
    exact ⟨row, hmem, Router.authorised_eq_some.mpr ⟨henabled, rfl⟩⟩
  · rintro ⟨row, hrow, hauthorised⟩
    obtain ⟨henabled, rfl⟩ := Router.authorised_eq_some.mp hauthorised
    exact ⟨row, List.mem_filter.mpr ⟨hrow, henabled⟩, rfl⟩

/-- A row is added: it authorises an address that was free, or nothing. -/
theorem authorised_append {row : Router} {n : Nat}
    (hfree : ∀ row' ∈ t.rows, row'.ipAddress ≠ row.ipAddress) :
    authorised ⟨t.rows ++ [row], n⟩ = t.authorised ↔ row.enabled = false := by
  constructor
  · intro h
    by_contra henabled
    have hnew : row.ipAddress ∈ authorised ⟨t.rows ++ [row], n⟩ :=
      mem_authorised.mpr ⟨row, List.mem_append_right _ List.mem_cons_self,
        Router.authorised_eq_some.mpr ⟨Bool.eq_true_of_not_eq_false henabled, rfl⟩⟩
    rw [h] at hnew
    obtain ⟨row', hrow', hauthorised⟩ := mem_authorised.mp hnew
    exact Router.authorised_ne (hfree row' hrow') hauthorised
  · intro henabled
    ext ip
    rw [mem_authorised, mem_authorised]
    constructor
    · rintro ⟨row', hrow', hauthorised⟩
      rcases List.mem_append.mp hrow' with hold | hnew
      · exact ⟨row', hold, hauthorised⟩
      · obtain rfl := List.mem_singleton.mp hnew
        rw [(Router.authorised_eq_some.mp hauthorised).1] at henabled
        cases henabled
    · rintro ⟨row', hrow', hauthorised⟩
      exact ⟨row', List.mem_append_left _ hrow', hauthorised⟩

/-- A row is deleted: no other row authorises the same address. -/
theorem Keyed.authorised_delete (h : t.Keyed) :
    (t.deleteRouter id).1.authorised = t.authorised ↔
      ∀ row ∈ t.rows, row.id = id → row.enabled = false := by
  constructor
  · intro heq row hrow hid
    by_contra henabled
    have hmem : row.ipAddress ∈ t.authorised := mem_authorised.mpr ⟨row, hrow,
      Router.authorised_eq_some.mpr ⟨Bool.eq_true_of_not_eq_false henabled, rfl⟩⟩
    rw [← heq] at hmem
    obtain ⟨row', hrow', hauthorised⟩ := mem_authorised.mp hmem
    obtain ⟨hold, hne⟩ := List.mem_filter.mp hrow'
    have hapart : row'.Apart row :=
      h.apart.forall hold hrow fun hsame ↦ of_decide_eq_true hne (hsame ▸ hid)
    exact Router.authorised_ne hapart.ipAddress hauthorised
  · intro hdisabled
    ext ip
    rw [mem_authorised, mem_authorised]
    constructor
    · rintro ⟨row, hrow, hauthorised⟩
      exact ⟨row, List.mem_of_mem_filter hrow, hauthorised⟩
    · rintro ⟨row, hrow, hauthorised⟩
      refine ⟨row, List.mem_filter.mpr ⟨hrow, decide_eq_true fun hid ↦ ?_⟩, hauthorised⟩
      have henabled := (Router.authorised_eq_some.mp hauthorised).1
      rw [hdisabled row hrow hid] at henabled
      cases henabled

/-- A row is written: no other row authorises what it authorises before or after. -/
theorem Keyed.authorised_update (h : t.Keyed) {f : Router → Router}
    (hid : ∀ row, (f row).id = row.id) {t' : Routers} (hupdate : t.update id f = .ok t') :
    t'.authorised = t.authorised ↔
      ∀ row ∈ t.rows, row.id = id → (f row).authorised = row.authorised := by
  obtain ⟨hconflict, rfl⟩ := update_ok hupdate
  constructor
  · intro heq row hrow hrowId
    have hother : ∀ row' ∈ t.rows, row' ≠ row → row'.id ≠ id := by
      intro row' hrow' hne hid'
      exact (h.apart.forall hrow' hrow hne).id (hid'.trans hrowId.symm)
    ext ip
    constructor
    · intro hauthorised
      have hnew : ip ∈ t.authorised := by
        rw [← heq, mem_authorised]
        refine ⟨_, List.mem_map_of_mem hrow, ?_⟩
        rw [if_pos hrowId]
        exact hauthorised
      obtain ⟨row', hrow', hauthorised'⟩ := mem_authorised.mp hnew
      by_cases hsame : row' = row
      · exact hsame ▸ hauthorised'
      · have hne : row'.ipAddress ≠ (f row).ipAddress :=
          (apart_of_not_conflicts (hconflict row hrow hrowId) hrow' (by
            rw [hid]
            exact (h.apart.forall hrow' hrow hsame).id)).ipAddress
        rw [(Router.authorised_eq_some.mp hauthorised).2] at hne
        exact absurd hauthorised' (Router.authorised_ne hne)
    · intro hauthorised
      have hold := mem_authorised.mpr ⟨row, hrow, hauthorised⟩
      rw [← heq, mem_authorised] at hold
      obtain ⟨row'', hrow'', hauthorised'⟩ := hold
      obtain ⟨row', hrow', rfl⟩ := List.mem_map.mp hrow''
      by_cases hsame : row' = row
      · rw [hsame, if_pos hrowId] at hauthorised'
        exact hauthorised'
      · rw [if_neg (hother row' hrow' hsame)] at hauthorised'
        have hne := (h.apart.forall hrow' hrow hsame).ipAddress
        rw [(Router.authorised_eq_some.mp hauthorised).2] at hne
        exact absurd hauthorised' (Router.authorised_ne hne)
  · intro hsame
    have hpoint : ∀ row ∈ t.rows,
        (if row.id = id then f row else row).authorised = row.authorised := by
      intro row hrow
      split
      · rename_i hid'
        exact hsame row hrow hid'
      · rfl
    ext ip
    rw [mem_authorised, mem_authorised]
    constructor
    · rintro ⟨row', hrow', hauthorised⟩
      obtain ⟨row, hrow, rfl⟩ := List.mem_map.mp hrow'
      exact ⟨row, hrow, (hpoint row hrow).symm.trans hauthorised⟩
    · rintro ⟨row, hrow, hauthorised⟩
      exact ⟨_, List.mem_map_of_mem hrow, (hpoint row hrow).trans hauthorised⟩

end Routers

/-- A call changes who is authorised, if it succeeds. -/
def RouterCall.Authorises (u : CharTable) (t : Routers) : RouterCall → Prop
  | addRouter payload _ => payload.enabled = true
  | updateRouter id payload now => ∃ row ∈ t.rows, row.id = id ∧
      ∃ cleaned, payload.fields.clean u = .ok cleaned ∧
        (cleaned.apply now row).authorised ≠ row.authorised
  | deleteRouter id => ∃ row ∈ t.rows, row.id = id ∧ row.enabled = true
  | cmdAddRouter _ _ _ disabled _ => disabled = false

section authorises

variable {u : CharTable} {t t' : Routers}

theorem authorised_addRouter {now name ip description : Text} {enabled : Bool} {row : Router}
    (h : t.Keyed) (hadd : t.addRouter u now name ip description enabled = .ok (t', row)) :
    t'.authorised ≠ t.authorised ↔ enabled = true := by
  obtain ⟨ip', -, rfl, hconflict, rfl⟩ := Routers.addRouter_ok hadd
  have hfree : ∀ row' ∈ t.rows, row'.ipAddress ≠ ip' := fun row' hrow' ↦
    (Routers.apart_of_not_conflicts hconflict hrow'
      (Nat.ne_of_lt (Nat.lt_succ_of_le (h.sequence row' hrow')))).ipAddress
  rw [Ne, Routers.authorised_append hfree, Bool.not_eq_false]

/-- **A call that succeeds** changes the addresses that are authorised exactly if it says so. -/
theorem RouterCall.authorised_execute {c : RouterCall} (h : t.Keyed)
    (hc : c.execute u t = some t') : t'.authorised ≠ t.authorised ↔ c.Authorises u t := by
  cases c with
  | addRouter payload now =>
      obtain ⟨row, hadd⟩ := execute_addRouter hc
      exact authorised_addRouter h hadd
  | updateRouter id payload now =>
      obtain ⟨row, hrow, hid, cleaned, hclean, hupdate⟩ := execute_updateRouter hc
      have hother : ∀ row' ∈ t.rows, row'.id = id → row' = row := by
        intro row' hrow' hid'
        by_contra hne
        exact (h.apart.forall hrow' hrow hne).id (hid'.trans hid.symm)
      have hall : (cleaned.apply now row).authorised ≠ row.authorised ↔
          (updateRouter id payload now).Authorises u t := by
        constructor
        · exact fun hne ↦ ⟨row, hrow, hid, cleaned, hclean, hne⟩
        · rintro ⟨row', hrow', hid', cleaned', hclean', hne⟩
          obtain rfl := hother row' hrow' hid'
          obtain rfl := Except.ok.inj (hclean'.symm.trans hclean)
          exact hne
      rw [← hall]
      rcases hupdate with ⟨rfl, rfl⟩ | hupdate
      · exact iff_of_false (fun hne ↦ hne rfl) (fun hne ↦ hne rfl)
      · rw [Ne, h.authorised_update (f := cleaned.apply now) (fun _ ↦ rfl) hupdate, not_iff_not]
        constructor
        · exact fun hsame ↦ hsame row hrow hid
        · intro hsame row' hrow' hid'
          obtain rfl := hother row' hrow' hid'
          exact hsame
  | deleteRouter id =>
      obtain rfl := execute_deleteRouter hc
      rw [Ne, h.authorised_delete]
      push Not
      exact exists_congr fun row ↦ and_congr_right fun _ ↦ and_congr_right fun _ ↦
        iff_of_eq (Bool.not_eq_false row.enabled)
  | cmdAddRouter name ip description disabled now =>
      obtain ⟨row, hadd⟩ := addRouter_of_map hc
      rw [authorised_addRouter h hadd, Bool.not_eq_true']
      rfl

end authorises

/-! ## Calls -/

/-- A call that writes the router table, with whether its publication succeeds; an API startup; or a
refresh of a receiver, with whether `SMEMBERS` and the publication succeed. -/
inductive AllowListCall where
  | mutate (c : RouterCall) (publish : Bool)
  | startup (publish : Bool)
  | refresh (receiver : Nat) (smembers publish : Bool)

namespace AllowList

variable (u : CharTable) (s : AllowList)

/-- `sync_allow_list`, whose pipeline may raise. -/
def syncAllowList (ok : Bool) : AllowList :=
  { s with authorizedRouters := if ok then s.enabled else s.authorizedRouters }

/-- A handler, or the command, which does not publish. -/
def mutate (c : RouterCall) (publish : Bool) : AllowList :=
  let (succeeded, conn) := c.run u (.idle s.store)
  let s := { s with store := conn.committed }
  match c with
  | .cmdAddRouter .. => s
  | _ => if succeeded then s.syncAllowList publish else s

/-- `RouterRegistry.refresh`. -/
def refreshed (receiver : Nat) (smembers publish : Bool) : AllowList :=
  let ips := if smembers then some s.authorizedRouters else none
  if ips.getD ∅ = ∅ then
    let ips := s.enabled
    let s := { s with authorizedRouters := if publish then ips else s.authorizedRouters }
    { s with registries := Function.update s.registries receiver ips }
  else { s with registries := Function.update s.registries receiver (ips.getD ∅) }

def call : AllowListCall → AllowList
  | .mutate c publish => s.mutate u c publish
  | .startup publish => s.syncAllowList publish
  | .refresh receiver smembers publish => s.refreshed receiver smembers publish

def history : System AllowList AllowListCall where
  init s := s = empty
  step s c := some (s.call u c)

/-- A change of the table that is not published: the publication fails, or there is none. -/
def Unpublished (c : RouterCall) (publish : Bool) : Prop :=
  publish = false ∨ ∃ name ip description disabled now,
    c = .cmdAddRouter name ip description disabled now

/-- A change of who is authorised is published, or finds no set in Redis. -/
def Publishes (s : AllowList) (call : AllowListCall) : Prop :=
  ∀ c publish, call = .mutate c publish → Unpublished c publish →
    (c.execute u s.store).isSome → c.Authorises u s.store → s.authorizedRouters = ∅

section history

variable {u} {s}

/-- The set is right, or is not there. -/
def Right (s : AllowList) : Prop := s.authorizedRouters = ∅ ∨ s.authorizedRouters = s.enabled

/-- A call that fails changes nothing. -/
theorem mutate_none {c : RouterCall} (publish : Bool) (h : c.execute u s.store = none) :
    s.mutate u c publish = s := by
  rw [mutate, RouterCall.run_idle, h]
  cases c <;> rfl

/-- A call that succeeds, and publishes. -/
theorem mutate_published {c : RouterCall} {publish : Bool} {t : Routers}
    (h : c.execute u s.store = some t) (hpublish : ¬Unpublished c publish) :
    s.mutate u c publish = { s with store := t, authorizedRouters := t.authorised } := by
  obtain ⟨htrue, hcmd⟩ := not_or.mp hpublish
  obtain rfl := Bool.eq_true_of_not_eq_false htrue
  rw [mutate, RouterCall.run_idle, h]
  cases c with
  | addRouter payload now => rfl
  | updateRouter id payload now => rfl
  | deleteRouter id => rfl
  | cmdAddRouter name ip description disabled now => exact absurd ⟨_, _, _, _, _, rfl⟩ hcmd

/-- A call that succeeds, and does not publish. -/
theorem mutate_unpublished {c : RouterCall} {publish : Bool} {t : Routers}
    (h : c.execute u s.store = some t) (hpublish : Unpublished c publish) :
    s.mutate u c publish = { s with store := t } := by
  rw [mutate, RouterCall.run_idle, h]
  rcases hpublish with rfl | ⟨name, ip, description, disabled, now, rfl⟩
  · cases c <;> rfl
  · rfl

/-- **A refresh that reads Redis** gives the receiver the enabled routers exactly if the set is right. -/
theorem refreshed_iff (receiver : Nat) (publish : Bool) :
    (s.refreshed receiver true publish).registries receiver = s.enabled ↔ s.Right := by
  by_cases hempty : s.authorizedRouters = ∅
  · refine iff_of_true ?_ (.inl hempty)
    show AllowList.registries (if s.authorizedRouters = ∅ then _ else _) receiver = _
    rw [if_pos hempty]
    exact Function.update_self ..
  · have hregistry : (s.refreshed receiver true publish).registries receiver =
        s.authorizedRouters := by
      show AllowList.registries (if s.authorizedRouters = ∅ then _ else _) receiver = _
      rw [if_neg hempty]
      exact Function.update_self ..
    rw [hregistry]
    exact (or_iff_right hempty).symm

/-- What Redis has answered to a refresh. -/
theorem refreshed_cases (receiver : Nat) (smembers publish : Bool) :
    s.refreshed receiver smembers publish =
        { s with
          authorizedRouters := if publish then s.enabled else s.authorizedRouters
          registries := Function.update s.registries receiver s.enabled } ∨
      ∃ ips, s.refreshed receiver smembers publish =
        { s with registries := Function.update s.registries receiver ips } := by
  by_cases hempty : (if smembers then some s.authorizedRouters else none).getD ∅ = ∅
  · exact .inl (if_pos hempty)
  · exact .inr ⟨_, if_neg hempty⟩

theorem Right.refreshed (h : s.Right) (receiver : Nat) (smembers publish : Bool) :
    (s.refreshed receiver smembers publish).Right := by
  rcases s.refreshed_cases receiver smembers publish with heq | ⟨ips, heq⟩
  · rw [heq]
    cases publish with
    | false => exact h
    | true => exact .inr rfl
  · rw [heq]
    exact h

theorem Right.syncAllowList (h : s.Right) (ok : Bool) : (s.syncAllowList ok).Right := by
  cases ok with
  | false => exact h
  | true => exact .inr rfl

/-- What a refresh does not touch. -/
theorem refreshed_store (receiver : Nat) (smembers publish : Bool) :
    (s.refreshed receiver smembers publish).store = s.store := by
  rcases s.refreshed_cases receiver smembers publish with heq | ⟨ips, heq⟩ <;> rw [heq]

/-- **Exactly the changes that are not published make the set wrong.** -/
theorem exact_publishes : Exact (history u) (Publishes u)
    (fun s ↦ s.store.Keyed ∧ s.Right) Right where
  holds s h := h.2
  keep s call s' h hok hs := by
    obtain rfl := Option.some.inj hs
    obtain ⟨hkeyed, hright⟩ := h
    cases call with
    | mutate c publish =>
        show (s.mutate u c publish).store.Keyed ∧ (s.mutate u c publish).Right
        cases hc : c.execute u s.store with
        | none =>
            rw [mutate_none publish hc]
            exact ⟨hkeyed, hright⟩
        | some t =>
            have hkeyed' := RouterCall.keyed_execute hkeyed hc
            by_cases hpublish : Unpublished c publish
            · rw [mutate_unpublished hc hpublish]
              refine ⟨hkeyed', ?_⟩
              by_cases hsame : t.authorised = s.store.authorised
              · rcases hright with hempty | hright
                · exact .inl hempty
                · exact .inr (hright.trans hsame.symm)
              · exact .inl (hok c publish rfl hpublish (Option.isSome_of_eq_some hc)
                  ((RouterCall.authorised_execute hkeyed hc).mp hsame))
            · rw [mutate_published hc hpublish]
              exact ⟨hkeyed', .inr rfl⟩
    | startup publish => exact ⟨hkeyed, hright.syncAllowList publish⟩
    | refresh receiver smembers publish =>
        refine ⟨?_, hright.refreshed receiver smembers publish⟩
        show (s.refreshed receiver smembers publish).store.Keyed
        rw [refreshed_store]
        exact hkeyed
  breaks s call s' h hbad hs hright' := by
    obtain rfl := Option.some.inj hs
    obtain ⟨hkeyed, hright⟩ := h
    rw [Publishes] at hbad
    push Not at hbad
    obtain ⟨c, publish, rfl, hpublish, hsome, hauthorises, hne⟩ := hbad
    obtain ⟨t, hc⟩ := Option.isSome_iff_exists.mp hsome
    change (s.mutate u c publish).Right at hright'
    rw [mutate_unpublished hc hpublish] at hright'
    have hchanged := (RouterCall.authorised_execute hkeyed hc).mpr hauthorises
    have hold := hright.resolve_left (Finset.nonempty_iff_ne_empty.mp hne)
    have hnew := hright'.resolve_left (Finset.nonempty_iff_ne_empty.mp hne)
    exact hchanged (hnew.symm.trans hold)

end history

/-! ## Calls without interruptions -/

/-- A call of the API, or of a receiver. -/
def Api (call : AllowListCall) : Prop :=
  ∀ name ip description disabled now publish,
    call ≠ .mutate (.cmdAddRouter name ip description disabled now) publish

section run

variable {u} {s}

theorem goto_goto (op op' : AllowListOp) (q : Nat) : (s.goto q op).goto q op' = s.goto q op' := by
  rw [goto, goto, goto, Function.update_idem]

theorem goto_done (op : AllowListOp) (q : Nat) : (s.goto q op).done q = s.done q := by
  rw [done, goto, done, Function.update_idem]

theorem done_eq {q : Nat} (h : s.ops q = none) : s.done q = s := by
  rw [done, ← h, Function.update_eq_self]

@[simp] theorem ops_goto (op : AllowListOp) (q : Nat) : (s.goto q op).ops q = some op :=
  Function.update_self ..

/-- `sync_allow_list` with nothing in between. -/
theorem syncing_run {q : Nat} (hq : s.ops q = none) (ok : Bool) :
    (system u).Run (fun _ _ ↦ True) (s.syncAllowList ok) (s.goto q .syncing)
      [.read q, .publish q ok] := by
  have hread : (s.goto q .syncing).step u (.read q) =
      some (s.goto q (.publishing s.store.enabledRouterIps)) := by
    rw [step, ops_goto]
    exact congrArg some (goto_goto _ _ q)
  have hpublish : (s.goto q (.publishing s.store.enabledRouterIps)).step u (.publish q ok) =
      some (s.syncAllowList ok) := by
    rw [step, ops_goto]
    refine congrArg some (Eq.trans ?_ (done_eq (s := s.syncAllowList ok) hq))
    exact goto_done (s := s.syncAllowList ok) (.publishing s.store.enabledRouterIps) q
  simp only [System.Run, system, hread, hpublish, and_self]

/-- What a handler does after its write. -/
theorem committed_run {q : Nat} (hq : s.ops q = none) (x : Except HTTPException Routers)
    (ok : Bool) : ∃ actions, (system u).Run (fun _ _ ↦ True)
      (match x.toOption with
        | some t => ({ s with store := t } : AllowList).syncAllowList ok
        | none => s) (s.committed q x) actions := by
  cases x with
  | ok t => exact ⟨_, syncing_run (s := { s with store := t }) hq ok⟩
  | error e => exact ⟨[], done_eq hq⟩

theorem committed_goto (op : AllowListOp) (q : Nat) (x : Except HTTPException Routers) :
    (s.goto q op).committed q x = s.committed q x := by
  cases x with
  | ok t => exact goto_goto (s := { s with store := t }) op .syncing q
  | error e => exact goto_done op q

/-- A call of a handler. -/
theorem mutate_eq {c : RouterCall} (publish : Bool)
    (hc : ∀ name ip description disabled now,
      c ≠ .cmdAddRouter name ip description disabled now) :
    s.mutate u c publish = match c.execute u s.store with
      | some t => ({ s with store := t } : AllowList).syncAllowList publish
      | none => s := by
  rw [mutate, RouterCall.run_idle]
  cases c with
  | cmdAddRouter name ip description disabled now => exact absurd rfl (hc _ _ _ _ _)
  | addRouter payload now => cases RouterCall.execute u s.store (.addRouter payload now) <;> rfl
  | updateRouter id payload now =>
      cases RouterCall.execute u s.store (.updateRouter id payload now) <;> rfl
  | deleteRouter id => cases RouterCall.execute u s.store (.deleteRouter id) <;> rfl

/-- A run is extended at its start. -/
theorem run_cons {s' t : AllowList} {a : Action} (hs : s.step u a = some t)
    (h : ∃ actions, (system u).Run (fun _ _ ↦ True) s' t actions) :
    ∃ actions, (system u).Run (fun _ _ ↦ True) s' s actions := by
  obtain ⟨actions, hrun⟩ := h
  exact ⟨a :: actions, .cons hs trivial hrun⟩

/-- **A call is a run** of the operations of the whole system, with no other in between. -/
theorem call_run (hquiet : ∀ q, s.ops q = none) {call : AllowListCall} (hapi : Api call) :
    ∃ actions, (system u).Run (fun _ _ ↦ True) (s.call u call) s actions := by
  have hfree : (s.ops 0).isNone = true := by
    rw [hquiet 0]
    rfl
  cases call with
  | mutate c publish =>
      have hc : ∀ name ip description disabled now,
          c ≠ .cmdAddRouter name ip description disabled now := by
        rintro name ip description disabled now rfl
        exact hapi _ _ _ _ _ _ rfl
      rw [call, mutate_eq publish hc]
      cases c with
      | addRouter payload now =>
          exact run_cons (a := .add 0 payload now) (if_pos hfree)
            (committed_run (hquiet 0) _ publish)
      | updateRouter id payload now =>
          rw [RouterCall.execute]
          cases hcheck : RoutersApi.checkRouter s.store id with
          | error e =>
              refine run_cons (a := .update 0 id payload) ?_ ⟨[], rfl⟩
              rw [step, if_pos hfree, hcheck]
              rfl
          | ok =>
              refine run_cons (a := .update 0 id payload) (t := s.goto 0 (.checked id payload)) ?_
                (run_cons (a := .write 0 now) ?_ (committed_run (hquiet 0) _ publish))
              · rw [step, if_pos hfree, hcheck]
              · rw [step, ops_goto]
                exact congrArg some (committed_goto _ 0 _)
      | deleteRouter id =>
          exact run_cons (a := .delete 0 id) (if_pos hfree) (committed_run (hquiet 0) _ publish)
      | cmdAddRouter name ip description disabled now => exact absurd rfl (hc _ _ _ _ _)
  | startup publish =>
      exact run_cons (a := .startup 0) (if_pos hfree) ⟨_, syncing_run (hquiet 0) publish⟩
  | refresh receiver smembers publish =>
      rw [call, refreshed]
      refine run_cons (a := .smembers 0 receiver smembers) (if_pos hfree) ?_
      by_cases hempty : (if smembers then some s.authorizedRouters else none).getD ∅ = ∅
      · rw [if_pos hempty]
        refine run_cons (a := .resume 0) (t := s.goto 0 (.refreshing receiver s.enabled)) ?_ ?_
        · rw [step, ops_goto]
          exact (if_pos hempty).trans (congrArg some (goto_goto _ _ 0))
        · refine run_cons (a := .publish 0 publish) (t := AllowList.goto
            { s with authorizedRouters := if publish then s.enabled else s.authorizedRouters }
            0 (.published receiver s.enabled)) ?_ (run_cons (a := .finish 0) ?_ ⟨[], rfl⟩)
          · rw [step, ops_goto]
            exact congrArg some (goto_goto (s := { s with
              authorizedRouters := if publish then s.enabled else s.authorizedRouters }) _ _ 0)
          · rw [step, ops_goto]
            exact congrArg some ((goto_done (s := { s with
              authorizedRouters := if publish then s.enabled else s.authorizedRouters
              registries := Function.update s.registries receiver s.enabled }) _ 0).trans
                (done_eq (hquiet 0)))
      · rw [if_neg hempty]
        refine run_cons (a := .resume 0) ?_ ⟨[], rfl⟩
        rw [step, ops_goto]
        refine (if_neg hempty).trans (congrArg some ?_)
        exact (goto_done (s := { s with
          registries := Function.update s.registries receiver _ }) _ 0).trans (done_eq (hquiet 0))

end run

/-! ## Exact conditions -/

/-- A receiver that refreshes, and reads Redis, takes over the enabled routers. -/
def Repaired (s : AllowList) : Prop :=
  ∀ receiver publish, (s.refreshed receiver true publish).registries receiver = s.enabled

/-- A change of who is authorised whose publication fails finds no set in Redis. -/
def Repairable (s : AllowList) (call : AllowListCall) : Prop :=
  ∀ c, call = .mutate c false → (c.execute u s.store).isSome → c.Authorises u s.store →
    s.authorizedRouters = ∅

def FailureFree : AllowListCall → Prop
  | .mutate _ publish => publish = true
  | .startup publish => publish = true
  | .refresh _ smembers publish => smembers = true ∧ publish = true

/-- A receiver that refreshes accepts the addresses of the enabled routers and no others. -/
def TakesEffect (s : AllowList) : Prop :=
  ∀ receiver address, address ∈ (s.refreshed receiver true true).registries receiver ↔
    ∃ row ∈ s.store.rows, row.enabled = true ∧ row.ipAddress = address

/-- A router that the command adds, and that is enabled, finds no set in Redis. -/
def Announced (s : AllowList) (call : AllowListCall) : Prop :=
  ∀ name ip description disabled now publish,
    call = .mutate (.cmdAddRouter name ip description disabled now) publish →
      ((RouterCall.cmdAddRouter name ip description disabled now).execute u s.store).isSome →
        disabled = false → s.authorizedRouters = ∅

section exact

variable {u}

theorem repaired_iff : Repaired s ↔ s.Right :=
  ⟨fun h ↦ (refreshed_iff 0 true).mp (h 0 true),
    fun h receiver publish ↦ (refreshed_iff receiver publish).mpr h⟩

theorem takesEffect_iff : TakesEffect s ↔ s.Right := by
  have hiff : TakesEffect s ↔
      ∀ receiver, (s.refreshed receiver true true).registries receiver = s.enabled := by
    apply forall_congr'
    intro receiver
    rw [Finset.ext_iff]
    apply forall_congr'
    intro address
    rw [show s.enabled = s.store.authorised from rfl, Routers.mem_authorised]
    simp only [Router.authorised_eq_some]
  rw [hiff]
  exact ⟨fun h ↦ (refreshed_iff 0 true).mp (h 0),
    fun h receiver ↦ (refreshed_iff receiver true).mpr h⟩

theorem right_iff (calls : List AllowListCall) :
    (history u).Always Right empty calls ↔ (history u).Along (Publishes u) empty calls :=
  exact_publishes.always_iff ⟨Routers.keyed_empty, .inl rfl⟩ calls

end exact

/-- **A failed publication is repaired by the receivers** exactly if it found no set in Redis, or had
nothing to publish. -/
theorem failed_publish_repaired_iff (calls : List AllowListCall) (hapi : ∀ call ∈ calls, Api call) :
    (history u).Always Repaired empty calls ↔ (history u).Along (Repairable u) empty calls := by
  rw [funext fun s ↦ propext (repaired_iff s), right_iff]
  refine System.along_congr (fun call hcall s ↦ ?_) empty
  constructor
  · exact fun h c hc hsome hauthorises ↦ h c false hc (.inl rfl) hsome hauthorises
  · rintro h c publish hc (rfl | ⟨name, ip, description, disabled, now, rfl⟩) hsome hauthorises
    · exact h c hc hsome hauthorises
    · exact absurd hc (hapi call hcall name ip description disabled now publish)

/-- A publication that fails at first: the set is empty, and the refresh reads the store. -/
theorem failed_publish_repaired_first : (history .ascii).Always Repaired empty
    [.mutate (.addRouter routerIn []) false, .refresh 0 true true] := by
  refine (failed_publish_repaired_iff .ascii _ ?_).mpr ?_
  · simp [Api]
  · intro t hs
    refine ⟨fun c hc hsome hauthorises ↦ rfl, fun t' hs' ↦ ⟨fun c hc ↦ (by cases hc), trivial⟩⟩

/-- **A deleted router stays authorised**: the list that was published before the deletion is not
empty, and no receiver doubts it. -/
theorem failed_publish_not_repaired : ¬(history .ascii).Always Repaired empty
    [.mutate (.addRouter routerIn []) true, .mutate (.deleteRouter 1) false] := by
  intro h
  rw [funext fun s ↦ propext (repaired_iff s), right_iff] at h
  have hempty := ((h _ rfl).2 _ rfl).1 (.deleteRouter 1) false rfl (.inl rfl)
    (by decide +kernel) ⟨⟨1, "r".toList, "10.10.10.1".toList, [], true, [], []⟩, by decide +kernel⟩
  exact absurd hempty (by decide +kernel)

/-- **Every way of changing the table takes effect** exactly if a router that the command adds finds no
set in Redis, or is not enabled. -/
theorem every_entry_point_iff (calls : List AllowListCall)
    (hfree : ∀ call ∈ calls, FailureFree call) :
    (history u).Always TakesEffect empty calls ↔ (history u).Along (Announced u) empty calls := by
  rw [funext fun s ↦ propext (takesEffect_iff s), right_iff]
  refine System.along_congr (fun call hcall s ↦ ?_) empty
  constructor
  · rintro h name ip description disabled now publish hc hsome henabled
    exact h _ publish hc (.inr ⟨_, _, _, _, _, rfl⟩) hsome henabled
  · rintro h c publish rfl (rfl | ⟨name, ip, description, disabled, now, rfl⟩) hsome hauthorises
    · cases (hfree _ hcall : false = true)
    · exact h name ip description disabled now publish rfl hsome hauthorises

/-- The first router is added by the command, the second by a request. -/
theorem every_entry_point_session : (history .ascii).Always TakesEffect empty
    [.mutate (.cmdAddRouter "s".toList "10.10.10.2".toList none false []) true,
      .mutate (.addRouter routerIn []) true, .refresh 0 true true] := by
  refine (every_entry_point_iff .ascii _ ?_).mpr ?_
  · simp [FailureFree]
  · intro t hs
    refine ⟨fun _ _ _ _ _ _ _ _ _ ↦ rfl, fun t' hs' ↦ ⟨?_, fun t'' hs'' ↦ ⟨?_, trivial⟩⟩⟩
    · intro name ip description disabled now publish hc
      cases hc
    · intro name ip description disabled now publish hc
      cases hc

/-- **A router that the command adds is not authorised** while Redis has a set without it. -/
theorem every_entry_point_not : ¬(history .ascii).Always TakesEffect empty
    [.mutate (.addRouter routerIn []) true,
      .mutate (.cmdAddRouter "s".toList "10.10.10.2".toList none false []) true] := by
  intro h
  rw [funext fun s ↦ propext (takesEffect_iff s), right_iff] at h
  have hempty := ((h _ rfl).2 _ rfl).1 _ true rfl (.inr ⟨_, _, _, _, _, rfl⟩)
    (by decide +kernel) rfl
  exact absurd hempty (by decide +kernel)

end AllowList

end LogServer
