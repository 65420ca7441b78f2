import LogServer.Api.RouterTable
import LogServer.Lib.History
import LogServer.Services.AllowList

/-!
# Where an allow-list comes from

Publications and refreshes overlap in any order, they fail, and a list that is out of date may be
published over a newer one.  Whatever happens, no list is ever put together from two, and none is made
up: each set that Redis or a receiver holds was, as a whole, the set of the enabled routers at some time,
or is still empty (`authorised_once_enabled`).

`AllowList.holds_step` says which sets there are after a step: those that were there before, and
the set of the routers that are enabled.
-/

namespace LogServer

open Transition

/-! ## Canonical addresses -/

def Routers.Canonical (t : Routers) : Prop := ∀ row ∈ t.rows, IsIpv4 row.ipAddress

namespace Routers.Canonical

variable {u : CharTable} {now : Text} {t t' : Routers} {id : Nat}

theorem addRouter (h : t.Canonical) {name ip description : Text} {enabled : Bool} {row : Router}
    (hadd : t.addRouter u now name ip description enabled = .ok (t', row)) : t'.Canonical := by
  obtain ⟨ip', hip, rfl, -, rfl⟩ := addRouter_ok hadd
  intro row hrow
  rcases List.mem_append.mp hrow with hold | hnew
  · exact h row hold
  · obtain rfl := List.mem_singleton.mp hnew
    exact isIpv4_of_normaliseIp hip

theorem updateRouter (h : t.Canonical) {fields : Routers.Fields} {found : Option Router}
    (hupdate : t.updateRouter u now id fields = .ok (t', found)) : t'.Canonical := by
  cases hclean : fields.clean u with
  | error e =>
      rw [Routers.updateRouter, hclean] at hupdate
      cases hupdate
  | ok cleaned =>
      rw [updateRouter_eq hclean] at hupdate
      split at hupdate
      · cases hupdate
        exact h
      · cases hwrite : t.update id (cleaned.apply now) with
        | error e =>
            rw [hwrite] at hupdate
            cases hupdate
        | ok t'' =>
            rw [hwrite] at hupdate
            cases hupdate
            obtain ⟨-, rfl⟩ := update_ok hwrite
            intro row hrow
            obtain ⟨row', hrow', rfl⟩ := List.mem_map.mp hrow
            split
            · show IsIpv4 (cleaned.ipAddress.getD row'.ipAddress)
              obtain ⟨-, hsome, hnone, -, -⟩ := clean_ok hclean
              cases hip : fields.ipAddress with
              | none =>
                  rw [hnone hip]
                  exact h row' hrow'
              | some ip =>
                  obtain ⟨ip', hnormal, hip'⟩ := hsome ip hip
                  rw [hip']
                  exact isIpv4_of_normaliseIp hnormal
            · exact h row' hrow'

theorem deleteRouter (h : t.Canonical) (id : Nat) : (t.deleteRouter id).1.Canonical :=
  fun row hrow ↦ h row (List.mem_of_mem_filter hrow)

theorem mem_enabled {s : AllowList} (h : s.store.Canonical) {ip : Text} (hip : ip ∈ s.enabled) :
    IsIpv4 ip := by
  obtain ⟨row, hrow, rfl⟩ := List.mem_map.mp (List.mem_toFinset.mp hip)
  exact h row (List.mem_of_mem_filter hrow)

end Routers.Canonical

/-! ## Sets -/

/-- The sets that an operation in progress has read. -/
def AllowListOp.sets : AllowListOp → List (Finset Text)
  | .checked _ _ | .syncing => []
  | .publishing ips => [ips.toFinset]
  | .members _ ips => ips.toList
  | .refreshing _ ips | .published _ ips => [ips]

namespace AllowList

/-- A set is somewhere: in Redis, in a receiver, or in an operation. -/
inductive Holds (s : AllowList) : Finset Text → Prop
  | authorizedRouters : Holds s s.authorizedRouters
  | registry (receiver : Nat) : Holds s (s.registries receiver)
  | op {q : Nat} {op : AllowListOp} {ips : Finset Text} :
      s.ops q = some op → ips ∈ op.sets → Holds s ips

section holds

variable {u : CharTable} {s t : AllowList} {q : Nat} {ips : Finset Text}

/-! ## The parts of a step -/

/-- An operation that goes on or ends holds no set but those of the operation it has become. -/
theorem Holds.update {o : Option AllowListOp} (h : t.Holds ips)
    (hauthorized : s.Holds t.authorizedRouters) (hregistries : ∀ r, s.Holds (t.registries r))
    (hops : t.ops = Function.update s.ops q o) :
    s.Holds ips ∨ ∃ op, o = some op ∧ ips ∈ op.sets := by
  cases h with
  | authorizedRouters => exact .inl hauthorized
  | registry receiver => exact .inl (hregistries receiver)
  | @op q' op _ hop hips =>
      rw [hops, Function.update_apply] at hop
      split at hop
      · exact .inr ⟨op, hop, hips⟩
      · exact .inl (.op hop hips)

/-- A receiver takes over a set. -/
theorem Holds.registries (h : s.Holds ips) (receiver r : Nat) :
    s.Holds (Function.update s.registries receiver ips r) := by
  rw [Function.update_apply]
  split
  · exact h
  · exact .registry r

/-- An operation goes on. -/
theorem Holds.goto {op : AllowListOp} (h : (s.goto q op).Holds ips) :
    s.Holds ips ∨ ips ∈ op.sets := by
  rcases h.update (s := s) .authorizedRouters .registry rfl with hold | ⟨op', hop, hips⟩
  · exact .inl hold
  · exact .inr (Option.some.inj hop ▸ hips)

theorem Holds.done (h : (s.done q).Holds ips) : s.Holds ips := by
  rcases h.update (s := s) .authorizedRouters .registry rfl with hold | ⟨op, hop, _⟩
  · exact hold
  · cases hop

theorem Holds.committed {x : Except HTTPException Routers} (h : (s.committed q x).Holds ips) :
    s.Holds ips := by
  cases x with
  | error e => exact h.done
  | ok store =>
      rcases h.update (s := s) .authorizedRouters .registry rfl with hold | ⟨op, hop, hips⟩
      · exact hold
      · cases hop
        cases hips

/-! ## Steps and runs -/

theorem canonical_committed {q : Nat} (h : s.store.Canonical) {x : Except HTTPException Routers}
    (hx : ∀ store, x = .ok store → store.Canonical) : (s.committed q x).store.Canonical := by
  cases x with
  | error e => exact h
  | ok store => exact hx store rfl

/-- Every step keeps the addresses canonical. -/
theorem canonical_step (h : s.store.Canonical) {a : Action} (hs : s.step u a = some t) :
    t.store.Canonical := by
  cases a with
  | add q payload now =>
      rw [AllowList.step] at hs
      split at hs
      · cases hs
        refine canonical_committed h fun store hstore ↦ ?_
        rw [RoutersApi.addRouter] at hstore
        cases hadd : s.store.addRouter u now payload.name payload.ipAddress payload.description
            payload.enabled with
        | error e =>
            rw [hadd] at hstore
            cases hstore
        | ok x =>
            rw [hadd] at hstore
            cases hstore
            exact h.addRouter hadd
      · cases hs
  | update q id payload =>
      rw [AllowList.step] at hs
      split at hs
      · split at hs <;> (cases hs; exact h)
      · cases hs
  | write q now =>
      rw [AllowList.step] at hs
      split at hs
      · rename_i id payload hq
        cases hs
        refine canonical_committed h fun store hstore ↦ ?_
        rw [RoutersApi.updateRouter] at hstore
        cases hupdate : s.store.updateRouter u now id payload.fields with
        | error e =>
            rw [hupdate] at hstore
            cases hstore
        | ok x =>
            rw [hupdate] at hstore
            cases hstore
            exact h.updateRouter hupdate
      · cases hs
  | delete q id =>
      rw [AllowList.step] at hs
      split at hs
      · cases hs
        refine canonical_committed h fun store hstore ↦ ?_
        rw [RouterCall.deleteRouter_eq] at hstore
        split at hstore
        · cases hstore
          exact h.deleteRouter id
        · cases hstore
      · cases hs
  | startup q =>
      rw [AllowList.step] at hs
      split at hs <;> cases hs
      exact h
  | read q =>
      rw [AllowList.step] at hs
      split at hs <;> cases hs
      exact h
  | publish q ok =>
      rw [AllowList.step] at hs
      split at hs <;> (cases hs; try exact h)
  | smembers q receiver ok =>
      rw [AllowList.step] at hs
      split at hs <;> cases hs
      exact h
  | resume q =>
      rw [AllowList.step] at hs
      split at hs
      · split at hs <;> (cases hs; exact h)
      · cases hs
  | finish q =>
      rw [AllowList.step] at hs
      split at hs <;> cases hs
      exact h


/-- **The sets after a step** were there before, or are the set of the enabled routers. -/
theorem holds_step {a : Action} (hs : s.step u a = some t) (h : t.Holds ips) :
    s.Holds ips ∨ ips = s.enabled := by
  cases a with
  | add q payload now =>
      rw [AllowList.step] at hs
      split at hs
      · cases hs
        exact .inl h.committed
      · cases hs
  | update q id payload =>
      rw [AllowList.step] at hs
      split at hs
      · split at hs
        · cases hs
          rcases h.goto with hold | hnew
          · exact .inl hold
          · cases hnew
        · cases hs
          exact .inl h
      · cases hs
  | write q now =>
      rw [AllowList.step] at hs
      split at hs
      · cases hs
        exact .inl h.committed
      · cases hs
  | delete q id =>
      rw [AllowList.step] at hs
      split at hs
      · cases hs
        exact .inl h.committed
      · cases hs
  | startup q =>
      rw [AllowList.step] at hs
      split at hs
      · cases hs
        rcases h.goto with hold | hnew
        · exact .inl hold
        · cases hnew
      · cases hs
  | read q =>
      rw [AllowList.step] at hs
      split at hs
      · cases hs
        exact h.goto.imp_right List.mem_singleton.mp
      · cases hs
  | publish q ok =>
      rw [AllowList.step] at hs
      split at hs
      · rename_i ips' hq
        cases hs
        have hnew : s.Holds ips'.toFinset := .op hq (List.mem_singleton_self _)
        rcases h.update (s := s) (by cases ok; exacts [.authorizedRouters, hnew]) .registry rfl with
          hold | ⟨op, hop, _⟩
        · exact .inl hold
        · cases hop
      · rename_i receiver ips' hq
        cases hs
        have hnew : s.Holds ips' := .op hq (List.mem_singleton_self _)
        rcases h.update (s := s) (by cases ok; exacts [.authorizedRouters, hnew]) .registry rfl with
          hold | ⟨op, hop, hips⟩
        · exact .inl hold
        · cases hop
          exact .inl (List.mem_singleton.mp hips ▸ hnew)
      · cases hs
  | smembers q receiver ok =>
      rw [AllowList.step] at hs
      split at hs
      · cases hs
        rcases h.goto with hold | hnew
        · exact .inl hold
        · cases ok with
          | true => exact .inl (List.mem_singleton.mp hnew ▸ .authorizedRouters)
          | false => cases hnew
      · cases hs
  | resume q =>
      rw [AllowList.step] at hs
      split at hs
      · rename_i receiver members hq
        split at hs
        · cases hs
          exact h.goto.imp_right List.mem_singleton.mp
        · rename_i hne
          cases hs
          have hnew : s.Holds (members.getD ∅) := by
            cases members with
            | none => exact absurd rfl hne
            | some ips' => exact .op hq (List.mem_singleton_self _)
          rcases h.update (s := s) .authorizedRouters (hnew.registries receiver) rfl with
            hold | ⟨op, hop, _⟩
          · exact .inl hold
          · cases hop
      · cases hs
  | finish q =>
      rw [AllowList.step] at hs
      split at hs
      · rename_i receiver ips' hq
        cases hs
        have hnew : s.Holds ips' := .op hq (List.mem_singleton_self _)
        rcases h.update (s := s) .authorizedRouters (hnew.registries receiver) rfl with
          hold | ⟨op, hop, _⟩
        · exact .inl hold
        · cases hop
      · cases hs

/-- A set is empty, or is one of those of the past. -/
def Seen (past : List (Finset Text)) (ips : Finset Text) : Prop := ips = ∅ ∨ ips ∈ past

/-- Every set was the set of the enabled routers at some time. -/
def FromPast (past : List (Finset Text)) (s : AllowList) : Prop := ∀ ips, s.Holds ips → Seen past ips

theorem fromPast_empty : FromPast [] empty := by
  intro ips h
  cases h with
  | authorizedRouters => exact .inl rfl
  | registry receiver => exact .inl rfl
  | op hop hips => cases hop

/-- A longer past. -/
theorem FromPast.mono {past past' : List (Finset Text)} (h : FromPast past s) (hsub : past ⊆ past') :
    FromPast past' s := fun ips hips ↦ (h ips hips).imp_right fun hmem ↦ hsub hmem

theorem FromPast.step {past : List (Finset Text)} (h : FromPast past s) (hnow : s.enabled ∈ past)
    {a : Action} (hs : s.step u a = some t) : FromPast past t := by
  intro ips hips
  rcases holds_step hs hips with hold | rfl
  · exact h ips hold
  · exact .inr hnow

/-- **Every allow-list was the list of the enabled routers once.**  In every run, whatever overlaps and
whatever fails, the set in Redis and the set of each receiver is empty or was, as a whole, the set of
the enabled routers at some time. -/
theorem authorised_once_enabled {past : List (Finset Text)}
    (h : Recorded (system u) enabled (fun _ _ ↦ True) past s) :
    (s.authorizedRouters = ∅ ∨ s.authorizedRouters ∈ past) ∧
      (∀ receiver, s.registries receiver = ∅ ∨ s.registries receiver ∈ past) ∧
      ∀ ips ∈ past, ∃ s', Reach (system u) (fun _ _ ↦ True) s' ∧ s'.enabled = ips := by
  have hpast : FromPast past s := by
    refine h.invariant (R := FromPast) ?_ ?_
    · rintro s rfl
      exact fromPast_empty.mono (List.nil_subset _)
    · intro past s a t hpast hnow _ hs
      exact (hpast.step hnow hs).mono (List.subset_append_left _ _)
  exact ⟨hpast _ .authorizedRouters, fun receiver ↦ hpast _ (.registry receiver), h.exists_of_mem⟩

/-- A list that is published when it is out of date, and reaches a receiver, was right once. -/
theorem authorised_once_enabled_session : ∃ s past,
    Recorded (system .ascii) enabled (fun _ _ ↦ True) past s ∧ s.enabled = ∅ ∧
      s.registries 0 = {"10.10.10.1".toList} ∧ s.registries 0 ∈ past := by
  have hrun : ∃ s, (system .ascii).Run (fun _ _ ↦ True) s empty
      [.add 0 routerIn [], .read 0, .delete 1 1, .publish 0 true, .smembers 2 0 true, .resume 2] ∧
      s.enabled = ∅ ∧ s.registries 0 = {"10.10.10.1".toList} := by
    simp [System.Run, system, AllowList.step, empty, goto, done, committed, addRouter_routerIn,
      RoutersApi.deleteRouter, Routers.deleteRouter, Except.map, Routers.enabledRouterIps]
  obtain ⟨s, hrun, henabled, hregistry⟩ := hrun
  obtain ⟨past, h⟩ := Reach.exists_recorded enabled ((Reach.init rfl).run hrun)
  refine ⟨s, past, h, henabled, hregistry, ?_⟩
  rcases (authorised_once_enabled h).2.1 0 with hempty | hmem
  · rw [hregistry] at hempty
    exact absurd hempty (Finset.singleton_ne_empty _)
  · exact hmem

end holds

end AllowList

end LogServer
