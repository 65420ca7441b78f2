import LogServer.Api.RouterCalls
import LogServer.Lib.Transition

/-!
# The router table stays well formed

After any sequence of calls the addresses are canonical, and addresses and names are pairwise different.
Names are stripped when they are stored, but the request models check them before, and the command line
does not check them at all: a name of blanks passes, and becomes the empty name.  That is the only way
in which the table becomes ill-formed (`router_table_iff`).
-/

namespace LogServer

open Transition

variable (u : CharTable)

/-! ## Well-formed tables -/

/-- A row as the receivers and the user interface expect it. -/
structure Router.WellFormed (row : Router) : Prop where
  name_ne : row.name ≠ []
  name_strip : strip u row.name = row.name
  ipAddress : IsIpv4 row.ipAddress

/-- Two rows have nothing in common that is to be unique. -/
structure Router.Apart (row row' : Router) : Prop where
  id : row.id ≠ row'.id
  name : row.name ≠ row'.name
  ipAddress : row.ipAddress ≠ row'.ipAddress

theorem Router.Apart.symm {row row' : Router} (h : row.Apart row') : row'.Apart row :=
  ⟨h.id.symm, h.name.symm, h.ipAddress.symm⟩

instance : Std.Symm Router.Apart := ⟨fun _ _ ↦ Router.Apart.symm⟩

namespace Routers

/-- The constraints of the table, and that it has given out the numbers of its rows. -/
structure Keyed (t : Routers) : Prop where
  apart : t.rows.Pairwise Router.Apart
  sequence : ∀ row ∈ t.rows, row.id ≤ t.sequence

structure WellFormed (t : Routers) : Prop where
  keyed : t.Keyed
  rows : ∀ row ∈ t.rows, row.WellFormed u

def empty : Routers := ⟨[], 0⟩

theorem keyed_empty : empty.Keyed := ⟨.nil, fun _row hrow ↦ absurd hrow List.not_mem_nil⟩

theorem wellFormed_empty : empty.WellFormed u :=
  ⟨keyed_empty, fun _row hrow ↦ absurd hrow List.not_mem_nil⟩

/-! ## Additions -/

section add

variable {u} {now name ipAddress description : Text} {enabled : Bool} {t t' : Routers}

/-- The row an addition appends. -/
theorem addRouter_ok {row : Router}
    (h : t.addRouter u now name ipAddress description enabled = .ok (t', row)) :
    ∃ ip, normaliseIp u ipAddress = .ok ip ∧
      row = ⟨t.sequence + 1, strip u name, ip, strip u description, enabled, now, now⟩ ∧
      ¬t.Conflicts row ∧ t' = ⟨t.rows ++ [row], t.sequence + 1⟩ := by
  cases hip : normaliseIp u ipAddress with
  | error e =>
      rw [Routers.addRouter, hip] at h
      cases h
  | ok ip =>
      rw [addRouter_eq hip] at h
      split at h
      · cases h
      · rename_i hconflict
        cases h
        exact ⟨ip, rfl, rfl, hconflict, rfl⟩

/-- A row that conflicts with no other is apart from those with other numbers. -/
theorem apart_of_not_conflicts {row row' : Router} (h : ¬t.Conflicts row') (hrow : row ∈ t.rows)
    (hid : row.id ≠ row'.id) : row.Apart row' :=
  ⟨hid, fun hname ↦ h ⟨row, hrow, hid, .inl hname⟩, fun hip ↦ h ⟨row, hrow, hid, .inr hip⟩⟩

/-- **An addition** keeps the constraints. -/
theorem Keyed.addRouter (h : t.Keyed) {row : Router}
    (hadd : t.addRouter u now name ipAddress description enabled = .ok (t', row)) : t'.Keyed := by
  obtain ⟨ip, -, rfl, hconflict, rfl⟩ := addRouter_ok hadd
  constructor
  · refine List.pairwise_append.mpr ⟨h.apart, List.pairwise_singleton _ _, ?_⟩
    intro row hrow row' hrow'
    obtain rfl := List.mem_singleton.mp hrow'
    exact apart_of_not_conflicts hconflict hrow
      (Nat.ne_of_lt (Nat.lt_succ_of_le (h.sequence row hrow)))
  · intro row hrow
    rcases List.mem_append.mp hrow with hold | hnew
    · exact Nat.le_succ_of_le (h.sequence row hold)
    · obtain rfl := List.mem_singleton.mp hnew
      exact Nat.le_refl _

/-- An addition with a name that is not blank. -/
theorem WellFormed.addRouter (h : t.WellFormed u) {row : Router}
    (hadd : t.addRouter u now name ipAddress description enabled = .ok (t', row))
    (hname : strip u name ≠ []) : t'.WellFormed u := by
  refine ⟨h.keyed.addRouter hadd, ?_⟩
  obtain ⟨ip, hip, rfl, -, rfl⟩ := addRouter_ok hadd
  intro row hrow
  rcases List.mem_append.mp hrow with hold | hnew
  · exact h.rows row hold
  · obtain rfl := List.mem_singleton.mp hnew
    exact ⟨hname, strip_strip name, isIpv4_of_normaliseIp hip⟩

end add

/-! ## Updates -/

section update

variable {u} {now : Text} {id : Nat} {fields cleaned : Fields} {t t' : Routers}

/-- The fields of a row that an update was not given are as they were. -/
structure Updated (id : Nat) (fields : Fields) (row row' : Router) : Prop where
  id_eq : row'.id = row.id
  createdAt : row'.createdAt = row.createdAt
  name : fields.name = none → row'.name = row.name
  ipAddress : fields.ipAddress = none → row'.ipAddress = row.ipAddress
  description : fields.description = none → row'.description = row.description
  enabled : fields.enabled = none → row'.enabled = row.enabled
  /-- Another row is as it was. -/
  other : row.id ≠ id → row' = row

theorem Updated.refl (id : Nat) (fields : Fields) (row : Router) : Updated id fields row row :=
  ⟨rfl, rfl, fun _ ↦ rfl, fun _ ↦ rfl, fun _ ↦ rfl, fun _ ↦ rfl, fun _ ↦ rfl⟩

/-- The values that are written. -/
theorem clean_ok (h : fields.clean u = .ok cleaned) :
    cleaned.name = fields.name.map (strip u) ∧
      (∀ ip, fields.ipAddress = some ip →
        ∃ ip', normaliseIp u ip = .ok ip' ∧ cleaned.ipAddress = some ip') ∧
      (fields.ipAddress = none → cleaned.ipAddress = none) ∧
      cleaned.description = fields.description.map (strip u) ∧
      cleaned.enabled = fields.enabled := by
  unfold Fields.clean at h
  cases hip : fields.ipAddress with
  | none =>
      rw [hip] at h
      cases h
      exact ⟨rfl, fun ip hip ↦ (by cases hip), fun _ ↦ rfl, rfl, rfl⟩
  | some ip =>
      rw [hip] at h
      cases hnormal : normaliseIp u ip with
      | error e =>
          rw [Option.mapM_some, hnormal] at h
          cases h
      | ok ip' =>
          rw [Option.mapM_some, hnormal] at h
          cases h
          refine ⟨rfl, ?_, fun hnone ↦ (by cases hnone), rfl, rfl⟩
          intro ip'' hip''
          obtain rfl := Option.some.inj hip''
          exact ⟨ip', hnormal, rfl⟩

/-- Writing the fields of a row. -/
theorem update_ok {f : Router → Router} (h : t.update id f = .ok t') :
    (∀ row ∈ t.rows, row.id = id → ¬t.Conflicts (f row)) ∧
      t' = { t with rows := t.rows.map fun row ↦ if row.id = id then f row else row } := by
  unfold update at h
  split at h
  · cases h
  · rename_i hconflict
    cases h
    exact ⟨fun row hrow hid hc ↦ hconflict ⟨row, hrow, hid, hc⟩, rfl⟩

/-- **Writing rows** keeps the constraints: what a written row does not conflict with stays apart. -/
theorem Keyed.update (h : t.Keyed) {f : Router → Router} (hid : ∀ row, (f row).id = row.id)
    (hupdate : t.update id f = .ok t') : t'.Keyed := by
  obtain ⟨hconflict, rfl⟩ := update_ok hupdate
  have hone : ∀ row ∈ t.rows, ∀ row' ∈ t.rows, row.Apart row' → row.id = id →
      (f row).Apart row' := by
    intro row hrow row' hrow' hapart heq
    refine (apart_of_not_conflicts (hconflict row hrow heq) hrow' ?_).symm
    rw [hid]
    exact hapart.id.symm
  constructor
  · refine List.pairwise_map.mpr (h.apart.imp_of_mem ?_)
    intro row row' hrow hrow' hapart
    split <;> split
    · rename_i heq heq'
      exact absurd (heq.trans heq'.symm) hapart.id
    · rename_i heq _
      exact hone row hrow row' hrow' hapart heq
    · rename_i _ heq'
      exact (hone row' hrow' row hrow hapart.symm heq').symm
    · exact hapart
  · intro row' hrow'
    obtain ⟨row, hrow, rfl⟩ := List.mem_map.mp hrow'
    split
    · exact (hid row).symm ▸ h.sequence row hrow
    · exact h.sequence row hrow

/-- Writing well-formed rows. -/
theorem WellFormed.update (h : t.WellFormed u) {f : Router → Router}
    (hid : ∀ row, (f row).id = row.id) (hf : ∀ row ∈ t.rows, (f row).WellFormed u)
    (hupdate : t.update id f = .ok t') : t'.WellFormed u := by
  refine ⟨h.keyed.update hid hupdate, ?_⟩
  obtain ⟨-, rfl⟩ := update_ok hupdate
  intro row' hrow'
  obtain ⟨row, hrow, rfl⟩ := List.mem_map.mp hrow'
  split
  · exact hf row hrow
  · exact h.rows row hrow

/-- The row after `SET` of cleaned values. -/
theorem wellFormed_apply {row : Router} (h : row.WellFormed u)
    (hclean : fields.clean u = .ok cleaned)
    (hname : ∀ name, fields.name = some name → strip u name ≠ []) :
    (cleaned.apply now row).WellFormed u := by
  obtain ⟨hnames, hips, hnone, -, -⟩ := clean_ok hclean
  have hip : IsIpv4 (cleaned.ipAddress.getD row.ipAddress) := by
    cases hgiven : fields.ipAddress with
    | none =>
        rw [hnone hgiven]
        exact h.ipAddress
    | some ip =>
        obtain ⟨ip', hnormal, hcleaned⟩ := hips ip hgiven
        rw [hcleaned]
        exact isIpv4_of_normaliseIp hnormal
  cases hn : fields.name with
  | none =>
      rw [hn] at hnames
      refine ⟨?_, ?_, hip⟩
      · show cleaned.name.getD row.name ≠ []
        rw [hnames]
        exact h.name_ne
      · show strip u (cleaned.name.getD row.name) = cleaned.name.getD row.name
        rw [hnames]
        exact h.name_strip
  | some name =>
      rw [hn] at hnames
      refine ⟨?_, ?_, hip⟩
      · show cleaned.name.getD row.name ≠ []
        rw [hnames]
        exact hname name hn
      · show strip u (cleaned.name.getD row.name) = cleaned.name.getD row.name
        rw [hnames]
        exact strip_strip name

/-- The rows before and after `SET`. -/
theorem updated_apply (hclean : fields.clean u = .ok cleaned) (row : Router) :
    Updated id fields row (if row.id = id then cleaned.apply now row else row) := by
  obtain ⟨hnames, -, hips, hdescriptions, henabled⟩ := clean_ok hclean
  split
  · rename_i hid
    refine ⟨rfl, rfl, ?_, ?_, ?_, ?_, fun hne ↦ absurd hid hne⟩
    · intro hnone
      rw [hnone] at hnames
      show cleaned.name.getD row.name = _
      rw [hnames]
      rfl
    · intro hnone
      show cleaned.ipAddress.getD row.ipAddress = _
      rw [hips hnone]
      rfl
    · intro hnone
      rw [hnone] at hdescriptions
      show cleaned.description.getD row.description = _
      rw [hdescriptions]
      rfl
    · intro hnone
      rw [hnone] at henabled
      show cleaned.enabled.getD row.enabled = _
      rw [henabled]
      rfl
  · exact Updated.refl id fields row

end update

/-- **A deletion** keeps the constraints. -/
theorem Keyed.deleteRouter {t : Routers} (h : t.Keyed) (id : Nat) : (t.deleteRouter id).1.Keyed :=
  ⟨h.apart.filter _, fun row hrow ↦ h.sequence row (List.mem_of_mem_filter hrow)⟩

theorem WellFormed.deleteRouter {u : CharTable} {t : Routers} (h : t.WellFormed u) (id : Nat) :
    (t.deleteRouter id).1.WellFormed u :=
  ⟨h.keyed.deleteRouter id, fun row hrow ↦ h.rows row (List.mem_of_mem_filter hrow)⟩

end Routers

/-! ## Calls -/

namespace RouterCall

open Routers

section execute

variable {u} {now : Text} {id : Nat} {fields : Fields} {t t' : Routers}

/-- An addition through either of the two entry points. -/
theorem addRouter_of_map {name ip description : Text} {enabled : Bool}
    (h : ((t.addRouter u now name ip description enabled).map Prod.fst).toOption = some t') :
    ∃ row, t.addRouter u now name ip description enabled = .ok (t', row) := by
  cases hadd : t.addRouter u now name ip description enabled with
  | error e =>
      rw [hadd] at h
      cases h
  | ok x =>
      rw [hadd] at h
      cases h
      exact ⟨x.2, rfl⟩

theorem execute_addRouter {payload : RouterIn}
    (h : (addRouter payload now).execute u t = some t') :
    ∃ row, t.addRouter u now payload.name payload.ipAddress payload.description
      payload.enabled = .ok (t', row) := by
  refine addRouter_of_map ?_
  rw [← h, execute, RoutersApi.addRouter]
  cases t.addRouter u now payload.name payload.ipAddress payload.description payload.enabled <;> rfl

/-- An update finds its row.  It leaves the table alone if no field is given. -/
theorem execute_updateRouter {payload : RouterPatch}
    (h : (updateRouter id payload now).execute u t = some t') :
    ∃ row ∈ t.rows, row.id = id ∧ ∃ cleaned, payload.fields.clean u = .ok cleaned ∧
      (cleaned = {} ∧ t' = t ∨ t.update id (cleaned.apply now) = .ok t') := by
  rw [execute, RoutersApi.checkRouter] at h
  cases hget : t.getRouter id with
  | none =>
      rw [hget] at h
      cases h
  | some row =>
      rw [hget] at h
      change ((RoutersApi.updateRouter u now t id payload).map Prod.fst).toOption = some t' at h
      rw [RoutersApi.updateRouter] at h
      refine ⟨row, List.mem_of_find?_eq_some hget, by simpa using List.find?_some hget, ?_⟩
      cases hclean : payload.fields.clean u with
      | error e =>
          rw [Routers.updateRouter, hclean] at h
          cases h
      | ok cleaned =>
          refine ⟨cleaned, rfl, ?_⟩
          rw [updateRouter_eq hclean] at h
          split at h
          · rename_i hempty
            cases h
            exact .inl ⟨hempty, rfl⟩
          · cases hupdate : t.update id (cleaned.apply now) with
            | error e =>
                rw [hupdate] at h
                cases h
            | ok t'' =>
                rw [hupdate] at h
                cases h
                exact .inr rfl

theorem execute_deleteRouter (h : (deleteRouter id).execute u t = some t') :
    t' = (t.deleteRouter id).1 := by
  rw [execute, deleteRouter_eq] at h
  split at h
  · cases h
    rfl
  · cases h

/-- **A call** keeps the constraints. -/
theorem keyed_execute {c : RouterCall} (h : t.Keyed) (hc : c.execute u t = some t') : t'.Keyed := by
  cases c with
  | addRouter payload now =>
      obtain ⟨row, hadd⟩ := execute_addRouter hc
      exact h.addRouter hadd
  | updateRouter id payload now =>
      obtain ⟨-, -, -, cleaned, -, ⟨-, rfl⟩ | hupdate⟩ := execute_updateRouter hc
      · exact h
      · exact h.update (f := cleaned.apply now) (fun _ ↦ rfl) hupdate
  | deleteRouter id => exact execute_deleteRouter hc ▸ h.deleteRouter id
  | cmdAddRouter name ip description disabled now =>
      obtain ⟨row, hadd⟩ := addRouter_of_map hc
      exact h.addRouter hadd

/-- A call whose name, if it has one, is not blank. -/
theorem wellFormed_execute {c : RouterCall} (h : t.WellFormed u) (hc : c.execute u t = some t')
    (hname : ∀ name, c.name = some name → strip u name ≠ []) : t'.WellFormed u := by
  cases c with
  | addRouter payload now =>
      obtain ⟨row, hadd⟩ := execute_addRouter hc
      exact h.addRouter hadd (hname _ rfl)
  | updateRouter id payload now =>
      obtain ⟨-, -, -, cleaned, hclean, ⟨-, rfl⟩ | hupdate⟩ := execute_updateRouter hc
      · exact h
      · exact h.update (f := cleaned.apply now) (fun _ ↦ rfl)
          (fun row hrow ↦ wellFormed_apply (h.rows row hrow) hclean hname) hupdate
  | deleteRouter id => exact execute_deleteRouter hc ▸ h.deleteRouter id
  | cmdAddRouter name ip description disabled now =>
      obtain ⟨row, hadd⟩ := addRouter_of_map hc
      exact h.addRouter hadd (hname _ rfl)

/-- A call that gives a blank name leaves a row with the empty name, if it succeeds. -/
theorem exists_blank {c : RouterCall} (hc : c.execute u t = some t') {name : Text}
    (hname : c.name = some name) (hblank : strip u name = []) : ∃ row ∈ t'.rows, row.name = [] := by
  cases c with
  | addRouter payload now =>
      obtain rfl := Option.some.inj hname
      obtain ⟨row, hadd⟩ := execute_addRouter hc
      obtain ⟨ip, -, rfl, -, rfl⟩ := addRouter_ok hadd
      exact ⟨_, List.mem_append_right _ List.mem_cons_self, hblank⟩
  | updateRouter id payload now =>
      obtain ⟨row, hrow, hid, cleaned, hclean, ⟨hempty, -⟩ | hupdate⟩ := execute_updateRouter hc
      · have hnames := (clean_ok hclean).1
        rw [hempty, show payload.fields.name = some name from hname] at hnames
        cases hnames
      · obtain ⟨-, rfl⟩ := update_ok hupdate
        refine ⟨_, List.mem_map_of_mem hrow, ?_⟩
        rw [if_pos hid]
        show cleaned.name.getD row.name = []
        rw [(clean_ok hclean).1, show payload.fields.name = some name from hname]
        exact hblank
  | deleteRouter id => cases hname
  | cmdAddRouter name ip description disabled now =>
      obtain rfl := Option.some.inj hname
      obtain ⟨row, hadd⟩ := addRouter_of_map hc
      obtain ⟨ip, -, rfl, -, rfl⟩ := addRouter_ok hadd
      exact ⟨_, List.mem_append_right _ List.mem_cons_self, hblank⟩

end execute

/-! ## Calls that are carried out -/

/-- An address that can be written: it is one, and no other router has it. -/
def Free (t : Routers) (id : Nat) (ipAddress : Text) : Prop :=
  ∃ ip, normaliseIp u ipAddress = .ok ip ∧ ∀ row ∈ t.rows, row.id ≠ id → row.ipAddress ≠ ip

/-- What is checked of a call besides its name. -/
def Accepted (t : Routers) : RouterCall → Prop
  | addRouter payload _ => Free u t (t.sequence + 1) payload.ipAddress
  | updateRouter id payload _ => (∃ row ∈ t.rows, row.id = id) ∧
      ∀ ip, payload.fields.ipAddress = some ip → Free u t id ip
  | deleteRouter id => ∃ row ∈ t.rows, row.id = id
  | cmdAddRouter _ ip _ _ _ => Free u t (t.sequence + 1) ip

section accepted

variable {u} {now : Text} {t t' : Routers}

/-- The address of a row that conflicts with no other is free. -/
theorem ne_of_not_conflicts {row : Router} (h : ¬t.Conflicts row) :
    ∀ row' ∈ t.rows, row'.id ≠ row.id → row'.ipAddress ≠ row.ipAddress :=
  fun row' hrow' hid hip ↦ h ⟨row', hrow', hid, .inr hip⟩

theorem free_of_addRouter {name ip description : Text} {enabled : Bool} {row : Router}
    (h : t.addRouter u now name ip description enabled = .ok (t', row)) :
    Free u t (t.sequence + 1) ip := by
  obtain ⟨ip', hip, rfl, hconflict, -⟩ := addRouter_ok h
  exact ⟨ip', hip, ne_of_not_conflicts hconflict⟩

/-- A call that succeeds has been accepted. -/
theorem accepted_of_execute {c : RouterCall} (hc : c.execute u t = some t') : Accepted u t c := by
  cases c with
  | addRouter payload now =>
      obtain ⟨row, hadd⟩ := execute_addRouter hc
      exact free_of_addRouter hadd
  | updateRouter id payload now =>
      obtain ⟨row, hrow, rfl, cleaned, hclean, hupdate⟩ := execute_updateRouter hc
      refine ⟨⟨row, hrow, rfl⟩, fun ip hip ↦ ?_⟩
      obtain ⟨ip', hnormal, hcleaned⟩ := (clean_ok hclean).2.1 ip hip
      rcases hupdate with ⟨rfl, -⟩ | hupdate
      · cases hcleaned
      · have hne := ne_of_not_conflicts ((update_ok hupdate).1 row hrow rfl)
        refine ⟨ip', hnormal, fun row' hrow' hid ↦ ?_⟩
        have hsame : (cleaned.apply now row).ipAddress = ip' := by
          show cleaned.ipAddress.getD row.ipAddress = ip'
          rw [hcleaned]
          rfl
        exact hsame ▸ hne row' hrow' hid
  | deleteRouter id =>
      rw [execute, deleteRouter_eq] at hc
      split at hc
      · rename_i hany
        obtain ⟨row, hrow, hid⟩ := List.any_eq_true.mp hany
        exact ⟨row, hrow, of_decide_eq_true hid⟩
      · cases hc
  | cmdAddRouter name ip description disabled now =>
      obtain ⟨row, hadd⟩ := addRouter_of_map hc
      exact free_of_addRouter hadd

/-- In a well-formed table no row conflicts with one that has the empty name and a free address. -/
theorem not_conflicts_blank (h : t.WellFormed u) {row : Router} (hname : row.name = [])
    (hip : ∀ row' ∈ t.rows, row'.id ≠ row.id → row'.ipAddress ≠ row.ipAddress) :
    ¬t.Conflicts row := by
  rintro ⟨row', hrow', hid, hsame | hsame⟩
  · exact (h.rows row' hrow').name_ne (hsame.trans hname)
  · exact hip row' hrow' hid hsame

theorem addRouter_blank (h : t.WellFormed u) {name ip description : Text} {enabled : Bool}
    (hblank : strip u name = []) (hfree : Free u t (t.sequence + 1) ip) :
    ∃ t' row, t.addRouter u now name ip description enabled = .ok (t', row) := by
  obtain ⟨ip', hip, hne⟩ := hfree
  rw [addRouter_eq hip, if_neg (not_conflicts_blank h hblank hne)]
  exact ⟨_, _, rfl⟩

theorem clean_of_free {id : Nat} {fields : Fields}
    (h : ∀ ip, fields.ipAddress = some ip → Free u t id ip) :
    ∃ cleaned, fields.clean u = .ok cleaned := by
  unfold Fields.clean
  cases hip : fields.ipAddress with
  | none => exact ⟨_, rfl⟩
  | some ip =>
      obtain ⟨ip', hnormal, -⟩ := h ip hip
      rw [Option.mapM_some, hnormal]
      exact ⟨_, rfl⟩

/-- The row that an accepted update with a blank name writes conflicts with no other. -/
theorem not_conflicts_apply (h : t.WellFormed u) {fields cleaned : Fields} {row : Router}
    (hrow : row ∈ t.rows) (hclean : fields.clean u = .ok cleaned) {name : Text}
    (hname : fields.name = some name) (hblank : strip u name = [])
    (hfree : ∀ ip, fields.ipAddress = some ip → Free u t row.id ip) :
    ¬t.Conflicts (cleaned.apply now row) := by
  obtain ⟨hnames, hips, hnone, -, -⟩ := clean_ok hclean
  refine not_conflicts_blank h ?_ ?_
  · show cleaned.name.getD row.name = []
    rw [hnames, hname]
    exact hblank
  · intro row' hrow' hid
    show row'.ipAddress ≠ cleaned.ipAddress.getD row.ipAddress
    cases hgiven : fields.ipAddress with
    | none =>
        rw [hnone hgiven]
        exact (h.keyed.apart.forall hrow' hrow fun heq ↦ hid (heq ▸ rfl)).ipAddress
    | some ip =>
        obtain ⟨ip', hnormal, hcleaned⟩ := hips ip hgiven
        obtain ⟨ip'', hnormal', hne⟩ := hfree ip hgiven
        rw [hnormal] at hnormal'
        obtain rfl := Except.ok.inj hnormal'
        rw [hcleaned]
        exact hne row' hrow' hid

/-- **A call with a blank name** that is accepted succeeds. -/
theorem execute_of_accepted (h : t.WellFormed u) {c : RouterCall} {name : Text}
    (hname : c.name = some name) (hblank : strip u name = []) (hc : Accepted u t c) :
    ∃ t', c.execute u t = some t' := by
  cases c with
  | addRouter payload now =>
      obtain rfl := Option.some.inj hname
      obtain ⟨t', row, hadd⟩ : ∃ t' row, t.addRouter u now payload.name payload.ipAddress
          payload.description payload.enabled = .ok (t', row) := addRouter_blank h hblank hc
      refine ⟨t', ?_⟩
      rw [execute, RoutersApi.addRouter, hadd]
      rfl
  | updateRouter id payload now =>
      obtain ⟨⟨row, hrow, rfl⟩, hfree⟩ := hc
      obtain ⟨cleaned, hclean⟩ := clean_of_free hfree
      have hnot : ¬∃ row' ∈ t.rows, row'.id = row.id ∧ t.Conflicts (cleaned.apply now row') := by
        rintro ⟨row', hrow', hid, hconflict⟩
        exact not_conflicts_apply h hrow' hclean hname hblank (hid ▸ hfree) hconflict
      have hupdate : t.update row.id (cleaned.apply now) = .ok _ := if_neg hnot
      have hne : cleaned ≠ {} := by
        rintro rfl
        have hnames := (clean_ok hclean).1
        rw [show payload.fields.name = some name from hname] at hnames
        cases hnames
      obtain ⟨row', hget⟩ : ∃ row', t.getRouter row.id = some row' :=
        Option.isSome_iff_exists.mp
          (List.find?_isSome.mpr ⟨row, hrow, decide_eq_true rfl⟩)
      have hcheck : RoutersApi.checkRouter t row.id = .ok () := by
        rw [RoutersApi.checkRouter, hget]
        rfl
      refine ⟨⟨t.rows.map fun row' ↦ if row'.id = row.id then cleaned.apply now row' else row',
        t.sequence⟩, ?_⟩
      rw [execute, hcheck, RoutersApi.updateRouter, updateRouter_eq hclean, if_neg hne, hupdate]
      rfl
  | deleteRouter id => cases hname
  | cmdAddRouter name ip description disabled now =>
      obtain rfl := Option.some.inj hname
      obtain ⟨t', row, hadd⟩ := addRouter_blank h hblank hc
      refine ⟨t', ?_⟩
      rw [execute, hadd]
      rfl

end accepted

/-! ## Sequences of calls -/

/-- A call that fails leaves the table as it was, and an update changes the fields it was given of the
row it addresses, and the time of that row's last update. -/
structure Framed (conn : Connection) (c : RouterCall) : Prop where
  failure : (c.run u conn).1 = false → (c.run u conn).2.committed = conn.committed
  update : ∀ id payload now, c = updateRouter id payload now → (c.run u conn).1 = true →
    List.Forall₂ (Updated id payload.fields) conn.committed.rows (c.run u conn).2.committed.rows

def system : System Connection RouterCall where
  init conn := conn = .idle empty
  step conn c := some (c.run u conn).2

/-- A call that gives a name of blanks is not accepted, for its address or because there is no such
router. -/
def Named (conn : Connection) (c : RouterCall) : Prop :=
  ∀ name, c.name = some name → strip u name = [] → ¬Accepted u conn.committed c

section sequence

variable {u} {t : Routers}

theorem framed (c : RouterCall) : Framed u (.idle t) c := by
  constructor
  · intro hfail
    rw [run_idle] at hfail ⊢
    cases hc : c.execute u t with
    | none => rfl
    | some t' =>
        rw [hc] at hfail
        cases hfail
  · rintro id payload now rfl hsucceed
    rw [run_idle] at hsucceed ⊢
    cases hc : (updateRouter id payload now).execute u t with
    | none =>
        rw [hc] at hsucceed
        cases hsucceed
    | some t' =>
        show List.Forall₂ _ t.rows t'.rows
        obtain ⟨-, -, -, cleaned, hclean, ⟨-, rfl⟩ | hupdate⟩ := execute_updateRouter hc
        · exact List.forall₂_same.mpr fun row _ ↦ Updated.refl id payload.fields row
        · obtain ⟨-, rfl⟩ := update_ok hupdate
          exact List.forall₂_map_right_iff.mpr
            (List.forall₂_same.mpr fun row _ ↦ updated_apply hclean row)

theorem exact_named : Exact (system u) (Named u) (fun conn ↦ ∃ t, conn = .idle t ∧ t.WellFormed u)
    (fun conn ↦ conn.committed.WellFormed u) where
  holds := by
    rintro _ ⟨t, rfl, h⟩
    exact h
  keep := by
    rintro _ c _ ⟨t, rfl, h⟩ hnamed hs
    obtain rfl := Option.some.inj hs
    rw [run_idle]
    cases hc : c.execute u t with
    | none => exact ⟨t, rfl, h⟩
    | some t' =>
        exact ⟨t', rfl, wellFormed_execute h hc fun name hname hblank ↦
          hnamed name hname hblank (accepted_of_execute hc)⟩
  breaks := by
    rintro _ c _ ⟨t, rfl, h⟩ hnamed hs hwell
    obtain rfl := Option.some.inj hs
    rw [Named] at hnamed
    push Not at hnamed
    obtain ⟨name, hname, hblank, haccepted⟩ := hnamed
    obtain ⟨t', hc⟩ := execute_of_accepted h hname hblank haccepted
    rw [run_idle, hc] at hwell
    obtain ⟨row, hrow, hempty⟩ := exists_blank hc hname hblank
    exact (hwell.rows row hrow).name_ne hempty

end sequence

/-- **The table is well formed after every call, every call that fails leaves it as it was and every
update changes only what it was given, exactly if no call with a
blank name is accepted.** -/
theorem router_table_iff (calls : List RouterCall) :
    ((system u).Always (fun conn ↦ conn.committed.WellFormed u) (.idle empty) calls ∧
      (system u).Along (Framed u) (.idle empty) calls) ↔
        (system u).Along (Named u) (.idle empty) calls := by
  have halways := (exact_named (u := u)).always_iff ⟨empty, rfl, wellFormed_empty u⟩ calls
  have hframed : (system u).Along (Framed u) (.idle empty) calls := by
    refine System.along_of_invariant (P := fun conn ↦ ∃ t, conn = .idle t) ?_ ?_ ⟨empty, rfl⟩ calls
    · rintro _ c ⟨t, rfl⟩
      exact framed c
    · rintro _ c _ ⟨t, rfl⟩ hs
      obtain rfl := Option.some.inj hs
      rw [run_idle]
      cases c.execute u t with
      | none => exact ⟨t, rfl⟩
      | some t' => exact ⟨t', rfl⟩
  rw [halways, and_iff_left hframed]

/-- A name of one blank passes the request model. -/
def blank : RouterIn where
  name := [' ']
  ipAddress := "10.0.0.1".toList
  description := []
  name_length := by decide
  ipAddress_length := by decide
  description_length := Nat.zero_le 256

/-- It is stored as the empty name. -/
theorem router_table_blank :
    ¬((system .ascii).Always (fun conn ↦ conn.committed.WellFormed .ascii) (.idle empty)
        [addRouter blank []] ∧
      (system .ascii).Along (Framed .ascii) (.idle empty) [addRouter blank []]) := by
  rintro ⟨⟨-, halways⟩, -⟩
  have hrow : (⟨1, [], "10.0.0.1".toList, [], true, [], []⟩ : Router) ∈
      ((addRouter blank []).run .ascii (.idle empty)).2.committed.rows := by decide +kernel
  exact ((halways _ rfl).head.rows _ hrow).name_ne rfl

end RouterCall

end LogServer
