import LogServer.Api.Routers
import LogServer.Database.Settings
import LogServer.Lib.Transition

/-!
# The logo

An operator uploads a logo; what is kept of it is a PNG that the server made, under a fresh name in one
directory, and the name is a setting.  The processes of the API work on the directory and on the settings at
the same time, and each of them may be killed: a request for a new logo writes its file, reads the setting,
overwrites it, and removes the file that the setting named, and between any two of these another request may
do the same.

`logo_is_served`: whatever the interleaving, the logo that the setting names is in the directory as it was
made from its upload, and is served; what is removed was overwritten before.

`no_leftovers`: where the setting is read and overwritten, and the old file removed, without another request
in between, no file stays but the logo.

Pillow is a parameter, and so is chance: the names that `secrets.token_hex` makes are the choice of an action,
and the runs are those in which no name comes twice.
-/

namespace LogServer

open Transition

def MAX_LOGO_BYTES : Nat := 2 * 1024 * 1024

def MAX_LOGO_PIXELS : Nat := 4000

/-- What the library does: it checks the bytes of an image, opens them, converts and scales the image, and
writes it as a PNG. -/
structure Pillow (ι : Type) where
  verify : Bytes → Except PyError Unit
  open_ : Bytes → Except PyError ι
  format : ι → Text
  width : ι → Nat
  height : ι → Nat
  thumbnail : ι → Except PyError ι
  png : ι → Bytes

def IMAGE_FORMATS : List Text :=
  ["PNG".toList, "JPEG".toList, "GIF".toList, "WEBP".toList, "BMP".toList]

namespace Branding

/-! ## Requests -/

section images

variable {ι : Type} (pillow : Pillow ι)

/-- `_process_logo`, up to the file. -/
def openImage (raw : Bytes) : Except PyError ι := do
  pillow.verify raw
  let img ← pillow.open_ raw
  if pillow.format img ∉ IMAGE_FORMATS then
    throw (.valueError (pillow.format img ++ " images are not accepted".toList))
  if pillow.width img > MAX_LOGO_PIXELS ∨ pillow.height img > MAX_LOGO_PIXELS then
    throw (.valueError "Image is too large; use 4000x4000 pixels or smaller".toList)
  pillow.thumbnail img

/-- The answer to an exception of `_process_logo`. -/
def refuse : PyError → HTTPException
  | .valueError message => ⟨400, message⟩
  | _ => ⟨400, "That file is not a readable image.".toList⟩

/-- `upload_logo`, up to the file: the PNG that is written to it. -/
def receive (upload : Bytes) : Except HTTPException Bytes :=
  let raw := upload.take (MAX_LOGO_BYTES + 1)
  if raw.length > MAX_LOGO_BYTES then .error ⟨413, "Logo must be 2 MB or smaller.".toList⟩
  else if raw = [] then .error ⟨400, "The file was empty.".toList⟩
  else ((openImage pillow raw).map pillow.png).mapError refuse

end images

/-- What `secrets.token_hex(8)` returns. -/
abbrev Hex := {t : Text // t.length = 16 ∧ ∀ c ∈ t, c ∈ "0123456789abcdef".toList}

def filename (token : Hex) : Text := "logo-".toList ++ token.val ++ ".png".toList

/-- The names that `serve_logo` looks for. -/
def served (filename : Text) : Bool :=
  "logo-".toList.isPrefixOf filename && ".png".toList.isSuffixOf filename && !('/' ∈ filename)

/-! ## The system -/

inductive Call where
  /-- `img.save` writes the file. -/
  | saving (name : Text) (png : Bytes)
  /-- The file is there; `clear_logo` begins here, without a name. -/
  | saved (name : Text)
  /-- The previous name was read. -/
  | replacing (name previous : Text)
  /-- The setting was overwritten, and there was a previous name. -/
  | removing (previous : Text)

end Branding

/-- The settings, the directory of the logos, and the requests by number; for the record, the uploads with
the names of their files, and the names that were overwritten. -/
structure Branding where
  settings : Settings := Settings.initSchema []
  files : Text → Option Bytes := fun _ ↦ none
  calls : Nat → Option Branding.Call := fun _ ↦ none
  uploads : List (Text × Bytes) := []
  retired : List Text := []

namespace Branding

inductive Action where
  | upload (q : Nat) (token : Hex) (upload : Bytes)
  /-- So many bytes are in the file. -/
  | write (q : Nat) (n : Nat)
  | close (q : Nat)
  /-- `img.save` raises, and leaves or removes the file. -/
  | fail (q : Nat) (left : Option Bytes)
  | clear (q : Nat)
  | read (q : Nat)
  | set (q : Nat)
  /-- `unlink`, which may raise. -/
  | unlink (q : Nat) (ok : Bool)
  | kill (q : Nat)
  | setBranding (companyName : Text)

def logo (s : Branding) : Text := s.settings.getSetting "logo_filename".toList []

def getBranding (s : Branding) : Text × Option Text :=
  (s.settings.getSetting "company_name".toList "Network Log Server".toList,
    if s.logo = [] then none else some ("/api/settings/logo/".toList ++ s.logo))

def serveLogo (s : Branding) (filename : Text) : Except HTTPException Bytes :=
  if served filename then
    match s.files filename with
    | some content => .ok content
    | none => .error ⟨404, "No such logo.".toList⟩
  else .error ⟨404, "No such logo.".toList⟩

def goto (s : Branding) (q : Nat) (call : Call) : Branding :=
  { s with calls := Function.update s.calls q (some call) }

def done (s : Branding) (q : Nat) : Branding := { s with calls := Function.update s.calls q none }

/-- A file gets another content, or is removed. -/
def setFile (s : Branding) (name : Text) (content : Option Bytes) : Branding :=
  { s with files := Function.update s.files name content }

def setLogo (s : Branding) (name : Text) : Branding :=
  { s with
    settings := s.settings.setSetting "logo_filename".toList name
    retired := if s.logo = [] then s.retired else s.logo :: s.retired }

section steps

variable {ι : Type} (pillow : Pillow ι) (u : CharTable)

def step (s : Branding) : Action → Option Branding
  | .upload q token upload =>
      match s.calls q, receive pillow upload with
      | none, .ok png =>
          let s := { s with uploads := (filename token, upload) :: s.uploads }
          some ((s.setFile (filename token) (some [])).goto q (.saving (filename token) png))
      | _, _ => none
  | .write q n =>
      match s.calls q with
      | some (.saving name png) => some (s.setFile name (some (png.take n)))
      | _ => none
  | .close q =>
      match s.calls q with
      | some (.saving name png) => some ((s.setFile name (some png)).goto q (.saved name))
      | _ => none
  | .fail q left =>
      match s.calls q with
      | some (.saving name _) => some ((s.setFile name left).done q)
      | _ => none
  | .clear q =>
      match s.calls q with
      | none => some (s.goto q (.saved []))
      | _ => none
  | .read q =>
      match s.calls q with
      | some (.saved name) => some (s.goto q (.replacing name s.logo))
      | _ => none
  | .set q =>
      match s.calls q with
      | some (.replacing name previous) =>
          if previous = [] then some ((s.setLogo name).done q)
          else some ((s.setLogo name).goto q (.removing previous))
      | _ => none
  | .unlink q ok =>
      match s.calls q with
      | some (.removing previous) =>
          some ((if ok then s.setFile previous none else s).done q)
      | _ => none
  | .kill q => if (s.calls q).isSome then some (s.done q) else none
  | .setBranding companyName =>
      if 1 ≤ companyName.length ∧ companyName.length ≤ 64 then
        some { s with settings := s.settings.setSetting "company_name".toList (strip u companyName) }
      else none

def system : System Branding Action where
  init s := s = {}
  step := step pillow u

end steps

/-! ## What is kept -/

section kept

variable {ι : Type} (pillow : Pillow ι)

def names (s : Branding) : List Text := s.uploads.map Prod.fst

def Genuine (s : Branding) (name : Text) (png : Bytes) : Prop :=
  ∃ upload, (name, upload) ∈ s.uploads ∧ receive pillow upload = .ok png

/-- A file is there as it was made. -/
def Kept (s : Branding) (name : Text) : Prop :=
  ∃ png, s.files name = some png ∧ s.Genuine pillow name png

/-- The name that a request has made and not set. -/
def Call.own : Call → Option Text
  | .saving name _ => some name
  | .saved name | .replacing name _ => if name = [] then none else some name
  | .removing _ => none

/-- What a request relies on. -/
def Call.Sound (s : Branding) : Call → Prop
  | .saving name png => s.Genuine pillow name png
  | .saved name => name ≠ [] → s.Kept pillow name
  | .replacing name previous =>
      (name ≠ [] → s.Kept pillow name) ∧ (previous ≠ [] → previous = s.logo ∨ previous ∈ s.retired)
  | .removing previous => previous ∈ s.retired

/-- A name that is still to be set: it was made, and is neither the logo nor one that was. -/
def Unused (s : Branding) (name : Text) : Prop :=
  name ∈ s.names ∧ name ≠ s.logo ∧ name ∉ s.retired

/-- The logo is there as it was made, and each name is set once at most. -/
structure Sound (s : Branding) : Prop where
  named : ∀ name ∈ s.names, ∃ token, name = filename token
  logo : s.logo ≠ [] → s.Kept pillow s.logo
  logo_not_retired : s.logo ∉ s.retired
  retired : ∀ name ∈ s.retired, name ∈ s.names
  calls : ∀ q call, s.calls q = some call → call.Sound pillow s
  own : ∀ q call name, s.calls q = some call → call.own = some name → s.Unused name
  distinct : ∀ q q' call call' name, s.calls q = some call → s.calls q' = some call' →
    call.own = some name → call'.own = some name → q = q'

variable {pillow} {u : CharTable} {s s' : Branding} {q : Nat} {call : Call} {name : Text}

theorem filename_ne_nil (token : Hex) : filename token ≠ [] := List.cons_ne_nil _ _

theorem Sound.ne_nil (h : s.Sound pillow) (hname : name ∈ s.names) : name ≠ [] := by
  obtain ⟨token, rfl⟩ := h.named name hname
  exact filename_ne_nil token

theorem Kept.made (h : s.Kept pillow name) : name ∈ s.names := by
  obtain ⟨png, -, upload, hmem, -⟩ := h
  exact List.mem_map_of_mem (f := Prod.fst) hmem

/-- The names that are made are looked for. -/
theorem served_filename (token : Hex) : served (filename token) = true := by
  have hslash : '/' ∉ filename token := by
    intro hmem
    rcases List.mem_append.mp hmem with hmem | hmem
    · rcases List.mem_append.mp hmem with hmem | hmem
      · revert hmem
        decide
      · have hhex := token.2.2 '/' hmem
        revert hhex
        decide
    · revert hmem
      decide
  rw [served, Bool.and_eq_true, Bool.and_eq_true, List.isPrefixOf_iff_prefix, List.isSuffixOf_iff_suffix]
  refine ⟨⟨?_, List.suffix_append _ _⟩, ?_⟩
  · exact (List.prefix_append _ _).trans (List.prefix_append _ _)
  · rw [decide_eq_false hslash]
    rfl

/-! ### One request goes on -/

/-- What a request relies on stays where the files it relies on do. -/
theorem Call.Sound.mono (h : call.Sound pillow s)
    (hfiles : ∀ name, call.own = some name → s.Kept pillow name → s'.Kept pillow name)
    (huploads : s.uploads ⊆ s'.uploads)
    (hretired : ∀ name, name = s.logo ∨ name ∈ s.retired → name ≠ [] → name = s'.logo ∨ name ∈ s'.retired)
    (hremoved : s.retired ⊆ s'.retired) : call.Sound pillow s' := by
  cases call with
  | saving name png =>
      obtain ⟨upload, hmem, hpng⟩ := h
      exact ⟨upload, huploads hmem, hpng⟩
  | saved name => exact fun hne ↦ hfiles name (if_neg hne) (h hne)
  | replacing name previous =>
      exact ⟨fun hne ↦ hfiles name (if_neg hne) (h.1 hne), fun hne ↦ hretired previous (h.2 hne) hne⟩
  | removing previous => exact hremoved h

/-- The requests after one of them has gone on. -/
theorem calls_update {c : Option Call} {q' : Nat} (h : Function.update s.calls q c q' = some call) :
    q' = q ∧ c = some call ∨ q' ≠ q ∧ s.calls q' = some call := by
  by_cases hq : q' = q
  · subst hq
    rw [Function.update_self] at h
    exact .inl ⟨rfl, h⟩
  · rw [Function.update_of_ne hq] at h
    exact .inr ⟨hq, h⟩

/-- A request ends. -/
theorem Sound.done (h : s.Sound pillow) (q : Nat) : (s.done q).Sound pillow where
  named := h.named
  logo := h.logo
  logo_not_retired := h.logo_not_retired
  retired := h.retired
  calls q' call hcall := by
    obtain ⟨-, hnone⟩ | ⟨-, hcall⟩ := calls_update hcall
    · cases hnone
    · exact h.calls q' call hcall
  own q' call name hcall hown := by
    obtain ⟨-, hnone⟩ | ⟨-, hcall⟩ := calls_update hcall
    · cases hnone
    · exact h.own q' call name hcall hown
  distinct q₁ q₂ c₁ c₂ name h₁ h₂ := by
    obtain ⟨-, hnone⟩ | ⟨-, h₁⟩ := calls_update h₁
    · cases hnone
    obtain ⟨-, hnone⟩ | ⟨-, h₂⟩ := calls_update h₂
    · cases hnone
    exact h.distinct q₁ q₂ c₁ c₂ name h₁ h₂

/-- A request goes on, and no other has its name. -/
theorem Sound.goto (h : s.Sound pillow) (hcall : call.Sound pillow s)
    (hown : ∀ name, call.own = some name → s.Unused name ∧
      ∀ q' call', q' ≠ q → s.calls q' = some call' → call'.own ≠ some name) :
    (s.goto q call).Sound pillow where
  named := h.named
  logo := h.logo
  logo_not_retired := h.logo_not_retired
  retired := h.retired
  calls q' call' hcall' := by
    obtain ⟨-, hsome⟩ | ⟨-, hcall'⟩ := calls_update hcall'
    · cases hsome
      exact hcall
    · exact h.calls q' call' hcall'
  own q' call' name hcall' hname := by
    obtain ⟨-, hsome⟩ | ⟨-, hcall'⟩ := calls_update hcall'
    · cases hsome
      exact (hown name hname).1
    · exact h.own q' call' name hcall' hname
  distinct q₁ q₂ c₁ c₂ name h₁ h₂ hname₁ hname₂ := by
    obtain ⟨hq₁, hsome₁⟩ | ⟨hq₁, h₁⟩ := calls_update h₁
    · obtain ⟨hq₂, -⟩ | ⟨hq₂, h₂⟩ := calls_update h₂
      · exact hq₁.trans hq₂.symm
      · cases hsome₁
        exact absurd hname₂ ((hown name hname₁).2 q₂ c₂ hq₂ h₂)
    · obtain ⟨-, hsome₂⟩ | ⟨-, h₂⟩ := calls_update h₂
      · cases hsome₂
        exact absurd hname₁ ((hown name hname₂).2 q₁ c₁ hq₁ h₁)
      · exact h.distinct q₁ q₂ c₁ c₂ name h₁ h₂ hname₁ hname₂

theorem Sound.goto_removing (h : s.Sound pillow) (hname : name ∈ s.retired) :
    (s.goto q (.removing name)).Sound pillow :=
  h.goto hname fun _ hnone ↦ absurd hnone.symm (Option.some_ne_none _)

/-- The name of a request is its own. -/
theorem Sound.own_of_call (h : s.Sound pillow) (hq : s.calls q = some call) (hname : call.own = some name) :
    s.Unused name ∧ ∀ q' call', q' ≠ q → s.calls q' = some call' → call'.own ≠ some name :=
  ⟨h.own q call name hq hname, fun q' call' hne hq' hname' ↦
    hne (h.distinct q' q call' call name hq' hq hname' hname)⟩

/-- A file that no request has finished changes. -/
theorem Sound.setFile (h : s.Sound pillow) (hlogo : name ≠ s.logo)
    (hcalls : ∀ q call, s.calls q = some call → call.own = some name → ∃ png, call = .saving name png)
    (content : Option Bytes) : (s.setFile name content).Sound pillow := by
  have hkept {name' : Text} (hne : name' ≠ name) (hkept : s.Kept pillow name') :
      (s.setFile name content).Kept pillow name' := by
    obtain ⟨png, hfile, hgenuine⟩ := hkept
    exact ⟨png, (Function.update_of_ne hne _ _).trans hfile, hgenuine⟩
  refine ⟨h.named, fun hsome ↦ hkept hlogo.symm (h.logo hsome), h.logo_not_retired, h.retired, ?_, h.own,
    h.distinct⟩
  intro q call hq
  have hcall := h.calls q call hq
  by_cases hown : call.own = some name
  · obtain ⟨png, rfl⟩ := hcalls q call hq hown
    exact hcall
  · refine hcall.mono (fun name' hname' ↦ hkept fun heq ↦ hown (heq ▸ hname')) (List.Subset.refl _)
      (fun name' hname' _ ↦ hname') (List.Subset.refl _)

/-- A name is made for an upload. -/
theorem Sound.record (h : s.Sound pillow) (token : Hex) (upload : Bytes) :
    ({ s with uploads := (filename token, upload) :: s.uploads } : Branding).Sound pillow := by
  have hkept {name : Text} (hkept : s.Kept pillow name) :
      ({ s with uploads := (filename token, upload) :: s.uploads } : Branding).Kept pillow name := by
    obtain ⟨png, hfile, upload, hmem, hpng⟩ := hkept
    exact ⟨png, hfile, upload, List.mem_cons_of_mem _ hmem, hpng⟩
  refine ⟨?_, fun hsome ↦ hkept (h.logo hsome), h.logo_not_retired, ?_, ?_, ?_, h.distinct⟩
  · intro name hname
    rcases List.mem_cons.mp hname with rfl | hname
    · exact ⟨token, rfl⟩
    · exact h.named name hname
  · exact fun name hname ↦ List.mem_cons_of_mem _ (h.retired name hname)
  · exact fun q call hq ↦ (h.calls q call hq).mono (fun _ _ ↦ hkept) (List.subset_cons_self _ _)
      (fun _ hname _ ↦ hname) (List.Subset.refl _)
  · intro q call name hq hname
    obtain ⟨hmade, hunused⟩ := h.own q call name hq hname
    exact ⟨List.mem_cons_of_mem _ hmade, hunused⟩

/-- A file under a fresh name. -/
theorem Sound.upload (h : s.Sound pillow) {token : Hex} {upload png : Bytes}
    (hfresh : filename token ∉ s.names) (hpng : receive pillow upload = .ok png) :
    ((({ s with uploads := (filename token, upload) :: s.uploads } : Branding).setFile (filename token)
      (some [])).goto q (.saving (filename token) png)).Sound pillow := by
  have hlogo : filename token ≠ s.logo := by
    intro heq
    have hkept := h.logo (heq ▸ filename_ne_nil token)
    exact hfresh (heq ▸ hkept.made)
  have hothers : ∀ q call, s.calls q = some call → call.own ≠ some (filename token) :=
    fun q call hq hname ↦ hfresh (h.own q call _ hq hname).1
  have hset := (h.record token upload).setFile hlogo
    (fun q call hq hname ↦ absurd hname (hothers q call hq)) (some [])
  refine hset.goto
    (show Call.Sound pillow _ (.saving (filename token) png) from ⟨upload, List.mem_cons_self, hpng⟩) ?_
  rintro name ⟨⟩
  exact ⟨⟨List.mem_cons_self, hlogo, fun hretired ↦ hfresh (h.retired _ hretired)⟩,
    fun q' call' _ hq' ↦ hothers q' call' hq'⟩

/-- What a request that saves its file does to it. -/
theorem Sound.setFile_saving (h : s.Sound pillow) {png : Bytes} (hq : s.calls q = some (.saving name png))
    (content : Option Bytes) : (s.setFile name content).Sound pillow := by
  refine h.setFile (h.own q _ name hq rfl).2.1 (fun q' call' hq' hname ↦ ?_) content
  obtain rfl := h.distinct q' q call' _ name hq' hq hname rfl
  exact ⟨png, Option.some.inj (hq'.symm.trans hq)⟩

/-- A file that is complete. -/
theorem Sound.close (h : s.Sound pillow) {png : Bytes} (hq : s.calls q = some (.saving name png)) :
    ((s.setFile name (some png)).goto q (.saved name)).Sound pillow := by
  have hset := h.setFile_saving hq (some png)
  have hgenuine : s.Genuine pillow name png := h.calls q _ hq
  refine hset.goto (fun _ ↦ ⟨png, Function.update_self _ _ _, hgenuine⟩) fun name' hname' ↦ ?_
  have hne : name ≠ [] := h.ne_nil (h.own q _ name hq rfl).1
  obtain rfl := Option.some.inj ((if_neg hne).symm.trans hname')
  exact hset.own_of_call hq rfl

theorem logo_setLogo (s : Branding) (name : Text) : (s.setLogo name).logo = name := by
  show ((s.settings.setSetting _ name).lookup _).getD [] = name
  rw [Settings.lookup_setSetting, if_pos rfl]
  rfl

theorem logo_done (s : Branding) (q : Nat) : (s.done q).logo = s.logo := rfl

/-- The logo is retired, if there is one. -/
theorem mem_retired_setLogo {name' : Text} :
    name' ∈ (s.setLogo name).retired ↔ name' = s.logo ∧ s.logo ≠ [] ∨ name' ∈ s.retired := by
  show name' ∈ (if s.logo = [] then s.retired else s.logo :: s.retired) ↔ _
  split
  · rename_i hnone
    exact ⟨.inr, fun hmem ↦ hmem.resolve_left fun hlogo ↦ hlogo.2 hnone⟩
  · rename_i hsome
    exact List.mem_cons.trans (or_congr_left ⟨fun heq ↦ ⟨heq, hsome⟩, And.left⟩)

/-- What was the logo or retired is retired. -/
theorem mem_retired_of_previous {name' : Text} (hmem : name' = s.logo ∨ name' ∈ s.retired) (hne : name' ≠ []) :
    name' ∈ (s.setLogo name).retired :=
  mem_retired_setLogo.mpr (hmem.imp (fun heq ↦ ⟨heq, heq ▸ hne⟩) id)

/-- A name that was made becomes the logo, and the logo is retired. -/
theorem Sound.set (h : s.Sound pillow) {previous : Text} (hq : s.calls q = some (.replacing name previous)) :
    ((s.setLogo name).done q).Sound pillow := by
  obtain ⟨hkept, -⟩ := h.calls q _ hq
  have hown (hne : name ≠ []) : s.Unused name := h.own q _ name hq (if_neg hne)
  have hnil : ([] : Text) ∉ s.retired := fun hmem ↦ h.ne_nil (h.retired _ hmem) rfl
  have hlogo : ((s.setLogo name).done q).logo = name := logo_setLogo s name
  have hretired : ∀ name' ∈ (s.setLogo name).retired, name' = s.logo ∧ s.logo ≠ [] ∨ name' ∈ s.retired :=
    fun _ ↦ mem_retired_setLogo.mp
  have hold : ∀ name', name' = s.logo ∨ name' ∈ s.retired → name' ≠ [] → name' ∈ (s.setLogo name).retired :=
    fun _ ↦ mem_retired_of_previous
  refine ⟨h.named, ?_, ?_, ?_, ?_, ?_, ?_⟩
  · rw [hlogo]
    exact hkept
  · rw [hlogo]
    intro hmem
    by_cases hne : name = []
    · subst hne
      rcases hretired _ hmem with ⟨heq, hsome⟩ | hmem
      · exact hsome heq.symm
      · exact hnil hmem
    · rcases hretired _ hmem with ⟨heq, -⟩ | hmem
      · exact (hown hne).2.1 heq
      · exact (hown hne).2.2 hmem
  · intro name' hmem
    rcases hretired _ hmem with ⟨rfl, hsome⟩ | hmem
    · exact (h.logo hsome).made
    · exact h.retired name' hmem
  · intro q' call' hq'
    obtain ⟨-, hnone⟩ | ⟨hne, hq'⟩ := calls_update hq'
    · cases hnone
    · exact (h.calls q' call' hq').mono (fun _ _ hkept ↦ hkept) (List.Subset.refl _)
        (fun name' hmem hsome ↦ .inr (hold name' hmem hsome))
        (fun name' hmem ↦ hold name' (.inr hmem) (h.ne_nil (h.retired name' hmem)))
  · intro q' call' name' hq' hname'
    obtain ⟨-, hnone⟩ | ⟨hne, hq'⟩ := calls_update hq'
    · cases hnone
    · obtain ⟨hmade, hlogo', hunretired⟩ := h.own q' call' name' hq' hname'
      refine ⟨hmade, ?_, fun hmem ↦ ?_⟩
      · rw [hlogo]
        rintro rfl
        exact hne (h.distinct q' q call' _ name' hq' hq hname' (if_neg (h.ne_nil hmade)))
      · rcases hretired _ hmem with ⟨heq, -⟩ | hmem
        · exact hlogo' heq
        · exact hunretired hmem
  · exact (h.done q).distinct

/-- The name of the company is another setting. -/
theorem logo_setSetting (s : Branding) (companyName : Text) :
    ({ s with settings := s.settings.setSetting "company_name".toList companyName } : Branding).logo =
      s.logo := by
  show ((s.settings.setSetting _ _).lookup _).getD [] = _
  rw [Settings.lookup_setSetting, if_neg (by decide)]
  rfl

/-- Another setting than the logo is overwritten. -/
theorem Sound.setBranding (h : s.Sound pillow) (settings : Settings)
    (hlogo : ({ s with settings } : Branding).logo = s.logo) :
    ({ s with settings } : Branding).Sound pillow := by
  refine ⟨h.named, ?_, ?_, h.retired, ?_, ?_, h.distinct⟩
  · rw [hlogo]
    exact h.logo
  · rw [hlogo]
    exact h.logo_not_retired
  · intro q call hq
    refine (h.calls q call hq).mono (fun _ _ hkept ↦ hkept) (List.Subset.refl _) (fun name hname _ ↦ ?_)
      (List.Subset.refl _)
    rw [hlogo]
    exact hname
  · intro q call name hq hname
    obtain ⟨hmade, hne, hunretired⟩ := h.own q call name hq hname
    exact ⟨hmade, hlogo ▸ hne, hunretired⟩

/-- What an upload is named is new. -/
def Fresh (s : Branding) : Action → Prop
  | .upload _ token _ => filename token ∉ s.names
  | _ => True

/-- **A step keeps the logo.** -/
theorem Sound.step (h : s.Sound pillow) {a : Action} (hfresh : s.Fresh a)
    (hstep : Branding.step pillow u s a = some s') : s'.Sound pillow := by
  cases a with
  | upload q token upload =>
      rw [Branding.step] at hstep
      split at hstep
      · rename_i hpng
        cases hstep
        exact h.upload hfresh hpng
      · cases hstep
  | write q n =>
      rw [Branding.step] at hstep
      split at hstep
      · rename_i hq
        cases hstep
        exact h.setFile_saving hq _
      · cases hstep
  | close q =>
      rw [Branding.step] at hstep
      split at hstep
      · rename_i hq
        cases hstep
        exact h.close hq
      · cases hstep
  | fail q left =>
      rw [Branding.step] at hstep
      split at hstep
      · rename_i hq
        cases hstep
        exact (h.setFile_saving hq left).done q
      · cases hstep
  | clear q =>
      rw [Branding.step] at hstep
      split at hstep
      · cases hstep
        exact h.goto (fun hne ↦ absurd rfl hne) fun _ hnone ↦ absurd hnone.symm (Option.some_ne_none _)
      · cases hstep
  | read q =>
      rw [Branding.step] at hstep
      split at hstep
      · rename_i name hq
        cases hstep
        exact h.goto ⟨h.calls q _ hq, fun _ ↦ .inl rfl⟩ fun name' hname' ↦ h.own_of_call hq hname'
      · cases hstep
  | set q =>
      rw [Branding.step] at hstep
      split at hstep
      · rename_i name previous hq
        split at hstep
        · cases hstep
          exact h.set hq
        · rename_i hprevious
          cases hstep
          have hretired : previous ∈ (s.setLogo name).retired :=
            mem_retired_of_previous ((h.calls q _ hq).2 hprevious) hprevious
          have hset := (h.set hq).goto_removing (q := q) hretired
          rwa [Branding.done, Branding.goto, Function.update_idem] at hset
      · cases hstep
  | unlink q ok =>
      rw [Branding.step] at hstep
      split at hstep
      · rename_i previous hq
        cases hstep
        refine Sound.done ?_ q
        cases ok with
        | true =>
            have hretired : previous ∈ s.retired := h.calls q _ hq
            refine h.setFile (fun heq ↦ h.logo_not_retired (heq ▸ hretired)) (fun q' call' hq' hname ↦ ?_) none
            exact absurd hretired (h.own q' call' previous hq' hname).2.2
        | false => exact h
      · cases hstep
  | kill q =>
      rw [Branding.step] at hstep
      split at hstep
      · cases hstep
        exact h.done q
      · cases hstep
  | setBranding companyName =>
      rw [Branding.step] at hstep
      split at hstep
      · cases hstep
        refine h.setBranding _ ?_
        show ((s.settings.setSetting _ _).lookup _).getD [] = _
        rw [Settings.lookup_setSetting, if_neg (by decide)]
        rfl
      · cases hstep

/-- A new installation has no logo. -/
theorem sound_default : ({} : Branding).Sound pillow where
  named := fun _ hname ↦ absurd hname List.not_mem_nil
  logo := fun hlogo ↦ absurd (by decide +kernel) hlogo
  logo_not_retired := List.not_mem_nil
  retired := fun _ hname ↦ absurd hname List.not_mem_nil
  calls := fun _ _ hnone ↦ absurd hnone.symm (Option.some_ne_none _)
  own := fun _ _ _ hnone ↦ absurd hnone.symm (Option.some_ne_none _)
  distinct := fun _ _ _ _ _ hnone ↦ absurd hnone.symm (Option.some_ne_none _)

theorem Sound.reach (h : Reach (system pillow u) Fresh s) : s.Sound pillow := by
  refine h.invariant (P := Sound pillow) ?_ fun s a s' hs hfresh hstep ↦ hs.step hfresh hstep
  rintro _ rfl
  exact sound_default

/-- A file that is there as it was made is served. -/
theorem Sound.serveLogo (h : s.Sound pillow) (hkept : s.Kept pillow name) :
    ∃ upload png, (name, upload) ∈ s.uploads ∧ receive pillow upload = .ok png ∧
      s.serveLogo name = .ok png := by
  obtain ⟨token, rfl⟩ := h.named name hkept.made
  obtain ⟨png, hfile, upload, hmem, hpng⟩ := hkept
  refine ⟨upload, png, hmem, hpng, ?_⟩
  rw [Branding.serveLogo, if_pos (served_filename token), hfile]

/-- **The logo is served.**  In every run, whatever requests are interleaved in it, killed, or fail: either
there is no logo, and the page is told of none; or the page is told of the logo, and what is served under its
name is what was made of the upload that it was named for.  Nor has any request still to remove it. -/
theorem logo_is_served (h : Reach (system pillow u) Fresh s) :
    (s.logo = [] ∧ s.getBranding.2 = none ∨
      s.getBranding.2 = some ("/api/settings/logo/".toList ++ s.logo) ∧
        ∃ upload png, (s.logo, upload) ∈ s.uploads ∧ receive pillow upload = .ok png ∧
          s.serveLogo s.logo = .ok png) ∧
      ∀ q, s.calls q ≠ some (.removing s.logo) := by
  have hsound := Sound.reach h
  refine ⟨?_, fun q hq ↦ hsound.logo_not_retired (hsound.calls q _ hq)⟩
  by_cases hlogo : s.logo = []
  · exact .inl ⟨hlogo, if_pos hlogo⟩
  · exact .inr ⟨if_neg hlogo, hsound.serveLogo (hsound.logo hlogo)⟩

/-! ### Leftovers -/

/-- A request has read the setting, and is not done. -/
def Call.inside : Call → Bool
  | .replacing _ _ | .removing _ => true
  | _ => false

/-- The requests whose setting is not read while another one replaces it, and of which none is killed or leaves
a file that it should not. -/
def Undisturbed (s : Branding) : Action → Prop
  | .read _ => ∀ q call, s.calls q = some call → call.inside = false
  | .fail _ left => left = none
  | .unlink _ ok => ok = true
  | .kill _ => False
  | _ => True

/-- A request has still to do with a file. -/
def Call.Holds (name : Text) (call : Call) : Prop := call.own = some name ∨ call = .removing name

/-- A file is the logo, or a request has still to do with it. -/
def Owned (s : Branding) (name : Text) : Prop :=
  name = s.logo ∨ ∃ q call, s.calls q = some call ∧ call.Holds name

/-- No file is left over. -/
structure Tidy (pillow : Pillow ι) (s : Branding) : Prop where
  sound : s.Sound pillow
  made : ∀ name, s.files name ≠ none → name ∈ s.names
  owned : ∀ name, s.files name ≠ none → s.Owned name
  single : ∀ q q' call call', s.calls q = some call → s.calls q' = some call' →
    call.inside = true → call'.inside = true → q = q'
  previous : ∀ q name previous, s.calls q = some (.replacing name previous) → previous = s.logo

/-- One request goes on, and what it had to do with is taken care of. -/
theorem Owned.update (h : s.Owned name) (hcalls : ∀ q', q' ≠ q → s'.calls q' = s.calls q')
    (hlogo : name = s.logo → s'.Owned name)
    (hq : ∀ call, s.calls q = some call → call.Holds name → s'.Owned name) : s'.Owned name := by
  rcases h with heq | ⟨q', call, hq', hholds⟩
  · exact hlogo heq
  · by_cases hne : q' = q
    · exact hq call (hne ▸ hq') hholds
    · exact .inr ⟨q', call, (hcalls q' hne).trans hq', hholds⟩

/-- The files but one are those that were there. -/
theorem files_setFile {content : Option Bytes} {name' : Text} (h : (s.setFile name content).files name' ≠ none) :
    name' = name ∧ content ≠ none ∨ name' ≠ name ∧ s.files name' ≠ none := by
  by_cases hname : name' = name
  · subst hname
    exact .inl ⟨rfl, fun hnone ↦ h ((Function.update_self _ _ _).trans hnone)⟩
  · exact .inr ⟨hname, fun hnone ↦ h ((Function.update_of_ne hname _ _).trans hnone)⟩

/-- One request goes on.  It is the only one that has read the setting if it has, or if the logo changes. -/
theorem Tidy.update (h : s.Tidy pillow) {c : Option Call} (hsound : s'.Sound pillow)
    (hcalls : s'.calls = Function.update s.calls q c)
    (halone : (∃ call, c = some call ∧ call.inside = true) ∨ s'.logo ≠ s.logo →
      ∀ q' call', q' ≠ q → s.calls q' = some call' → call'.inside = false)
    (hprevious : ∀ name previous, c = some (.replacing name previous) → previous = s'.logo)
    (hfiles : ∀ name, s'.files name ≠ none → name ∈ s'.names ∧ s'.Owned name) : s'.Tidy pillow where
  sound := hsound
  made name hname := (hfiles name hname).1
  owned name hname := (hfiles name hname).2
  single q₁ q₂ c₁ c₂ h₁ h₂ hin₁ hin₂ := by
    rw [hcalls] at h₁ h₂
    obtain ⟨hq₁, hc₁⟩ | ⟨hq₁, h₁⟩ := calls_update h₁
    · obtain ⟨hq₂, -⟩ | ⟨hq₂, h₂⟩ := calls_update h₂
      · exact hq₁.trans hq₂.symm
      · have hout := halone (.inl ⟨c₁, hc₁, hin₁⟩) q₂ c₂ hq₂ h₂
        exact absurd (hout.symm.trans hin₂) Bool.false_ne_true
    · obtain ⟨-, hc₂⟩ | ⟨-, h₂⟩ := calls_update h₂
      · have hout := halone (.inl ⟨c₂, hc₂, hin₂⟩) q₁ c₁ hq₁ h₁
        exact absurd (hout.symm.trans hin₁) Bool.false_ne_true
      · exact h.single q₁ q₂ c₁ c₂ h₁ h₂ hin₁ hin₂
  previous q' name previous hq' := by
    rw [hcalls] at hq'
    obtain ⟨-, hc⟩ | ⟨hne, hq'⟩ := calls_update hq'
    · exact hprevious name previous hc
    · by_cases hlogo : s'.logo = s.logo
      · exact (h.previous q' name previous hq').trans hlogo.symm
      · exact absurd (halone (.inr hlogo) q' _ hne hq').symm Bool.false_ne_true

/-- While a request replaces the logo, no other one does. -/
theorem Tidy.alone (h : s.Tidy pillow) (hq : s.calls q = some call) (hin : call.inside = true) :
    ∀ q' call', q' ≠ q → s.calls q' = some call' → call'.inside = false := by
  intro q' call' hne hq'
  by_contra hin'
  exact hne (h.single q' q call' call hq' hq (Bool.eq_true_of_not_eq_false hin') hin)

/-- A file that is complete is held by its request. -/
theorem Tidy.close (h : s.Tidy pillow) {png : Bytes} (hq : s.calls q = some (.saving name png)) :
    ((s.setFile name (some png)).goto q (.saved name)).Tidy pillow := by
  refine h.update (h.sound.close hq) rfl ?_ nofun fun name' hname' ↦ ?_
  · rintro (⟨call, ⟨⟩, hin⟩ | hlogo)
    · cases hin
    · exact absurd rfl hlogo
  · obtain ⟨hmade, -⟩ := h.sound.own q _ name hq rfl
    have hheld : ((s.setFile name (some png)).goto q (.saved name)).Owned name :=
      .inr ⟨q, _, Function.update_self _ _ _, .inl (if_neg (h.sound.ne_nil hmade))⟩
    rcases files_setFile hname' with ⟨rfl, -⟩ | ⟨hne, hfile⟩
    · exact ⟨hmade, hheld⟩
    · refine ⟨h.made name' hfile, (h.owned name' hfile).update (fun q' hq' ↦ Function.update_of_ne hq' _ _)
        (fun heq ↦ .inl heq) fun call hcall hholds ↦ ?_⟩
      obtain rfl := Option.some.inj (hcall.symm.trans hq)
      rcases hholds with heq | heq
      · exact absurd (Option.some.inj heq).symm hne
      · cases heq

/-- A file that is begun is held by its request. -/
theorem Tidy.upload (h : s.Tidy pillow) (hq : s.calls q = none) {token : Hex} {upload png : Bytes}
    (hfresh : filename token ∉ s.names) (hpng : receive pillow upload = .ok png) :
    ((({ s with uploads := (filename token, upload) :: s.uploads } : Branding).setFile (filename token)
      (some [])).goto q (.saving (filename token) png)).Tidy pillow := by
  refine h.update (h.sound.upload hfresh hpng) rfl ?_ nofun fun name hname ↦ ?_
  · rintro (⟨call, ⟨⟩, hin⟩ | hlogo)
    · cases hin
    · exact absurd rfl hlogo
  · rcases files_setFile hname with ⟨rfl, -⟩ | ⟨hne, hfile⟩
    · exact ⟨List.mem_cons_self, .inr ⟨q, _, Function.update_self _ _ _, .inl rfl⟩⟩
    · refine ⟨List.mem_cons_of_mem _ (h.made name hfile), (h.owned name hfile).update
        (fun q' hq' ↦ Function.update_of_ne hq' _ _) (fun heq ↦ .inl heq) fun call hcall _ ↦ ?_⟩
      cases hq.symm.trans hcall

/-- What is written to a file that is not complete. -/
theorem Tidy.write (h : s.Tidy pillow) {png : Bytes} (hq : s.calls q = some (.saving name png))
    (content : Option Bytes) : (s.setFile name content).Tidy pillow := by
  refine ⟨h.sound.setFile_saving hq content, fun name' hname' ↦ ?_, fun name' hname' ↦ ?_, h.single,
    h.previous⟩
  · rcases files_setFile hname' with ⟨rfl, -⟩ | ⟨-, hfile⟩
    · exact (h.sound.own q _ name' hq rfl).1
    · exact h.made name' hfile
  · rcases files_setFile hname' with ⟨rfl, -⟩ | ⟨-, hfile⟩
    · exact .inr ⟨q, _, hq, .inl rfl⟩
    · exact h.owned name' hfile

/-- A file is removed, and the request that held it ends. -/
theorem Tidy.remove (h : s.Tidy pillow) (hq : s.calls q = some call)
    (hsound : ((s.setFile name none).done q).Sound pillow)
    (hholds : ∀ name', call.Holds name' → name' = name) : ((s.setFile name none).done q).Tidy pillow := by
  refine h.update hsound rfl ?_ nofun fun name' hname' ↦ ?_
  · rintro (⟨call, ⟨⟩, hin⟩ | hlogo)
    exact absurd rfl hlogo
  · rcases files_setFile hname' with ⟨-, hnone⟩ | ⟨hne, hfile⟩
    · exact absurd rfl hnone
    · refine ⟨h.made name' hfile, (h.owned name' hfile).update (fun q' hq' ↦ Function.update_of_ne hq' _ _)
        (fun heq ↦ .inl heq) fun call' hcall' hheld ↦ ?_⟩
      obtain rfl := Option.some.inj (hcall'.symm.trans hq)
      exact absurd (hholds name' hheld) hne

/-- The setting is overwritten: the file that it named is held by the request, if there is one. -/
theorem Tidy.set (h : s.Tidy pillow) {previous : Text} (hq : s.calls q = some (.replacing name previous))
    {c : Option Call} (hc : c = none ∧ previous = [] ∨ c = some (.removing previous))
    (hsound : ({ s.setLogo name with calls := Function.update s.calls q c } : Branding).Sound pillow) :
    ({ s.setLogo name with calls := Function.update s.calls q c } : Branding).Tidy pillow := by
  have hlogo : ({ s.setLogo name with calls := Function.update s.calls q c } : Branding).logo = name :=
    logo_setLogo s name
  refine h.update hsound rfl (fun _ ↦ h.alone hq rfl) ?_ fun name' hname' ↦ ⟨h.made name' hname', ?_⟩
  · rintro name' previous' rfl
    rcases hc with ⟨hnone, -⟩ | hsome
    · cases hnone
    · cases hsome
  · refine (h.owned name' hname').update (fun q' hq' ↦ Function.update_of_ne hq' _ _) (fun heq ↦ ?_)
      fun call hcall hholds ↦ ?_
    · rcases hc with ⟨-, hnone⟩ | hsome
      · exact absurd (heq.trans ((h.previous q name previous hq).symm.trans hnone))
          (h.sound.ne_nil (h.made name' hname'))
      · refine .inr ⟨q, _, (Function.update_self _ _ _).trans hsome, .inr ?_⟩
        rw [heq, h.previous q name previous hq]
    · obtain rfl := Option.some.inj (hcall.symm.trans hq)
      rcases hholds with heq | heq
      · refine .inl (Eq.trans ?_ hlogo.symm)
        change (if name = [] then none else some name) = some name' at heq
        split at heq
        · cases heq
        · exact (Option.some.inj heq).symm
      · cases heq

/-- **A step leaves no file over.** -/
theorem Tidy.step (h : s.Tidy pillow) {a : Action} (hfresh : s.Fresh a) (hok : s.Undisturbed a)
    (hstep : Branding.step pillow u s a = some s') : s'.Tidy pillow := by
  have hsound := h.sound.step hfresh hstep
  cases a with
  | upload q token upload =>
      rw [Branding.step] at hstep
      split at hstep
      · rename_i hq hpng
        cases hstep
        exact h.upload hq hfresh hpng
      · cases hstep
  | write q n =>
      rw [Branding.step] at hstep
      split at hstep
      · rename_i hq
        cases hstep
        exact h.write hq _
      · cases hstep
  | close q =>
      rw [Branding.step] at hstep
      split at hstep
      · rename_i hq
        cases hstep
        exact h.close hq
      · cases hstep
  | fail q left =>
      obtain rfl : left = none := hok
      rw [Branding.step] at hstep
      split at hstep
      · rename_i hq
        cases hstep
        refine h.remove hq hsound fun name' hholds ↦ ?_
        rcases hholds with heq | heq
        · exact (Option.some.inj heq).symm
        · cases heq
      · cases hstep
  | clear q =>
      rw [Branding.step] at hstep
      split at hstep
      · rename_i hq
        cases hstep
        refine h.update hsound rfl ?_ nofun fun name hname ↦ ⟨h.made name hname, ?_⟩
        · rintro (⟨call, ⟨⟩, hin⟩ | hlogo)
          · cases hin
          · exact absurd rfl hlogo
        · refine (h.owned name hname).update (fun q' hq' ↦ Function.update_of_ne hq' _ _)
            (fun heq ↦ .inl heq) fun call hcall _ ↦ ?_
          cases hq.symm.trans hcall
      · cases hstep
  | read q =>
      rw [Branding.step] at hstep
      split at hstep
      · rename_i name hq
        cases hstep
        refine h.update hsound rfl (fun _ q' call' _ hq' ↦ hok q' call' hq') ?_
          fun name' hname' ↦ ⟨h.made name' hname', ?_⟩
        · rintro name' previous ⟨⟩
          rfl
        · refine (h.owned name' hname').update (fun q' hq' ↦ Function.update_of_ne hq' _ _)
            (fun heq ↦ .inl heq) fun call hcall hholds ↦ ?_
          obtain rfl := Option.some.inj (hcall.symm.trans hq)
          rcases hholds with heq | heq
          · exact .inr ⟨q, _, Function.update_self _ _ _, .inl heq⟩
          · cases heq
      · cases hstep
  | set q =>
      rw [Branding.step] at hstep
      split at hstep
      · rename_i name previous hq
        split at hstep
        · rename_i hprevious
          cases hstep
          exact h.set hq (.inl ⟨rfl, hprevious⟩) hsound
        · cases hstep
          exact h.set hq (.inr rfl) hsound
      · cases hstep
  | unlink q ok =>
      obtain rfl : ok = true := hok
      rw [Branding.step] at hstep
      split at hstep
      · rename_i previous hq
        cases hstep
        refine h.remove hq hsound fun name' hholds ↦ ?_
        rcases hholds with heq | heq
        · cases heq
        · exact (Call.removing.inj heq).symm
      · cases hstep
  | kill q => exact absurd hok id
  | setBranding companyName =>
      rw [Branding.step] at hstep
      split at hstep
      · cases hstep
        have hlogo := logo_setSetting s (strip u companyName)
        refine ⟨hsound, h.made, fun name hname ↦ ?_, h.single, fun q name previous hq ↦ ?_⟩
        · exact (h.owned name hname).imp (fun heq ↦ heq.trans hlogo.symm) id
        · exact (h.previous q name previous hq).trans hlogo.symm
      · cases hstep

/-- **Nothing is left over.**  In every run in which the setting is read only while no other request replaces
the logo, files are removed when they should be, and no request is killed: when no request is under way, the
directory has the logo and nothing else. -/
theorem no_leftovers (h : Reach (system pillow u) (fun s a ↦ s.Fresh a ∧ s.Undisturbed a) s)
    (hquiet : ∀ q, s.calls q = none) (name : Text) :
    s.files name ≠ none ↔ name = s.logo ∧ s.logo ≠ [] := by
  have htidy : s.Tidy pillow := by
    refine h.invariant (P := Tidy pillow) ?_ fun s a s' hs hok hstep ↦ hs.step hok.1 hok.2 hstep
    rintro _ rfl
    exact ⟨sound_default, fun _ hfile ↦ absurd rfl hfile, fun _ hfile ↦ absurd rfl hfile,
      fun _ _ _ _ hq ↦ absurd hq.symm (Option.some_ne_none _),
      fun _ _ _ hq ↦ absurd hq.symm (Option.some_ne_none _)⟩
  constructor
  · intro hfile
    rcases htidy.owned name hfile with rfl | ⟨q, call, hq, -⟩
    · exact ⟨rfl, htidy.sound.ne_nil (htidy.made _ hfile)⟩
    · cases (hquiet q).symm.trans hq
  · rintro ⟨rfl, hlogo⟩
    obtain ⟨png, hfile, -⟩ := htidy.sound.logo hlogo
    rw [hfile]
    exact Option.some_ne_none png

def onePicture : Pillow Unit where
  verify _ := .ok ()
  open_ _ := .ok ()
  format _ := "PNG".toList
  width _ := 1
  height _ := 1
  thumbnail := .ok
  png _ := [137]

def firstToken : Hex := ⟨"0123456789abcdef".toList, by decide +kernel, fun _ ↦ id⟩

/-- A logo is uploaded. -/
theorem exists_logo : ∃ s, Reach (system onePicture .ascii) (fun s a ↦ s.Fresh a ∧ s.Undisturbed a) s ∧
    s.logo = filename firstToken ∧ ∀ q, s.calls q = none := by
  have hrun : ∃ s, (system onePicture .ascii).Run (fun s a ↦ s.Fresh a ∧ s.Undisturbed a) s {}
      [.upload 0 firstToken [0], .close 0, .read 0, .set 0] ∧
        s.logo = filename firstToken ∧ ∀ q, s.calls q = none := by
    refine ⟨_, .cons rfl ⟨List.not_mem_nil, trivial⟩ (.cons rfl ⟨trivial, trivial⟩
      (.cons rfl ⟨trivial, fun q call hq ↦ ?_⟩ (.cons rfl ⟨trivial, trivial⟩ rfl))), ?_, fun q ↦ ?_⟩
    · obtain ⟨-, ⟨⟩⟩ | ⟨hne, hq⟩ := calls_update hq
      · rfl
      · obtain ⟨hzero, -⟩ | ⟨-, hnone⟩ := calls_update hq
        · exact absurd hzero hne
        · cases hnone
    · rw [logo_done, logo_setLogo]
    · simp only [Branding.done, setLogo, Branding.goto, Branding.setFile, Function.update_idem,
        Function.update_apply, ite_self]
  obtain ⟨s, hrun, hlogo, hquiet⟩ := hrun
  exact ⟨s, (Reach.init rfl).run hrun, hlogo, hquiet⟩

theorem logo_is_served_session : ∃ s, Reach (system onePicture .ascii) Fresh s ∧
    ∃ png, s.serveLogo (filename firstToken) = .ok png := by
  obtain ⟨s, hs, hlogo, -⟩ := exists_logo
  have h := hs.mono fun _ _ hok ↦ hok.1
  obtain ⟨hnone | ⟨-, _, png, -, -, hserve⟩, -⟩ := logo_is_served h
  · exact absurd (hlogo.symm.trans hnone.1) (filename_ne_nil _)
  · exact ⟨s, h, png, hlogo ▸ hserve⟩

theorem no_leftovers_session : ∃ s, Reach (system onePicture .ascii) (fun s a ↦ s.Fresh a ∧ s.Undisturbed a) s ∧
    ∀ name, s.files name ≠ none ↔ name = filename firstToken := by
  obtain ⟨s, hs, hlogo, hquiet⟩ := exists_logo
  refine ⟨s, hs, fun name ↦ (no_leftovers hs hquiet name).trans ?_⟩
  rw [hlogo]
  exact and_iff_left (filename_ne_nil _)

end kept

end Branding

end LogServer
