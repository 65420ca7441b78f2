import LogServer.Parser.Segments

/-!
# The short cuts of the parser

The parser avoids its patterns where it can: the interface and the protocol are cut out behind
their markers, and a payload is probed for `NAT` before any address pattern is tried.  Here each
short cut is compared with the patterns it stands for.

* `fast_paths_agree`: cutting out agrees with the two patterns if there is no look-alike of their
  markers before the place at which they match, and otherwise it is a matter of the word captured
  there whether it does.
* `probe_transparent_iff`: the probe changes nothing exactly if no line without a translation that
  could be read contains the letters `NAT`.
-/

namespace LogServer

open Regex Substring

variable {u : CharTable} {payload : Text}

/-! ## Cutting out the fields -/

/-- The protocol cut out is the token the pattern captures, if what follows the token ends one, or nothing
follows. -/
def ProtocolAgrees (u : CharTable) (payload : Text) : Prop :=
  ∀ m token, (protocolPattern u).search payload = some m → m.group () = some token →
    (∀ c ∈ m.after.head?, c ∈ PROTO_END) → _protocol u payload = normaliseProtocol u token

/-- The interface cut out is the name the pattern captures, if it has both its brackets. -/
def InterfaceAgrees (u : CharTable) (payload : Text) : Prop :=
  ∀ m name, (inInterface u).search payload = some m → m.group () = some name →
    m.word = "in:<".toList ++ name ++ ['>'] → MikroTikParser.interface u payload = name

/-- The fields cut out are those the patterns capture, wherever a pattern captures one as a whole. -/
structure FastPathsAgree (u : CharTable) (payload : Text) : Prop where
  protocol : ProtocolAgrees u payload
  interface : InterfaceAgrees u payload

/-- Where the protocol pattern matches, the marker does not stand before, and the token follows it after a
single blank; or the marker stands nowhere. -/
def NoProtocolLookAlike (u : CharTable) (payload : Text) : Prop :=
  ∀ m token, (protocolPattern u).search payload = some m → m.group () = some token →
    (∀ c ∈ m.after.head?, c ∈ PROTO_END) →
      ¬"proto ".toList <:+: payload ∨
        ¬"proto ".toList <:+: m.before ∧ m.word = "proto ".toList ++ token

/-- Where the interface pattern matches, the marker does not stand before. -/
def NoInterfaceLookAlike (u : CharTable) (payload : Text) : Prop :=
  ∀ m name, (inInterface u).search payload = some m → m.group () = some name →
    m.word = "in:<".toList ++ name ++ ['>'] → ¬"in:<".toList <:+: m.before

/-- There is no look-alike of a marker. -/
structure NoLookAlike (u : CharTable) (payload : Text) : Prop where
  protocol : NoProtocolLookAlike u payload
  interface : NoInterfaceLookAlike u payload

/-- Two payloads that differ in the word a pattern captures at its leftmost match, and in nothing else. -/
def DifferInWord (r : Re Char Unit) (payload payload' : Text) : Prop :=
  ∃ m m' opening closing word word', r.search payload = some m ∧ r.search payload' = some m' ∧
    m'.before = m.before ∧ m'.after = m.after ∧
    m.word = opening ++ word ++ closing ∧ m.group () = some word ∧
    m'.word = opening ++ word' ++ closing ∧ m'.group () = some word'

theorem notMem_PROTO_END_of_tokenChar {c : Char} (h : tokenChar c = true) : c ∉ PROTO_END := by
  have hend : ∀ c ∈ PROTO_END, tokenChar c = false := by decide
  intro hmem
  rw [hend c hmem] at h
  cases h

/-- The word behind a marker. -/
theorem takeWhile_PROTO_END {word after : Text} (hword : ∀ c ∈ word, c ∉ PROTO_END)
    (hafter : ∀ c ∈ after.head?, c ∈ PROTO_END) :
    (word ++ after).takeWhile (fun c ↦ c ∉ PROTO_END) = word :=
  takeWhile_append (fun c hc ↦ decide_eq_true (hword c hc))
    fun c hc ↦ by simpa using hafter c hc

theorem exists_word (rest : Text) : ∃ after, rest = rest.takeWhile (fun c ↦ c ∉ PROTO_END) ++ after ∧
    (∀ c ∈ rest.takeWhile (fun c ↦ c ∉ PROTO_END), c ∉ PROTO_END) ∧
    ∀ c ∈ after.head?, c ∈ PROTO_END := by
  refine ⟨rest.dropWhile fun c ↦ c ∉ PROTO_END, List.takeWhile_append_dropWhile.symm, ?_, ?_⟩
  · intro c hc
    simpa using List.mem_takeWhile_imp hc
  · intro c hc
    have hnot := List.head?_dropWhile_not (fun c ↦ decide (c ∉ PROTO_END)) rest
    rw [Option.mem_def.mp hc] at hnot
    simpa using hnot

/-- What the protocol pattern reports. -/
theorem search_protocolPattern {m : Found Char Unit} {token : Text}
    (h : (protocolPattern u).search payload = some m) (htoken : m.group () = some token) :
    Apart u m.before ∧ (∀ c ∈ token, tokenChar c = true) ∧ token ≠ [] ∧ ∃ s, s ≠ [] ∧
      (∀ c ∈ s, u.isSpace c = true) ∧ m.word = "proto".toList ++ (s ++ token) ∧
      payload = m.before ++ ("proto".toList ++ (s ++ (token ++ m.after))) := by
  obtain ⟨hpayload, hm⟩ := search_sound h
  obtain ⟨hb, s, tok, hne, hspace, hpos, -, hclass, hword, hgroups⟩ := matches_protocolPattern.mp hm
  obtain rfl : token = tok := by
    rw [Found.group, hgroups] at htoken
    exact (Option.some.inj htoken).symm
  refine ⟨hb, hclass, List.length_pos_iff.mp hpos, s, hne, hspace, hword, ?_⟩
  rw [hpayload, hword]
  simp only [List.append_assoc]

/-- What the interface pattern reports, if it has both its brackets. -/
theorem search_inInterface {m : Found Char Unit} {name : Text}
    (h : (inInterface u).search payload = some m) (hname : m.group () = some name)
    (hword : m.word = "in:<".toList ++ name ++ ['>']) :
    Apart u m.before ∧ '>' ∉ name ∧
      payload = m.before ++ ("in:<".toList ++ (name ++ '>' :: m.after)) := by
  obtain ⟨hpayload, hm⟩ := search_sound h
  obtain ⟨hb, l, nm, r, -, -, hclass, -, hgroups⟩ := matches_inInterface.mp hm
  obtain rfl : name = nm := by
    rw [Found.group, hgroups] at hname
    exact (Option.some.inj hname).symm
  refine ⟨hb, fun hmem ↦ (hclass _ hmem).2.2 rfl, ?_⟩
  rw [hpayload, hword]
  simp only [List.append_assoc, List.singleton_append]

/-- **Where there is no look-alike, the word cut out is the token of the pattern.** -/
theorem NoProtocolLookAlike.agrees (h : NoProtocolLookAlike u payload) :
    ProtocolAgrees u payload := by
  intro m token hm htoken hafter
  rcases h m token hm htoken hafter with hmem | ⟨hbefore, hword⟩
  · rw [_protocol_of_notMem hmem, hm]
    dsimp only
    rw [htoken]
    rfl
  · obtain ⟨-, hclass, hne, -⟩ := search_protocolPattern hm htoken
    obtain ⟨hpayload, -⟩ := search_sound hm
    rw [hword, List.append_assoc] at hpayload
    rw [hpayload, _protocol_of_marker (.of_unbordered unbordered_proto hbefore),
      takeWhile_PROTO_END (fun c hc ↦ notMem_PROTO_END_of_tokenChar (hclass c hc)) hafter,
      if_neg hne]

/-- Where there is no look-alike, the name cut out is that of the pattern. -/
theorem NoInterfaceLookAlike.agrees (h : NoInterfaceLookAlike u payload) :
    InterfaceAgrees u payload := by
  intro m name hm hname hword
  obtain ⟨-, hclose, hpayload⟩ := search_inInterface hm hname hword
  rw [hpayload]
  exact interface_of_marker (.of_unbordered unbordered_session (h m name hm hname hword)) hclose

/-! ### Another word at the same place -/

section exchange

variable {before s after : Text}

/-- Whether the protocol pattern matches before a keyword does not depend on what follows the keyword. -/
theorem passes_protocolPattern {x y : Text}
    (h : (protocolPattern u).Passes before ("proto".toList ++ x)) :
    (protocolPattern u).Passes before ("proto".toList ++ y) := by
  intro v z w t m hv hne heq hm
  obtain ⟨hb, s, tok, hs, hspace, hpos, -, hclass, rfl, -⟩ := matches_protocolPattern.mp hm
  obtain ⟨c, tok, rfl⟩ := List.exists_cons_of_ne_nil (List.length_pos_iff.mp hpos)
  have hc := hclass c List.mem_cons_self
  -- A match begins there already with the first character of its token.
  suffices hfirst : ∃ rest, z ++ ("proto".toList ++ x) = "proto".toList ++ (s ++ [c]) ++ rest by
    obtain ⟨rest, hrest⟩ := hfirst
    refine h v z _ rest _ hv hne hrest (matches_protocolPattern.mpr
      ⟨hb, s, [c], hs, hspace, Nat.le_refl 1, Nat.le_add_left 1 15, ?_, rfl, rfl⟩)
    simpa using hc
  have htext : z ++ ("proto".toList ++ y) = ("proto".toList ++ s) ++ c :: (tok ++ t) := by
    rw [heq]
    simp only [List.append_assoc, List.cons_append]
  -- What is left of the text begins with the token whatever follows the keyword.
  have hbegin : ∀ {d}, c :: (tok ++ t) = d ++ ("proto".toList ++ y) →
      ∃ rest, d ++ ("proto".toList ++ x) = c :: rest := by
    intro d hd
    cases d with
    | nil =>
        obtain rfl : c = 'p' := (List.cons.inj hd).1
        exact ⟨"roto".toList ++ x, rfl⟩
    | cons e d =>
        obtain rfl : c = e := (List.cons.inj hd).1
        exact ⟨d ++ ("proto".toList ++ x), rfl⟩
  rcases List.append_eq_append_iff.mp htext with ⟨d, hd, hrest⟩ | ⟨d, rfl, hrest⟩
  · cases d with
    | nil =>
        obtain ⟨rest, hrest⟩ := hbegin (d := []) hrest.symm
        rw [List.append_nil] at hd
        rw [List.nil_append] at hrest
        exact ⟨rest, by rw [← hd, hrest]; simp⟩
    | cons e d =>
        -- The keyword would stand within the keyword and white space of the match.
        obtain rfl : 'p' = e := (List.cons.inj hrest).1
        obtain ⟨a, z, rfl⟩ := List.exists_cons_of_ne_nil hne
        have hmem : 'p' ∈ "roto".toList ++ s := by
          have htail : "roto".toList ++ s = z ++ 'p' :: d := (List.cons.inj hd).2
          rw [htail]
          simp
        rcases List.mem_append.mp hmem with hmem | hmem
        · exact absurd hmem (by decide)
        · exact absurd hmem (notMem_space hspace (by decide) rfl)
  · obtain ⟨rest, hrest⟩ := hbegin hrest
    exact ⟨rest, by rw [List.append_assoc, hrest]; simp⟩

/-- The token at the match can be exchanged. -/
theorem search_protocol_exchange {m : Found Char Unit} {token : Text} (token' : Text)
    (hm : (protocolPattern u).search payload = some m) (htoken : m.group () = some token)
    (hs : s ≠ []) (hspace : ∀ c ∈ s, u.isSpace c = true)
    (hword : m.word = "proto".toList ++ (s ++ token)) (hafter : ∀ c ∈ m.after.head?, c ∈ PROTO_END)
    (hpos : 1 ≤ token'.length) (hle : token'.length ≤ 16) (hclass : ∀ c ∈ token', tokenChar c = true) :
    (protocolPattern u).search (m.before ++ ("proto".toList ++ (s ++ token') ++ m.after)) =
      some ⟨m.before, "proto".toList ++ (s ++ token'), m.after, [((), token')]⟩ := by
  obtain ⟨hb, -⟩ := search_protocolPattern hm htoken
  have hpass := search_passes hm
  rw [hword, List.append_assoc] at hpass
  refine search_eq_some_iff.mpr ⟨m.before, _, rfl, ?_, first_protocolPattern hb hs hspace hpos hle
    hclass (.inr fun c hc ↦ ?_)⟩
  · rw [List.append_assoc]
    exact passes_protocolPattern hpass
  · rw [← Bool.not_eq_true]
    exact fun hc' ↦ notMem_PROTO_END_of_tokenChar hc' (hafter c hc)

end exchange

/-! ### Look-alikes -/

section lookalikes

variable {before s after x : Text} {a : Char}

/-- A token with a letter is put in upper case. -/
theorem normaliseProtocol_of_mem {word : Text} (ha : a = 'A' ∨ a = 'B') (hmem : a ∈ word) :
    normaliseProtocol u word = upper u word := by
  rw [normaliseProtocol, if_neg]
  intro h
  rw [isdigit, Bool.and_eq_true, List.all_eq_true] at h
  have hdigit := h.2 a hmem
  rcases ha with rfl | rfl
  · rw [u.isDigit_ascii _ (by decide)] at hdigit
    exact absurd hdigit (by decide)
  · rw [u.isDigit_ascii _ (by decide)] at hdigit
    exact absurd hdigit (by decide)

/-- What is read without looking at a token is not the name of every token. -/
theorem exists_normaliseProtocol_ne (name v : Text) :
    ∃ a, (a = 'A' ∨ a = 'B') ∧ name ≠ normaliseProtocol u (a :: v) := by
  by_cases h : name = normaliseProtocol u ('A' :: v)
  · refine ⟨'B', .inr rfl, fun h' ↦ ?_⟩
    rw [h, normaliseProtocol_of_mem (.inl rfl) List.mem_cons_self,
      normaliseProtocol_of_mem (.inr rfl) List.mem_cons_self, upper, upper, List.flatMap_cons,
      List.flatMap_cons, u.upper_ascii 'A' (by decide), u.upper_ascii 'B' (by decide)] at h'
    exact absurd (List.cons.inj h').1 (by decide)
  · exact ⟨'A', .inl rfl, h⟩

/-- A marker with a gap between it and the token, and what is read is not the token. -/
theorem exists_protocol_ne_of_gap (gap : Text) (hx : ¬"proto ".toList <:+: x) (hgap : gap ≠ [])
    (hafter : ∀ c ∈ after.head?, c ∈ PROTO_END) : ∃ a, (a = 'A' ∨ a = 'B') ∧
      _protocol u (x ++ ("proto ".toList ++ (gap ++ ([a] ++ after)))) ≠ normaliseProtocol u [a] := by
  obtain ⟨rest, hrest, hword, hend⟩ := exists_word gap
  set word := gap.takeWhile fun c ↦ c ∉ PROTO_END
  cases rest with
  | nil =>
      -- The gap belongs to the word that is read, which is too long.
      rw [List.append_nil] at hrest
      have hread : ∀ c ∈ gap ++ ['A'], c ∉ PROTO_END := by
        intro c hc
        rcases List.mem_append.mp hc with hc | hc
        · exact hword c (hrest ▸ hc)
        · rw [List.mem_singleton.mp hc]
          decide
      refine ⟨'A', .inl rfl, fun h ↦ ?_⟩
      rw [_protocol_of_marker (.of_unbordered unbordered_proto hx), ← List.append_assoc gap,
        takeWhile_PROTO_END hread hafter, if_neg (by simp),
        normaliseProtocol_of_mem (.inl rfl) (by simp),
        normaliseProtocol_of_mem (.inl rfl) (by simp)] at h
      have hlong := length_le_length_upper (u := u) (gap ++ ['A'])
      have hpos := List.length_pos_iff.mpr hgap
      rw [h, upper, List.flatMap_cons, u.upper_ascii 'A' (by decide)] at hlong
      simp only [List.flatMap_nil, List.append_nil, List.length_append, List.length_singleton] at hlong
      omega
  | cons e rest =>
      -- The word that is read ends before the token.
      obtain ⟨a, ha, hne⟩ := exists_normaliseProtocol_ne (u := u)
        (if word = [] then [] else normaliseProtocol u word) []
      refine ⟨a, ha, ?_⟩
      rw [_protocol_of_marker (.of_unbordered unbordered_proto hx), hrest, List.append_assoc,
        List.cons_append, takeWhile_PROTO_END hword (by simpa using hend e rfl)]
      exact hne

/-- White space other than the blank is no part of the marker. -/
theorem notMem_marker {c : Char} (hc : c ≠ ' ') (hspace : u.isSpace c = true) :
    c ∉ "proto ".toList := by
  intro hmem
  have hletters : ∀ d ∈ "proto ".toList, d = ' ' ∨ d.toNat < 128 ∧ asciiSpace d = false := by decide
  rcases hletters c hmem with rfl | ⟨hascii, hno⟩
  · exact hc rfl
  · rw [u.isSpace_ascii c hascii, hno] at hspace
    cases hspace

/-- A marker that stands behind the keyword of the match stands behind the token, or the token ends in its
keyword. -/
theorem later_of_infix {c : Char} {token : Text} (hbefore : ¬"proto ".toList <:+: before) (hc : c ≠ ' ')
    (hspace : ∀ d ∈ c :: s, u.isSpace d = true) (hclass : ∀ d ∈ token, tokenChar d = true)
    (hafter : ∀ d ∈ after.head?, d ∈ PROTO_END)
    (h : "proto ".toList <:+: before ++ ("proto".toList ++ (c :: s ++ (token ++ after)))) :
    ∃ v, (v = [] ∨ v = "proto".toList) ∧ "proto ".toList <:+: v ++ after := by
  rw [← List.append_assoc, List.cons_append] at h
  rcases infix_append_cons (notMem_marker hc (hspace c List.mem_cons_self)) h with h | h
  · exact absurd h (not_infix_append_of_unbordered unbordered_proto hbefore (by decide) (by decide))
  · obtain ⟨x, y, h⟩ := h
    rw [List.append_assoc] at h
    have hp : 'p' ∉ s := fun hmem ↦
      notMem_space hspace (by decide) rfl (List.mem_cons_of_mem c hmem)
    obtain ⟨x, rfl⟩ := prefix_of_notMem (a := 'p') (y := "roto ".toList ++ y) h.symm hp
    rw [List.append_assoc, List.append_cancel_left_eq] at h
    rcases List.append_eq_append_iff.mp h with ⟨d, rfl, hd⟩ | ⟨d, -, rfl⟩
    · -- The token ends in a beginning of the marker, which ends before its blank.
      have hblank : ' ' ∉ d := fun hmem ↦
        absurd (hclass ' ' (List.mem_append_right x hmem)) (by decide)
      obtain ⟨e, he⟩ := prefix_of_notMem (a := ' ') (x := "proto".toList) (y := y) hd.symm hblank
      have hrest : after = e ++ ' ' :: y := by
        have hd : "proto".toList ++ ' ' :: y = d ++ after := hd
        rw [← he, List.append_assoc, List.append_cancel_left_eq] at hd
        exact hd.symm
      cases e with
      | nil => exact ⟨"proto".toList, .inr rfl, [], y, by rw [hrest]; rfl⟩
      | cons a e =>
          have hend : ∀ a ∈ "proto".toList, a ∉ PROTO_END := by decide
          exact absurd (hafter a (by rw [hrest]; rfl)) (hend a (by rw [← he]; simp))
    · exact ⟨[], .inl rfl, d, y, by simp⟩

/-- The keyword at the match is not followed by a blank, and what is read stands behind the token. -/
theorem exists_protocol_ne_of_later {c : Char} {v : Text} (hbefore : ¬"proto ".toList <:+: before)
    (hc : c ≠ ' ') (hspace : ∀ d ∈ c :: s, u.isSpace d = true)
    (hlater : "proto ".toList <:+: v ++ after) : ∃ a, (a = 'A' ∨ a = 'B') ∧
      _protocol u (before ++ ("proto".toList ++ (c :: s ++ a :: v) ++ after)) ≠
        normaliseProtocol u (a :: v) := by
  obtain ⟨y, rest, hsplit, hy⟩ := exists_first (by decide) hlater
  have hopening : ¬"proto ".toList <:+: before ++ "proto".toList ++ c :: s := by
    intro h
    rcases infix_append_cons (notMem_marker hc (hspace c List.mem_cons_self)) h with h | h
    · exact not_infix_append_of_unbordered unbordered_proto hbefore (by decide) (by decide) h
    · have hp : 'p' ∈ c :: s := List.mem_cons_of_mem _ (h.subset (by decide))
      exact notMem_space hspace (by decide) rfl hp
  obtain ⟨a, ha, hne⟩ := exists_normaliseProtocol_ne (u := u)
    (if rest.takeWhile (fun c ↦ c ∉ PROTO_END) = [] then []
      else normaliseProtocol u (rest.takeWhile fun c ↦ c ∉ PROTO_END)) v
  refine ⟨a, ha, ?_⟩
  have hnot : a ∉ "proto ".toList := by
    rcases ha with rfl | rfl
    · decide
    · decide
  have hstart : NoStart "proto ".toList (before ++ "proto".toList ++ c :: s ++ [a])
      (y ++ ("proto ".toList ++ rest)) := by
    refine .of_getLast (fun h ↦ ?_) fun d hd hmem ↦ ?_
    · rcases infix_append_cons hnot h with h | h
      · exact hopening h
      · exact absurd h (by decide)
    · rw [List.getLast?_concat] at hd
      rw [← Option.some.inj hd] at hmem
      exact hnot (List.mem_of_mem_dropLast hmem)
  have htext : before ++ ("proto".toList ++ (c :: s ++ a :: v) ++ after) =
      (before ++ "proto".toList ++ c :: s ++ [a] ++ y) ++ ("proto ".toList ++ rest) := by
    rw [List.append_assoc _ y, ← hsplit]
    simp only [List.append_assoc, List.cons_append, List.nil_append]
  rw [htext, _protocol_of_marker (hstart.append (.of_unbordered unbordered_proto hy))]
  exact hne

end lookalikes

/-- **A look-alike of the marker of a protocol**: with another token at the match, the two disagree. -/
theorem exists_not_protocolAgrees (h : ¬NoProtocolLookAlike u payload) :
    ∃ payload', DifferInWord (protocolPattern u) payload payload' ∧ ¬ProtocolAgrees u payload' := by
  simp only [NoProtocolLookAlike, not_forall, not_or, not_not, not_and] at h
  obtain ⟨m, token, hm, htoken, hafter, hmem, hlook⟩ := h
  obtain ⟨-, hclass, -, s, hs, hspace, hword, hpayload⟩ := search_protocolPattern hm htoken
  suffices hne : ∃ a v, (a = 'A' ∨ a = 'B') ∧ (v = [] ∨ v = "proto".toList) ∧
      _protocol u (m.before ++ ("proto".toList ++ (s ++ a :: v) ++ m.after)) ≠
        normaliseProtocol u (a :: v) by
    obtain ⟨a, v, ha, hv, hne⟩ := hne
    have hshort : (a :: v).length ≤ 16 ∧ ∀ c ∈ a :: v, tokenChar c = true := by
      rcases ha with rfl | rfl <;> rcases hv with rfl | rfl <;> decide
    have hsearch := search_protocol_exchange (a :: v) hm htoken hs hspace hword hafter
      (Nat.le_add_left 1 _) hshort.1 hshort.2
    refine ⟨_, ⟨m, _, "proto".toList ++ s, [], token, a :: v, hm, hsearch, rfl, rfl, ?_, htoken, ?_,
      rfl⟩, fun hagree ↦ hne (hagree _ _ hsearch rfl hafter)⟩
    · rw [hword, List.append_nil, List.append_assoc]
    · rw [List.append_nil, List.append_assoc]
  by_cases hbefore : "proto ".toList <:+: m.before
  · -- The marker stands before the match.
    obtain ⟨x, y, hx, hnot⟩ := exists_first (by decide) hbefore
    obtain ⟨a, ha, hne⟩ := exists_protocol_ne_of_gap (u := u) (y ++ "proto".toList ++ s) hnot
      (by simp) hafter
    refine ⟨a, [], ha, .inl rfl, ?_⟩
    rw [hx]
    simpa only [List.append_assoc] using hne
  · obtain ⟨c, s, rfl⟩ := List.exists_cons_of_ne_nil hs
    by_cases hc : c = ' '
    · -- The marker stands at the match, with more than a blank behind the keyword.
      subst hc
      have hgap : s ≠ [] := by
        rintro rfl
        exact hlook hbefore hword
      obtain ⟨a, ha, hne⟩ := exists_protocol_ne_of_gap (u := u) _ hbefore hgap hafter
      refine ⟨a, [], ha, .inl rfl, ?_⟩
      have htext : m.before ++ ("proto".toList ++ (' ' :: s ++ [a]) ++ m.after) =
          m.before ++ ("proto ".toList ++ (s ++ ([a] ++ m.after))) := by
        simp
      rwa [htext]
    · -- The marker stands behind the match, or the token is its keyword.
      rw [hpayload] at hmem
      obtain ⟨v, hv, hlater⟩ := later_of_infix hbefore hc hspace hclass hafter hmem
      obtain ⟨a, ha, hne⟩ := exists_protocol_ne_of_later (u := u) hbefore hc hspace hlater
      exact ⟨a, v, ha, hv, hne⟩

/-! ### The interface -/

/-- Whether the interface pattern matches before a keyword does not depend on what follows the keyword. -/
theorem passes_inInterface {before x y : Text}
    (h : (inInterface u).Passes before ("in:".toList ++ x)) :
    (inInterface u).Passes before ("in:".toList ++ y) := by
  intro v z w t m hv hne heq hm
  obtain ⟨hb, l, name, r, -, -, -, rfl, -⟩ := matches_inInterface.mp hm
  suffices hz : ∃ d, z = "in:".toList ++ d by
    obtain ⟨d, rfl⟩ := hz
    exact h v _ "in:".toList (d ++ ("in:".toList ++ x)) _ hv hne (List.append_assoc ..)
      (matches_inInterface.mpr ⟨hb, [], [], [], .inr rfl, .inr rfl, by simp, rfl, rfl⟩)
  rw [List.append_assoc] at heq
  rcases List.append_eq_append_iff.mp heq with ⟨d, hd, hrest⟩ | ⟨d, hd, -⟩
  · cases d with
    | nil => exact ⟨[], by rw [List.append_nil] at hd; rw [← hd, List.append_nil]⟩
    | cons e d =>
        obtain rfl : 'i' = e := (List.cons.inj hrest).1
        obtain ⟨a, z, rfl⟩ := List.exists_cons_of_ne_nil hne
        have htail : "n:".toList = z ++ 'i' :: d := (List.cons.inj hd).2
        have hmem : 'i' ∈ "n:".toList := by
          rw [htail]
          simp
        exact absurd hmem (by decide)
  · exact ⟨d, hd⟩

/-- An opening bracket before the one of the match, and what is read is not every name. -/
theorem exists_interface_ne {before : Text} (after : Text) (h : "in:<".toList <:+: before) :
    ∃ a, (a = 'a' ∨ a = 'b') ∧
      MikroTikParser.interface u (before ++ ("in:<".toList ++ ([a] ++ '>' :: after))) ≠ [a] := by
  obtain ⟨x, y, rfl, hx⟩ := exists_first (by decide) h
  by_cases hclose : '>' ∈ y
  · -- The name that is read ends before the match.
    obtain ⟨name, rest, rfl, hname⟩ := List.eq_append_cons_of_mem hclose
    have hread : ∀ a, MikroTikParser.interface u (x ++ ("in:<".toList ++ (name ++ '>' :: rest)) ++
        ("in:<".toList ++ ([a] ++ '>' :: after))) = name := by
      intro a
      rw [List.append_assoc, List.append_assoc, List.append_assoc, List.cons_append]
      exact interface_of_marker (.of_unbordered unbordered_session hx) hname
    by_cases ha : name = ['a']
    · exact ⟨'b', .inr rfl, by rw [hread, ha]; decide⟩
    · exact ⟨'a', .inl rfl, by rw [hread]; exact ha⟩
  · -- It goes on to the end of the match.
    have hread : MikroTikParser.interface u (x ++ ("in:<".toList ++ y) ++
        ("in:<".toList ++ (['a'] ++ '>' :: after))) = y ++ "in:<".toList ++ ['a'] := by
      have htext : x ++ ("in:<".toList ++ y) ++ ("in:<".toList ++ (['a'] ++ '>' :: after)) =
          x ++ ("in:<".toList ++ ((y ++ "in:<".toList ++ ['a']) ++ '>' :: after)) := by
        simp only [List.append_assoc]
      rw [htext]
      exact interface_of_marker (.of_unbordered unbordered_session hx) (by simp [hclose])
    refine ⟨'a', .inl rfl, fun h ↦ ?_⟩
    rw [hread] at h
    have hlen := congrArg List.length h
    simp at hlen

/-- **A look-alike of the marker of an interface**: with another name at the match, the two disagree. -/
theorem exists_not_interfaceAgrees (h : ¬NoInterfaceLookAlike u payload) :
    ∃ payload', DifferInWord (inInterface u) payload payload' ∧ ¬InterfaceAgrees u payload' := by
  simp only [NoInterfaceLookAlike, not_forall, not_not] at h
  obtain ⟨m, name, hm, hname, hword, hmem⟩ := h
  obtain ⟨hb, -⟩ := search_inInterface hm hname hword
  obtain ⟨a, ha, hne⟩ := exists_interface_ne (u := u) m.after hmem
  have hclass : ∀ c ∈ [a], nameChar u c = true := by
    rw [List.forall_mem_singleton, nameChar]
    rcases ha with rfl | rfl <;> rw [u.isSpace_ascii _ (by decide)] <;> decide
  have hpass := search_passes hm
  have hopening : "in:<".toList = "in:".toList ++ ['<'] := rfl
  rw [hword, hopening, List.append_assoc, List.append_assoc, List.append_assoc] at hpass
  have hsearch : (inInterface u).search
      (m.before ++ ("in:".toList ++ (['<'] ++ ([a] ++ ['>'])) ++ m.after)) =
      some ⟨m.before, "in:".toList ++ (['<'] ++ ([a] ++ ['>'])), m.after, [((), [a])]⟩ := by
    refine search_eq_some_iff.mpr ⟨m.before, _, rfl, ?_,
      first_inInterface hb (.inl rfl) hclass (.inl rfl)⟩
    rw [List.append_assoc]
    exact passes_inInterface hpass
  exact ⟨_, ⟨m, _, "in:<".toList, ['>'], name, [a], hm, hsearch, rfl, rfl, hword, hname, rfl, rfl⟩,
    fun hagree ↦ hne (hagree _ _ hsearch rfl rfl)⟩

/-- **The short cuts agree with their patterns** where there is no look-alike of a marker.  Where there is
one, whether they agree is a matter of the word at the match: there is one with which they do not. -/
theorem fast_paths_agree (u : CharTable) (payload : Text) :
    (NoLookAlike u payload → FastPathsAgree u payload) ∧
    (¬NoProtocolLookAlike u payload → ∃ payload',
      DifferInWord (protocolPattern u) payload payload' ∧ ¬ProtocolAgrees u payload') ∧
    (¬NoInterfaceLookAlike u payload → ∃ payload',
      DifferInWord (inInterface u) payload payload' ∧ ¬InterfaceAgrees u payload') :=
  ⟨fun h ↦ ⟨h.protocol.agrees, h.interface.agrees⟩, exists_not_protocolAgrees,
    exists_not_interfaceAgrees⟩

/-- A second blank before the token, or a word that ends in the marker of an interface, and the
short cuts read something else. -/
theorem fast_paths_disagree :
    ¬FastPathsAgree .ascii "in:ether1 proto  TCP, len 60".toList ∧
      ¬FastPathsAgree .ascii "login:<x> in:<pppoe-bob> len 60".toList := by
  constructor
  · intro h
    have hagree := h.protocol ⟨"in:ether1 ".toList, "proto  TCP".toList, ", len 60".toList,
      [((), "TCP".toList)]⟩ "TCP".toList (by decide +kernel) rfl (by decide)
    revert hagree
    decide +kernel
  · intro h
    have hagree := h.interface ⟨"login:<x> ".toList, "in:<pppoe-bob>".toList, " len 60".toList,
      [((), "pppoe-bob".toList)]⟩ "pppoe-bob".toList (by decide +kernel) rfl rfl
    revert hagree
    decide +kernel

/-! ## Probing for a translation -/

/-- The tuple of a payload under the patterns with a translation. -/
def natEndpoints (u : CharTable) (payload : Text) : Option Endpoints :=
  match (srcnatPorts u).search payload with
  | some m =>
      let g := groupText m
      some ⟨g .pri, g .priPort, g .pub, g .pubPort, g .dst, g .dstPort⟩
  | none =>
      ((srcnatNoports u).search payload).map fun m ↦
        let g := groupText m
        ⟨g .pri, ['0'], g .pub, ['0'], g .dst, ['0']⟩

/-- The tuple of a payload under the patterns without a translation. -/
def plainEndpoints (u : CharTable) (payload : Text) : Option Endpoints :=
  match (plainPorts u).search payload with
  | some m =>
      let g := groupText m
      some ⟨g .pri, g .priPort, g .pri, g .priPort, g .dst, g .dstPort⟩
  | none =>
      ((plainNoports u).search payload).map fun m ↦
        let g := groupText m
        ⟨g .pri, ['0'], g .pri, ['0'], g .dst, ['0']⟩

namespace MikroTikParser

variable (self : MikroTikParser) (u : CharTable)

/-- The tuple of a payload without the probe: all patterns in their order, those without a
translation only if lines without one are kept. -/
def endpointsUnprobed (payload : Text) : Option Endpoints :=
  (natEndpoints u payload).or (if self.requireNat then none else plainEndpoints u payload)

def parseUnprobed (payload : Text) : Option ParsedLog :=
  (self.endpointsUnprobed u payload).bind (self.event u payload)

end MikroTikParser

/-- The tuple taken by the parser, by the probe. -/
theorem endpoints_toOption (self : MikroTikParser) (payload : Text) :
    (self.endpoints u payload).toOption =
      if "NAT".toList <:+: payload then natEndpoints u payload
      else if self.requireNat then none else plainEndpoints u payload := by
  have hprobe : (find "NAT".toList payload).isSome = true ↔ "NAT".toList <:+: payload := by
    rw [Option.isSome_iff_ne_none, ne_eq, find_eq_none, not_not]
  rw [MikroTikParser.endpoints]
  split
  · rename_i h
    rw [if_pos (hprobe.mp h), natEndpoints]
    cases (srcnatPorts u).search payload with
    | some m => rfl
    | none => cases (srcnatNoports u).search payload <;> rfl
  · rename_i h
    rw [if_neg (mt hprobe.mpr h)]
    split
    · rfl
    · rw [plainEndpoints]
      cases (plainPorts u).search payload with
      | some m => rfl
      | none => cases (plainNoports u).search payload <;> rfl

theorem natEndpoints_eq_none : natEndpoints u payload = none ↔
    ¬(srcnatPorts u).Occurs payload ∧ ¬(srcnatNoports u).Occurs payload := by
  rw [← search_eq_none_iff, ← search_eq_none_iff, natEndpoints]
  cases (srcnatPorts u).search payload with
  | some m => simp
  | none => simp

/-- Without the letters there is no translation. -/
theorem natEndpoints_of_notMem (h : ¬"NAT".toList <:+: payload) :
    natEndpoints u payload = none := by
  rw [natEndpoints_eq_none]
  constructor
  · rintro ⟨x, w, t, m, rfl, hm⟩
    obtain ⟨v, rfl, -⟩ := word_srcnatPorts hm
    exact h ⟨x, v ++ t, by simp⟩
  · rintro ⟨x, w, t, m, rfl, hm⟩
    obtain ⟨v, rfl, -⟩ := word_srcnatNoports hm
    exact h ⟨x, v ++ t, by simp⟩

/-- Where lines without a translation are dropped, the tuple is that of the patterns with one. -/
theorem endpoints_toOption_strict {self : MikroTikParser} (h : self.requireNat = true) :
    (self.endpoints u payload).toOption = natEndpoints u payload := by
  rw [endpoints_toOption, h]
  split
  · rfl
  · rename_i hnat
    rw [natEndpoints_of_notMem hnat]
    rfl

theorem groupText_congr {m m' : Found Char Group} (h : m.group = m'.group) :
    groupText m = groupText m' := funext fun g ↦ congrArg (·.getD []) (congrFun h g)

/-- The tuple depends on what the patterns capture. -/
theorem natEndpoints_congr {payload' : Text}
    (hports : ((srcnatPorts u).search payload).map (·.groups) =
      ((srcnatPorts u).search payload').map (·.groups))
    (hnoports : (srcnatPorts u).search payload = none →
      ((srcnatNoports u).search payload).map (·.groups) =
        ((srcnatNoports u).search payload').map (·.groups)) :
    natEndpoints u payload = natEndpoints u payload' := by
  rw [natEndpoints, natEndpoints]
  rcases search_cases hports with ⟨hnone, hnone'⟩ | ⟨m, m', hm, hm', hsame⟩
  · rcases search_cases (hnoports hnone) with ⟨hfail, hfail'⟩ | ⟨m, m', hm, hm', hsame⟩
    · rw [hnone, hnone', hfail, hfail']
    · simp only [hnone, hnone', hm, hm', Option.map_some, groupText_congr hsame]
  · simp only [hm, hm', groupText_congr hsame]

/-- A line without a translation that could be read: the first tuple with ports has them in range,
or there is none and one without ports. -/
def PlainAccepted (u : CharTable) (payload : Text) : Prop :=
  (∃ m, (plainPorts u).search payload = some m ∧
    digitsValue u (groupText m .priPort) ≤ 65535 ∧
    digitsValue u (groupText m .dstPort) ≤ 65535) ∨
  ¬(plainPorts u).Occurs payload ∧ (plainNoports u).Occurs payload

theorem plainAccepted_iff (self : MikroTikParser) : PlainAccepted u payload ↔
    (plainEndpoints u payload).bind (self.event u payload) ≠ none := by
  have hevent : ∀ {e : Endpoints}, self.event u payload e ≠ none ↔
      digitsValue u e.priPort ≤ 65535 ∧ digitsValue u e.pubPort ≤ 65535 ∧
        digitsValue u e.dstPort ≤ 65535 := by
    intro e
    rw [MikroTikParser.event]
    split <;> simp <;> omega
  have hzero : digitsValue u ['0'] = 0 := digitsValue_toDigits 0
  have hoccurs : ∀ {r : Re Char Group}, r.Occurs payload ↔ r.search payload ≠ none := fun {r} ↦ by
    rw [ne_eq, search_eq_none_iff, not_not]
  rw [PlainAccepted, hoccurs, hoccurs, plainEndpoints]
  cases (plainPorts u).search payload with
  | some m =>
      rw [Option.bind_some, hevent]
      simp
  | none =>
      cases (plainNoports u).search payload with
      | none => simp
      | some m =>
          rw [Option.map_some, Option.bind_some, hevent]
          simp [hzero]

/-- **The probe changes nothing** exactly if lines without a translation are dropped anyway, or the
payload has no `NAT`, or it has a translation, or nothing in it could be read without one. -/
theorem probe_transparent_iff (self : MikroTikParser) (u : CharTable) (payload : Text) :
    (self.parse u payload).1 = self.parseUnprobed u payload ↔
      self.requireNat = true ∨ ¬"NAT".toList <:+: payload ∨ (srcnatPorts u).Occurs payload ∨
        (srcnatNoports u).Occurs payload ∨ ¬PlainAccepted u payload := by
  rw [parse_fst, endpoints_toOption, MikroTikParser.parseUnprobed,
    MikroTikParser.endpointsUnprobed, plainAccepted_iff self, ne_eq, not_not]
  by_cases hnat : "NAT".toList <:+: payload
  · rw [if_pos hnat]
    cases hfound : natEndpoints u payload with
    | some e =>
        have hocc : (srcnatPorts u).Occurs payload ∨ (srcnatNoports u).Occurs payload := by
          by_contra hcon
          rw [natEndpoints_eq_none.mpr (not_or.mp hcon)] at hfound
          cases hfound
        exact ⟨fun _ ↦ .inr (.inr (hocc.imp id .inl)), fun _ ↦ rfl⟩
    | none =>
        obtain ⟨hports, hnoports⟩ := natEndpoints_eq_none.mp hfound
        cases hmode : self.requireNat with
        | true => simp
        | false =>
            rw [if_neg Bool.false_ne_true, Option.none_or, Option.bind_none, eq_comm]
            tauto
  · rw [if_neg hnat, natEndpoints_of_notMem hnat, Option.none_or]
    exact ⟨fun _ ↦ .inr (.inl hnat), fun _ ↦ rfl⟩

/-- Lines without a translation are to be kept, and one is dropped for the letters `NAT` in the name
of a host. -/
theorem probe_not_transparent :
    (MikroTikParser.parse ⟨false, false⟩ .ascii "NATGW 10.0.0.1:1->8.8.8.8:53".toList).1 = none ∧
      MikroTikParser.parseUnprobed ⟨false, false⟩ .ascii "NATGW 10.0.0.1:1->8.8.8.8:53".toList =
        some ⟨"10.0.0.1".toList, 1, "10.0.0.1".toList, 1, "8.8.8.8".toList, 53, [], []⟩ := by
  constructor
  · decide +kernel
  · decide +kernel

end LogServer
