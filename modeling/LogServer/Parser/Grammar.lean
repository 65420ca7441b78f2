import LogServer.Parser.Truncation

/-!
# What the parser reads

The parser without its patterns.  A payload is read at the first place where a tuple of one of four forms
stands, the forms being tried in their order, and so are its protocol and the interface of its subscriber;
`parse_iff` is that the parser accepts exactly the payloads that can be read so, with ports that are in
range, and stores what is read.
-/

namespace LogServer

open Regex Substring

variable {u : CharTable}

/-! ## Forms -/

def plainHead (pri : Ipv4) (p : Text) (dst : Ipv4) : Text :=
  pri.text ++ [':'] ++ p ++ "->".toList ++ dst.text ++ [':']

def plainText (pri dst : Ipv4) : Text := pri.text ++ "->".toList ++ dst.text

/-- The character before an address belongs to none. -/
def Detached (u : CharTable) (before : Text) : Prop :=
  before.reverse.head?.any (fun c ↦ u.isDecimal c || c == '.') = false

/-- No address or port goes on behind an address. -/
def Ends (u : CharTable) (after : Text) : Prop :=
  after.head?.any (fun c ↦ u.isDecimal c || c == '.' || c == ':') = false

/-- The digits of a port end, or there are five of them. -/
def Full (u : CharTable) (d after : Text) : Prop :=
  d.length = 5 ∨ ∀ c ∈ after.head?, u.isDecimal c = false

/-- A translation with ports stands at a place. -/
inductive NatPortsAt (u : CharTable) : Text → Text → Endpoints → Prop
  | mk {before s p q d after : Text} {pri pub dst : Ipv4} : (∀ c ∈ s, u.isSpace c = true) →
      IsPortText u p → IsPortText u q → IsPortText u d → Full u d after →
        NatPortsAt u before ((natHead s pri p pub q dst ++ d) ++ after)
          ⟨pri.text, p, pub.text, q, dst.text, d⟩

/-- A translation without ports stands at a place. -/
inductive NatAt (u : CharTable) : Text → Text → Endpoints → Prop
  | mk {before s after : Text} {pri pub dst : Ipv4} : (∀ c ∈ s, u.isSpace c = true) → Ends u after →
      NatAt u before (noportsText s pri pub dst ++ after)
        ⟨pri.text, ['0'], pub.text, ['0'], dst.text, ['0']⟩

/-- A tuple with ports stands at a place. -/
inductive PlainPortsAt (u : CharTable) : Text → Text → Endpoints → Prop
  | mk {before p d after : Text} {pri dst : Ipv4} : Detached u before → IsPortText u p →
      IsPortText u d → Full u d after → PlainPortsAt u before ((plainHead pri p dst ++ d) ++ after)
        ⟨pri.text, p, pri.text, p, dst.text, d⟩

/-- A tuple without ports stands at a place. -/
inductive PlainAt (u : CharTable) : Text → Text → Endpoints → Prop
  | mk {before after : Text} {pri dst : Ipv4} : Detached u before → Ends u after →
      PlainAt u before (plainText pri dst ++ after) ⟨pri.text, ['0'], pri.text, ['0'], dst.text, ['0']⟩

/-- **What is read from a payload**: a translation with ports, or if there is none, one without; and where
lines without a translation are kept and the payload does not have the word, a tuple with ports, or if there
is none, one without. -/
inductive Reading (self : MikroTikParser) (u : CharTable) (payload : Text) : Endpoints → Prop
  | natPorts {e : Endpoints} : FirstPlace (NatPortsAt u) payload e → Reading self u payload e
  | nat {e : Endpoints} : NoPlace (NatPortsAt u) payload → FirstPlace (NatAt u) payload e →
      Reading self u payload e
  | plainPorts {e : Endpoints} : self.requireNat = false → ¬"NAT".toList <:+: payload →
      FirstPlace (PlainPortsAt u) payload e → Reading self u payload e
  | plain {e : Endpoints} : self.requireNat = false → ¬"NAT".toList <:+: payload →
      NoPlace (PlainPortsAt u) payload → FirstPlace (PlainAt u) payload e → Reading self u payload e

/-- **What is read as the protocol of a payload**: the word behind the first marker, and where the marker
stands nowhere, the token at the first place that has one. -/
inductive ReadsProtocol (u : CharTable) (payload : Text) : Text → Prop
  | word {before word after : Text} : payload = before ++ ("proto ".toList ++ (word ++ after)) →
      ¬"proto ".toList <:+: before → word ≠ [] → (∀ c ∈ word, c ∉ PROTO_END) →
      (∀ c ∈ after.head?, c ∈ PROTO_END) → ReadsProtocol u payload (normaliseProtocol u word)
  | noWord {before after : Text} : payload = before ++ ("proto ".toList ++ after) →
      ¬"proto ".toList <:+: before → (∀ c ∈ after.head?, c ∈ PROTO_END) → ReadsProtocol u payload []
  | token {token : Text} : ¬"proto ".toList <:+: payload → FirstPlace (ProtocolAt u) payload token →
      ReadsProtocol u payload (normaliseProtocol u token)
  | nothing : ¬"proto ".toList <:+: payload → NoPlace (ProtocolAt u) payload → ReadsProtocol u payload []

/-- **What is read as the interface of a payload**: the text in the brackets the first marker opens, and
where the marker stands nowhere, the name at the first place that has one. -/
inductive ReadsInterface (u : CharTable) (payload : Text) : Text → Prop
  | brackets {before name after : Text} :
      payload = before ++ ("in:<".toList ++ (name ++ '>' :: after)) → ¬"in:<".toList <:+: before →
      '>' ∉ name → ReadsInterface u payload name
  | unclosed {before after : Text} : payload = before ++ ("in:<".toList ++ after) →
      ¬"in:<".toList <:+: before → '>' ∉ after → ReadsInterface u payload []
  | name {name : Text} : ¬"in:<".toList <:+: payload → FirstPlace (InterfaceAt u) payload name →
      ReadsInterface u payload name
  | nothing : ¬"in:<".toList <:+: payload → NoPlace (InterfaceAt u) payload → ReadsInterface u payload []

/-- **What is read as the subscriber from an interface**: the name behind the first session prefix it has,
and without one, the interface itself if the setting says so. -/
inductive ReadsSubscriber (self : MikroTikParser) : Text → Text → Prop
  | session {pre post : List Text} {pfx name : Text} : SUBSCRIBER_PREFIXES = pre ++ pfx :: post →
      (∀ p ∈ pre, ¬p <+: pfx ++ name) → ReadsSubscriber self (pfx ++ name) name
  | interface {iface : Text} : (∀ p ∈ SUBSCRIBER_PREFIXES, ¬p <+: iface) →
      self.subscriberFromInterface = true → ReadsSubscriber self iface iface
  | nothing {iface : Text} : (∀ p ∈ SUBSCRIBER_PREFIXES, ¬p <+: iface) →
      self.subscriberFromInterface = false → ReadsSubscriber self iface []

/-! ## What the patterns read -/

section places

variable {before t : Text} {e : Endpoints}

def portsOf (m : Found Char Group) : Endpoints :=
  let g := groupText m
  ⟨g .pri, g .priPort, g .pub, g .pubPort, g .dst, g .dstPort⟩

def noportsOf (m : Found Char Group) : Endpoints :=
  let g := groupText m
  ⟨g .pri, ['0'], g .pub, ['0'], g .dst, ['0']⟩

/-- The tuple of a match with ports and without a translation. -/
def plainPortsOf (m : Found Char Group) : Endpoints :=
  let g := groupText m
  ⟨g .pri, g .priPort, g .pri, g .priPort, g .dst, g .dstPort⟩

/-- The tuple of a match without ports and without a translation. -/
def plainOf (m : Found Char Group) : Endpoints :=
  let g := groupText m
  ⟨g .pri, ['0'], g .pri, ['0'], g .dst, ['0']⟩

/-- The digits behind a head are read to their end. -/
theorem exists_full {d : Text} (hd : IsPortText u d) (t : Text) :
    ∃ d' after, d ++ t = d' ++ after ∧ IsPortText u d' ∧ Full u d' after := by
  refine exists_port ?_
  obtain ⟨c, d₀, rfl⟩ := List.exists_cons_of_ne_nil (List.length_pos_iff.mp hd.1)
  exact ⟨c, rfl, hd.2.2 c List.mem_cons_self⟩

theorem first_srcnatPorts_iff :
    ((srcnatPorts u).first before.reverse t).map portsOf = some e ↔ NatPortsAt u before t e := by
  constructor
  · intro h
    obtain ⟨m, hm, rfl⟩ := Option.map_eq_some_iff.mp h
    obtain ⟨-, rfl, hmatch⟩ := first_sound hm
    obtain ⟨v, m', d, hword, -, hd, hhead⟩ := matches_srcnatPorts.mp hmatch
    obtain ⟨s, hs, pri, pub, dst, p, q, hp, hq, hv, -⟩ := matches_srcnatPortsHead.mp hhead
    have hv : v = natHead s pri p pub q dst := hv
    obtain ⟨d', after, hsplit, hd', hfull⟩ := exists_full hd m.after
    have htext : m.word ++ m.after = (natHead s pri p pub q dst ++ d') ++ after := by
      rw [hword, List.append_assoc, hsplit, hv, List.append_assoc]
    rw [htext] at hm ⊢
    obtain rfl := Option.some.inj ((first_srcnatPorts hs pri pub dst hp hq hd' hfull).symm.trans hm)
    exact .mk hs hp hq hd' hfull
  · rintro ⟨hs, hp, hq, hd, hfull⟩
    rw [first_srcnatPorts hs _ _ _ hp hq hd hfull]
    rfl

/-- A translation without ports is found with its parts. -/
theorem first_srcnatNoports {s after : Text} (hs : ∀ c ∈ s, u.isSpace c = true) (pri pub dst : Ipv4)
    (hends : Ends u after) :
    (srcnatNoports u).first before.reverse (noportsText s pri pub dst ++ after) =
      some ⟨before.reverse.reverse, noportsText s pri pub dst, after, noportsGroups pri pub dst⟩ := by
  have hmatch : Matches (srcnatNoports u) before.reverse (noportsText s pri pub dst) after
      (noportsGroups pri pub dst) :=
    matches_srcnatNoports.mpr ⟨hends, s, hs, pri, pub, dst, rfl, rfl⟩
  exact first_of_head (head_run_of_unique hmatch fun w' t' m' heq h' ↦
    srcnatNoports_unique hmatch h' heq)

theorem first_srcnatNoports_iff :
    ((srcnatNoports u).first before.reverse t).map noportsOf = some e ↔ NatAt u before t e := by
  constructor
  · intro h
    obtain ⟨m, hm, rfl⟩ := Option.map_eq_some_iff.mp h
    obtain ⟨-, rfl, hmatch⟩ := first_sound hm
    obtain ⟨hends, s, hs, pri, pub, dst, hword, hgroups⟩ := matches_srcnatNoports.mp hmatch
    have hword : m.word = noportsText s pri pub dst := hword
    have htuple : noportsOf m = ⟨pri.text, ['0'], pub.text, ['0'], dst.text, ['0']⟩ := by
      simp only [noportsOf, groupText, Found.group, hgroups]
      rfl
    rw [htuple, hword]
    exact .mk hs hends
  · rintro ⟨hs, hends⟩
    rw [first_srcnatNoports hs _ _ _ hends]
    rfl

/-- **A tuple with ports is found with its parts**, its last port being cut after five digits. -/
theorem first_plainPorts {p d after : Text} (hbefore : Detached u before) (pri dst : Ipv4)
    (hp : IsPortText u p) (hd : IsPortText u d) (hfull : Full u d after) :
    (plainPorts u).first before.reverse ((plainHead pri p dst ++ d) ++ after) =
      some ⟨before.reverse.reverse, plainHead pri p dst ++ d, after,
        [(.pri, pri.text), (.priPort, p), (.dst, dst.text)] ++ [(.dstPort, d)]⟩ := by
  have hhead := matches_plainPortsHead (t := d ++ after) |>.mpr ⟨hbefore, pri, dst, p, hp, rfl, rfl⟩
  have hrun := head_run_of_unique hhead fun w' t' m' heq h' ↦ plainPortsHead_unique hhead h' heq
  apply first_of_head
  rw [plainPorts_eq, List.append_assoc]
  exact head_run_seq hrun (head_run_port .dstPort hd hfull)

theorem first_plainPorts_iff :
    ((plainPorts u).first before.reverse t).map plainPortsOf = some e ↔ PlainPortsAt u before t e := by
  constructor
  · intro h
    obtain ⟨m, hm, rfl⟩ := Option.map_eq_some_iff.mp h
    obtain ⟨-, rfl, hmatch⟩ := first_sound hm
    obtain ⟨v, m', d, hword, -, hd, hhead⟩ := matches_plainPorts.mp hmatch
    obtain ⟨hbefore, pri, dst, p, hp, hv, -⟩ := matches_plainPortsHead.mp hhead
    have hv : v = plainHead pri p dst := hv
    obtain ⟨d', after, hsplit, hd', hfull⟩ := exists_full hd m.after
    have htext : m.word ++ m.after = (plainHead pri p dst ++ d') ++ after := by
      rw [hword, List.append_assoc, hsplit, hv, List.append_assoc]
    rw [htext] at hm ⊢
    obtain rfl := Option.some.inj ((first_plainPorts hbefore pri dst hp hd' hfull).symm.trans hm)
    exact .mk hbefore hp hd' hfull
  · rintro ⟨hbefore, hp, hd, hfull⟩
    rw [first_plainPorts hbefore _ _ hp hd hfull]
    rfl

/-- A tuple without ports is found with its parts. -/
theorem first_plainNoports {after : Text} (hbefore : Detached u before) (pri dst : Ipv4)
    (hends : Ends u after) :
    (plainNoports u).first before.reverse (plainText pri dst ++ after) =
      some ⟨before.reverse.reverse, plainText pri dst, after, [(.pri, pri.text), (.dst, dst.text)]⟩ := by
  have hmatch : Matches (plainNoports u) before.reverse (plainText pri dst) after
      [(.pri, pri.text), (.dst, dst.text)] :=
    matches_plainNoports.mpr ⟨hends, hbefore, pri, dst, rfl, rfl⟩
  exact first_of_head (head_run_of_unique hmatch fun w' t' m' heq h' ↦
    plainNoports_unique hmatch h' heq)

theorem first_plainNoports_iff :
    ((plainNoports u).first before.reverse t).map plainOf = some e ↔ PlainAt u before t e := by
  constructor
  · intro h
    obtain ⟨m, hm, rfl⟩ := Option.map_eq_some_iff.mp h
    obtain ⟨-, rfl, hmatch⟩ := first_sound hm
    obtain ⟨hends, hbefore, pri, dst, hword, hgroups⟩ := matches_plainNoports.mp hmatch
    have hword : m.word = plainText pri dst := hword
    have htuple : plainOf m = ⟨pri.text, ['0'], pri.text, ['0'], dst.text, ['0']⟩ := by
      simp only [plainOf, groupText, Found.group, hgroups]
      rfl
    rw [htuple, hword]
    exact .mk hbefore hends
  · rintro ⟨hbefore, hends⟩
    rw [first_plainNoports hbefore _ _ hends]
    rfl

end places

/-! ## What the parser reads -/

section readings

variable {self : MikroTikParser} {payload : Text} {e : Endpoints} {log : ParsedLog}

theorem natEndpoints_iff : natEndpoints u payload = some e ↔
    FirstPlace (NatPortsAt u) payload e ∨
      NoPlace (NatPortsAt u) payload ∧ FirstPlace (NatAt u) payload e := by
  rw [← search_reads_iff (fun _ _ _ ↦ first_srcnatPorts_iff),
    ← search_reads_none_iff (fun _ _ _ ↦ first_srcnatPorts_iff),
    ← search_reads_iff (fun _ _ _ ↦ first_srcnatNoports_iff), natEndpoints]
  cases (srcnatPorts u).search payload with
  | none => exact ⟨fun h ↦ .inr ⟨rfl, h⟩, fun h ↦ h.elim (fun h ↦ by cases h) And.right⟩
  | some m => exact ⟨.inl, fun h ↦ h.elim id fun h ↦ by cases h.1⟩

theorem plainEndpoints_iff : plainEndpoints u payload = some e ↔
    FirstPlace (PlainPortsAt u) payload e ∨
      NoPlace (PlainPortsAt u) payload ∧ FirstPlace (PlainAt u) payload e := by
  rw [← search_reads_iff (fun _ _ _ ↦ first_plainPorts_iff),
    ← search_reads_none_iff (fun _ _ _ ↦ first_plainPorts_iff),
    ← search_reads_iff (fun _ _ _ ↦ first_plainNoports_iff), plainEndpoints]
  cases (plainPorts u).search payload with
  | none => exact ⟨fun h ↦ .inr ⟨rfl, h⟩, fun h ↦ h.elim (fun h ↦ by cases h) And.right⟩
  | some m => exact ⟨.inl, fun h ↦ h.elim id fun h ↦ by cases h.1⟩

/-- **The tuple of a payload** is what is read from it. -/
theorem endpoints_iff : (self.endpoints u payload).toOption = some e ↔ Reading self u payload e := by
  rw [endpoints_toOption]
  constructor
  · intro h
    split at h
    · rcases natEndpoints_iff.mp h with h | ⟨hnone, h⟩
      · exact .natPorts h
      · exact .nat hnone h
    · rename_i hnat
      split at h
      · cases h
      · rename_i hkept
        rcases plainEndpoints_iff.mp h with h | ⟨hnone, h⟩
        · exact .plainPorts (Bool.eq_false_iff.mpr hkept) hnat h
        · exact .plain (Bool.eq_false_iff.mpr hkept) hnat hnone h
  · intro h
    have hnat : ∀ {e}, natEndpoints u payload = some e →
        (if "NAT".toList <:+: payload then natEndpoints u payload
          else if self.requireNat then none else plainEndpoints u payload) = some e := by
      intro e he
      rw [if_pos, he]
      by_contra hnot
      rw [natEndpoints_of_notMem hnot] at he
      cases he
    cases h with
    | natPorts h => exact hnat (natEndpoints_iff.mpr (.inl h))
    | nat hnone h => exact hnat (natEndpoints_iff.mpr (.inr ⟨hnone, h⟩))
    | plainPorts hkept hnot h =>
        rw [if_neg hnot, hkept]
        exact plainEndpoints_iff.mpr (.inl h)
    | plain hkept hnot hnone h =>
        rw [if_neg hnot, hkept]
        exact plainEndpoints_iff.mpr (.inr ⟨hnone, h⟩)

/-- **The protocol of a payload** is what is read from it. -/
theorem _protocol_iff {p : Text} : _protocol u payload = p ↔ ReadsProtocol u payload p := by
  constructor
  · rintro rfl
    by_cases hmem : "proto ".toList <:+: payload
    · obtain ⟨before, rest, hpayload, hbefore⟩ := exists_first (by decide) hmem
      have hstart : NoStart "proto ".toList before ("proto ".toList ++ rest) :=
        .of_unbordered unbordered_proto hbefore
      have hread := _protocol_of_marker (u := u) hstart
      rw [← hpayload] at hread
      obtain ⟨after, hrest, hword, hend⟩ := exists_word rest
      split at hread
      · rename_i hnil
        rw [hnil, List.nil_append] at hrest
        rw [hread]
        exact .noWord hpayload hbefore (hrest ▸ hend)
      · rename_i hne
        rw [hread]
        exact .word (hrest ▸ hpayload) hbefore hne hword hend
    · rw [_protocol_of_notMem hmem]
      cases hm : (protocolPattern u).search payload with
      | none => exact .nothing hmem ((search_reads_none_iff fun _ _ _ ↦ first_protocolPattern_iff).mp hm)
      | some m =>
          refine .token hmem ((search_reads_iff fun _ _ _ ↦ first_protocolPattern_iff).mp ?_)
          rw [hm]
          rfl
  · intro h
    cases h with
    | word hpayload hbefore hne hword hend =>
        rw [hpayload, _protocol_of_marker (.of_unbordered unbordered_proto hbefore),
          takeWhile_PROTO_END hword hend, if_neg hne]
    | @noWord before after hpayload hbefore hend =>
        have hnil := takeWhile_PROTO_END (List.forall_mem_nil _) hend
        rw [List.nil_append] at hnil
        rw [hpayload, _protocol_of_marker (.of_unbordered unbordered_proto hbefore), if_pos hnil]
    | token hmem hfirst =>
        obtain ⟨m, hm, rfl⟩ := Option.map_eq_some_iff.mp
          ((search_reads_iff fun _ _ _ ↦ first_protocolPattern_iff).mpr hfirst)
        rw [_protocol_of_notMem hmem, hm]
    | nothing hmem hnone =>
        rw [_protocol_of_notMem hmem,
          (search_reads_none_iff fun _ _ _ ↦ first_protocolPattern_iff).mpr hnone]

/-- **The interface of a payload** is what is read from it. -/
theorem interface_iff {name : Text} :
    MikroTikParser.interface u payload = name ↔ ReadsInterface u payload name := by
  have hmarker : ∀ {before rest}, ¬"in:<".toList <:+: before → '>' ∉ rest →
      MikroTikParser.interface u (before ++ ("in:<".toList ++ rest)) = [] :=
    fun hbefore ↦ interface_of_unclosed (.of_unbordered unbordered_session hbefore)
  constructor
  · rintro rfl
    by_cases hmem : "in:<".toList <:+: payload
    · obtain ⟨before, rest, rfl, hbefore⟩ := exists_first (by decide) hmem
      by_cases hclose : '>' ∈ rest
      · obtain ⟨name, after, rfl, hname⟩ := List.eq_append_cons_of_mem hclose
        rw [interface_of_marker (.of_unbordered unbordered_session hbefore) hname]
        exact .brackets rfl hbefore hname
      · rw [hmarker hbefore hclose]
        exact .unclosed rfl hbefore hclose
    · rw [interface_of_notMem hmem]
      cases hm : (inInterface u).search payload with
      | none => exact .nothing hmem ((search_reads_none_iff fun _ _ _ ↦ first_inInterface_iff).mp hm)
      | some m =>
          refine .name hmem ((search_reads_iff fun _ _ _ ↦ first_inInterface_iff).mp ?_)
          rw [hm]
          rfl
  · intro h
    cases h with
    | brackets hpayload hbefore hname =>
        rw [hpayload, interface_of_marker (.of_unbordered unbordered_session hbefore) hname]
    | unclosed hpayload hbefore hclose => rw [hpayload, hmarker hbefore hclose]
    | name hmem hfirst =>
        obtain ⟨m, hm, rfl⟩ := Option.map_eq_some_iff.mp
          ((search_reads_iff fun _ _ _ ↦ first_inInterface_iff).mpr hfirst)
        rw [interface_of_notMem hmem, hm]
    | nothing hmem hnone =>
        rw [interface_of_notMem hmem,
          (search_reads_none_iff fun _ _ _ ↦ first_inInterface_iff).mpr hnone]

/-- What is read from an interface is what the session prefixes leave of it. -/
theorem readsSubscriber_iff {iface s : Text} : (if iface = [] then []
    else match SUBSCRIBER_PREFIXES.find? (·.isPrefixOf iface) with
      | some pfx => iface.drop pfx.length
      | none => if self.subscriberFromInterface then iface else []) = s ↔
    ReadsSubscriber self iface s := by
  have hnone : SUBSCRIBER_PREFIXES.find? (·.isPrefixOf iface) = none ↔
      ∀ p ∈ SUBSCRIBER_PREFIXES, ¬p <+: iface := by
    simp [List.find?_eq_none]
  have hnonempty : ∀ p ∈ SUBSCRIBER_PREFIXES, p ≠ [] := by decide
  constructor
  · rintro rfl
    cases hfind : SUBSCRIBER_PREFIXES.find? (·.isPrefixOf iface) with
    | none =>
        have hno := hnone.mp hfind
        cases hset : self.subscriberFromInterface with
        | true =>
            simp only [if_true, ite_eq_right_iff.mpr Eq.symm]
            exact .interface hno hset
        | false =>
            simp only [Bool.false_eq_true, if_false, ite_self]
            exact .nothing hno hset
    | some pfx =>
        obtain ⟨hpfx, pre, post, hsplit, hpre⟩ := List.find?_eq_some_iff_append.mp hfind
        obtain ⟨name, rfl⟩ := List.isPrefixOf_iff_prefix.mp hpfx
        have hne : pfx ++ name ≠ [] :=
          List.append_ne_nil_of_left_ne_nil (hnonempty pfx (List.mem_of_find?_eq_some hfind)) name
        simp only [if_neg hne, List.drop_left]
        exact .session hsplit fun p hp hp' ↦ by
          simpa [List.isPrefixOf_iff_prefix.mpr hp'] using hpre p hp
  · intro h
    cases h with
    | @session pre post pfx _ hsplit hpre =>
        have hfind : SUBSCRIBER_PREFIXES.find? (·.isPrefixOf (pfx ++ s)) = some pfx := by
          refine List.find?_eq_some_iff_append.mpr
            ⟨List.isPrefixOf_iff_prefix.mpr (List.prefix_append pfx s), pre, post, hsplit, ?_⟩
          intro p hp
          simpa [← List.isPrefixOf_iff_prefix] using hpre p hp
        have hne : pfx ++ s ≠ [] :=
          List.append_ne_nil_of_left_ne_nil (hnonempty pfx (List.mem_of_find?_eq_some hfind)) s
        rw [if_neg hne, hfind]
        exact List.drop_left
    | interface hno hset =>
        rw [hnone.mpr hno, hset]
        simp
    | nothing hno hset =>
        rw [hnone.mpr hno, hset]
        simp

/-- **The subscriber of a payload** is what is read from its interface. -/
theorem _subscriber_iff {s : Text} : self._subscriber u payload = s ↔
    ∃ iface, ReadsInterface u payload iface ∧ ReadsSubscriber self iface s := by
  rw [MikroTikParser._subscriber]
  constructor
  · exact fun h ↦ ⟨_, interface_iff.mp rfl, readsSubscriber_iff.mp h⟩
  · rintro ⟨iface, hiface, hs⟩
    obtain rfl := interface_iff.mpr hiface
    exact readsSubscriber_iff.mpr hs

/-- **What the parser accepts, and what it stores.**  For both settings and every payload: the parser accepts
the payload with a record exactly if a tuple is read from it, the ports of the tuple are in range, and the
record has the addresses of the tuple, the numbers that its ports stand for, and the protocol and the
subscriber that are read from the payload. -/
theorem parse_iff (self : MikroTikParser) (u : CharTable) (payload : Text) (log : ParsedLog) :
    (self.parse u payload).1 = some log ↔ ∃ e protocol iface subscriber,
      Reading self u payload e ∧ e.InRange u ∧ ReadsProtocol u payload protocol ∧
      ReadsInterface u payload iface ∧ ReadsSubscriber self iface subscriber ∧
      log = { privateIp := e.pri, privatePort := digitsValue u e.priPort, publicIp := e.pub,
              publicPort := digitsValue u e.pubPort, destIp := e.dst,
              destPort := digitsValue u e.dstPort, protocol := protocol,
              subscriberId := subscriber } := by
  have hrange : ∀ e : Endpoints, e.InRange u ↔ ¬(digitsValue u e.priPort > 65535 ∨
      digitsValue u e.pubPort > 65535 ∨ digitsValue u e.dstPort > 65535) := by
    intro e
    rw [Endpoints.InRange, not_or, not_or, not_lt, not_lt, not_lt]
  rw [parse_fst, Option.bind_eq_some_iff]
  constructor
  · rintro ⟨e, he, hlog⟩
    rw [MikroTikParser.event] at hlog
    split at hlog
    · cases hlog
    · rename_i hsmall
      obtain ⟨iface, hiface, hs⟩ := _subscriber_iff.mp (Eq.refl (self._subscriber u payload))
      exact ⟨e, _, iface, _, endpoints_iff.mp he, (hrange e).mpr hsmall, _protocol_iff.mp rfl, hiface,
        hs, (Option.some.inj hlog).symm⟩
  · rintro ⟨e, protocol, iface, subscriber, he, hsmall, hprotocol, hiface, hs, rfl⟩
    refine ⟨e, endpoints_iff.mpr he, ?_⟩
    rw [MikroTikParser.event, if_neg ((hrange e).mp hsmall), _protocol_iff.mpr hprotocol,
      _subscriber_iff.mpr ⟨iface, hiface, hs⟩]

end readings

end LogServer
