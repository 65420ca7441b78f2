import LogServer.Parser.FastPaths

/-!
# The name of a subscriber

A session segment `in:<prefix-name>` puts a text of the subscriber's choice into the line.

* `subscriber_ne_iff`: two names are recorded under different ids exactly if they differ without
  the direction, `in-` or `out-`, that may stand before a name.
* `parse_name_independent`: the rest of the record does not depend on the name, as long as no
  marker of the parser begins in it.  The markers are located anywhere in a payload, so a name can
  bring its own (`name_brings_protocol`).
-/

namespace LogServer

open Regex Substring

variable {u : CharTable} {self : MikroTikParser} {before after pfx name name' : Text}

def sessionPayload (before pfx name after : Text) : Text :=
  before ++ ("in:<".toList ++ ((pfx ++ name) ++ '>' :: after))

/-! ## Ids -/

def withoutDirection (name : Text) : Text :=
  if "in-".toList <+: name then name.drop 3
  else if "out-".toList <+: name then name.drop 4
  else name

/-- The interface of a session is what stands between its brackets. -/
theorem interface_sessionPayload (hbefore : ¬"in:<".toList <:+: before) (hpfx : '>' ∉ pfx)
    (hname : '>' ∉ name) :
    MikroTikParser.interface u (sessionPayload before pfx name after) = pfx ++ name :=
  interface_of_marker (.of_unbordered unbordered_session hbefore)
    fun hmem ↦ (List.mem_append.mp hmem).elim hpfx hname

/-- A session prefix that is found is removed. -/
theorem _subscriber_of_prefix {payload iface : Text}
    (hiface : MikroTikParser.interface u payload = iface) (hne : iface ≠ [])
    (hfind : SUBSCRIBER_PREFIXES.find? (·.isPrefixOf iface) = some pfx) :
    self._subscriber u payload = iface.drop pfx.length := by
  rw [MikroTikParser._subscriber, hiface, if_neg hne, hfind]

/-- The id of a PPPoE session is its name without a direction: the longer prefixes are tried
first. -/
theorem _subscriber_pppoe (hbefore : ¬"in:<".toList <:+: before) (hname : '>' ∉ name) :
    self._subscriber u (sessionPayload before "pppoe-".toList name after) =
      withoutDirection name := by
  have hiface : MikroTikParser.interface u (sessionPayload before "pppoe-".toList name after) =
      "pppoe-".toList ++ name := interface_sessionPayload hbefore (by decide) hname
  have hne : "pppoe-".toList ++ name ≠ [] := List.append_ne_nil_of_left_ne_nil (by decide) name
  have hlonger : ∀ w : Text, ("pppoe-".toList ++ w).isPrefixOf ("pppoe-".toList ++ name) =
      decide (w <+: name) := fun w ↦ by
    rw [Bool.eq_iff_iff, List.isPrefixOf_iff_prefix, List.prefix_append_right_inj, decide_eq_true_eq]
  have hin : "pppoe-in-".toList.isPrefixOf ("pppoe-".toList ++ name) =
      decide ("in-".toList <+: name) := hlonger "in-".toList
  have hout : "pppoe-out-".toList.isPrefixOf ("pppoe-".toList ++ name) =
      decide ("out-".toList <+: name) := hlonger "out-".toList
  rw [withoutDirection]
  by_cases h₁ : "in-".toList <+: name
  · rw [if_pos h₁, _subscriber_of_prefix hiface hne
      (by rw [SUBSCRIBER_PREFIXES, List.find?_cons, hin, decide_eq_true h₁])]
    rfl
  · by_cases h₂ : "out-".toList <+: name
    · rw [if_neg h₁, if_pos h₂, _subscriber_of_prefix hiface hne
        (by rw [SUBSCRIBER_PREFIXES, List.find?_cons, hin, decide_eq_false h₁, List.find?_cons,
          hout, decide_eq_true h₂])]
      rfl
    · have hfind : SUBSCRIBER_PREFIXES.find? (·.isPrefixOf ("pppoe-".toList ++ name)) =
          some "pppoe-".toList := by
        rw [SUBSCRIBER_PREFIXES, List.find?_cons, hin, decide_eq_false h₁, List.find?_cons, hout,
          decide_eq_false h₂]
        rfl
      rw [if_neg h₁, if_neg h₂, _subscriber_of_prefix hiface hne hfind]
      exact List.drop_left

/-- **Two PPPoE names are recorded under different ids** exactly if they differ without their
direction. -/
theorem subscriber_ne_iff (hbefore : ¬"in:<".toList <:+: before) (hname : '>' ∉ name)
    (hname' : '>' ∉ name') :
    self._subscriber u (sessionPayload before "pppoe-".toList name after) ≠
        self._subscriber u (sessionPayload before "pppoe-".toList name' after) ↔
      withoutDirection name ≠ withoutDirection name' := by
  rw [_subscriber_pppoe hbefore hname, _subscriber_pppoe hbefore hname']

theorem subscriber_ne_ali_musa :
    MikroTikParser._subscriber {} .ascii (sessionPayload "forward: ".toList "pppoe-".toList
        "ali".toList " out:wan".toList) ≠
      MikroTikParser._subscriber {} .ascii (sessionPayload "forward: ".toList "pppoe-".toList
        "musa".toList " out:wan".toList) :=
  (subscriber_ne_iff (by decide) (by decide) (by decide)).mpr (by decide)

/-- A subscriber whose name begins with a direction has the id of another one. -/
theorem subscriber_eq_direction :
    "in-bob".toList ≠ "bob".toList ∧
    MikroTikParser._subscriber {} .ascii (sessionPayload "forward: ".toList "pppoe-".toList
        "in-bob".toList " out:wan".toList) =
      MikroTikParser._subscriber {} .ascii (sessionPayload "forward: ".toList "pppoe-".toList
        "bob".toList " out:wan".toList) := by
  decide +kernel

/-! ## The rest of the record -/

/-- A pattern is not disturbed by a name: it matches before the segment, or no match of it begins inside the
name. -/
def Undisturbed {γ : Type} (r : Re Char γ) (before pfx name after : Text) : Prop :=
  r.Occurs before ∨ SilentAt r (before ++ "in:<".toList ++ pfx).reverse name ('>' :: after)

/-- No marker of the other fields begins in a name, unless one that counts stands before it. -/
structure NameClear (u : CharTable) (before pfx name after : Text) : Prop where
  ports : Undisturbed (srcnatPorts u) before pfx name after
  noports : (srcnatPorts u).Occurs before ∨ Undisturbed (srcnatNoports u) before pfx name after
  protocol : "proto ".toList <:+: before ∨ ¬"proto ".toList <:+: name ∧
    ("proto ".toList <:+: after ∨ Undisturbed (protocolPattern u) before pfx name after)

/-- The token after the first `proto ` of a text, if there is one, ends in the text. -/
def TokenEnds (before : Text) : Prop :=
  ∀ x rest, before = x ++ ("proto ".toList ++ rest) → ¬"proto ".toList <:+: x →
    ∃ c ∈ rest, c ∈ PROTO_END

def ParsedLog.withoutSubscriber (log : ParsedLog) : ParsedLog := { log with subscriberId := [] }

theorem sessionPayload_eq (before pfx name after : Text) : sessionPayload before pfx name after =
    (before ++ "in:".toList) ++ '<' :: ((pfx ++ name) ++ '>' :: after) := by
  simp [sessionPayload]

section patterns

variable {γ : Type} {r : Re Char γ}

/-- **What an undisturbed pattern captures does not depend on the name.** -/
theorem search_groups_of_undisturbed (ha : r.Avoids '<')
    (hhead : ∀ b w t m, Matches r b w t m → ∃ e v, w = e :: v ∧ e ≠ '>')
    (hmono : ∀ b w t m s, Matches r b w t m → Matches r b w (t ++ 'i' :: s) m)
    (hpfx : ∀ s, Silent r pfx s) (h : Undisturbed r before pfx name after)
    (h' : Undisturbed r before pfx name' after) :
    (r.search (sessionPayload before pfx name after)).map (·.groups) =
      (r.search (sessionPayload before pfx name' after)).map (·.groups) := by
  have hoccurs : r.Occurs before → (r.search (sessionPayload before pfx name after)).map (·.groups) =
      (r.search (sessionPayload before pfx name' after)).map (·.groups) := by
    rintro ⟨x, w, y, m, rfl, hm⟩
    have hfirst : r.first x.reverse ((w ++ y ++ "in:".toList) ++ '<' :: []) ≠ none := by
      intro hnone
      refine first_eq_none.mp hnone w (y ++ 'i' :: "n:<".toList) m ?_ (hmono _ _ _ _ _ hm)
      simp
    have hgroups := search_groups_congr_of_first ha hfirst ((pfx ++ name) ++ '>' :: after)
      ((pfx ++ name') ++ '>' :: after)
    rw [sessionPayload_eq, sessionPayload_eq]
    simpa only [List.append_assoc] using hgroups
  rcases h with h | h
  · exact hoccurs h
  · rcases h' with h' | h'
    · exact hoccurs h'
    · have hname : ∀ {name}, SilentAt r (before ++ "in:<".toList ++ pfx).reverse name ('>' :: after) →
          SilentAt r ((before ++ "in:".toList) ++ ['<']).reverse (pfx ++ name) ('>' :: after) := by
        intro name h
        refine (hpfx _).silentAt.append ?_
        have hopening : before ++ "in:<".toList = (before ++ "in:".toList) ++ ['<'] := by simp
        rwa [← List.reverse_append, ← hopening]
      rw [sessionPayload_eq, sessionPayload_eq]
      exact search_groups_congr ha hhead (hname h) (hname h')

end patterns

section names

variable {b w t : Text} {m : Caps Char Group}

theorem isSpace_bracket : u.isSpace '<' = false := by
  rw [u.isSpace_ascii _ (by decide)]
  rfl

theorem isDecimal_bracket : u.isDecimal '<' = false := by
  rw [u.isDecimal_ascii (by decide)]
  rfl

theorem avoids_srcnatPorts : (srcnatPorts u).Avoids '<' := by
  simp [srcnatPorts, concat, Re.Avoids, Re.lit, Re.sym, ipv4, octet, Re.times, Re.opt, port,
    Re.rep, Re.upTo, range, isSpace_bracket, isDecimal_bracket]

theorem avoids_srcnatNoports : (srcnatNoports u).Avoids '<' := by
  simp [srcnatNoports, concat, Re.Avoids, Re.lit, Re.sym, ipv4, octet, Re.times, Re.opt, notAddrAfter,
    range, isSpace_bracket]

theorem avoids_protocolPattern : (protocolPattern u).Avoids '<' := by
  simp [protocolPattern, concat, Re.Avoids, Re.lit, Re.sym, Re.plus, Re.rep, Re.times, Re.upTo,
    tokenChar, range, isSpace_bracket]

/-- The session prefixes hold no keyword of a translation, and none of a protocol begins in one. -/
theorem silent_prefix_nat {r : Re Char Group} (hpfx : pfx ∈ SUBSCRIBER_PREFIXES)
    (hr : ∀ b w t m, Matches r b w t m → ∃ v, w = "NAT".toList ++ v ∧ 'N' ∉ v) (s : Text) :
    Silent r pfx s := by
  have hN : ∀ pfx ∈ SUBSCRIBER_PREFIXES, 'N' ∉ pfx := by decide
  refine Silent.of_head fun b w t m hm ↦ ?_
  obtain ⟨v, rfl, -⟩ := hr b w t m hm
  exact ⟨'N', _, rfl, hN pfx hpfx⟩

theorem silent_prefix_protocol (hpfx : pfx ∈ SUBSCRIBER_PREFIXES) (s : Text) :
    Silent (protocolPattern u) pfx s := by
  have hkey : ∀ pfx ∈ SUBSCRIBER_PREFIXES, ∀ v ∈ pfx.tails, v ≠ [] →
      ¬v <+: "proto".toList ∧ ¬"proto".toList <+: v := by decide
  intro v b w t m hv hne heq hm
  obtain ⟨-, s', tok, -, -, -, -, -, rfl, -⟩ := matches_protocolPattern.mp hm
  have hprefix : "proto".toList <+: v ++ s := ⟨s' ++ tok ++ t, by rw [heq]; simp⟩
  obtain ⟨h₁, h₂⟩ := hkey pfx hpfx v ((List.mem_tails v pfx).mpr hv) hne
  exact (List.prefix_or_prefix_of_prefix hprefix (List.prefix_append v s)).elim h₂ h₁

end names

section independence

variable (hpfx : pfx ∈ SUBSCRIBER_PREFIXES) (h : NameClear u before pfx name after)
  (h' : NameClear u before pfx name' after)

include hpfx h h'

/-- **The tuple does not depend on the name.** -/
theorem natEndpoints_sessionPayload : natEndpoints u (sessionPayload before pfx name after) =
    natEndpoints u (sessionPayload before pfx name' after) := by
  have hhead : ∀ {r : Re Char Group},
      (∀ b w t m, Matches r b w t m → ∃ v, w = "NAT".toList ++ v ∧ 'N' ∉ v) →
      ∀ b w t m, Matches r b w t m → ∃ e v, w = e :: v ∧ e ≠ '>' := by
    intro r hr b w t m hm
    obtain ⟨v, rfl, -⟩ := hr b w t m hm
    exact ⟨'N', _, rfl, by decide⟩
  have hports := search_groups_of_undisturbed avoids_srcnatPorts
    (hhead fun _ _ _ _ ↦ word_srcnatPorts) (fun _ _ _ _ _ ↦ srcnatPorts_congr)
    (silent_prefix_nat hpfx fun _ _ _ _ ↦ word_srcnatPorts) h.ports h'.ports
  refine natEndpoints_congr hports fun hnone ↦ ?_
  have hbefore : ¬(srcnatPorts u).Occurs before := by
    rintro ⟨x, w, t, m, rfl, hm⟩
    refine search_eq_none_iff.mp hnone ⟨x, w, t ++ ("in:<".toList ++ ((pfx ++ name) ++ '>' :: after)),
      m, ?_, srcnatPorts_congr hm⟩
    rw [sessionPayload, List.append_assoc, List.append_assoc]
  refine search_groups_of_undisturbed avoids_srcnatNoports
    (hhead fun _ _ _ _ ↦ word_srcnatNoports) ?_
    (silent_prefix_nat hpfx fun _ _ _ _ ↦ word_srcnatNoports)
    (h.noports.resolve_left hbefore) (h'.noports.resolve_left hbefore)
  intro b w t m s hm
  obtain ⟨hstop, hword⟩ := matches_srcnatNoports.mp hm
  refine matches_srcnatNoports.mpr ⟨?_, hword⟩
  cases t with
  | nil =>
      show (u.isDecimal 'i' || 'i' == '.' || 'i' == ':') = false
      rw [u.isDecimal_ascii (by decide)]
      rfl
  | cons c t => exact hstop

/-- **The protocol does not depend on the name.** -/
theorem _protocol_sessionPayload (hend : TokenEnds before) :
    _protocol u (sessionPayload before pfx name after) =
      _protocol u (sessionPayload before pfx name' after) := by
  have hne : "proto ".toList ≠ [] := by decide
  by_cases hbefore : "proto ".toList <:+: before
  · -- The token stands before the segment.
    obtain ⟨x, rest, rfl, hx⟩ := exists_first hne hbefore
    obtain ⟨c, hc, hmem⟩ := hend x rest rfl hx
    obtain ⟨y, hrest, hword, hy⟩ := exists_word rest
    set word := rest.takeWhile fun c ↦ c ∉ PROTO_END
    obtain ⟨e, z, rfl⟩ : ∃ e z, y = e :: z := by
      refine List.exists_cons_of_ne_nil ?_
      rintro rfl
      rw [hrest, List.append_nil] at hc
      exact hword c hc hmem
    have hcut : ∀ name, _protocol u (sessionPayload (x ++ ("proto ".toList ++ rest)) pfx name after) =
        if word = [] then [] else normaliseProtocol u word := by
      intro name
      have hsplit : sessionPayload (x ++ ("proto ".toList ++ rest)) pfx name after =
          x ++ ("proto ".toList ++ (word ++ (e :: (z ++ ("in:<".toList ++
            ((pfx ++ name) ++ '>' :: after)))))) := by
        rw [sessionPayload, hrest]
        simp only [List.append_assoc, List.cons_append]
      rw [hsplit, _protocol_of_marker (.of_unbordered unbordered_proto hx),
        takeWhile_PROTO_END hword (by simpa using hy)]
    rw [hcut, hcut]
  · have hnone : ∀ {name y}, ¬"proto ".toList <:+: name → ¬"proto ".toList <:+: y →
        ¬"proto ".toList <:+: sessionPayload before pfx name y := by
      intro name y hname hy hinfix
      have hkey : ∀ pfx ∈ SUBSCRIBER_PREFIXES, ¬"proto ".toList <:+: pfx ∧
          ∀ a ∈ pfx.getLast?, a ∉ "proto ".toList := by decide
      rw [sessionPayload_eq] at hinfix
      rcases infix_append_cons (by decide) hinfix with hin | hin
      · rcases infix_append_of_head (by decide) hin with hin | hin
        · exact hbefore hin
        · exact absurd hin (by decide)
      · rcases infix_append_cons (by decide) hin with hin | hin
        · exact (infix_append_of_getLast (hkey pfx hpfx).2 hin).elim (hkey pfx hpfx).1 hname
        · exact hy hin
    obtain ⟨hname, hor⟩ := h.protocol.resolve_left hbefore
    obtain ⟨hname', hor'⟩ := h'.protocol.resolve_left hbefore
    by_cases hafter : "proto ".toList <:+: after
    · -- The token stands behind the segment.
      obtain ⟨y, rest, rfl, hy⟩ := exists_first hne hafter
      have hcut : ∀ {name}, ¬"proto ".toList <:+: name →
          _protocol u (sessionPayload before pfx name (y ++ ("proto ".toList ++ rest))) =
            if rest.takeWhile (fun c ↦ c ∉ PROTO_END) = [] then []
            else normaliseProtocol u (rest.takeWhile fun c ↦ c ∉ PROTO_END) := by
        intro name hname
        have hsplit : sessionPayload before pfx name (y ++ ("proto ".toList ++ rest)) =
            sessionPayload before pfx name y ++ ("proto ".toList ++ rest) := by
          simp only [sessionPayload, List.append_assoc, List.cons_append]
        rw [hsplit, _protocol_of_marker (.of_unbordered unbordered_proto (hnone hname hy))]
      rw [hcut hname, hcut hname']
    · -- There is no marker, and the pattern decides.
      have hgroups := search_groups_of_undisturbed (avoids_protocolPattern (u := u)) ?_ ?_
        (silent_prefix_protocol hpfx) (hor.resolve_left hafter) (hor'.resolve_left hafter)
      · rw [_protocol_of_notMem (hnone hname hafter), _protocol_of_notMem (hnone hname' hafter)]
        rcases search_cases hgroups with ⟨hnone, hnone'⟩ | ⟨m, m', hm, hm', hsame⟩
        · rw [hnone, hnone']
        · simp only [hm, hm', hsame]
      · intro b w t m hm
        obtain ⟨-, s, tok, -, -, -, -, -, rfl, -⟩ := matches_protocolPattern.mp hm
        exact ⟨'p', _, rfl, by decide⟩
      · intro b w t m s hm
        exact matches_protocolPattern.mpr (matches_protocolPattern.mp hm)

/-- **The rest of the record does not depend on the name.** -/
theorem parse_name_independent (hstrict : self.requireNat = true) (hend : TokenEnds before) :
    (self.parse u (sessionPayload before pfx name after)).1.map ParsedLog.withoutSubscriber =
      (self.parse u (sessionPayload before pfx name' after)).1.map ParsedLog.withoutSubscriber := by
  rw [parse_fst, parse_fst, endpoints_toOption_strict hstrict, endpoints_toOption_strict hstrict,
    natEndpoints_sessionPayload hpfx h h', Option.map_bind, Option.map_bind]
  congr 1
  funext e
  simp only [Function.comp, MikroTikParser.event, apply_ite (Option.map ParsedLog.withoutSubscriber),
    Option.map_none, Option.map_some, ParsedLog.withoutSubscriber,
    _protocol_sessionPayload hpfx h h' hend]

end independence

def sampleRest : Text :=
  " proto TCP, 10.0.0.1:1->8.8.8.8:2, NAT (10.0.0.1:1->1.2.3.4:3)->8.8.8.8:2".toList

/-- A name without the letters of the markers disturbs nothing. -/
theorem NameClear.of_notMem {u : CharTable} {before pfx name after : Text} (hN : 'N' ∉ name)
    (hp : 'p' ∉ name) : NameClear u before pfx name after := by
  have hnat : ∀ {r : Re Char Group}, (∀ b w t m, Matches r b w t m → ∃ v, w = "NAT".toList ++ v ∧
      'N' ∉ v) → Undisturbed r before pfx name after := by
    intro r hr
    refine .inr (Silent.of_head fun b w t m hm ↦ ?_).silentAt
    obtain ⟨v, rfl, -⟩ := hr b w t m hm
    exact ⟨'N', _, rfl, hN⟩
  refine ⟨hnat fun _ _ _ _ ↦ word_srcnatPorts, .inr (hnat fun _ _ _ _ ↦ word_srcnatNoports),
    .inr ⟨fun h ↦ hp (h.subset (by decide)), .inr (.inr (Silent.of_head fun b w t m hm ↦ ?_).silentAt)⟩⟩
  obtain ⟨-, s, tok, -, -, -, -, -, rfl, -⟩ := matches_protocolPattern.mp hm
  exact ⟨'p', _, rfl, hp⟩

theorem parse_name_independent_sample :
    (MikroTikParser.parse {} .ascii (sessionPayload [] "pppoe-".toList "ali".toList
        sampleRest)).1.map ParsedLog.withoutSubscriber =
      (MikroTikParser.parse {} .ascii (sessionPayload [] "pppoe-".toList "musa".toList
        sampleRest)).1.map ParsedLog.withoutSubscriber :=
  parse_name_independent (by decide) (.of_notMem (by decide) (by decide))
    (.of_notMem (by decide) (by decide)) rfl
    fun x rest h _ ↦ absurd (congrArg List.length h) (by simp)

/-- A name that brings a marker of its own decides the protocol of the record. -/
theorem name_brings_protocol :
    ((MikroTikParser.parse {} .ascii (sessionPayload [] "pppoe-".toList "bob".toList
        sampleRest)).1.map (·.protocol) = some "TCP".toList) ∧
    ((MikroTikParser.parse {} .ascii (sessionPayload [] "pppoe-".toList "bob proto UDP ".toList
        sampleRest)).1.map (·.protocol) = some "UDP".toList) := by
  constructor
  · decide +kernel
  · decide +kernel

end LogServer
