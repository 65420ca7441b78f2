import LogServer.Parser.FastPaths
import LogServer.Parser.RoundTrip

/-!
# A number before a payload

A payload may be preceded by a number and a blank.  Nothing the parser looks for begins in them, and the
assertions of its patterns cannot tell a blank from the beginning of a text.

`parse_number`: the number does not change what is made of the payload, whatever the settings are.
-/

namespace LogServer

open Regex Substring

variable {u : CharTable} {digits t payload payload' : Text}

/-! ## What a payload is read for -/

/-- The tuple depends on what the patterns capture, and on whether there is a keyword. -/
theorem endpoints_congr {self : MikroTikParser}
    (hfind : (find "NAT".toList payload).isSome = (find "NAT".toList payload').isSome)
    (h : ∀ r ∈ [srcnatPorts u, srcnatNoports u, plainPorts u, plainNoports u],
      (r.search payload).map (·.groups) = (r.search payload').map (·.groups)) :
    self.endpoints u payload = self.endpoints u payload' := by
  rw [MikroTikParser.endpoints, MikroTikParser.endpoints, hfind]
  split
  · rcases search_cases (h (srcnatPorts u) (by simp)) with ⟨hnone, hnone'⟩ | ⟨m, m', hm, hm', hsame⟩
    · rw [hnone, hnone']
      rcases search_cases (h (srcnatNoports u) (by simp)) with
        ⟨hnone, hnone'⟩ | ⟨m, m', hm, hm', hsame⟩
      · rw [hnone, hnone']
      · simp only [hm, hm', groupText_congr hsame]
    · simp only [hm, hm', groupText_congr hsame]
  · split
    · rfl
    · rcases search_cases (h (plainPorts u) (by simp)) with ⟨hnone, hnone'⟩ | ⟨m, m', hm, hm', hsame⟩
      · rw [hnone, hnone']
        rcases search_cases (h (plainNoports u) (by simp)) with
          ⟨hnone, hnone'⟩ | ⟨m, m', hm, hm', hsame⟩
        · rw [hnone, hnone']
        · simp only [hm, hm', groupText_congr hsame]
      · simp only [hm, hm', groupText_congr hsame]

/-- What is made of a payload depends on its tuple, its protocol and its interface. -/
theorem parse_congr {self : MikroTikParser}
    (hendpoints : self.endpoints u payload = self.endpoints u payload')
    (hprotocol : _protocol u payload = _protocol u payload')
    (hinterface : MikroTikParser.interface u payload = MikroTikParser.interface u payload') :
    self.parse u payload = self.parse u payload' := by
  have hsubscriber : self._subscriber u payload = self._subscriber u payload' := by
    rw [MikroTikParser._subscriber, MikroTikParser._subscriber, hinterface]
  rw [MikroTikParser.parse, MikroTikParser.parse, MikroTikParser._parse, MikroTikParser._parse,
    hendpoints, hprotocol, hsubscriber]

/-! ## A number and a blank -/

section number

variable (hdigits : ∀ c ∈ digits, c.isDigit = true)

include hdigits

/-- A letter is not in a number. -/
theorem notMem_number {c : Char} (hdigit : c.isDigit = false) (hblank : c ≠ ' ') :
    c ∉ digits ++ [' '] := by
  intro hmem
  rcases List.mem_append.mp hmem with h | h
  · rw [hdigits c h] at hdigit
    cases hdigit
  · exact hblank (List.mem_singleton.mp h)

/-- No word that begins with a letter starts in a number. -/
theorem noStart_number {c : Char} {w s : Text} (hdigit : c.isDigit = false) (hblank : c ≠ ' ') :
    NoStart (c :: w) (digits ++ [' ']) s := by
  rintro u₁ u₂ hu hne ⟨v, hv⟩
  obtain ⟨a, u₂, rfl⟩ := List.exists_cons_of_ne_nil hne
  obtain ⟨rfl, -⟩ := List.cons.inj hv
  refine notMem_number hdigits hdigit hblank ?_
  rw [hu]
  exact List.mem_append_right u₁ List.mem_cons_self

/-- No match that begins with a letter starts in a number. -/
theorem silent_number {γ : Type} {r : Re Char γ} {c : Char} {s : Text} (hdigit : c.isDigit = false)
    (hblank : c ≠ ' ') (hr : ∀ b w t m, Matches r b w t m → ∃ v, w = c :: v) :
    Silent r (digits ++ [' ']) s := by
  refine Silent.of_head fun b w t m hm ↦ ?_
  obtain ⟨v, rfl⟩ := hr b w t m hm
  exact ⟨c, v, rfl, notMem_number hdigits hdigit hblank⟩

/-- No match that begins with an address starts in a number: after its digits an address has a dot. -/
theorem silent_number_addr {r : Re Char Group} {s : Text}
    (hr : ∀ b w t m, Matches r b w t m → ∃ x : Ipv4, x.text <+: w) :
    Silent r (digits ++ [' ']) s := by
  rintro v b w t m ⟨p, hp⟩ hne heq hm
  obtain ⟨x, w, rfl⟩ := hr b _ t m hm
  obtain ⟨d, c, rfl⟩ := (List.eq_nil_or_concat' v).resolve_left hne
  rw [← List.append_assoc] at hp
  obtain ⟨hd, hc⟩ := List.append_inj' hp rfl
  obtain rfl : c = ' ' := (List.cons.inj hc).1
  have hdigit : ∀ c ∈ d, c.isDigit = true := fun c hmem ↦
    hdigits c (hd ▸ List.mem_append_right p hmem)
  have haddr : d ++ ' ' :: s = octetText x.a ++ '.' :: (octetText x.b ++ '.' ::
      (octetText x.c ++ '.' :: octetText x.d) ++ w ++ t) := by
    simpa [Ipv4.text] using heq
  obtain ⟨-, hdot, -⟩ := append_cons_inj (p := fun c ↦ c.isDigit = true) haddr hdigit
    (fun _ ↦ isDigit_of_mem_octetText) (by decide) (by decide)
  exact absurd hdot (by decide)

end number

/-! ## The patterns and words of the parser

Of the text before, an assertion sees a blank, which none of them accepts. -/

theorem isDecimal_space : u.isDecimal ' ' = false := isDecimal_false (by decide) rfl

theorem isWord_space : u.isWord ' ' = false := by
  rw [u.isWord_ascii _ (by decide)]
  rfl

theorem seesAlike_srcnatPorts : (srcnatPorts u).SeesAlike (digits ++ [' ']).reverse [] := by
  simp [srcnatPorts, concat, Re.SeesAlike, Re.lit, Re.sym, ipv4, octet, Re.times, Re.opt, port,
    Re.rep, Re.upTo]

theorem seesAlike_srcnatNoports : (srcnatNoports u).SeesAlike (digits ++ [' ']).reverse [] := by
  simp [srcnatNoports, concat, Re.SeesAlike, Re.lit, Re.sym, ipv4, octet, Re.times, Re.opt,
    notAddrAfter]

theorem seesAlike_plainPorts : (plainPorts u).SeesAlike (digits ++ [' ']).reverse [] := by
  simp [plainPorts, concat, Re.SeesAlike, Re.lit, Re.sym, ipv4, octet, Re.times, Re.opt, port,
    Re.rep, Re.upTo, notAddrBefore, isDecimal_space]

theorem seesAlike_plainNoports : (plainNoports u).SeesAlike (digits ++ [' ']).reverse [] := by
  simp [plainNoports, concat, Re.SeesAlike, Re.lit, Re.sym, ipv4, octet, Re.times, Re.opt,
    notAddrBefore, notAddrAfter, isDecimal_space]

theorem seesAlike_inInterface : (inInterface u).SeesAlike (digits ++ [' ']).reverse [] := by
  simp [inInterface, concat, Re.SeesAlike, Re.lit, Re.sym, Re.opt, isWord_space]

theorem seesAlike_protocolPattern : (protocolPattern u).SeesAlike (digits ++ [' ']).reverse [] := by
  simp [protocolPattern, concat, Re.SeesAlike, Re.lit, Re.sym, Re.plus, Re.rep, Re.times, Re.upTo,
    isWord_space]

section prefixed

variable (hdigits : ∀ c ∈ digits, c.isDigit = true)

include hdigits

/-- **The tuple does not depend on a number before it.** -/
theorem endpoints_number {self : MikroTikParser} :
    self.endpoints u (digits ++ [' '] ++ t) = self.endpoints u t := by
  refine endpoints_congr ?_ ?_
  · have hfind : find "NAT".toList (digits ++ [' '] ++ t) = _ :=
      find_append (noStart_number hdigits (c := 'N') rfl (by decide))
    rw [hfind, Option.isSome_map]
  · simp only [List.forall_mem_cons]
    refine ⟨?_, ?_, ?_, ?_, nofun⟩
    · exact search_groups_append (silent_number hdigits (c := 'N') rfl (by decide)
        fun _ _ _ _ ↦ head_srcnatPorts) seesAlike_srcnatPorts
    · exact search_groups_append (silent_number hdigits (c := 'N') rfl (by decide)
        fun _ _ _ _ ↦ head_srcnatNoports) seesAlike_srcnatNoports
    · refine search_groups_append (silent_number_addr hdigits fun b w t m hm ↦ ?_) seesAlike_plainPorts
      obtain ⟨v, m', r, rfl, -, -, hv⟩ := matches_plainPorts.mp hm
      obtain ⟨-, pri, dst, p, -, rfl, -⟩ := matches_plainPortsHead.mp hv
      exact ⟨pri, by simp⟩
    · refine search_groups_append (silent_number_addr hdigits fun b w t m hm ↦ ?_)
        seesAlike_plainNoports
      obtain ⟨-, -, pri, dst, rfl, -⟩ := matches_plainNoports.mp hm
      exact ⟨pri, by simp⟩

/-- **The protocol does not depend on a number before it.** -/
theorem _protocol_number : _protocol u (digits ++ [' '] ++ t) = _protocol u t := by
  have hfind : find "proto ".toList (digits ++ [' '] ++ t) = _ :=
    find_append (noStart_number hdigits (c := 'p') rfl (by decide))
  rw [_protocol, _protocol, hfind]
  cases find "proto ".toList t with
  | none =>
      have hgroups := search_groups_append (s := t) (silent_number hdigits (c := 'p') rfl (by decide)
        fun b w t m hm ↦ by
          obtain ⟨-, s, tok, -, -, -, -, -, rfl, -⟩ := matches_protocolPattern.mp hm
          exact ⟨_, rfl⟩) (seesAlike_protocolPattern (u := u))
      rcases search_cases hgroups with ⟨hnone, hnone'⟩ | ⟨m, m', hm, hm', hsame⟩
      · simp only [Option.map_none, hnone, hnone']
      · simp only [Option.map_none, hm, hm', hsame]
  | some i =>
      have hdrop : (digits ++ [' '] ++ t).drop ((digits ++ [' ']).length + i + 6) = t.drop (i + 6) := by
        rw [Nat.add_assoc, ← List.drop_drop, List.drop_left]
      simp only [Option.map_some, hdrop]

/-- **The interface does not depend on a number before it.** -/
theorem interface_number :
    MikroTikParser.interface u (digits ++ [' '] ++ t) = MikroTikParser.interface u t := by
  have hfind : find "in:<".toList (digits ++ [' '] ++ t) = _ :=
    find_append (noStart_number hdigits (c := 'i') rfl (by decide))
  rw [MikroTikParser.interface, MikroTikParser.interface, hfind]
  cases find "in:<".toList t with
  | none =>
      have hgroups := search_groups_append (s := t) (silent_number hdigits (c := 'i') rfl (by decide)
        fun b w t m hm ↦ by
          obtain ⟨-, l, name, r, -, -, -, rfl, -⟩ := matches_inInterface.mp hm
          exact ⟨_, rfl⟩) (seesAlike_inInterface (u := u))
      rcases search_cases hgroups with ⟨hnone, hnone'⟩ | ⟨m, m', hm, hm', hsame⟩
      · simp only [Option.map_none, hnone, hnone']
      · simp only [Option.map_none, hm, hm', hsame]
  | some i =>
      have hdrop : (digits ++ [' '] ++ t).drop ((digits ++ [' ']).length + i + 4) = t.drop (i + 4) := by
        rw [Nat.add_assoc, ← List.drop_drop, List.drop_left]
      simp only [Option.map_some, hdrop]

/-- **A number and a blank before a payload** change nothing. -/
theorem parse_number {self : MikroTikParser} :
    self.parse u (digits ++ [' '] ++ t) = self.parse u t :=
  parse_congr (endpoints_number hdigits) (_protocol_number hdigits) (interface_number hdigits)

end prefixed

end LogServer
