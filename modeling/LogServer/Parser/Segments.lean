import LogServer.Lib.RegexContext
import LogServer.Parser.MikroTik

/-!
# Cutting out the fields

What `_protocol` and `interface` read from a payload in which their markers are located, and what
their patterns match.  The markers cannot overlap themselves, so the first one is found wherever
none stands before it.
-/

namespace LogServer

open Regex Substring

variable {u : CharTable}

theorem unbordered_nat : Unbordered "NAT".toList := by decide

theorem unbordered_proto : Unbordered "proto ".toList := by decide

theorem unbordered_session : Unbordered "in:<".toList := by decide

/-! ## The cuts -/

/-- The text before the first closing bracket. -/
theorem find_close {name rest : Text} (hname : '>' ∉ name) :
    find ">".toList (name ++ '>' :: rest) = some name.length := by
  have hnone : ¬">".toList <:+: name := fun h ↦ hname (h.subset (show '>' ∈ ['>'] by simp))
  exact find_of_unbordered (w := ['>']) (s := rest) (by decide) hnone

/-- **The interface is cut out between its brackets.** -/
theorem interface_of_marker {before name rest : Text}
    (hstart : NoStart "in:<".toList before ("in:<".toList ++ (name ++ '>' :: rest)))
    (hname : '>' ∉ name) :
    MikroTikParser.interface u (before ++ ("in:<".toList ++ (name ++ '>' :: rest))) = name := by
  have hfind := find_eq_some_iff.mpr ⟨before, name ++ '>' :: rest, rfl, rfl, hstart⟩
  have hdrop : (before ++ ("in:<".toList ++ (name ++ '>' :: rest))).drop (before.length + 4) =
      name ++ '>' :: rest := by
    rw [← List.drop_drop, List.drop_left]
    rfl
  rw [MikroTikParser.interface, hfind]
  dsimp only
  rw [hdrop, find_close hname]
  exact List.take_left

/-- An interface that is not closed has no name. -/
theorem interface_of_unclosed {before rest : Text}
    (hstart : NoStart "in:<".toList before ("in:<".toList ++ rest)) (hclose : '>' ∉ rest) :
    MikroTikParser.interface u (before ++ ("in:<".toList ++ rest)) = [] := by
  have hfind := find_eq_some_iff.mpr ⟨before, rest, rfl, rfl, hstart⟩
  have hdrop : (before ++ ("in:<".toList ++ rest)).drop (before.length + 4) = rest := by
    rw [← List.drop_drop, List.drop_left]
    rfl
  have hnone : find ">".toList rest = none :=
    find_eq_none.mpr fun h ↦ hclose (h.subset (show '>' ∈ ['>'] by simp))
  rw [MikroTikParser.interface, hfind]
  dsimp only
  rw [hdrop, hnone]

/-- Without the marker the interface is left to its pattern. -/
theorem interface_of_notMem {payload : Text} (h : ¬"in:<".toList <:+: payload) :
    MikroTikParser.interface u payload = match (inInterface u).search payload with
      | none => []
      | some m => (m.group ()).getD [] := by
  have hfind := find_eq_none.mpr h
  cases hm : (inInterface u).search payload with
  | none => simp only [MikroTikParser.interface, hfind, hm]
  | some m => simp only [MikroTikParser.interface, hfind, hm]

/-- **The protocol is cut out behind its marker.** -/
theorem _protocol_of_marker {before rest : Text}
    (hstart : NoStart "proto ".toList before ("proto ".toList ++ rest)) :
    _protocol u (before ++ ("proto ".toList ++ rest)) =
      if rest.takeWhile (fun c ↦ c ∉ PROTO_END) = [] then []
      else normaliseProtocol u (rest.takeWhile fun c ↦ c ∉ PROTO_END) := by
  have hfind := find_eq_some_iff.mpr ⟨before, rest, rfl, rfl, hstart⟩
  have hdrop : (before ++ ("proto ".toList ++ rest)).drop (before.length + 6) = rest := by
    rw [← List.drop_drop, List.drop_left]
    rfl
  rw [_protocol, hfind]
  dsimp only
  rw [hdrop]

/-- Without the marker the protocol is left to its pattern. -/
theorem _protocol_of_notMem {payload : Text} (h : ¬"proto ".toList <:+: payload) :
    _protocol u payload = match (protocolPattern u).search payload with
      | none => []
      | some m => normaliseProtocol u ((m.group ()).getD []) := by
  have hfind := find_eq_none.mpr h
  cases hm : (protocolPattern u).search payload with
  | none => simp only [_protocol, hfind, hm]
  | some m => simp only [_protocol, hfind, hm]

/-! ## The patterns -/

section patterns

variable {b w t : Text} {m : Caps Char Unit}

/-- A word boundary before a word: the character before is no part of one. -/
theorem boundary_iff {c : Char} {s : Text} (hc : u.isWord c = true) :
    (b.head?.any u.isWord ≠ (c :: s).head?.any u.isWord) ↔ b.head?.any u.isWord = false := by
  simp [hc]

theorem isWord_i : u.isWord 'i' = true := by
  rw [u.isWord_ascii _ (by decide)]
  rfl

theorem isWord_p : u.isWord 'p' = true := by
  rw [u.isWord_ascii _ (by decide)]
  rfl

/-- **What the protocol pattern matches**: the keyword, white space and a token. -/
theorem matches_protocolPattern : Matches (protocolPattern u) b w t m ↔
    b.head?.any u.isWord = false ∧ ∃ s tok, s ≠ [] ∧ (∀ c ∈ s, u.isSpace c = true) ∧
      1 ≤ tok.length ∧ tok.length ≤ 16 ∧ (∀ c ∈ tok, tokenChar c = true) ∧
      w = "proto".toList ++ (s ++ tok) ∧ m = [((), tok)] := by
  have hplus : ∀ {b w t : Text} {m : Caps Char Unit}, Matches (.plus (.cls u.isSpace)) b w t m ↔
      m = [] ∧ w ≠ [] ∧ ∀ c ∈ w, u.isSpace c = true := by
    intro b w t m
    simp only [Re.plus, matches_seq, matches_cls, matches_star_cls]
    constructor
    · rintro ⟨_, v, _, _, rfl, rfl, ⟨⟨a, ha, rfl⟩, rfl⟩, rfl, hv⟩
      exact ⟨rfl, by simp, by simpa [ha] using hv⟩
    · rintro ⟨rfl, hne, hw⟩
      obtain ⟨a, v, rfl⟩ := List.exists_cons_of_ne_nil hne
      rw [List.forall_mem_cons] at hw
      exact ⟨[a], v, [], [], rfl, rfl, ⟨⟨a, hw.1, rfl⟩, rfl⟩, rfl, hw.2⟩
  simp only [protocolPattern, concat, List.foldl_cons, List.foldl_nil]
  constructor
  · intro h
    obtain ⟨_, tok, _, _, rfl, rfl, h₁, htok⟩ := matches_seq.mp h
    obtain ⟨_, rfl, hrep⟩ := matches_group.mp htok
    obtain ⟨rfl, hpos, hle, hclass⟩ := (matches_rep_cls (by decide)).mp hrep
    obtain ⟨_, s, _, _, rfl, rfl, h₂, hs⟩ := matches_seq.mp h₁
    obtain ⟨rfl, hne, hspace⟩ := hplus.mp hs
    obtain ⟨_, rfl, hword⟩ := matches_seq_lit.mp h₂
    obtain ⟨rfl, rfl, hb⟩ := matches_boundary.mp hword
    refine ⟨(boundary_iff isWord_p).mp hb, s, tok, hne, hspace, hpos, hle, hclass, ?_, rfl⟩
    simp
  · rintro ⟨hb, s, tok, hne, hspace, hpos, hle, hclass, rfl, rfl⟩
    rw [← List.append_assoc]
    refine matches_seq.mpr ⟨_, tok, [], _, rfl, rfl, ?_, matches_group.mpr
      ⟨[], rfl, (matches_rep_cls (by decide)).mpr ⟨rfl, hpos, hle, hclass⟩⟩⟩
    refine matches_seq.mpr ⟨_, s, [], [], rfl, rfl, ?_, hplus.mpr ⟨rfl, hne, hspace⟩⟩
    exact matches_seq_lit.mpr ⟨[], rfl, matches_boundary.mpr
      ⟨rfl, rfl, (boundary_iff isWord_p).mpr hb⟩⟩

/-- **What the interface pattern matches**: the keyword and a name, each bracket optional. -/
theorem matches_inInterface : Matches (inInterface u) b w t m ↔
    b.head?.any u.isWord = false ∧ ∃ l name r, (l = ['<'] ∨ l = []) ∧ (r = ['>'] ∨ r = []) ∧
      (∀ c ∈ name, u.isSpace c = false ∧ c ≠ ',' ∧ c ≠ '>') ∧
      w = "in:".toList ++ (l ++ (name ++ r)) ∧ m = [((), name)] := by
  have hopt : ∀ {c : Char} {b w t : Text} {m : Caps Char Unit},
      Matches (.opt (.sym c)) b w t m ↔ m = [] ∧ (w = [c] ∨ w = []) := by
    intro c b w t m
    rw [matches_opt, matches_sym]
    constructor
    · rintro (⟨rfl, rfl⟩ | ⟨rfl, rfl⟩)
      · exact ⟨rfl, .inl rfl⟩
      · exact ⟨rfl, .inr rfl⟩
    · rintro ⟨rfl, rfl | rfl⟩
      · exact .inl ⟨rfl, rfl⟩
      · exact .inr ⟨rfl, rfl⟩
  have hclass : ∀ c, (!(u.isSpace c || c == ',' || c == '>')) = true ↔
      u.isSpace c = false ∧ c ≠ ',' ∧ c ≠ '>' := by
    intro c
    simp [and_assoc]
  simp only [inInterface, concat, List.foldl_cons, List.foldl_nil]
  constructor
  · intro h
    obtain ⟨_, r, _, _, rfl, rfl, h₁, hclose⟩ := matches_seq.mp h
    obtain ⟨rfl, hr⟩ := hopt.mp hclose
    obtain ⟨_, name, _, _, rfl, rfl, h₂, hgroup⟩ := matches_seq.mp h₁
    obtain ⟨_, rfl, hstar⟩ := matches_group.mp hgroup
    obtain ⟨rfl, hname⟩ := matches_star_cls.mp hstar
    obtain ⟨_, l, _, _, rfl, rfl, h₃, hopen⟩ := matches_seq.mp h₂
    obtain ⟨rfl, hl⟩ := hopt.mp hopen
    obtain ⟨_, rfl, hword⟩ := matches_seq_lit.mp h₃
    obtain ⟨rfl, rfl, hb⟩ := matches_boundary.mp hword
    refine ⟨(boundary_iff isWord_i).mp hb, l, name, r, hl, hr, fun c hc ↦ (hclass c).mp (hname c hc),
      ?_, rfl⟩
    simp
  · rintro ⟨hb, l, name, r, hl, hr, hname, rfl, rfl⟩
    rw [← List.append_assoc, ← List.append_assoc]
    refine matches_seq.mpr ⟨_, r, [((), name)], [], rfl, rfl, ?_, hopt.mpr ⟨rfl, hr⟩⟩
    refine matches_seq.mpr ⟨_, name, [], _, rfl, rfl, ?_, matches_group.mpr
      ⟨[], rfl, matches_star_cls.mpr ⟨rfl, fun c hc ↦ (hclass c).mpr (hname c hc)⟩⟩⟩
    refine matches_seq.mpr ⟨_, l, [], [], rfl, rfl, ?_, hopt.mpr ⟨rfl, hl⟩⟩
    exact matches_seq_lit.mpr ⟨[], rfl, matches_boundary.mpr
      ⟨rfl, rfl, (boundary_iff isWord_i).mpr hb⟩⟩

end patterns

/-! ## What is read at a place -/

/-- The text before a keyword does not end within a word. -/
def Apart (u : CharTable) (before : Text) : Prop := before.reverse.head?.any u.isWord = false

/-- A character of an interface's name, `[^\s,>]`. -/
def nameChar (u : CharTable) (c : Char) : Bool := !(u.isSpace c || c == ',' || c == '>')

/-- A protocol stands at a place: the keyword, white space and a token, which is read to its end or up to
its sixteenth character. -/
inductive ProtocolAt (u : CharTable) : Text → Text → Text → Prop
  | mk {before s token after : Text} : Apart u before → s ≠ [] → (∀ c ∈ s, u.isSpace c = true) →
      1 ≤ token.length → token.length ≤ 16 → (∀ c ∈ token, tokenChar c = true) →
      (token.length = 16 ∨ ∀ c ∈ after.head?, tokenChar c = false) →
        ProtocolAt u before ("proto".toList ++ (s ++ token) ++ after) token

/-- An interface stands at a place: the keyword, an opening bracket if there is one, and a name, which is
read to its end. -/
inductive InterfaceAt (u : CharTable) : Text → Text → Text → Prop
  | mk {before l name after : Text} : Apart u before →
      (l = ['<'] ∨ l = [] ∧ ∀ c ∈ (name ++ after).head?, c ≠ '<') →
      (∀ c ∈ name, nameChar u c = true) → (∀ c ∈ after.head?, nameChar u c = false) →
        InterfaceAt u before ("in:".toList ++ (l ++ (name ++ after))) name

section places

variable {before s token after l name r t : Text}

theorem toNat_of_tokenChar {c : Char} (h : tokenChar c = true) : 45 ≤ c.toNat ∧ c.toNat < 128 := by
  have hA : 'A'.toNat = 65 := rfl
  have hZ : 'Z'.toNat = 90 := rfl
  have ha : 'a'.toNat = 97 := rfl
  have hz : 'z'.toNat = 122 := rfl
  have h0 : '0'.toNat = 48 := rfl
  have h9 : '9'.toNat = 57 := rfl
  simp only [tokenChar, range, Bool.or_eq_true, Bool.and_eq_true, decide_eq_true_eq,
    beq_iff_eq] at h
  rcases h with (((h | h) | h) | rfl) | rfl
  · omega
  · omega
  · omega
  · decide
  · decide

theorem isSpace_of_tokenChar {c : Char} (h : tokenChar c = true) : u.isSpace c = false := by
  obtain ⟨hlo, hhi⟩ := toNat_of_tokenChar h
  rw [u.isSpace_ascii c hhi, asciiSpace]
  simp only [List.mem_cons, List.not_mem_nil, or_false, decide_eq_false_iff_not]
  omega

/-- A keyword is found where the text before it does not end within a word. -/
theorem head_run_keyword {c : Char} {k : Text} (hc : u.isWord c = true) (hbefore : Apart u before) :
    ((Re.seq (.boundary u.isWord) (.lit (c :: k)) : Re Char Unit).run before.reverse
      ((c :: k) ++ t)).head? = some (c :: k, []) := by
  refine head_run_of_unique (matches_seq_lit.mpr ⟨[], rfl, matches_boundary.mpr
    ⟨rfl, rfl, (boundary_iff hc).mpr hbefore⟩⟩) ?_
  intro w' t' m' _ h
  obtain ⟨v, rfl, hb⟩ := matches_seq_lit.mp h
  obtain ⟨rfl, rfl, -⟩ := matches_boundary.mp hb
  exact ⟨rfl, rfl⟩

/-- White space is read to its end. -/
theorem head_run_plus_space {b : Text} (hne : s ≠ []) (hs : ∀ c ∈ s, u.isSpace c = true)
    (ht : ∀ c ∈ t.head?, u.isSpace c = false) :
    ((Re.plus (.cls u.isSpace) : Re Char Unit).run b (s ++ t)).head? = some (s, []) := by
  obtain ⟨c, s, rfl⟩ := List.exists_cons_of_ne_nil hne
  rw [List.forall_mem_cons] at hs
  have hone : ((Re.cls u.isSpace : Re Char Unit).run b ([c] ++ (s ++ t))).head? = some ([c], []) := by
    simp [Re.run, hs.1]
  have hrun := head_run_seq hone (head_run_star_cls (b := [c].reverse ++ b) (p := u.isSpace)
    (s := s ++ t))
  rwa [takeWhile_append hs.2 ht] at hrun

/-- **A protocol is found with its token.** -/
theorem first_protocolPattern (hbefore : Apart u before) (hne : s ≠ [])
    (hs : ∀ c ∈ s, u.isSpace c = true) (hpos : 1 ≤ token.length) (hle : token.length ≤ 16)
    (htoken : ∀ c ∈ token, tokenChar c = true)
    (hfull : token.length = 16 ∨ ∀ c ∈ after.head?, tokenChar c = false) :
    (protocolPattern u).first before.reverse ("proto".toList ++ (s ++ token) ++ after) =
      some ⟨before, "proto".toList ++ (s ++ token), after, [((), token)]⟩ := by
  have hspace : ∀ c ∈ (token ++ after).head?, u.isSpace c = false := by
    intro c hc
    obtain ⟨d, token, rfl⟩ := List.exists_cons_of_ne_nil (List.length_pos_iff.mp hpos)
    obtain rfl : d = c := Option.some.inj hc
    exact isSpace_of_tokenChar (htoken d List.mem_cons_self)
  have htake : ((token ++ after).takeWhile tokenChar).take 16 = token := by
    rcases hfull with h | h
    · rw [List.takeWhile_append_of_pos htoken, ← h, List.take_left]
    · rw [takeWhile_append htoken h, List.take_of_length_le hle]
  have hword : ∀ b, ((Re.group () (.rep (.cls tokenChar) 1 16)).run b (token ++ after)).head? =
      some (token, [((), token)]) := by
    intro b
    have hlen : 1 ≤ ((token ++ after).takeWhile tokenChar).length := by
      rw [List.takeWhile_append_of_pos htoken, List.length_append]
      omega
    rw [head_run_group, head_run_rep_cls (by decide) hlen, htake]
    rfl
  have hkeyword := head_run_keyword (k := "roto".toList) (t := s ++ (token ++ after)) isWord_p hbefore
  have hopening := head_run_seq hkeyword (head_run_plus_space hne hs hspace)
  rw [← List.append_assoc] at hopening
  have hfirst := first_of_head (w := "proto".toList ++ s ++ token) (t := after)
    (r := protocolPattern u) (b := before.reverse) (m := [((), token)]) (by
      rw [List.append_assoc]
      exact head_run_seq hopening (hword _))
  rwa [List.reverse_reverse, List.append_assoc "proto".toList] at hfirst

theorem first_protocolPattern_iff :
    ((protocolPattern u).first before.reverse t).map (fun m ↦ (m.group ()).getD []) = some token ↔
      ProtocolAt u before t token := by
  constructor
  · intro h
    obtain ⟨m, hm, rfl⟩ := Option.map_eq_some_iff.mp h
    obtain ⟨-, rfl, hmatch⟩ := first_sound hm
    obtain ⟨hb, s, tok, hne, hs, hpos, hle, hclass, hword, -⟩ := matches_protocolPattern.mp hmatch
    -- The token is read on behind what is known of it, up to its sixteenth character.
    obtain ⟨tok', after, hsplit, hpos', hle', hclass', hfull⟩ := exists_run (n := 16) (by decide)
      (p := tokenChar) (t := tok ++ m.after) (by
        obtain ⟨c, tok, rfl⟩ := List.exists_cons_of_ne_nil (List.length_pos_iff.mp hpos)
        exact ⟨c, rfl, hclass c List.mem_cons_self⟩)
    have htext : m.word ++ m.after = "proto".toList ++ (s ++ tok') ++ after := by
      rw [hword]
      simp only [List.append_assoc, hsplit]
    rw [htext] at hm ⊢
    obtain rfl := Option.some.inj
      ((first_protocolPattern hb hne hs hpos' hle' hclass' hfull).symm.trans hm)
    exact .mk hb hne hs hpos' hle' hclass' hfull
  · rintro ⟨hb, hne, hs, hpos, hle, hclass, hfull⟩
    rw [first_protocolPattern hb hne hs hpos hle hclass hfull]
    rfl

/-- **An interface is found with its name**, each bracket being taken if it is there. -/
theorem first_inInterface (hbefore : Apart u before)
    (hl : l = ['<'] ∨ l = [] ∧ ∀ c ∈ (name ++ (r ++ after)).head?, c ≠ '<')
    (hname : ∀ c ∈ name, nameChar u c = true)
    (hr : r = ['>'] ∨ r = [] ∧ ∀ c ∈ after.head?, nameChar u c = false ∧ c ≠ '>') :
    (inInterface u).first before.reverse ("in:".toList ++ (l ++ (name ++ r)) ++ after) =
      some ⟨before, "in:".toList ++ (l ++ (name ++ r)), after, [((), name)]⟩ := by
  have hopt : ∀ {c : Char} {b v t : Text}, v = [c] ∨ v = [] ∧ (∀ a ∈ t.head?, a ≠ c) →
      ((Re.opt (.sym c) : Re Char Unit).run b (v ++ t)).head? = some (v, []) := by
    rintro c b v t (rfl | ⟨rfl, ht⟩)
    · simp [Re.opt, Re.run, Re.sym]
    · exact head_run_opt_cls_of_head fun a ha ↦ decide_eq_false (ht a ha)
  have hend : ∀ c ∈ (r ++ after).head?, nameChar u c = false := by
    rcases hr with rfl | ⟨rfl, hr⟩
    · intro c hc
      obtain rfl : '>' = c := Option.some.inj hc
      simp [nameChar]
    · exact fun c hc ↦ (hr c hc).1
  have hgroup : ∀ b, ((Re.group () (.star (.cls (nameChar u)))).run b (name ++ (r ++ after))).head? =
      some (name, [((), name)]) := by
    intro b
    rw [head_run_group, head_run_star_cls, takeWhile_append hname hend]
    rfl
  have hkeyword := head_run_keyword (k := "n:".toList) (t := l ++ (name ++ (r ++ after))) isWord_i
    hbefore
  have hopening := head_run_seq hkeyword (hopt hl)
  rw [← List.append_assoc] at hopening
  have hcaptured := head_run_seq hopening (hgroup _)
  rw [← List.append_assoc] at hcaptured
  have hfirst := first_of_head (w := "in:".toList ++ l ++ name ++ r) (t := after)
    (r := inInterface u) (b := before.reverse) (m := [((), name)]) (by
      rw [List.append_assoc]
      exact head_run_seq hcaptured (hopt (hr.imp id fun h ↦ ⟨h.1, fun c hc ↦ (h.2 c hc).2⟩)))
  simpa only [List.reverse_reverse, List.append_assoc] using hfirst

theorem first_inInterface_iff :
    ((inInterface u).first before.reverse t).map (fun m ↦ (m.group ()).getD []) = some name ↔
      InterfaceAt u before t name := by
  have hfound : ∀ {before l name after : Text}, Apart u before →
      (l = ['<'] ∨ l = [] ∧ ∀ c ∈ (name ++ after).head?, c ≠ '<') →
      (∀ c ∈ name, nameChar u c = true) → (∀ c ∈ after.head?, nameChar u c = false) →
      ((inInterface u).first before.reverse ("in:".toList ++ (l ++ (name ++ after)))).map
        (fun m ↦ (m.group ()).getD []) = some name := by
    intro before l name after hb hl hname hafter
    obtain ⟨r, rest, rfl, hr⟩ := exists_opt '>' after
    have hfirst := first_inInterface hb hl hname (hr.imp id fun h ↦ ⟨h.1, fun c hc ↦
      ⟨hafter c (by rw [h.1]; exact hc), h.2 c hc⟩⟩)
    simp only [List.append_assoc] at hfirst ⊢
    rw [hfirst]
    rfl
  constructor
  · intro h
    obtain ⟨m, hm, rfl⟩ := Option.map_eq_some_iff.mp h
    obtain ⟨-, rfl, hmatch⟩ := first_sound hm
    obtain ⟨hb, l₀, name₀, r₀, -, -, -, hword, -⟩ := matches_inInterface.mp hmatch
    obtain ⟨X, htext⟩ : ∃ X, m.word ++ m.after = "in:".toList ++ X :=
      ⟨_, by rw [hword, List.append_assoc]⟩
    -- The bracket and the name that are read from there on.
    obtain ⟨l, Y, rfl, hl⟩ := exists_opt '<' X
    have hsplit : Y = Y.takeWhile (nameChar u) ++ Y.dropWhile (nameChar u) :=
      List.takeWhile_append_dropWhile.symm
    have hname : ∀ c ∈ Y.takeWhile (nameChar u), nameChar u c = true := fun c hc ↦
      List.mem_takeWhile_imp hc
    have hafter : ∀ c ∈ (Y.dropWhile (nameChar u)).head?, nameChar u c = false := by
      intro c hc
      have hnot := List.head?_dropWhile_not (nameChar u) Y
      rw [Option.mem_def.mp hc] at hnot
      simpa using hnot
    rw [hsplit] at hl htext
    have hread := hfound hb hl hname hafter
    rw [← htext] at hread
    rw [h] at hread
    rw [Option.some.inj hread, htext]
    exact .mk hb hl hname hafter
  · rintro ⟨hb, hl, hname, hafter⟩
    exact hfound hb hl hname hafter

end places

/-! ## Words with a translation -/

/-- A character that is in no port. -/
theorem IsPortText.notMem {p : Text} (h : IsPortText u p) {c : Char} (hc : c.toNat < 128)
    (hdigit : c.isDigit = false) : c ∉ p := fun hmem ↦ by
  have hdec := h.2.2 c hmem
  rw [u.isDecimal_ascii hc, hdigit] at hdec
  cases hdec

theorem notMem_space {s : Text} (h : ∀ c ∈ s, u.isSpace c = true) {c : Char} (hc : c.toNat < 128)
    (hspace : asciiSpace c = false) : c ∉ s := fun hmem ↦ by
  have htrue := h c hmem
  rw [u.isSpace_ascii c hc, hspace] at htrue
  cases htrue

theorem notMem_text (x : Ipv4) {c : Char} (hc : isAddrChar c = false) : c ∉ x.text := fun hmem ↦ by
  rw [isAddrChar_of_mem_text hmem] at hc
  cases hc

section words

variable {b w t : Text} {m : Caps Char Group}

/-- The keyword of a translation stands at the beginning of a match and nowhere else. -/
theorem word_srcnatPorts (h : Matches (srcnatPorts u) b w t m) :
    ∃ v, w = "NAT".toList ++ v ∧ 'N' ∉ v := by
  obtain ⟨_, _, r, rfl, -, hr, hhead⟩ := matches_srcnatPorts.mp h
  obtain ⟨s, hs, pri, pub, dst, p, q, hp, hq, rfl, -⟩ := matches_srcnatPortsHead.mp hhead
  refine ⟨s ++ ['('] ++ pri.text ++ [':'] ++ p ++ "->".toList ++ pub.text ++ [':'] ++ q ++
    ")->".toList ++ dst.text ++ [':'] ++ r, by simp only [List.append_assoc], ?_⟩
  have haddr : ∀ x : Ipv4, 'N' ∉ x.text := fun x ↦ notMem_text x (by decide)
  have hport : ∀ {p}, IsPortText u p → 'N' ∉ p := fun hp ↦ hp.notMem (by decide) (by decide)
  simp [notMem_space hs, haddr, hport hp, hport hq, hport hr, asciiSpace]

theorem word_srcnatNoports (h : Matches (srcnatNoports u) b w t m) :
    ∃ v, w = "NAT".toList ++ v ∧ 'N' ∉ v := by
  obtain ⟨-, s, hs, pri, pub, dst, rfl, -⟩ := matches_srcnatNoports.mp h
  refine ⟨s ++ ['('] ++ pri.text ++ "->".toList ++ pub.text ++ ")->".toList ++ dst.text,
    by simp only [List.append_assoc], ?_⟩
  have haddr : ∀ x : Ipv4, 'N' ∉ x.text := fun x ↦ notMem_text x (by decide)
  simp [notMem_space hs, haddr, asciiSpace]

/-- A match with ports does not depend on the text after it. -/
theorem srcnatPorts_congr {t' : Text} (h : Matches (srcnatPorts u) b w t m) :
    Matches (srcnatPorts u) b w t' m := by
  obtain ⟨v, m', r, rfl, rfl, hr, hhead⟩ := matches_srcnatPorts.mp h
  exact matches_srcnatPorts.mpr ⟨v, m', r, rfl, rfl, hr,
    matches_srcnatPortsHead.mpr (matches_srcnatPortsHead.mp hhead)⟩

end words

end LogServer
