import LogServer.Parser.Base
import LogServer.Parser.Patterns

/-!
# MikroTik firewall/NAT syslog parser

The parser locates the segments it needs anywhere in a payload: the address tuple by the patterns
of the registry, behind a substring probe for `NAT`; the interface and the protocol by `find` and
slicing, with a pattern for the uncommon spellings.

* `endpoints_sound`: whatever the payload, the addresses taken from it are canonical and the port
  texts are runs of decimal digits.
* `_parse_ok`: hence the conversions to `int` cannot fail, and `DECODE` is never the reason.
* `parse_sound`: an accepted event has canonical addresses and ports below 65536.
-/

namespace LogServer

open Regex Substring

structure MikroTikParser where
  requireNat : Bool := true
  subscriberFromInterface : Bool := false
deriving DecidableEq, Repr

structure Endpoints where
  pri : Text
  priPort : Text
  pub : Text
  pubPort : Text
  dst : Text
  dstPort : Text
deriving DecidableEq, Repr

def PROTO_END : List Char := " ,()\t\r\n".toList

def groupText (m : Found Char Group) (g : Group) : Text := (m.group g).getD []

/-- The protocol under the name the log table uses for it. -/
def normaliseProtocol (u : CharTable) (raw : Text) : Text :=
  if isdigit u raw then (PROTO_NUMBERS.lookup raw).getD raw else upper u raw

def _protocol (u : CharTable) (payload : Text) : Text :=
  match find "proto ".toList payload with
  | none =>
      match (protocolPattern u).search payload with
      | none => []
      | some m => normaliseProtocol u ((m.group ()).getD [])
  | some i =>
      let raw := (payload.drop (i + 6)).takeWhile fun c ↦ c ∉ PROTO_END
      if raw = [] then [] else normaliseProtocol u raw

namespace MikroTikParser

variable (self : MikroTikParser) (u : CharTable)

/-- The interface name the subscriber is taken from. -/
def interface (payload : Text) : Text :=
  match find "in:<".toList payload with
  | some i =>
      match find ">".toList (payload.drop (i + 4)) with
      | some j => (payload.drop (i + 4)).take j
      | none => []
  | none =>
      match (inInterface u).search payload with
      | none => []
      | some m => (m.group ()).getD []

/-- The subscriber of a payload: the session name of its interface. -/
def _subscriber (payload : Text) : Text :=
  let iface := interface u payload
  if iface = [] then []
  else
    match SUBSCRIBER_PREFIXES.find? (·.isPrefixOf iface) with
    | some pfx => iface.drop pfx.length
    | none => if self.subscriberFromInterface then iface else []

/-- The tuple of a payload, or the reason why there is none. -/
def endpoints (payload : Text) : Except Text Endpoints :=
  if (find "NAT".toList payload).isSome then
    match (srcnatPorts u).search payload with
    | some m =>
        let g := groupText m
        .ok ⟨g .pri, g .priPort, g .pub, g .pubPort, g .dst, g .dstPort⟩
    | none =>
        match (srcnatNoports u).search payload with
        | none => .error NO_MATCH
        | some m =>
            let g := groupText m
            .ok ⟨g .pri, ['0'], g .pub, ['0'], g .dst, ['0']⟩
  else if self.requireNat then .error NO_NAT
  else
    match (plainPorts u).search payload with
    | some m =>
        let g := groupText m
        .ok ⟨g .pri, g .priPort, g .pri, g .priPort, g .dst, g .dstPort⟩
    | none =>
        match (plainNoports u).search payload with
        | none => .error NO_MATCH
        | some m =>
            let g := groupText m
            .ok ⟨g .pri, ['0'], g .pri, ['0'], g .dst, ['0']⟩

/-- The event of a payload with its reason code, empty when there is an event. -/
def _parse (payload : Text) : Except PyError (Option ParsedLog × Text) :=
  match self.endpoints u payload with
  | .error reason => .ok (none, reason)
  | .ok e => do
      let priP ← int u e.priPort
      let pubP ← int u e.pubPort
      let dstP ← int u e.dstPort
      if priP > 65535 ∨ pubP > 65535 ∨ dstP > 65535 then return (none, NO_MATCH)
      return (some
        { privateIp := e.pri, privatePort := priP, publicIp := e.pub, publicPort := pubP,
          destIp := e.dst, destPort := dstP, protocol := _protocol u payload,
          subscriberId := self._subscriber u payload }, [])

/-- `_parse`, with any exception turned into a reason code. -/
def parse (payload : Text) : Option ParsedLog × Text :=
  match self._parse u payload with
  | .ok r => r
  | .error _ => (none, DECODE)

def parseBytes (payload : Bytes) : Option ParsedLog × Text := self.parse u (decodeUtf8 payload)

end MikroTikParser

/-! ## What is taken from a payload -/

/-- Canonical addresses and ports that `int` can read. -/
structure Endpoints.WellFormed (u : CharTable) (e : Endpoints) : Prop where
  pri : IsIpv4 e.pri
  pub : IsIpv4 e.pub
  dst : IsIpv4 e.dst
  priPort : IsPortText u e.priPort
  pubPort : IsPortText u e.pubPort
  dstPort : IsPortText u e.dstPort

variable {u : CharTable}

theorem isPortText_zero : IsPortText u ['0'] :=
  ⟨by decide, by decide, by simp [u.isDecimal_of_isDigit (by decide : '0'.isDigit = true)]⟩

theorem IsPortText.int_eq {p : Text} (h : IsPortText u p) : int u p = .ok (digitsValue u p) :=
  int_ok (List.length_pos_iff.mp h.1) h.2.2

/-- **What is taken from a payload is well formed.** -/
theorem endpoints_sound {self : MikroTikParser} {payload : Text} {e : Endpoints}
    (h : self.endpoints u payload = .ok e) : e.WellFormed u := by
  have h0 := isPortText_zero (u := u)
  unfold MikroTikParser.endpoints at h
  split at h
  · split at h
    · rename_i m hm
      obtain ⟨v, m', dp, -, hg, hdp, hhead⟩ := matches_srcnatPorts.mp (search_sound hm).2
      obtain ⟨s, -, pri, pub, dst, p, q, hp, hq, -, rfl⟩ := matches_srcnatPortsHead.mp hhead
      cases h
      simp only [groupText, Found.group, hg]
      exact ⟨⟨pri, rfl⟩, ⟨pub, rfl⟩, ⟨dst, rfl⟩, hp, hq, hdp⟩
    · split at h
      · cases h
      · rename_i m hm
        obtain ⟨-, s, -, pri, pub, dst, -, hg⟩ := matches_srcnatNoports.mp (search_sound hm).2
        cases h
        simp only [groupText, Found.group, hg]
        exact ⟨⟨pri, rfl⟩, ⟨pub, rfl⟩, ⟨dst, rfl⟩, h0, h0, h0⟩
  · split at h
    · cases h
    · split at h
      · rename_i m hm
        obtain ⟨v, m', dp, -, hg, hdp, hhead⟩ := matches_plainPorts.mp (search_sound hm).2
        obtain ⟨-, pri, dst, p, hp, -, rfl⟩ := matches_plainPortsHead.mp hhead
        cases h
        simp only [groupText, Found.group, hg]
        exact ⟨⟨pri, rfl⟩, ⟨pri, rfl⟩, ⟨dst, rfl⟩, hp, hp, hdp⟩
      · split at h
        · cases h
        · rename_i m hm
          obtain ⟨-, -, pri, dst, -, hg⟩ := matches_plainNoports.mp (search_sound hm).2
          cases h
          simp only [groupText, Found.group, hg]
          exact ⟨⟨pri, rfl⟩, ⟨pri, rfl⟩, ⟨dst, rfl⟩, h0, h0, h0⟩

/-- `_parse` once the tuple is known: the range check on the ports. -/
theorem _parse_of_endpoints {self : MikroTikParser} {payload : Text} {e : Endpoints}
    (h : self.endpoints u payload = .ok e) :
    self._parse u payload = .ok
      (if digitsValue u e.priPort > 65535 ∨ digitsValue u e.pubPort > 65535 ∨
          digitsValue u e.dstPort > 65535 then (none, NO_MATCH)
       else (some
        { privateIp := e.pri, privatePort := digitsValue u e.priPort, publicIp := e.pub,
          publicPort := digitsValue u e.pubPort, destIp := e.dst,
          destPort := digitsValue u e.dstPort, protocol := _protocol u payload,
          subscriberId := self._subscriber u payload }, [])) := by
  have hwf := endpoints_sound h
  simp only [MikroTikParser._parse, h, hwf.priPort.int_eq, hwf.pubPort.int_eq, hwf.dstPort.int_eq]
  show (if _ then _ else _) = _
  split <;> rfl

/-- **The parser never raises.** -/
theorem _parse_ok (self : MikroTikParser) (payload : Text) :
    self._parse u payload = .ok (self.parse u payload) := by
  cases h : self.endpoints u payload with
  | error reason => simp [MikroTikParser.parse, MikroTikParser._parse, h]
  | ok e => rw [MikroTikParser.parse, _parse_of_endpoints h]

/-- The event of a tuple with its ports in range. -/
def MikroTikParser.event (self : MikroTikParser) (u : CharTable) (payload : Text) (e : Endpoints) :
    Option ParsedLog :=
  if digitsValue u e.priPort > 65535 ∨ digitsValue u e.pubPort > 65535 ∨
      digitsValue u e.dstPort > 65535 then none
  else some
    { privateIp := e.pri, privatePort := digitsValue u e.priPort, publicIp := e.pub,
      publicPort := digitsValue u e.pubPort, destIp := e.dst,
      destPort := digitsValue u e.dstPort, protocol := _protocol u payload,
      subscriberId := self._subscriber u payload }

/-- The event of a payload is that of its tuple. -/
theorem parse_fst (self : MikroTikParser) (payload : Text) :
    (self.parse u payload).1 = (self.endpoints u payload).toOption.bind (self.event u payload) := by
  have hok := _parse_ok (u := u) self payload
  cases he : self.endpoints u payload with
  | error reason =>
      simp only [MikroTikParser._parse, he, Except.ok.injEq] at hok
      rw [← hok]
      rfl
  | ok e =>
      rw [_parse_of_endpoints he, Except.ok.injEq] at hok
      rw [← hok, apply_ite Prod.fst]
      rfl

/-- The protocol of an accepted event is that of its payload. -/
theorem protocol_of_parse {self : MikroTikParser} {payload : Text} {log : ParsedLog}
    (h : (self.parse u payload).1 = some log) : log.protocol = _protocol u payload := by
  rw [parse_fst] at h
  obtain ⟨e, -, hevent⟩ := Option.bind_eq_some_iff.mp h
  rw [MikroTikParser.event] at hevent
  split at hevent
  · cases hevent
  · cases hevent
    rfl

/-! ## How long the texts are -/

/-- Texts of an event that are encoded in so many bytes. -/
structure ParsedLog.Within (log : ParsedLog) (n : Nat) : Prop where
  privateIp : (encodeUtf8 log.privateIp).length ≤ n
  publicIp : (encodeUtf8 log.publicIp).length ≤ n
  destIp : (encodeUtf8 log.destIp).length ≤ n
  protocol : (encodeUtf8 log.protocol).length ≤ n
  subscriberId : (encodeUtf8 log.subscriberId).length ≤ n

/-- What is taken from a payload stands in it. -/
theorem endpoints_infix {self : MikroTikParser} {payload : Text} {e : Endpoints}
    (h : self.endpoints u payload = .ok e) : e.pri <:+: payload ∧ e.pub <:+: payload ∧
      e.dst <:+: payload := by
  have hgroup : ∀ {r : Re Char Group} {m}, r.search payload = some m →
      ∀ g, groupText m g <:+: payload := fun hm g ↦ infix_of_search hm g
  unfold MikroTikParser.endpoints at h
  split at h
  · split at h
    · rename_i m hm
      cases h
      exact ⟨hgroup hm _, hgroup hm _, hgroup hm _⟩
    · split at h
      · cases h
      · rename_i m hm
        cases h
        exact ⟨hgroup hm _, hgroup hm _, hgroup hm _⟩
  · split at h
    · cases h
    · split at h
      · rename_i m hm
        cases h
        exact ⟨hgroup hm _, hgroup hm _, hgroup hm _⟩
      · split at h
        · cases h
        · rename_i m hm
          cases h
          exact ⟨hgroup hm _, hgroup hm _, hgroup hm _⟩

/-- A name of a protocol is no more than four characters for one of its number. -/
theorem length_normaliseProtocol_le (raw : Text) :
    (normaliseProtocol u raw).length ≤ 4 * raw.length := by
  have hnames : ∀ p ∈ PROTO_NUMBERS, p.2.length ≤ 4 * p.1.length := by decide
  rw [normaliseProtocol]
  split
  · cases hlookup : PROTO_NUMBERS.lookup raw with
    | none => exact Nat.le_mul_of_pos_left _ (by decide)
    | some name =>
        obtain ⟨l₁, l₂, hsplit, -⟩ := List.lookup_eq_some_iff.mp hlookup
        exact hnames (raw, name) (by rw [hsplit]; simp)
  · have hupper := length_upper_le (u := u) raw
    omega

theorem length_protocol_le (payload : Text) : (_protocol u payload).length ≤ 4 * payload.length := by
  have hraw : ∀ raw : Text, raw.length ≤ payload.length →
      (normaliseProtocol u raw).length ≤ 4 * payload.length := by
    intro raw hle
    have hnorm := length_normaliseProtocol_le (u := u) raw
    omega
  rw [_protocol]
  split
  · split
    · exact Nat.zero_le _
    · rename_i m hm
      exact hraw _ (infix_of_search hm ()).length_le
  · dsimp only
    split
    · exact Nat.zero_le _
    · refine hraw _ ((List.takeWhile_prefix _).length_le.trans ?_)
      rw [List.length_drop]
      exact Nat.sub_le _ _

theorem interface_infix (payload : Text) : MikroTikParser.interface u payload <:+: payload := by
  rw [MikroTikParser.interface]
  split
  · split
    · exact (List.take_prefix _ _).isInfix.trans (List.drop_suffix _ _).isInfix
    · exact List.nil_infix
  · split
    · exact List.nil_infix
    · rename_i m hm
      exact infix_of_search hm ()

theorem infix_of_subscriber (self : MikroTikParser) (payload : Text) :
    self._subscriber u payload <:+: payload := by
  have hiface := interface_infix (u := u) payload
  rw [MikroTikParser._subscriber]
  split
  · exact List.nil_infix
  · split
    · exact (List.drop_suffix _ _).isInfix.trans hiface
    · split
      · exact hiface
      · exact List.nil_infix

/-- **The texts of an event are not much longer than its payload**: sixteen bytes for a character at
the most. -/
theorem within_of_parse {self : MikroTikParser} {payload : Text} {log : ParsedLog}
    (h : (self.parse u payload).1 = some log) : log.Within (16 * payload.length) := by
  have hbytes : ∀ t : Text, t.length ≤ 4 * payload.length →
      (encodeUtf8 t).length ≤ 16 * payload.length := by
    intro t ht
    have hle := length_encodeUtf8_le t
    omega
  have hinside : ∀ t : Text, t <:+: payload → (encodeUtf8 t).length ≤ 16 * payload.length := by
    intro t ht
    have hle := ht.length_le
    exact hbytes t (by omega)
  rw [parse_fst] at h
  obtain ⟨e, he, hevent⟩ := Option.bind_eq_some_iff.mp h
  cases hok : self.endpoints u payload with
  | error reason =>
      rw [hok] at he
      cases he
  | ok e' =>
      rw [hok] at he
      obtain rfl := Option.some.inj he
      obtain ⟨hpri, hpub, hdst⟩ := endpoints_infix hok
      rw [MikroTikParser.event] at hevent
      split at hevent
      · cases hevent
      · cases hevent
        exact ⟨hinside _ hpri, hinside _ hpub, hinside _ hdst, hbytes _ (length_protocol_le payload),
          hinside _ (infix_of_subscriber self payload)⟩

/-! ## What is accepted -/

/-- What holds of every accepted event. -/
structure ParsedLog.WellFormed (log : ParsedLog) : Prop where
  privateIp : IsIpv4 log.privateIp
  publicIp : IsIpv4 log.publicIp
  destIp : IsIpv4 log.destIp
  privatePort : log.privatePort ≤ 65535
  publicPort : log.publicPort ≤ 65535
  destPort : log.destPort ≤ 65535

/-- **An accepted event is well formed.** -/
theorem parse_sound {self : MikroTikParser} {payload : Text} {log : ParsedLog} {reason : Text}
    (h : self.parse u payload = (some log, reason)) : log.WellFormed := by
  have hok := _parse_ok (u := u) self payload
  rw [h] at hok
  cases he : self.endpoints u payload with
  | error r => simp [MikroTikParser._parse, he] at hok
  | ok e =>
      have hwf := endpoints_sound he
      rw [_parse_of_endpoints he] at hok
      split at hok
      · simp at hok
      · rename_i hports
        simp only [not_or, Nat.not_lt, gt_iff_lt] at hports
        simp only [Except.ok.injEq, Prod.mk.injEq, Option.some.injEq] at hok
        obtain ⟨rfl, -⟩ := hok
        exact ⟨hwf.pri, hwf.pub, hwf.dst, hports.1, hports.2.1, hports.2.2⟩

end LogServer
