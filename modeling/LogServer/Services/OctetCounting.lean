import LogServer.Parser.Prefix
import LogServer.Services.SyslogTCP

/-!
# Octet-counted frames over TCP

A sender may count its messages instead of ending them with a newline: the length in decimal digits, a
blank, the message, and at once the next count.  `SyslogTCP.dataReceived` removes counts, but from the
lines it has found, and a stream of such frames has no lines.  So nothing of it is ever handled
(`payloads_feed_of_notMem`), and the frames are read as intended exactly if there are none
(`feed_octetCounted_iff`).

What the receiver does read is a counted message that ends with a newline all the same
(`linePayload_octetFrame`).  And what is removed from a line that was not counted changes nothing of what
the parser makes of it (`octet_count_transparent`).
-/

namespace LogServer

open Framing

def octetCount (message : Bytes) : Bytes :=
  (Nat.toDigits 10 message.length).map fun c ↦ UInt8.ofNat c.toNat

def octetFrame (message : Bytes) : Bytes := octetCount message ++ BLANK :: message

def octetCounted (messages : List Bytes) : Bytes := messages.flatMap octetFrame

/-! ## Counts -/

section count

variable {message : Bytes} {b : UInt8}

/-- A count consists of digits. -/
theorem isDigitByte_of_mem_octetCount (h : b ∈ octetCount message) : isDigitByte b = true := by
  obtain ⟨c, hc, rfl⟩ := List.mem_map.mp h
  have hdigit : c.isDigit = true := Nat.isDigit_of_mem_toDigits (by decide) (by decide) hc
  simp only [Char.isDigit, Bool.and_eq_true, decide_eq_true_eq, ge_iff_le,
    UInt32.le_iff_toNat_le] at hdigit
  have hlow : 48 ≤ c.toNat := hdigit.1
  have hhigh : c.toNat ≤ 57 := hdigit.2
  have hval : (UInt8.ofNat c.toNat).toNat = c.toNat := by
    rw [UInt8.toNat_ofNat']
    exact Nat.mod_eq_of_lt (by omega)
  simp only [isDigitByte, Bool.and_eq_true, decide_eq_true_eq, UInt8.le_iff_toNat_le, hval]
  exact ⟨hlow, hhigh⟩

theorem notMem_octetCount (h : isDigitByte b = false) : b ∉ octetCount message := by
  intro hmem
  rw [isDigitByte_of_mem_octetCount hmem] at h
  cases h

/-- Messages without newlines are counted without newlines. -/
theorem newline_notMem_octetCounted {messages : List Bytes}
    (h : ∀ message ∈ messages, NEWLINE ∉ message) : NEWLINE ∉ octetCounted messages := by
  intro hmem
  obtain ⟨message, hmessage, hframe⟩ := List.mem_flatMap.mp hmem
  rw [octetFrame, List.mem_append, List.mem_cons] at hframe
  rcases hframe with hcount | hblank | hrest
  · exact notMem_octetCount (by decide) hcount
  · cases hblank
  · exact h message hmessage hrest

/-- A count of up to six digits is removed from a line. -/
theorem _stripOctetCount_octetFrame (h : message.length < 10 ^ 6) :
    _stripOctetCount (octetFrame message) = message := by
  have hlength : (octetCount message).length ≤ 6 := by
    rw [octetCount, List.length_map]
    exact Nat.length_toDigits_le_iff (by decide) (by decide) |>.mpr h
  have hpos : 0 < (octetCount message).length := by
    rw [octetCount, List.length_map]
    exact Nat.length_toDigits_pos
  have hall : (octetCount message).all isDigitByte = true :=
    List.all_eq_true.mpr fun b hb ↦ isDigitByte_of_mem_octetCount hb
  rw [_stripOctetCount, octetFrame, idxOf?_append_cons (notMem_octetCount (by decide))]
  dsimp only
  rw [List.take_left, if_pos ⟨hpos, hlength, hall⟩, ← List.drop_drop, List.drop_left]
  rfl

/-- **A counted message on a line of its own** is read, if it does not end with a carriage return. -/
theorem linePayload_octetFrame (h : message.length < 10 ^ 6)
    (hreturn : ∀ b ∈ message.getLast?, b ≠ RETURN) :
    linePayload (octetFrame message) = some message := by
  have hne : octetFrame message ≠ [] := List.append_ne_nil_of_right_ne_nil _ (List.cons_ne_nil _ _)
  have hstrip : rstripReturn (octetFrame message) = octetFrame message := by
    refine List.rdropWhile_eq_self_iff.mpr fun hl hlast ↦ ?_
    rw [decide_eq_true_eq] at hlast
    have hlast' : (octetFrame message).getLast? = some RETURN := by
      rw [List.getLast?_eq_some_getLast hl, hlast]
    rw [octetFrame, List.getLast?_append, List.getLast?_cons] at hlast'
    cases hmessage : message.getLast? with
    | none =>
        rw [hmessage] at hlast'
        cases hlast'
    | some b =>
        rw [hmessage] at hlast'
        exact hreturn b hmessage (Option.some.inj hlast')
  rw [linePayload, hstrip, if_neg hne, _stripOctetCount_octetFrame h]

end count

/-! ## What is removed from a line -/

section transparent

variable {count rest : Bytes}

theorem isDigit_of_isDigitByte {b : UInt8} (h : isDigitByte b = true) :
    (Char.ofNat b.toNat).isDigit = true := by
  have hdigit : ∀ n ≤ 57, 48 ≤ n → (Char.ofNat n).isDigit = true := by decide
  simp only [isDigitByte, Bool.and_eq_true, decide_eq_true_eq, UInt8.le_iff_toNat_le] at h
  exact hdigit b.toNat h.2 h.1

/-- A count is decoded byte by byte. -/
theorem decodeUtf8_count (h : ∀ b ∈ count, isDigitByte b = true) :
    decodeUtf8 (count ++ BLANK :: rest) =
      count.map (fun b ↦ Char.ofNat b.toNat) ++ [' '] ++ decodeUtf8 rest := by
  induction count with
  | nil => exact decodeUtf8_cons (by decide)
  | cons b count ih =>
      rw [List.forall_mem_cons] at h
      have hascii : b < 0x80 := by
        have hle := h.1
        simp only [isDigitByte, Bool.and_eq_true, decide_eq_true_eq] at hle
        exact UInt8.lt_of_le_of_lt hle.2 (by decide)
      rw [List.cons_append, decodeUtf8_cons hascii, ih h.2]
      rfl

/-- From a line nothing is removed, or digits and a blank. -/
theorem _stripOctetCount_cases (line : Bytes) : _stripOctetCount line = line ∨
    ∃ count, (∀ b ∈ count, isDigitByte b = true) ∧ line = count ++ BLANK :: _stripOctetCount line := by
  rw [_stripOctetCount]
  cases hblank : line.idxOf? BLANK with
  | none => exact .inl rfl
  | some sp =>
      dsimp only
      split
      · rename_i hcount
        obtain ⟨hlt, hget, -⟩ := List.idxOf?_eq_some_iff.mp hblank
        refine .inr ⟨line.take sp, List.all_eq_true.mp hcount.2.2, ?_⟩
        rw [← hget, ← List.drop_eq_getElem_cons hlt, List.take_append_drop]
      · exact .inl rfl

/-- **Removing an octet count never changes what is parsed**, for a line that was counted as for one
that begins with a number. -/
theorem octet_count_transparent (self : MikroTikParser) (u : CharTable) (line : Bytes) :
    self.parseBytes u (_stripOctetCount line) = self.parseBytes u line := by
  rcases _stripOctetCount_cases line with hline | ⟨count, hcount, hline⟩
  · rw [hline]
  · have hdigits : ∀ c ∈ count.map fun b ↦ Char.ofNat b.toNat, c.isDigit = true := by
      intro c hc
      obtain ⟨b, hb, rfl⟩ := List.mem_map.mp hc
      exact isDigit_of_isDigitByte (hcount b hb)
    have hdecode : decodeUtf8 line = _ := (congrArg decodeUtf8 hline).trans (decodeUtf8_count hcount)
    rw [MikroTikParser.parseBytes, MikroTikParser.parseBytes, hdecode, parse_number hdigits]

end transparent

/-! ## Streams of counted messages -/

namespace SyslogTCP

/-- **A stream without newlines is never handled.** -/
theorem payloads_feed_of_notMem {chunks : List Bytes} (h : NEWLINE ∉ chunks.flatten) :
    (feed [] chunks).2 = [] := by
  have hle := length_payloads_feed_le chunks
  rw [payloads_of_notMem h] at hle
  exact List.eq_nil_of_length_eq_zero (Nat.le_zero.mp hle)

/-- **When octet-counted framing is decoded.**  However the stream of counted messages is cut into
chunks, the messages are handled in order and each once exactly if there is no message. -/
theorem feed_octetCounted_iff (messages chunks : List Bytes)
    (hmessages : ∀ message ∈ messages,
      message ≠ [] ∧ message.length ≤ 60000 ∧ NEWLINE ∉ message)
    (hchunks : chunks.flatten = octetCounted messages) :
    (feed [] chunks).2 = messages ↔ messages = [] := by
  have hnewline : NEWLINE ∉ chunks.flatten := by
    rw [hchunks]
    exact newline_notMem_octetCounted fun message hmessage ↦ (hmessages message hmessage).2.2
  rw [payloads_feed_of_notMem hnewline]
  exact eq_comm

/-- Two messages in one chunk. -/
theorem feed_octetCounted_session :
    (feed [] [octetCounted [[97], [98, 99]]]).2 = [[97], [98, 99]] ↔
      [[97], [98, 99]] = ([] : List Bytes) :=
  feed_octetCounted_iff [[97], [98, 99]] [octetCounted [[97], [98, 99]]]
    (by decide) (List.flatten_singleton)

/-- **A counted message is not handled.** -/
theorem feed_octetCounted_single : octetCounted [[97]] = [49, 32, 97] ∧
    (feed [] [octetCounted [[97]]]).2 ≠ [[97]] := by
  have hcounted : octetCounted [[97]] = [49, 32, 97] := by decide +kernel
  refine ⟨hcounted, ?_⟩
  rw [payloads_feed_of_notMem (by rw [List.flatten_singleton, hcounted]; decide)]
  exact List.cons_ne_nil _ _ ∘ Eq.symm

end SyslogTCP

end LogServer
