import LogServer.Lib.Framing
import LogServer.Text

/-!
# Lines over TCP

A connection delivers its stream in chunks of any size.  `SyslogTCP.dataReceived` appends a chunk
to the buffer, **cuts the buffer down to its last `MAX_LINE` bytes**, and then takes the lines that
are complete out of it.

The intention is that the lines do not depend on how the stream is cut into chunks.  They do, since
the cut is made before complete lines are taken out: a chunk that completes several lines can lose
the first of them.  `payloads_feed_iff` says exactly when a stream is read as intended: at every
call the bytes cut off must hold nothing but blank lines and, of the line the cut goes through, at
most a part of its octet count (`Spared`).  Whatever is lost, no payload joins the bytes of two lines
(`buffer_bounded_lines`).
-/

namespace LogServer

open Framing

def MAX_LINE : Nat := 64 * 1024

def NEWLINE : UInt8 := 10
def RETURN : UInt8 := 13
def BLANK : UInt8 := 32

def isDigitByte (b : UInt8) : Bool := 48 ≤ b && b ≤ 57

/-- Remove an octet count from the head of a line: up to six digits and a blank. -/
def _stripOctetCount (line : Bytes) : Bytes :=
  match line.idxOf? BLANK with
  | some sp => if 0 < sp ∧ sp ≤ 6 ∧ (line.take sp).all isDigitByte then line.drop (sp + 1) else line
  | none => line

def rstripReturn (line : Bytes) : Bytes := line.rdropWhile (· = RETURN)

def linePayload (line : Bytes) : Option Bytes :=
  if rstripReturn line = [] then none else some (_stripOctetCount (rstripReturn line))

/-- The loop that takes complete lines out of the buffer: the buffer it leaves, and the payloads it
passes on. -/
def takeLines (buf : Bytes) : Bytes × List Bytes :=
  match hidx : buf.idxOf? NEWLINE with
  | none => (buf, [])
  | some idx =>
      let line := rstripReturn (buf.take idx)
      let r := takeLines (buf.drop (idx + 1))
      (r.1, if line = [] then r.2 else _stripOctetCount line :: r.2)
termination_by buf.length
decreasing_by
  have hlt : idx < buf.length := by
    rw [List.idxOf?, List.findIdx?_eq_some_iff_getElem] at hidx
    exact hidx.1
  rw [List.length_drop]
  omega

namespace SyslogTCP

def trim (buf : Bytes) : Bytes := buf.drop (buf.length - MAX_LINE)

/-- A chunk arrives: the buffer afterwards, and the payloads handled. -/
def dataReceived (buf data : Bytes) : Bytes × List Bytes :=
  let buf := buf ++ data
  takeLines (if MAX_LINE < buf.length then trim buf else buf)

/-- A connection that delivers chunks one after another. -/
def feed (buf : Bytes) : List Bytes → Bytes × List Bytes
  | [] => (buf, [])
  | data :: chunks =>
      let r := dataReceived buf data
      let t := feed r.1 chunks
      (t.1, r.2 ++ t.2)

/-- What a stream should be read as: the payloads of its terminated lines. -/
def payloads (stream : Bytes) : List Bytes := (frames NEWLINE stream).filterMap linePayload

end SyslogTCP

/-! ## Payloads of lines -/

section lines

variable {line h r : Bytes}

theorem rstripReturn_eq_nil : rstripReturn line = [] ↔ ∀ b ∈ line, b = RETURN := by
  simp [rstripReturn, List.rdropWhile_eq_nil_iff]

/-- A line has a payload unless it is blank. -/
theorem linePayload_eq_none : linePayload line = none ↔ ∀ b ∈ line, b = RETURN := by
  rw [linePayload, ← rstripReturn_eq_nil]
  split
  · rename_i hnil
    exact iff_of_true rfl hnil
  · rename_i hne
    exact iff_of_false (Option.some_ne_none _) hne

/-- A line without carriage returns and blanks is its own payload. -/
theorem linePayload_of_notMem (hne : line ≠ []) (hreturn : RETURN ∉ line) (hblank : BLANK ∉ line) :
    linePayload line = some line := by
  have hstrip : rstripReturn line = line := by
    refine List.rdropWhile_eq_self_iff.mpr fun hl hlast ↦ hreturn ?_
    rw [← of_decide_eq_true hlast]
    exact List.getLast_mem hl
  rw [linePayload, hstrip, if_neg hne, _stripOctetCount, List.idxOf?_eq_none_iff.mpr hblank]

/-- If the end of a line has a payload, so has the line. -/
theorem isSome_linePayload_append (hr : (linePayload r).isSome) :
    (linePayload (h ++ r)).isSome := by
  rw [Option.isSome_iff_ne_none, ne_eq, linePayload_eq_none] at hr ⊢
  exact fun hall ↦ hr fun b hb ↦ hall b (List.mem_append_right h hb)

end lines

namespace SyslogTCP

variable {s t : Bytes}

theorem payloads_of_notMem (h : NEWLINE ∉ s) : payloads s = [] := by
  rw [payloads, frames_of_notMem h]
  rfl

theorem payloads_append_cons (h : NEWLINE ∉ s) :
    payloads (s ++ NEWLINE :: t) = (linePayload s).toList ++ payloads t := by
  rw [payloads, frames_append_cons h, List.filterMap_cons]
  cases linePayload s <;> rfl

end SyslogTCP

/-- **The loop takes the frames out of the buffer.** -/
theorem takeLines_eq (buf : Bytes) :
    takeLines buf = (remainder NEWLINE buf, SyslogTCP.payloads buf) := by
  induction buf using framing_induction NEWLINE with
  | last buf hbuf =>
      have hidx : buf.idxOf? NEWLINE = none := List.idxOf?_eq_none_iff.mpr hbuf
      rw [takeLines]
      split
      · rw [remainder_of_notMem hbuf, SyslogTCP.payloads, frames_of_notMem hbuf]
        rfl
      · rename_i heq
        rw [hidx] at heq
        cases heq
  | frame x y hx ih =>
      have hidx := idxOf?_append_cons (y := y) hx
      rw [takeLines]
      split
      · rename_i heq
        rw [hidx] at heq
        cases heq
      · rename_i idx heq
        obtain rfl : x.length = idx := Option.some.inj (hidx.symm.trans heq)
        have hdrop : (x ++ NEWLINE :: y).drop (x.length + 1) = y := by
          rw [← List.drop_drop, List.drop_left]
          rfl
        rw [List.take_left, hdrop, ih, remainder_append_cons hx,
          SyslogTCP.payloads_append_cons hx, linePayload]
        by_cases hblank : rstripReturn x = []
        · rw [if_pos hblank]
          simp only [hblank, if_true]
          rfl
        · rw [if_neg hblank]
          simp only [hblank, if_false]
          rfl

namespace SyslogTCP

/-! ## One call

`cut ++ kept` is the buffer with the chunk appended, and `cut` is what is cut off. -/

/-- What may be cut off without harm: blank lines, and, of the line the cut goes through, nothing
that changes its payload. -/
structure Spared (cut kept : Bytes) : Prop where
  lines : ∀ line ∈ frames NEWLINE cut, linePayload line = none
  head : ∀ r k, kept = r ++ NEWLINE :: k → NEWLINE ∉ r →
    linePayload (remainder NEWLINE cut ++ r) = linePayload r

section call

variable {cut kept s t : Bytes}

/-- A stream that arrives in two parts has the payloads of the first one, and then those of what
remains with the second one. -/
theorem payloads_append (s t : Bytes) :
    payloads (s ++ t) = payloads s ++ payloads (remainder NEWLINE s ++ t) := by
  rw [payloads, frames_append, List.filterMap_append]
  rfl

/-- Cutting off the beginning of a line loses its payload, if anything. -/
theorem length_payloads_le (kept : Bytes) (h : NEWLINE ∉ s) :
    (payloads kept).length ≤ (payloads (s ++ kept)).length := by
  by_cases hmem : NEWLINE ∈ kept
  · obtain ⟨r, k, rfl, hr⟩ := List.eq_append_cons_of_mem hmem
    have hsr : NEWLINE ∉ s ++ r := by
      rw [List.mem_append, not_or]
      exact ⟨h, hr⟩
    rw [← List.append_assoc, payloads_append_cons hr, payloads_append_cons hsr,
      List.length_append, List.length_append]
    cases hpayload : linePayload r with
    | none => simp
    | some p =>
        have hsome := isSome_linePayload_append (h := s) (r := r) (by rw [hpayload]; rfl)
        obtain ⟨q, hq⟩ := Option.isSome_iff_exists.mp hsome
        rw [hq]
        simp
  · rw [payloads_of_notMem hmem]
    exact Nat.zero_le _

/-- Cutting never adds payloads. -/
theorem length_payloads_kept_le (cut kept : Bytes) :
    (payloads kept).length ≤ (payloads (cut ++ kept)).length := by
  rw [payloads_append, List.length_append]
  have hle := length_payloads_le kept (notMem_remainder NEWLINE cut)
  omega

/-- **A cut leaves the payloads as they are exactly if it is harmless.** -/
theorem payloads_kept_eq_iff (cut kept : Bytes) :
    payloads kept = payloads (cut ++ kept) ↔ Spared cut kept := by
  have hrem := notMem_remainder NEWLINE cut
  rw [payloads_append]
  constructor
  · intro heq
    have hle := length_payloads_le kept hrem
    have hnil : payloads cut = [] := by
      have hlen := congrArg List.length heq
      rw [List.length_append] at hlen
      exact List.eq_nil_of_length_eq_zero (by omega)
    constructor
    · exact List.filterMap_eq_nil_iff.mp hnil
    · rintro r k rfl hr
      have hsr : NEWLINE ∉ remainder NEWLINE cut ++ r := by
        rw [List.mem_append, not_or]
        exact ⟨hrem, hr⟩
      rw [hnil, List.nil_append, ← List.append_assoc, payloads_append_cons hr,
        payloads_append_cons hsr, List.append_cancel_right_eq] at heq
      have hhead := congrArg List.head? heq
      rw [Option.head?_toList, Option.head?_toList] at hhead
      exact hhead.symm
  · rintro ⟨hlines, hhead⟩
    have hnil : payloads cut = [] := List.filterMap_eq_nil_iff.mpr hlines
    rw [hnil, List.nil_append]
    by_cases hmem : NEWLINE ∈ kept
    · obtain ⟨r, k, rfl, hr⟩ := List.eq_append_cons_of_mem hmem
      have hsr : NEWLINE ∉ remainder NEWLINE cut ++ r := by
        rw [List.mem_append, not_or]
        exact ⟨hrem, hr⟩
      rw [← List.append_assoc, payloads_append_cons hr, payloads_append_cons hsr,
        hhead r k rfl hr]
    · have hall : NEWLINE ∉ remainder NEWLINE cut ++ kept := by
        rw [List.mem_append, not_or]
        exact ⟨hrem, hmem⟩
      rw [payloads_of_notMem hmem, payloads_of_notMem hall]

end call

/-! ## Trimming -/

section trim

variable {s t : Bytes}

def cutOff (buf : Bytes) : Bytes := buf.take (buf.length - MAX_LINE)

theorem cutOff_append_trim (s : Bytes) : cutOff s ++ trim s = s := List.take_append_drop _ s

theorem trim_of_length_le (h : s.length ≤ MAX_LINE) : trim s = s := by
  rw [trim, Nat.sub_eq_zero_of_le h]
  rfl

theorem length_trim_le (s : Bytes) : (trim s).length ≤ MAX_LINE := by
  rw [trim, List.length_drop]
  omega

/-- Only the last bytes count. -/
theorem trim_append_of_le (h : MAX_LINE ≤ t.length) : trim (s ++ t) = trim t := by
  have hlen : (s ++ t).length - MAX_LINE = s.length + (t.length - MAX_LINE) := by
    rw [List.length_append]
    omega
  rw [trim, trim, hlen, ← List.drop_drop, List.drop_left]

/-- Trimming before more bytes arrive makes no difference. -/
theorem trim_trim_append (s t : Bytes) : trim (trim s ++ t) = trim (s ++ t) := by
  by_cases hs : s.length ≤ MAX_LINE
  · rw [trim_of_length_le hs]
  · have hlen : (trim s).length = MAX_LINE := by
      rw [trim, List.length_drop]
      omega
    have hle : MAX_LINE ≤ (trim s ++ t).length := by
      rw [List.length_append]
      omega
    rw [← trim_append_of_le (s := cutOff s) hle, ← List.append_assoc, cutOff_append_trim]

/-- **The unterminated rest of a trimmed stream** is the trimmed rest. -/
theorem remainder_trim (s : Bytes) : remainder NEWLINE (trim s) = trim (remainder NEWLINE s) := by
  by_cases hmem : NEWLINE ∈ trim s
  · -- The cut is made before the last newline, so the rest is not touched.
    have hrem : remainder NEWLINE s = remainder NEWLINE (trim s) := by
      obtain ⟨r, k, hk, hr⟩ := List.eq_append_cons_of_mem hmem
      have hsr : NEWLINE ∉ remainder NEWLINE (cutOff s) ++ r := by
        rw [List.mem_append, not_or]
        exact ⟨notMem_remainder NEWLINE (cutOff s), hr⟩
      conv_lhs => rw [← cutOff_append_trim s]
      rw [remainder_append, hk, ← List.append_assoc, remainder_append_cons hsr,
        remainder_append_cons hr]
    have hle : (remainder NEWLINE (trim s)).length ≤ MAX_LINE :=
      (remainder_suffix NEWLINE (trim s)).length_le.trans (length_trim_le s)
    rw [hrem, trim_of_length_le hle]
  · rw [remainder_of_notMem hmem]
    by_cases hs : s.length ≤ MAX_LINE
    · rw [trim_of_length_le hs] at hmem ⊢
      rw [remainder_of_notMem hmem, trim_of_length_le hs]
    · -- The cut is made after the last newline, so all that is kept is of the rest.
      obtain ⟨h, hh⟩ := suffix_remainder (List.drop_suffix _ s) hmem
      have hlen : (trim s).length = MAX_LINE := by
        rw [trim, List.length_drop]
        omega
      have hh' : h ++ trim s = remainder NEWLINE s := hh
      rw [← hh', trim_append_of_le hlen.ge, trim_of_length_le hlen.le]

end trim

/-! ## A connection -/

theorem dataReceived_eq (buf data : Bytes) :
    dataReceived buf data =
      (remainder NEWLINE (trim (buf ++ data)), payloads (trim (buf ++ data))) := by
  show takeLines (if MAX_LINE < (buf ++ data).length then trim (buf ++ data) else buf ++ data) = _
  split
  · exact takeLines_eq _
  · rename_i hle
    rw [takeLines_eq, trim_of_length_le (by omega)]

theorem feed_append (buf : Bytes) (chunks more : List Bytes) :
    feed buf (chunks ++ more) =
      ((feed (feed buf chunks).1 more).1, (feed buf chunks).2 ++ (feed (feed buf chunks).1 more).2) := by
  induction chunks generalizing buf with
  | nil => rfl
  | cons data chunks ih => simp only [List.cons_append, feed, ih, List.append_assoc]

/-- **The buffer** holds the end of the unterminated rest of the stream. -/
theorem buffer_feed (chunks : List Bytes) :
    (feed [] chunks).1 = trim (remainder NEWLINE chunks.flatten) := by
  induction chunks using List.reverseRecOn with
  | nil => rfl
  | append_singleton chunks data ih =>
      rw [feed_append, ih, feed, feed, dataReceived_eq, trim_trim_append, remainder_trim,
        ← remainder_append, List.flatten_append, List.flatten_singleton]

/-- The payloads of one more chunk. -/
theorem payloads_feed_snoc (chunks : List Bytes) (data : Bytes) :
    (feed [] (chunks ++ [data])).2 =
      (feed [] chunks).2 ++ payloads (trim (remainder NEWLINE chunks.flatten ++ data)) := by
  rw [feed_append, buffer_feed, feed, feed, dataReceived_eq, trim_trim_append, List.append_nil]

/-- No more payloads are handled than the stream has. -/
theorem length_payloads_feed_le (chunks : List Bytes) :
    (feed [] chunks).2.length ≤ (payloads chunks.flatten).length := by
  induction chunks using List.reverseRecOn with
  | nil => exact Nat.le_refl 0
  | append_singleton chunks data ih =>
      have hcall := length_payloads_kept_le (cutOff (remainder NEWLINE chunks.flatten ++ data))
        (trim (remainder NEWLINE chunks.flatten ++ data))
      rw [cutOff_append_trim] at hcall
      rw [payloads_feed_snoc, List.flatten_append, List.flatten_singleton, payloads_append,
        List.length_append, List.length_append]
      omega

/-- The payloads of a stream are those of its lines that are not blank. -/
theorem payloads_eq_map (s : Bytes) : payloads s =
    ((frames NEWLINE s).filter fun line ↦ rstripReturn line ≠ []).map fun line ↦
      _stripOctetCount (rstripReturn line) := by
  rw [payloads]
  induction frames NEWLINE s with
  | nil => rfl
  | cons line lines ih =>
      rw [List.filterMap_cons, linePayload]
      by_cases hblank : rstripReturn line = []
      · rw [if_pos hblank, List.filter_cons_of_neg (by simpa using hblank)]
        exact ih
      · rw [if_neg hblank, List.filter_cons_of_pos (by simpa using hblank), List.map_cons]
        exact congrArg (_ :: ·) ih

/-- What is handled are ends of lines that are not blank, in their order. -/
theorem exists_ends (chunks : List Bytes) : ∃ ends : List Bytes,
    List.SublistForall₂ (· <:+ ·) ends (frames NEWLINE chunks.flatten) ∧
      (∀ z ∈ ends, rstripReturn z ≠ []) ∧
      (feed [] chunks).2 = ends.map fun z ↦ _stripOctetCount (rstripReturn z) := by
  induction chunks using List.reverseRecOn with
  | nil => exact ⟨[], .nil, nofun, rfl⟩
  | append_singleton chunks data ih =>
      obtain ⟨ends, hends, hne, heq⟩ := ih
      let kept := trim (remainder NEWLINE chunks.flatten ++ data)
      let more := (frames NEWLINE kept).filter fun line ↦ rstripReturn line ≠ []
      have hmore : List.SublistForall₂ (· <:+ ·) more
          (frames NEWLINE (remainder NEWLINE chunks.flatten ++ data)) :=
        IsTrans.trans _ _ _ List.filter_sublist.sublistForall₂
          (sublistForall₂_frames (List.drop_suffix _ _))
      refine ⟨ends ++ more, ?_, ?_, ?_⟩
      · rw [List.flatten_append, List.flatten_singleton, frames_append]
        obtain ⟨lines, hlines, hsublist⟩ := List.sublistForall₂_iff.mp hends
        obtain ⟨lines', hlines', hsublist'⟩ := List.sublistForall₂_iff.mp hmore
        exact List.sublistForall₂_iff.mpr
          ⟨lines ++ lines', List.rel_append hlines hlines', hsublist.append hsublist'⟩
      · intro z hz
        rcases List.mem_append.mp hz with hz | hz
        · exact hne z hz
        · exact of_decide_eq_true (List.mem_filter.mp hz).2
      · rw [payloads_feed_snoc, heq, payloads_eq_map, List.map_append]

/-- **The buffer is bounded, and never splices lines.**  However a stream is cut into chunks, the buffer
stays within its bound and has no newline, and the payloads handled are those of ends of lines of the
stream, none of them blank, of each line at most one and in the order of the lines. -/
theorem buffer_bounded_lines (chunks : List Bytes) :
    ((feed [] chunks).1.length ≤ MAX_LINE ∧ NEWLINE ∉ (feed [] chunks).1) ∧
      ∃ ends : List Bytes,
        List.SublistForall₂ (· <:+ ·) ends (frames NEWLINE chunks.flatten) ∧
          (∀ z ∈ ends, rstripReturn z ≠ []) ∧
          (feed [] chunks).2 = ends.map fun z ↦ _stripOctetCount (rstripReturn z) := by
  refine ⟨?_, exists_ends chunks⟩
  rw [buffer_feed]
  exact ⟨length_trim_le _, fun hmem ↦
    notMem_remainder NEWLINE chunks.flatten ((List.drop_suffix _ _).subset hmem)⟩

/-- **When the lines do not depend on the chunks.**  A stream that arrives in chunks is read as the
payloads of its terminated lines, in order and each once, exactly if at each chunk what exceeds
`MAX_LINE` bytes, of the unterminated rest and the chunk, can be spared. -/
theorem payloads_feed_iff (chunks : List Bytes) :
    (feed [] chunks).2 = payloads chunks.flatten ↔
      ∀ before data after, chunks = before ++ data :: after →
        Spared (cutOff (remainder NEWLINE before.flatten ++ data))
          (trim (remainder NEWLINE before.flatten ++ data)) := by
  induction chunks using List.reverseRecOn with
  | nil =>
      refine iff_of_true rfl fun before data after h ↦ ?_
      cases before <;> cases h
  | append_singleton chunks data ih =>
      have hcall := payloads_kept_eq_iff (cutOff (remainder NEWLINE chunks.flatten ++ data))
        (trim (remainder NEWLINE chunks.flatten ++ data))
      rw [cutOff_append_trim] at hcall
      rw [payloads_feed_snoc, List.flatten_append, List.flatten_singleton, payloads_append]
      constructor
      · intro heq before data' after hsplit
        obtain ⟨hinit, hlast⟩ := List.append_inj heq (by
          have hcount := length_payloads_feed_le chunks
          have hle := length_payloads_kept_le (cutOff (remainder NEWLINE chunks.flatten ++ data))
            (trim (remainder NEWLINE chunks.flatten ++ data))
          have hlen := congrArg List.length heq
          rw [cutOff_append_trim] at hle
          rw [List.length_append, List.length_append] at hlen
          omega)
        rcases List.eq_nil_or_concat' after with rfl | ⟨after, last, rfl⟩
        · obtain ⟨rfl, hdata⟩ := List.append_inj' hsplit rfl
          obtain rfl := List.singleton_inj.mp hdata
          exact hcall.mp hlast
        · rw [← List.cons_append, ← List.append_assoc] at hsplit
          obtain ⟨rfl, -⟩ := List.append_inj' hsplit rfl
          exact ih.mp hinit before data' after rfl
      · intro hspared
        have hinit := ih.mpr fun before data' after h ↦
          hspared before data' (after ++ [data]) (by rw [h]; simp)
        rw [hinit, hcall.mpr (hspared chunks data [] rfl)]

/-- Two lines, each within the bound, arrive in one chunk: the first one is lost. -/
theorem payloads_feed_two_lines :
    (∀ line ∈ frames NEWLINE (97 :: NEWLINE :: (List.replicate 65535 98 ++ [NEWLINE])),
        line.length + 1 ≤ MAX_LINE) ∧
      payloads (97 :: NEWLINE :: (List.replicate 65535 98 ++ [NEWLINE])) =
        [[97], List.replicate 65535 98] ∧
      (feed [] [97 :: NEWLINE :: (List.replicate 65535 98 ++ [NEWLINE])]).2 =
        [List.replicate 65535 98] := by
  have hlong : ∀ b : UInt8, b ≠ 98 → b ∉ List.replicate 65535 (98 : UInt8) := fun b hb h ↦
    hb (List.eq_of_mem_replicate h)
  have hsecond : linePayload (List.replicate 65535 98) = some (List.replicate 65535 98) :=
    linePayload_of_notMem (List.ne_nil_of_length_pos (by rw [List.length_replicate]; decide))
      (hlong _ (by decide)) (hlong _ (by decide))
  have hkept : payloads (List.replicate 65535 98 ++ [NEWLINE]) = [List.replicate 65535 98] := by
    rw [payloads_append_cons (hlong _ (by decide)), hsecond]
    rfl
  have hlen : (List.replicate 65535 98 ++ [NEWLINE]).length = MAX_LINE := by
    rw [List.length_append, List.length_replicate]
    rfl
  refine ⟨?_, ?_, ?_⟩
  · have hframes : frames NEWLINE (97 :: NEWLINE :: (List.replicate 65535 98 ++ [NEWLINE])) =
        [[97], List.replicate 65535 98] := by
      have hhead : NEWLINE ∉ [(97 : UInt8)] := by decide
      rw [show 97 :: NEWLINE :: (List.replicate 65535 98 ++ [NEWLINE]) =
        [97] ++ NEWLINE :: (List.replicate 65535 98 ++ [NEWLINE]) from rfl,
        frames_append_cons hhead, frames_append_cons (hlong _ (by decide))]
      rfl
    rw [hframes]
    intro line hline
    simp only [List.mem_cons, List.not_mem_nil, or_false] at hline
    rcases hline with rfl | rfl
    · decide
    · rw [List.length_replicate]
      decide
  · have hfirst : linePayload [97] = some [97] :=
      linePayload_of_notMem (by decide) (by decide) (by decide)
    rw [show 97 :: NEWLINE :: (List.replicate 65535 98 ++ [NEWLINE]) =
      [97] ++ NEWLINE :: (List.replicate 65535 98 ++ [NEWLINE]) from rfl,
      payloads_append_cons (by decide), hfirst, hkept]
    rfl
  · have htrim : trim (97 :: NEWLINE :: (List.replicate 65535 98 ++ [NEWLINE])) =
        List.replicate 65535 98 ++ [NEWLINE] :=
      (trim_append_of_le (s := [97, NEWLINE]) hlen.ge).trans (trim_of_length_le hlen.le)
    rw [feed, feed, dataReceived_eq, List.nil_append, htrim, hkept]
    rfl

end SyslogTCP

end LogServer
