import LogServer.Database.Meta
import LogServer.Queue.Msgpack
import LogServer.Services.Ingest
import LogServer.Services.Worker

/-!
# Rows from the receiver to the log table

A record is written as a positional row by `ParsedLog.asRow`, packed and unpacked by the queue,
given a `datetime` by `BatchWorker._decode`, and matched with `COLUMNS` by position.  These layouts
are written down in different places; `handle_insertable` is that they agree, for every payload the
receiver accepts, and that every column takes its value.
-/

namespace LogServer

variable {δ : Type}

/-! ## Alignment -/

def ParsedLog.inserted (log : ParsedLog) (d : δ) (routerIp : Text) : List (Field δ) :=
  [.datetime d, .value (.str routerIp), .value (.str log.subscriberId),
    .value (.str log.privateIp), .value (.int log.privatePort), .value (.str log.publicIp),
    .value (.int log.publicPort), .value (.str log.destIp), .value (.int log.destPort),
    .value (.str log.protocol), .value .none]

/-- The columns of an inserted row, each with its field of the record. -/
theorem zip_columns_inserted (log : ParsedLog) (d : δ) (routerIp : Text) :
    COLUMNS.zip (log.inserted d routerIp) =
      [("timestamp".toList, .datetime d), ("router_ip".toList, .value (.str routerIp)),
        ("subscriber_id".toList, .value (.str log.subscriberId)),
        ("private_ip".toList, .value (.str log.privateIp)),
        ("private_port".toList, .value (.int log.privatePort)),
        ("public_ip".toList, .value (.str log.publicIp)),
        ("public_port".toList, .value (.int log.publicPort)),
        ("dest_ip".toList, .value (.str log.destIp)),
        ("dest_port".toList, .value (.int log.destPort)),
        ("protocol".toList, .value (.str log.protocol)),
        ("session_end_time".toList, .value .none)] := rfl

variable {u : CharTable} {msgpack : Msgpack} {clock : Clock δ}

/-- The log table takes the row of a well-formed record. -/
theorem insertable_inserted {log : ParsedLog} (hlog : log.WellFormed) {d : δ} {now : Nat}
    (hd : clock.timestamp d = now) (hnow : now < 2 ^ 32) {routerIp : Text}
    (hrouter : IsIpv4 routerIp) : Insertable clock (log.inserted d routerIp) := by
  have hport : ∀ {n : Nat}, n ≤ 65535 →
      ColumnType.Accepts clock .uint16 (.value (.int n)) := fun h ↦
    .uint16 (by omega) (by omega)
  have htime : ColumnType.Accepts clock .dateTime (.datetime d) :=
    .dateTime (by omega) (by omega)
  exact .cons htime (.cons (.ipv4 hrouter) (.cons .string (.cons (.ipv4 hlog.privateIp)
    (.cons (hport hlog.privatePort) (.cons (.ipv4 hlog.publicIp) (.cons (hport hlog.publicPort)
    (.cons (.ipv4 hlog.destIp) (.cons (hport hlog.destPort) (.cons .string
    (.cons .null .nil))))))))))

/-- The worker makes the row to insert out of the entry of a record. -/
theorem _decode_encode (hmsgpack : msgpack.Lawful) (hclock : clock.Lawful) {self : MikroTikParser}
    {payload : Bytes} {source : Text} (hcarries : msgpack.Carries payload source) {now : Nat}
    (hnow : now < 2 ^ 32) {log : ParsedLog} (hparse : (self.parseBytes u payload).1 = some log) :
    ∃ entry d, LogQueue.encode msgpack (log.asRow now source) = .ok entry ∧
      clock.timestamp d = now ∧
      BatchWorker._decode msgpack clock [entry] = .ok ([log.inserted d source], 0) := by
  obtain ⟨entry, hencode, hdecode⟩ :=
    encode_asRow hmsgpack hcarries (show now < 2 ^ 64 by omega) hparse
  obtain ⟨d, hfrom, hd⟩ := hclock now hnow
  refine ⟨entry, d, hencode, hd, ?_⟩
  have hstamp : BatchWorker.stamp clock ((log.asRow now source).map Cell.value) =
      .ok (log.inserted d source) := by
    show (clock.fromtimestamp (.int now) >>= fun d ↦ _) = _
    rw [hfrom]
    rfl
  rw [BatchWorker._decode, hdecode]
  dsimp only
  rw [hstamp]
  rfl

/-- **Every row the receiver enqueues is insertable and aligned.**  `handle` never raises, and the
entry it appends for an accepted payload becomes a row in which every column finds its own field
of the record and takes it. -/
theorem handle_insertable (hmsgpack : msgpack.Lawful) (hclock : clock.Lawful) {self : Ingest}
    (hregistry : ∀ ip ∈ self.registry, ∃ value, normaliseIp u value = .ok ip)
    (cfg : IngestConfig) {payload : Bytes} {source : Text}
    (hcarries : msgpack.Carries payload source) {now : Nat} (hnow : now < 2 ^ 32) :
    (self.handle cfg u msgpack payload source now).2 = .ok () ∧
      ∀ log, source ∈ self.registry → (cfg.parser.parseBytes u payload).1 = some log →
        (∃ entry d, LogQueue.encode msgpack (log.asRow now source) = .ok entry ∧
          (self.handle cfg u msgpack payload source now).1.buffer = self.buffer ++ [entry] ∧
          clock.timestamp d = now ∧
          BatchWorker._decode msgpack clock [entry] = .ok ([log.inserted d source], 0) ∧
          (log.inserted d source).length = 11 ∧
          COLUMNS.zip (log.inserted d source) =
            [("timestamp".toList, .datetime d), ("router_ip".toList, .value (.str source)),
              ("subscriber_id".toList, .value (.str log.subscriberId)),
              ("private_ip".toList, .value (.str log.privateIp)),
              ("private_port".toList, .value (.int log.privatePort)),
              ("public_ip".toList, .value (.str log.publicIp)),
              ("public_port".toList, .value (.int log.publicPort)),
              ("dest_ip".toList, .value (.str log.destIp)),
              ("dest_port".toList, .value (.int log.destPort)),
              ("protocol".toList, .value (.str log.protocol)),
              ("session_end_time".toList, .value .none)] ∧
          Insertable clock (log.inserted d source)) ∧
        IsIpv4 log.privateIp ∧ IsIpv4 log.publicIp ∧ IsIpv4 log.destIp ∧
        log.privatePort ≤ 65535 ∧ log.publicPort ≤ 65535 ∧ log.destPort ≤ 65535 := by
  have hwell : ∀ log, (cfg.parser.parseBytes u payload).1 = some log → log.WellFormed :=
    fun log hparse ↦ parse_sound (Prod.ext hparse rfl)
  constructor
  · by_cases hsource : source ∈ self.registry
    · cases hparse : (cfg.parser.parseBytes u payload).1 with
      | none => rw [Ingest.handle_rejected hsource hparse]
      | some log =>
          obtain ⟨entry, -, hencode, -⟩ :=
            _decode_encode hmsgpack hclock hcarries hnow hparse
          rw [Ingest.handle_parsed hsource hparse hencode]
    · rw [Ingest.handle_unknown hsource]
  · intro log hsource hparse
    have hlog := hwell log hparse
    obtain ⟨value, hvalue⟩ := hregistry source hsource
    obtain ⟨entry, d, hencode, hd, hdecode⟩ :=
      _decode_encode hmsgpack hclock hcarries hnow hparse
    refine ⟨⟨entry, d, hencode, ?_, hd, hdecode, rfl, zip_columns_inserted log d source,
      insertable_inserted hlog hd hnow (isIpv4_of_normaliseIp hvalue)⟩,
      hlog.privateIp, hlog.publicIp, hlog.destIp, hlog.privatePort, hlog.publicPort,
      hlog.destPort⟩
    rw [Ingest.handle_parsed hsource hparse hencode]
    simp

/-- A subscriber's session on its way from the receiver to the log table. -/
theorem handle_insertable_session :
    ((Ingest.start {"10.10.10.1".toList}).handle ⟨{}, 100⟩ .ascii msgpackRows
        (encodeUtf8
          "in:<pppoe-u1> proto TCP, 10.0.0.1:1->8.8.8.8:2, NAT (10.0.0.1:1->1.2.3.4:3)->8.8.8.8:2".toList)
        "10.10.10.1".toList 1756577597).2 = .ok () ∧
      ∃ entry d, BatchWorker._decode msgpackRows Clock.seconds [entry] =
          .ok ([(⟨"10.0.0.1".toList, 1, "1.2.3.4".toList, 3, "8.8.8.8".toList, 2, "TCP".toList,
            "u1".toList⟩ : ParsedLog).inserted d "10.10.10.1".toList], 0) ∧
        Insertable Clock.seconds ((⟨"10.0.0.1".toList, 1, "1.2.3.4".toList, 3, "8.8.8.8".toList, 2,
            "TCP".toList, "u1".toList⟩ : ParsedLog).inserted d "10.10.10.1".toList) := by
  have hregistry : ∀ ip ∈ (Ingest.start {"10.10.10.1".toList}).registry,
      ∃ value, normaliseIp .ascii value = .ok ip := by
    intro ip hip
    obtain rfl := Finset.mem_singleton.mp hip
    exact ⟨"10.10.10.1".toList, by decide +kernel⟩
  have hparse : (MikroTikParser.parseBytes {} .ascii (encodeUtf8
      "in:<pppoe-u1> proto TCP, 10.0.0.1:1->8.8.8.8:2, NAT (10.0.0.1:1->1.2.3.4:3)->8.8.8.8:2".toList)).1 =
      some ⟨"10.0.0.1".toList, 1, "1.2.3.4".toList, 3, "8.8.8.8".toList, 2, "TCP".toList,
        "u1".toList⟩ := by decide +kernel
  have hcarries : msgpackRows.Carries (encodeUtf8
      "in:<pppoe-u1> proto TCP, 10.0.0.1:1->8.8.8.8:2, NAT (10.0.0.1:1->1.2.3.4:3)->8.8.8.8:2".toList)
      "10.10.10.1".toList := msgpackRows_lawful.carries (by decide +kernel) (by decide)
  obtain ⟨hok, hrow⟩ := handle_insertable msgpackRows_lawful Clock.seconds_lawful hregistry
    ⟨{}, 100⟩ hcarries (show 1756577597 < 2 ^ 32 by decide)
  obtain ⟨⟨entry, d, -, -, -, hdecode, -, -, hinsertable⟩, -⟩ :=
    hrow _ (Finset.mem_singleton_self _) hparse
  exact ⟨hok, entry, d, hdecode, hinsertable⟩

end LogServer
