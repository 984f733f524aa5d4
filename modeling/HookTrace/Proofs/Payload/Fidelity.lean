import HookTrace.Proofs.Kernel.Memory
import HookTrace.Proofs.Residue

/-!
# HookTrace.Proofs.Payload.Fidelity

What the payload of a record has of the bytes that were captured. Both tracers capture as much of the
buffer as the call returned and the field holds. At a system call the record says how much that is,
and its payload is all of it. At a TLS library the record says what the library returned, in 32 bits;
the payload is cut there (`PayloadRecord.payload_of_returned`), which takes something away from it
only if the return value has more bits and what is left of it is less than was captured.

* `PayloadRecord.ofCaptured`: the record of a payload that was captured.
* `HttpsTracer.reports_captured`: what either tracer reports of the same buffer and return value, in
  any state it can get into.
-/

namespace HookTrace.Payload

open Store Tracer RecordSink

/-- The record of bytes that were captured, with the length that it is to report. -/
def PayloadRecord.ofCaptured (kind : Kind) (task : Task) (captured : Bytes) (len : UInt32) :
    PayloadRecord where
  tgid := task.tgid
  pid := task.pid
  uid := task.uid
  len
  buf := Field.ofBytes _ captured
  kind := UInt32.ofNat (Coded.code kind)

namespace PayloadRecord

variable {kind : Kind} {task : Task} {memory : UserSpace} {address : UInt64} {ret : Int64}
variable {captured : Bytes} {len : UInt32}

/-- A thread whose call moved bytes that can be read has them captured. -/
theorem record?_filling {waiting? : UInt32 → Option UInt64}
    {read : Field (min ret.toNatClampNeg Limits.payload)}
    (hwaiting : waiting? task.pid = some address) (hret : 0 < ret)
    (hread : memory.read address (min ret.toNatClampNeg Limits.payload) = .ok read) :
    (filling? task.current memory kind ret len waiting?).bind Filling.record? =
      some (ofCaptured kind task read.bytes len) := by
  have hread : memory.read address (captureLength ret.toNatClampNeg Limits.payload) = .ok read :=
    hread
  have hpid : task.current.pid.toOption = some task.pid := rfl
  unfold filling?
  rw [hpid, Option.bind_some, hwaiting, Option.bind_some, if_neg (Int64.not_le.2 hret),
    Option.bind_some]
  unfold Filling.record? fill
  rw [hread]
  rfl

theorem payload_ofCaptured (hlen : captured.length ≤ Limits.payload) :
    (ofCaptured kind task captured len).payload =
      (captured ++ List.replicate (Limits.payload - captured.length) 0).take len.toNat :=
  congrArg (List.take len.toNat) (Field.bytes_ofBytes hlen)

/-- The length that was captured is reported in full. -/
theorem payload_of_length (hlen : captured.length ≤ Limits.payload) :
    (ofCaptured kind task captured (UInt32.ofNat captured.length)).payload = captured := by
  have hsmall : captured.length < UInt32.size := Nat.lt_of_le_of_lt hlen (by decide)
  rw [payload_ofCaptured hlen, UInt32.toNat_ofNat_of_lt' hsmall, List.take_left]

theorem toNat_returned (hret : 0 < ret) :
    ret.toUInt64.toUInt32.toNat = ret.toNatClampNeg % 4294967296 := by
  rw [UInt64.toNat_toUInt32, Int64.toNat_toUInt64_of_le (Int64.le_of_lt hret)]

/-- A return value is reported in 32 bits, and the payload is cut there. -/
theorem payload_of_returned (hret : 0 < ret)
    (hlen : captured.length = min ret.toNatClampNeg Limits.payload) :
    (ofCaptured kind task captured ret.toUInt64.toUInt32).payload =
      captured.take (ret.toNatClampNeg % 4294967296) := by
  have hle : captured.length ≤ Limits.payload := hlen ▸ Nat.min_le_right _ _
  rw [payload_ofCaptured hle, toNat_returned hret]
  rcases Nat.le_total Limits.payload ret.toNatClampNeg with hfull | hfits
  -- the field is full, so that there are no zeros
  · rw [hlen, Nat.min_eq_right hfull, Nat.sub_self, List.replicate_zero, List.append_nil]
  · have hall : ret.toNatClampNeg % 4294967296 = captured.length := by
      rw [hlen, Nat.min_eq_left hfits]
      exact Nat.mod_eq_of_lt (Nat.lt_of_le_of_lt hfits (by decide))
    rw [hall, List.take_left, List.take_length]

end PayloadRecord

/-! ### Tracers -/

theorem HttpTracer.idle_of_reached {scope : Scope} {cpus : Nat} {tracer : HttpTracer}
    (h : Reached scope cpus tracer) : tracer.stores.events.staging.Idle (max cpus 1) :=
  Reaches.idle h (StagingPool.idle_empty cpus) (fun _ call => ⟨call.name, rfl⟩)
    fun call scope => Plain.tidy_hook scope call (Keeping.awaits_any _) (Keeping.resolves_staging _)

theorem HttpsTracer.idle_of_reached {scope : Scope} {cpus : Nat} {tracer : HttpsTracer}
    (h : Reached scope cpus tracer) : tracer.stores.events.staging.Idle (max cpus 1) :=
  Reaches.idle h (StagingPool.idle_empty cpus) (fun _ call => ⟨call.name, rfl⟩)
    fun call scope => Tls.tidy_hook scope call (Keeping.awaits_any _) (Keeping.resolves_staging _)

section Exit

variable {scope : Scope} {cpus : Nat} {task : Task} {memory : UserSpace} {address : UInt64}
variable {ret : Int64} {read : Field (min ret.toNatClampNeg Limits.payload)}

theorem HttpTracer.handsOver_exit {tracer : HttpTracer} (h : Reached scope cpus tracer)
    {args : SyscallArgs} (hpending : tracer.stores.pending.peek? task.pid = some args)
    (hret : 0 < ret) (hcpu : task.cpu < max cpus 1)
    (hread : memory.read args.buf (min ret.toNatClampNeg Limits.payload) = .ok read)
    (transfer : Transfer) :
    let call := Plain.Call.exit transfer task.current memory ret
    tracer.HandsOver PerCpuOutput.Takes (Plain.hook · call) (tracer.step call).2
      [(task.cpu, .ofCaptured (.ofTransfer transfer) task read.bytes
        (UInt32.ofNat read.bytes.length))] := by
  intro call
  have hcpu : task.current.cpu < max cpus 1 := hcpu
  have hands := (fills_exit transfer task.current memory ret tracer).handsOver call.name
  have hwaiting : ((KeyedTable.lookup tracer.stores.pending task.pid).1.map SyscallArgs.buf) =
      some args.buf := by
    rw [RecencyTable.fst_lookup, hpending]
    rfl
  rw [PerCpuOutput.handed_of_idle (idle_of_reached h), if_pos hcpu, Plain.filling?,
    PayloadRecord.record?_filling hwaiting hret hread] at hands
  rw [read.length_bytes]
  exact hands

theorem HttpsTracer.handsOver_exit {tracer : HttpsTracer} (h : Reached scope cpus tracer)
    (hpending : tracer.stores.pending.peek? task.pid = some address)
    (hret : 0 < ret) (hcpu : task.cpu < max cpus 1)
    (hread : memory.read address (min ret.toNatClampNeg Limits.payload) = .ok read) (kind : Kind) :
    let call := Tls.Call.exit kind task.current memory ret
    tracer.HandsOver PerCpuOutput.Takes (Tls.hook · call) (tracer.step call).2
      [(task.cpu, .ofCaptured kind task read.bytes ret.toUInt64.toUInt32)] := by
  intro call
  have hcpu : task.current.cpu < max cpus 1 := hcpu
  have hands := (fills_exit kind task.current memory ret tracer).handsOver call.name
  have hwaiting : (KeyedTable.lookup tracer.stores.pending task.pid).1 = some address := by
    rw [RecencyTable.fst_lookup, hpending]
  rw [PerCpuOutput.handed_of_idle (idle_of_reached h), if_pos hcpu, Tls.filling?,
    PayloadRecord.record?_filling hwaiting hret hread] at hands
  exact hands

/-- What a tracer at a TLS library reports of a call that moved bytes, in any state it can get into.
The record has the bytes that were captured, and its payload is all of them exactly if the return
value does not lose too much by being put into 32 bits; no return value below 2 ^ 32 does. A tracer
at the system calls, asked about the same buffer and the same return value, reports all of them
whatever that is. -/
theorem HttpsTracer.reports_captured {tracer : HttpsTracer} (h : Reached scope cpus tracer)
    (hpending : tracer.stores.pending.peek? task.pid = some address)
    (hret : 0 < ret) (hcpu : task.cpu < max cpus 1)
    (hread : memory.read address (min ret.toNatClampNeg Limits.payload) = .ok read) (kind : Kind) :
    let call := Tls.Call.exit kind task.current memory ret
    let record := PayloadRecord.ofCaptured kind task read.bytes ret.toUInt64.toUInt32
    tracer.HandsOver PerCpuOutput.Takes (Tls.hook · call) (tracer.step call).2
      [(task.cpu, record)] ∧
    record.payload = read.bytes.take (ret.toNatClampNeg % 4294967296) ∧
    (record.payload = read.bytes ↔
      min ret.toNatClampNeg Limits.payload ≤ ret.toNatClampNeg % 4294967296) ∧
    (ret.toNatClampNeg < 4294967296 → record.payload = read.bytes) ∧
    ∀ (plain : HttpTracer) (args : SyscallArgs) (transfer : Transfer),
      HttpTracer.Reached scope cpus plain →
      plain.stores.pending.peek? task.pid = some args → args.buf = address →
      let call := Plain.Call.exit transfer task.current memory ret
      ∃ record, plain.HandsOver PerCpuOutput.Takes (Plain.hook · call) (plain.step call).2
        [(task.cpu, record)] ∧ record.payload = read.bytes := by
  intro call record
  have hlen : read.bytes.length = min ret.toNatClampNeg Limits.payload := read.length_bytes
  have hpayload : record.payload = read.bytes.take (ret.toNatClampNeg % 4294967296) :=
    PayloadRecord.payload_of_returned hret hlen
  have hall : record.payload = read.bytes ↔
      min ret.toNatClampNeg Limits.payload ≤ ret.toNatClampNeg % 4294967296 := by
    rw [hpayload, List.take_eq_self_iff, hlen]
  refine ⟨handsOver_exit h hpending hret hcpu hread kind, hpayload, hall, fun hsmall => ?_, ?_⟩
  · rw [hall, Nat.mod_eq_of_lt hsmall]
    exact Nat.min_le_left _ _
  · rintro plain args transfer hplain hargs rfl call
    refine ⟨_, HttpTracer.handsOver_exit hplain hargs hret hcpu hread transfer, ?_⟩
    exact PayloadRecord.payload_of_length ((Nat.le_of_eq hlen).trans (Nat.min_le_right _ _))

end Exit

/-- Two bytes are read into a buffer that a thread has entered both with. -/
theorem HttpsTracer.reports_captured_short :
    let task := Task.ofProcess 42
    let space := AddressSpace.empty.map 0x2000 [72, 105]
    let args : SyscallArgs := { fd := 7, buf := 0x2000, len := 64 }
    let tracer := ((HttpsTracer.empty {} 1).step (.enter .response task.current 0x2000)).2
    let plain := ((HttpTracer.empty {} 1).step (.enter .recvfrom task.current args)).2
    let call := Tls.Call.exit .response task.current space.userSpace 2
    let plainCall := Plain.Call.exit .recvfrom task.current space.userSpace 2
    ∃ record record',
      tracer.HandsOver PerCpuOutput.Takes (Tls.hook · call) (tracer.step call).2 [(0, record)] ∧
      plain.HandsOver PerCpuOutput.Takes (Plain.hook · plainCall) (plain.step plainCall).2
        [(0, record')] ∧
      record.payload = [72, 105] ∧ record'.payload = [72, 105] := by
  intro task space args tracer plain call plainCall
  have hread : space.userSpace.read 0x2000 (min (2 : Int64).toNatClampNeg Limits.payload) =
      .ok ⟨[72, 105], by decide⟩ :=
    AddressSpace.read_of_mem AddressSpace.mem_map_self _ (by decide)
  have hpending : tracer.stores.pending.peek? task.pid = some 0x2000 :=
    (RecencyTable.coherent_empty _).peek?_insert_self 42 0x2000
  have hargs : plain.stores.pending.peek? task.pid = some args :=
    (RecencyTable.coherent_empty _).peek?_insert_self 42 args
  obtain ⟨hands, -, -, hsmall, hplain⟩ :=
    HttpsTracer.reports_captured (.call _ .start) hpending (by decide) (by decide) hread .response
  obtain ⟨record', hands', hpayload'⟩ := hplain plain args .recvfrom (.call _ .start) hargs rfl
  exact ⟨_, record', hands, hands', hsmall (by decide), hpayload'⟩

/-- The library reports 2 ^ 32 bytes, of which as many are captured as the field holds. The record
says that none were. -/
theorem HttpsTracer.wide_return_value_hides_payload :
    let task := Task.ofProcess 4242
    let bytes := List.replicate Limits.payload (120 : UInt8)
    let space := AddressSpace.empty.map 0x2000 bytes
    let tracer := ((HttpsTracer.empty {} 1).step (.enter .response task.current 0x2000)).2
    let call := Tls.Call.exit .response task.current space.userSpace 4294967296
    tracer.stores.pending.peek? 4242 = some 0x2000 ∧
    min (4294967296 : Int64).toNatClampNeg Limits.payload = bytes.length ∧
    (∃ field, space.bytesAt 0x2000 bytes.length = some field ∧ field.bytes = bytes) ∧
    ∃ record,
      tracer.HandsOver PerCpuOutput.Takes (Tls.hook · call) (tracer.step call).2 [(0, record)] ∧
      record.buf.bytes = bytes ∧ record.payload = [] ∧ record.payload ≠ bytes := by
  intro task bytes space tracer call
  have hlen : bytes.length = min (4294967296 : Int64).toNatClampNeg Limits.payload :=
    List.length_replicate.trans (by decide)
  have hpos : 0 < bytes.length := by
    rw [List.length_replicate]
    decide
  have hpending : tracer.stores.pending.peek? task.pid = some 0x2000 :=
    (RecencyTable.coherent_empty _).peek?_insert_self 4242 0x2000
  have hmem : ⟨0x2000, bytes⟩ ∈ space.regions := AddressSpace.mem_map_self
  have hread := AddressSpace.read_of_mem hmem hlen (hlen ▸ hpos)
  have hands := HttpsTracer.handsOver_exit (.call _ .start) hpending (by decide) (by decide) hread
    .response
  have hbuf : (Field.ofBytes Limits.payload bytes).bytes = bytes := by
    rw [Field.bytes_ofBytes (Nat.le_of_eq List.length_replicate), List.length_replicate,
      Nat.sub_self, List.replicate_zero, List.append_nil]
  have hpayload : (PayloadRecord.ofCaptured .response task bytes
      (4294967296 : Int64).toUInt64.toUInt32).payload = [] :=
    PayloadRecord.payload_of_returned (by decide) hlen
  refine ⟨hpending, hlen.symm, ?_, _, hands, hbuf, hpayload, ?_⟩
  · exact ⟨⟨bytes, rfl⟩, AddressSpace.bytesAt_of_mem hmem rfl hpos, rfl⟩
  · rw [hpayload]
    exact fun h => absurd (h ▸ hpos) (by decide)

end HookTrace.Payload
