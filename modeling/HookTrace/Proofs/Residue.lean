import HookTrace.Proofs.Failure
import HookTrace.Proofs.File.Reports
import HookTrace.Proofs.Payload.Acts
import HookTrace.Proofs.Unlink.Acts

/-!
# HookTrace.Proofs.Residue

That a record holds nothing of what its place held before. A staging record keeps what was filled in
last, and a table what earlier calls have left; none of this shows in the next record. It goes by what
the hook was called with, by the entry of the thread, by what is remembered of the connection or the
file, and by whether the channel has room: two tracers in which an exit hook finds the same
(`SameExit`) hand over the same records, whatever has become of either of them before.

* `Tracer.HandsOver`: the records that a call hands over.
* `records_hold_no_residue`: the statement for all tracers, and what is zero in their records.
-/

namespace HookTrace

open Store

theorem exists_of_bind_eq_ok {ε α β : Type} {answer : Except ε α} {f : α → Except ε β} {b : β}
    (h : answer >>= f = .ok b) : ∃ a, answer = .ok a ∧ f a = .ok b := by
  cases answer with
  | error fault => cases h
  | ok a => exact ⟨a, rfl, h⟩

theorem eq_ok_of_toOption {ε α : Type} {answer : Except ε α} {a : α}
    (h : answer.toOption = some a) : answer = .ok a := by
  cases answer with
  | error fault => cases h
  | ok b =>
    cases h
    rfl

variable {C P K S κ ν ρ : Type}

/-! ### What two tracers hand over -/

open RecordSink

/-- The output gets `records`, each with the processor it was filled in on. -/
def Store.PerCpuOutput.Takes (output output' : PerCpuOutput ρ) (records : List (Nat × ρ)) : Prop :=
  output'.channel = output.channel.outputs records

/-- The ring gets `records`. -/
def Store.ByteRing.Takes (ring ring' : ByteRing ρ) (records : List (Nat × ρ)) : Prop :=
  ring'.queue.toList = ring.queue.toList ++ records.map Prod.snd

theorem Store.ByteRing.takes_settled [Layout ρ] (ring : ByteRing ρ) (cpu : Nat)
    (filling? : Option (Filling ρ)) :
    Takes ring (settled ring cpu filling?) (handed ring cpu filling?) := by
  unfold Takes handed
  rw [settled_eq]
  by_cases hroom : ring.used + recordSize ρ ≤ ring.capacity
  · rw [if_pos hroom, if_pos ((hasRoom_iff ring cpu).2 hroom)]
    cases filling?.bind Filling.record? with
    | none => exact (List.append_nil _).symm
    | some record => exact Fifo.toList_push ring.queue record
  · rw [if_neg hroom, if_neg fun h => hroom ((hasRoom_iff ring cpu).1 h)]
    exact (List.append_nil _).symm

/-- A call of a hook hands `records` over: the hook submits them, and the channel gets them. -/
structure Tracer.HandsOver (Takes : S → S → List (Nat × ρ) → Prop)
    (hook : C → Hook P K (Journal S ρ) Unit) (tracer ended : Tracer C P K S)
    (records : List (Nat × ρ)) : Prop where
  submits : (hook tracer.config).submits tracer.stores = records
  takes : Takes tracer.stores.events ended.stores.events records

/-- Two tracers in which the exit hook of a task finds the same: the configuration, the entry of the
thread, and whether there is room for a record. -/
structure SameExit [Layout ρ] (task : CurrentTask)
    (tracer tracer' : Tracer C (RecencyTable UInt32 ν) K (PerCpuOutput ρ)) : Prop where
  config : tracer'.config = tracer.config
  entry : ∀ pid, task.pid = .ok pid →
    tracer'.stores.pending.peek? pid = tracer.stores.pending.peek? pid
  room : HasRoom tracer'.stores.events task.cpu ↔ HasRoom tracer.stores.events task.cpu

/-- Bound to the channel of a tracer, with a journal on it or not, the hook fills in `filling?`. -/
structure Tracer.Fills [Layout ρ] (journaled : C → Hook P K (Journal (PerCpuOutput ρ) ρ) Unit)
    (plain : C → Hook P K (PerCpuOutput ρ) Unit) (tracer : Tracer C P K (PerCpuOutput ρ))
    (cpu : Nat) (filling? : Option (Filling ρ)) : Prop where
  journaled : (journaled tracer.config).Settles ⟨tracer.stores.pending, tracer.stores.known,
    ⟨tracer.stores.events, []⟩, tracer.stores.notices⟩ cpu filling?
  plain : (plain tracer.config).Settles tracer.stores cpu filling?

section Fills

variable [Layout ρ] {journaled : C → Hook P K (Journal (PerCpuOutput ρ) ρ) Unit}
variable {plain : C → Hook P K (PerCpuOutput ρ) Unit} {tracer tracer' : Tracer C P K (PerCpuOutput ρ)}
variable {cpu : Nat} {filling? filling'? : Option (Filling ρ)}

theorem Tracer.Fills.handsOver (h : tracer.Fills journaled plain cpu filling?) (name : String) :
    tracer.HandsOver PerCpuOutput.Takes journaled (tracer.call name plain).2
      (handed tracer.stores.events cpu filling?) where
  submits := Hook.submits_of_settles PerCpuOutput.clears h.journaled
  takes := by
    rw [snd_call]
    exact Hook.channel_of_settles h.plain

theorem Tracer.Fills.handsOver_congr (h : tracer'.Fills journaled plain cpu filling'?)
    (hfilling : filling'? = filling?)
    (hroom : HasRoom tracer'.stores.events cpu ↔ HasRoom tracer.stores.events cpu) (name : String) :
    tracer'.HandsOver PerCpuOutput.Takes journaled (tracer'.call name plain).2
      (handed tracer.stores.events cpu filling?) := by
  rw [← handed_congr hroom, ← hfilling]
  exact h.handsOver name

end Fills

theorem SameExit.lookup_eq [Layout ρ] {task : CurrentTask}
    {tracer tracer' : Tracer C (RecencyTable UInt32 ν) K (PerCpuOutput ρ)}
    (h : SameExit task tracer tracer') {pid : UInt32} (hpid : task.pid.toOption = some pid) :
    (KeyedTable.lookup tracer'.stores.pending pid).1 =
      (KeyedTable.lookup tracer.stores.pending pid).1 := by
  rw [RecencyTable.fst_lookup, RecencyTable.fst_lookup]
  exact h.entry pid (eq_ok_of_toOption hpid)

/-! ### What is zero in a record -/

namespace Payload

theorem PayloadRecord.nonzeroAfter_of_handed [RecordSink S PayloadRecord] {sink : S} {cpu : Nat}
    {task : CurrentTask} {memory : UserSpace} {kind : Kind} {ret : Int64} {len : UInt32}
    {waiting? : UInt32 → Option UInt64} {e : Nat × PayloadRecord}
    (h : e ∈ handed sink cpu (filling? task memory kind ret len waiting?)) :
    e.2.buf.nonzeroAfter (min ret.toNatClampNeg Limits.payload) = 0 := by
  obtain ⟨_, record⟩ := e
  obtain ⟨fill, hfilling, hfill⟩ := mem_handed h
  obtain ⟨pid, -, hfilling⟩ := Option.bind_eq_some_iff.1 hfilling
  obtain ⟨address, -, hfilling⟩ := Option.bind_eq_some_iff.1 hfilling
  split at hfilling
  · cases hfilling
  · cases hfilling
    obtain ⟨filled, hfilled, hsome⟩ := exists_of_bind_eq_ok hfill
    obtain ⟨captured, -, hfilled⟩ := exists_of_bind_eq_ok hfilled
    obtain ⟨tgid, -, hfilled⟩ := exists_of_bind_eq_ok hfilled
    obtain ⟨pid, -, hfilled⟩ := exists_of_bind_eq_ok hfilled
    cases hfilled
    cases hsome
    exact Field.nonzeroAfter_of_length captured.length_bytes

end Payload

namespace Mysql.Capture

theorem nonzeroAfter_of_judged {task : CurrentTask} {memory : UserSpace} {direction : Direction}
    {ret : Int64} {args : SyscallArgs} {conn : Connection} {record : MysqlRecord}
    (h : judged task memory direction ret args conn Layout.zero = .ok (some record)) :
    record.buf.nonzeroAfter (min ret.toNatClampNeg Limits.payload) = 0 := by
  obtain ⟨captured, -, h⟩ := exists_of_bind_eq_ok h
  cases hobserved : (conn.observe captured.bytes direction).1 with
  | ignore =>
    simp only [hobserved] at h
    cases h
  | report sequenceId =>
    simp only [hobserved] at h
    obtain ⟨tgid, -, h⟩ := exists_of_bind_eq_ok h
    obtain ⟨pid, -, h⟩ := exists_of_bind_eq_ok h
    cases h
    exact Field.nonzeroAfter_of_length captured.length_bytes

theorem nonzeroAfter_of_handed [RecordSink S MysqlRecord] {sink : S} {cpu : Nat}
    {config : MysqlConfig} {task : CurrentTask} {memory : UserSpace} {direction : Direction}
    {ret : Int64} {waiting? : UInt32 → Option SyscallArgs} {conn? : Int32 → Option Connection}
    {e : Nat × MysqlRecord}
    (h : e ∈ RecordSink.handed sink cpu
      (filling? config task memory direction ret waiting? conn?)) :
    e.2.buf.nonzeroAfter (min ret.toNatClampNeg Limits.payload) = 0 := by
  obtain ⟨fill, hfilling, hfill⟩ := mem_handed h
  obtain ⟨pid, -, hfilling⟩ := Option.bind_eq_some_iff.1 hfilling
  obtain ⟨args, -, hfilling⟩ := Option.bind_eq_some_iff.1 hfilling
  split at hfilling
  · cases hfilling
  obtain ⟨inside, -, hfilling⟩ := Option.bind_eq_some_iff.1 hfilling
  split at hfilling
  · cases hfilling
  obtain ⟨conn, -, hfilling⟩ := Option.bind_eq_some_iff.1 hfilling
  split at hfilling
  · cases hfilling
  cases hfilling
  exact nonzeroAfter_of_judged hfill

end Mysql.Capture

namespace Unlink.Intercept

theorem pathname_of_handed [RecordSink S UnlinkRecord] {sink : S} {cpu : Nat}
    {config : UnlinkConfig} {task : CurrentTask} {space : AddressSpace}
    {waiting? : UInt32 → Option UInt64} {e : Nat × UnlinkRecord}
    (h : e ∈ handed sink cpu (filling? config task space.userSpace waiting?)) :
    ∃ pid address text, task.pid = .ok pid ∧ waiting? pid = some address ∧
      space.stringAt address Limits.pathname = some (text ++ [0]) ∧
      e.2.pathname.text = text ∧ e.2.pathname.nonzeroAfter text.length = 0 := by
  obtain ⟨_, record⟩ := e
  obtain ⟨fill, hfilling, hfill⟩ := mem_handed h
  obtain ⟨pid, hpid, hfilling⟩ := Option.bind_eq_some_iff.1 hfilling
  obtain ⟨address, haddress, hfilling⟩ := Option.bind_eq_some_iff.1 hfilling
  cases hfilling
  obtain ⟨filled, hfilled, hsome⟩ := exists_of_bind_eq_ok hfill
  obtain ⟨tgid, -, hfilled⟩ := exists_of_bind_eq_ok hfilled
  obtain ⟨pid', -, hfilled⟩ := exists_of_bind_eq_ok hfilled
  obtain ⟨name, hname, hfilled⟩ := exists_of_bind_eq_ok hfilled
  have hread : space.stringAt address Limits.pathname = some name := by
    unfold AddressSpace.userSpace at hname
    simp only at hname
    split at hname
    · cases hname
      assumption
    · cases hname
  obtain ⟨htext, hlen⟩ := AddressSpace.eq_text_of_stringAt hread
  -- the terminator that was read is one of the zeros behind the pathname
  have hfield : Field.ofBytes Limits.pathname (Bytes.text name ++ [0]) = .ofBytes _ name.text :=
    Field.ofBytes_append_zero (Nat.lt_succ_of_le hlen)
  rw [← htext] at hfield
  have hrecord : record.pathname = .ofBytes _ (Bytes.text name) := by
    rw [← hfield]
    cases hfilled
    split at hsome
    · cases hsome
    · cases hsome
      rfl
  refine ⟨pid, address, Bytes.text name, eq_ok_of_toOption hpid, haddress, htext ▸ hread, ?_, ?_⟩
  · rw [hrecord]
    exact Field.text_ofBytes (Nat.le_succ_of_le hlen) (Bytes.zero_not_mem_text name)
  · rw [hrecord]
    exact Field.nonzeroAfter_ofBytes Limits.pathname (Bytes.text name)

end Unlink.Intercept

namespace File

namespace Access

variable {scope : Scope} {task : CurrentTask} {file file' : OpenFile}

/-- A file is asked for its own name only if no path is remembered of it. -/
theorem filling?_congr {found : Option PathEntry} (hregular : file'.isRegular = file.isRegular)
    (hbasename : found = none → file'.basename = file.basename) (op : FileOp) (ret : Int64) :
    filling? scope task file' op ret found = filling? scope task file op ret found := by
  have hnamed : ∀ record, named file' record found = named file record found := by
    intro record
    cases found with
    | some entry => rfl
    | none => rw [named, hbasename rfl, named]
  have hcompleted : ∀ blank : FileRecord,
      completed blank task file' op ret found = completed blank task file op ret found := by
    intro blank
    unfold completed
    simp only [hnamed]
  unfold filling?
  rw [hregular]
  simp only [hcompleted]

end Access

namespace FileTracer

theorem handsOver_accessed (tracer : FileTracer) (op : FileOp) (task : CurrentTask)
    (file : OpenFile) (ret : Int64) :
    tracer.HandsOver ByteRing.Takes (Access.hook · (.accessed op task file ret))
      (tracer.step (.accessed op task file ret)).2
      (handed tracer.stores.events task.cpu (Access.filling? tracer.config task file op ret
        (tracer.stores.known.peek? file.identity))) where
  submits := by
    rw [← RecencyTable.fst_lookup]
    exact Hook.submits_of_settles ByteRing.clears
      (Access.settles_onExit tracer.config task file op ret _)
  takes := by
    rw [events_accessed]
    exact ByteRing.takes_settled _ _ _

theorem filename_of_handed {scope : Scope} {ringBytes : Nat} {past : List Turn} {op : FileOp}
    {task : Task} {file : Opened} {ret : Int64} {e : Nat × FileRecord}
    (h : e ∈ handed (afterTurns scope ringBytes past).stores.events task.cpu
      (Access.filling? scope task.current file.view op ret
        ((afterTurns scope ringBytes past).stores.known.peek? file.identity))) :
    ∃ name, (∀ entry, (afterTurns scope ringBytes past).stores.known.peek? file.identity =
        some entry → resolved? (acts past) file.identity = some name) ∧
      ((afterTurns scope ringBytes past).stores.known.peek? file.identity = none →
        name = (Opened.lastComponent file.path).take (Limits.filename - 1)) ∧
      name <+: e.2.filename.bytes ∧ e.2.filename.nonzeroAfter name.length = 0 := by
  have hrecord := record?_of_mem_handed h
  rw [Access.record?_filling] at hrecord
  split at hrecord
  · obtain ⟨filename, hfilename, hofAccess⟩ := Option.map_eq_some_iff.1 hrecord
    have hname : e.2.filename = filename := (congrArg FileRecord.filename hofAccess).symm
    rw [hname]
    cases hfound : (afterTurns scope ringBytes past).stores.known.peek? file.identity with
    | none =>
      rw [hfound] at hfilename
      cases hfilename
      refine ⟨_, fun entry h => ?_, fun _ => rfl, Field.isPrefix_ofBytes ?_,
        Field.nonzeroAfter_ofBytes _ _⟩
      · cases h
      · exact Nat.le_trans (List.length_take_le _ _) (Nat.sub_le _ _)
    | some entry =>
      obtain ⟨path, hresolved, hlen, hentry⟩ :=
        (remembers_afterTurns scope ringBytes past).path_of_entry _ _ hfound
      have hterminated : entry.filename.terminated = .ofBytes _ path := by
        rw [hentry, Field.terminated_ofBytes hlen]
      rw [hfound, Opened.reported?, hterminated] at hfilename
      split at hfilename
      · cases hfilename
      · cases hfilename
        refine ⟨path, fun _ _ => hresolved, fun h => ?_, Field.isPrefix_ofBytes (Nat.le_of_lt hlen),
          Field.nonzeroAfter_ofBytes _ _⟩
        cases h
  · cases hrecord

end FileTracer

end File

/-! ### What the hooks of the tracers fill in -/

theorem Payload.HttpTracer.fills_exit (transfer : Transfer) (task : CurrentTask)
    (memory : UserSpace) (ret : Int64) (tracer : HttpTracer) :
    tracer.Fills (Plain.hook · (.exit transfer task memory ret))
      (Plain.hook · (.exit transfer task memory ret)) task.cpu
      (Plain.filling? task memory (.ofTransfer transfer) ret fun pid =>
        (KeyedTable.lookup tracer.stores.pending pid).1) :=
  ⟨Plain.settles_onExit .., Plain.settles_onExit ..⟩

theorem Payload.HttpsTracer.fills_exit (kind : Kind) (task : CurrentTask) (memory : UserSpace)
    (ret : Int64) (tracer : HttpsTracer) :
    tracer.Fills (Tls.hook · (.exit kind task memory ret))
      (Tls.hook · (.exit kind task memory ret)) task.cpu
      (Tls.filling? task memory kind ret fun pid =>
        (KeyedTable.lookup tracer.stores.pending pid).1) :=
  ⟨Tls.settles_onExit .., Tls.settles_onExit ..⟩

theorem Mysql.MysqlTracer.fills_exit (transfer : Transfer) (task : CurrentTask)
    (memory : UserSpace) (ret : Int64) (tracer : MysqlTracer) :
    tracer.Fills (Capture.hook · (.exit transfer task memory ret))
      (Capture.hook · (.exit transfer task memory ret)) task.cpu
      (Capture.filling? tracer.config task memory (.ofTransfer transfer) ret
        (fun pid => (KeyedTable.lookup tracer.stores.pending pid).1)
        fun fd => (KeyedTable.lookup tracer.stores.known fd).1) :=
  ⟨Capture.settles_onExit .., Capture.settles_onExit ..⟩

theorem Poll.PollTracer.fills_exit (variant : Variant) (task : CurrentTask) (ret : Int64)
    (tracer : PollTracer) :
    tracer.Fills (Readiness.hook · (.exit variant task ret))
      (Readiness.hook · (.exit variant task ret)) task.cpu
      (Readiness.filling? task ret fun pid => (KeyedTable.lookup tracer.stores.pending pid).1) :=
  ⟨Readiness.settles_onExit .., Readiness.settles_onExit ..⟩

theorem Tcp.ConnectTracer.fills_exit (protocol : Protocol) (task : CurrentTask)
    (reader : SocketReader) (ret : Int64) (tracer : ConnectTracer) :
    tracer.Fills (Connect.hook · (.exit protocol task reader ret))
      (Connect.hook · (.exit protocol task reader ret)) task.cpu
      (Connect.filling? tracer.config task reader protocol ret fun pid =>
        (KeyedTable.lookup tracer.stores.pending pid).1) :=
  ⟨Connect.settles_onExit .., Connect.settles_onExit ..⟩

theorem Unlink.UnlinkTracer.fills_delete (variant : Variant) (task : CurrentTask)
    (memory : UserSpace) (tracer : UnlinkTracer) :
    tracer.Fills (Intercept.hook · (.delete variant task memory))
      (Intercept.hook · (.delete variant task memory)) task.cpu
      (Intercept.filling? tracer.config task memory fun pid =>
        (KeyedTable.lookup tracer.stores.pending pid).1) :=
  ⟨Intercept.settles_onDelete .., Intercept.settles_onDelete ..⟩

/-! ### All tracers -/

open Tracer in
/-- No record holds anything of an earlier one. Two tracers in which an exit hook finds the same hand
over the same records, whatever has been filled in, given up or lost in either of them before: with
the same connection, for MySQL, and the same path or name of the file, for reads and writes. Behind
the bytes that were captured, and behind the pathname or the file's name, a record is zero. -/
theorem records_hold_no_residue :
    (∀ (transfer : Transfer) (task : CurrentTask) (memory : UserSpace) (ret : Int64)
      (tracer tracer' : Payload.HttpTracer), SameExit task tracer tracer' →
      let call := Payload.Plain.Call.exit transfer task memory ret
      ∃ records,
        tracer.HandsOver PerCpuOutput.Takes (Payload.Plain.hook · call) (tracer.step call).2
          records ∧
        tracer'.HandsOver PerCpuOutput.Takes (Payload.Plain.hook · call) (tracer'.step call).2
          records ∧
        ∀ e ∈ records, e.2.buf.nonzeroAfter (min ret.toNatClampNeg Limits.payload) = 0) ∧
    (∀ (kind : Payload.Kind) (task : CurrentTask) (memory : UserSpace) (ret : Int64)
      (tracer tracer' : Payload.HttpsTracer), SameExit task tracer tracer' →
      let call := Payload.Tls.Call.exit kind task memory ret
      ∃ records,
        tracer.HandsOver PerCpuOutput.Takes (Payload.Tls.hook · call) (tracer.step call).2
          records ∧
        tracer'.HandsOver PerCpuOutput.Takes (Payload.Tls.hook · call) (tracer'.step call).2
          records ∧
        ∀ e ∈ records, e.2.buf.nonzeroAfter (min ret.toNatClampNeg Limits.payload) = 0) ∧
    (∀ (transfer : Transfer) (task : CurrentTask) (memory : UserSpace) (ret : Int64)
      (tracer tracer' : Mysql.MysqlTracer), SameExit task tracer tracer' →
      (∀ pid, task.pid = .ok pid → ∀ args, tracer.stores.pending.peek? pid = some args →
        tracer'.connection args.fd = tracer.connection args.fd) →
      let call := Mysql.Capture.Call.exit transfer task memory ret
      ∃ records,
        tracer.HandsOver PerCpuOutput.Takes (Mysql.Capture.hook · call) (tracer.step call).2
          records ∧
        tracer'.HandsOver PerCpuOutput.Takes (Mysql.Capture.hook · call) (tracer'.step call).2
          records ∧
        ∀ e ∈ records, e.2.buf.nonzeroAfter (min ret.toNatClampNeg Limits.payload) = 0) ∧
    (∀ (variant : Poll.Variant) (task : CurrentTask) (ret : Int64)
      (tracer tracer' : Poll.PollTracer), SameExit task tracer tracer' →
      let call := Poll.Readiness.Call.exit variant task ret
      ∃ records,
        tracer.HandsOver PerCpuOutput.Takes (Poll.Readiness.hook · call) (tracer.step call).2
          records ∧
        tracer'.HandsOver PerCpuOutput.Takes (Poll.Readiness.hook · call) (tracer'.step call).2
          records) ∧
    (∀ (protocol : Tcp.Protocol) (task : CurrentTask) (reader : Tcp.SocketReader) (ret : Int64)
      (tracer tracer' : Tcp.ConnectTracer), SameExit task tracer tracer' →
      let call := Tcp.Connect.Call.exit protocol task reader ret
      ∃ records,
        tracer.HandsOver PerCpuOutput.Takes (Tcp.Connect.hook · call) (tracer.step call).2
          records ∧
        tracer'.HandsOver PerCpuOutput.Takes (Tcp.Connect.hook · call) (tracer'.step call).2
          records) ∧
    (∀ (variant : Unlink.Variant) (task : CurrentTask) (memory : UserSpace)
      (tracer tracer' : Unlink.UnlinkTracer), SameExit task tracer tracer' →
      let call := Unlink.Intercept.Call.delete variant task memory
      ∃ records,
        tracer.HandsOver PerCpuOutput.Takes (Unlink.Intercept.hook · call) (tracer.step call).2
          records ∧
        tracer'.HandsOver PerCpuOutput.Takes (Unlink.Intercept.hook · call) (tracer'.step call).2
          records ∧
        ∀ space : AddressSpace, memory = space.userSpace → ∀ e ∈ records, ∃ pid address text,
          task.pid = .ok pid ∧ tracer.stores.pending.peek? pid = some address ∧
          space.stringAt address Limits.pathname = some (text ++ [0]) ∧
          e.2.pathname.text = text ∧ e.2.pathname.nonzeroAfter text.length = 0) ∧
    (∀ (op : File.FileOp) (task : CurrentTask) (file file' : File.OpenFile) (ret : Int64)
      (tracer tracer' : File.FileTracer), tracer'.config = tracer.config →
      file'.isRegular = file.isRegular →
      tracer'.stores.known.peek? file'.identity = tracer.stores.known.peek? file.identity →
      (tracer.stores.known.peek? file.identity = none → file'.basename = file.basename) →
      (HasRoom tracer'.stores.events task.cpu ↔ HasRoom tracer.stores.events task.cpu) →
      ∃ records,
        tracer.HandsOver ByteRing.Takes (File.Access.hook · (.accessed op task file ret))
          (tracer.step (.accessed op task file ret)).2 records ∧
        tracer'.HandsOver ByteRing.Takes (File.Access.hook · (.accessed op task file' ret))
          (tracer'.step (.accessed op task file' ret)).2 records) ∧
    (∀ (scope : Scope) (ringBytes : Nat) (past : List File.Turn) (op : File.FileOp) (task : Task)
      (file : File.Opened) (ret : Int64),
      let tracer := File.FileTracer.afterTurns scope ringBytes past
      let call := File.Access.Call.accessed op task.current file.view ret
      let found := tracer.stores.known.peek? file.identity
      ∃ records,
        tracer.HandsOver ByteRing.Takes (File.Access.hook · call) (tracer.step call).2 records ∧
        ∀ e ∈ records, ∃ name,
          (∀ entry, found = some entry →
            File.resolved? (File.acts past) file.identity = some name) ∧
          (found = none →
            name = (File.Opened.lastComponent file.path).take (Limits.filename - 1)) ∧
          name <+: e.2.filename.bytes ∧ e.2.filename.nonzeroAfter name.length = 0) := by
  refine ⟨?http, ?https, ?mysql, ?poll, ?connect, ?unlink, ?file, ?filename⟩
  case http =>
    intro transfer task memory ret tracer tracer' h call
    have hfills := Payload.HttpTracer.fills_exit transfer task memory ret
    refine ⟨_, (hfills tracer).handsOver call.name,
      (hfills tracer').handsOver_congr ?_ h.room call.name,
      fun _ => Payload.PayloadRecord.nonzeroAfter_of_handed⟩
    exact Option.bind_congr fun pid hpid => by simp only [h.lookup_eq hpid]
  case https =>
    intro kind task memory ret tracer tracer' h call
    have hfills := Payload.HttpsTracer.fills_exit kind task memory ret
    refine ⟨_, (hfills tracer).handsOver call.name,
      (hfills tracer').handsOver_congr ?_ h.room call.name,
      fun _ => Payload.PayloadRecord.nonzeroAfter_of_handed⟩
    exact Option.bind_congr fun pid hpid => by simp only [h.lookup_eq hpid]
  case poll =>
    intro variant task ret tracer tracer' h call
    have hfills := Poll.PollTracer.fills_exit variant task ret
    refine ⟨_, (hfills tracer).handsOver call.name,
      (hfills tracer').handsOver_congr ?_ h.room call.name⟩
    exact Option.bind_congr fun pid hpid => by simp only [h.lookup_eq hpid]
  case connect =>
    intro protocol task reader ret tracer tracer' h call
    have hfills := Tcp.ConnectTracer.fills_exit protocol task reader ret
    refine ⟨_, (hfills tracer).handsOver call.name,
      (hfills tracer').handsOver_congr ?_ h.room call.name⟩
    rw [h.config]
    exact Option.bind_congr fun pid hpid => by simp only [h.lookup_eq hpid]
  case unlink =>
    intro variant task memory tracer tracer' h call
    have hfills := Unlink.UnlinkTracer.fills_delete variant task memory
    refine ⟨_, (hfills tracer).handsOver call.name,
      (hfills tracer').handsOver_congr ?_ h.room call.name, ?_⟩
    · rw [h.config]
      exact Option.bind_congr fun pid hpid => by simp only [h.lookup_eq hpid]
    · rintro space rfl e he
      obtain ⟨pid, address, text, hpid, haddress, hread⟩ := Unlink.Intercept.pathname_of_handed he
      rw [RecencyTable.fst_lookup] at haddress
      exact ⟨pid, address, text, hpid, haddress, hread⟩
  case mysql =>
    intro transfer task memory ret tracer tracer' h hconn call
    have hfills := Mysql.MysqlTracer.fills_exit transfer task memory ret
    refine ⟨_, (hfills tracer).handsOver call.name,
      (hfills tracer').handsOver_congr ?_ h.room call.name,
      fun _ => Mysql.Capture.nonzeroAfter_of_handed⟩
    rw [h.config]
    refine Option.bind_congr fun pid hpid => ?_
    simp only [h.lookup_eq hpid]
    refine Option.bind_congr fun args hargs => ?_
    rw [RecencyTable.fst_lookup] at hargs
    have hsame : tracer'.stores.known.peek? args.fd = tracer.stores.known.peek? args.fd :=
      hconn pid (eq_ok_of_toOption hpid) args hargs
    rw [RecencyTable.fst_lookup, RecencyTable.fst_lookup, hsame]
  case file =>
    intro op task file file' ret tracer tracer' hconfig hregular hfound hbasename hroom
    refine ⟨_, File.FileTracer.handsOver_accessed tracer op task file ret, ?_⟩
    have h := File.FileTracer.handsOver_accessed tracer' op task file' ret
    rwa [hconfig, hfound, handed_congr hroom, File.Access.filling?_congr hregular hbasename] at h
  case filename =>
    intro scope ringBytes past op task file ret tracer call found
    refine ⟨_, File.FileTracer.handsOver_accessed tracer op task.current file.view ret, ?_⟩
    intro e he
    rw [File.FileTracer.config_afterTurns] at he
    exact File.FileTracer.filename_of_handed he

/-- A thread that has received two bytes is reported alike by a tracer whose staging record an earlier
payload is left in, and by one whose staging record has not been used. -/
theorem records_hold_no_residue_used :
    let task := Task.ofProcess 42
    let space := AddressSpace.empty.map 0x2000 [72, 105]
    let args : SyscallArgs := { fd := 7, buf := 0x2000, len := 64 }
    let left : Payload.PayloadRecord := ⟨9, 9, 0, 6, .ofBytes _ [115, 101, 99, 114, 101, 116], 0⟩
    let fresh : Payload.HttpTracer :=
      ⟨{}, ⟨(RecencyTable.empty 8).insert 42 args, (), .empty 1 1 8, []⟩⟩
    let used : Payload.HttpTracer :=
      ⟨{}, ⟨((RecencyTable.empty 8).insert 9 args).insert 42 args, (),
        ⟨⟨#[{ record := left }]⟩, .empty 1 8⟩, []⟩⟩
    let call := Payload.Plain.Call.exit .recvfrom task.current space.userSpace 2
    let record := Payload.PayloadRecord.ofPayload .recvfrom task [72, 105]
    SameExit task.current fresh used ∧
    fresh.HandsOver PerCpuOutput.Takes (Payload.Plain.hook · call) (fresh.step call).2
      [(0, record)] ∧
    used.HandsOver PerCpuOutput.Takes (Payload.Plain.hook · call) (used.step call).2
      [(0, record)] ∧
    record.buf.nonzeroAfter 2 = 0 := by
  intro task space args left fresh used call record
  have hfresh : fresh.stores.pending.peek? 42 = some args :=
    (RecencyTable.coherent_empty 8).peek?_insert_self 42 args
  have hused : used.stores.pending.peek? 42 = some args :=
    ((RecencyTable.coherent_empty 8).insert 9 args).peek?_insert_self 42 args
  have hroom : HasRoom fresh.stores.events task.current.cpu := rfl
  have hsame : SameExit task.current fresh used := by
    refine ⟨rfl, fun pid hpid => ?_, iff_of_true rfl hroom⟩
    cases hpid
    exact hused.trans hfresh.symm
  have hread : space.bytesAt args.buf (captureLength (2 : Int64).toNatClampNeg Limits.payload) =
      some ⟨[72, 105], by decide⟩ := by
    decide +kernel
  have hrecord : (Payload.Plain.filling? task.current space.userSpace (.ofTransfer .recvfrom) 2
      fun pid => (KeyedTable.lookup fresh.stores.pending pid).1).bind Filling.record? =
        some record := by
    unfold Payload.Plain.filling? Payload.PayloadRecord.filling?
    show (((KeyedTable.lookup fresh.stores.pending 42).1.map SyscallArgs.buf).bind _).bind _ = _
    rw [RecencyTable.fst_lookup, hfresh, Option.map_some, Option.bind_some, if_neg (by decide),
      Option.bind_some, Filling.record?, Payload.Plain.fill_of_readable task space hread]
    rfl
  obtain ⟨records, hhands, hhands', hclean⟩ :=
    records_hold_no_residue.1 .recvfrom task.current space.userSpace 2 fresh used hsame
  have hrecords : records = [(0, record)] := by
    have hsubmits := ((Payload.HttpTracer.fills_exit .recvfrom task.current space.userSpace 2
      fresh).handsOver call.name).submits
    rw [handed, if_pos hroom, hrecord] at hsubmits
    exact hhands.submits.symm.trans hsubmits
  subst hrecords
  exact ⟨hsame, hhands, hhands', hclean (0, record) (List.mem_singleton_self _)⟩

end HookTrace
