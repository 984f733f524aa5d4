import HookTrace.Kernel.Machine
import HookTrace.Proofs.AddressSpace

/-!
# HookTrace.Proofs.Kernel.Memory

What is read where something was put. A region is found at its own start whatever else is mapped
(`AddressSpace.bytesAt_of_mem`), so that a program finds in kernel memory the parent of the task it
runs for: `Machine.current_place`.
-/

namespace HookTrace

namespace AddressSpace

variable {space : AddressSpace} {start : UInt64} {bytes : Bytes}

/-- Of all regions, the one that starts at an address serves it. -/
theorem tail_of_mem (h : ⟨start, bytes⟩ ∈ space.regions) (hne : bytes ≠ []) :
    space.tail start = some bytes := by
  refine tail_eq_some_iff.2 ⟨⟨start, bytes⟩, ⟨h, UInt64.le_refl _, fun _ _ hle => hle⟩, ?_, ?_⟩
  · exact Nat.lt_add_of_pos_right (List.length_pos_iff.2 hne)
  · rw [Nat.sub_self, List.drop_zero]

theorem bytesAt_of_mem {n : Nat} (h : ⟨start, bytes⟩ ∈ space.regions) (hlen : bytes.length = n)
    (hn : 0 < n) : space.bytesAt start n = some ⟨bytes, hlen⟩ := by
  have hne : bytes ≠ [] := List.ne_nil_of_length_pos (hlen ▸ hn)
  obtain ⟨field, hfield, hbytes⟩ :=
    bytesAt_of_mapped (tail_of_mem h hne) (Nat.le_of_eq hlen.symm)
  rw [hfield]
  exact congrArg some
    (Field.ext_bytes (hbytes.trans (List.take_of_length_le (Nat.le_of_eq hlen))))

theorem read_of_mem {n : Nat} (h : ⟨start, bytes⟩ ∈ space.regions) (hlen : bytes.length = n)
    (hn : 0 < n) : space.userSpace.read start n = .ok ⟨bytes, hlen⟩ := by
  unfold userSpace
  simp only [bytesAt_of_mem h hlen hn]

end AddressSpace

namespace Kernel

variable {memory : AddressSpace} {address : UInt64}

/-- A number is read as it was put. -/
theorem readMember_ofNatLE {width value : Nat} (op : String) (hwidth : 0 < width)
    (hvalue : value < Nat.pow 256 width)
    (h : ⟨address, Bytes.ofNatLE width value⟩ ∈ memory.regions) :
    ∃ field, readMember memory op address width = .ok field ∧ field.toNatLE = value := by
  refine ⟨⟨Bytes.ofNatLE width value, Bytes.length_ofNatLE _ _⟩, ?_, ?_⟩
  · unfold readMember
    rw [AddressSpace.bytesAt_of_mem h (Bytes.length_ofNatLE _ _) hwidth]
  · exact (Bytes.toNatLE_ofNatLE width value).trans (Nat.mod_eq_of_lt hvalue)

namespace TaskStruct

/-- The parent of a task that was put at `address`, as far as its members do not overlap. -/
theorem parentTgid_of_mem (parent : UInt64) {tgid : UInt32}
    (hparent : ⟨address + offset .realParent, Bytes.ofNatLE 8 parent.toNat⟩ ∈ memory.regions)
    (htgid : ⟨parent + offset .parentTgid, Bytes.ofNatLE 4 tgid.toNat⟩ ∈ memory.regions) :
    parentTgid memory address = .ok tgid := by
  obtain ⟨field, hfield, hvalue⟩ :=
    readMember_ofNatLE "real_parent" (by decide) parent.toNat_lt hparent
  obtain ⟨field', hfield', hvalue'⟩ :=
    readMember_ofNatLE "parent tgid" (by decide) tgid.toNat_lt htgid
  unfold parentTgid readPointer
  rw [hfield]
  show (readMember memory "parent tgid" (UInt64.ofNat field.toNatLE + _) 4 >>= _) = _
  rw [hvalue, UInt64.ofNat_toNat, hfield']
  show Except.ok (UInt32.ofNat field'.toNatLE) = _
  rw [hvalue', UInt32.ofNat_toNat]

end TaskStruct

namespace Machine

/-- A program that runs for a task of which everything can be read finds the task as it is. -/
theorem current_place (machine : Machine) {run : Run} (hprev : run.prev = none)
    (hunreadable : run.unreadable = []) : (machine.place run).current run = run.task.current := by
  have hmemory : (machine.place run).memory =
      TaskStruct.put machine.memory taskAddress parentAddress run.task [] := by
    unfold place
    rw [hprev, hunreadable]
  have hparent : TaskStruct.parentTgid (machine.place run).memory taskAddress =
      .ok run.task.parentTgid := by
    rw [hmemory]
    refine TaskStruct.parentTgid_of_mem parentAddress ?_ ?_
    · exact AddressSpace.mem_map_of_ne (AddressSpace.mem_map_of_ne AddressSpace.mem_map_self
        (by decide)) (by decide)
    · exact AddressSpace.mem_map_self
  unfold current
  rw [hparent, hunreadable]
  rfl

end Machine

end Kernel

end HookTrace
