import HookTrace.Proofs.Field
import HookTrace.SocketAddress
import Mathlib.Data.UInt
import Mathlib.Tactic.Common

/-!
# HookTrace.Proofs.SocketAddress

Socket addresses, as they are laid out in memory and as they are read. What was laid out for a port
and four octets is read as this port and these octets (`read?_of_encodes`), of which no two are read
alike (`eq_of_ofOctets_eq`).

`InetAddress.reads`: which reads of memory this takes. The port and the octets are left alone if the
family cannot be read or is another one.
-/

namespace HookTrace

namespace InetAddress

variable {memory : UserSpace} {uaddr : UInt64} {port port' : UInt16} {octets octets' : Field 4}

/-! ### Layout -/

/-- The family in the machine's own order, the port in network order, and the octets as they are. -/
def layout (port : UInt16) (octets : Field 4) : Bytes :=
  Bytes.ofNatLE 2 Limits.inet.toNat ++ (Bytes.ofNatLE 2 port.toNat).reverse ++ octets.bytes

/-- The peer with a port and octets. -/
def ofOctets (port : UInt16) (octets : Field 4) : InetAddress where
  addr := UInt32.ofNat octets.toNatLE
  port := port

theorem toNat_ofNat_octets (octets : Field 4) :
    (UInt32.ofNat octets.toNatLE).toNat = octets.toNatLE :=
  UInt32.toNat_ofNat_of_lt' octets.toNatLE_lt

/-- The address is the number that has the octets as its bytes. -/
theorem ofNatLE_octets (octets : Field 4) :
    Bytes.ofNatLE 4 (UInt32.ofNat octets.toNatLE).toNat = octets.bytes := by
  rw [toNat_ofNat_octets, octets.ofNatLE_toNatLE]

theorem encode_ofOctets (port : UInt16) (octets : Field 4) :
    (ofOctets port octets).encode = layout port octets := by
  rw [encode, ofOctets, ofNatLE_octets, layout]

theorem eq_of_ofOctets_eq (h : ofOctets port octets = ofOctets port' octets') :
    port = port' ∧ octets = octets' := by
  refine ⟨congrArg InetAddress.port h, Field.eq_of_toNatLE_eq ?_⟩
  have haddr : (UInt32.ofNat octets.toNatLE).toNat = (UInt32.ofNat octets'.toNatLE).toNat :=
    congrArg (fun peer => peer.addr.toNat) h
  rwa [toNat_ofNat_octets, toNat_ofNat_octets] at haddr

theorem parts_of_layout {family : Field 2} {rest : Field 6}
    (h : family.bytes ++ rest.bytes = layout port octets) :
    family.toNatLE = Limits.inet.toNat ∧
      rest.bytes = (Bytes.ofNatLE 2 port.toNat).reverse ++ octets.bytes := by
  rw [layout, List.append_assoc] at h
  obtain ⟨hfamily, hrest⟩ := List.append_inj h family.length_eq
  refine ⟨?_, hrest⟩
  rw [Field.toNatLE, hfamily]
  decide

theorem decodeRest_of_bytes {rest : Field 6}
    (h : rest.bytes = (Bytes.ofNatLE 2 port.toNat).reverse ++ octets.bytes) :
    decodeRest rest = ofOctets port octets := by
  have hlen : (Bytes.ofNatLE 2 port.toNat).reverse.length = 2 := rfl
  have hport : Bytes.toNatBE (rest.bytes.take 2) = port.toNat := by
    rw [h, List.take_left' hlen, Bytes.toNatBE, List.reverse_reverse, Bytes.toNatLE_ofNatLE]
    exact Nat.mod_eq_of_lt port.toNat_lt
  have hoctets : Bytes.toNatLE (rest.bytes.drop 2) = octets.toNatLE := by
    rw [h, List.drop_left' hlen, Field.toNatLE]
  rw [decodeRest, hport, hoctets, UInt16.ofNat_toNat, ofOctets]

/-! ### Reading -/

/-- Two bytes can be read at `uaddr` and six behind them, which are laid out as a socket address. -/
def Encodes (memory : UserSpace) (uaddr : UInt64) (port : UInt16) (octets : Field 4) : Prop :=
  ∃ family rest, memory.read uaddr 2 = .ok family ∧ memory.read (uaddr + 2) 6 = .ok rest ∧
    family.bytes ++ rest.bytes = layout port octets

/-- The family cannot be read, or what is behind it if it is the one that is looked for. -/
def Unreadable (memory : UserSpace) (uaddr : UInt64) (fault : Fault) : Prop :=
  memory.read uaddr 2 = .error fault ∨
    ∃ family, memory.read uaddr 2 = .ok family ∧ family.toNatLE = Limits.inet.toNat ∧
      memory.read (uaddr + 2) 6 = .error fault

theorem inet_iff (family : Field 2) :
    UInt16.ofNat family.toNatLE = Limits.inet ↔ family.toNatLE = Limits.inet.toNat := by
  rw [← UInt16.toNat_inj, UInt16.toNat_ofNat_of_lt' family.toNatLE_lt]

theorem read?_of_unreadable {fault : Fault} (h : Unreadable memory uaddr fault) :
    read? memory uaddr = .error fault := by
  unfold read?
  rcases h with hfamily | ⟨family, hfamily, hinet, hrest⟩
  · rw [hfamily]
    rfl
  · rw [hfamily]
    simp [(inet_iff family).2 hinet, hrest, bind, Except.bind]

theorem read?_of_family_ne {family : Field 2} (h : memory.read uaddr 2 = .ok family)
    (hother : family.toNatLE ≠ Limits.inet.toNat) : read? memory uaddr = .ok none := by
  unfold read?
  rw [h]
  exact if_pos (mt (inet_iff family).1 hother)

theorem read?_of_inet {family : Field 2} {rest : Field 6} (h : memory.read uaddr 2 = .ok family)
    (hinet : family.toNatLE = Limits.inet.toNat) (hrest : memory.read (uaddr + 2) 6 = .ok rest) :
    read? memory uaddr = .ok (some (decodeRest rest)) := by
  unfold read?
  rw [h]
  simp [(inet_iff family).2 hinet, hrest, bind, Except.bind, pure, Except.pure]

theorem read?_of_encodes (h : Encodes memory uaddr port octets) :
    read? memory uaddr = .ok (some (ofOctets port octets)) := by
  obtain ⟨family, rest, hfamily, hrest, hbytes⟩ := h
  obtain ⟨hinet, hbehind⟩ := parts_of_layout hbytes
  rw [read?_of_inet hfamily hinet hrest, decodeRest_of_bytes hbehind]

/-! ### What is read of memory -/

/-- Reads a socket address by whatever reads memory. -/
def readBy {m : Type → Type} [Monad m] (read : UInt64 → (length : Nat) → m (Field length))
    (uaddr : UInt64) : m (Option InetAddress) := do
  let family ← read uaddr 2
  if UInt16.ofNat family.toNatLE ≠ Limits.inet then
    return none
  let rest ← read (uaddr + 2) 6
  return some (decodeRest rest)

/-- Reads, and notes where and how much. -/
def noting (memory : UserSpace) (address : UInt64) (length : Nat) :
    ExceptT Fault (StateM (List (UInt64 × Nat))) (Field length) :=
  ExceptT.mk fun noted => (memory.read address length, noted ++ [(address, length)])

theorem run_noting_bind {α : Type} {length : Nat} (address : UInt64)
    (f : Field length → ExceptT Fault (StateM (List (UInt64 × Nat))) α)
    (noted : List (UInt64 × Nat)) :
    (noting memory address length >>= f).run.run noted =
      match memory.read address length with
      | .ok field => (f field).run.run (noted ++ [(address, length)])
      | .error fault => (.error fault, noted ++ [(address, length)]) := by
  show (ExceptT.bindCont f (memory.read address length)).run (noted ++ [(address, length)]) = _
  cases memory.read address length <;> rfl

/-- The reads that a socket address takes, the first one first. -/
def reads (memory : UserSpace) (uaddr : UInt64) : List (UInt64 × Nat) :=
  ((readBy (noting memory) uaddr).run.run []).2

/-- To note the reads changes nothing about what is read. The second one is made if the first one
has answered with the family that is looked for. -/
theorem run_readBy_noting (memory : UserSpace) (uaddr : UInt64) :
    (readBy (noting memory) uaddr).run.run [] =
      (read? memory uaddr,
        match memory.read uaddr 2 with
        | .ok family =>
          if family.toNatLE = Limits.inet.toNat then [(uaddr, 2), (uaddr + 2, 6)] else [(uaddr, 2)]
        | .error _ => [(uaddr, 2)]) := by
  rw [readBy, run_noting_bind]
  cases hfamily : memory.read uaddr 2 with
  | error fault => rw [read?_of_unreadable (.inl hfamily), List.nil_append]
  | ok family =>
    by_cases hinet : family.toNatLE = Limits.inet.toNat
    · have hfound := (inet_iff family).2 hinet
      simp only [if_pos hinet]
      rw [if_neg (not_not_intro hfound), run_noting_bind]
      cases hrest : memory.read (uaddr + 2) 6 with
      | error fault =>
        rw [read?_of_unreadable (.inr ⟨family, hfamily, hinet, hrest⟩)]
        rfl
      | ok rest =>
        rw [read?_of_inet hfamily hinet hrest]
        rfl
    · rw [read?_of_family_ne hfamily hinet]
      simp only [if_neg hinet]
      rw [if_pos (mt (inet_iff family).1 hinet)]
      rfl

theorem reads_of_encodes (h : Encodes memory uaddr port octets) :
    reads memory uaddr = [(uaddr, 2), (uaddr + 2, 6)] := by
  obtain ⟨family, rest, hfamily, -, hbytes⟩ := h
  rw [reads, run_readBy_noting, hfamily]
  exact if_pos (parts_of_layout hbytes).1

theorem reads_of_family_ne {family : Field 2} (h : memory.read uaddr 2 = .ok family)
    (hother : family.toNatLE ≠ Limits.inet.toNat) : reads memory uaddr = [(uaddr, 2)] := by
  rw [reads, run_readBy_noting, h]
  exact if_neg hother

end InetAddress

end HookTrace
