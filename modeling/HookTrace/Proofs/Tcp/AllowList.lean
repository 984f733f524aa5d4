import HookTrace.Proofs.Field
import HookTrace.Tcp.AllowList
import Mathlib.Data.List.GetD

/-!
# HookTrace.Proofs.Tcp.AllowList

What the stored form of two allow-lists admits. The first places of a list are the addresses it was
made from, and no more of them count, so that what is left over admits nothing; IPv4 addresses are
compared as the numbers their octets spell, of which no two octets spell the same.

* `ConnectConfig.admitsV4_iff`, `admitsV6_iff`: what is stored admits the addresses that count.
* `ConnectConfig.exists_ofLists`: lists admit their own addresses or, if they are empty, all.
-/

namespace HookTrace

namespace Tcp

/-- The octets of a destination's IPv4 address. -/
def Destination.octets (destination : Destination) : Field 4 :=
  ⟨Bytes.ofNatLE 4 destination.v4.toNat, Bytes.length_ofNatLE _ _⟩

namespace ConnectConfig

theorem ofOctets_eq_iff (octets : Field 4) (destination : Destination) :
    ofOctets octets = destination.v4 ↔ octets = destination.octets := by
  constructor
  · intro h
    have htoNat : destination.v4.toNat = octets.toNatLE := by
      rw [← h]
      exact UInt32.toNat_ofNat_of_lt octets.toNatLE_lt
    apply Field.ext_bytes
    show octets.bytes = Bytes.ofNatLE 4 destination.v4.toNat
    rw [htoNat, octets.ofNatLE_toNatLE]
  · rintro rfl
    have hmod : Bytes.toNatLE (Bytes.ofNatLE 4 destination.v4.toNat) = destination.v4.toNat :=
      (Bytes.toNatLE_ofNatLE 4 _).trans (Nat.mod_eq_of_lt destination.v4.toNat_lt)
    exact (congrArg UInt32.ofNat hmod).trans UInt32.ofNat_toNat

theorem mem_map_ofOctets_iff (v4 : List (Field 4)) (destination : Destination) :
    destination.v4 ∈ v4.map ofOctets ↔ destination.octets ∈ v4 := by
  rw [List.mem_map]
  constructor
  · rintro ⟨octets, hmem, heq⟩
    exact (ofOctets_eq_iff octets destination).1 heq ▸ hmem
  · intro hmem
    exact ⟨_, hmem, (ofOctets_eq_iff _ destination).2 rfl⟩

variable {α : Type}

theorem anyPlace_iff [DecidableEq α] (address : α) (list : List α) (length : Nat) :
    anyPlace address list length = true ↔ address ∈ list.take length := by
  induction list generalizing length with
  | nil => simp [anyPlace]
  | cons place rest ih =>
    cases length with
    | zero => simp [anyPlace]
    | succ length =>
      rw [anyPlace, Bool.or_eq_true, beq_iff_eq, ih, List.take_succ_cons, List.mem_cons, eq_comm]

theorem take_places (filler : α) {addresses : List α} (h : addresses.length ≤ Limits.allowed) :
    (places filler addresses).toList.take addresses.length = addresses := by
  have hplaces : (places filler addresses).toList =
      List.ofFn fun i : Fin Limits.allowed => addresses.getD i filler := Vector.toList_ofFn
  have hlength : (List.ofFn fun i : Fin Limits.allowed => addresses.getD i filler).length =
      Limits.allowed := List.length_ofFn
  rw [hplaces]
  refine List.ext_getElem ?_ fun i hi hi' => ?_
  · rw [List.length_take, hlength, Nat.min_eq_left h]
  · rw [List.getElem_take, List.getElem_ofFn]
    exact List.getD_eq_getElem _ _ hi'

theorem toNat_length {addresses : List α} (h : addresses.length ≤ Limits.allowed) :
    (UInt32.ofNat addresses.length).toNat = addresses.length :=
  UInt32.toNat_ofNat_of_lt (Nat.lt_of_le_of_lt h (by decide))

theorem length_eq_zero_iff {addresses : List α} (h : addresses.length ≤ Limits.allowed) :
    UInt32.ofNat addresses.length = 0 ↔ addresses = [] := by
  rw [← UInt32.toNat_inj, toNat_length h]
  exact List.length_eq_zero_iff

theorem counted_places (filler : α) {addresses : List α} (h : addresses.length ≤ Limits.allowed) :
    counted (places filler addresses) (UInt32.ofNat addresses.length) = addresses := by
  rw [counted, toNat_length h, take_places filler h]

/-- An address is admitted if no place counts or it is in one that does. -/
theorem admits_iff [DecidableEq α] (address : α) (list : Vector α Limits.allowed)
    (length : UInt32) :
    (length == 0 || anyPlace address list.toList length.toNat) = true ↔
      length = 0 ∨ address ∈ counted list length := by
  rw [Bool.or_eq_true, beq_iff_eq, anyPlace_iff, counted]

theorem admitsV4_iff (config : ConnectConfig) (address : UInt32) :
    config.admitsV4 address = true ↔ config.lengthV4 = 0 ∨ address ∈ config.v4 :=
  admits_iff address config.listV4 config.lengthV4

theorem admitsV6_iff (config : ConnectConfig) (address : AddressV6) :
    config.admitsV6 address = true ↔ config.lengthV6 = 0 ∨ address ∈ config.v6 :=
  admits_iff address config.listV6 config.lengthV6

/-- Lists that fit are found again in the configuration, and nothing else is. -/
theorem exists_lists_of_ofLists (tgid : Option UInt32) {v4 : List (Field 4)} {v6 : List AddressV6}
    (h4 : v4.length ≤ Limits.allowed) (h6 : v6.length ≤ Limits.allowed) :
    ∃ config, ofLists tgid v4 v6 = .ok config ∧ config.target = tgid.getD 0 ∧
      (config.v4 = v4.map ofOctets ∧ (config.lengthV4 = 0 ↔ v4 = [])) ∧
      (config.v6 = v6 ∧ (config.lengthV6 = 0 ↔ v6 = [])) := by
  have hplaces : (v4.map ofOctets).length ≤ Limits.allowed := by rwa [List.length_map]
  have hv4 := counted_places 0 hplaces
  rw [List.length_map] at hv4
  unfold ofLists
  rw [if_neg (Nat.not_lt.2 h4), if_neg (Nat.not_lt.2 h6)]
  exact ⟨_, rfl, rfl, ⟨hv4, length_eq_zero_iff h4⟩, ⟨counted_places _ h6, length_eq_zero_iff h6⟩⟩

/-- Whether a list of the destination's own family is empty or has its address. -/
def Admitted (v4 : List (Field 4)) (v6 : List AddressV6) (destination : Destination) :
    Protocol → Prop
  | .ipv4 => v4 = [] ∨ destination.octets ∈ v4
  | .ipv6 => v6 = [] ∨ destination.v6 ∈ v6

theorem exists_ofLists (tgid : Option UInt32) {v4 : List (Field 4)} {v6 : List AddressV6}
    (h4 : v4.length ≤ Limits.allowed) (h6 : v6.length ≤ Limits.allowed) :
    ∃ config, ofLists tgid v4 v6 = .ok config ∧ config.target = tgid.getD 0 ∧
      ∀ protocol destination, config.admits protocol destination = true ↔
        Admitted v4 v6 destination protocol := by
  obtain ⟨config, hconfig, htarget, ⟨hv4, hempty4⟩, hv6, hempty6⟩ :=
    exists_lists_of_ofLists tgid h4 h6
  refine ⟨config, hconfig, htarget, fun protocol destination => ?_⟩
  cases protocol with
  | ipv4 =>
    refine (admitsV4_iff config destination.v4).trans (or_congr hempty4 ?_)
    rw [hv4]
    exact mem_map_ofOctets_iff v4 destination
  | ipv6 =>
    refine (admitsV6_iff config destination.v6).trans (or_congr hempty6 ?_)
    rw [hv6]

end ConnectConfig

end Tcp

end HookTrace
