import HookTrace.Proofs.Tcp.AllowList
import Mathlib.Data.List.Induction

/-!
# HookTrace.Proofs.Tcp.Configuration

From the settings of a configuration to what it admits. Settings add up to the addresses in the
order in which they were made and to the last target (`Builder.ofSettings_eq`). Lists that fit are
stored so that they are found again, and longer ones are refused.

`admits_configured`: what a configuration that was built admits, and which cannot be built.
-/

namespace HookTrace.Tcp.ConnectConfig

/-- The octets of an address that the machine spells as a number. -/
def octets (address : UInt32) : Field 4 :=
  ⟨Bytes.ofNatLE 4 address.toNat, Bytes.length_ofNatLE _ _⟩

theorem octets_ofOctets (source : Field 4) : octets (ofOctets source) = source :=
  ((ofOctets_eq_iff source { v4 := ofOctets source }).1 rfl).symm

/-- What a configuration means that was made for a target and two lists of addresses. -/
structure Holds (config : ConnectConfig) (target : UInt32) (v4 : List (Field 4))
    (v6 : List AddressV6) : Prop where
  target_eq : config.target = target
  v4_eq : config.v4.map octets = v4
  v6_eq : config.v6 = v6
  admitsV4_iff : ∀ address, config.admitsV4 address = true ↔ v4 = [] ∨ octets address ∈ v4
  admitsV6_iff : ∀ address, config.admitsV6 address = true ↔ v6 = [] ∨ address ∈ v6

variable {tgid : Option UInt32} {v4 : List (Field 4)} {v6 : List AddressV6}

/-! ### Lists of addresses -/

theorem exists_holds_of_ofLists (tgid : Option UInt32) (h4 : v4.length ≤ Limits.allowed)
    (h6 : v6.length ≤ Limits.allowed) :
    ∃ config, ofLists tgid v4 v6 = .ok config ∧ config.Holds (tgid.getD 0) v4 v6 := by
  obtain ⟨config, hconfig, htarget, ⟨hv4, hempty4⟩, hv6, hempty6⟩ :=
    exists_lists_of_ofLists tgid h4 h6
  refine ⟨config, hconfig, htarget, ?v4, hv6, fun address => ?admitsV4, fun address => ?admitsV6⟩
  case v4 =>
    rw [hv4, List.map_map]
    exact List.map_id'' octets_ofOctets v4
  case admitsV4 =>
    rw [config.admitsV4_iff, hempty4, hv4]
    exact or_congr Iff.rfl (mem_map_ofOctets_iff v4 { v4 := address })
  case admitsV6 => rw [config.admitsV6_iff, hempty6, hv6]

theorem ofLists_of_tooManyV4 (h4 : Limits.allowed < v4.length) :
    ofLists tgid v4 v6 = .error (.tooManyV4 v4.length Limits.allowed) :=
  if_pos h4

theorem ofLists_of_tooManyV6 (h4 : v4.length ≤ Limits.allowed) (h6 : Limits.allowed < v6.length) :
    ofLists tgid v4 v6 = .error (.tooManyV6 v6.length Limits.allowed) := by
  unfold ofLists
  rw [if_neg (Nat.not_lt.2 h4), if_pos h6]

theorem ofLists_eq_error_iff :
    (∃ fault, ofLists tgid v4 v6 = .error fault) ↔
      Limits.allowed < v4.length ∨ Limits.allowed < v6.length := by
  rcases Nat.lt_or_ge Limits.allowed v4.length with h4 | h4
  · exact iff_of_true ⟨_, ofLists_of_tooManyV4 h4⟩ (.inl h4)
  rcases Nat.lt_or_ge Limits.allowed v6.length with h6 | h6
  · exact iff_of_true ⟨_, ofLists_of_tooManyV6 h4 h6⟩ (.inr h6)
  refine iff_of_false ?_ fun h => h.elim (Nat.not_lt.2 h4) (Nat.not_lt.2 h6)
  rintro ⟨fault, hfault⟩
  obtain ⟨config, hconfig, -⟩ := exists_holds_of_ofLists tgid h4 h6
  cases hfault.symm.trans hconfig

/-! ### Settings -/

namespace Setting

def target? : Setting → Option UInt32
  | target tgid => some tgid
  | _ => none

def v4? : Setting → Option (Field 4)
  | allowV4 octets => some octets
  | _ => none

def v6? : Setting → Option AddressV6
  | allowV6 address => some address
  | _ => none

end Setting

namespace Builder

theorem ofSettings_eq (settings : List Setting) :
    ofSettings settings = {
      target := (settings.filterMap Setting.target?).getLast?
      v4 := settings.filterMap Setting.v4?
      v6 := settings.filterMap Setting.v6? } := by
  -- by the last setting: its address goes behind those made so far
  induction settings using List.reverseRecOn with
  | nil => rfl
  | append_singleton settings setting ih =>
    have hset : ofSettings (settings ++ [setting]) = (ofSettings settings).set setting := by
      rw [ofSettings, List.foldl_append]
      rfl
    rw [hset, ih]
    cases setting <;> simp [set, Setting.target?, Setting.v4?, Setting.v6?]

theorem build_ofSettings (settings : List Setting) :
    (ofSettings settings).build =
      ofLists (settings.filterMap Setting.target?).getLast? (settings.filterMap Setting.v4?)
        (settings.filterMap Setting.v6?) := by
  rw [ofSettings_eq]
  rfl

end Builder

/-- An address is admitted if the stored length of its family is zero or it is in one of the places
that count, whatever is stored. A configuration cannot be built if more than 32 addresses of a
family were added, of which IPv4 is refused first. Otherwise its places are the addresses in the
order in which they were added, an IPv4 address as the number that its octets spell, its target is
the last one, and each family admits its own addresses or, if it has none, all. -/
theorem admits_configured :
    (∀ config : ConnectConfig,
      (∀ address, config.admitsV4 address = true ↔ config.lengthV4 = 0 ∨ address ∈ config.v4) ∧
      (∀ address, config.admitsV6 address = true ↔ config.lengthV6 = 0 ∨ address ∈ config.v6)) ∧
    ∀ settings : List Setting,
      let v4 := settings.filterMap Setting.v4?
      let v6 := settings.filterMap Setting.v6?
      let built := (Builder.ofSettings settings).build
      ((∃ fault, built = .error fault) ↔ 32 < v4.length ∨ 32 < v6.length) ∧
      (32 < v4.length → built = .error (.tooManyV4 v4.length 32)) ∧
      (v4.length ≤ 32 → 32 < v6.length → built = .error (.tooManyV6 v6.length 32)) ∧
      (v4.length ≤ 32 → v6.length ≤ 32 → ∃ config, built = .ok config ∧
        config.Holds ((settings.filterMap Setting.target?).getLastD 0) v4 v6) := by
  refine ⟨fun config => ⟨config.admitsV4_iff, config.admitsV6_iff⟩, fun settings => ?_⟩
  intro v4 v6 built
  have hbuilt : built = ofLists (settings.filterMap Setting.target?).getLast? v4 v6 :=
    Builder.build_ofSettings settings
  have htarget : (settings.filterMap Setting.target?).getLast?.getD 0 =
      (settings.filterMap Setting.target?).getLastD 0 :=
    (List.getLastD_eq_getLast? ..).symm
  rw [hbuilt]
  refine ⟨ofLists_eq_error_iff, ofLists_of_tooManyV4, ofLists_of_tooManyV6, fun h4 h6 => ?_⟩
  rw [← htarget]
  exact exists_holds_of_ofLists _ h4 h6

/-- Settings that repeat an address and the target and allow the address that is all zeros, and the
same address 33 times. -/
theorem admits_configured_zeros :
    let loopback : Field 4 := ⟨[127, 0, 0, 1], rfl⟩
    let settings : List Setting := [.allowV4 loopback, .target 4, .allowV4 (Field.zero 4),
      .target 5, .allowV4 loopback]
    (∃ config, (Builder.ofSettings settings).build = .ok config ∧ config.target = 5 ∧
      config.v4.map octets = [loopback, Field.zero 4, loopback] ∧ config.admitsV4 0 = true ∧
      config.admitsV4 0x0200007f = false ∧ config.admitsV6 (Field.zero 16) = true) ∧
    (Builder.ofSettings (List.replicate 33 (.allowV4 loopback))).build =
      .error (.tooManyV4 33 32) := by
  intro loopback settings
  obtain ⟨config, hbuilt, hholds⟩ := (admits_configured.2 settings).2.2.2 (by decide) (by decide)
  refine ⟨⟨config, hbuilt, hholds.target_eq, hholds.v4_eq, ?zero, ?other, ?v6⟩, ?tooMany⟩
  case zero => exact (hholds.admitsV4_iff 0).2 (.inr (by decide))
  case other =>
    rw [Bool.eq_false_iff, ne_eq, hholds.admitsV4_iff]
    decide
  case v6 => exact (hholds.admitsV6_iff _).2 (.inl rfl)
  case tooMany =>
    exact (admits_configured.2 (List.replicate 33 (.allowV4 loopback))).2.1 (by decide)

end HookTrace.Tcp.ConnectConfig
