import HookTrace.Proofs.Field
import HookTrace.Unlink.Directory

/-!
# HookTrace.Proofs.Unlink.Directory

What a configured directory covers: the pathnames that begin with it. The comparison of two fields
comes to a prefix of byte strings (`UnlinkConfig.covers_iff`), also where every index is checked
(`covers?_eq`), and what is stored of an accepted directory is the directory
(`fields_of_ofDirectory`).

`covers_configured`: which directories are accepted, and what is covered by one that is.
-/

namespace HookTrace.Unlink

namespace UnlinkConfig

theorem startsWith_iff (pathname directory : Bytes) :
    startsWith pathname directory = true ↔ Bytes.text directory <+: pathname := by
  induction directory generalizing pathname with
  | nil => cases pathname <;> simp [startsWith, Bytes.text]
  | cons d directory ih =>
    by_cases hd : d = 0
    · cases pathname <;> simp [startsWith, Bytes.text, hd]
    · have htext : Bytes.text (d :: directory) = d :: Bytes.text directory := by
        simp [Bytes.text, hd]
      rw [htext]
      cases pathname with
      | nil => simp [startsWith, hd]
      | cons p pathname => simp [startsWith, hd, ih, List.cons_prefix_cons, eq_comm (a := d)]

theorem covers_iff (config : UnlinkConfig) (pathname : Bytes) :
    config.covers pathname = true ↔ config.directory.text <+: pathname :=
  startsWith_iff pathname config.directory.bytes

/-- A pathname in its field is covered if it begins with the directory. -/
theorem covers_ofBytes_iff (config : UnlinkConfig) {n : Nat} {text : Bytes}
    (h : text.length ≤ n) :
    config.covers (Field.ofBytes n text).bytes = true ↔ config.directory.text <+: text := by
  rw [covers_iff]
  exact Field.isPrefix_ofBytes_iff h (Bytes.zero_not_mem_text _)

/-! ### Index by index -/

/-- Compares `count` bytes from index `i` on, up to the directory's terminator. A read outside of
either byte string has no answer; behind its end a pathname is not read. -/
def agreesFrom? (pathname directory : Bytes) (i : Nat) : (count : Nat) → Option Bool
  | 0 => some true
  | count + 1 => do
    let d ← directory[i]?
    if d = 0 then
      return true
    if pathname.length ≤ i then
      return false
    let p ← pathname[i]?
    if p ≠ d then
      return false
    agreesFrom? pathname directory (i + 1) count

/-- Whether a pathname lies in the configured directory, with every index checked. -/
def covers? (config : UnlinkConfig) (pathname : Bytes) : Option Bool :=
  agreesFrom? pathname config.directory.bytes 0 Limits.directory

theorem agreesFrom?_eq (pathname directory : Bytes) (i count : Nat)
    (hcount : i + count = directory.length) :
    agreesFrom? pathname directory i count =
      some (startsWith (pathname.drop i) (directory.drop i)) := by
  induction count generalizing i with
  | zero =>
    have hdone : directory.drop i = [] := List.drop_of_length_le (by omega)
    rw [hdone]
    cases pathname.drop i <;> rfl
  | succ count ih =>
    have hd : i < directory.length := by omega
    rw [List.drop_eq_getElem_cons hd, agreesFrom?, List.getElem?_eq_getElem hd]
    by_cases hend : directory[i] = 0
    · cases pathname.drop i <;> simp [hend, startsWith]
    · rcases Nat.lt_or_ge i pathname.length with hp | hp
      · have hrest := ih (i + 1) (by omega)
        rw [List.drop_eq_getElem_cons hp, List.getElem?_eq_getElem hp]
        by_cases heq : pathname[i] = directory[i]
        · simp [hend, heq, hrest, startsWith, Nat.not_le.2 hp]
        · simp [hend, heq, startsWith, Nat.not_le.2 hp]
      · rw [List.drop_of_length_le hp]
        simp [hend, startsWith, hp]

/-- No read of the comparison is out of bounds. -/
theorem covers?_eq (config : UnlinkConfig) (pathname : Bytes) :
    config.covers? pathname = some (config.covers pathname) := by
  have hlen : 0 + Limits.directory = config.directory.bytes.length := by
    rw [Field.length_bytes, Nat.zero_add]
  rw [covers?, agreesFrom?_eq _ _ _ _ hlen, List.drop_zero, List.drop_zero]
  rfl

/-! ### Directories that are accepted -/

variable {this : UInt32} {directory : Bytes} {config : UnlinkConfig}

theorem ofDirectory_of_nul (hne : directory ≠ []) (h0 : (0 : UInt8) ∈ directory) :
    ofDirectory this directory = .error .directoryContainsNul := by
  unfold ofDirectory
  rw [if_neg (by simpa using hne), if_pos (by simpa using h0)]

theorem ofDirectory_of_tooLong (hlen : Limits.directory ≤ directory.length)
    (h0 : (0 : UInt8) ∉ directory) :
    ofDirectory this directory =
      .error (.directoryTooLong directory.length (Limits.directory - 1)) := by
  have hne : directory ≠ [] := by
    rintro rfl
    exact absurd hlen (by decide)
  unfold ofDirectory
  rw [if_neg (by simpa using hne), if_neg (by simpa using h0), if_pos hlen]

theorem ofDirectory_eq_ok_iff : ofDirectory this directory = .ok config ↔
    (directory ≠ [] ∧ (0 : UInt8) ∉ directory ∧ directory.length < Limits.directory) ∧
      config = { this, directory := Field.ofBytes _ directory } := by
  unfold ofDirectory
  by_cases hne : directory = []
  · simp [hne]
  by_cases h0 : (0 : UInt8) ∈ directory
  · simp [hne, h0]
  rw [if_neg (by simpa using hne), if_neg (by simpa using h0)]
  by_cases hlen : directory.length < Limits.directory
  · rw [if_neg (Nat.not_le.2 hlen)]
    constructor
    · rintro ⟨⟩
      exact ⟨⟨hne, h0, hlen⟩, rfl⟩
    · rintro ⟨-, rfl⟩
      rfl
  · rw [if_pos (Nat.not_lt.1 hlen)]
    exact iff_of_false nofun fun h => hlen h.1.2.2

theorem fields_of_ofDirectory (h : ofDirectory this directory = .ok config) :
    config.this = this ∧ config.directory.text = directory := by
  obtain ⟨⟨-, h0, hlen⟩, rfl⟩ := ofDirectory_eq_ok_iff.1 h
  exact ⟨rfl, Field.text_ofBytes (Nat.le_of_lt hlen) h0⟩

/-- The directory of a configuration matches the pathnames that begin with it, of which no byte
behind the end is read, whether it fills its field or not. A directory is accepted if it has 1 to
127 bytes and no NUL among them, and refused as empty, for its NULs or as too long, in this order.
What is accepted is found again: a pathname matches if it begins with the directory, which of a
terminated one is its text, and so not every pathname does. -/
theorem covers_configured :
    (∀ (config : UnlinkConfig) (pathname : Bytes),
      (config.covers pathname = true ↔ Bytes.text config.directory.bytes <+: pathname) ∧
      config.covers? pathname = some (config.covers pathname)) ∧
    ∀ (this : UInt32) (directory : Bytes),
      ((∃ config, ofDirectory this directory = .ok config) ↔
        1 ≤ directory.length ∧ directory.length ≤ 127 ∧ (0 : UInt8) ∉ directory) ∧
      (directory = [] → ofDirectory this directory = .error .emptyDirectory) ∧
      (directory ≠ [] → (0 : UInt8) ∈ directory →
        ofDirectory this directory = .error .directoryContainsNul) ∧
      (127 < directory.length → (0 : UInt8) ∉ directory →
        ofDirectory this directory = .error (.directoryTooLong directory.length 127)) ∧
      ∀ config, ofDirectory this directory = .ok config →
        config.this = this ∧
        (∀ pathname, config.covers pathname = true ↔ directory <+: pathname) ∧
        (∀ name rest, (0 : UInt8) ∉ name →
          (config.covers (name ++ 0 :: rest) = true ↔ directory <+: name)) ∧
        ∃ name, (0 : UInt8) ∉ name ∧ config.covers (name ++ [0]) = false := by
  refine ⟨fun config pathname => ⟨config.covers_iff pathname, config.covers?_eq pathname⟩, ?_⟩
  intro this directory
  refine ⟨?accepted, ?empty, ofDirectory_of_nul, ofDirectory_of_tooLong, fun config h => ?built⟩
  case accepted =>
    simp only [ofDirectory_eq_ok_iff, exists_and_left, exists_eq, and_true]
    rw [← List.length_pos_iff, and_comm (a := (0 : UInt8) ∉ directory)]
    exact and_congr Iff.rfl (and_congr Nat.lt_succ_iff Iff.rfl)
  case empty =>
    rintro rfl
    rfl
  case built =>
    obtain ⟨⟨hne, h0, -⟩, -⟩ := ofDirectory_eq_ok_iff.1 h
    obtain ⟨hthis, htext⟩ := fields_of_ofDirectory h
    have hcovers : ∀ pathname, config.covers pathname = true ↔ directory <+: pathname := by
      intro pathname
      rw [covers_iff, htext]
    have hterminated : ∀ name rest, (0 : UInt8) ∉ name →
        (config.covers (name ++ 0 :: rest) = true ↔ directory <+: name) := by
      intro name rest hname
      rw [hcovers, ← Bytes.isPrefix_text_iff _ h0, Bytes.text_append_nul hname]
    refine ⟨hthis, hcovers, hterminated, [], by simp, ?_⟩
    rw [Bool.eq_false_iff, ne_eq, hterminated [] [] (by simp), List.prefix_nil]
    exact hne

/-- The longest directory, and one byte more. -/
theorem covers_configured_longest :
    let directory : Bytes := 47 :: List.replicate 126 120
    (∃ config, ofDirectory 77 directory = .ok config ∧ config.this = 77 ∧
      config.covers (directory ++ [0, 121]) = true ∧ config.covers [47, 120, 0] = false) ∧
    ofDirectory 77 (directory ++ [120]) = .error (.directoryTooLong 128 127) ∧
    ofDirectory 77 (directory ++ [0]) = .error .directoryContainsNul := by
  intro directory
  have hlen : directory.length = 127 := by simp [directory]
  have h0 : (0 : UInt8) ∉ directory := by simp [directory]
  have hlong : (0 : UInt8) ∉ directory ++ [120] := by simp [directory]
  obtain ⟨haccepted, -, -, -, hbuilt⟩ := covers_configured.2 77 directory
  obtain ⟨config, hconfig⟩ := haccepted.2 ⟨by omega, by omega, h0⟩
  obtain ⟨hthis, hcovers, hterminated, -⟩ := hbuilt config hconfig
  refine ⟨⟨config, hconfig, hthis, ?itself, ?short⟩, ?tooLong, ?nul⟩
  case itself => exact (hterminated directory [121] h0).2 (List.prefix_refl directory)
  case short =>
    rw [Bool.eq_false_iff, ne_eq, hcovers]
    intro h
    have hle := h.length_le
    rw [hlen] at hle
    exact absurd hle (by decide)
  case tooLong =>
    have hmore : (directory ++ [120]).length = 128 := by rw [List.length_append, hlen]; rfl
    have hrefused := (covers_configured.2 77 (directory ++ [120])).2.2.2.1 (by omega) hlong
    rwa [hmore] at hrefused
  case nul => exact (covers_configured.2 77 (directory ++ [0])).2.2.1 (by simp) (by simp)

end UnlinkConfig

end HookTrace.Unlink
