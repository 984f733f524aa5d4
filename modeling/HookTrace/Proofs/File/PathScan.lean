import HookTrace.Proofs.File.PathRule

/-!
# HookTrace.Proofs.File.PathScan

The path rule, read index by index.

* `Bytes.startsWith?`, `findsSegment?`, `excluded?`: the loops of the rule over the indices of a
  field, where a read outside of it has no answer. They have one, and it is the rule's
  (`excluded?_eq`): no index is out of bounds.
* `excluded_exactly`: what the rule says of each field, terminated or not.
-/

namespace HookTrace

namespace Bytes

/-- Compares `count` bytes from index `i` on. -/
def agreeFrom? (bytes start : Bytes) (i : Nat) : (count : Nat) → Option Bool
  | 0 => some true
  | count + 1 => do
    let b ← bytes[i]?
    let s ← start[i]?
    if b ≠ s then
      return false
    agreeFrom? bytes start (i + 1) count

def startsWith? (bytes start : Bytes) : Option Bool :=
  if bytes.length < start.length then some false else agreeFrom? bytes start 0 start.length

/-- The bytes from index `i` on; an index behind the end is out of bounds. -/
def from? (bytes : Bytes) (i : Nat) : Option Bytes :=
  if i ≤ bytes.length then some (bytes.drop i) else none

theorem from?_of_le {bytes : Bytes} {i : Nat} (h : i ≤ bytes.length) :
    bytes.from? i = some (bytes.drop i) :=
  if_pos h

theorem agreeFrom?_eq {bytes start : Bytes} (hlen : start.length ≤ bytes.length) (i count : Nat)
    (hcount : i + count = start.length) :
    agreeFrom? bytes start i count = some (startsWith (bytes.drop i) (start.drop i)) := by
  induction count generalizing i with
  | zero =>
    have hdone : start.drop i = [] := List.drop_of_length_le (by omega)
    rw [hdone]
    cases bytes.drop i <;> rfl
  | succ count ih =>
    have hs : i < start.length := by omega
    have hb : i < bytes.length := Nat.lt_of_lt_of_le hs hlen
    have hrest := ih (i + 1) (by omega)
    rw [List.drop_eq_getElem_cons hs, List.drop_eq_getElem_cons hb, agreeFrom?,
      List.getElem?_eq_getElem hb, List.getElem?_eq_getElem hs]
    by_cases heq : bytes[i] = start[i]
    · simp [heq, hrest, startsWith]
    · simp [heq, startsWith]

/-- The comparison stays inside of both byte strings. -/
theorem startsWith?_eq (bytes start : Bytes) :
    bytes.startsWith? start = some (bytes.startsWith start) := by
  unfold startsWith?
  split
  next hlt =>
    have hnone : bytes.startsWith start = false := by
      rw [Bool.eq_false_iff, ne_eq, startsWith_iff]
      intro h
      exact absurd h.length_le (Nat.not_le.2 hlt)
    rw [hnone]
  next hle =>
    rw [agreeFrom?_eq (Nat.le_of_not_lt hle) 0 start.length (Nat.zero_add _), List.drop_zero,
      List.drop_zero]

end Bytes

namespace File

/-- Looks for the cache segment at `count` indices from `i` on, up to the terminator. -/
def findsSegment? (path : Bytes) (i : Nat) : (count : Nat) → Option Bool
  | 0 => some false
  | count + 1 => do
    let b ← path[i]?
    if b = 0 then
      return false
    let rest ← path.from? i
    if ← rest.startsWith? cacheSegment then
      return true
    findsSegment? path (i + 1) count

/-- Whether a path is left out, with every index checked. -/
def excluded? (path : Field Limits.filename) : Option Bool := do
  if ← excludedRoots.anyM (path.bytes.startsWith? ·) then
    return true
  findsSegment? path.bytes 0 (Limits.filename - cacheSegment.length)

/-- The search stays inside of the path as long as its indices do. -/
theorem findsSegment?_eq {path : Bytes} (i count : Nat) (h : i + count ≤ path.length) :
    findsSegment? path i count = some (hasCacheSegment (path.drop i) count) := by
  induction count generalizing i with
  | zero => cases path.drop i <;> rfl
  | succ count ih =>
    have hi : i < path.length := by omega
    have hrest := ih (i + 1) (by omega)
    have hscan : hasCacheSegment (path.drop i) (count + 1) =
        (path[i] != 0 && (Bytes.startsWith (path.drop i) cacheSegment ||
          hasCacheSegment (path.drop (i + 1)) count)) := by
      rw [List.drop_eq_getElem_cons hi]
      rfl
    rw [hscan, findsSegment?, List.getElem?_eq_getElem hi, Bytes.from?_of_le (Nat.le_of_lt hi)]
    by_cases hb : path[i] = 0
    · simp [hb]
    · cases hstart : Bytes.startsWith (path.drop i) cacheSegment with
      | true => simp [hb, Bytes.startsWith?_eq, hstart]
      | false => simp [hb, Bytes.startsWith?_eq, hstart, hrest]

theorem anyM_startsWith? (path : Bytes) (roots : List Bytes) :
    roots.anyM (path.startsWith? ·) = some (roots.any (path.startsWith ·)) := by
  induction roots with
  | nil => rfl
  | cons root roots ih =>
    rw [List.anyM, Bytes.startsWith?_eq]
    cases hroot : path.startsWith root with
    | true => simp [hroot]
    | false => simp [hroot, ih]

/-- No read of the rule is out of bounds. -/
theorem excluded?_eq (path : Field Limits.filename) : excluded? path = some (excluded path) := by
  have hfits : 0 + (Limits.filename - cacheSegment.length) ≤ path.bytes.length := by
    rw [Field.length_bytes]
    omega
  unfold excluded? excluded
  rw [anyM_startsWith?, findsSegment?_eq 0 _ hfits, List.drop_zero]
  cases excludedRoots.any (path.bytes.startsWith ·) <;> rfl

/-- The path rule is exact. For every field, it leaves out the texts that begin with one of the five
roots and those with the cache segment at one of the offsets 0 to 247. Where there is a terminator,
as in every path that was terminated, that is the segment anywhere in the text, also as its last
eight bytes. What is behind the terminator makes no difference, and every index that the rule reads
is one of the field. -/
theorem excluded_exactly (path : Field Limits.filename) :
    (excluded path = true ↔
      (∃ root ∈ ["/proc/", "/sys/", "/dev/", "/run/", "/host/"],
        Bytes.ofString root <+: path.text) ∨
        ∃ offset ≤ 247, Bytes.ofString "/.cache/" <+: path.text.drop offset) ∧
    ((0 : UInt8) ∈ path.bytes →
      (excluded path = true ↔
        (∃ root ∈ ["/proc/", "/sys/", "/dev/", "/run/", "/host/"],
          Bytes.ofString root <+: path.text) ∨ Bytes.ofString "/.cache/" <:+: path.text)) ∧
    (0 : UInt8) ∈ path.terminated.bytes ∧
    (∀ other : Field Limits.filename, other.text = path.text → excluded other = excluded path) ∧
    excluded? path = some (excluded path) := by
  refine ⟨?offsets, ?anywhere, ?terminated, ?behind, excluded?_eq path⟩
  case offsets =>
    rw [excluded_iff]
    refine or_congr Iff.rfl (exists_congr fun offset => and_congr ?_ Iff.rfl)
    rw [length_cacheSegment]
    exact Nat.lt_succ_iff
  case anywhere =>
    intro h0
    exact excluded_iff_isInfix (Field.length_text_lt h0)
  case terminated => exact Field.zero_mem_terminated (by decide) path
  case behind =>
    intro other htext
    rw [Bool.eq_iff_iff, excluded_iff, excluded_iff, htext]

/-- The segment as the last eight bytes in front of the last byte. -/
theorem excluded_exactly_at_end :
    (0 : UInt8) ∈ (Field.ofBytes Limits.filename
      (List.replicate 247 120 ++ Bytes.ofString "/.cache/")).bytes ∧
    excluded (.ofBytes _ (List.replicate 247 120 ++ Bytes.ofString "/.cache/")) = true := by
  have hlen : (List.replicate 247 (120 : UInt8) ++ Bytes.ofString "/.cache/").length = 255 := by
    decide +kernel
  have h0 : (0 : UInt8) ∈ (Field.ofBytes Limits.filename
      (List.replicate 247 120 ++ Bytes.ofString "/.cache/")).bytes := by
    rw [Field.bytes_ofBytes (by rw [hlen]; decide), hlen]
    exact List.mem_append_right _ (List.mem_replicate.2 ⟨by decide, rfl⟩)
  have htext : (Field.ofBytes Limits.filename
      (List.replicate 247 120 ++ Bytes.ofString "/.cache/")).text =
        List.replicate 247 120 ++ Bytes.ofString "/.cache/" := by
    refine Field.text_ofBytes (by rw [hlen]; decide) fun h => ?_
    rcases List.mem_append.1 h with h | h
    · exact absurd (List.eq_of_mem_replicate h) (by decide)
    · exact absurd h zero_not_mem_cacheSegment
  have hexact := (excluded_exactly _).2.1 h0
  rw [htext] at hexact
  exact ⟨h0, hexact.2 (.inr (List.suffix_append _ _).isInfix)⟩

end File

end HookTrace
