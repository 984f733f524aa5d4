import HookTrace.File.PathRule
import HookTrace.Proofs.Field

/-!
# HookTrace.Proofs.File.PathRule

Which paths are left out. The rule looks at a field, and for the cache segment only at the offsets
where all of the segment fits with a byte behind it. What it decides on is the field's text: a root
at its front, or the segment at one of these offsets (`excluded_iff`), which for a text that ends
inside the field is the segment anywhere in it (`excluded_iff_isInfix`).
-/

namespace HookTrace

theorem Bytes.startsWith_iff (bytes start : Bytes) :
    bytes.startsWith start = true ↔ start <+: bytes := by
  induction start generalizing bytes with
  | nil => cases bytes <;> simp [startsWith]
  | cons s start ih =>
    cases bytes with
    | nil => simp [startsWith]
    | cons b bytes => simp [startsWith, ih, List.cons_prefix_cons, eq_comm (a := s)]

namespace File

theorem length_cacheSegment : cacheSegment.length = 8 := by decide +kernel

theorem zero_not_mem_cacheSegment : (0 : UInt8) ∉ cacheSegment := by decide +kernel

theorem zero_not_mem_excludedRoots : ∀ root ∈ excludedRoots, (0 : UInt8) ∉ root := by
  decide +kernel

/-- The segment is found at the first offsets, and not behind the terminator. -/
theorem hasCacheSegment_iff (path : Bytes) (offsets : Nat) :
    hasCacheSegment path offsets = true ↔
      ∃ i < offsets, cacheSegment <+: (Bytes.text path).drop i := by
  have hempty : ∀ i, ¬ cacheSegment <+: ([] : Bytes).drop i := by
    intro i h
    have hsegment := length_cacheSegment
    rw [List.drop_nil, List.prefix_nil] at h
    rw [h] at hsegment
    cases hsegment
  induction path generalizing offsets with
  | nil =>
    have hnone : hasCacheSegment [] offsets = false := by cases offsets <;> rfl
    rw [hnone]
    constructor
    · intro h
      cases h
    · rintro ⟨i, -, hi⟩
      exact absurd hi (hempty i)
  | cons b rest ih =>
    cases offsets with
    | zero => simp [hasCacheSegment]
    | succ offsets =>
      have hhere := Bytes.isPrefix_text_iff (b :: rest) zero_not_mem_cacheSegment
      have hthere : hasCacheSegment rest offsets = true ↔
          ∃ i < offsets, cacheSegment <+: (Bytes.text rest).drop i := ih offsets
      simp only [hasCacheSegment, Bool.and_eq_true, Bool.or_eq_true, bne_iff_ne, ne_eq]
      rw [Bytes.startsWith_iff, ← hhere, hthere]
      by_cases hb : b = 0
      -- the search and the text end here alike
      · have htext : Bytes.text (b :: rest) = [] := by simp [Bytes.text, hb]
        rw [htext]
        constructor
        · rintro ⟨hne, -⟩
          exact absurd hb hne
        · rintro ⟨i, -, hi⟩
          exact absurd hi (hempty i)
      · have htext : Bytes.text (b :: rest) = b :: Bytes.text rest := by simp [Bytes.text, hb]
        rw [htext]
        constructor
        · rintro ⟨-, hstart | ⟨i, hi, hstart⟩⟩
          · exact ⟨0, Nat.succ_pos _, hstart⟩
          · exact ⟨i + 1, Nat.succ_lt_succ hi, hstart⟩
        · rintro ⟨i, hi, hstart⟩
          refine ⟨hb, ?_⟩
          cases i with
          | zero => exact .inl hstart
          | succ i => exact .inr ⟨i, Nat.lt_of_succ_lt_succ hi, hstart⟩

/-- Where a path is not longer than the offsets and the segment together, the segment is nowhere
else in it. -/
theorem exists_isPrefix_drop_iff {path segment : Bytes} {offsets : Nat}
    (h : path.length < offsets + segment.length) :
    (∃ i < offsets, segment <+: path.drop i) ↔ segment <:+: path := by
  constructor
  · rintro ⟨i, -, hi⟩
    exact hi.isInfix.trans (path.drop_suffix i).isInfix
  · rintro ⟨front, back, rfl⟩
    refine ⟨front.length, ?_, ?_⟩
    · simp only [List.length_append] at h
      omega
    · rw [List.append_assoc, List.drop_left]
      exact List.prefix_append segment back

/-- A path is left out if its text begins with a root that is never reported, or has the cache
segment at one of the offsets that are looked at. -/
theorem excluded_iff (path : Field Limits.filename) : excluded path = true ↔
    (∃ root ∈ ["/proc/", "/sys/", "/dev/", "/run/", "/host/"],
      Bytes.ofString root <+: path.text) ∨
      ∃ i < Limits.filename - cacheSegment.length, cacheSegment <+: path.text.drop i := by
  unfold excluded
  rw [Bool.or_eq_true, List.any_eq_true]
  refine or_congr ?_ (hasCacheSegment_iff path.bytes _)
  have hstart : ∀ root ∈ excludedRoots,
      path.bytes.startsWith root = true ↔ root <+: path.text := fun root hroot => by
    rw [Bytes.startsWith_iff, Field.text,
      Bytes.isPrefix_text_iff _ (zero_not_mem_excludedRoots root hroot)]
  constructor
  · rintro ⟨root, hroot, h⟩
    rw [hstart root hroot] at h
    obtain ⟨name, hname, rfl⟩ := List.mem_map.1 hroot
    exact ⟨name, hname, h⟩
  · rintro ⟨name, hname, h⟩
    have hroot : Bytes.ofString name ∈ excludedRoots := List.mem_map_of_mem hname
    exact ⟨_, hroot, (hstart _ hroot).2 h⟩

/-- In a path that is terminated the offsets reach the end of every cache segment. -/
theorem excluded_iff_isInfix {path : Field Limits.filename}
    (h : path.text.length < Limits.filename) : excluded path = true ↔
      (∃ root ∈ ["/proc/", "/sys/", "/dev/", "/run/", "/host/"],
        Bytes.ofString root <+: path.text) ∨ cacheSegment <:+: path.text := by
  have hreach : path.text.length <
      Limits.filename - cacheSegment.length + cacheSegment.length := by
    rw [length_cacheSegment]
    exact h
  rw [excluded_iff, exists_isPrefix_drop_iff hreach]

/-- A path is left out if it begins with a root that is never reported, or has a cache directory in
it. -/
theorem excluded_ofBytes_iff {path : Bytes} (h : path.length < Limits.filename)
    (h0 : (0 : UInt8) ∉ path) : excluded (.ofBytes _ path) = true ↔
      (∃ root ∈ ["/proc/", "/sys/", "/dev/", "/run/", "/host/"], Bytes.ofString root <+: path) ∨
        Bytes.ofString "/.cache/" <:+: path := by
  have htext : (Field.ofBytes Limits.filename path).text = path :=
    Field.text_ofBytes (Nat.le_of_lt h) h0
  rw [excluded_iff_isInfix (htext.symm ▸ h), htext]
  exact Iff.rfl

end File

end HookTrace
