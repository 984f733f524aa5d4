import HookTrace.AddressSpace
import HookTrace.Proofs.Field

/-!
# HookTrace.Proofs.AddressSpace

What is read from memory, whatever is mapped. An address is served by one region, the one with the
greatest start at or below it, even where others overlap it; what is mapped behind the address is
the rest of that region (`tail_eq_some_iff`), and it alone decides what is read.

* `bytesAt_of_mapped`, `stringAt_succ`: when bytes and a string can be read, and which.
* `reads_exactly`: what a read makes of its destination.
-/

namespace HookTrace

/-- The text is what is in front of the first NUL. -/
theorem Bytes.text_eq_take (bytes : Bytes) : text bytes = bytes.take (bytes.idxOf 0) := by
  unfold text
  rw [List.takeWhile_eq_take_findIdx_not]
  congr 2
  funext b
  by_cases hb : b = 0 <;> simp [hb]

theorem Field.eq_of_empty (a b : Field 0) : a = b := by
  apply ext_bytes
  rw [List.length_eq_zero_iff.1 a.length_eq, List.length_eq_zero_iff.1 b.length_eq]

namespace AddressSpace

variable {space : AddressSpace} {address start : UInt64} {region : Region} {bytes : Bytes} {n : Nat}

/-! ### What is mapped -/

theorem mem_place_self (region : Region) (regions : List Region) :
    region ∈ place region regions := by
  induction regions with
  | nil => exact List.mem_singleton_self region
  | cons r rest ih =>
    rw [place]
    split
    · exact List.mem_cons_of_mem r ih
    · split <;> exact List.mem_cons_self

theorem mem_place_of_ne {region r : Region} {regions : List Region} (h : r ∈ regions)
    (hne : r.start ≠ region.start) : r ∈ place region regions := by
  induction regions with
  | nil => cases h
  | cons x rest ih =>
    rw [place]
    rcases List.mem_cons.1 h with rfl | h
    · split
      · exact List.mem_cons_self
      · rw [if_neg fun heq => hne (beq_iff_eq.1 heq)]
        exact List.mem_cons_of_mem _ List.mem_cons_self
    · split
      · exact List.mem_cons_of_mem _ (ih h)
      · split
        · exact List.mem_cons_of_mem _ h
        · exact List.mem_cons_of_mem _ (List.mem_cons_of_mem _ h)

theorem mem_map_self : ⟨start, bytes⟩ ∈ (space.map start bytes).regions :=
  mem_place_self _ _

theorem mem_map_of_ne {r : Region} (h : r ∈ space.regions) (hne : r.start ≠ start) :
    r ∈ (space.map start bytes).regions :=
  mem_place_of_ne h hne

/-! ### The region that serves an address -/

/-- A region has the greatest start of those that start at or below an address. -/
structure Serves (space : AddressSpace) (address : UInt64) (region : Region) : Prop where
  mem : region ∈ space.regions
  start_le : region.start ≤ address
  greatest : ∀ r ∈ space.regions, r.start ≤ address → r.start ≤ region.start

/-- With the highest start in front, the first region that starts low enough serves the address. -/
theorem find?_eq_some_iff_serves :
    space.regions.find? (·.start ≤ address) = some region ↔ space.Serves address region := by
  have hsorted := space.sorted
  constructor
  · intro h
    obtain ⟨hle, above, below, hsplit, habove⟩ := List.find?_eq_some_iff_append.1 h
    have hle : region.start ≤ address := by simpa using hle
    rw [hsplit] at hsorted
    refine ⟨List.mem_of_find?_eq_some h, hle, fun r hr hstart => ?_⟩
    rw [hsplit] at hr
    rcases List.mem_append.1 hr with hr | hr
    · exact absurd hstart (by simpa using habove r hr)
    rcases List.mem_cons.1 hr with rfl | hr
    · exact UInt64.le_refl _
    · have hrest := List.pairwise_cons.1 (List.pairwise_append.1 hsorted).2.1
      exact UInt64.le_of_lt (hrest.1 r hr)
  · -- what stands in front of the greatest start is higher, so it does not start low enough
    rintro ⟨hmem, hle, hgreatest⟩
    obtain ⟨above, below, hsplit⟩ := List.append_of_mem hmem
    rw [hsplit] at hsorted
    refine List.find?_eq_some_iff_append.2 ⟨by simpa using hle, above, below, hsplit, ?_⟩
    intro r hr
    have hlt : region.start < r.start :=
      (List.pairwise_append.1 hsorted).2.2 r hr _ List.mem_cons_self
    have hr : r ∈ space.regions := hsplit ▸ List.mem_append_left _ hr
    have hhigh : ¬ r.start ≤ address := fun hstart =>
      absurd (hgreatest r hr hstart) (UInt64.not_le.2 hlt)
    simpa using hhigh

theorem toNat_sub_start (h : region.start ≤ address) :
    (address - region.start).toNat = address.toNat - region.start.toNat :=
  UInt64.toNat_sub_of_le _ _ h

/-- Of a region there is something behind the address exactly if the address is not behind it. -/
theorem tail_eq_some_iff_of_serves (h : space.Serves address region) :
    space.tail address = some bytes ↔
      address.toNat < region.start.toNat + region.bytes.length ∧
        region.bytes.drop (address.toNat - region.start.toNat) = bytes := by
  have hstart : region.start.toNat ≤ address.toNat := UInt64.le_iff_toNat_le.1 h.start_le
  unfold tail
  simp only [find?_eq_some_iff_serves.2 h, toNat_sub_start h.start_le]
  cases hdrop : region.bytes.drop (address.toNat - region.start.toNat) with
  | nil =>
    have hlen := List.drop_eq_nil_iff.1 hdrop
    exact iff_of_false (Option.some_ne_none bytes).symm fun h => by omega
  | cons b rest =>
    have hlen := congrArg List.length hdrop
    rw [List.length_drop, List.length_cons] at hlen
    rw [Option.some_inj]
    exact (and_iff_right (by omega)).symm

theorem tail_eq_some_iff : space.tail address = some bytes ↔
    ∃ region, space.Serves address region ∧
      address.toNat < region.start.toNat + region.bytes.length ∧
      region.bytes.drop (address.toNat - region.start.toNat) = bytes := by
  constructor
  · intro h
    cases hfind : space.regions.find? (·.start ≤ address) with
    | none =>
      rw [tail, hfind] at h
      cases h
    | some region =>
      have hserves := find?_eq_some_iff_serves.1 hfind
      exact ⟨region, hserves, (tail_eq_some_iff_of_serves hserves).1 h⟩
  · rintro ⟨region, hserves, h⟩
    exact (tail_eq_some_iff_of_serves hserves).2 h

theorem Serves.tail_of_lt (h : space.Serves address region)
    (hlt : address.toNat < region.start.toNat + region.bytes.length) :
    space.tail address = some (region.bytes.drop (address.toNat - region.start.toNat)) :=
  (tail_eq_some_iff_of_serves h).2 ⟨hlt, rfl⟩

theorem Serves.tail_of_le (h : space.Serves address region)
    (hle : region.start.toNat + region.bytes.length ≤ address.toNat) :
    space.tail address = none := by
  refine Option.eq_none_iff_forall_not_mem.2 fun bytes hbytes => ?_
  exact Nat.not_lt.2 hle ((tail_eq_some_iff_of_serves h).1 hbytes).1

/-! ### Bytes -/

theorem bytesAt_of_mapped (htail : space.tail address = some bytes) (hlen : n ≤ bytes.length) :
    ∃ field : Field n, space.bytesAt address n = some field ∧ field.bytes = bytes.take n := by
  unfold bytesAt
  split
  · rename_i h0
    subst h0
    exact ⟨_, rfl, rfl⟩
  · rw [htail]
    simp only [dif_pos hlen]
    exact ⟨_, rfl, rfl⟩

theorem bytesAt_of_unmapped (hn : n ≠ 0) (h : ∀ bytes ∈ space.tail address, bytes.length < n) :
    space.bytesAt address n = none := by
  unfold bytesAt
  rw [dif_neg hn]
  cases htail : space.tail address with
  | none => rfl
  | some bytes => exact dif_neg (Nat.not_le.2 (h bytes htail))

theorem readInto_of_mapped (dest : Field n) (htail : space.tail address = some bytes)
    (hlen : n ≤ bytes.length) : ∃ read : Field n,
      space.userSpace.readInto address dest = (.ok (), read) ∧ read.bytes = bytes.take n := by
  obtain ⟨field, hfield, hbytes⟩ := bytesAt_of_mapped htail hlen
  refine ⟨field, ?_, hbytes⟩
  unfold UserSpace.readInto userSpace
  simp only [hfield]

theorem readInto_of_empty (dest : Field n) (hn : n = 0) :
    space.userSpace.readInto address dest = (.ok (), dest) := by
  subst hn
  exact Prod.ext rfl (Field.eq_of_empty _ dest)

theorem readInto_of_unmapped (dest : Field n) (hn : n ≠ 0)
    (h : ∀ bytes ∈ space.tail address, bytes.length < n) :
    space.userSpace.readInto address dest =
      (.error (.unreadableUser "read_user" address n), dest) := by
  unfold UserSpace.readInto userSpace
  simp only [bytesAt_of_unmapped hn h]

theorem readInto_exactly (dest : Field n) :
    let read := space.userSpace.readInto address dest
    (read.1 = .ok () ↔ n = 0 ∨ ∃ bytes ∈ space.tail address, n ≤ bytes.length) ∧
    (∀ bytes ∈ space.tail address, read.1 = .ok () → read.2.bytes = bytes.take n) ∧
    (read.1 ≠ .ok () → read = (.error (.unreadableUser "read_user" address n), dest)) := by
  intro read
  by_cases hreads : n = 0 ∨ ∃ bytes ∈ space.tail address, n ≤ bytes.length
  · obtain ⟨field, hread, hfield⟩ : ∃ field : Field n, read = (.ok (), field) ∧
        ∀ bytes ∈ space.tail address, field.bytes = bytes.take n := by
      rcases hreads with hn | ⟨bytes, htail, hlen⟩
      · have hempty : dest.bytes = [] := List.length_eq_zero_iff.1 (dest.length_eq.trans hn)
        refine ⟨dest, readInto_of_empty dest hn, fun bytes _ => ?_⟩
        rw [hempty, hn, List.take_zero]
      · obtain ⟨field, hread, hfield⟩ := readInto_of_mapped dest htail hlen
        refine ⟨field, hread, fun other hother => ?_⟩
        cases htail.symm.trans hother
        exact hfield
    rw [hread]
    exact ⟨iff_of_true rfl hreads, fun bytes htail _ => hfield bytes htail, fun h => absurd rfl h⟩
  · obtain ⟨hn, hshort⟩ := not_or.1 hreads
    have hread : read = (.error (.unreadableUser "read_user" address n), dest) :=
      readInto_of_unmapped dest hn fun bytes htail =>
        Nat.lt_of_not_le fun hlen => hshort ⟨bytes, htail, hlen⟩
    rw [hread]
    exact ⟨iff_of_false nofun hreads, nofun, fun _ => rfl⟩

/-! ### Strings -/

/-- A string is read if it ends in front of the limit, or if there is enough to be cut there. -/
theorem stringAt_succ (limit : Nat) : space.stringAt address (limit + 1) =
    (space.tail address).bind fun bytes =>
      if (0 : UInt8) ∈ bytes.take limit ∨ limit ≤ bytes.length then
        some (bytes.take ((bytes.take limit).idxOf 0) ++ [0])
      else none := by
  unfold stringAt
  cases space.tail address with
  | none => rfl
  | some bytes =>
    have hmem := List.idxOf_lt_length_iff (l := bytes.take limit) (a := (0 : UInt8))
    have hle := List.idxOf_le_length (l := bytes.take limit) (a := (0 : UInt8))
    rw [List.length_take] at hmem hle
    have htext : Bytes.text (bytes.take limit) = bytes.take ((bytes.take limit).idxOf 0) := by
      rw [Bytes.text_eq_take, List.take_take, Nat.min_eq_left (by omega)]
    have hlen : (bytes.take ((bytes.take limit).idxOf 0)).length = (bytes.take limit).idxOf 0 := by
      rw [List.length_take, Nat.min_eq_left (by omega)]
    -- the text runs off the region if it stops short of the limit without a terminator
    have hruns : ((bytes.take limit).idxOf 0 < limit ∧
          bytes.length ≤ (bytes.take limit).idxOf 0) ↔
        ¬ ((0 : UInt8) ∈ bytes.take limit ∨ limit ≤ bytes.length) := by
      rw [← hmem]
      omega
    simp only [Option.bind_some, htext, hlen]
    by_cases hends : (0 : UInt8) ∈ bytes.take limit ∨ limit ≤ bytes.length
    · rw [if_pos hends, if_neg fun h => hruns.1 h hends]
    · rw [if_neg hends, if_pos (hruns.2 hends)]

theorem readStringInto_of_mapped {limit : Nat} (dest : Field (limit + 1))
    (htail : space.tail address = some bytes)
    (hends : (0 : UInt8) ∈ bytes.take limit ∨ limit ≤ bytes.length) :
    let length := (bytes.take limit).idxOf 0
    length ≤ limit ∧ ∃ read : Field (limit + 1),
      space.userSpace.readStringInto address dest = (.ok (length + 1), read) ∧
      read.bytes = bytes.take length ++ 0 :: dest.bytes.drop (length + 1) := by
  intro length
  have hle : length ≤ (bytes.take limit).length := List.idxOf_le_length
  rw [List.length_take] at hle
  have hwritten : (bytes.take length ++ [0]).length = length + 1 := by
    rw [List.length_append, List.length_take, Nat.min_eq_left (by omega)]
    rfl
  have hstring : space.stringAt address (limit + 1) = some (bytes.take length ++ [0]) := by
    rw [stringAt_succ, htail]
    exact if_pos hends
  refine ⟨by omega, dest.overwrite (bytes.take length ++ [0]), ?_, ?_⟩
  · unfold UserSpace.readStringInto userSpace
    simp only [hstring, hwritten]
  · rw [Field.bytes_overwrite _ (by omega), hwritten, List.append_assoc]
    rfl

theorem readStringInto_of_unmapped {limit : Nat} (dest : Field (limit + 1))
    (h : ∀ bytes ∈ space.tail address,
      ¬ ((0 : UInt8) ∈ bytes.take limit ∨ limit ≤ bytes.length)) :
    space.userSpace.readStringInto address dest =
      (.error (.unreadableUser "read_user_str" address (limit + 1)), dest) := by
  have hstring : space.stringAt address (limit + 1) = none := by
    rw [stringAt_succ]
    cases htail : space.tail address with
    | none => rfl
    | some bytes => exact if_neg (h bytes htail)
  unfold UserSpace.readStringInto userSpace
  simp only [hstring]

theorem readStringInto_exactly {limit : Nat} (dest : Field (limit + 1)) :
    let string := space.userSpace.readStringInto address dest
    ((∃ count, string.1 = .ok count) ↔ ∃ bytes ∈ space.tail address,
      (0 : UInt8) ∈ bytes.take limit ∨ limit ≤ bytes.length) ∧
    (∀ bytes ∈ space.tail address, ∀ count, string.1 = .ok count →
      let length := (bytes.take limit).idxOf 0
      ((0 : UInt8) ∉ bytes.take limit → length = limit) ∧ count = length + 1 ∧ count ≤ limit + 1 ∧
        string.2.bytes = bytes.take length ++ 0 :: dest.bytes.drop count) ∧
    ((∀ count, string.1 ≠ .ok count) →
      string = (.error (.unreadableUser "read_user_str" address (limit + 1)), dest)) := by
  intro string
  by_cases hreads : ∃ bytes ∈ space.tail address,
      (0 : UInt8) ∈ bytes.take limit ∨ limit ≤ bytes.length
  · obtain ⟨bytes, htail, hends⟩ := hreads
    obtain ⟨hle, field, hstring, hfield⟩ := readStringInto_of_mapped dest htail hends
    have hread : string = _ := hstring
    rw [hread]
    refine ⟨iff_of_true ⟨_, rfl⟩ ⟨bytes, htail, hends⟩, fun other hother count hcount => ?_,
      fun h => absurd rfl (h _)⟩
    cases htail.symm.trans hother
    cases hcount
    refine ⟨fun hnul => ?_, rfl, Nat.succ_le_succ hle, hfield⟩
    rw [List.idxOf_eq_length hnul, List.length_take]
    exact Nat.min_eq_left (hends.resolve_left hnul)
  · have hread : string = (.error (.unreadableUser "read_user_str" address (limit + 1)), dest) :=
      readStringInto_of_unmapped dest fun bytes htail hends => hreads ⟨bytes, htail, hends⟩
    rw [hread]
    exact ⟨iff_of_false nofun hreads, nofun, fun _ => rfl⟩

/-- Reads are exact, and all or nothing. What is mapped behind an address is the rest of the region
with the greatest start at or below it. Bytes are read if as many are mapped there; a string is read
if it ends in front of its last place or as many bytes are mapped as fit in front of it, and then
it is written up to its NUL, or cut, with a NUL behind it. Nothing else in the destination changes,
and a read that fails changes nothing at all. -/
theorem reads_exactly (space : AddressSpace) (address : UInt64) {n : Nat} (dest : Field n) :
    let read := space.userSpace.readInto address dest
    let string := space.userSpace.readStringInto address dest
    (∀ bytes, space.tail address = some bytes ↔
      ∃ region, space.Serves address region ∧
        address.toNat < region.start.toNat + region.bytes.length ∧
        region.bytes.drop (address.toNat - region.start.toNat) = bytes) ∧
    ((read.1 = .ok () ↔ n = 0 ∨ ∃ bytes ∈ space.tail address, n ≤ bytes.length) ∧
      (∀ bytes ∈ space.tail address, read.1 = .ok () → read.2.bytes = bytes.take n) ∧
      (read.1 ≠ .ok () → read = (.error (.unreadableUser "read_user" address n), dest))) ∧
    (n = 0 → string = (.ok 0, dest)) ∧
    (1 ≤ n →
      ((∃ count, string.1 = .ok count) ↔ ∃ bytes ∈ space.tail address,
        (0 : UInt8) ∈ bytes.take (n - 1) ∨ n - 1 ≤ bytes.length) ∧
      (∀ bytes ∈ space.tail address, ∀ count, string.1 = .ok count →
        let length := (bytes.take (n - 1)).idxOf 0
        ((0 : UInt8) ∉ bytes.take (n - 1) → length = n - 1) ∧ count = length + 1 ∧ count ≤ n ∧
          string.2.bytes = bytes.take length ++ 0 :: dest.bytes.drop count) ∧
      ((∀ count, string.1 ≠ .ok count) →
        string = (.error (.unreadableUser "read_user_str" address n), dest))) := by
  intro read string
  refine ⟨fun bytes => tail_eq_some_iff, readInto_exactly dest, ?nothing, ?string⟩
  case nothing =>
    rintro rfl
    exact Prod.ext rfl (Field.eq_of_empty _ dest)
  case string =>
    intro hn
    obtain ⟨limit, rfl⟩ : ∃ limit, n = limit + 1 := ⟨n - 1, by omega⟩
    exact readStringInto_exactly dest

/-- Where a region reaches into another, the one that starts later is read, and ends a read that
the earlier one would have served. -/
theorem reads_exactly_overlapping :
    let space := (empty.map 0x1000 [47, 97, 47, 98, 0, 99]).map 0x1002 [120, 121]
    let dest : Field 3 := .filled 3 0xff
    (space.userSpace.readInto 0x1001 dest).2.bytes = [97, 47, 98] ∧
    space.userSpace.readInto 0x1002 dest = (.error (.unreadableUser "read_user" 0x1002 3), dest) ∧
    ∃ read, space.userSpace.readStringInto 0x1002 dest = (.ok 3, read) ∧
      read.bytes = [120, 121, 0] := by
  intro space dest
  have hfirst : space.tail 0x1001 = some [97, 47, 98, 0, 99] := by decide
  have hsecond : space.tail 0x1002 = some [120, 121] := by decide
  obtain ⟨-, ⟨hok, hbytes, -⟩, -⟩ := reads_exactly space 0x1001 dest
  obtain ⟨-, ⟨hok', -, hfails⟩, -, hstring⟩ := reads_exactly space 0x1002 dest
  obtain ⟨hreads, hexact, -⟩ := hstring (by decide)
  refine ⟨?first, ?short, ?cut⟩
  case first => exact hbytes _ hfirst (hok.2 (.inr ⟨_, hfirst, by decide⟩))
  case short =>
    refine hfails fun h => ?_
    obtain ⟨bytes, hbytes, hlen⟩ := (hok'.1 h).resolve_left (by decide)
    cases hsecond.symm.trans hbytes
    exact absurd hlen (by decide)
  case cut =>
    obtain ⟨count, hcount⟩ := hreads.2 ⟨_, hsecond, .inr (by decide)⟩
    obtain ⟨-, hlength, -, hwritten⟩ := hexact _ hsecond count hcount
    have hthree : count = 3 := hlength
    subst hthree
    exact ⟨_, Prod.ext hcount rfl, hwritten⟩

end AddressSpace

end HookTrace
