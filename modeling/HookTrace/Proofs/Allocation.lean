import HookTrace.Proofs.AddressSpace
import Mathlib.Algebra.Group.Nat.Defs

/-!
# HookTrace.Proofs.Allocation

Fresh memory, among regions that are mapped and unmapped elsewhere. Allocations are stacked from
`base` upwards without gaps: each takes the pages that its bytes need and one more, which stays
empty, and the next one starts behind (`floor`). What is mapped elsewhere starts below `base`, so
of all regions that start at or below an address of an allocation its own starts last, however far
the others reach (`Laid.serves`).

* `laid_after`: how the regions of a space lie after any changes, as long as the address counter
  does not overflow.
* `allocations_apart`: an allocation is read exactly, for good, and an empty page follows it.
-/

namespace HookTrace.AddressSpace

/-- A change of what is mapped. -/
inductive Change where
  | alloc (bytes : Bytes)
  | map (start : UInt64) (bytes : Bytes)
  | unmap (start : UInt64)

/-- Whatever is not allocated is mapped or unmapped below the allocations. -/
def Change.Low : Change → Prop
  | alloc _ => True
  | map start _ => start < base
  | unmap start => start < base

instance : DecidablePred Change.Low
  | .alloc _ => inferInstanceAs (Decidable True)
  | .map start _ => inferInstanceAs (Decidable (start < base))
  | .unmap start => inferInstanceAs (Decidable (start < base))

def apply (space : AddressSpace) : Change → AddressSpace
  | .alloc bytes => (space.alloc bytes).2
  | .map start bytes => space.map start bytes
  | .unmap start => space.unmap start

/-- A space after changes, of which the latest is the first in the list. -/
def after : (past : List Change) → AddressSpace
  | [] => empty
  | change :: past => (after past).apply change

structure Allocation where
  address : UInt64
  bytes : Bytes

namespace Allocation

def region (a : Allocation) : Region :=
  ⟨a.address, a.bytes⟩

/-- The pages of an allocation, the empty one behind it included. -/
def pages (a : Allocation) : Nat :=
  (a.bytes.length + pageSize - 1) / pageSize + 1

/-- The first address behind an allocation and its empty page. -/
def next (a : Allocation) : Nat :=
  a.address.toNat + a.pages * pageSize

theorem address_lt_next (a : Allocation) : a.address.toNat < a.next :=
  Nat.lt_add_of_pos_right (Nat.mul_pos (Nat.succ_pos _) (by decide))

/-- All bytes are in front of the last page. -/
theorem length_add_pageSize_le (a : Allocation) :
    a.bytes.length + pageSize ≤ a.pages * pageSize := by
  unfold pages pageSize
  omega

end Allocation

/-- What was allocated, with the addresses that were answered, the latest first. -/
def allocations : (past : List Change) → List Allocation
  | [] => []
  | .alloc bytes :: past => ⟨((after past).alloc bytes).1, bytes⟩ :: allocations past
  | .map _ _ :: past => allocations past
  | .unmap _ :: past => allocations past

/-- The first address above all allocations. -/
def floor : List Allocation → Nat
  | [] => base.toNat
  | a :: earlier => floor earlier + a.pages * pageSize

/-- Where the address counter stands, if it never overflows. -/
def counter (past : List Change) : Nat :=
  floor (allocations past)

variable {past : List Change} {a b : Allocation} {as bs : List Allocation}

theorem base_le_floor (as : List Allocation) : base.toNat ≤ floor as := by
  induction as with
  | nil => exact Nat.le_refl _
  | cons a as ih => exact Nat.le_add_right_of_le ih

theorem floor_mod_pageSize (as : List Allocation) : floor as % pageSize = 0 := by
  induction as with
  | nil => rfl
  | cons a as ih => rw [floor, Nat.add_mul_mod_self_right, ih]

theorem floor_le_of_suffix (h : as <:+ bs) : floor as ≤ floor bs := by
  obtain ⟨later, rfl⟩ := h
  induction later with
  | nil => exact Nat.le_refl _
  | cons a later ih => exact Nat.le_add_right_of_le ih

theorem counter_le_cons (change : Change) (past : List Change) :
    counter past ≤ counter (change :: past) := by
  cases change with
  | alloc bytes => exact Nat.le_add_right _ _
  | map | unmap => exact Nat.le_refl _

theorem mem_allocations (later : List Change) (bytes : Bytes) (earlier : List Change) :
    ⟨((after earlier).alloc bytes).1, bytes⟩ ∈ allocations (later ++ .alloc bytes :: earlier) := by
  induction later with
  | nil => exact List.mem_cons_self
  | cons change later ih =>
    cases change with
    | alloc bytes => exact List.mem_cons_of_mem _ ih
    | map | unmap => exact ih

/-! ### How allocations lie -/

/-- Each allocation starts where those before it end. -/
def Stacked (as : List Allocation) : Prop :=
  ∀ a earlier, (a :: earlier) <:+ as → a.address.toNat = floor earlier

theorem Stacked.cons (h : Stacked as) (ha : a.address.toNat = floor as) : Stacked (a :: as) := by
  intro b earlier hsuffix
  rcases List.suffix_cons_iff.1 hsuffix with heq | hsuffix
  · cases heq
    exact ha
  · exact h b earlier hsuffix

theorem Stacked.next_eq (h : Stacked as) {earlier : List Allocation} (ha : (a :: earlier) <:+ as) :
    a.next = floor (a :: earlier) := by
  rw [Allocation.next, h a earlier ha, floor]

/-- Of two allocations the later one starts behind the other. -/
theorem Stacked.next_le (h : Stacked as) {earlier : List Allocation} (ha : (a :: earlier) <:+ as)
    (hb : b ∈ earlier) : b.next ≤ a.address.toNat := by
  obtain ⟨between, oldest, rfl⟩ := List.append_of_mem hb
  have hsuffix : (b :: oldest) <:+ between ++ b :: oldest := List.suffix_append _ _
  rw [h.next_eq (hsuffix.trans ((List.suffix_cons a _).trans ha)), h a _ ha]
  exact floor_le_of_suffix hsuffix

theorem Stacked.apart (h : Stacked as) (ha : a ∈ as) (hb : b ∈ as) :
    a = b ∨ a.next ≤ b.address.toNat ∨ b.next ≤ a.address.toNat := by
  obtain ⟨later, earlier, rfl⟩ := List.append_of_mem ha
  have hsuffix : (a :: earlier) <:+ later ++ a :: earlier := List.suffix_append _ _
  rcases List.mem_append.1 hb with hb | hb
  · obtain ⟨latest, between, rfl⟩ := List.append_of_mem hb
    have hsuffix' : (b :: (between ++ a :: earlier)) <:+
        latest ++ b :: between ++ a :: earlier := by
      rw [List.append_assoc]
      exact List.suffix_append _ _
    exact .inr (.inl (h.next_le hsuffix' (List.mem_append_right _ List.mem_cons_self)))
  · rcases List.mem_cons.1 hb with rfl | hb
    · exact .inl rfl
    · exact .inr (.inr (h.next_le hsuffix hb))

theorem Stacked.bounds (h : Stacked as) (ha : a ∈ as) :
    base.toNat ≤ a.address.toNat ∧ a.address.toNat % pageSize = 0 ∧ a.next ≤ floor as := by
  obtain ⟨later, earlier, rfl⟩ := List.append_of_mem ha
  have hsuffix : (a :: earlier) <:+ later ++ a :: earlier := List.suffix_append _ _
  rw [h a earlier hsuffix, h.next_eq hsuffix]
  exact ⟨base_le_floor _, floor_mod_pageSize _, floor_le_of_suffix hsuffix⟩

theorem Stacked.nodup_address (h : Stacked as) : (as.map (·.address)).Nodup := by
  induction as with
  | nil => exact .nil
  | cons a earlier ih =>
    have hearlier : Stacked earlier := fun b rest hsuffix =>
      h b rest (hsuffix.trans (List.suffix_cons a earlier))
    refine List.nodup_cons.2 ⟨fun hmem => ?_, ih hearlier⟩
    obtain ⟨b, hb, heq⟩ := List.mem_map.1 hmem
    have heq : b.address = a.address := heq
    have hle := h.next_le List.suffix_rfl hb
    have hlt := b.address_lt_next
    rw [heq] at hlt
    omega

/-- How a space lies after changes: the counter stands above the allocations, which are mapped and
stacked, and all other regions start below them. -/
structure Laid (past : List Change) : Prop where
  next_eq : (after past).next.toNat = counter past
  stacked : Stacked (allocations past)
  mapped : ∀ a ∈ allocations past, a.region ∈ (after past).regions
  elsewhere : ∀ r ∈ (after past).regions,
    r.start < base ∨ ∃ a ∈ allocations past, r.start = a.address

theorem laid_nil : Laid [] where
  next_eq := rfl
  stacked := fun _ _ h => nomatch List.suffix_nil.1 h
  mapped := nofun
  elsewhere := nofun

namespace Laid

theorem base_le_address (h : Laid past) (ha : a ∈ allocations past) : base ≤ a.address :=
  UInt64.le_iff_toNat_le.2 (h.stacked.bounds ha).1

theorem start_ne (h : Laid past) (ha : a ∈ allocations past) {start : UInt64}
    (hlow : start < base) : a.region.start ≠ start := by
  rintro rfl
  exact UInt64.not_lt.2 (h.base_le_address ha) hlow

theorem alloc (h : Laid past) (bytes : Bytes) (hroom : counter (.alloc bytes :: past) < 2 ^ 64) :
    Laid (.alloc bytes :: past) where
  next_eq := by
    have hcounter : counter (.alloc bytes :: past) =
        counter past + ((bytes.length + pageSize - 1) / pageSize + 1) * pageSize := rfl
    show ((after past).next + UInt64.ofNat _).toNat = _
    rw [UInt64.toNat_add, UInt64.toNat_ofNat', h.next_eq, hcounter, Nat.add_mod_mod]
    exact Nat.mod_eq_of_lt (hcounter ▸ hroom)
  stacked := h.stacked.cons h.next_eq
  mapped := by
    intro a ha
    rcases List.mem_cons.1 ha with rfl | ha
    · exact mem_map_self
    · refine mem_map_of_ne (h.mapped a ha) fun heq => ?_
      -- the counter has left every allocation behind
      have hnext : a.next ≤ counter past := (h.stacked.bounds ha).2.2
      have hcounter : a.address.toNat = counter past := (congrArg _ heq).trans h.next_eq
      have hlt := a.address_lt_next
      omega
  elsewhere := by
    intro r hr
    rcases mem_place hr with rfl | hr
    · exact .inr ⟨_, List.mem_cons_self, rfl⟩
    · rcases h.elsewhere r hr with hlow | ⟨a, ha, heq⟩
      · exact .inl hlow
      · exact .inr ⟨a, List.mem_cons_of_mem _ ha, heq⟩

theorem map (h : Laid past) {start : UInt64} (bytes : Bytes) (hlow : start < base) :
    Laid (.map start bytes :: past) where
  next_eq := h.next_eq
  stacked := h.stacked
  mapped := fun a ha => mem_map_of_ne (h.mapped a ha) (h.start_ne ha hlow)
  elsewhere := by
    intro r hr
    rcases mem_place hr with rfl | hr
    · exact .inl hlow
    · exact h.elsewhere r hr

theorem unmap (h : Laid past) {start : UInt64} (hlow : start < base) :
    Laid (.unmap start :: past) where
  next_eq := h.next_eq
  stacked := h.stacked
  mapped := fun a ha =>
    List.mem_filter.2 ⟨h.mapped a ha, bne_iff_ne.2 (h.start_ne ha hlow)⟩
  elsewhere := fun r hr => h.elsewhere r (List.mem_filter.1 hr).1

end Laid

theorem laid_after (hlow : ∀ change ∈ past, change.Low) (hroom : counter past < 2 ^ 64) :
    Laid past := by
  induction past with
  | nil => exact laid_nil
  | cons change past ih =>
    have hpast := ih (fun c hc => hlow c (List.mem_cons_of_mem _ hc))
      (Nat.lt_of_le_of_lt (counter_le_cons change past) hroom)
    have hchange := hlow change List.mem_cons_self
    cases change with
    | alloc bytes => exact hpast.alloc bytes hroom
    | map start bytes => exact hpast.map bytes hchange
    | unmap start => exact hpast.unmap hchange

/-! ### What is read there -/

namespace Laid

/-- An allocation serves all of its addresses, those of the empty page included. -/
theorem serves (h : Laid past) (ha : a ∈ allocations past) {address : UInt64}
    (hle : a.address ≤ address) (hlt : address.toNat < a.next) :
    (after past).Serves address a.region where
  mem := h.mapped a ha
  start_le := hle
  greatest := by
    intro r hr hstart
    rcases h.elsewhere r hr with hlow | ⟨b, hb, heq⟩
    · exact UInt64.le_of_lt (UInt64.lt_of_lt_of_le hlow (h.base_le_address ha))
    · rw [heq] at hstart ⊢
      have hstart := UInt64.le_iff_toNat_le.1 hstart
      show b.address ≤ a.address
      rw [UInt64.le_iff_toNat_le]
      have hlt := b.address_lt_next
      rcases h.stacked.apart ha hb with rfl | habove | hbelow
      · exact Nat.le_refl _
      · omega
      · omega

theorem readInto_exactly (h : Laid past) (hroom : counter past < 2 ^ 64)
    (ha : a ∈ allocations past) {o n : Nat} (ho : a.address.toNat + o < a.next) (hn : 1 ≤ n)
    (dest : Field n) :
    let read := (after past).userSpace.readInto (a.address + UInt64.ofNat o) dest
    (read.1 = .ok () ↔ o + n ≤ a.bytes.length) ∧
    (read.1 = .ok () → read.2.bytes = (a.bytes.drop o).take n) := by
  intro read
  have hbelow : a.next ≤ counter past := (h.stacked.bounds ha).2.2
  have haddress : (a.address + UInt64.ofNat o).toNat = a.address.toNat + o := by
    rw [UInt64.toNat_add, UInt64.toNat_ofNat', Nat.add_mod_mod]
    exact Nat.mod_eq_of_lt (by omega)
  have hserves : (after past).Serves (a.address + UInt64.ofNat o) a.region := by
    refine h.serves ha ?_ (haddress ▸ ho)
    rw [UInt64.le_iff_toNat_le, haddress]
    exact Nat.le_add_right _ _
  obtain ⟨hok, hbytes, -⟩ :=
    @AddressSpace.readInto_exactly (after past) (a.address + UInt64.ofNat o) n dest
  by_cases hlt : o < a.bytes.length
  · have htail : (after past).tail (a.address + UInt64.ofNat o) = some (a.bytes.drop o) := by
      rw [hserves.tail_of_lt (by rw [haddress]; exact Nat.add_lt_add_left hlt _), haddress]
      exact congrArg (fun k => some (a.bytes.drop k)) (Nat.add_sub_cancel_left _ _)
    rw [htail] at hok hbytes
    refine ⟨hok.trans ?_, hbytes _ rfl⟩
    simp only [Option.mem_some_iff, exists_eq_left', List.length_drop]
    omega
  · have htail : (after past).tail (a.address + UInt64.ofNat o) = none :=
      hserves.tail_of_le (by rw [haddress]; exact Nat.add_le_add_left (Nat.not_lt.1 hlt) _)
    have hfails : read.1 ≠ .ok () := by
      intro hread
      rcases hok.1 hread with hzero | ⟨bytes, hmem, -⟩
      · omega
      · rw [htail] at hmem
        cases hmem
    exact ⟨iff_of_false hfails (by omega), fun hread => absurd hread hfails⟩

/-- The last page of an allocation is empty, and nothing is read from any address in it. -/
theorem unreadable_page (h : Laid past) (ha : a ∈ allocations past) :
    ∃ page, page % pageSize = 0 ∧ a.address.toNat + a.bytes.length ≤ page ∧
      page + pageSize = a.next ∧ ∀ address : UInt64, page ≤ address.toNat →
        address.toNat < page + pageSize → ∀ {n : Nat} (dest : Field n), 1 ≤ n →
          (after past).userSpace.readInto address dest =
            (.error (.unreadableUser "read_user" address n), dest) := by
  have hlen := a.length_add_pageSize_le
  have hpages : a.next - pageSize = a.address.toNat + (a.pages - 1) * pageSize := by
    unfold Allocation.next
    rw [Nat.sub_mul, Nat.one_mul]
    omega
  have hbytes : a.address.toNat + a.bytes.length ≤ a.next - pageSize := by
    unfold Allocation.next
    omega
  have hend : a.next - pageSize + pageSize = a.next := by
    unfold Allocation.next
    omega
  refine ⟨a.next - pageSize, ?_, hbytes, hend, ?_⟩
  · rw [hpages, Nat.add_mul_mod_self_right]
    exact (h.stacked.bounds ha).2.1
  · intro address hle hlt n dest hn
    have hbehind := hbytes.trans hle
    have hserves : (after past).Serves address a.region :=
      h.serves ha (UInt64.le_iff_toNat_le.2 (by omega)) (hend ▸ hlt)
    have htail : (after past).tail address = none := hserves.tail_of_le hbehind
    refine readInto_of_unmapped dest (Nat.ne_of_gt hn) fun bytes hbytes => ?_
    rw [htail] at hbytes
    cases hbytes

end Laid

/-- Allocations lie apart and stay readable, whatever is mapped below them. At any time after an
allocation, all that was allocated can be read at its address and nothing behind it, up to the
address of the next allocation; in between there is at least one page from which nothing can be
read. -/
theorem allocations_apart (past : List Change) (hlow : ∀ change ∈ past, change.Low)
    (hroom : counter past < 2 ^ 64) :
    (after past).next.toNat = counter past ∧
    (∀ later bytes earlier, past = later ++ .alloc bytes :: earlier →
      ⟨((after earlier).alloc bytes).1, bytes⟩ ∈ allocations past) ∧
    (∀ a ∈ allocations past,
      (∀ o n, 1 ≤ n → a.address.toNat + o < a.next → ∀ dest : Field n,
        let read := (after past).userSpace.readInto (a.address + UInt64.ofNat o) dest
        (read.1 = .ok () ↔ o + n ≤ a.bytes.length) ∧
        (read.1 = .ok () → read.2.bytes = (a.bytes.drop o).take n)) ∧
      a.address.toNat % pageSize = 0 ∧
      ∃ page, page % pageSize = 0 ∧ a.address.toNat + a.bytes.length ≤ page ∧
        page + pageSize = a.next ∧ ∀ address : UInt64, page ≤ address.toNat →
          address.toNat < page + pageSize → ∀ {n : Nat} (dest : Field n), 1 ≤ n →
            (after past).userSpace.readInto address dest =
              (.error (.unreadableUser "read_user" address n), dest)) ∧
    (∀ later b a earlier, allocations past = later ++ b :: a :: earlier →
      b.address.toNat = a.next) ∧
    ((allocations past).map (·.address)).Nodup := by
  have hlaid := laid_after hlow hroom
  refine ⟨hlaid.next_eq, ?listed, fun a ha => ⟨?reads, ?aligned, ?page⟩, ?adjacent,
    hlaid.stacked.nodup_address⟩
  case listed =>
    rintro later bytes earlier rfl
    exact mem_allocations later bytes earlier
  case reads =>
    intro o n hn ho dest
    exact hlaid.readInto_exactly hroom ha ho hn dest
  case aligned => exact (hlaid.stacked.bounds ha).2.1
  case page => exact hlaid.unreadable_page ha
  case adjacent =>
    intro later b a earlier hsplit
    have hsuffix : (b :: a :: earlier) <:+ allocations past := hsplit ▸ List.suffix_append _ _
    rw [hlaid.stacked b _ hsuffix,
      hlaid.stacked.next_eq ((List.suffix_cons b _).trans hsuffix)]

/-- Nothing is read from an allocation of no bytes, although a region from below reaches over it,
and what is allocated next is read as it was. -/
theorem allocations_apart_reached :
    let past : List Change := [.map 0x7effffffffff [1, 2, 3], .alloc [104, 105], .alloc []]
    (∀ change ∈ past, change.Low) ∧ counter past < 2 ^ 64 ∧
    (∀ dest : Field 1, ((after past).userSpace.readInto base dest).1 ≠ .ok ()) ∧
    ∀ dest : Field 2,
      ((after past).userSpace.readInto (base + 0x1000) dest).2.bytes = [104, 105] := by
  intro past
  have hlow : ∀ change ∈ past, change.Low := by decide
  have hroom : counter past < 2 ^ 64 := by decide
  obtain ⟨-, hmem, hreads, -, -⟩ := allocations_apart past hlow hroom
  have hempty : ⟨base, []⟩ ∈ allocations past := hmem [_, _] [] [] rfl
  have hnext : ⟨base + 0x1000, [104, 105]⟩ ∈ allocations past := hmem [_] [104, 105] [_] rfl
  refine ⟨hlow, hroom, fun dest => ?_, fun dest => ?_⟩
  · have hok := ((hreads _ hempty).1 0 1 (by decide) (by decide) dest).1
    exact fun hread => absurd (hok.1 hread) (by decide)
  · obtain ⟨hok, hbytes⟩ := (hreads _ hnext).1 0 2 (by decide) (by decide) dest
    exact hbytes (hok.2 (by decide))

end HookTrace.AddressSpace
