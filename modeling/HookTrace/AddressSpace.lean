import HookTrace.Field
import HookTrace.Fault

/-!
# HookTrace.AddressSpace

Memory as a set of mapped regions, and what hooks see of it.

* `AddressSpace`: regions by start address, the highest start first. A read is served by the
  region with the greatest start at or below the address, even where another reaches further.
* `tail`: the bytes from an address to the end of its region. Both kinds of read are decided by
  it, and a failed read yields nothing.
* `UserSpace`: the two reads that a hook may do, each of which may fail.
* `UserSpace.readInto`, `readStringInto`: the same reads as they change a destination.
-/

namespace HookTrace

/-- Reads out of a traced process. A string read yields the bytes written, terminator
included, which are never more than asked for. -/
structure UserSpace where
  read : UInt64 → (length : Nat) → Except Fault (Field length)
  readString : UInt64 → (length : Nat) → Except Fault Bytes

namespace UserSpace

variable {n : Nat}

/-- Reads into a field, and says what is in it then. -/
def readInto (space : UserSpace) (address : UInt64) (dest : Field n) :
    Except Fault Unit × Field n :=
  match space.read address n with
  | .ok read => (.ok (), read)
  | .error fault => (.error fault, dest)

/-- Reads a string into a field, and says how many bytes were written and what is in it then. -/
def readStringInto (space : UserSpace) (address : UInt64) (dest : Field n) :
    Except Fault Nat × Field n :=
  match space.readString address n with
  | .ok written => (.ok written.length, dest.overwrite written)
  | .error fault => (.error fault, dest)

end UserSpace

structure Region where
  start : UInt64
  bytes : Bytes

structure AddressSpace where
  /-- Highest start first, no two alike. -/
  regions : List Region
  sorted : regions.Pairwise (·.start > ·.start)
  next : UInt64

namespace AddressSpace

def pageSize : Nat := 0x1000

/-- Fresh regions lie from here upwards. -/
def base : UInt64 := 0x7f0000000000

def empty : AddressSpace where
  regions := []
  sorted := .nil
  next := base

/-- Puts a region in its place, instead of one with the same start. -/
def place (region : Region) : List Region → List Region
  | [] => [region]
  | r :: rest =>
    if r.start > region.start then r :: place region rest
    else if r.start == region.start then region :: rest
    else region :: r :: rest

theorem mem_place {region r : Region} {regions : List Region} (h : r ∈ place region regions) :
    r = region ∨ r ∈ regions := by
  induction regions with
  | nil => simpa [place] using h
  | cons x rest ih =>
    simp only [place] at h
    split at h
    · rcases List.mem_cons.1 h with h | h
      · exact .inr (by simp [h])
      · rcases ih h with h | h
        · exact .inl h
        · exact .inr (List.mem_cons_of_mem _ h)
    · split at h
      · rcases List.mem_cons.1 h with h | h
        · exact .inl h
        · exact .inr (List.mem_cons_of_mem _ h)
      · rcases List.mem_cons.1 h with h | h
        · exact .inl h
        · exact .inr h

theorem sorted_place {regions : List Region} (region : Region)
    (h : regions.Pairwise (·.start > ·.start)) :
    (place region regions).Pairwise (·.start > ·.start) := by
  induction regions with
  | nil => simp [place]
  | cons x rest ih =>
    obtain ⟨hx, hrest⟩ := List.pairwise_cons.1 h
    simp only [place]
    split
    · rename_i hlt
      refine List.pairwise_cons.2 ⟨fun r hr => ?_, ih hrest⟩
      rcases mem_place hr with rfl | hr
      · exact hlt
      · exact hx r hr
    · split
      · rename_i heq
        have heq : x.start = region.start := by simpa using heq
        exact List.pairwise_cons.2 ⟨fun r hr => heq ▸ hx r hr, hrest⟩
      · rename_i hlt hne
        have hxr : x.start < region.start := by
          have hne : x.start ≠ region.start := by simpa using hne
          have h1 : x.start ≤ region.start := UInt64.not_lt.1 hlt
          exact UInt64.lt_of_le_of_ne h1 hne
        refine List.pairwise_cons.2 ⟨fun r hr => ?_, h⟩
        rcases List.mem_cons.1 hr with rfl | hr
        · exact hxr
        · exact UInt64.lt_trans (hx r hr) hxr

/-- Maps `bytes` at `start`, replacing a region that starts there. -/
def map (space : AddressSpace) (start : UInt64) (bytes : Bytes) : AddressSpace where
  regions := place ⟨start, bytes⟩ space.regions
  sorted := sorted_place _ space.sorted
  next := space.next

def unmap (space : AddressSpace) (start : UInt64) : AddressSpace where
  regions := space.regions.filter (·.start != start)
  sorted := space.sorted.filter _
  next := space.next

/-- Maps `bytes` at a fresh page and leaves at least one page behind them unmapped. -/
def alloc (space : AddressSpace) (bytes : Bytes) : UInt64 × AddressSpace :=
  let pages := (bytes.length + pageSize - 1) / pageSize + 1
  let space' := space.map space.next bytes
  (space.next, { space' with next := space.next + UInt64.ofNat (pages * pageSize) })

/-- The mapped bytes from `address` to the end of its region; `none` if there are none. -/
def tail (space : AddressSpace) (address : UInt64) : Option Bytes :=
  match space.regions.find? (·.start ≤ address) with
  | none => none
  | some region =>
    match region.bytes.drop (address - region.start).toNat with
    | [] => none
    | b :: rest => some (b :: rest)

/-- The `length` bytes at `address`, if all of them are mapped in its region. -/
def bytesAt (space : AddressSpace) (address : UInt64) (length : Nat) : Option (Field length) :=
  if h : length = 0 then some ⟨[], h ▸ rfl⟩
  else
    match space.tail address with
    | none => none
    | some tail =>
      if h : length ≤ tail.length then some ⟨tail.take length, List.length_take_of_le h⟩
      else none

/-- The string at `address` as it is copied into `length` bytes, terminator included. It ends at
its terminator or is cut to fit; one that runs off its region before either is not read. -/
def stringAt (space : AddressSpace) (address : UInt64) (length : Nat) : Option Bytes :=
  match length with
  | 0 => some []
  | limit + 1 =>
    match space.tail address with
    | none => none
    | some tail =>
      let text := Bytes.text (tail.take limit)
      if text.length < limit ∧ tail.length ≤ text.length then none
      else some (text ++ [0])

def userSpace (space : AddressSpace) : UserSpace where
  read address length :=
    match space.bytesAt address length with
    | some field => .ok field
    | none => .error (.unreadableUser "read_user" address length)
  readString address length :=
    match space.stringAt address length with
    | some bytes => .ok bytes
    | none => .error (.unreadableUser "read_user_str" address length)

end AddressSpace

end HookTrace
