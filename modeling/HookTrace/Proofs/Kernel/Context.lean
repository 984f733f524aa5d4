import HookTrace.Kernel.Program

/-!
# HookTrace.Proofs.Kernel.Context

The context of a system call's tracepoint as it lies in memory. Behind a common header and the
number of the call come the arguments, or the returned value, each a word with the least significant
byte first. `Context.argument_ofBytes`: reading an argument with a check is reading the word at its
offset, and fails if the context ends before that word does.
-/

namespace HookTrace.Kernel.Context

variable {bytes : Bytes} {index : Nat}

/-- Where the words begin: behind the common header and the number of the system call. -/
def wordsOffset : Nat := 16

/-- Where the word of an argument lies. The returned value lies where the first argument does. -/
def offset (index : Nat) : Nat :=
  wordsOffset + 8 * index

def wordAt (bytes : Bytes) (offset : Nat) : UInt64 :=
  UInt64.ofNat (Bytes.toNatLE ((bytes.drop offset).take 8))

/-- The word at an offset, if all of it is there. -/
def readWord (bytes : Bytes) (offset : Nat) : Option UInt64 :=
  if offset + 8 ≤ bytes.length then some (wordAt bytes offset) else none

/-- The context that lies in memory as `bytes`. -/
def ofBytes (bytes : Bytes) : Context where
  words := (List.range ((bytes.length - wordsOffset) / 8)).map fun index =>
    wordAt bytes (offset index)

theorem readWord_eq_none_iff {start : Nat} :
    readWord bytes start = none ↔ bytes.length < start + 8 := by
  unfold readWord
  by_cases h : start + 8 ≤ bytes.length
  · simp [h]
  · simp [h, Nat.not_le.1 h]

theorem words_ofBytes (bytes : Bytes) (index : Nat) :
    (ofBytes bytes).words[index]? = readWord bytes (offset index) := by
  have hfits : index < (bytes.length - wordsOffset) / 8 ↔ offset index + 8 ≤ bytes.length := by
    unfold offset wordsOffset
    omega
  unfold ofBytes readWord
  rw [List.getElem?_map]
  by_cases h : offset index + 8 ≤ bytes.length
  · rw [List.getElem?_range (hfits.2 h), if_pos h]
    rfl
  · rw [List.getElem?_eq_none (by rw [List.length_range]; exact Nat.not_lt.1 (mt hfits.1 h)),
      if_neg h]
    rfl

theorem argument_ofBytes (bytes : Bytes) (op : String) (index : Nat) :
    (ofBytes bytes).argument op index =
      (readWord bytes (offset index)).elim (.error (.missingArgument op index)) .ok := by
  rw [← words_ofBytes]
  unfold argument
  cases (ofBytes bytes).words[index]? with
  | none => rfl
  | some word => rfl

end HookTrace.Kernel.Context
