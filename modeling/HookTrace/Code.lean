/-!
# HookTrace.Code

Enumerations that records hold as raw integers, so that a record is valid whatever it is read
back from. `decode?` undoes `code` and refuses every other integer.
-/

namespace HookTrace

class Coded (α : Type) where
  all : List α
  code : α → Nat
  label : α → String

/-- The value with the given code. -/
def decode? (α : Type) [Coded α] (n : Nat) : Option α :=
  (Coded.all (α := α)).find? (Coded.code · == n)

end HookTrace
