/-!
# HookTrace.Store.Fifo

A first-in first-out queue. Elements leave at the front and come in at the back, which is kept
in reverse so that both ends are at hand; `toList` is the queue in order.
-/

namespace HookTrace.Store

structure Fifo (α : Type) where
  front : List α
  /-- Last in, first. -/
  back : List α
deriving DecidableEq

namespace Fifo

variable {α : Type}

def empty : Fifo α := ⟨[], []⟩

def toList (queue : Fifo α) : List α :=
  queue.front ++ queue.back.reverse

def size (queue : Fifo α) : Nat :=
  queue.front.length + queue.back.length

def push (queue : Fifo α) (a : α) : Fifo α :=
  ⟨queue.front, a :: queue.back⟩

def pop? (queue : Fifo α) : Option (α × Fifo α) :=
  match queue.front with
  | a :: front => some (a, ⟨front, queue.back⟩)
  | [] =>
    match queue.back.reverse with
    | a :: front => some (a, ⟨front, []⟩)
    | [] => none

@[simp] theorem toList_empty : (empty : Fifo α).toList = [] := rfl

@[simp] theorem toList_push (queue : Fifo α) (a : α) :
    (queue.push a).toList = queue.toList ++ [a] := by
  simp [push, toList]

@[simp] theorem size_eq_length_toList (queue : Fifo α) : queue.size = queue.toList.length := by
  simp [size, toList]

theorem pop?_eq_none_iff (queue : Fifo α) : queue.pop? = none ↔ queue.toList = [] := by
  obtain ⟨front, back⟩ := queue
  cases front with
  | cons a front => simp [pop?, toList]
  | nil => cases h : back.reverse <;> simp [pop?, toList, h]

theorem toList_of_pop? {queue rest : Fifo α} {a : α} (h : queue.pop? = some (a, rest)) :
    queue.toList = a :: rest.toList := by
  obtain ⟨front, back⟩ := queue
  cases front with
  | cons b front =>
    simp only [pop?, Option.some.injEq, Prod.mk.injEq] at h
    obtain ⟨rfl, rfl⟩ := h
    simp [toList]
  | nil =>
    cases hb : back.reverse with
    | nil => simp [pop?, hb] at h
    | cons b front =>
      simp only [pop?, hb, Option.some.injEq, Prod.mk.injEq] at h
      obtain ⟨rfl, rfl⟩ := h
      simp [toList, hb]

end Fifo

end HookTrace.Store
