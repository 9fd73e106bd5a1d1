import Mathlib.Data.List.Basic

/-!
# Bounded channels

A channel of a fixed capacity with first-in first-out delivery. Sending never
waits: a message that does not fit is dropped. Sending on a closed channel and
closing one twice are faults, which the operations report as `none`.
-/

namespace JobFlow.Lib

/-- The messages that are sent and not yet received, oldest first. -/
structure Channel (α : Type*) (capacity : Nat) where
  buffer : List α
  closed : Bool
  fits : buffer.length ≤ capacity

namespace Channel

variable {α : Type*} {capacity : Nat}

def make : Channel α capacity := ⟨[], false, Nat.zero_le _⟩

/-- Send without waiting. -/
def trySend (ch : Channel α capacity) (m : α) : Option (Channel α capacity) :=
  if ch.closed then none
  else if h : ch.buffer.length < capacity then
    some ⟨ch.buffer ++ [m], ch.closed, by rw [List.length_append]; exact h⟩
  else some ch

/-- The oldest message; `none` where a receive would wait. -/
def recv (ch : Channel α capacity) : Option (α × Channel α capacity) :=
  match ch with
  | ⟨[], _, _⟩ => none
  | ⟨m :: rest, closed, fits⟩ => some (m, ⟨rest, closed, Nat.le_of_succ_le fits⟩)

def close (ch : Channel α capacity) : Option (Channel α capacity) :=
  if ch.closed then none else some { ch with closed := true }

@[simp] theorem make_buffer : (make : Channel α capacity).buffer = [] := rfl
@[simp] theorem make_closed : (make : Channel α capacity).closed = false := rfl

theorem trySend_isSome (ch : Channel α capacity) (m : α) :
    (ch.trySend m).isSome ↔ ch.closed = false := by
  unfold trySend
  split
  · simp_all
  · split <;> simp_all

/-- A send that does not fault appends the message where it fits and otherwise
leaves the channel as it is. -/
theorem trySend_eq_some {ch ch' : Channel α capacity} {m : α} (h : ch.trySend m = some ch') :
    ch'.closed = ch.closed ∧
      ch'.buffer = if ch.buffer.length < capacity then ch.buffer ++ [m] else ch.buffer := by
  unfold trySend at h
  split at h
  · cases h
  · split at h
    · next hlt =>
      cases h
      exact ⟨rfl, by rw [if_pos hlt]⟩
    · next hge =>
      cases h
      exact ⟨rfl, by rw [if_neg hge]⟩

theorem recv_eq_some {ch ch' : Channel α capacity} {m : α} (h : ch.recv = some (m, ch')) :
    ch.buffer = m :: ch'.buffer ∧ ch'.closed = ch.closed := by
  unfold recv at h
  split at h <;> cases h
  exact ⟨rfl, rfl⟩

theorem close_eq_some {ch ch' : Channel α capacity} (h : ch.close = some ch') :
    ch.closed = false ∧ ch'.closed = true ∧ ch'.buffer = ch.buffer := by
  unfold close at h
  split at h
  · cases h
  · next hc =>
    cases h
    exact ⟨by simpa using hc, rfl, rfl⟩

theorem close_isSome (ch : Channel α capacity) : ch.close.isSome ↔ ch.closed = false := by
  unfold close
  split <;> simp_all

end Channel

end JobFlow.Lib
