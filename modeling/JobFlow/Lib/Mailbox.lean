import Mathlib.Data.List.Basic

/-!
# One receiver behind a bounded buffer

What a receiver sees depends on four kinds of events: the mailbox opens, a message
is offered, the receiver takes the oldest unread message, the mailbox is shut. A
message offered to an open mailbox with room is accepted; any other is lost. The
accepted messages are those received followed by those still unread, in the order
of the offers.
-/

namespace JobFlow.Lib

structure Mailbox (α : Type*) where
  isOpen : Bool
  unread : List α
  received : List α

namespace Mailbox

variable {α : Type*} (capacity : Nat)

inductive Event (α : Type*) where
  | opened
  | offered (m : α)
  | taken
  | shut
  deriving DecidableEq

def empty : Mailbox α := ⟨false, [], []⟩

/-- One event at a mailbox that holds at most `capacity` unread messages. -/
def hear (b : Mailbox α) : Event α → Mailbox α
  | .opened => { b with isOpen := true }
  | .offered m =>
    if b.isOpen ∧ b.unread.length < capacity then { b with unread := b.unread ++ [m] } else b
  | .taken =>
    match b.unread with
    | [] => b
    | m :: rest => { b with unread := rest, received := b.received ++ [m] }
  | .shut => { b with isOpen := false }

/-- The accepted messages. -/
def accepted (b : Mailbox α) : List α := b.received ++ b.unread

/-- The messages offered to an open mailbox, whether accepted or lost, when the
mailbox is open at first or not. -/
def offers : Bool → List (Event α) → List α
  | _, [] => []
  | _, .opened :: es => offers true es
  | _, .shut :: es => offers false es
  | true, .offered m :: es => m :: offers true es
  | false, .offered _ :: es => offers false es
  | isOpen, .taken :: es => offers isOpen es

/-- An event adds at most one message to the accepted ones, and only an offer to an
open mailbox with room does. -/
theorem accepted_hear (b : Mailbox α) (e : Event α) :
    (∃ m, e = .offered m ∧ b.isOpen ∧ b.unread.length < capacity ∧
      (b.hear capacity e).accepted = b.accepted ++ [m]) ∨
    ((b.hear capacity e).accepted = b.accepted ∧
      ∀ m, e = .offered m → b.isOpen → capacity ≤ b.unread.length) := by
  cases e with
  | opened | shut => exact .inr ⟨rfl, by simp⟩
  | offered m =>
    by_cases h : b.isOpen ∧ b.unread.length < capacity
    · refine .inl ⟨m, rfl, h.1, h.2, ?_⟩
      simp [hear, h, accepted]
    · refine .inr ⟨by simp [hear, h], ?_⟩
      intro _ _ hopen
      exact Nat.le_of_not_lt fun hlt => h ⟨hopen, hlt⟩
  | taken =>
    refine .inr ⟨?_, by simp⟩
    cases hu : b.unread <;> simp [hear, accepted, hu]

theorem accepted_prefix_hear (b : Mailbox α) (e : Event α) :
    b.accepted <+: (b.hear capacity e).accepted := by
  rcases accepted_hear capacity b e with ⟨m, -, -, -, h⟩ | ⟨h, -⟩
  · exact h ▸ List.prefix_append _ _
  · exact h ▸ List.prefix_rfl

/-- What was accepted stays accepted, at its place. -/
theorem accepted_prefix (b : Mailbox α) (es : List (Event α)) :
    b.accepted <+: (es.foldl (hear capacity) b).accepted := by
  induction es generalizing b with
  | nil => exact List.prefix_rfl
  | cons e es ih => exact (accepted_prefix_hear capacity b e).trans (ih _)

theorem isOpen_hear (b : Mailbox α) (e : Event α) :
    (b.hear capacity e).isOpen = match e with
      | .opened => true
      | .shut => false
      | _ => b.isOpen := by
  cases e with
  | opened | shut => rfl
  | offered m =>
    simp only [hear]
    split <;> rfl
  | taken =>
    simp only [hear]
    split <;> rfl

/-- A mailbox stays open until it is shut. -/
theorem isOpen_of_not_shut {b : Mailbox α} {es : List (Event α)} (hb : b.isOpen)
    (hes : .shut ∉ es) : (es.foldl (hear capacity) b).isOpen := by
  induction es generalizing b with
  | nil => exact hb
  | cons e es ih =>
    refine ih ?_ fun h => hes (List.mem_cons_of_mem _ h)
    rw [isOpen_hear]
    split
    · rfl
    · exact absurd List.mem_cons_self hes
    · exact hb

/-- The accepted messages are offered ones, in the order of the offers. -/
theorem accepted_sublist (b : Mailbox α) (es : List (Event α)) :
    (es.foldl (hear capacity) b).accepted.Sublist (b.accepted ++ offers b.isOpen es) := by
  induction es generalizing b with
  | nil => simp [offers]
  | cons e es ih =>
    refine (ih (b.hear capacity e)).trans ?_
    rw [isOpen_hear]
    rcases accepted_hear capacity b e with ⟨m, rfl, hopen, -, h⟩ | ⟨h, -⟩
    · rw [h, hopen, List.append_assoc]
      exact .refl _
    · rw [h]
      refine List.Sublist.append_left ?_ _
      cases e with
      | opened | shut | taken => cases b.isOpen <;> exact .refl _
      | offered m =>
        cases b.isOpen
        · exact .refl _
        · exact List.sublist_cons_self _ _

/-- An offer to an open mailbox is lost only where the buffer is full. Otherwise the
message keeps the place it was accepted at. -/
theorem accepted_of_offer {b : Mailbox α} (hb : b.isOpen) (m : α) (es : List (Event α)) :
    capacity ≤ b.unread.length ∨
    ((Event.offered m :: es).foldl (hear capacity) b).accepted[b.accepted.length]? = some m := by
  rcases accepted_hear capacity b (.offered m) with ⟨m', heq, -, -, h⟩ | ⟨-, h⟩
  · cases heq
    right
    rw [List.foldl_cons]
    obtain ⟨later, hlater⟩ := accepted_prefix capacity (b.hear capacity (.offered m)) es
    rw [← hlater, h, List.append_assoc, List.getElem?_append_right (Nat.le_refl _), Nat.sub_self]
    rfl
  · exact .inl (h m rfl hb)

/-- Two mailboxes to which the same has happened, up to what the messages say. -/
structure Alike (b b' : Mailbox α) : Prop where
  isOpen : b'.isOpen = b.isOpen
  unread : b'.unread.length = b.unread.length
  received : b'.received.length = b.received.length

/-- Events of one kind keep them alike. -/
theorem Alike.hear {b b' : Mailbox α} (h : Alike b b') {e e' : Event α}
    (he : e' = e ∨ ∃ m m', e = .offered m ∧ e' = .offered m') :
    Alike (b.hear capacity e) (b'.hear capacity e') := by
  obtain ⟨hopen, hunread, hreceived⟩ := h
  rcases he with rfl | ⟨m, m', rfl, rfl⟩
  · cases e' with
    | opened => exact ⟨rfl, hunread, hreceived⟩
    | shut => exact ⟨rfl, hunread, hreceived⟩
    | offered m =>
      simp only [Mailbox.hear, hopen, hunread]
      split
      · exact ⟨rfl, by simp [hunread], hreceived⟩
      · exact ⟨hopen, hunread, hreceived⟩
    | taken =>
      obtain ⟨isOpen, unread, received⟩ := b
      obtain ⟨isOpen', unread', received'⟩ := b'
      cases unread <;> cases unread' <;> simp at hunread
      · exact ⟨hopen, rfl, hreceived⟩
      · exact ⟨hopen, hunread, by simpa [Mailbox.hear] using hreceived⟩
  · simp only [Mailbox.hear, hopen, hunread]
    split
    · exact ⟨rfl, by simp [hunread], hreceived⟩
    · exact ⟨hopen, hunread, hreceived⟩

/-- The accepted messages stay the same exactly if an offer that is accepted offers the
same message. -/
theorem Alike.accepted_hear {b b' : Mailbox α} (h : Alike b b') (ha : b.accepted = b'.accepted)
    (m m' : α) : (b.hear capacity (.offered m)).accepted = (b'.hear capacity (.offered m')).accepted ↔
      (b.isOpen → b.unread.length < capacity → m = m') := by
  simp only [Mailbox.hear, h.isOpen, h.unread]
  split
  · next hroom =>
    simp only [accepted] at ha ⊢
    rw [← List.append_assoc, ← List.append_assoc, ha, List.append_cancel_left_eq,
      List.singleton_inj]
    exact ⟨fun hm _ _ => hm, fun hm => hm hroom.1 hroom.2⟩
  · next hroom => exact iff_of_true ha fun hopen hlt => absurd ⟨hopen, hlt⟩ hroom

theorem accepted_hear_of_ne {b : Mailbox α} {e : Event α} (h : ∀ m, e ≠ .offered m) :
    (b.hear capacity e).accepted = b.accepted := by
  rcases accepted_hear capacity b e with ⟨m, rfl, -⟩ | ⟨h, -⟩
  · exact absurd rfl (h m)
  · exact h

theorem Alike.received_eq {b b' : Mailbox α} (h : Alike b b') (ha : b.accepted = b'.accepted) :
    b.received = b'.received := (List.append_inj ha h.received.symm).1

end Mailbox

end JobFlow.Lib
