import JobFlow.Lib.Channel
import JobFlow.Lib.Transition
import Mathlib.Data.Finset.Basic
import Mathlib.Data.Finset.Dedup
import Mathlib.Logic.Function.Basic

/-!
# `realtime.Broker`

The broker sends every message of the relay to the channel of each registered
client; each call of `ServeHTTP` registers a channel of its own, reads from it,
and when its request ends deregisters and then closes it. The lock makes a
publish, a registration and a deregistration one step each.
-/

namespace JobFlow.Model

open JobFlow.Lib (Channel)

/-- The channel of one call of `ServeHTTP`. -/
abbrev ClientID := Nat

/-- Where a call of `ServeHTTP` stands: not yet called, in its loop, deregistered
but with the channel still open, and returned. -/
inductive Phase where
  | absent
  | serving
  | leaving
  | returned
  deriving DecidableEq

/-- `make(chan []byte, 16)`. -/
def clientCapacity : Nat := 16

structure Connection (α : Type) where
  channel : Channel α clientCapacity
  phase : Phase
  /-- What was written to the response, oldest first. -/
  received : List α

structure Broker (α : Type) where
  /-- The keys of `b.clients`. -/
  clients : Finset ClientID
  connections : ClientID → Connection α

namespace Broker

variable {α : Type}

def initial : Broker α := ⟨∅, fun _ => ⟨.make, .absent, []⟩⟩

def put (b : Broker α) (c : ClientID) (conn : Connection α) : Broker α :=
  { b with connections := Function.update b.connections c conn }

/-- One round of the loop in `publishRaw`; `none` is the panic of a send on a
closed channel. -/
def send (body : α) (b : Broker α) (c : ClientID) : Option (Broker α) :=
  ((b.connections c).channel.trySend body).map fun ch =>
    b.put c { b.connections c with channel := ch }

/-- `for client := range b.clients`, in the given order of the keys. -/
def publishRaw (b : Broker α) (order : List ClientID) (body : α) : Option (Broker α) :=
  order.foldlM (send body) b

inductive Label (α : Type) where
  | publish (order : List ClientID) (body : α)
  | connect (c : ClientID)
  | read (c : ClientID)
  | disconnect (c : ClientID)
  | close (c : ClientID)

inductive Act (α : Type) where
  | published (body : α)
  | connected (c : ClientID)
  | read (c : ClientID)
  | disconnected (c : ClientID)
  | closed (c : ClientID)
  | panicked
  deriving DecidableEq

def step : Lib.Transition.Machine (Broker α) (Label α) (Act α) := fun b l =>
  match l with
  | .publish order body =>
    if order.Nodup ∧ order.toFinset = b.clients then
      match b.publishRaw order body with
      | some b' => some (b', .published body)
      | none => some (b, .panicked)
    else none
  | .connect c =>
    match (b.connections c).phase with
    | .absent =>
      some ({ b.put c ⟨.make, .serving, []⟩ with clients := insert c b.clients }, .connected c)
    | _ => none
  | .read c =>
    match (b.connections c).phase, (b.connections c).channel.recv with
    | .serving, some (m, ch) =>
      some (b.put c ⟨ch, .serving, (b.connections c).received ++ [m]⟩, .read c)
    | _, _ => none
  | .disconnect c =>
    match (b.connections c).phase with
    | .serving =>
      some ({ b.put c { b.connections c with phase := .leaving } with
        clients := b.clients.erase c }, .disconnected c)
    | _ => none
  | .close c =>
    match (b.connections c).phase with
    | .leaving =>
      match (b.connections c).channel.close with
      | some ch => some (b.put c { b.connections c with channel := ch, phase := .returned },
          .closed c)
      | none => some (b, .panicked)
    | _ => none

end Broker

end JobFlow.Model
