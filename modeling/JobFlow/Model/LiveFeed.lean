import JobFlow.Lib.EventSource
import JobFlow.Model.RedisPublisher

/-!
# The effect of `useJobFlow` that listens

A tab of the browser beside the relay. The effect opens an `EventSource` and its cleanup
closes it. An open source asks for the stream, and asks again when the connection is lost;
the messages of one response come one after the other, and `onmessage` puts each in front.
-/

namespace JobFlow.Model.LiveFeed

open JobFlow.Lib
open JobFlow.Lib.Transition
open RedisPublisher

structure Tab where
  /-- `source` is open. -/
  source : Bool := false
  /-- The response the source reads, and how many of its messages have been dispatched. -/
  connection : Option (ClientID × Nat) := none
  /-- The state `events`, newest first. -/
  events : List (String × Json) := []

/-- `setEvents((current) => [parsed, ...current].slice(0, 30))`. -/
def Tab.onmessage (t : Tab) (parsed : String × Json) : Tab :=
  { t with events := (parsed :: t.events).take 30 }

structure Feed where
  relay : Relay := .initial
  tab : Tab := {}

inductive Label where
  | relay (l : Relay.Label)
  | opened
  | closed
  | connected (c : ClientID)
  | dropped
  | message

inductive Act where
  | relay (a : Relay.Act)
  | opened
  | closed
  | connected (c : ClientID)
  | dropped
  /-- The data of a message, and what `onmessage` reads in them. -/
  | message (data : String) (parsed : Option (String × Json))

/-- The next message of the response is dispatched. -/
def Feed.dispatch (s : Feed) (c : ClientID) (n : Nat) : Option (Feed × Act) :=
  (EventSource.messages (s.relay.bytes c))[n]?.map fun message =>
    let t := { s.tab with connection := some (c, n + 1) }
    match decode message.data with
    | some parsed => ({ s with tab := t.onmessage parsed }, .message message.data (some parsed))
    | none => ({ s with tab := t }, .message message.data none)

def step : Machine Feed Label Act := fun s l =>
  match l with
  | .relay l => (Relay.step s.relay l).map fun x => ({ s with relay := x.1 }, .relay x.2)
  | .opened => some ({ s with tab := { s.tab with source := true, connection := none } }, .opened)
  | .closed => some ({ s with tab := { s.tab with source := false, connection := none } }, .closed)
  | .connected c =>
    if s.tab.source ∧ s.tab.connection = none then
      (Relay.step s.relay (.connect c)).map fun x =>
        (⟨x.1, { s.tab with connection := some (c, 0) }⟩, .connected c)
    else none
  | .dropped => s.tab.connection.map fun _ =>
      ({ s with tab := { s.tab with connection := none } }, .dropped)
  | .message => s.tab.connection.bind fun p => s.dispatch p.1 p.2

end JobFlow.Model.LiveFeed
