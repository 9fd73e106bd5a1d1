import JobFlow.Model.Broker
import JobFlow.Model.Router
import JobFlow.Model.Wire

/-!
# The way of an event to a subscriber

The system with one API process that has subscribers: `SubscribeRedis` takes the messages
of the channel one after the other and hands each to the broker, or loses it with its
connection. A request that the router sends to the events handler becomes a client.
-/

namespace JobFlow.Model.EventStream

open JobFlow.Lib.Transition

structure Deployment where
  system : State := .initial
  /-- How many messages of the channel have been taken or lost. -/
  relayed : Nat := 0
  broker : Broker String := .initial

inductive Input where
  | system (l : Label)
  | relay (order : List ClientID)
  | lose
  | connect (c : ClientID) (request : HttpRequest)
  | read (c : ClientID)
  | disconnect (c : ClientID)
  | close (c : ClientID)

/-- The message that is relayed next. -/
def Deployment.next (d : Deployment) : Option Event := d.system.world.events[d.relayed]?

/-- A step of the broker. -/
def Deployment.serve (d : Deployment) (l : Broker.Label String) : Option Deployment :=
  (Broker.step d.broker l).map fun x => { d with broker := x.1 }

variable (timeText : Time → String) (parse : String → Option String)

def turn (d : Deployment) : Input → Option Deployment
  | .system l => (Model.step d.system l).map fun x => { d with system := x.1 }
  | .relay order => do
    let e ← d.next
    { d with relayed := d.relayed + 1 }.serve (.publish order (Wire.marshal timeText e))
  | .lose => d.next.map fun _ => { d with relayed := d.relayed + 1 }
  | .connect c request =>
    match Router.route parse request with
    | .handled .events _ _ => d.serve (.connect c)
    | _ => none
  | .read c => d.serve (.read c)
  | .disconnect c => d.serve (.disconnect c)
  | .close c => d.serve (.close c)

def step : Machine Deployment Input Unit :=
  fun d l => (turn timeText parse d l).map fun d' => (d', ())

/-- What the response to a client has carried. -/
def Deployment.bytes (d : Deployment) (c : ClientID) : String :=
  String.join ((d.broker.connections c).received.map Wire.frame)

/-- The route of the events has no middleware: whatever the headers say, the request
comes to the handler, and without a user. -/
theorem route_events (headers : List (String × String)) :
    Router.route parse ⟨.get, "/api/events", headers⟩ = .handled .events none [] := by
  have hfind : Router.find .get "/api/events" =
      some (⟨.get, [.literal "api", .literal "events"], .events, false⟩, []) := rfl
  simp [Router.route, hfind]

end JobFlow.Model.EventStream
