import JobFlow.Model.Broker
import JobFlow.Model.JsonValue
import JobFlow.Model.JsonWriter

/-!
# Any event on its way from a publisher to the browser

`RedisPublisher.Publish` for whatever name and payload, the channel of Redis, the API
process that relays it, and what the browser makes of a message.
-/

namespace JobFlow.Model.RedisPublisher

/-- `json.Marshal(map[string]any{"event": event, "data": payload})`. -/
def body (event : String) (payload : Document) : String :=
  Wire.compact (.object [("data", payload.1), ("event", .string event)])

structure Relay where
  /-- What was published on the channel, oldest first. -/
  channel : List String
  /-- How many of the messages have been relayed or lost. -/
  relayed : Nat
  broker : Broker String

def Relay.initial : Relay := ⟨[], 0, .initial⟩

inductive Relay.Label where
  | publish (event : String) (payload : Document)
  | relay (order : List ClientID)
  | lose
  | connect (c : ClientID)
  | read (c : ClientID)
  | disconnect (c : ClientID)
  | close (c : ClientID)

inductive Relay.Act where
  | published (event : String) (payload : Document)
  | lost
  | served (a : Broker.Act String)

/-- A step of the broker. -/
def Relay.serve (r : Relay) (l : Broker.Label String) : Option (Relay × Relay.Act) :=
  (Broker.step r.broker l).map fun x => ({ r with broker := x.1 }, .served x.2)

def Relay.step : Lib.Transition.Machine Relay Relay.Label Relay.Act := fun r l =>
  match l with
  | .publish event payload =>
    some ({ r with channel := r.channel ++ [body event payload] }, .published event payload)
  | .relay order =>
    r.channel[r.relayed]?.bind fun msg =>
      { r with relayed := r.relayed + 1 }.serve (.publish order msg)
  | .lose => r.channel[r.relayed]?.map fun _ => ({ r with relayed := r.relayed + 1 }, .lost)
  | .connect c => r.serve (.connect c)
  | .read c => r.serve (.read c)
  | .disconnect c => r.serve (.disconnect c)
  | .close c => r.serve (.close c)

/-- What the response to a client has carried. -/
def Relay.bytes (r : Relay) (c : ClientID) : String :=
  String.join ((r.broker.connections c).received.map Wire.frame)

/-- The name and the data of an event, as `onmessage` reads them. -/
def decode (data : String) : Option (String × Json) :=
  match JsonText.parse data with
  | some (.object fields) =>
    match Json.property fields "event", Json.property fields "data" with
    | some (.string event), some payload => some (event, payload)
    | _, _ => none
  | _ => none

end JobFlow.Model.RedisPublisher
