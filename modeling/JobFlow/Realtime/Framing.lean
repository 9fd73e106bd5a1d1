import JobFlow.Model.RedisPublisher
import JobFlow.Realtime.Delivery

/-!
# Frames on the event stream

The frame around a message has no escapes of its own. It holds because the text of a
document is on one line, whatever the strings in it contain.
-/

namespace JobFlow.Realtime.Framing

open JobFlow.Model
open JobFlow.Model.RedisPublisher
open JobFlow.Realtime.Delivery
open JobFlow.Lib
open JobFlow.Lib.EventSource
open JobFlow.Lib.Transition

/-- The document that is published. -/
def publication (event : String) (payload : Document) : Document :=
  ⟨.object [("data", payload.1), ("event", .string event)], by
    simp [Json.valid, Json.validFields, payload.2]⟩

theorem body_oneLine (event : String) (payload : Document) :
    OneLine (body event payload).toList :=
  JsonText.compact_oneLine _ (publication event payload).2

theorem decode_body (event : String) (payload : Document) :
    decode (body event payload) = some (event, payload.1) := by
  have hparse : JsonText.parse (body event payload) =
      some (.object [("data", payload.1), ("event", .string event)]) :=
    JsonText.parse_compact (publication event payload)
  rw [decode, hparse]
  rfl

theorem toList_frame (msg : String) : (Wire.frame msg).toList = frame msg.toList := by
  rw [Wire.frame, String.toList_append, String.toList_append]
  rfl

/-- Messages on one line each are read from their frames. -/
theorem messages_join {bodies : List String} (h : ∀ b ∈ bodies, OneLine b.toList) :
    messages (String.join (bodies.map Wire.frame)) = bodies.map fun b => ⟨"message", b, ""⟩ := by
  have hbytes : String.join (bodies.map Wire.frame) =
      String.ofList ((bodies.map String.toList).flatMap frame) := by
    rw [← String.toList_inj, String.toList_join, String.toList_ofList, List.flatMap_map,
      List.flatMap_map]
    exact List.flatMap_congr fun b _ => toList_frame b
  have htexts : ∀ data ∈ bodies.map String.toList, OneLine data := by
    intro data hdata
    obtain ⟨b, hb, rfl⟩ := List.mem_map.mp hdata
    exact h b hb
  rw [hbytes, messages_frames htexts, List.map_map]
  exact List.map_congr_left fun b _ => by rw [Function.comp_apply, String.ofList_toList]

/-- The events published in a history. -/
def sent (tr : List Relay.Act) : List (String × Document) :=
  tr.filterMap fun a =>
    match a with
    | .published event payload => some (event, payload)
    | .lost | .served _ => none

/-- Nothing is dropped on its way to `c`: neither is a message lost between Redis and the
relay, nor does the relay find `c` gone or its channel full. -/
def Kept (c : ClientID) (r : Relay) : Relay.Label → Prop
  | .relay _ =>
    c ∈ r.broker.clients ∧ (r.broker.connections c).channel.buffer.length < clientCapacity
  | .lose => False
  | .publish _ _ | .connect _ | .read _ | .disconnect _ | .close _ => True

instance decidableKept (c : ClientID) (r : Relay) : ∀ l, Decidable (Kept c r l)
  | .relay _ => inferInstanceAs (Decidable (_ ∧ _))
  | .lose => .isFalse id
  | .publish _ _ | .connect _ | .read _ | .disconnect _ | .close _ => .isTrue trivial

/-- What the channel holds, and how much of it has come to `c`. -/
structure Relays (c : ClientID) (tr : List Relay.Act) (r : Relay) : Prop where
  coherent : Coherent r.broker
  channel : r.channel = (sent tr).map fun p => body p.1 p.2
  relayed : r.relayed ≤ r.channel.length
  accepted : (mailbox r.broker c).accepted = r.channel.take r.relayed

theorem serve_eq_some {r r' : Relay} {l : Broker.Label String} {a : Relay.Act}
    (hb : Coherent r.broker) (h : r.serve l = some (r', a)) (c : ClientID) :
    ∃ b, r' = { r with broker := b } ∧ a = .served (actOf l) ∧ Coherent b ∧
      mailbox b c = hearAct c (mailbox r.broker c) (actOf l) := by
  obtain ⟨⟨b, act⟩, hb', heq⟩ := Option.map_eq_some_iff.mp h
  obtain ⟨rfl, rfl⟩ := Prod.mk.inj heq
  obtain rfl := step_act hb hb'
  have heffect := step_effect hb hb'
  exact ⟨b, rfl, rfl, coherent_step hb heffect, mailbox_step hb heffect c⟩

/-- Only a publish changes what a mailbox has accepted. -/
theorem accepted_hearAct {c : ClientID} {m : Mailbox String} {a : Broker.Act String}
    (h : ∀ msg, a ≠ .published msg) : (hearAct c m a).accepted = m.accepted := by
  rw [hearAct]
  cases he : eventAt c a with
  | none => rfl
  | some e =>
    rcases Mailbox.accepted_hear clientCapacity m e with ⟨msg, rfl, -⟩ | ⟨heq, -⟩
    · cases a <;> simp [eventAt] at he h
    · exact heq

/-- A step of the broker other than a publish. -/
theorem Relays.serve {c : ClientID} {tr : List Relay.Act} {r r' : Relay} {l : Broker.Label String}
    {a : Relay.Act} (hr : Relays c tr r) (h : r.serve l = some (r', a))
    (hl : ∀ msg, actOf l ≠ .published msg) : Relays c (tr ++ [a]) r' := by
  obtain ⟨b, rfl, rfl, hb, hm⟩ := serve_eq_some hr.coherent h c
  refine ⟨hb, ?_, hr.relayed, ?_⟩
  · rw [hr.channel, sent, sent, List.filterMap_append]
    simp
  · rw [hm, accepted_hearAct hl, hr.accepted]

theorem relays_step {c : ClientID} {tr : List Relay.Act} {r r' : Relay} {l : Relay.Label}
    {a : Relay.Act} (hr : Relays c tr r) (hk : Kept c r l) (h : Relay.step r l = some (r', a)) :
    Relays c (tr ++ [a]) r' := by
  cases l with
  | publish event payload =>
    cases h
    refine ⟨hr.coherent, ?_, ?_, ?_⟩
    · rw [hr.channel, sent, sent, List.filterMap_append, List.map_append]
      rfl
    · exact hr.relayed.trans (by simp)
    · rw [List.take_append_of_le_length hr.relayed]
      exact hr.accepted
  | relay order =>
    obtain ⟨msg, hmsg, hserve⟩ := Option.bind_eq_some_iff.mp h
    obtain ⟨hlt, hget⟩ := List.getElem?_eq_some_iff.mp hmsg
    obtain ⟨b, rfl, rfl, hb, hm⟩ :=
      serve_eq_some (r := { r with relayed := r.relayed + 1 }) hr.coherent hserve c
    refine ⟨hb, ?_, hlt, ?_⟩
    · rw [hr.channel, sent, sent, List.filterMap_append]
      simp
    · have hopen : (mailbox r.broker c).isOpen ∧ (mailbox r.broker c).unread.length < clientCapacity :=
        ⟨decide_eq_true hk.1, hk.2⟩
      rw [hm, ← List.take_concat_get' _ _ hlt, ← hr.accepted, hget]
      simp only [hearAct, eventAt, actOf, Option.map_some, Option.getD_some, Mailbox.hear,
        if_pos hopen, Mailbox.accepted, List.append_assoc]
  | lose => exact absurd hk id
  | connect c' | read c' | disconnect c' | close c' =>
    exact hr.serve h fun _ heq => by cases heq

theorem relays_run {c : ClientID} {tr : List Relay.Act} {r : Relay}
    (h : Run Relay.step (Kept c) .initial tr r) : Relays c tr r :=
  h.invariant ⟨coherent_initial, rfl, Nat.le_refl _, rfl⟩ fun _ hr hk hs => relays_step hr hk hs

/-- If nothing was kept back from a client, what has been written to it is a prefix of what was
published. -/
theorem received_eq {c : ClientID} {tr : List Relay.Act} {r : Relay} (hr : Relays c tr r) :
    (r.broker.connections c).received =
      ((sent tr).take (r.broker.connections c).received.length).map fun p => body p.1 p.2 := by
  have hpre : (r.broker.connections c).received <+: r.channel :=
    (List.prefix_append _ _).trans (hr.accepted ▸ List.take_prefix _ _)
  rw [List.map_take, ← hr.channel]
  exact List.prefix_iff_eq_take.mp hpre

/-- With nothing dropped, the stream to a client is read as the events that were
published, in their order, up to the last one written; once all are relayed and read it
is all of them. Each is decoded to the name and the payload it was published with. -/
theorem stream_round_trip {c : ClientID} {tr : List Relay.Act} {r : Relay}
    (h : Run Relay.step (Kept c) .initial tr r) :
    messages (r.bytes c) =
        ((sent tr).take (r.broker.connections c).received.length).map
          (fun p => ⟨"message", body p.1 p.2, ""⟩) ∧
      (r.relayed = (sent tr).length → (r.broker.connections c).channel.buffer = [] →
        messages (r.bytes c) = (sent tr).map fun p => ⟨"message", body p.1 p.2, ""⟩) ∧
      ∀ p ∈ sent tr, decode (body p.1 p.2) = some (p.1, p.2.1) := by
  have hr := relays_run h
  have hreceived := received_eq hr
  have hlines : ∀ b ∈ (r.broker.connections c).received, OneLine b.toList := by
    intro b hb
    rw [hreceived] at hb
    obtain ⟨p, -, rfl⟩ := List.mem_map.mp hb
    exact body_oneLine p.1 p.2
  have hmessages : messages (r.bytes c) =
      ((sent tr).take (r.broker.connections c).received.length).map
        fun p => ⟨"message", body p.1 p.2, ""⟩ := by
    rw [Relay.bytes, messages_join hlines]
    conv => lhs; rw [hreceived, List.map_map]
    rfl
  refine ⟨hmessages, fun hall hempty => ?_, fun p _ => decode_body p.1 p.2⟩
  have haccepted := hr.accepted
  have hlength : (sent tr).length = r.channel.length := by rw [hr.channel, List.length_map]
  rw [hall, hlength, List.take_length, Mailbox.accepted] at haccepted
  have hread : (r.broker.connections c).received.length = (sent tr).length := by
    rw [hlength, ← haccepted]
    simp [mailbox, hempty]
  rw [hmessages, hread, List.take_length]

/-- Two events, the second with line ends, a colon and a quote in its name and payload. -/
def spoken : List (String × Document) :=
  [("job.cancelled", ⟨.object [("id", .string "1")], rfl⟩),
    ("data: \n\n", ⟨.array [.string "a\r\nb: \"é\"", .number "-1.50e+3", .null], rfl⟩)]

def told : List Relay.Label :=
  .connect 0 :: (spoken.map fun p => .publish p.1 p.2) ++ [.relay [0], .relay [0], .read 0, .read 0]

theorem stream_round_trip_spoken : ∃ tr r, Run Relay.step (Kept 0) .initial tr r ∧ sent tr = spoken ∧
    messages (r.bytes 0) = spoken.map fun p => ⟨"message", body p.1 p.2, ""⟩ :=
  have hrun : Run Relay.step (Kept 0) .initial _ _ := Run.of_outcome (l := told) (by decide +kernel)
    (by decide +kernel)
  ⟨_, _, hrun, rfl, (stream_round_trip hrun).2.1 rfl rfl⟩

end JobFlow.Realtime.Framing
