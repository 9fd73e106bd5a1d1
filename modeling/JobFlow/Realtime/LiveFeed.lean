import JobFlow.Model.LiveFeed
import JobFlow.Realtime.Framing

/-!
# What the activity feed shows

Events come to the feed over one connection after the other, and each connection may miss
some. What has been shown is still a part of what was published, in its order and nothing
twice, and the feed is the last thirty of it.
-/

namespace JobFlow.Realtime.LiveFeed

open JobFlow.Model (Json Document ClientID Broker clientCapacity)
open JobFlow.Model.RedisPublisher
open JobFlow.Model.LiveFeed
open JobFlow.Lib
open JobFlow.Lib.EventSource
open JobFlow.Lib.Transition
open Delivery Framing

def relayed : Act → Option Relay.Act
  | .relay a => some a
  | _ => none

def dataOf : Act → Option String
  | .message data _ => some data
  | _ => none

def parsedOf : Act → Option (String × Json)
  | .message _ parsed => parsed
  | _ => none

/-- The events published in a history. -/
def published (tr : List Act) : List (String × Document) := sent (tr.filterMap relayed)

/-- The data of the messages that were dispatched. -/
def dispatched (tr : List Act) : List String := tr.filterMap dataOf

/-- The events `onmessage` has put into the feed. -/
def shown (tr : List Act) : List (String × Json) := tr.filterMap parsedOf

/-- The name and the payload of an event. -/
def fields (p : String × Document) : String × Json := (p.1, p.2.1)

variable {r r' : Relay} {l : Relay.Label} {a : Relay.Act} {c : ClientID} {s s' : Feed}
  {tr : List Act}

/-- What a step of the relay means for one client. -/
structure Advances (c : ClientID) (r r' : Relay) (l : Relay.Label) (a : Relay.Act) : Prop where
  coherent : Coherent r'.broker
  channel : r'.channel = r.channel ++ (sent [a]).map fun p => body p.1 p.2
  received : (r.broker.connections c).received <+: (r'.broker.connections c).received
  accepted : (r'.relayed = r.relayed ∧
      (mailbox r'.broker c).accepted = (mailbox r.broker c).accepted) ∨
    ∃ msg, r.channel[r.relayed]? = some msg ∧ r'.relayed = r.relayed + 1 ∧
      ((mailbox r'.broker c).accepted = (mailbox r.broker c).accepted ++ [msg] ∨
        (¬ Kept c r l ∧ (mailbox r'.broker c).accepted = (mailbox r.broker c).accepted))

/-- What was read stays read. -/
theorem received_hear (m : Mailbox String) (e : Mailbox.Event String) :
    m.received <+: (m.hear clientCapacity e).received := by
  cases e with
  | opened | shut => exact List.prefix_rfl
  | offered msg =>
    simp only [Mailbox.hear]
    split <;> exact List.prefix_rfl
  | taken =>
    simp only [Mailbox.hear]
    split
    · exact List.prefix_rfl
    · exact List.prefix_append _ _

theorem received_hearAct (c : ClientID) (m : Mailbox String) (a : Broker.Act String) :
    m.received <+: (hearAct c m a).received := by
  rw [hearAct]
  cases eventAt c a with
  | none => exact List.prefix_rfl
  | some e => exact received_hear m e

/-- A step of the broker other than a publish. -/
theorem advances_serve {l' : Broker.Label String} (hb : Coherent r.broker)
    (h : r.serve l' = some (r', a)) (hl : ∀ msg, actOf l' ≠ .published msg) (c : ClientID)
    (l : Relay.Label) : Advances c r r' l a := by
  obtain ⟨b, rfl, rfl, hb', hm⟩ := serve_eq_some hb h c
  refine ⟨hb', by simp [sent], ?_, .inl ⟨rfl, ?_⟩⟩
  · exact (received_hearAct c (mailbox r.broker c) _).trans (by rw [← hm]; exact List.prefix_rfl)
  · exact (congrArg Mailbox.accepted hm).trans (accepted_hearAct hl)

theorem advances_step (hb : Coherent r.broker) (h : Relay.step r l = some (r', a)) (c : ClientID) :
    Advances c r r' l a := by
  cases l with
  | publish event payload =>
    cases h
    exact ⟨hb, rfl, List.prefix_rfl, .inl ⟨rfl, rfl⟩⟩
  | relay order =>
    obtain ⟨msg, hmsg, hserve⟩ := Option.bind_eq_some_iff.mp h
    obtain ⟨b, rfl, rfl, hb', hm⟩ :=
      serve_eq_some (r := { r with relayed := r.relayed + 1 }) hb hserve c
    refine ⟨hb', by simp [sent], ?_, .inr ⟨msg, hmsg, rfl, ?_⟩⟩
    · exact (received_hearAct c (mailbox r.broker c) _).trans (by rw [← hm]; exact List.prefix_rfl)
    · by_cases hroom : (mailbox r.broker c).isOpen ∧
          (mailbox r.broker c).unread.length < clientCapacity
      · left
        simp only [hm, hearAct, eventAt, actOf, Option.map_some, Option.getD_some, Mailbox.hear,
          if_pos hroom, Mailbox.accepted, List.append_assoc]
      · refine .inr ⟨fun hkept => hroom ⟨decide_eq_true hkept.1, hkept.2⟩, ?_⟩
        simp only [hm, hearAct, eventAt, actOf, Option.map_some, Option.getD_some, Mailbox.hear,
          if_neg hroom]
  | lose =>
    obtain ⟨msg, hmsg, heq⟩ := Option.map_eq_some_iff.mp h
    cases heq
    exact ⟨hb, by simp [sent], List.prefix_rfl, .inr ⟨msg, hmsg, rfl, .inr ⟨fun h => h, rfl⟩⟩⟩
  | connect c' | read c' | disconnect c' | close c' =>
    exact advances_serve hb h (fun _ heq => by cases heq) c _

/-- What has been relayed only grows. -/
theorem Advances.taken (h : Advances c r r' l a) :
    r.channel.take r.relayed <+: r'.channel.take r'.relayed := by
  have hle : r.relayed ≤ r'.relayed := by
    rcases h.accepted with ⟨heq, -⟩ | ⟨_, -, heq, -⟩ <;> omega
  rw [h.channel]
  exact (List.take_prefix_take_left hle).trans ((List.prefix_append _ _).take _)

theorem Advances.bound (h : Advances c r r' l a) (hr : r.relayed ≤ r.channel.length) :
    r'.relayed ≤ r'.channel.length := by
  rw [h.channel, List.length_append]
  rcases h.accepted with ⟨heq, -⟩ | ⟨msg, hmsg, heq, -⟩
  · omega
  · have hlt := (List.getElem?_eq_some_iff.mp hmsg).1
    omega

/-- What a client was sent is in order after what is shown from before. -/
theorem Advances.sublist (h : Advances c r r' l a) {earlier : List String}
    (hs : (earlier ++ (mailbox r.broker c).accepted).Sublist (r.channel.take r.relayed)) :
    (earlier ++ (mailbox r'.broker c).accepted).Sublist (r'.channel.take r'.relayed) := by
  rcases h.accepted with ⟨-, hacc⟩ | ⟨msg, hmsg, hrelayed, hacc | ⟨-, hacc⟩⟩
  · rw [hacc]
    exact hs.trans h.taken.sublist
  · obtain ⟨hlt, hget⟩ := List.getElem?_eq_some_iff.mp hmsg
    have htake : r'.channel.take r'.relayed = r.channel.take r.relayed ++ [msg] := by
      rw [h.channel, hrelayed, List.take_append_of_le_length hlt, ← hget]
      exact (List.take_concat_get' _ _ hlt).symm
    rw [hacc, htake, ← List.append_assoc]
    exact hs.append_right [msg]
  · rw [hacc]
    exact hs.trans h.taken.sublist

/-- What has been dispatched has been relayed, in its order, and what the connection still
brings comes after it. -/
structure InOrder (tr : List Act) (s : Feed) : Prop where
  coherent : Coherent s.relay.broker
  channel : s.relay.channel = (published tr).map fun p => body p.1 p.2
  bound : s.relay.relayed ≤ s.relay.channel.length
  past : (dispatched tr).Sublist (s.relay.channel.take s.relay.relayed)
  current : ∀ c n, s.tab.connection = some (c, n) → ∃ earlier,
    dispatched tr = earlier ++ (s.relay.broker.connections c).received.take n ∧
    n ≤ (s.relay.broker.connections c).received.length ∧
    (earlier ++ (mailbox s.relay.broker c).accepted).Sublist
      (s.relay.channel.take s.relay.relayed)
  events : s.tab.events = (shown tr).reverse.take 30
  decoded : shown tr = (dispatched tr).filterMap decode

theorem published_snoc (tr : List Act) (a : Act) :
    published (tr ++ [a]) = published tr ++ sent (relayed a).toList := by
  rw [published, List.filterMap_append, sent, List.filterMap_append]
  cases a <;> rfl

theorem dispatched_snoc (tr : List Act) (a : Act) :
    dispatched (tr ++ [a]) = dispatched tr ++ (dataOf a).toList := by
  rw [dispatched, List.filterMap_append]
  cases a <;> rfl

theorem shown_snoc (tr : List Act) (a : Act) :
    shown (tr ++ [a]) = shown tr ++ (parsedOf a).toList := by
  rw [shown, List.filterMap_append]
  cases a with
  | message data parsed => cases parsed <;> rfl
  | _ => rfl

/-- An act that shows nothing and publishes nothing. -/
structure Quiet (a : Act) : Prop where
  relayed : relayed a = none
  dataOf : dataOf a = none
  parsedOf : parsedOf a = none

theorem Quiet.published {a : Act} (h : Quiet a) : published (tr ++ [a]) = published tr := by
  rw [published_snoc, h.relayed]
  exact List.append_nil _

theorem dispatched_none {a : Act} (h : dataOf a = none) :
    dispatched (tr ++ [a]) = dispatched tr := by
  rw [dispatched_snoc, h]
  exact List.append_nil _

theorem shown_none {a : Act} (h : parsedOf a = none) : shown (tr ++ [a]) = shown tr := by
  rw [shown_snoc, h]
  exact List.append_nil _

theorem inOrder_initial : InOrder [] {} where
  coherent := coherent_initial
  channel := rfl
  bound := Nat.le_refl _
  past := .slnil
  current _ _ h := by cases h
  events := rfl
  decoded := rfl

/-- A part of the channel is made of bodies, and so is read. -/
theorem decode_dispatched (h : InOrder tr s) {data : String}
    (hdata : data ∈ s.relay.channel) : ∃ p ∈ published tr, data = body p.1 p.2 := by
  rw [h.channel] at hdata
  obtain ⟨p, hp, heq⟩ := List.mem_map.mp hdata
  exact ⟨p, hp, heq.symm⟩

/-- The connection is gone, or was not there. -/
theorem InOrder.disconnected (h : InOrder tr s) {a : Act} {t : Tab} (ht : t.connection = none)
    (hevents : t.events = s.tab.events) (ha : Quiet a) :
    InOrder (tr ++ [a]) { s with tab := t } where
  coherent := h.coherent
  channel := by rw [ha.published]; exact h.channel
  bound := h.bound
  past := by rw [dispatched_none ha.dataOf]; exact h.past
  current c n hc := by cases ht.symm.trans hc
  events := by rw [shown_none ha.parsedOf]; exact hevents.trans h.events
  decoded := by rw [shown_none ha.parsedOf, dispatched_none ha.dataOf]; exact h.decoded

theorem InOrder.relay (h : InOrder tr s) (hs : Relay.step s.relay l = some (r', a)) :
    InOrder (tr ++ [.relay a]) { s with relay := r' } where
  coherent := (advances_step h.coherent hs 0).coherent
  channel := by
    rw [published_snoc, List.map_append, ← h.channel]
    exact (advances_step h.coherent hs 0).channel
  bound := (advances_step h.coherent hs 0).bound h.bound
  past := by
    rw [dispatched_none rfl]
    exact h.past.trans (advances_step h.coherent hs 0).taken.sublist
  current c n hc := by
    rw [dispatched_none rfl]
    have hadv := advances_step h.coherent hs c
    obtain ⟨earlier, heq, hle, hsub⟩ := h.current c n hc
    obtain ⟨more, hmore⟩ := hadv.received
    refine ⟨earlier, ?_, ?_, hadv.sublist hsub⟩
    · rw [heq, ← hmore, List.take_append_of_le_length hle]
    · rw [← hmore, List.length_append]
      omega
  events := by rw [shown_none rfl]; exact h.events
  decoded := by rw [shown_none rfl, dispatched_none rfl]; exact h.decoded

/-- A new connection has brought nothing yet. -/
theorem connected_fresh (hb : Coherent r.broker) (h : Relay.step r (.connect c) = some (r', a)) :
    (r'.broker.connections c).received = [] ∧ (mailbox r'.broker c).accepted = [] := by
  obtain ⟨⟨b, act⟩, hb', heq⟩ := Option.map_eq_some_iff.mp h
  obtain ⟨rfl, rfl⟩ := Prod.mk.inj heq
  obtain rfl := step_act hb hb'
  have heffect := step_effect hb hb'
  cases heffect with
  | connected _ _ hm =>
    refine ⟨by rw [hm.self], ?_⟩
    rw [Mailbox.accepted, mailbox, hm.self]
    rfl

theorem InOrder.connected (h : InOrder tr s) (hs : Relay.step s.relay (.connect c) = some (r', a)) :
    InOrder (tr ++ [.connected c]) ⟨r', { s.tab with connection := some (c, 0) }⟩ where
  coherent := (advances_step h.coherent hs c).coherent
  channel := by
    have hadv := (advances_step h.coherent hs c).channel
    obtain ⟨b, -, rfl, -⟩ := serve_eq_some h.coherent hs c
    rw [published_snoc, hadv, h.channel]
    simp [sent, LiveFeed.relayed]
  bound := (advances_step h.coherent hs c).bound h.bound
  past := by
    rw [dispatched_none rfl]
    exact h.past.trans (advances_step h.coherent hs c).taken.sublist
  current c' n hc := by
    cases hc
    obtain ⟨hreceived, haccepted⟩ := connected_fresh h.coherent hs
    refine ⟨dispatched tr, ?_, ?_, ?_⟩
    · rw [dispatched_none rfl, List.take_zero, List.append_nil]
    · exact Nat.zero_le _
    · rw [haccepted, List.append_nil]
      exact h.past.trans (advances_step h.coherent hs c).taken.sublist
  events := by rw [shown_none rfl]; exact h.events
  decoded := by rw [shown_none rfl, dispatched_none rfl]; exact h.decoded

/-- The messages of a response are the bodies that were written to it. -/
theorem InOrder.messages (h : InOrder tr s) {n : Nat} (hc : s.tab.connection = some (c, n)) :
    messages (s.relay.bytes c) =
      (s.relay.broker.connections c).received.map fun b => ⟨"message", b, ""⟩ := by
  refine messages_join fun b hb => ?_
  obtain ⟨earlier, -, -, hsub⟩ := h.current c n hc
  have hmem : b ∈ s.relay.channel := by
    refine List.mem_of_mem_take (hsub.subset (List.mem_append_right _ ?_))
    exact List.mem_append_left _ hb
  obtain ⟨p, -, rfl⟩ := decode_dispatched h hmem
  exact body_oneLine p.1 p.2

theorem InOrder.dispatch (h : InOrder tr s) {n : Nat} (hc : s.tab.connection = some (c, n))
    {a : Act} (hs : s.dispatch c n = some (s', a)) : InOrder (tr ++ [a]) s' := by
  obtain ⟨message, hmessage, heq⟩ := Option.map_eq_some_iff.mp hs
  rw [h.messages hc, List.getElem?_map] at hmessage
  obtain ⟨data, hdata, rfl⟩ := Option.map_eq_some_iff.mp hmessage
  obtain ⟨hlt, hget⟩ := List.getElem?_eq_some_iff.mp hdata
  obtain ⟨earlier, hdispatched, -, hsub⟩ := h.current c n hc
  have hnext : dispatched tr ++ [data] =
      earlier ++ (s.relay.broker.connections c).received.take (n + 1) := by
    rw [hdispatched, List.append_assoc, ← hget, List.take_concat_get' _ _ hlt]
  have hpast : (dispatched tr ++ [data]).Sublist (s.relay.channel.take s.relay.relayed) := by
    rw [hnext]
    refine (List.Sublist.append_left ?_ _).trans hsub
    exact (List.take_sublist _ _).trans (List.sublist_append_left _ _)
  obtain ⟨p, hp, hbody⟩ := decode_dispatched h
    (List.mem_of_mem_take (hpast.subset (List.mem_append_right _ (List.mem_singleton.mpr rfl))))
  have hparsed : decode data = some (fields p) := by
    rw [hbody, decode_body]
    rfl
  simp only [hparsed] at heq
  cases heq
  constructor
  case coherent => exact h.coherent
  case channel =>
    rw [published_snoc, h.channel]
    simp [sent, LiveFeed.relayed]
  case bound => exact h.bound
  case past =>
    rw [dispatched_snoc]
    exact hpast
  case current =>
    intro c' n' hc'
    cases hc'
    refine ⟨earlier, ?_, hlt, hsub⟩
    rw [dispatched_snoc]
    exact hnext
  case events =>
    rw [shown_snoc]
    simp [Tab.onmessage, h.events, parsedOf, List.take_take]
  case decoded =>
    rw [shown_snoc, dispatched_snoc, h.decoded, List.filterMap_append]
    simp [dataOf, parsedOf, hparsed]

theorem inOrder_step {l : Label} {a : Act} (h : InOrder tr s) (hs : step s l = some (s', a)) :
    InOrder (tr ++ [a]) s' := by
  cases l with
  | relay l =>
    obtain ⟨⟨r', b⟩, hr, heq⟩ := Option.map_eq_some_iff.mp hs
    cases heq
    exact h.relay hr
  | opened | closed =>
    cases hs
    exact h.disconnected rfl rfl ⟨rfl, rfl, rfl⟩
  | connected c =>
    simp only [step] at hs
    split at hs
    · obtain ⟨⟨r', b⟩, hr, heq⟩ := Option.map_eq_some_iff.mp hs
      cases heq
      exact h.connected hr
    · cases hs
  | dropped =>
    obtain ⟨_, -, heq⟩ := Option.map_eq_some_iff.mp hs
    cases heq
    exact h.disconnected rfl rfl ⟨rfl, rfl, rfl⟩
  | message =>
    obtain ⟨⟨c, n⟩, hc, hs⟩ := Option.bind_eq_some_iff.mp hs
    exact h.dispatch hc hs

theorem inOrder_run {ok : Feed → Label → Prop} (h : Run step ok {} tr s) : InOrder tr s :=
  h.invariant (I := InOrder) inOrder_initial fun _ ih _ hs => inOrder_step ih hs

/-- Bodies are read as the events they were made of. -/
theorem filterMap_decode (events : List (String × Document)) :
    (events.map fun p => body p.1 p.2).filterMap decode = events.map fields := by
  rw [List.filterMap_map, ← List.filterMap_eq_map]
  exact List.filterMap_congr fun p _ => decode_body p.1 p.2

/-- In every run, over any number of connections and with any messages lost, each message is
read as an event, the events shown were published in the order in which they are shown and
each not more often, and the feed is the last thirty of them, newest first. -/
theorem feed_in_order (h : Run step anyStep {} tr s) :
    (∀ data, .message data none ∉ tr) ∧ (shown tr).Sublist ((published tr).map fields) ∧
    s.tab.events = (shown tr).reverse.take 30 := by
  refine ⟨fun data hmem => ?_, ?_, (inOrder_run h).events⟩
  · obtain ⟨before, after, rfl⟩ := List.append_of_mem hmem
    obtain ⟨m, l, m', hbefore, -, hs, -⟩ := h.observed
    have hm := inOrder_run hbefore
    have hm' := inOrder_step hm hs
    have hdecoded := hm'.decoded
    rw [shown_snoc, dispatched_snoc, hm.decoded, List.filterMap_append] at hdecoded
    have hlast : data ∈ m'.relay.channel := by
      refine List.mem_of_mem_take (hm'.past.subset ?_)
      rw [dispatched_snoc]
      exact List.mem_append_right _ (List.mem_singleton.mpr rfl)
    obtain ⟨p, -, rfl⟩ := decode_dispatched hm' hlast
    simp [parsedOf, dataOf, decode_body] at hdecoded
  · have hio := inOrder_run h
    rw [hio.decoded, ← filterMap_decode, ← hio.channel]
    exact (hio.past.trans (List.take_sublist _ _)).filterMap _

/-- An event without data. -/
def publishes (event : String) : Label := .relay (.publish event ⟨.null, rfl⟩)

/-- The tab sees the first of three events, loses its connection and the second event, and
sees the third over another one. -/
def reconnected : List Label :=
  [.opened, .connected 0, publishes "job.created", publishes "job.queued", .relay (.relay [0]),
    .relay (.read 0), .message, .dropped, .relay (.disconnect 0), .relay (.relay []),
    .connected 1, publishes "job.running", .relay (.relay [1]), .relay (.read 1), .message]

theorem reconnected_runs : (execute step {} reconnected).isSome := by decide +kernel

theorem feed_in_order_reconnected : ∃ tr s, Run step anyStep {} tr s ∧ (published tr).length = 3 ∧
    (shown tr).length = 2 ∧
    (∀ data, .message data none ∉ tr) ∧ (shown tr).Sublist ((published tr).map fields) ∧
    s.tab.events = (shown tr).reverse.take 30 :=
  have hrun := Run.of_outcome reconnected_runs (admitted_anyStep ({} : Feed) _)
  ⟨_, _, hrun, by decide +kernel, by decide +kernel, feed_in_order hrun⟩

/-! ## One connection with nothing dropped -/

/-- The tab keeps its connection, and nothing is dropped on its way there. -/
def Unbroken (c : ClientID) (s : Feed) : Label → Prop
  | .relay l => Kept c s.relay l
  | .message => True
  | .opened | .closed | .connected _ | .dropped => False

instance decidableUnbroken (c : ClientID) (s : Feed) : ∀ l, Decidable (Unbroken c s l)
  | .relay l => inferInstanceAs (Decidable (Kept c s.relay l))
  | .message => .isTrue trivial
  | .opened | .closed | .connected _ | .dropped => .isFalse id

/-- The connection has been sent all that was relayed since the first `k` messages. -/
structure Caught (c : ClientID) (k : Nat) (tr : List Act) (s : Feed) : Prop where
  current : ∃ n, s.tab.connection = some (c, n) ∧
    dispatched tr = (s.relay.broker.connections c).received.take n
  accepted : (mailbox s.relay.broker c).accepted = (s.relay.channel.take s.relay.relayed).drop k
  since : k ≤ s.relay.relayed

variable {before after : List Act} {k : Nat}

theorem caught_connected (h : InOrder tr s) (hs : Relay.step s.relay (.connect c) = some (r', a)) :
    Caught c r'.relayed [] ⟨r', { s.tab with connection := some (c, 0) }⟩ where
  current := ⟨0, rfl, rfl⟩
  accepted := by
    rw [(connected_fresh h.coherent hs).2]
    exact (List.drop_of_length_le (List.length_take_le _ _)).symm
  since := Nat.le_refl _

theorem Caught.relay (h : Caught c k after s) (hio : InOrder tr s) (hkept : Kept c s.relay l)
    (hs : Relay.step s.relay l = some (r', a)) :
    Caught c k (after ++ [.relay a]) { s with relay := r' } := by
  have hadv := advances_step hio.coherent hs c
  obtain ⟨n, hc, hdispatched⟩ := h.current
  obtain ⟨-, -, hle, -⟩ := hio.current c n hc
  obtain ⟨more, hmore⟩ := hadv.received
  refine ⟨⟨n, hc, ?_⟩, ?_, ?_⟩
  · rw [dispatched_none rfl, hdispatched, ← hmore, List.take_append_of_le_length hle]
  · rcases hadv.accepted with ⟨hrelayed, hacc⟩ | ⟨msg, hmsg, hrelayed, hacc | ⟨hno, -⟩⟩
    · rw [hacc, h.accepted, hadv.channel, hrelayed, List.take_append_of_le_length hio.bound]
    · obtain ⟨hlt, hget⟩ := List.getElem?_eq_some_iff.mp hmsg
      rw [hacc, h.accepted, hadv.channel, hrelayed, List.take_append_of_le_length hlt,
        ← List.take_concat_get' _ _ hlt, hget, List.drop_append_of_le_length]
      rw [List.length_take]
      have hsince := h.since
      omega
    · exact absurd hkept hno
  · have hsince := h.since
    show k ≤ r'.relayed
    rcases hadv.accepted with ⟨hrelayed, -⟩ | ⟨-, -, hrelayed, -⟩ <;> omega

theorem Caught.dispatch (h : Caught c k after s) (hio : InOrder tr s) {n : Nat} {a : Act}
    (hc : s.tab.connection = some (c, n)) (hs : s.dispatch c n = some (s', a)) :
    Caught c k (after ++ [a]) s' := by
  obtain ⟨n', hc', hdispatched⟩ := h.current
  obtain rfl : n' = n := by
    rw [hc] at hc'
    cases hc'
    rfl
  obtain ⟨message, hmessage, heq⟩ := Option.map_eq_some_iff.mp hs
  rw [hio.messages hc, List.getElem?_map] at hmessage
  obtain ⟨data, hdata, rfl⟩ := Option.map_eq_some_iff.mp hmessage
  obtain ⟨hlt, hget⟩ := List.getElem?_eq_some_iff.mp hdata
  have hnext : dispatched after ++ [data] =
      (s.relay.broker.connections c).received.take (n' + 1) := by
    rw [hdispatched, ← hget, List.take_concat_get' _ _ hlt]
  dsimp only at heq
  split at heq <;> cases heq
  · exact ⟨⟨n' + 1, rfl, by rw [dispatched_snoc]; exact hnext⟩, h.accepted, h.since⟩
  · exact ⟨⟨n' + 1, rfl, by rw [dispatched_snoc]; exact hnext⟩, h.accepted, h.since⟩

theorem caught_step {l : Label} {a : Act} (h : Caught c k after s) (hio : InOrder tr s)
    (hok : Unbroken c s l) (hs : step s l = some (s', a)) : Caught c k (after ++ [a]) s' := by
  cases l with
  | relay l =>
    obtain ⟨⟨r', b⟩, hr, heq⟩ := Option.map_eq_some_iff.mp hs
    cases heq
    exact h.relay hio hok hr
  | message =>
    obtain ⟨⟨c', n⟩, hc, hs⟩ := Option.bind_eq_some_iff.mp hs
    obtain ⟨n', hc', -⟩ := h.current
    cases hc'.symm.trans hc
    exact h.dispatch hio hc hs
  | opened | closed | connected | dropped => exact absurd hok id

theorem step_connected_act {a : Act} (h : step s (.connected c) = some (s', a)) :
    a = .connected c := by
  simp only [step] at h
  split at h
  · obtain ⟨x, -, heq⟩ := Option.map_eq_some_iff.mp h
    cases heq
    rfl
  · cases h

theorem caught_run {s₀ : Feed} (h : Run step anyStep {} before s₀)
    (hs : step s₀ (.connected c) = some (s, .connected c)) (h' : Run step (Unbroken c) s after s') :
    InOrder (before ++ [.connected c] ++ after) s' ∧ Caught c s.relay.relayed after s' := by
  have hio := inOrder_step (inOrder_run h) hs
  refine h'.invariant (I := fun tr x => InOrder (before ++ [.connected c] ++ tr) x ∧
    Caught c s.relay.relayed tr x) ⟨by rwa [List.append_nil], ?_⟩ ?_
  · simp only [step] at hs
    split at hs
    · obtain ⟨⟨r', b⟩, hr, heq⟩ := Option.map_eq_some_iff.mp hs
      cases heq
      exact caught_connected (inOrder_run h) hr
    · cases hs
  · intro tr x x' l a _ ih hok hstep
    refine ⟨?_, caught_step ih.2 ih.1 hok hstep⟩
    rw [← List.append_assoc]
    exact inOrder_step ih.1 hstep

/-- What is shown in a part of a run. -/
theorem shown_of_inOrder {s₀ : Feed} (h : InOrder before s₀) (h' : InOrder (before ++ after) s) :
    shown after = (dispatched after).filterMap decode := by
  have hdecoded := h'.decoded
  rw [shown, List.filterMap_append, dispatched, List.filterMap_append, List.filterMap_append,
    ← shown, ← dispatched, h.decoded] at hdecoded
  exact List.append_cancel_left hdecoded

/-- From its connect on, a tab that keeps its connection and misses nothing shows the events
that are relayed from then on, in their order and without a gap. -/
theorem feed_complete {s₀ : Feed} (h : Run step anyStep {} before s₀)
    (hs : step s₀ (.connected c) = some (s, .connected c)) (h' : Run step (Unbroken c) s after s') :
    shown after <+: ((published (before ++ .connected c :: after)).map fields).drop
        s.relay.relayed ∧
    (s'.relay.relayed = s'.relay.channel.length →
      (s'.relay.broker.connections c).channel.buffer = [] →
      s'.tab.connection = some (c, (s'.relay.broker.connections c).received.length) →
      shown after = ((published (before ++ .connected c :: after)).map fields).drop
        s.relay.relayed) := by
  obtain ⟨hio, hcaught⟩ := caught_run h hs h'
  have hshown := shown_of_inOrder (inOrder_step (inOrder_run h) hs) hio
  have hall : (s'.relay.channel.drop s.relay.relayed).filterMap decode =
      ((published (before ++ .connected c :: after)).map fields).drop s.relay.relayed := by
    have hchannel := hio.channel
    rw [List.append_assoc, List.singleton_append] at hchannel
    rw [hchannel, ← List.map_drop, filterMap_decode, List.map_drop]
  obtain ⟨n, hc, hdispatched⟩ := hcaught.current
  rw [hshown, ← hall]
  constructor
  · have hread : (s'.relay.broker.connections c).received <+:
        (mailbox s'.relay.broker c).accepted := List.prefix_append _ _
    rw [hcaught.accepted] at hread
    have hdrop : List.drop s.relay.relayed (s'.relay.channel.take s'.relay.relayed) <+:
        s'.relay.channel.drop s.relay.relayed := by
      have hrelayed := List.take_prefix s'.relay.relayed s'.relay.channel
      exact hrelayed.drop s.relay.relayed
    have htaken : (s'.relay.broker.connections c).received.take n <+:
        (s'.relay.broker.connections c).received := List.take_prefix _ _
    rw [hdispatched]
    exact (htaken.trans (hread.trans hdrop)).filterMap _
  · intro hrelayed hbuffer hc'
    cases hc.symm.trans hc'
    have haccepted := hcaught.accepted
    rw [hrelayed, List.take_length, Mailbox.accepted, mailbox, hbuffer, List.append_nil]
      at haccepted
    rw [hdispatched, List.take_length]
    exact congrArg (List.filterMap decode) haccepted

/-- One event is lost before the tab connects, and the two others come to it. -/
def missed : List Label := [publishes "job.created", .relay .lose, .opened]

def caughtUp : List Label :=
  [publishes "job.queued", publishes "job.running", .relay (.relay [0]), .relay (.relay [0]),
    .relay (.read 0), .message, .relay (.read 0), .message]

theorem missed_runs : (execute step {} missed).isSome := by decide +kernel

/-- The tab after its connect. -/
theorem connects : (step (outcome step {} missed missed_runs).1 (.connected 0)).isSome := by
  decide +kernel

def arrived : Feed := ((step (outcome step {} missed missed_runs).1 (.connected 0)).get connects).1

theorem step_arrived :
    step (outcome step {} missed missed_runs).1 (.connected 0) = some (arrived, .connected 0) := by
  have hget := (Option.some_get connects).symm
  rw [hget]
  exact congrArg some (Prod.ext rfl (step_connected_act hget))

theorem caughtUp_runs : (execute step arrived caughtUp).isSome := by decide +kernel

theorem feed_complete_caughtUp : ∃ before s₀ s after s', Run step anyStep {} before s₀ ∧
    step s₀ (.connected 0) = some (s, .connected 0) ∧ Run step (Unbroken 0) s after s' ∧
    (shown after).length = 2 ∧
    shown after = ((published (before ++ .connected 0 :: after)).map fields).drop
      s.relay.relayed := by
  have hrun := Run.of_outcome missed_runs (admitted_anyStep ({} : Feed) _)
  have hrun' : Run step (Unbroken 0) _ _ _ := Run.of_outcome caughtUp_runs (by decide +kernel)
  exact ⟨_, _, _, _, _, hrun, step_arrived, hrun', by decide +kernel,
    (feed_complete hrun step_arrived hrun').2 (by decide +kernel) (by decide +kernel)
      (by decide +kernel)⟩

end JobFlow.Realtime.LiveFeed
