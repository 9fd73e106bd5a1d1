import JobFlow.Lib.Unwinding
import JobFlow.Model.EventStream
import JobFlow.Realtime.Delivery
import JobFlow.Runs.Payloads

/-!
# What the event stream tells of a payload

Two runs of the same operations that differ in the payloads of one user's jobs bring a
subscriber the same bytes as long as no message with such a payload is delivered to it.
Six of the eight kinds of events carry the whole job, and every subscriber gets them.
-/

namespace JobFlow.Realtime.Privacy

open JobFlow.Model
open JobFlow.Model.EventStream
open JobFlow.Realtime.Delivery
open JobFlow.Runs.Payloads
open JobFlow.Lib
open JobFlow.Lib.Transition

/-- An operation as seen with the payloads of `u` blotted out. -/
def blotted (u : String) : Input → Input
  | .system l => .system (blotLabel u l)
  | i => i

/-- Two operations that are the same up to the payloads of `u`. -/
def SameOperation (u : String) (i i' : Input) : Prop := blotted u i = blotted u i'

/-- The text of the payload, where an event carries a whole job. -/
def payloadText (e : Event) : Option String :=
  match e.data with
  | .job job => some (Wire.compact job.payload)
  | .id _ => none

/-- No message is delivered to the client that carries a job with two payload texts. -/
def Blind (c : ClientID) (p : Deployment × Deployment) (l : Input × Input) : Prop :=
  match l.1 with
  | .relay _ => c ∈ p.1.broker.clients →
      (p.1.broker.connections c).channel.buffer.length < clientCapacity →
      p.1.next.bind payloadText = p.2.next.bind payloadText
  | _ => True

instance (c : ClientID) (p : Deployment × Deployment) (l : Input × Input) :
    Decidable (Blind c p l) := by
  unfold Blind
  split <;> infer_instance

/-- What has been sent to a client: what it has read and what waits in its channel. -/
def sent (d : Deployment) (c : ClientID) : List String := (mailbox d.broker c).accepted

/-! ## Events -/

/-- Events that differ in the payload at most are told apart by its text. -/
theorem marshal_iff (timeText : Time → String) {u : String} {e e' : Event}
    (h : blotEvent u e = blotEvent u e') :
    Wire.marshal timeText e = Wire.marshal timeText e' ↔ payloadText e = payloadText e' := by
  obtain ⟨event, data⟩ := e
  obtain ⟨event', data'⟩ := e'
  obtain ⟨hevent, hdata⟩ := Event.mk.inj h
  dsimp only at hevent hdata
  subst hevent
  cases data with
  | id id =>
    cases data' with
    | id id' => rw [EventData.id.inj hdata]; simp
    | job job' => cases hdata
  | job job =>
    cases data' with
    | id id' => cases hdata
    | job job' =>
      have hjob := EventData.job.inj hdata
      have hsame : job' = { job with payload := job'.payload } :=
        (congrArg (fun j : Job => { j with payload := job'.payload }) hjob).symm
      rw [Wire.marshal_data, Wire.marshalData, Wire.marshalData, hsame, payloadText, payloadText,
        Option.some.injEq]
      exact Wire.marshalJob_payload timeText job job.payload job'.payload

/-! ## One subscriber -/

/-- What a step of the deployment is at the mailbox of one client. -/
def heard (timeText : Time → String) (c : ClientID) (d : Deployment) :
    Input → Option (Mailbox.Event String)
  | .relay _ => d.next.map fun e => .offered (Wire.marshal timeText e)
  | .connect c' _ => if c' = c then some .opened else none
  | .read c' => if c' = c then some .taken else none
  | .disconnect c' => if c' = c then some .shut else none
  | .system _ | .lose | .close _ => none

/-- The mailbox after an event, if there is one. -/
def after (m : Mailbox String) (e : Option (Mailbox.Event String)) : Mailbox String :=
  (e.map (m.hear clientCapacity)).getD m

variable {timeText : Time → String} {parse : String → Option String} {u : String} {c : ClientID}

theorem serve_mailbox {d d' : Deployment} {l : Broker.Label String} (hb : Coherent d.broker)
    (h : d.serve l = some d') (c : ClientID) : Coherent d'.broker ∧ d'.system = d.system ∧
      d'.relayed = d.relayed ∧
      mailbox d'.broker c = after (mailbox d.broker c) (eventAt c (actOf l)) := by
  obtain ⟨⟨b', a⟩, hb', rfl⟩ := Option.map_eq_some_iff.mp h
  have heffect := step_effect hb hb'
  refine ⟨coherent_step hb heffect, rfl, rfl, ?_⟩
  rw [← step_act hb hb']
  exact mailbox_step hb heffect c

theorem turn_mailbox {d d' : Deployment} {i : Input} (hb : Coherent d.broker)
    (h : turn timeText parse d i = some d') (c : ClientID) : Coherent d'.broker ∧
      mailbox d'.broker c = after (mailbox d.broker c) (heard timeText c d i) := by
  cases i with
  | system l =>
    obtain ⟨x, -, rfl⟩ := Option.map_eq_some_iff.mp h
    exact ⟨hb, rfl⟩
  | relay order =>
    obtain ⟨e, he, h⟩ := Option.bind_eq_some_iff.mp h
    obtain ⟨hb', -, -, hm⟩ := serve_mailbox (d := { d with relayed := d.relayed + 1 }) hb h c
    refine ⟨hb', ?_⟩
    rw [hm, heard, he]
    rfl
  | lose =>
    obtain ⟨e, -, rfl⟩ := Option.map_eq_some_iff.mp h
    exact ⟨hb, rfl⟩
  | connect c' request =>
    simp only [turn] at h
    split at h
    · obtain ⟨hb', -, -, hm⟩ := serve_mailbox hb h c
      exact ⟨hb', hm⟩
    · cases h
  | read c' =>
    obtain ⟨hb', -, -, hm⟩ := serve_mailbox hb h c
    exact ⟨hb', hm⟩
  | disconnect c' =>
    obtain ⟨hb', -, -, hm⟩ := serve_mailbox hb h c
    exact ⟨hb', hm⟩
  | close c' =>
    obtain ⟨hb', -, -, hm⟩ := serve_mailbox hb h c
    exact ⟨hb', hm⟩

/-! ## Two runs side by side -/

/-- The systems differ in payloads of `u` at most, and the client's channel and response
hold as many messages in both. -/
structure Related (u : String) (c : ClientID) (p : Deployment × Deployment) : Prop where
  system : blotState u p.1.system = blotState u p.2.system
  relayed : p.1.relayed = p.2.relayed
  coherent : Coherent p.1.broker ∧ Coherent p.2.broker
  alike : (mailbox p.1.broker c).Alike (mailbox p.2.broker c)

theorem related_initial (u : String) (c : ClientID) : Related u c ({}, {}) where
  system := rfl
  relayed := rfl
  coherent := ⟨coherent_initial, coherent_initial⟩
  alike := ⟨rfl, rfl, rfl⟩

theorem Related.next {p : Deployment × Deployment} (h : Related u c p) :
    p.1.next.map (blotEvent u) = p.2.next.map (blotEvent u) := by
  have hevents : p.1.system.world.events.map (blotEvent u) =
      p.2.system.world.events.map (blotEvent u) :=
    congrArg (fun s : State => s.world.events) h.system
  rw [Deployment.next, Deployment.next, ← List.getElem?_map, hevents, h.relayed,
    List.getElem?_map]

/-- The messages that are relayed next. -/
theorem Related.next_cases {p : Deployment × Deployment} (h : Related u c p) :
    (p.1.next = none ∧ p.2.next = none) ∨
    ∃ e e', p.1.next = some e ∧ p.2.next = some e' ∧ blotEvent u e = blotEvent u e' := by
  have hnext := h.next
  cases he : p.1.next with
  | none =>
    rw [he] at hnext
    exact .inl ⟨rfl, Option.map_eq_none_iff.mp hnext.symm⟩
  | some e =>
    rw [he] at hnext
    obtain ⟨e', he', heq⟩ := Option.map_eq_some_iff.mp hnext.symm
    exact .inr ⟨e, e', rfl, he', heq.symm⟩

theorem sameOperation_cases {l : Input × Input} (h : SameOperation u l.1 l.2) :
    (∃ m m', l = (.system m, .system m') ∧ blotLabel u m = blotLabel u m') ∨
    ((∀ m, l.1 ≠ .system m) ∧ l.2 = l.1) := by
  obtain ⟨i, i'⟩ := l
  cases i with
  | system m =>
    cases i' with
    | system m' => exact .inl ⟨m, m', rfl, Input.system.inj h⟩
    | _ => cases h
  | _ =>
    refine .inr ⟨fun m hm => Input.noConfusion hm, ?_⟩
    cases i' with
    | system m' => cases h
    | _ => exact h.symm

/-- How many messages of the channel a step takes or loses. -/
def advances : Input → Nat
  | .relay _ | .lose => 1
  | _ => 0

/-- Any other step leaves the system alone. -/
theorem turn_system {d d' : Deployment} {i : Input} (hi : ∀ m, i ≠ .system m)
    (hb : Coherent d.broker) (h : turn timeText parse d i = some d') :
    d'.system = d.system ∧ d'.relayed = d.relayed + advances i := by
  cases i with
  | system l => exact absurd rfl (hi l)
  | relay order =>
    obtain ⟨e, -, h⟩ := Option.bind_eq_some_iff.mp h
    obtain ⟨-, hs, hr, -⟩ := serve_mailbox (d := { d with relayed := d.relayed + 1 }) hb h 0
    exact ⟨hs, hr⟩
  | lose =>
    obtain ⟨e, -, rfl⟩ := Option.map_eq_some_iff.mp h
    exact ⟨rfl, rfl⟩
  | connect c' request =>
    simp only [turn] at h
    split at h
    · obtain ⟨-, hs, hr, -⟩ := serve_mailbox hb h 0
      exact ⟨hs, hr⟩
    · cases h
  | read c' | disconnect c' | close c' =>
    obtain ⟨-, hs, hr, -⟩ := serve_mailbox hb h 0
    exact ⟨hs, hr⟩

theorem both_turns {p p' : Deployment × Deployment} {l : Input × Input} {a : Unit × Unit}
    (h : both (step timeText parse) (step timeText parse) p l = some (p', a)) :
    turn timeText parse p.1 l.1 = some p'.1 ∧ turn timeText parse p.2 l.2 = some p'.2 := by
  obtain ⟨h₁, h₂⟩ := both_eq_some.mp h
  exact ⟨(map_view_eq_some.mp h₁).1, (map_view_eq_some.mp h₂).1⟩

variable (timeText) in
/-- The same happens at the two mailboxes, up to what a message says. -/
theorem heard_related {p : Deployment × Deployment} (h : Related u c p) {l : Input × Input}
    (hl : SameOperation u l.1 l.2) :
    (heard timeText c p.1 l.1 = none ∧ heard timeText c p.2 l.2 = none) ∨
    ∃ e e', heard timeText c p.1 l.1 = some e ∧ heard timeText c p.2 l.2 = some e' ∧
      (e' = e ∨ ∃ m m', e = .offered m ∧ e' = .offered m') := by
  obtain ⟨i, i'⟩ := l
  rcases sameOperation_cases hl with ⟨m, m', heq, -⟩ | ⟨-, heq⟩
  · obtain ⟨rfl, rfl⟩ := Prod.mk.inj heq
    exact .inl ⟨rfl, rfl⟩
  · obtain rfl : i' = i := heq
    cases i' with
    | relay order =>
      rcases h.next_cases with ⟨hn, hn'⟩ | ⟨e, e', he, he', -⟩
      · simp [heard, hn, hn']
      · exact .inr ⟨.offered (Wire.marshal timeText e), .offered (Wire.marshal timeText e'),
          congrArg (Option.map _) he, congrArg (Option.map _) he', .inr ⟨_, _, rfl, rfl⟩⟩
    | connect c' request | read c' | disconnect c' =>
      simp only [heard]
      split
      · exact .inr ⟨_, _, rfl, rfl, .inl rfl⟩
      · exact .inl ⟨rfl, rfl⟩
    | system m | lose | close c' => exact .inl ⟨rfl, rfl⟩

theorem related_step {p p' : Deployment × Deployment} (h : Related u c p) {l : Input × Input}
    (hl : SameOperation u l.1 l.2) {a : Unit × Unit}
    (hs : both (step timeText parse) (step timeText parse) p l = some (p', a)) :
    Related u c p' := by
  obtain ⟨h₁, h₂⟩ := both_turns hs
  obtain ⟨hb₁, hm₁⟩ := turn_mailbox h.coherent.1 h₁ c
  obtain ⟨hb₂, hm₂⟩ := turn_mailbox h.coherent.2 h₂ c
  have halike : (mailbox p'.1.broker c).Alike (mailbox p'.2.broker c) := by
    rw [hm₁, hm₂]
    rcases heard_related timeText h hl with ⟨hn, hn'⟩ | ⟨e, e', he, he', hkind⟩
    · rw [hn, hn']
      exact h.alike
    · rw [he, he']
      exact h.alike.hear clientCapacity hkind
  rcases sameOperation_cases hl with ⟨m, m', rfl, hm⟩ | ⟨hi, heq⟩
  · obtain ⟨x, hx, hp₁⟩ := Option.map_eq_some_iff.mp h₁
    obtain ⟨x', hx', hp₂⟩ := Option.map_eq_some_iff.mp h₂
    have hblot := step_blot u p.1.system m
    have hblot' := step_blot u p.2.system m'
    rw [h.system, hm, hblot', hx, hx'] at hblot
    refine ⟨?_, ?_, ⟨hb₁, hb₂⟩, halike⟩
    · rw [← hp₁, ← hp₂]
      exact (Prod.mk.inj (Option.some.inj hblot)).1.symm
    · rw [← hp₁, ← hp₂]
      exact h.relayed
  · rw [heq] at h₂
    obtain ⟨hs₁, hr₁⟩ := turn_system hi h.coherent.1 h₁
    obtain ⟨hs₂, hr₂⟩ := turn_system hi h.coherent.2 h₂
    exact ⟨by rw [hs₁, hs₂, h.system], by rw [hr₁, hr₂, h.relayed], ⟨hb₁, hb₂⟩, halike⟩

/-- Only an offer adds to what has been sent. -/
theorem accepted_after {m : Mailbox String} {e : Option (Mailbox.Event String)}
    (he : ∀ x, e = some x → ∀ y, x ≠ .offered y) : (after m e).accepted = m.accepted := by
  cases e with
  | none => rfl
  | some x => exact Mailbox.accepted_hear_of_ne clientCapacity (he x rfl)

/-- A step keeps what has been sent to the client the same exactly if it is `Blind`. -/
theorem sent_step_iff {p p' : Deployment × Deployment} (h : Related u c p)
    (hsent : sent p.1 c = sent p.2 c) {l : Input × Input} (hl : SameOperation u l.1 l.2)
    {a : Unit × Unit}
    (hs : both (step timeText parse) (step timeText parse) p l = some (p', a)) :
    sent p'.1 c = sent p'.2 c ↔ Blind c p l := by
  obtain ⟨h₁, h₂⟩ := both_turns hs
  obtain ⟨-, hm₁⟩ := turn_mailbox h.coherent.1 h₁ c
  obtain ⟨-, hm₂⟩ := turn_mailbox h.coherent.2 h₂ c
  unfold sent at hsent ⊢
  obtain ⟨i, i'⟩ := l
  rcases sameOperation_cases hl with ⟨m, m', heq, -⟩ | ⟨-, heq⟩
  · obtain ⟨rfl, rfl⟩ := Prod.mk.inj heq
    rw [hm₁, hm₂]
    exact iff_of_true hsent trivial
  obtain rfl : i' = i := heq
  have hother : (∀ e, heard timeText c p.1 i' = some e → ∀ m, e ≠ .offered m) →
      (∀ e, heard timeText c p.2 i' = some e → ∀ m, e ≠ .offered m) →
      (mailbox p'.1.broker c).accepted = (mailbox p'.2.broker c).accepted := by
    intro hno hno'
    rw [hm₁, hm₂, accepted_after hno, accepted_after hno', hsent]
  cases i' with
  | relay order =>
    obtain ⟨e, he, -⟩ := Option.bind_eq_some_iff.mp h₁
    obtain ⟨e', he', -⟩ := Option.bind_eq_some_iff.mp h₂
    have hblot : blotEvent u e = blotEvent u e' := by
      have hnext := h.next
      rw [he, he'] at hnext
      exact Option.some.inj hnext
    simp only [heard, he, he', Option.map_some] at hm₁ hm₂
    rw [hm₁, hm₂]
    refine (h.alike.accepted_hear clientCapacity hsent _ _).trans ?_
    simp only [Blind, he, he', Option.bind_some, mailbox, decide_eq_true_eq,
      marshal_iff timeText hblot]
  | connect c' request | read c' | disconnect c' =>
    refine iff_of_true (hother ?_ ?_) trivial
    all_goals
      intro e he m
      obtain ⟨-, he⟩ := Option.ite_none_right_eq_some.mp he
      obtain rfl := Option.some.inj he
      intro hm
      cases hm
  | system m | lose | close c' =>
    exact iff_of_true (hother (fun _ he => by cases he) fun _ he => by cases he) trivial

theorem bytes_eq {p : Deployment × Deployment} (h : Related u c p)
    (hsent : sent p.1 c = sent p.2 c) : p.1.bytes c = p.2.bytes c := by
  have hreceived : (p.1.broker.connections c).received = (p.2.broker.connections c).received :=
    h.alike.received_eq hsent
  rw [Deployment.bytes, Deployment.bytes, hreceived]

theorem sent_run {tr : List (Unit × Unit)} {p : Deployment × Deployment}
    (hr : Run (both (step timeText parse) (step timeText parse))
      (fun p l => SameOperation u l.1 l.2 ∧ Blind c p l) ({}, {}) tr p) :
    Related u c p ∧ sent p.1 c = sent p.2 c := by
  refine hr.invariant (I := fun _ p => Related u c p ∧ sent p.1 c = sent p.2 c)
    ⟨related_initial u c, rfl⟩ ?_
  intro _ _ _ _ _ _ h hok hs
  exact ⟨related_step h.1 hok.1 hs, (sent_step_iff h.1 h.2 hok.1 hs).mpr hok.2⟩

/-- Two runs of the same operations in the same order, up to the payloads of `u`. As long
as the steps are `Blind` for a client, it has got the same bytes in both, whatever token it
has presented. A further step leaves what has been sent to it the same exactly if it is
`Blind` too. -/
theorem stream_blind {is is' : List Input} {d d' : Deployment} {tr tr' : List Unit}
    (h : execute (step timeText parse) {} is = some (d, tr))
    (h' : execute (step timeText parse) {} is' = some (d', tr'))
    (hsame : is.map (blotted u) = is'.map (blotted u))
    (hblind : Admitted (both (step timeText parse) (step timeText parse)) (Blind c) ({}, {})
      (is.zip is')) :
    d.bytes c = d'.bytes c ∧ ∀ i i' e e', SameOperation u i i' →
      turn timeText parse d i = some e → turn timeText parse d' i' = some e' →
      (sent e c = sent e' c ↔ Blind c (d, d') (i, i')) := by
  have hL : List.Forall₂ (SameOperation u) is is' := by
    have heq : List.Forall₂ (· = ·) (is.map (blotted u)) (is'.map (blotted u)) := by
      rw [hsame]
      exact List.forall₂_refl _
    have hleft := List.forall₂_map_left_iff.mp heq
    have hboth := List.forall₂_map_right_iff.mp hleft
    exact hboth
  obtain ⟨tr₂, hr⟩ := Run.both hL h h' hblind
  obtain ⟨hrelated, hsent⟩ := sent_run hr
  refine ⟨bytes_eq hrelated hsent, fun i i' e e' hi he he' => ?_⟩
  have hs : both (step timeText parse) (step timeText parse) (d, d') (i, i') =
      some ((e, e'), ((), ())) :=
    both_eq_some.mpr ⟨congrArg (Option.map _) he, congrArg (Option.map _) he'⟩
  exact sent_step_iff hrelated hsent hi hs

/-! ## Runs -/

/-- The token `t1` is u1's. -/
def tokens (token : String) : Option String := if token = "t1" then some "u1" else none

def clock (_ : Time) : String := "0"

/-- u1 creates a job with the given payload. -/
def created (payload : Json) : List Input :=
  [.system (.start 0 (.request (.create ⟨"u1", "default", "send_email", some payload, 0, 3,
      none⟩))),
    .system (.run 0 .ok { freshID := "j1" }), .system (.run 0 .ok {}), .system (.run 0 .ok {})]

/-- Somebody without a token. -/
def subscribed : List Input := [.connect 0 ⟨.get, "/api/events", []⟩]

/-- The job is cancelled after the first message has been relayed to nobody. -/
def cancelled (payload : Json) : List Input :=
  created payload ++ .relay [] :: subscribed ++
    [.system (.start 1 (.request (.cancel "j1" "u1"))), .system (.run 1 .ok {}),
      .system (.run 1 .ok {}), .relay [0], .read 0]

theorem cancelled_runs (b : Bool) :
    (execute (step clock tokens) {} (cancelled (.bool b))).isSome := by
  revert b
  decide

/-- The state the deployment comes to. -/
def reached (is : List Input) (h : (execute (step clock tokens) {} is).isSome) : Deployment :=
  (outcome (step clock tokens) {} is h).1

theorem stream_blind_cancelled :
    (reached _ (cancelled_runs true)).bytes 0 =
      Wire.frame (Wire.marshal clock ⟨"job.cancelled", .id "j1"⟩) ∧
    (reached _ (cancelled_runs true)).bytes 0 = (reached _ (cancelled_runs false)).bytes 0 :=
  ⟨by decide, (stream_blind (u := "u1") (Option.some_get (cancelled_runs true)).symm
    (Option.some_get (cancelled_runs false)).symm rfl (by decide)).1⟩

/-- The first message is relayed to the subscriber. -/
def watched (payload : Json) : List Input := subscribed ++ created payload ++ [.relay [0], .read 0]

theorem watched_runs (b : Bool) :
    (execute (step clock tokens) {} (watched (.bool b))).isSome := by
  revert b
  decide

/-- The subscriber without a token can tell the payloads apart. -/
theorem payload_shows : ¬ ∀ timeText parse u c is is' d d' tr tr',
    execute (step timeText parse) {} is = some (d, tr) →
    execute (step timeText parse) {} is' = some (d', tr') →
    is.map (blotted u) = is'.map (blotted u) →
    (∀ request, .connect c request ∈ is →
      Router.auth parse ((request.headers.lookup "Authorization").getD "") ≠ .ok u) →
    d.bytes c = d'.bytes c := by
  intro hall
  have heq := hall clock tokens "u1" 0 (watched (.bool true)) (watched (.bool false)) _ _ _ _
    (Option.some_get (watched_runs true)).symm (Option.some_get (watched_runs false)).symm rfl
    (by
      intro request hrequest
      obtain rfl : request = ⟨.get, "/api/events", []⟩ := by
        simpa [watched, subscribed, created] using hrequest
      nofun)
  have hne : (reached _ (watched_runs true)).bytes 0 ≠ (reached _ (watched_runs false)).bytes 0 := by
    decide
  exact hne heq

end JobFlow.Realtime.Privacy
