import JobFlow.Lib.Mailbox
import JobFlow.Model.Broker

/-!
# What each client of the broker receives

Each client is a mailbox of its own: the broker's steps are events at it, and the
steps of other clients are none. What a client receives is therefore determined
by the publishes and by its own steps, and the properties of one mailbox are the
properties of the broker.
-/

namespace JobFlow.Realtime.Delivery

open JobFlow.Model
open JobFlow.Model.Broker
open JobFlow.Lib
open JobFlow.Lib.Transition

variable {α : Type}

/-- How the handlers' progress shows in the map and in their channels. -/
structure Coherent (b : Broker α) : Prop where
  registered : ∀ c, c ∈ b.clients ↔ (b.connections c).phase = .serving
  closed : ∀ c, (b.connections c).channel.closed = true ↔ (b.connections c).phase = .returned
  fresh : ∀ c, (b.connections c).phase = .absent →
    (b.connections c).channel.buffer = [] ∧ (b.connections c).received = []

theorem Coherent.open_of_mem {b : Broker α} (h : Coherent b) {c : ClientID} (hc : c ∈ b.clients) :
    (b.connections c).channel.closed = false := by
  cases hcl : (b.connections c).channel.closed with
  | false => rfl
  | true =>
    have hserving := (h.registered c).mp hc
    rw [(h.closed c).mp hcl] at hserving
    cases hserving

theorem coherent_initial : Coherent (Broker.initial : Broker α) where
  registered c := by simp [Broker.initial]
  closed c := by simp [Broker.initial]
  fresh c _ := ⟨rfl, rfl⟩

/-- What a publish leaves of one connection. -/
structure Sent (body : α) (reached : Prop) [Decidable reached] (conn conn' : Connection α) :
    Prop where
  phase : conn'.phase = conn.phase
  received : conn'.received = conn.received
  closed : conn'.channel.closed = conn.channel.closed
  buffer : conn'.channel.buffer =
    if reached ∧ conn.channel.buffer.length < clientCapacity then conn.channel.buffer ++ [body]
    else conn.channel.buffer

/-- Over open channels the loop of `publishRaw` goes through, and it sends to each
channel once. -/
theorem publishRaw_spec (body : α) {order : List ClientID} (hn : order.Nodup) {b : Broker α}
    (hopen : ∀ c ∈ order, (b.connections c).channel.closed = false) :
    ∃ b', b.publishRaw order body = some b' ∧ b'.clients = b.clients ∧
      ∀ c, Sent body (c ∈ order) (b.connections c) (b'.connections c) := by
  induction order generalizing b with
  | nil => exact ⟨b, rfl, rfl, fun c => ⟨rfl, rfl, rfl, by simp⟩⟩
  | cons c₀ rest ih =>
    obtain ⟨hnot, hrest⟩ := List.nodup_cons.mp hn
    obtain ⟨ch, hch⟩ := Option.isSome_iff_exists.mp
      ((Channel.trySend_isSome _ body).mpr (hopen c₀ List.mem_cons_self))
    obtain ⟨hclosed, hbuffer⟩ := Channel.trySend_eq_some hch
    have hsend : send body b c₀ = some (b.put c₀ { b.connections c₀ with channel := ch }) := by
      rw [send, hch, Option.map_some]
    have hother : ∀ c, c ≠ c₀ →
        (b.put c₀ { b.connections c₀ with channel := ch }).connections c = b.connections c :=
      fun c hc => Function.update_of_ne hc _ _
    have hself : (b.put c₀ { b.connections c₀ with channel := ch }).connections c₀ =
        { b.connections c₀ with channel := ch } := Function.update_self _ _ _
    obtain ⟨b', hpub, hclients, hconn⟩ := ih hrest
      (b := b.put c₀ { b.connections c₀ with channel := ch }) fun c hc => by
        rw [hother c fun heq => hnot (heq ▸ hc)]
        exact hopen c (List.mem_cons_of_mem _ hc)
    refine ⟨b', ?_, hclients, fun c => ?_⟩
    · rw [publishRaw, List.foldlM_cons, hsend]
      exact hpub
    · have hc := hconn c
      by_cases heq : c = c₀
      · subst heq
        rw [hself] at hc
        refine ⟨hc.phase, hc.received, hc.closed.trans hclosed, ?_⟩
        rw [hc.buffer, if_neg (fun hm => hnot hm.1), hbuffer]
        simp
      · rw [hother c heq] at hc
        refine ⟨hc.phase, hc.received, hc.closed, ?_⟩
        rw [hc.buffer]
        simp [heq]

/-- The mailbox of one client. -/
def mailbox (b : Broker α) (c : ClientID) : Mailbox α :=
  ⟨decide (c ∈ b.clients), (b.connections c).channel.buffer, (b.connections c).received⟩

/-- The event an act is at the mailbox of `c`, if it is one. -/
def eventAt (c : ClientID) : Act α → Option (Mailbox.Event α)
  | .published body => some (.offered body)
  | .connected c' => if c' = c then some .opened else none
  | .read c' => if c' = c then some .taken else none
  | .disconnected c' => if c' = c then some .shut else none
  | .closed _ | .panicked => none

def hearAct (c : ClientID) (m : Mailbox α) (a : Act α) : Mailbox α :=
  ((eventAt c a).map (m.hear clientCapacity)).getD m

/-- A step of one handler changes its own connection and its own key in the map. -/
structure Moved (b b' : Broker α) (c : ClientID) (conn : Connection α) : Prop where
  self : b'.connections c = conn
  other : ∀ c', c' ≠ c → b'.connections c' = b.connections c'
  keys : ∀ c', c' ≠ c → (c' ∈ b'.clients ↔ c' ∈ b.clients)

theorem Moved.coherent {b b' : Broker α} {c : ClientID} {conn : Connection α}
    (hm : Moved b b' c conn) (hb : Coherent b) (hkey : c ∈ b'.clients ↔ conn.phase = .serving)
    (hclosed : conn.channel.closed = true ↔ conn.phase = .returned)
    (hfresh : conn.phase ≠ .absent) : Coherent b' where
  registered c' := by
    by_cases h : c' = c
    · rw [h, hm.self, hkey]
    · rw [hm.keys c' h, hm.other c' h, hb.registered]
  closed c' := by
    by_cases h : c' = c
    · rw [h, hm.self, hclosed]
    · rw [hm.other c' h, hb.closed]
  fresh c' := by
    by_cases h : c' = c
    · rw [h, hm.self]
      exact fun habs => absurd habs hfresh
    · rw [hm.other c' h]
      exact hb.fresh c'

/-- Other handlers' mailboxes are not affected. -/
theorem Moved.mailbox_other {b b' : Broker α} {c c' : ClientID} {conn : Connection α}
    (hm : Moved b b' c conn) (h : c' ≠ c) : mailbox b' c' = mailbox b c' := by
  simp only [mailbox, hm.other c' h, hm.keys c' h]

theorem moved_put (b : Broker α) (c : ClientID) (conn : Connection α) {keys : Finset ClientID}
    (hkeys : ∀ c', c' ≠ c → (c' ∈ keys ↔ c' ∈ b.clients)) :
    Moved b { b.put c conn with clients := keys } c conn :=
  ⟨Function.update_self _ _ _, fun _ h => Function.update_of_ne h _ _, hkeys⟩

/-- What a step of the broker is: a publish to every registered client, or a move of
one handler. It never panics. -/
inductive Effect (b b' : Broker α) : Act α → Prop
  | published {body : α} (hkeys : b'.clients = b.clients)
      (hsent : ∀ c, Sent body (c ∈ b.clients) (b.connections c) (b'.connections c)) :
      Effect b b' (.published body)
  | connected {c : ClientID} (hphase : (b.connections c).phase = .absent)
      (hkey : c ∈ b'.clients) (hm : Moved b b' c ⟨.make, .serving, []⟩) :
      Effect b b' (.connected c)
  | read {c : ClientID} {m : α} {ch : Channel α clientCapacity}
      (hphase : (b.connections c).phase = .serving)
      (hrecv : (b.connections c).channel.recv = some (m, ch)) (hkey : c ∈ b'.clients)
      (hm : Moved b b' c ⟨ch, .serving, (b.connections c).received ++ [m]⟩) :
      Effect b b' (.read c)
  | disconnected {c : ClientID} (hphase : (b.connections c).phase = .serving)
      (hkey : c ∉ b'.clients) (hm : Moved b b' c { b.connections c with phase := .leaving }) :
      Effect b b' (.disconnected c)
  | closed {c : ClientID} {ch : Channel α clientCapacity}
      (hphase : (b.connections c).phase = .leaving)
      (hclose : (b.connections c).channel.close = some ch) (hkey : c ∉ b'.clients)
      (hm : Moved b b' c { b.connections c with channel := ch, phase := .returned }) :
      Effect b b' (.closed c)

theorem step_effect {b b' : Broker α} {l : Broker.Label α} {a : Act α} (hb : Coherent b)
    (h : Broker.step b l = some (b', a)) : Effect b b' a := by
  cases l with
  | publish order body =>
    simp only [Broker.step] at h
    split at h
    case isFalse => cases h
    next hkeys =>
    have hmem : ∀ c, c ∈ order ↔ c ∈ b.clients := fun c => by rw [← hkeys.2, List.mem_toFinset]
    obtain ⟨b₁, hpub, hclients, hsent⟩ := publishRaw_spec body hkeys.1
      fun c hc => hb.open_of_mem ((hmem c).mp hc)
    rw [hpub] at h
    cases h
    refine .published hclients fun c => ?_
    obtain ⟨hp, hr, hc, hbuf⟩ := hsent c
    exact ⟨hp, hr, hc, by simp only [hbuf, hmem]⟩
  | connect c =>
    simp only [Broker.step] at h
    split at h <;> cases h
    next hphase =>
    exact .connected hphase (Finset.mem_insert_self _ _)
      (moved_put b c _ fun c' hc' => Finset.mem_insert.trans (or_iff_right hc'))
  | read c =>
    simp only [Broker.step] at h
    split at h <;> cases h
    next hphase hrecv =>
    exact .read hphase hrecv ((hb.registered c).mpr hphase) (moved_put b c _ fun _ _ => .rfl)
  | disconnect c =>
    simp only [Broker.step] at h
    split at h <;> cases h
    next hphase =>
    exact .disconnected hphase (Finset.notMem_erase _ _)
      (moved_put b c _ fun c' hc' => Finset.mem_erase.trans (and_iff_right hc'))
  | close c =>
    simp only [Broker.step] at h
    split at h
    case h_2 => cases h
    next hphase =>
    have hopen : (b.connections c).channel.closed = false := by
      rw [← Bool.not_eq_true, hb.closed, hphase]
      decide
    obtain ⟨ch, hch⟩ := Option.isSome_iff_exists.mp ((Channel.close_isSome _).mpr hopen)
    rw [hch] at h
    cases h
    refine .closed hphase hch ?_ (moved_put b c _ fun _ _ => .rfl)
    simp [hb.registered, hphase, put]

/-- The act of a step of the broker. -/
def actOf : Broker.Label α → Broker.Act α
  | .publish _ body => .published body
  | .connect c => .connected c
  | .read c => .read c
  | .disconnect c => .disconnected c
  | .close c => .closed c

theorem step_act {b b' : Broker α} {l : Broker.Label α} {a : Broker.Act α}
    (hb : Coherent b) (h : Broker.step b l = some (b', a)) : a = actOf l := by
  have hno : a ≠ .panicked := by
    rintro rfl
    cases step_effect hb h
  cases l with
  | publish order body =>
    simp only [Broker.step] at h
    split at h
    · split at h <;> cases h
      · rfl
      · exact absurd rfl hno
    · cases h
  | close c =>
    simp only [Broker.step] at h
    split at h
    · split at h <;> cases h
      · rfl
      · exact absurd rfl hno
    · cases h
  | connect c | read c | disconnect c =>
    simp only [Broker.step] at h
    split at h <;> cases h
    rfl

theorem coherent_step {b b' : Broker α} {a : Act α} (hb : Coherent b) (h : Effect b b' a) :
    Coherent b' := by
  cases h with
  | published hkeys hsent =>
    refine ⟨fun c => ?_, fun c => ?_, fun c hc => ?_⟩
    · rw [hkeys, hb.registered, (hsent c).phase]
    · rw [(hsent c).closed, hb.closed, (hsent c).phase]
    · rw [(hsent c).phase] at hc
      have hnot : c ∉ b.clients := by
        rw [hb.registered, hc]
        decide
      rw [(hsent c).buffer, (hsent c).received, if_neg fun hr => hnot hr.1]
      exact hb.fresh c hc
  | connected hphase hkey hm =>
    exact hm.coherent hb (iff_of_true hkey rfl) (by simp) (by simp)
  | @read c m ch hphase hrecv hkey hm =>
    have hcl := hb.closed c
    rw [hphase] at hcl
    refine hm.coherent hb (iff_of_true hkey rfl) ?_ (by simp)
    rw [(Channel.recv_eq_some hrecv).2, hcl]
  | @disconnected c hphase hkey hm =>
    have hcl := hb.closed c
    rw [hphase] at hcl
    exact hm.coherent hb (iff_of_false hkey (by simp)) (by simp [hcl]) (by simp)
  | closed hphase hclose hkey hm =>
    exact hm.coherent hb (iff_of_false hkey (by simp))
      (iff_of_true (Channel.close_eq_some hclose).2.1 rfl) (by simp)

/-- One step is at most one event at each mailbox. -/
theorem mailbox_step {b b' : Broker α} {a : Act α} (hb : Coherent b) (h : Effect b b' a)
    (c : ClientID) : mailbox b' c = hearAct c (mailbox b c) a := by
  cases h with
  | published hkeys hsent =>
    simp only [mailbox, hearAct, eventAt, Option.map_some, Option.getD_some, Mailbox.hear, hkeys,
      (hsent c).buffer, (hsent c).received, decide_eq_true_eq]
    split <;> rfl
  | @connected c' hphase hkey hm =>
    by_cases heq : c' = c
    · subst heq
      obtain ⟨hbuf, hrec⟩ := hb.fresh c' hphase
      simp [mailbox, hearAct, eventAt, Mailbox.hear, hm.self, hkey, hbuf, hrec]
    · rw [hm.mailbox_other (Ne.symm heq)]
      simp [hearAct, eventAt, heq]
  | @read c' m ch hphase hrecv hkey hm =>
    by_cases heq : c' = c
    · subst heq
      simp [mailbox, hearAct, eventAt, Mailbox.hear, hm.self, hkey, (Channel.recv_eq_some hrecv).1,
        (hb.registered c').mpr hphase]
    · rw [hm.mailbox_other (Ne.symm heq)]
      simp [hearAct, eventAt, heq]
  | @disconnected c' hphase hkey hm =>
    by_cases heq : c' = c
    · subst heq
      simp [mailbox, hearAct, eventAt, Mailbox.hear, hm.self, hkey]
    · rw [hm.mailbox_other (Ne.symm heq)]
      simp [hearAct, eventAt, heq]
  | @closed c' ch hphase hclose hkey hm =>
    by_cases heq : c' = c
    · subst heq
      have hnot : c' ∉ b.clients := by
        rw [hb.registered, hphase]
        decide
      simp [mailbox, hearAct, eventAt, hm.self, hkey, hnot, (Channel.close_eq_some hclose).2.2]
    · rw [hm.mailbox_other (Ne.symm heq)]
      rfl

theorem coherent_run {ok : Broker α → Broker.Label α → Prop} {tr : List (Act α)} {b : Broker α}
    (h : Run Broker.step ok .initial tr b) : Coherent b :=
  h.invariant (I := fun _ b => Coherent b) coherent_initial
    fun _ hb _ hs => coherent_step hb (step_effect hb hs)

theorem not_panicked_run {tr : List (Act α)} {b : Broker α}
    (h : Run Broker.step anyStep .initial tr b) : .panicked ∉ tr := by
  refine h.invariant (I := fun tr _ => .panicked ∉ tr) (by simp) ?_
  intro tr b b' l a hrun hno _ hs
  have ha : a ≠ .panicked := by
    rintro rfl
    cases step_effect (coherent_run hrun) hs
  simp [hno, ha.symm]

/-- The events of a history at the mailbox of one client. -/
def eventsAt (c : ClientID) (tr : List (Act α)) : List (Mailbox.Event α) :=
  tr.filterMap (eventAt c)

theorem foldl_hearAct (c : ClientID) (tr : List (Act α)) (m : Mailbox α) :
    tr.foldl (hearAct c) m = (eventsAt c tr).foldl (Mailbox.hear clientCapacity) m := by
  induction tr generalizing m with
  | nil => rfl
  | cons a tr ih =>
    rw [List.foldl_cons, ih]
    simp only [eventsAt, List.filterMap_cons, hearAct]
    cases eventAt c a <;> rfl

/-- A client's mailbox after a run is the fold of the events at it. -/
theorem mailbox_run {tr : List (Act α)} {b₀ b : Broker α} (hb : Coherent b₀)
    (h : Run Broker.step anyStep b₀ tr b) (c : ClientID) :
    mailbox b c = (eventsAt c tr).foldl (Mailbox.hear clientCapacity) (mailbox b₀ c) := by
  rw [← foldl_hearAct]
  refine h.foldl_view (fun b => mailbox b c) ?_
  intro tr b b' l a hrun hs
  have hcoh : Coherent b := hrun.invariant (I := fun _ b => Coherent b) hb
    fun _ hb _ hs => coherent_step hb (step_effect hb hs)
  exact mailbox_step hcoh (step_effect hcoh hs) c

/-- The messages published while `c` was registered, in the order of publication. -/
def publishedTo (c : ClientID) (tr : List (Act α)) : List α :=
  Mailbox.offers false (eventsAt c tr)

/-- The acts that are publishes or `c`'s own. -/
def concerns (c : ClientID) : Act α → Bool
  | .published _ => true
  | .connected c' | .read c' | .disconnected c' | .closed c' => c' = c
  | .panicked => false

theorem eventsAt_filter (c : ClientID) (tr : List (Act α)) :
    eventsAt c (tr.filter (concerns c)) = eventsAt c tr := by
  rw [eventsAt, List.filterMap_filter]
  refine List.filterMap_congr fun a _ => ?_
  cases a <;> simp [concerns, eventAt]

theorem mem_eventsAt_shut {c : ClientID} {tr : List (Act α)} (h : .shut ∈ eventsAt c tr) :
    .disconnected c ∈ tr := by
  obtain ⟨a, ha, he⟩ := List.mem_filterMap.mp h
  cases a <;> simp only [eventAt, Option.some.injEq, reduceCtorEq, Option.ite_none_right_eq_some,
    and_false] at he
  obtain ⟨rfl, -⟩ := he
  exact ha

@[simp] theorem mailbox_initial (c : ClientID) :
    mailbox (Broker.initial : Broker α) c = .empty := rfl

/-- What a client has received is a part, in the order of publication and each message
once, of what was published while it was registered. -/
theorem received_sublist {tr : List (Act α)} {b : Broker α}
    (h : Run Broker.step anyStep .initial tr b) (c : ClientID) :
    (b.connections c).received.Sublist (publishedTo c tr) := by
  have hacc := Mailbox.accepted_sublist clientCapacity Mailbox.empty (eventsAt c tr)
  have hrun := mailbox_run coherent_initial h c
  rw [mailbox_initial] at hrun
  rw [← hrun] at hacc
  exact (List.sublist_append_left _ _).trans hacc

/-- A message published to a registered client is dropped only if its channel is full.
Otherwise it has its place among what the client receives; if the client has not
come to it, the message is still in the channel or the client has disconnected. -/
theorem published_received {before after : List (Act α)} {m : α} {b₁ b : Broker α}
    (h₁ : Run Broker.step anyStep .initial before b₁)
    (h : Run Broker.step anyStep b₁ (.published m :: after) b) {c : ClientID}
    (hc : c ∈ b₁.clients) :
    (b₁.connections c).channel.buffer.length = clientCapacity ∨
    (b.connections c).received[(mailbox b₁ c).accepted.length]? = some m ∨
    ((b.connections c).received.length ≤ (mailbox b₁ c).accepted.length ∧
      (mailbox b c).accepted[(mailbox b₁ c).accepted.length]? = some m ∧
      (c ∈ b.clients ∨ .disconnected c ∈ after)) := by
  have hopen : (mailbox b₁ c).isOpen := decide_eq_true hc
  have hrun := mailbox_run (coherent_run h₁) h c
  have hevents : eventsAt c (.published m :: after) = .offered m :: eventsAt c after := rfl
  rw [hevents] at hrun
  rcases Mailbox.accepted_of_offer clientCapacity hopen m (eventsAt c after) with hfull | hplace
  · exact .inl (Nat.le_antisymm (b₁.connections c).channel.fits hfull)
  · rw [← hrun] at hplace
    right
    by_cases hlt : (mailbox b₁ c).accepted.length < (b.connections c).received.length
    · left
      rw [← hplace]
      exact (List.getElem?_append_left hlt).symm
    · refine .inr ⟨Nat.le_of_not_lt hlt, hplace, ?_⟩
      by_cases hshut : .shut ∈ eventsAt c after
      · exact .inr (mem_eventsAt_shut hshut)
      · left
        have hno : .shut ∉ Mailbox.Event.offered m :: eventsAt c after := by simp [hshut]
        have hstill := Mailbox.isOpen_of_not_shut clientCapacity hopen hno
        rw [← hrun] at hstill
        exact of_decide_eq_true hstill

/-- What a client receives depends only on the publishes and on its own steps. -/
theorem received_congr {tr tr' : List (Act α)} {b b' : Broker α}
    (h : Run Broker.step anyStep .initial tr b) (h' : Run Broker.step anyStep .initial tr' b')
    {c : ClientID} (heq : tr.filter (concerns c) = tr'.filter (concerns c)) :
    (b.connections c).received = (b'.connections c).received := by
  have hm := mailbox_run coherent_initial h c
  have hm' := mailbox_run coherent_initial h' c
  rw [← eventsAt_filter, heq, eventsAt_filter, mailbox_initial] at hm
  rw [mailbox_initial, ← hm] at hm'
  exact (congrArg Mailbox.received hm').symm

/-- In every interleaving of publishes, connects, reads and disconnects: no send meets a
closed channel; each client receives a subsequence of what was published while it was
registered; a message it misses found 16 unread ones or was left unread at the
disconnect; and other clients' reads make no difference. -/
theorem broker_delivery {tr : List (Act α)} {b : Broker α}
    (h : Run Broker.step anyStep .initial tr b) :
    .panicked ∉ tr ∧ ∀ c,
      (b.connections c).received.Sublist (publishedTo c tr) ∧
      (∀ before m after b₁, tr = before ++ .published m :: after →
        Run Broker.step anyStep .initial before b₁ →
        Run Broker.step anyStep b₁ (.published m :: after) b → c ∈ b₁.clients →
        (b₁.connections c).channel.buffer.length = 16 ∨
        (b.connections c).received[(mailbox b₁ c).accepted.length]? = some m ∨
        ((b.connections c).received.length ≤ (mailbox b₁ c).accepted.length ∧
          (mailbox b c).accepted[(mailbox b₁ c).accepted.length]? = some m ∧
          (c ∈ b.clients ∨ .disconnected c ∈ after))) ∧
      ∀ tr' b', Run Broker.step anyStep .initial tr' b' →
        tr.filter (concerns c) = tr'.filter (concerns c) →
        (b.connections c).received = (b'.connections c).received :=
  ⟨not_panicked_run h, fun c => ⟨received_sublist h c,
    fun _ _ _ _ _ h₁ h₂ hc => published_received h₁ h₂ hc,
    fun _ _ h' heq => received_congr h h' heq⟩⟩

/-- Client 0 never reads, client 1 reads at once, and client 2 leaves after the first
of 17 messages. -/
def slowClient : List (Broker.Label Nat) :=
  [.connect 0, .connect 1, .connect 2, .publish [2, 0, 1] 0, .read 1, .disconnect 2, .close 2] ++
    (List.range 16).flatMap fun i => [.publish [0, 1] (i + 1), .read 1]

theorem broker_delivery_slow : ∃ tr b, Run Broker.step anyStep .initial tr b ∧
    .panicked ∉ tr ∧ (b.connections 0).channel.buffer.length = 16 ∧
    (b.connections 1).received = List.range 17 ∧
    (b.connections 1).received.Sublist (publishedTo 1 tr) :=
  have hrun := Run.of_outcome (l := slowClient) (by decide)
    (admitted_anyStep (Broker.initial : Broker Nat) _)
  ⟨_, _, hrun, (broker_delivery hrun).1, by decide, by decide, ((broker_delivery hrun).2 1).1⟩

end JobFlow.Realtime.Delivery
