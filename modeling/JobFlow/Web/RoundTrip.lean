import JobFlow.Model.JobRepository
import JobFlow.Web.Payload

/-!
# A job that is exported and imported again

The list that the API answers with is exported, the file is imported and the form is
submitted as it then is. The request carries the first job just where nothing on the way
replaces a value: no fallback of the import, no limit of the form, no rounding, and no
clock of the browser that differs from that of the server.
-/

namespace JobFlow.Web.RoundTrip

open JobFlow.Model
open JobFlow.Model.JavaScript
open JobFlow.Model.JobComposer
open JobFlow.Model.JobListing (rfc3339 clock marshalJobs Marshals)
open JobFlow.Model.JobRepository (int4)
open JobFlow.Web.Import
open JobFlow.Web.Payload
open JobFlow.Lib
open JobFlow.Lib.Binary64 (reread nearest)
open JobFlow.Lib.Timestamp (minuteText instantText instant?)

/-- What the columns and `MarshalJSON` leave of the jobs that the API can answer with. -/
structure Answered (server : Time → Int) (job : Job) : Prop where
  payload : job.payload.valid
  priority : int4 job.priority
  maxAttempts : int4 job.maxAttempts
  scheduledAt : ∀ t ∈ job.scheduledAt, Marshals server t

/-- The instant, in microseconds, that a value is the text of. -/
def instant : Value ℚ → Option Time
  | .string s => (instant? s.toList).map (1000 * ·)
  | _ => none

/-- The members of a request for the same job. -/
structure Carries (job : Job) (members : List (String × Value ℚ)) : Prop where
  jobType : members.lookup "type" = some (.string job.jobType)
  queue : members.lookup "queue" = some (.string job.queueName)
  priority : members.lookup "priority" = some (.number job.priority)
  maxAttempts : members.lookup "max_attempts" = some (.number job.maxAttempts)
  payload : members.lookup "payload" = some job.payload.meaning
  scheduledAt : (members.lookup "scheduled_at").map instant = job.scheduledAt.map some

/-- One request is sent, and its body means the job. -/
def Sends (zone : LocalTime) (s : Composer) (job : Job) : Prop :=
  ∃ body members, ((submit zone s).2 = fun index => if index = 0 then some body else none) ∧
    (JsonText.parse body).map Json.meaning = some (.object members) ∧ Carries job members

/-- From every state of the composer the jobs are exported, imported and submitted. -/
def RoundTrips (server : Time → Int) (zone : LocalTime) (jobs : List Job) (job : Job) : Prop :=
  ∃ scope, parse (marshalJobs server jobs) = some scope ∧ ∀ s, ∃ s',
    importJobFile s (exportJobs scope) = some s' ∧ Sends zone s' job

/-- The clocks differ by what is cut off the text: with whole minutes of difference to UTC
they agree, and the instant is on a minute. -/
def SameClock (server : Time → Int) (zone : LocalTime) (t : Time) : Prop :=
  1000000 * (server t - zone.offset (clock server t / 60000000)) = clock server t % 60000000

instance (server : Time → Int) (zone : LocalTime) (t : Time) : Decidable (SameClock server zone t) :=
  inferInstanceAs (Decidable (_ = _))

/-- A job of which the way through the file and the form leaves everything as it is. -/
structure Repeatable (server : Time → Int) (zone : LocalTime) (job : Job) : Prop where
  queue : job.queueName ≠ ""
  maxAttempts : 1 ≤ job.maxAttempts ∧ job.maxAttempts ≤ 10
  payload : Restorable job.payload.meaning
  scheduledAt : ∀ t ∈ job.scheduledAt, SameClock server zone t

variable {server : Time → Int} {zone : LocalTime} {s : Composer} {template : Template} {job : Job}

theorem natAbs_of_int4 {n : Int} (h : int4 n) : n.natAbs < 2 ^ 53 := by
  simp only [int4, Bool.and_eq_true, decide_eq_true_eq] at h
  omega

/-! ### The form -/

theorem value_read {n : Int} (h : n.natAbs < 2 ^ 53) :
    ∃ x, Number.read (toString n) = .finite x ∧ x.value = n := by
  obtain ⟨x, hx, hneg, hmag⟩ := read_toString h
  refine ⟨x, hx, ?_⟩
  simp only [Binary64.value, hneg, hmag, decide_eq_true_eq]
  rw [← Int.cast_natCast, ← Int.cast_neg]
  split
  · congr 1
    omega
  · congr 1
    omega

theorem within_read {n : Int} (h : n.natAbs < 2 ^ 53) (least greatest : Int) :
    (Field.number (.read (toString n))).within least greatest ↔ least ≤ n ∧ n ≤ greatest := by
  obtain ⟨x, hx, hvalue⟩ := value_read h
  rw [Field.within, Field.shown, Field.toNumber, hx]
  · simp [hvalue]
  · exact nofun

theorem count_one : count (.number (.read "1")) = some 1 := by
  obtain ⟨x, hx, hvalue⟩ := value_read (n := 1) (by decide)
  have hone : Number.read "1" = .finite x := hx
  rw [count, Field.toNumber, hone]
  simp only [hvalue, Int.cast_one, lt_irrefl, if_false]

/-- The members of the request without the time. -/
def body (server : Time → Int) (s : Composer) (template : Template) (job : Job) :
    List (String × JsValue) :=
  Members.putAll [] [("queue", .string (imported server s template job).queue),
    ("type", .string job.jobType), ("priority", .number (.read (toString job.priority))),
    ("max_attempts", .number (imported server s template job).maxAttempts.toNumber),
    ("payload", sent server job)]

theorem parse_payloadText : parse (if (imported server s template job).payloadText = "" then "\x7b\x7d"
    else (imported server s template job).payloadText) = some (edited server job) := by
  have hsettled : ∃ v : JsValue, edited server job = v.bind Number.settled ∧ v.Canonical := by
    rw [edited, taken_some]
    split
    · exact ⟨_, rfl, canonical_ofJson _⟩
    · exact ⟨_, rfl, canonical_ofJson _⟩
  obtain ⟨v, hv, hcanonical⟩ := hsettled
  have hparse : parse (stringify 2 (edited server job)) = some (edited server job) := by
    rw [hv, parse_stringify (canonical_settled hcanonical), bind_settled_settled]
  have hne : stringify 2 (edited server job) ≠ "" := by
    intro hempty
    rw [hempty] at hparse
    cases hparse
  have htext : (imported server s template job).payloadText = stringify 2 (edited server job) := rfl
  rw [htext, if_neg hne, hparse]

variable (zone) in
/-- The requests of a form that the browser submits. -/
theorem submit_imported (h : (imported server s template job).valid) :
    (submit zone (imported server s template job)).2 = fun index => if index = 0 then
      if (imported server s template job).scheduledAt = "" then
        some (stringify 0 (.object (body server s template job)))
      else (toISOString zone (imported server s template job).scheduledAt).map fun text =>
        stringify 0 (.object (Members.put "scheduled_at" (.string text) (body server s template job)))
    else none := by
  funext index
  rw [submit, if_pos h, parse_payloadText]
  have hcount : count (imported server s template job).batchCount = some 1 := count_one
  have hpayload : (if (imported server s template job).forceFail then
      .object (Members.put "force_fail" (.bool true) (spread (edited server job)))
      else edited server job) = sent server job := rfl
  have hfirst : (∀ n ∈ some (1 : ℚ), (index : ℚ) < n) ↔ index = 0 := by
    simp only [Option.mem_some_iff, forall_eq', Nat.cast_lt_one]
  simp only [createJobs, hcount, hpayload, if_true]
  by_cases hindex : index = 0
  · rw [guard, if_pos (hfirst.mpr hindex), if_pos hindex]
    split
    · rfl
    · exact Option.map_eq_bind.symm
  · rw [guard, if_neg (mt hfirst.mp hindex), if_neg hindex]
    rfl

theorem canonical_body : (Value.object (body server s template job)).Canonical := by
  refine Value.canonical_nil.putAll fun p hp => ?_
  simp only [List.mem_cons, List.not_mem_nil, or_false] at hp
  rcases hp with rfl | rfl | rfl | rfl | rfl
  · exact .string _
  · exact .string _
  · exact .number _
  · exact .number _
  · exact canonical_sent

/-- A request carries the job just where its members do. -/
theorem sends_iff {b : List (String × JsValue)} (hb : (Value.object b).Canonical)
    (h : (submit zone s).2 = fun index => if index = 0 then some (stringify 0 (.object b)) else none) :
    Sends zone s job ↔ Carries job (Members.mapValues (·.bind Number.meaning) b) := by
  have hmeaning := meaning_stringify hb 0
  rw [Value.bind_object] at hmeaning
  constructor
  · rintro ⟨text, members, hsubmit, htext, hcarries⟩
    rw [h] at hsubmit
    obtain rfl := Option.some.inj (congrFun hsubmit 0)
    rw [hmeaning] at htext
    exact Value.object.inj (Option.some.inj htext) ▸ hcarries
  · exact fun hcarries => ⟨_, _, h, hmeaning, hcarries⟩

/-! ### The time -/

/-- The first sixteen characters are the minute that the clock of the server shows. -/
theorem slice_rfc3339 {t : Time} (h : Marshals server t) :
    slice (rfc3339 server t) = String.ofList (minuteText (clock server t / 60000000)) := by
  have hlen := Timestamp.length_minuteText h.1 h.2
  rw [slice, rfc3339, String.toList_ofList, List.take_left' hlen]

variable (zone) in
theorem natAbs_instant {minute : Int} (h : (Calendar.civil (minute / 1440)).year.natAbs ≤ 9999) :
    (zone.instant minute).natAbs ≤ 8640000000000000 := by
  have hdays := Calendar.le_of_year h
  have hoffset := zone.within minute
  unfold LocalTime.instant
  omega

/-- What the browser reads and writes again. -/
theorem toISOString_minute {minute : Int}
    (h : (Calendar.civil (minute / 1440)).year.natAbs ≤ 9999) :
    toISOString zone (String.ofList (minuteText minute)) =
      some (String.ofList (instantText (zone.instant minute))) := by
  have hread := Timestamp.minute?_minuteText (n := minute) (by omega) []
  rw [List.append_nil] at hread
  unfold toISOString
  rw [String.toList_ofList, hread]
  exact if_pos (natAbs_instant zone h)

theorem instant_minute {minute : Int} (h : (Calendar.civil (minute / 1440)).year.natAbs ≤ 9999) :
    instant (.string (String.ofList (instantText (zone.instant minute)))) =
      some (1000 * zone.instant minute) := by
  have hbound := natAbs_instant zone h
  rw [instant, String.toList_ofList, Timestamp.instant?_instantText (Calendar.year_lt (by omega))]
  rfl

/-- The instant is the same just where the clocks differ by what was cut off. -/
theorem instant_eq_iff (t : Time) :
    1000 * zone.instant (clock server t / 60000000) = t ↔ SameClock server zone t := by
  unfold SameClock LocalTime.instant
  generalize hm : clock server t / 60000000 = m
  unfold clock at hm ⊢
  omega

/-! ### The request -/

/-- The limits of the form for what the import has filled in. -/
theorem valid_imported : (imported server s template job).valid ↔
    (imported server s template job).maxAttempts.within 1 10 := by
  have hbatch : (imported server s template job).batchCount.within 1 25 :=
    (within_read (n := 1) (by decide) 1 25).mpr (by decide)
  rw [Composer.valid, hbatch, Bool.and_true]

variable (server s template job) in
theorem lookup_body : let b := body server s template job
    b.lookup "type" = some (.string job.jobType) ∧
      b.lookup "queue" = some (.string (imported server s template job).queue) ∧
      b.lookup "priority" = some (.number (.read (toString job.priority))) ∧
      b.lookup "max_attempts" =
        some (.number (imported server s template job).maxAttempts.toNumber) ∧
      b.lookup "payload" = some (sent server job) ∧ b.lookup "scheduled_at" = none := by
  simp [body, Members.lookup_putAll, List.lookup_cons]

/-- What has to be equal besides the time. -/
structure Agrees (server : Time → Int) (s : Composer) (template : Template) (job : Job) : Prop where
  queue : (imported server s template job).queue = job.queueName
  maxAttempts : (imported server s template job).maxAttempts.toNumber.meaning = .number job.maxAttempts
  payload : Restorable job.payload.meaning

/-- A request with a time, or with none, in addition to the other members. -/
theorem carries_iff (h : Answered server job) {b : List (String × JsValue)}
    (hb : ∀ name ≠ "scheduled_at", b.lookup name = (body server s template job).lookup name) :
    Carries job (Members.mapValues (·.bind Number.meaning) b) ↔ Agrees server s template job ∧
      (b.lookup "scheduled_at").map (fun v => instant (v.bind Number.meaning)) =
        job.scheduledAt.map some := by
  obtain ⟨htype, hqueue, hpriority, hmax, hpayload, -⟩ :=
    lookup_body server s template job
  have hmeaning : (Number.read (toString job.priority)).meaning = .number job.priority :=
    meaning_integer (natAbs_of_int4 h.priority)
  have hlookup (name : String) := Members.lookup_mapValues
    (fun v : JsValue => v.bind Number.meaning) name b
  have hscheduled : ((b.lookup "scheduled_at").map (·.bind Number.meaning)).map instant =
      (b.lookup "scheduled_at").map (fun v => instant (v.bind Number.meaning)) := Option.map_map ..
  constructor
  · rintro ⟨-, hq, -, hm, hp, ht⟩
    rw [hlookup, hb _ (by decide), hqueue] at hq
    rw [hlookup, hb _ (by decide), hmax] at hm
    rw [hlookup, hb _ (by decide), hpayload] at hp
    rw [hlookup, hscheduled] at ht
    exact ⟨⟨Value.string.inj (Option.some.inj hq), Option.some.inj hm,
      (sent_iff h.payload).mp (Option.some.inj hp)⟩, ht⟩
  · rintro ⟨⟨hq, hm, hp⟩, ht⟩
    refine ⟨?_, ?_, ?_, ?_, ?_, ?_⟩
    · rw [hlookup, hb _ (by decide), htype]
      rfl
    · rw [hlookup, hb _ (by decide), hqueue, hq]
      rfl
    · rw [hlookup, hb _ (by decide), hpriority, ← hmeaning]
      rfl
    · rw [hlookup, hb _ (by decide), hmax, ← hm]
      rfl
    · rw [hlookup, hb _ (by decide), hpayload, ← (sent_iff h.payload).mpr hp]
      rfl
    · rw [hlookup, hscheduled, ht]

/-- After the import of the job the form sends it just where the browser accepts the form,
nothing was replaced and the clocks agree. -/
theorem sends_imported (h : Answered server job) :
    Sends zone (imported server s template job) job ↔
      (imported server s template job).maxAttempts.within 1 10 ∧ Agrees server s template job ∧
        ∀ t ∈ job.scheduledAt, SameClock server zone t := by
  by_cases hvalid : (imported server s template job).valid
  case neg =>
    have hnone : (submit zone (imported server s template job)).2 = fun _ => none := by
      rw [submit, if_neg hvalid]
    refine ⟨?_, fun hsends => absurd (valid_imported.mpr hsends.1) hvalid⟩
    rintro ⟨text, members, hsubmit, -⟩
    rw [hnone] at hsubmit
    cases congrFun hsubmit 0
  have hsubmit := submit_imported zone hvalid
  rw [and_iff_right (valid_imported.mp hvalid)]
  cases ht : job.scheduledAt with
  | none =>
    have hempty : (imported server s template job).scheduledAt = "" := by rw [imported, ht]; rfl
    simp only [hempty, if_true] at hsubmit
    rw [sends_iff canonical_body hsubmit, carries_iff h (fun _ _ => rfl), ht, (lookup_body server s template job).2.2.2.2.2]
    simp
  | some t =>
    obtain ⟨hyear0, hyear⟩ := h.scheduledAt t ht
    have hyears : (Calendar.civil (clock server t / 60000000 / 1440)).year.natAbs ≤ 9999 := by omega
    have htext : (imported server s template job).scheduledAt =
        String.ofList (minuteText (clock server t / 60000000)) := by
      rw [imported, ht]
      exact slice_rfc3339 ⟨hyear0, hyear⟩
    have hne : String.ofList (minuteText (clock server t / 60000000)) ≠ "" := by
      intro hempty
      have hlen := Timestamp.length_minuteText hyear0 hyear
      have hnil : minuteText (clock server t / 60000000) = [] := String.ofList_injective hempty
      rw [hnil] at hlen
      cases hlen
    simp only [hne, if_false, htext, toISOString_minute hyears, Option.map_some] at hsubmit
    rw [sends_iff (canonical_body.put _ (.string _)) hsubmit, carries_iff h, ht, Members.lookup_put,
      if_pos rfl]
    · refine and_congr_right fun _ => ?_
      rw [Option.map_some, Option.map_some, Value.bind, instant_minute hyears, Option.some.injEq,
        Option.some.injEq, instant_eq_iff]
      simp only [Option.mem_some_iff, forall_eq']
    · intro name hname
      rw [Members.lookup_put, if_neg hname]

/-- A composer in which all controls are filled in. -/
def filled : Composer where
  type := "send_email"
  queue := "emails"
  priority := .number (.read "5")
  maxAttempts := .number (.read "3")
  forceFail := false
  scheduledAt := ""
  batchCount := .number (.read "1")
  payloadText := "\x7b\x7d"
  jsonError := false

theorem template_queue {type : String} (ht : jobTemplates.lookup type = some template) :
    template.queue ≠ "" := by
  have hall : ∀ p ∈ jobTemplates, p.2.queue ≠ "" := by decide
  obtain ⟨before, after, hsplit, -⟩ := List.lookup_eq_some_iff.mp ht
  exact hall (type, template) (hsplit ▸ List.mem_append_right _ List.mem_cons_self)

/-- What the import does with the queue. -/
theorem queue_imported (ht : jobTemplates.lookup job.jobType = some template) :
    (imported server s template job).queue = job.queueName ↔ job.queueName ≠ "" := by
  unfold imported
  by_cases h : job.queueName = ""
  · simp only [h, if_true, ne_eq, not_true, iff_false]
    exact template_queue ht
  · simp only [h, if_false, ne_eq, not_false_iff]

/-- With no attempts the composer keeps those it had, and they are some. -/
theorem maxAttempts_filled
    (hmeaning : (imported server filled template job).maxAttempts.toNumber.meaning =
      .number job.maxAttempts) : job.maxAttempts ≠ 0 := by
  intro hzero
  have hfield : (imported server filled template job).maxAttempts =
      .number (.read (toString (3 : Int))) := if_pos hzero
  rw [hfield, Field.toNumber, meaning_integer (by decide), hzero] at hmeaning
  have := Value.number.inj hmeaning
  norm_num at this

theorem maxAttempts_imported (h : job.maxAttempts ≠ 0) :
    (imported server s template job).maxAttempts = .number (.read (toString job.maxAttempts)) :=
  if_neg h

/-! ### From the answer to the request -/

theorem sends_of_roundTrips {rest : List Job} (h : ∀ j ∈ job :: rest, Answered server j)
    (ht : jobTemplates.lookup job.jobType = some template) :
    RoundTrips server zone (job :: rest) job ↔
      ∀ s, Sends zone (imported server s template job) job := by
  have hjob := h job List.mem_cons_self
  obtain ⟨scope, hscope, hfile⟩ := importJobFile_exported server
    (fun j hj => (h j hj).payload) ht (natAbs_of_int4 hjob.priority) (natAbs_of_int4 hjob.maxAttempts)
  constructor
  · rintro ⟨scope', hscope', hall⟩ s
    rw [hscope] at hscope'
    obtain rfl := Option.some.inj hscope'
    obtain ⟨s', himport, hsends⟩ := hall s
    rw [hfile] at himport
    exact Option.some.inj himport ▸ hsends
  · exact fun hall => ⟨scope, hscope, fun s => ⟨_, hfile s, hall s⟩⟩

theorem repeatable_of_roundTrips {rest : List Job} (h : ∀ j ∈ job :: rest, Answered server j)
    (ht : jobTemplates.lookup job.jobType = some template)
    (hround : RoundTrips server zone (job :: rest) job) : Repeatable server zone job := by
  have hjob := h job List.mem_cons_self
  have hsends := (sends_of_roundTrips h ht).mp hround filled
  obtain ⟨hwithin, hagrees, hclock⟩ := (sends_imported hjob).mp hsends
  have hsome := maxAttempts_filled hagrees.maxAttempts
  rw [maxAttempts_imported hsome, within_read (natAbs_of_int4 hjob.maxAttempts)] at hwithin
  exact ⟨(queue_imported ht).mp hagrees.queue, hwithin, hagrees.payload, hclock⟩

/-- Exporting, importing and submitting repeats the first job if and only if its queue is
not empty, its attempts are within the limits of the form, its payload is truthy, has no
truthy `force_fail` but `true` and only numbers that are kept, and the clocks agree. -/
theorem roundTrips_iff {rest : List Job} (h : ∀ j ∈ job :: rest, Answered server j)
    (ht : (jobTemplates.lookup job.jobType).isSome) :
    RoundTrips server zone (job :: rest) job ↔ Repeatable server zone job := by
  have hjob := h job List.mem_cons_self
  obtain ⟨template, ht⟩ := Option.isSome_iff_exists.mp ht
  refine ⟨repeatable_of_roundTrips h ht, fun hrepeat => (sends_of_roundTrips h ht).mpr fun s => ?_⟩
  have hsome : job.maxAttempts ≠ 0 := by
    have := hrepeat.maxAttempts.1
    omega
  have hint := natAbs_of_int4 hjob.maxAttempts
  refine (sends_imported hjob).mpr ⟨?_, ⟨(queue_imported ht).mpr hrepeat.queue, ?_, hrepeat.payload⟩,
    hrepeat.scheduledAt⟩
  · rw [maxAttempts_imported hsome, within_read hint]
    exact hrepeat.maxAttempts
  · rw [maxAttempts_imported hsome]
    exact meaning_integer hint

/-- A webhook that is due on a minute. -/
def webhook : Job where
  id := "1"
  userID := some "2"
  queueName := "webhooks"
  jobType := "send_webhook"
  payload := .object [("url", .string "https://example.com/hook"),
    ("body", .object [("amount", .number "0.50"), ("tags", .array [.null, .bool false])])]
  status := .scheduled
  priority := 12
  attempts := 0
  maxAttempts := 3
  errorMessage := none
  scheduledAt := some 1709214840000000
  startedAt := none
  completedAt := none
  createdAt := 1709211000123456
  updatedAt := 1709211000123456

theorem answered_webhook : Answered (fun _ => 0) webhook :=
  ⟨by decide +kernel, by decide, by decide, fun t ht => by
    obtain rfl := Option.some.inj ht
    decide +kernel⟩

/-- A browser whose clock is so many seconds ahead. -/
def ahead (seconds : Nat) (h : seconds < 86400) : LocalTime := ⟨fun _ => seconds, fun _ => h⟩

theorem roundTrips_iff_webhook : RoundTrips (fun _ => 0) (ahead 0 (by decide)) [webhook] webhook := by
  refine (roundTrips_iff (List.forall_mem_singleton.mpr answered_webhook) (by decide)).mpr
    ⟨by decide, by decide, ⟨by decide +kernel, ?_, ?_⟩, ?_⟩
  · have hmember : (member "force_fail" webhook.payload.meaning).isNone := by decide +kernel
    intro v hv
    rw [Option.isNone_iff_eq_none.mp hmember] at hv
    cases hv
  · have hnumbers : ∀ q ∈ webhook.payload.meaning.numbers, nearest |q| < 2 ^ 1024 ∧ reread q = q := by
      decide +kernel
    exact hnumbers
  · intro t ht
    obtain rfl := Option.some.inj ht
    decide +kernel

/-- An hour from the server the job is sent for another instant. -/
theorem webhook_moved : ¬ ∀ (server : Time → Int) (zone : LocalTime) (job : Job) (rest : List Job),
    (∀ j ∈ job :: rest, Answered server j) → (jobTemplates.lookup job.jobType).isSome →
      RoundTrips server zone (job :: rest) job := by
  intro h
  have hround := h (fun _ => 0) (ahead 3600 (by decide)) webhook []
    (List.forall_mem_singleton.mpr answered_webhook) (by decide)
  have hrepeat := repeatable_of_roundTrips (List.forall_mem_singleton.mpr answered_webhook) rfl hround
  exact absurd (hrepeat.scheduledAt _ rfl) (by decide +kernel)

end JobFlow.Web.RoundTrip
