import JobFlow.Model.Processor
import JobFlow.Runs.Carried
import JobFlow.Runs.History

/-!
# Jobs that cannot succeed

`Process` fails some jobs whatever answers its request: a type it does not know, a payload
that asks for failure, a webhook that does not decode, names no address or makes no request.
What decides is never written after the insert, so such a job is not completed in any run,
and each of its failures leaves the same message in the row. The texts of the libraries are
parameters.
-/

namespace JobFlow.Worker.Doomed

open JobFlow.Model
open JobFlow.Model.JobRepository
open JobFlow.Model.Processor
open JobFlow.Lib.Transition
open JobFlow.Runs
open ControlFlow Steps Carried History

/-- The error `Process` returns before anything is sent or waited for. -/
def doomed (accepts : String → String → Bool) (job : Job) : Option Processor.Err :=
  if job.jobType ∈ simulated then
    match simulate job.payload with
    | .error x => some x
    | .ok () => none
  else if job.jobType = "send_webhook" then
    if (unmarshal job.payload).failed then some .unmarshal
    else if (unmarshal job.payload).url = "" then some .urlRequired
    else if accepts (if (unmarshal job.payload).method = "" then "POST"
        else (unmarshal job.payload).method) (unmarshal job.payload).url then none
    else some .badRequest
  else some (.unknownType job.jobType)

/-- What the libraries say: what `%q` gives for a text, and what the errors of `json.Unmarshal`
and `http.NewRequest` say for a payload. -/
structure Library where
  quote : String → String
  unmarshal : Json → String
  newRequest : Json → String

/-- The text of an error. -/
def Library.text (lib : Library) (payload : Json) : Processor.Err → String
  | .unmarshal => lib.unmarshal payload
  | .urlRequired => "webhook url is required"
  | .badRequest => lib.newRequest payload
  | .transport message => message
  | .returned status => "webhook returned " ++ status
  | .forceFail => "payload requested failure"
  | .unknownType jobType => "unknown job type " ++ lib.quote jobType

/-- Which texts an error of a payload may have. -/
abbrev Texts := Json → Processor.Err → String → Prop

/-- How `Process` can end. Its context may end first, unless the error comes before that is
looked at. -/
inductive Ends (accepts : String → String → Bool) (texts : Texts) (job : Job) :
    Except String Unit → Prop
  | succeeded {send : Processor.Request → Except String Processor.Response}
      (h : (process accepts send job).2 = .ok ()) : Ends accepts texts job (.ok ())
  | failed {send : Processor.Request → Except String Processor.Response} {x : Processor.Err}
      {text : String} (h : (process accepts send job).2 = .error x)
      (htext : texts job.payload x text) : Ends accepts texts job (.error text)
  | contextDone {text : String} (h : doomed accepts job = none) :
      Ends accepts texts job (.error text)

/-- `Process` ends as its code does, and its errors have these texts. -/
def ProcessesAs (accepts : String → String → Bool) (texts : Texts) (s : State) : Label → Prop
  | .finish p result => ∀ w job, s.procs p = .process w job → Ends accepts texts job result
  | _ => True

/-- What a worker is about to write of a job that cannot succeed. -/
def Honest (accepts : String → String → Bool) (texts : Texts) : Pc → Prop
  | .markCompleted _ job => doomed accepts job = none
  | .markFailed _ job text => ∀ x, doomed accepts job = some x → texts job.payload x text
  | _ => True

/-- What the row of a job shows that cannot succeed. -/
structure Failing (texts : Texts) (x : Processor.Err) (r : Job) : Prop where
  notCompleted : r.status ≠ .completed
  message : r.status = .retrying ∨ r.status = .deadLetter →
    ∃ text, r.errorMessage = some text ∧ texts r.payload x text

variable {accepts : String → String → Bool} {texts : Texts} {pc pc' : Pc} {cmd : Cmd}
  {r : Reply} {s s' : State} {l : Label} {a : Act} {p : Pid} {tr : List Act} {id : String}
  {job job' row₀ : Job} {x : Processor.Err} {text : String} {result : Except String Unit}
  {send : Processor.Request → Except String Processor.Response}

/-! ### The error that is certain -/

theorem process_doomed (h : doomed accepts job = some x) :
    (process accepts send job).2 = .error x := by
  unfold doomed at h
  unfold process
  split at h
  · next htype =>
    rw [if_pos htype]
    split at h <;> cases h
    assumption
  · next htype =>
    rw [if_neg htype]
    split at h
    · next hweb =>
      rw [if_pos hweb]
      simp only [webhook]
      repeat' split at h
      all_goals cases h
      all_goals simp_all
    · next hweb =>
      rw [if_neg hweb]
      cases h
      rfl

/-- If no error is certain, an answer that is no error is a success. -/
theorem process_not_doomed (h : doomed accepts job = none)
    (hsend : ∀ req, ∃ resp, send req = .ok resp ∧ resp.statusCode < 400) :
    (process accepts send job).2 = .ok () := by
  unfold doomed at h
  unfold process
  split at h
  · next htype =>
    rw [if_pos htype]
    split at h
    · cases h
    · assumption
  · next htype =>
    rw [if_neg htype]
    split at h
    · next hweb =>
      rw [if_pos hweb]
      by_cases hfailed : (unmarshal job.payload).failed
      · simp [hfailed] at h
      by_cases hurl : (unmarshal job.payload).url = ""
      · simp [hfailed, hurl] at h
      simp only [webhook, if_neg hfailed, if_neg hurl] at h ⊢
      generalize (if (unmarshal job.payload).method = "" then "POST"
        else (unmarshal job.payload).method) = method at h ⊢
      have haccepts : accepts method (unmarshal job.payload).url := by
        by_contra hno
        rw [if_neg hno] at h
        cases h
      rw [if_pos haccepts]
      split
      · next err herr =>
        obtain ⟨resp, hresp, -⟩ := hsend _
        cases herr.symm.trans hresp
      · next resp hresp =>
        obtain ⟨resp', hresp', hcode⟩ := hsend _
        cases hresp.symm.trans hresp'
        rw [if_neg (Nat.not_le.mpr hcode)]
    · cases h

/-- These are the jobs that no answer makes `Process` succeed on. -/
theorem doomed_iff : (∃ x, doomed accepts job = some x) ↔
    ∀ send, (process accepts send job).2 ≠ .ok () := by
  constructor
  · intro ⟨x, hx⟩ send hok
    rw [process_doomed hx] at hok
    cases hok
  · intro hnever
    refine Option.ne_none_iff_exists'.mp fun hnone => ?_
    exact hnever (fun _ => .ok ⟨"200 OK", 200⟩)
      (process_not_doomed hnone fun _ => ⟨_, rfl, by decide⟩)

/-- What decides is not written after the insert. -/
theorem doomed_congr (h : SameJob job job') : doomed accepts job' = doomed accepts job := by
  simp only [doomed, h.jobType, h.payload]

theorem ends_doomed (h : Ends accepts texts job result) (hx : doomed accepts job = some x) :
    ∃ text, result = .error text ∧ texts job.payload x text := by
  cases h with
  | succeeded hok => cases (process_doomed hx).symm.trans hok
  | failed herr htext =>
    cases (process_doomed hx).symm.trans herr
    exact ⟨_, rfl, htext⟩
  | contextDone hnone => cases hnone.symm.trans hx

/-! ### What the workers write -/

theorem honest_entry (h : EntryPoint pc) : Honest accepts texts pc := by
  cases h <;> trivial

theorem honest_next (hf : Follows pc cmd r pc') : Honest accepts texts pc' := by
  cases hf <;> trivial

theorem honest_processed {w : Pool} (h : Ends accepts texts job result) :
    Honest accepts texts (Pc.processed w job result) := by
  cases result with
  | ok =>
    refine Option.eq_none_iff_forall_ne_some.mpr fun x hx => ?_
    obtain ⟨text, heq, -⟩ := ends_doomed h hx
    cases heq
  | error text =>
    intro x hx
    obtain ⟨text', heq, htext⟩ := ends_doomed h hx
    cases heq
    exact htext

theorem honest_run (h : Run step (ProcessesAs accepts texts) State.initial tr s) (p : Pid) :
    Honest accepts texts (s.procs p) := by
  refine h.invariant (I := fun _ s => Honest accepts texts (s.procs p)) (by trivial) ?_
  intro tr s s' l a _ ih hok hs
  have hmoves := step_moves hs p
  generalize s'.procs p = pc at hmoves ⊢
  cases hmoves with
  | stays => exact ih
  | starts => exact honest_entry (entry_point _)
  | crashes | stops => trivial
  | finishes hl hpc =>
    subst hl
    exact honest_processed (hok _ _ hpc)
  | runs hl hran => exact honest_next (follows hran.code _)

/-! ### What the table holds -/

/-- Only the end of `Process` is recorded as such. -/
theorem step_returned {success : Bool} (h : step s l = some (s', .processReturned p id success)) :
    ∃ w job result, l = .finish p result ∧ s.procs p = .process w job ∧ job.id = id ∧
      result.isOk = success := by
  have hmoves := step_moves h p
  generalize s'.procs p = pc at hmoves
  cases hmoves with
  | stays hacted => exact absurd rfl hacted
  | starts _ _ ha | crashes _ ha | stops _ _ ha => cases ha
  | finishes hl hpc ha =>
    cases ha
    exact ⟨_, _, _, hl, hpc, rfl, rfl⟩
  | runs _ hran =>
    have hact := hran.act
    unfold observe at hact
    split at hact <;> cases hact

/-- A job `Process` has returned no error for is none whose failure is certain. -/
theorem succeeded_run (h : Run step (ProcessesAs accepts texts) State.initial tr s)
    (hpos : successes id tr ≠ 0) : ∃ r, row s id = some r ∧ doomed accepts r = none := by
  refine h.invariant (I := fun tr s => successes id tr ≠ 0 →
    ∃ r, row s id = some r ∧ doomed accepts r = none) (fun hpos => absurd rfl hpos) ?_ hpos
  intro tr s s' l a hrun ih hok hs hpos
  have hold : (∃ r, row s id = some r ∧ doomed accepts r = none) →
      ∃ r, row s' id = some r ∧ doomed accepts r = none := by
    intro ⟨r, hr, hnone⟩
    obtain ⟨r', hr', hsame⟩ := step_sameJob hs hr
    exact ⟨r', hr', (doomed_congr hsame).trans hnone⟩
  refine hold ?_
  by_cases ha : isSuccess id a
  · obtain ⟨p, rfl⟩ : ∃ p, a = .processReturned p id true := by
      cases a <;> simp_all [isSuccess]
    obtain ⟨w, job, result, rfl, hpc, rfl, htrue⟩ := step_returned hs
    obtain ⟨r, hr, hsame⟩ := carried_run hrun p job (by rw [hpc]; exact List.mem_singleton.mpr rfl)
    refine ⟨r, hr, (doomed_congr hsame).symm.trans ?_⟩
    refine Option.eq_none_iff_forall_ne_some.mpr fun x hx => ?_
    obtain ⟨text, rfl, -⟩ := ends_doomed (hok w job hpc) hx
    cases htrue
  · exact ih (by simpa [ha] using hpos)

theorem failing_step {r' : Job} (h : Run step (ProcessesAs accepts texts) State.initial tr s)
    (ih : ∀ r, row s id = some r → doomed accepts r = some x → Failing texts x r)
    (hs : step s l = some (s', a)) (hr' : row s' id = some r') (hx : doomed accepts r' = some x) :
    Failing texts x r' := by
  have hhonest := honest_run h
  have hcarried := carried_run h
  have hrow := step_row hs id
  rw [hr'] at hrow
  generalize hr : row s id = old at hrow
  cases hrow with
  | same => exact ih r' hr hx
  | created hl hpc hnew =>
    obtain ⟨hst, -⟩ | ⟨hst, -⟩ := newRow_status hnew
    · exact ⟨by simp [hst], by simp [hst]⟩
    · exact ⟨by simp [hst], by simp [hst]⟩
  | cancelled | requeued | promoted | running =>
    refine ⟨nofun, ?_⟩
    simp [cancelSet, requeueSet, promotedSet, runningSet]
  | @completed p w job r hpc hid =>
    have hnone := hhonest p
    rw [hpc] at hnone
    obtain ⟨r₁, hr₁, hsame⟩ := hcarried p job (by rw [hpc]; exact List.mem_singleton.mpr rfl)
    rw [hid, hr] at hr₁
    cases hr₁
    cases (hnone.symm.trans (doomed_congr hsame)).trans hx
  | @failed p w job r text hpc hid =>
    have htext := hhonest p
    rw [hpc] at htext
    obtain ⟨r₁, hr₁, hsame⟩ := hcarried p job (by rw [hpc]; exact List.mem_singleton.mpr rfl)
    rw [hid, hr] at hr₁
    cases hr₁
    refine ⟨?_, fun _ => ⟨text, rfl, ?_⟩⟩
    · simp only [failedSet]
      split <;> exact nofun
    · have htexts := htext x ((doomed_congr hsame).trans hx)
      rwa [hsame.payload] at htexts

theorem failing_run (h : Run step (ProcessesAs accepts texts) State.initial tr s)
    (hrow : row s id = some row₀) (hx : doomed accepts row₀ = some x) : Failing texts x row₀ := by
  refine h.invariant (I := fun _ s => ∀ r, row s id = some r → doomed accepts r = some x →
    Failing texts x r) (fun _ h => by cases h) ?_ row₀ hrow hx
  exact fun hrun ih _ hs r hr hx => failing_step hrun ih hs hr hx

theorem never_completes (h : Run step (ProcessesAs accepts texts) State.initial tr s)
    (hrow : row s id = some row₀) (hx : doomed accepts row₀ = some x) :
    successes id tr = 0 ∧ Failing texts x row₀ := by
  refine ⟨?_, failing_run h hrow hx⟩
  by_contra hpos
  obtain ⟨r, hr, hnone⟩ := succeeded_run h hpos
  cases hr.symm.trans hrow
  cases hnone.symm.trans hx

/-- In every run a job that no answer makes `Process` succeed on is never completed, and
while it waits to be tried again or is a dead letter its row has the text of the error, whatever
the libraries say of an unreadable payload or a refused address. -/
theorem doomed_never_completes {lib : Library}
    (h : Run step (ProcessesAs accepts fun payload x text => text = lib.text payload x)
      State.initial tr s)
    (hrow : row s id = some row₀) (hnever : ∀ send, (process accepts send row₀).2 ≠ .ok ()) :
    successes id tr = 0 ∧ row₀.status ≠ .completed ∧
    (row₀.status = .retrying ∨ row₀.status = .deadLetter →
      ∀ send x, (process accepts send row₀).2 = .error x →
        row₀.errorMessage = some (lib.text row₀.payload x)) := by
  obtain ⟨x, hx⟩ := doomed_iff.mpr hnever
  obtain ⟨hzero, hfailing⟩ := never_completes h hrow hx
  refine ⟨hzero, hfailing.notCompleted, fun hst send y hy => ?_⟩
  cases (process_doomed hx).symm.trans hy
  obtain ⟨text, hmessage, rfl⟩ := hfailing.message hst
  exact hmessage

/-- `%q` of a text that needs no escapes. -/
def quoted (text : String) : String := "\"" ++ text ++ "\""

def sampleLibrary : Library :=
  ⟨quoted, fun _ => "unexpected end of JSON input", fun _ => "missing url"⟩

/-- Every job that is processed is a `send_fax`, and fails as one. -/
def faxes (s : State) : Label → Bool
  | .finish p (.error text) =>
    match s.procs p with
    | .process _ job => job.jobType = "send_fax" && text = "unknown job type \"send_fax\""
    | _ => true
  | .finish _ (.ok ()) => false
  | _ => true

/-- Where no `Process` ends, nothing is asked of how it ends. -/
theorem processes_of_no_finish (herr : ∀ p text, l = .finish p (.error text) → False)
    (hok : ∀ p, l = .finish p (.ok ()) → False) : ProcessesAs accepts texts s l := by
  unfold ProcessesAs
  split
  · next p result =>
    cases result with
    | ok => exact (hok p rfl).elim
    | error text => exact (herr p text rfl).elim
  · trivial

theorem processes_of_faxes (h : faxes s l) : ProcessesAs (fun _ _ => true)
    (fun payload x text => text = sampleLibrary.text payload x) s l := by
  unfold faxes at h
  split at h
  · intro w job hpc
    simp only [hpc, Bool.and_eq_true, decide_eq_true_eq] at h
    obtain ⟨htype, rfl⟩ := h
    have herr : (process (fun _ _ => true) (fun _ => .error "") job).2 =
        .error (.unknownType "send_fax") := by
      simp [process, simulated, htype]
    exact .failed herr rfl
  · cases h
  · next hno hno' => exact processes_of_no_finish hno hno'

/-- A `send_fax` with one attempt is created (0) and processed by a worker (1). -/
def oneFax : List Label :=
  [.start 0 (.request (.create ⟨"u1", "default", "send_fax", none, 0, 1, none⟩)),
    .run 0 .ok { freshID := "j1" }, .run 0 .ok {}, .run 0 .ok {},
    .start 1 (.worker ⟨"w1", "host", ["default"]⟩), .run 1 .ok {}, .run 1 .ok {}, .run 1 .ok {},
    .finish 1 (.error "unknown job type \"send_fax\""), .run 1 .ok {}]

theorem oneFax_runs : (execute step State.initial oneFax).isSome := by decide

theorem oneFax_row : (row (outcome step State.initial oneFax oneFax_runs).1 "j1").any
    fun r => r.jobType = "send_fax" && r.status = .deadLetter := by decide

theorem doomed_never_completes_oneFax : ∃ tr s r,
    Run step (ProcessesAs (fun _ _ => true) fun payload x text =>
      text = sampleLibrary.text payload x) State.initial tr s ∧
    row s "j1" = some r ∧ successes "j1" tr = 0 ∧ r.status = .deadLetter ∧
    r.errorMessage = some "unknown job type \"send_fax\"" := by
  have hrun := (Run.of_outcome oneFax_runs
    (show Admitted step (fun s l => faxes s l = true) _ _ by decide)).mono
    fun _ _ => processes_of_faxes
  obtain ⟨r, hr, hr'⟩ := (Option.any_eq_true _ _).mp oneFax_row
  obtain ⟨htype, hst⟩ : r.jobType = "send_fax" ∧ r.status = .deadLetter := by simpa using hr'
  have herr : ∀ send, (process (fun _ _ => true) send r).2 = .error (.unknownType "send_fax") := by
    simp [process, simulated, htype]
  obtain ⟨hzero, -, hmessage⟩ := doomed_never_completes hrun hr fun send => by rw [herr]; nofun
  exact ⟨_, _, r, hrun, hr, hzero, hst, hmessage (.inr hst) (fun _ => .error "") _ (herr _)⟩

end JobFlow.Worker.Doomed
