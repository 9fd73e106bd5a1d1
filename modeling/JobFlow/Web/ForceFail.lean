import JobFlow.Web.Creation
import JobFlow.Worker.Doomed

/-!
# From the form to the worker

The jobs of a system whose requests come from the form. What the worker makes of such a job
is known from the form that was sent: the switch for the retry path fails the simulated types
for good, and a webhook whose payload is an object does not see it.
-/

namespace JobFlow.Web.ForceFail

open JobFlow.Model
open JobFlow.Model.CreateJob (CreateJobRequest shouldBindJSON)
open JobFlow.Model.JavaScript
open JobFlow.Model.JobComposer
open JobFlow.Model.JobRepository (varchar newRow)
open JobFlow.Model.Processor (simulate simulated webhook process unmarshal)
open JobFlow.Lib
open JobFlow.Lib.Transition
open JobFlow.Runs
open ControlFlow Steps History
open JobFlow.Web.Creation
open JobFlow.Worker.Doomed

/-! ### What the form asks for -/

/-- The row is that of a request of a form. -/
structure Made (zone : LocalTime) (s : Composer) (v : JsValue) (index : Nat) (r : Job) :
    Prop where
  shown : shownPayload s = some v
  shows : Shows zone s v index r
  payload : r.payload = document (composed s v index)

variable {zone : LocalTime} {forms : Composer → Prop} {s : Composer} {v : JsValue} {index : Nat}
  {pc pc' : Pc} {cmd : Cmd} {reply : Reply} {st st' : State} {l : Label} {a : Act} {p : Pid}
  {tr : List Act} {id : String} {r : Job}

/-! ### In every run -/

theorem Made.congr {r' : Job} (h : Made zone s v index r) (hsame : SameJob r r') :
    Made zone s v index r' := by
  obtain ⟨hshown, ⟨htype, hqueue, hpriority, hattempts, hplain, hmarked, htime⟩, hpayload⟩ := h
  refine ⟨hshown, ⟨?_, ?_, ?_, ?_, ?_, ?_, ?_⟩, hsame.payload.trans hpayload⟩
  · rw [hsame.jobType, htype]
  · rw [hsame.queueName, hqueue]
  · rwa [hsame.priority]
  · rwa [hsame.maxAttempts]
  · rwa [hsame.payload]
  · rwa [hsame.payload]
  · rwa [hsame.scheduledAt]

variable {accepts : String → String → Bool} {quote : String → String}

end JobFlow.Web.ForceFail
