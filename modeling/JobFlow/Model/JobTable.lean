import JobFlow.Lib.Loop
import JobFlow.Model.Client
import JobFlow.Model.UseJobFlow

/-!
# The bulk actions of `JobTable`

The buttons for the selected jobs, with the calls of `useJobFlow` that they wait for and
the dialog of `App` that asks before a cancellation.
-/

namespace JobFlow.Model.JobTable

open JobFlow.Lib.Loop
open JobFlow.Model.UseJobFlow (Hook)

/-- What the browser gets from the server. -/
structure Server where
  /-- `fetch`: the text of the status and the response, or that there is none. -/
  answer : HttpRequest → Except String (String × Response)
  /-- What a `refresh` loads after these requests. -/
  data : List HttpRequest → Except String (List Job × DashboardStats)

/-- The options of a confirmation; its `onConfirm` cancels the jobs. -/
structure Dialog where
  title : String
  message : String
  confirmLabel : String
  variant : String
  jobs : List Job

/-- The state of the hook, of the table and of `App`, and the requests for job actions that
were sent, in their order. -/
structure Page where
  hook : Hook
  selectedIds : List String
  confirm : Option Dialog := none
  confirmBusy : Bool := false
  sent : List HttpRequest := []

section Calls

variable (server : Server) (token : String)

/-- What `api` returns or throws for a request. -/
def Server.respond (request : HttpRequest) : Except String (Option Body) :=
  match server.answer request with
  | .error message => .error message
  | .ok (statusText, response) => Client.read statusText response

def api (request : HttpRequest) : Async String Page (Option Body) := do
  modify fun s => { s with sent := s.sent ++ [request] }
  match server.respond request with
  | .ok body => pure body
  | .error message => throw message

/-- `refresh` catches what its calls throw. -/
def refresh : Async String Page Unit :=
  if token = "" then pure ()
  else
    modify fun s =>
      match server.data s.sent with
      | .ok (jobData, statsData) => { s with hook := s.hook.refreshed jobData statsData }
      | .error message => { s with hook := s.hook.refreshFailed message }

/-- A call for one job, the notice that follows it and the refresh. -/
def act (action : Client.Action) (notice : String) (job : Job) : Async String Page Unit := do
  let _ ← api server (action.request token job)
  modify fun s => { s with hook := { s.hook with notice := notice } }
  refresh server token

def retryJob : Job → Async String Page Unit := act server token .retryJob "Job requeued"

def cancelJob : Job → Async String Page Unit := act server token .cancelJob "Job cancelled"

end Calls

/-- The selected jobs of the filtered list. -/
def selectedJobs (allJobs : List Job) (selectedIds : List String) : List Job :=
  allJobs.filter fun job => job.id ∈ selectedIds

def bulkRetry (onRetry : Job → Async String Page Unit) (selected : List Job) :
    Async String Page Unit := do
  forM selected onRetry
  modify fun s => { s with selectedIds := [] }

def cancelDialog (selected : List Job) : Dialog where
  title := "Cancel selected jobs?"
  message := toString selected.length ++ " selected job" ++
    (if selected.length = 1 then "" else "s") ++
    " will be cancelled and removed from active processing."
  confirmLabel := "Cancel jobs"
  variant := "danger"
  jobs := selected

/-- `bulkCancel` asks first. -/
def bulkCancel (selected : List Job) : Async String Page Unit :=
  if selected.isEmpty then pure ()
  else modify fun s => { s with confirm := some (cancelDialog selected) }

def Dialog.onConfirm (onCancel : Job → Async String Page Unit) (d : Dialog) :
    Async String Page Unit := do
  forM d.jobs onCancel
  modify fun s => { s with selectedIds := [] }

def runConfirmAction (onCancel : Job → Async String Page Unit) : Async String Page Unit := do
  match (← get).confirm with
  | none => pure ()
  | some d =>
    modify fun s => { s with confirmBusy := true }
    tryFinally (do
        d.onConfirm onCancel
        modify fun s => { s with confirm := none })
      fun s => { s with confirmBusy := false }

/-- The button for the action, and for a cancellation the one of the dialog. -/
def bulk (server : Server) (token : String) (selected : List Job) :
    Client.Action → Async String Page Unit
  | .retryJob => bulkRetry (retryJob server token) selected
  | .cancelJob => do
    bulkCancel selected
    runConfirmAction (cancelJob server token)

theorem run_api (server : Server) (request : HttpRequest) (s : Page) :
    run (api server request) s =
      (server.respond request, { s with sent := s.sent ++ [request] }) := by
  rw [api, run_bind, run_modify]
  cases server.respond request <;> rfl

@[simp] theorem sent_refresh (server : Server) (token : String) (s : Page) :
    (run (refresh server token) s).2.sent = s.sent := by
  rw [refresh]
  split_ifs
  · rfl
  · rw [run_modify]
    dsimp only
    split <;> rfl

theorem ok_refresh (server : Server) (token : String) (s : Page) :
    (run (refresh server token) s).1 = .ok () := by
  rw [refresh]
  split_ifs <;> rfl

end JobFlow.Model.JobTable
