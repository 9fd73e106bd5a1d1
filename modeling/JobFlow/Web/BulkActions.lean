import JobFlow.Model.JobTable

/-!
# What the bulk actions reach

The loop over the selected jobs waits for each call and is left with the first that
fails, so the jobs after it are not asked for.
-/

namespace JobFlow.Web.BulkActions

open JobFlow.Lib.Loop
open JobFlow.Model
open JobFlow.Model.Client (Action)
open JobFlow.Model.UseJobFlow (Hook)
open JobFlow.Model.JobTable

variable {server : Server} {token : String} {action : Action}

/-- The server does what the request asks for. -/
def Accepts (server : Server) (request : HttpRequest) : Prop := (server.respond request).isOk

instance (server : Server) (request : HttpRequest) : Decidable (Accepts server request) :=
  inferInstanceAs (Decidable (_ = true))

/-- The requests that were sent and that the server has done. -/
def carriedOut (server : Server) (s : Page) : List HttpRequest :=
  s.sent.filter fun request => Accepts server request

/-- There is one request for each selected job, and every one that the server accepts is done. -/
structure Reaches (server : Server) (token : String) (selected : List Job) (action : Action)
    (s : Page) : Prop where
  once : s.sent.Perm (selected.map fun job => action.request token job)
  done : ∀ job ∈ selected, Accepts server (action.request token job) →
    action.request token job ∈ carriedOut server s

theorem run_act (notice : String) (job : Job) (s : Page) :
    (run (act server token action notice job) s).2.sent = s.sent ++ [action.request token job] ∧
      ((run (act server token action notice job) s).1.isOk ↔
        Accepts server (action.request token job)) := by
  rw [act, run_bind, run_api, Accepts]
  cases server.respond (action.request token job) with
  | error message => exact ⟨rfl, Iff.rfl⟩
  | ok body =>
    dsimp only
    rw [run_bind, run_modify]
    dsimp only
    rw [sent_refresh, ok_refresh]
    exact ⟨rfl, Iff.rfl⟩

/-- The jobs the loop of an action gets to. -/
abbrev reached (server : Server) (token : String) (action : Action) (selected : List Job) :
    List Job := attempted (fun job => Accepts server (action.request token job)) selected

theorem sent_loop (notice : String) (selected : List Job) (s : Page) :
    (run (forM selected (act server token action notice)) s).2.sent =
      s.sent ++ (reached server token action selected).map fun job => action.request token job :=
  log_forM Page.sent (fun job s => (run_act notice job s).1)
    (fun job s => (run_act notice job s).2) selected s

theorem sent_bulkRetry (selected : List Job) (s : Page) :
    (run (bulkRetry (retryJob server token) selected) s).2.sent =
      s.sent ++ (reached server token .retryJob selected).map
        fun job => Action.request token job .retryJob := by
  rw [bulkRetry, read_bind Page.sent fun _ _ => rfl]
  exact sent_loop "Job requeued" selected s

theorem sent_onConfirm (d : Dialog) (s : Page) :
    (run (d.onConfirm (cancelJob server token)) s).2.sent =
      s.sent ++ (reached server token .cancelJob d.jobs).map
        fun job => Action.request token job .cancelJob := by
  rw [Dialog.onConfirm, read_bind Page.sent fun _ _ => rfl]
  exact sent_loop "Job cancelled" d.jobs s

theorem sent_runConfirmAction {d : Dialog} {s : Page} (h : s.confirm = some d) :
    (run (runConfirmAction (cancelJob server token)) s).2.sent =
      s.sent ++ (reached server token .cancelJob d.jobs).map
        fun job => Action.request token job .cancelJob := by
  rw [runConfirmAction, run_bind, run_get]
  dsimp only
  rw [h]
  dsimp only
  rw [run_bind, run_modify]
  dsimp only
  rw [run_tryFinally]
  dsimp only
  rw [read_bind Page.sent fun _ _ => rfl, sent_onConfirm]

variable (server token action) in
/-- The requests of a bulk action. -/
theorem sent_bulk (hook : Hook) (selectedIds : List String) (selected : List Job) :
    (run (bulk server token selected action) { hook, selectedIds }).2.sent =
      (reached server token action selected).map fun job => action.request token job := by
  cases action with
  | retryJob => exact sent_bulkRetry selected _
  | cancelJob =>
    rw [bulk, run_bind, bulkCancel]
    cases selected with
    | nil => rfl
    | cons job rest =>
      rw [if_neg (by simp), run_modify]
      dsimp only
      rw [sent_runConfirmAction rfl]
      rfl

/-- The page after a bulk action. -/
def after (server : Server) (token : String) (action : Action) (hook : Hook) (allJobs : List Job)
    (selectedIds : List String) : Page :=
  (run (bulk server token (selectedJobs allJobs selectedIds) action) { hook, selectedIds }).2

/-- A bulk action reaches every selected job exactly when the server accepts the requests
for all of them but the last. -/
theorem bulk_reaches_iff (server : Server) (token : String) (action : Action) (hook : Hook)
    (allJobs : List Job) (selectedIds : List String) :
    Reaches server token (selectedJobs allJobs selectedIds) action
        (after server token action hook allJobs selectedIds) ↔
      ∀ job ∈ (selectedJobs allJobs selectedIds).dropLast,
        Accepts server (action.request token job) := by
  unfold after
  generalize selectedJobs allJobs selectedIds = selected
  have hsent := sent_bulk server token action hook selectedIds selected
  rw [← attempted_eq_self_iff fun job => Accepts server (action.request token job)]
  constructor
  · intro h
    have hlen := h.once.length_eq
    rw [hsent, List.length_map, List.length_map] at hlen
    exact (prefix_attempted selected).eq_of_length hlen
  · intro h
    rw [reached, h] at hsent
    refine ⟨hsent ▸ List.Perm.refl _, fun job hjob hok => ?_⟩
    rw [carriedOut, hsent]
    exact List.mem_filter.mpr ⟨List.mem_map_of_mem hjob, decide_eq_true hok⟩

/-- A job of the list. -/
def job (id : String) (status : Status) : Job where
  id := id
  userID := some "u1"
  queueName := "default"
  jobType := "report"
  payload := .null
  status := status
  priority := 0
  attempts := 3
  maxAttempts := 3
  errorMessage := none
  scheduledAt := none
  startedAt := none
  completedAt := none
  createdAt := 0
  updatedAt := 0

/-- A server at which only the job `b` can be retried. -/
def oneDead : Server where
  answer request :=
    if request.path = "/api/jobs/b/retry" then .ok ("OK", ⟨200, .job (job "b" .queued)⟩)
    else .ok ("Bad Request", ⟨400, .error "no rows in result set"⟩)
  data _ := .error "Internal Server Error"

/-- A job that can not be retried keeps the one after it from being retried. -/
theorem retry_not_reached : ¬ ∀ server token action hook allJobs selectedIds,
    Reaches server token (selectedJobs allJobs selectedIds) action
      (after server token action hook allJobs selectedIds) := by
  intro hall
  have hreach := hall oneDead "token" .retryJob { token := "token" }
    [job "a" .completed, job "b" .deadLetter] ["a", "b"]
  have hselected : selectedJobs [job "a" .completed, job "b" .deadLetter] ["a", "b"] =
      [job "a" .completed, job "b" .deadLetter] := by rfl
  rw [hselected] at hreach
  have hdone := hreach.done (job "b" .deadLetter) (by simp) (by decide)
  have hnone : carriedOut oneDead (after oneDead "token" .retryJob { token := "token" }
      [job "a" .completed, job "b" .deadLetter] ["a", "b"]) = [] := by rfl
  rw [hnone] at hdone
  cases hdone

end JobFlow.Web.BulkActions
