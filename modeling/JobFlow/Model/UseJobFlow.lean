import JobFlow.Lib.Transition
import JobFlow.Model.Dashboard

/-!
# The hook `useJobFlow`

The state of the hook, and what the browser may do next: a render, a call of one of the
functions some render handed out, the answer to a request, a server event. A function of
the hook holds the token of the render that made it. What an `await` resumes runs in one
turn of the event loop.
-/

namespace JobFlow.Model.UseJobFlow

open JobFlow.Lib.Transition

/-- `model.User` as the server sends it. -/
structure User where
  id : String
  name : String
  email : String
  company : Option String
  createdAt : Time

/-- The values of the `useState` calls. -/
structure Hook where
  token : String
  user : Option User := none
  jobs : List Job := []
  stats : Option DashboardStats := none
  selectedJob : Option Job := none
  notice : String := ""
  error : String := ""
  events : List Event := []
  loading : Bool := false

/-- The job that stays selected: the same one by id, or else the first. -/
def reselect (jobData : List Job) : Option Job → Option Job
  | none => jobData.head?
  | some current => (jobData.find? fun job => job.id = current.id).or jobData.head?

/-- The rest of `refresh` after `Promise.all` has given both results. -/
def Hook.refreshed (h : Hook) (jobData : List Job) (statsData : DashboardStats) : Hook :=
  { h with
    jobs := jobData, stats := some statsData
    selectedJob := reselect jobData h.selectedJob
    error := "", loading := false }

/-- The rest of `refresh` after a call has failed. -/
def Hook.refreshFailed (h : Hook) (message : String) : Hook :=
  { h with error := message, loading := false }

def Hook.authenticated (h : Hook) (mode token : String) (user : User) : Hook :=
  { h with
    token := token, user := some user
    notice := if mode = "register" then "Account created" else "Signed in" }

def Hook.signOut (h : Hook) : Hook :=
  { h with token := "", user := none, jobs := [], stats := none, selectedJob := none }

def Hook.onmessage (h : Hook) (parsed : Event) : Hook :=
  { h with events := (parsed :: h.events).take 30 }

/-- The answer to one of the two calls of `refresh`, as `api` returns or throws it. -/
inductive Answer where
  | jobs (r : Except String (List Job))
  | dashboard (r : Except String DashboardStats)

/-- A `refresh` that has sent its requests, with the answers so far. -/
structure Refresh where
  token : String
  jobs : Option (Except String (List Job)) := none
  dashboard : Option (Except String DashboardStats) := none

/-- A request is answered once. -/
def Refresh.answer (r : Refresh) : Answer → Option Refresh
  | .jobs x => if r.jobs.isSome then none else some { r with jobs := some x }
  | .dashboard x => if r.dashboard.isSome then none else some { r with dashboard := some x }

/-- What `Promise.all` has come to: a failure as soon as there is one. -/
def Refresh.all (r : Refresh) : Option (Except String (List Job × DashboardStats)) :=
  match r.jobs, r.dashboard with
  | some (.ok jobData), some (.ok statsData) => some (.ok (jobData, statsData))
  | some (.error e), _ => some (.error e)
  | _, some (.error e) => some (.error e)
  | _, _ => none

/-- The hook with what it waits for. Calls are numbered in the order they were made. -/
structure Session where
  hook : Hook
  /-- The token of each render, latest first. -/
  rendered : List String := []
  /-- The token under which the `EventSource` was opened that is now open. -/
  source : Option String := none
  refreshes : List Refresh := []
  /-- The modes of the calls of `authenticate` that have no answer yet. -/
  signIns : List String := []
  /-- Which refresh `jobs` and `stats` come from. The code keeps no such number. -/
  shown : Option Nat := none

/-- The first state: the token that `localStorage` holds, or the empty one. -/
def mount (stored : Option String) : Session where
  hook := { token := stored.getD "" }

namespace Session

/-- `refresh` of a render with this token, up to its `await`. -/
def refresh (s : Session) (token : String) : Session :=
  if token = "" then s
  else
    { s with
      hook := { s.hook with loading := true }
      refreshes := s.refreshes ++ [{ token := token }] }

/-- A render. The two effects run when the token is not that of the last render: the
first refreshes, the second leaves the old stream and opens one if there is a token. -/
def render (s : Session) : Session :=
  let s' := { s with rendered := s.hook.token :: s.rendered }
  if s.rendered.head? = some s.hook.token then s'
  else
    { s'.refresh s.hook.token with
      source := if s.hook.token = "" then none else some s.hook.token }

/-- `refresh` goes on when `Promise.all` settles, which it does once. -/
def resume (s : Session) (n : Nat) (before after : Refresh) : Session :=
  if before.all.isSome then s
  else
    match after.all with
    | none => s
    | some (.error e) => { s with hook := s.hook.refreshFailed e }
    | some (.ok (jobData, statsData)) =>
      { s with hook := s.hook.refreshed jobData statsData, shown := some n }

/-- An answer to refresh `n` arrives. -/
def arrive (s : Session) (n : Nat) (x : Answer) : Option Session := do
  let r ← s.refreshes[n]?
  let r' ← r.answer x
  return resume { s with refreshes := s.refreshes.set n r' } n r r'

/-- The answer to a call of `authenticate` arrives: the token and the user, or an error,
which the sign-in form shows. -/
def authenticated (s : Session) (n : Nat) (data : Except String (String × User)) :
    Option Session := do
  let mode ← s.signIns[n]?
  let s := { s with signIns := s.signIns.eraseIdx n }
  match data with
  | .error e => return { s with hook := { s.hook with error := e } }
  | .ok (token, user) => return { s with hook := s.hook.authenticated mode token user }

def signOut (s : Session) : Session := { s with hook := s.hook.signOut, shown := none }

end Session

inductive Input where
  | render
  /-- A call of `refresh` as a render handed it out: by a shortcut, a button, an action. -/
  | refresh (token : String)
  | arrive (n : Nat) (x : Answer)
  | authenticate (mode : String)
  | authenticated (n : Nat) (data : Except String (String × User))
  | signOut
  | message (parsed : Event)
  | sourceError
  | setSelectedJob (job : Job)
  | setNotice (text : String)
  | setError (text : String)

/-- The session after a turn, if the turn can happen. -/
def turn (s : Session) : Input → Option Session
  | .render => some s.render
  | .refresh token => if token ∈ s.rendered then some (s.refresh token) else none
  | .arrive n x => s.arrive n x
  | .authenticate mode => some { s with signIns := s.signIns ++ [mode] }
  | .authenticated n data => s.authenticated n data
  | .signOut => some s.signOut
  | .message parsed =>
    s.source.map fun token => { s with hook := s.hook.onmessage parsed }.refresh token
  | .sourceError =>
    s.source.map fun _ =>
      { s with hook := { s.hook with error := "Realtime connection interrupted" } }
  | .setSelectedJob job => some { s with hook := { s.hook with selectedJob := some job } }
  | .setNotice text => some { s with hook := { s.hook with notice := text } }
  | .setError text => some { s with hook := { s.hook with error := text } }

/-- The browser as a machine. A turn shows the state of the hook. -/
def step : Machine Session Input Hook :=
  fun s l => (turn s l).map fun s' => (s', s'.hook)

end JobFlow.Model.UseJobFlow
