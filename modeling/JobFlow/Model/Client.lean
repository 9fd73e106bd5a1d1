import JobFlow.Model.Router

/-!
# The client calls of the job actions

`api` of `client.js` builds the request of a call and reads its response; `retryJob` and
`cancelJob` of `useJobFlow` are calls of it for one job.
-/

namespace JobFlow.Model.Client

/-- What `api` sends: its defaults, and the token if there is one. -/
def api (method : Method) (path token : String) : HttpRequest where
  method := method
  path := path
  headers := ("Content-Type", "application/json") ::
    (if token = "" then [] else [("Authorization", "Bearer " ++ token)])

/-- What `api` makes of a response: nothing, the body, or an error with the message of
the body or else the text of the status. -/
def read (statusText : String) (r : Response) : Except String (Option Body) :=
  if 200 ≤ r.status ∧ r.status < 300 then
    .ok (if r.status = 204 then none else some r.body)
  else
    match r.body with
    | .error message => .error (if message = "" then statusText else message)
    | _ => .error statusText

inductive Action where
  | retryJob
  | cancelJob
  deriving DecidableEq

/-- The request of an action on a job. -/
def Action.request (token : String) (job : Job) : Action → HttpRequest
  | .retryJob => api .post ("/api/jobs/" ++ job.id ++ "/retry") token
  | .cancelJob => api .delete ("/api/jobs/" ++ job.id ++ "/cancel") token

end JobFlow.Model.Client
