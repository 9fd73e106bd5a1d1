import JobFlow.Model.JobHandler

/-!
# The route table of the API server

The routes of `main`, with the middleware of the protected ones. A route matches a path
segment by segment; a parameter takes any segment that is not empty. What reads the user
out of a token is a parameter.
-/

namespace JobFlow.Model

inductive Method where
  | get
  | post
  | delete
  deriving DecidableEq, Repr

structure HttpRequest where
  method : Method
  path : String
  headers : List (String × String)

namespace Router

inductive Segment where
  | literal (text : String)
  | param (name : String)

/-- The handlers, under the names of their methods. -/
inductive Handler where
  | health
  | events
  | register
  | login
  | create
  | list
  | get
  | cancel
  | retry
  | dashboard
  | queues
  | workers
  deriving DecidableEq, Repr

structure Route where
  method : Method
  path : List Segment
  handler : Handler
  /-- Whether `middleware.Auth` runs first. -/
  auth : Bool

open Segment in
def routes : List Route :=
  [⟨.get, [literal "health"], .health, false⟩,
    ⟨.get, [literal "api", literal "events"], .events, false⟩,
    ⟨.post, [literal "api", literal "auth", literal "register"], .register, false⟩,
    ⟨.post, [literal "api", literal "auth", literal "login"], .login, false⟩,
    ⟨.post, [literal "api", literal "jobs"], .create, true⟩,
    ⟨.get, [literal "api", literal "jobs"], .list, true⟩,
    ⟨.get, [literal "api", literal "jobs", param "id"], .get, true⟩,
    ⟨.delete, [literal "api", literal "jobs", param "id"], .cancel, true⟩,
    ⟨.post, [literal "api", literal "jobs", param "id", literal "cancel"], .cancel, true⟩,
    ⟨.post, [literal "api", literal "jobs", param "id", literal "retry"], .retry, true⟩,
    ⟨.get, [literal "api", literal "dashboard"], .dashboard, true⟩,
    ⟨.get, [literal "api", literal "queues"], .queues, true⟩,
    ⟨.get, [literal "api", literal "workers"], .workers, true⟩]

/-- The parts of a text between its slashes. -/
def splitSlash : List Char → List (List Char)
  | [] => [[]]
  | c :: cs =>
    if c = '/' then [] :: splitSlash cs
    else match splitSlash cs with
      | [] => [[c]]
      | part :: parts => (c :: part) :: parts

/-- The segments of a path, which starts with a slash. -/
def segments (path : String) : List String :=
  ((splitSlash path.toList).drop 1).map String.ofList

abbrev Params := List (String × String)

/-- The parameters of a path that a route matches. -/
def matchPath : List Segment → List String → Option Params
  | [], [] => some []
  | .literal text :: path, segment :: rest =>
    if text = segment then matchPath path rest else none
  | .param name :: path, segment :: rest =>
    if segment = "" then none else (matchPath path rest).map ((name, segment) :: ·)
  | _, _ => none

/-- The route of a request, with the parameters of its path. -/
def find (method : Method) (path : String) : Option (Route × Params) :=
  routes.findSome? fun route =>
    if route.method = method then (matchPath route.path (segments path)).map ((route, ·)) else none

/-- `c.Param`. -/
def param (params : Params) (name : String) : String := (params.lookup name).getD ""

/-- `strings.TrimPrefix(header, "Bearer ")`. -/
def trimBearer (header : String) : String :=
  if "Bearer ".toList.isPrefixOf header.toList then String.ofList (header.toList.drop 7) else header

/-- `middleware.Auth`: the user of the token, or what the request is refused with. -/
def auth (parse : String → Option String) (header : String) : Except String String :=
  let token := trimBearer header
  if token = "" ∨ token = header then .error "missing bearer token"
  else match parse token with
    | none => .error "invalid token"
    | some userID => .ok userID

/-- What becomes of a request before its handler runs. The user is set behind the
middleware only. -/
inductive Routed where
  | notFound
  | unauthorized (message : String)
  | handled (handler : Handler) (userID : Option String) (params : Params)

def route (parse : String → Option String) (r : HttpRequest) : Routed :=
  match find r.method r.path with
  | none => .notFound
  | some (route, params) =>
    if route.auth then
      match auth parse ((r.headers.lookup "Authorization").getD "") with
      | .error message => .unauthorized message
      | .ok userID => .handled route.handler (some userID) params
    else .handled route.handler none params

/-- The answer to a request that reaches no handler. The text of the 404 is no JSON. -/
def refusal : Routed → Option Response
  | .notFound => some ⟨404, .empty⟩
  | .unauthorized message => some ⟨401, .error message⟩
  | .handled _ _ _ => none

/-- The call of the service that a routed request comes to, for the two handlers that
change a job. -/
def serviceCall : Routed → Option Request
  | .handled .cancel (some userID) params =>
    (JobRepository.parseID (param params "id")).map fun id => .cancel id userID
  | .handled .retry (some userID) params =>
    (JobRepository.parseID (param params "id")).map fun id => .retry id userID
  | _ => none

theorem splitSlash_of_notMem {part : List Char} (h : '/' ∉ part) : splitSlash part = [part] := by
  induction part with
  | nil => rfl
  | cons c part ih =>
    rw [List.mem_cons, not_or] at h
    rw [splitSlash, if_neg (Ne.symm h.1), ih h.2]

/-- A part without slashes ends at the next one. -/
theorem splitSlash_append {part : List Char} (h : '/' ∉ part) (rest : List Char) :
    splitSlash (part ++ '/' :: rest) = part :: splitSlash rest := by
  induction part with
  | nil => rfl
  | cons c part ih =>
    rw [List.mem_cons, not_or] at h
    rw [List.cons_append, splitSlash, if_neg (Ne.symm h.1), ih h.2]

end Router

end JobFlow.Model
