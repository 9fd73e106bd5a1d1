import JobFlow.Lib.Numeral
import JobFlow.Model.Call

/-!
# `JobHandler`

The handlers by which a user lists, reads, cancels and retries jobs, from the texts of
the request to the status and body of the response. Query parameters may be absent. Ids
come as texts, which PostgreSQL reads by its UUID syntax and gives back in one form.
-/

namespace JobFlow.Model

open JobFlow.Model.JobRepository (JobTable)

/-- The text of an error. `failure` is what a store or a connection says. -/
def Err.text (failure : String) : Err → String
  | .noRows => "no rows in result set"
  | .typeRequired => "type is required"
  | .wrongType => "WRONGTYPE Operation against a key holding the wrong kind of value"
  | .constraint | .unavailable => failure

namespace JobRepository

/-- `id::text`: groups of 8, 4, 4, 4 and 12 digits. -/
def hyphenate (digits : List Char) : String :=
  String.ofList (digits.take 8 ++ '-' :: (digits.drop 8).take 4 ++ '-' :: (digits.drop 12).take 4 ++
    '-' :: (digits.drop 16).take 4 ++ '-' :: digits.drop 20)

/-- The id a text denotes in a statement. -/
def parseID (text : String) : Option String :=
  (WorkerRepository.uuid text).map fun digits => hyphenate digits.toList

def zeroRefused : String :=
  "ERROR: invalid byte sequence for encoding \"UTF8\": 0x00 (SQLSTATE 22021)"

/-- Why a text is refused as an id. -/
def idRefused (text : String) : String :=
  if hasZero text then zeroRefused
  else "ERROR: invalid input syntax for type uuid: \"" ++ text ++ "\" (SQLSTATE 22P02)"

def listWhere (userID status : String) (r : Job) : Bool :=
  r.userID = some userID && (status = "" || r.status.text = status)

/-- A possible answer of `SELECT … ORDER BY created_at DESC LIMIT $2`. The order of equal
times is not fixed by SQL, so the answer is a choice. -/
def IsListing (t : JobTable) (userID status : String) (limit : Nat) (ids : List String) : Prop :=
  let matching := t.rows.filter (listWhere userID status)
  ids.Nodup ∧ (∀ id ∈ ids, id ∈ matching.map Job.id) ∧
    ids.length = min limit matching.length ∧
    (ids.filterMap t.find).Pairwise (fun r r' => r'.createdAt ≤ r.createdAt) ∧
    ∀ r ∈ matching, ∀ r' ∈ matching, r.id ∈ ids → r'.id ∉ ids → r'.createdAt ≤ r.createdAt

instance (t : JobTable) (userID status : String) (limit : Nat) (ids : List String) :
    Decidable (IsListing t userID status limit ids) := by
  unfold IsListing
  infer_instance

/-- `if limit <= 0 || limit > 100 { limit = 50 }`. -/
def listLimit (limit : Int) : Nat := if limit ≤ 0 ∨ 100 < limit then 50 else limit.toNat

def list (t : JobTable) (userID status : String) (limit : Int) (ids : List String) :
    Option (List Job) :=
  if IsListing t userID status (listLimit limit) ids then some (ids.filterMap t.find) else none

end JobRepository

open JobRepository

inductive Body where
  | empty
  | job (job : Job)
  | jobs (jobs : List Job)
  | error (message : String)

structure Response where
  status : Nat
  body : Body

/-- What a user asks for. -/
inductive JobRequest where
  | list (status limit : Option String)
  | get (id : String)
  | cancel (id : String)
  | retry (id : String)

/-- The choices of the environment in one request. -/
structure Turn where
  /-- `NOW()` in the statement of the request. -/
  now : Time
  /-- How the commands of the request end, in their order. -/
  commands : List Choice
  /-- The rows `List` returns. -/
  listing : List String := []
  /-- What a command says that fails. -/
  failure : String := ""

namespace JobHandler

def list (w : World) (userID : String) (status limit : Option String) (t : Turn) :
    Option (World × Response) :=
  match t.commands with
  | [] => none
  | c :: _ =>
    if c.fails then some (w, ⟨500, .error t.failure⟩)
    else if hasZero (status.getD "") then some (w, ⟨500, .error zeroRefused⟩)
    else
      -- the error of `strconv.Atoi` is dropped
      (JobRepository.list w.jobs userID (status.getD "") (Lib.Numeral.atoi (limit.getD "50")).1
        t.listing).map fun jobs => (w, ⟨200, .jobs jobs⟩)

/-- `Find` at the service, from the text of the id. -/
def find (w : World) (id : String) (t : Turn) : Except String Job :=
  match t.commands.head?.map Choice.fails, parseID id with
  | some false, some key => (findJob w.jobs key).mapError (Err.text t.failure)
  | some false, none => .error (idRefused id)
  | _, _ => .error t.failure

/-- The rest of `Get` after `Find` has returned. -/
def found (userID : String) : Except String Job → Response
  | .error _ => ⟨404, .error "job not found"⟩
  | .ok job =>
    if job.userID ≠ some userID then ⟨404, .error "job not found"⟩ else ⟨200, .job job⟩

def get (w : World) (userID id : String) (t : Turn) : Option (World × Response) :=
  if t.commands.isEmpty then none else some (w, found userID (find w id t))

/-- The rest of `Cancel` and `Retry` after the service has returned. -/
def answered (done : Option Job → Response) (failure : String) : Except Err (Option Job) → Response
  | .error e => ⟨400, .error (e.text failure)⟩
  | .ok job => done job

/-- A handler that passes the id to the service and answers with what it returns. -/
def act (w : World) (request : String → Request) (done : Option Job → Response) (id : String)
    (t : Turn) : Option (World × Response) :=
  match parseID id with
  | none =>
    t.commands.head?.map fun c => (w, ⟨400, .error (if c.fails then t.failure else idRefused id)⟩)
  | some key =>
    (call w (Pc.request (request key)) t.commands).map fun x =>
      (x.1, answered done t.failure x.2)

def cancel (w : World) (userID id : String) (t : Turn) : Option (World × Response) :=
  act w (fun key => .cancel key userID) (fun _ => ⟨204, .empty⟩) id t

def retry (w : World) (userID id : String) (t : Turn) : Option (World × Response) :=
  act w (fun key => .retry key userID) (fun job => ⟨200, (job.map Body.job).getD .empty⟩) id t

/-- The requests of one user, one after the other. -/
def serve (userID : String) : Lib.Transition.Machine World (JobRequest × Turn) Response :=
  fun w (request, t) =>
    let w := { w with clock := t.now }
    match request with
    | .list status limit => list w userID status limit t
    | .get id => get w userID id t
    | .cancel id => cancel w userID id t
    | .retry id => retry w userID id t

end JobHandler

end JobFlow.Model
