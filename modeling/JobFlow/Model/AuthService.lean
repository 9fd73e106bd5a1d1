import JobFlow.Lib.Transition
import JobFlow.Lib.Unicode
import JobFlow.Model.JobHandler
import Mathlib.Data.Option.Basic

/-!
# `AuthService` and `UserRepository`

`Register` stores the email in lower case and trimmed. `Login` looks for the email as it is
given. The password hash and the signature of a token are made by packages, which are
parameters here.
-/

namespace JobFlow.Model

open JobFlow.Lib.Unicode
open JobFlow.Model.JobRepository (varchar hasZero)
open JobFlow.Model.RedisQueue (unix)

/-- `model.User`, one row of `users`. -/
structure User where
  id : String
  name : String
  email : String
  company : Option String
  passwordHash : String
  createdAt : Time

structure UserTable where
  rows : List User
  key : (rows.map User.id).Nodup
  unique : (rows.map User.email).Nodup

namespace UserTable

def empty : UserTable := ⟨[], List.nodup_nil, List.nodup_nil⟩

/-- `SELECT … WHERE email = $1`. -/
def find (t : UserTable) (email : String) : Option User := t.rows.find? fun r => r.email = email

def insert (t : UserTable) (row : User) (hid : row.id ∉ t.rows.map User.id)
    (hemail : row.email ∉ t.rows.map User.email) : UserTable where
  rows := t.rows ++ [row]
  key := by
    rw [List.map_append, List.map_singleton]
    exact t.key.append (List.nodup_singleton _) (by simpa using hid)
  unique := by
    rw [List.map_append, List.map_singleton]
    exact t.unique.append (List.nodup_singleton _) (by simpa using hemail)

theorem mem_of_find {t : UserTable} {email : String} {r : User} (h : t.find email = some r) :
    r ∈ t.rows ∧ r.email = email :=
  ⟨List.mem_of_find?_eq_some h, by simpa using List.find?_some h⟩

theorem find_of_mem {t : UserTable} {r : User} (h : r ∈ t.rows) : t.find r.email = some r := by
  cases hf : t.find r.email with
  | none => simpa using List.find?_eq_none.mp hf r h
  | some r' =>
    obtain ⟨hmem, heq⟩ := mem_of_find hf
    rw [List.inj_on_of_nodup_map t.unique hmem h heq]

end UserTable

namespace UserRepository

/-- The row `Create` inserts, `none` if a column does not take its value. -/
def newRow (now : Time) (id name email : String) (company : Option String)
    (passwordHash : String) : Option User := do
  guard (!hasZero name && !hasZero email && !company.any hasZero && !hasZero passwordHash)
  let name ← varchar 160 name
  let email ← varchar 255 email
  let company ← company.mapM (varchar 160)
  return ⟨id, name, email, company, passwordHash, now⟩

def create (t : UserTable) (now : Time) (id name email : String) (company : Option String)
    (passwordHash : String) : UserTable × Except Err User :=
  match newRow now id name email company passwordHash with
  | none => (t, .error .constraint)
  | some row =>
    if h : row.id ∉ t.rows.map User.id ∧ row.email ∉ t.rows.map User.email then
      (t.insert row h.1 h.2, .ok row)
    else (t, .error .constraint)

def findByEmail (t : UserTable) (email : String) : Except Err User :=
  if hasZero email then .error .constraint
  else
    match t.find email with
    | none => .error .noRows
    | some row => .ok row

end UserRepository

/-- The errors of `AuthService`. -/
inductive AuthErr where
  | nameRequired
  | hashing (text : String)
  | storing (e : Err)
  | invalidCredentials

/-- `failure` is what a store or a connection says. -/
def AuthErr.text (failure : String) : AuthErr → String
  | .nameRequired => "name is required"
  | .hashing text => text
  | .storing e => e.text failure
  | .invalidCredentials => "invalid credentials"

/-- `jwt.MapClaims` of a token. -/
structure Claims where
  name : String
  sub : String
  email : String
  exp : Int

/-- The service with the packages it uses: `bcrypt.GenerateFromPassword` with the salt it
draws, `bcrypt.CompareHashAndPassword`, and `SignedString`, which for a key of bytes has no
error. -/
structure AuthService where
  generate : Nat → String → Except String String
  compare : String → String → Bool
  sign : Claims → String

namespace AuthService

/-- What the environment chooses in a registration. -/
structure Choice where
  salt : Nat
  freshID : String
  /-- `NOW()`, and what `time.Now()` returns. -/
  now : Time
  reading : Time
  /-- The connection fails and nothing is inserted. -/
  fails : Bool := false

variable (s : AuthService)

def token (reading : Time) (user : User) : String :=
  s.sign ⟨user.name, user.id, user.email, unix (reading + 24 * 3600 * 1000000)⟩

/-- `strings.TrimSpace(strings.ToLower(email))` -/
def normalizeEmail (email : String) : String := trimSpace (toLower email)

/-- A company of white space is none. -/
def cleanCompany (company : Option String) : Option String :=
  (company.map trimSpace).filter (· ≠ "")

def register (t : UserTable) (c : Choice) (name email : String) (company : Option String)
    (password : String) : UserTable × Except AuthErr (User × String) :=
  let name := trimSpace name
  let email := normalizeEmail email
  if name = "" then (t, .error .nameRequired)
  else
    match s.generate c.salt password with
    | .error text => (t, .error (.hashing text))
    | .ok hash =>
      if c.fails then (t, .error (.storing .unavailable))
      else
        match UserRepository.create t c.now c.freshID name email (cleanCompany company) hash with
        | (t', .error e) => (t', .error (.storing e))
        | (t', .ok user) => (t', .ok (user, s.token c.reading user))

def login (t : UserTable) (reading : Time) (email password : String) :
    Except AuthErr (User × String) :=
  match UserRepository.findByEmail t email with
  | .error _ => .error .invalidCredentials
  | .ok user =>
    if s.compare user.passwordHash password then .ok (user, s.token reading user)
    else .error .invalidCredentials

/-- A call of `Register`. -/
structure Registration where
  choice : Choice
  name : String
  email : String
  company : Option String
  password : String

/-- The table of users under calls of `Register`, the only statement that changes it. -/
def registrations : Lib.Transition.Machine UserTable Registration (Except AuthErr (User × String)) :=
  fun t r => some (s.register t r.choice r.name r.email r.company r.password)

end AuthService

theorem varchar_trimmed {n : Nat} {s s' : String} (h : varchar n (trimSpace s) = some s') :
    s' = trimSpace s := by
  unfold varchar at h
  split at h
  · exact (Option.some.inj h).symm
  · next hlong =>
    -- the last character is no blank
    have hlast : ¬ ((trimSpace s).toList.drop n).all (· = ' ') := by
      intro hall
      have hlt : n < (trimSpace s).toList.length := not_le.mp hlong
      have hne : (trimSpace s).toList.drop n ≠ [] := by
        rw [ne_eq, List.drop_eq_nil_iff]
        omega
      have hblank := List.all_eq_true.mp hall _ (List.getLast_mem hne)
      rw [decide_eq_true_eq] at hblank
      have hc := List.getLast?_eq_some_getLast hne
      rw [hblank, List.getLast?_drop, if_neg (not_le.mpr hlt), trimSpace,
        String.toList_ofList] at hc
      exact absurd (getLast_trim isSpace hc) (by decide)
    rw [if_neg hlast] at h
    cases h

theorem AuthService.normalizeEmail_idem (email : String) :
    normalizeEmail (normalizeEmail email) = normalizeEmail email :=
  trimSpace_toLower_idem email

namespace UserRepository

variable {t t' : UserTable} {now : Time} {id name email passwordHash : String}
  {company : Option String} {user : User}

/-- A `Create` that succeeds adds a row with the given email, and one that fails adds none. -/
theorem create_ok (h : create t now id name email company passwordHash = (t', .ok user)) :
    t'.rows = t.rows ++ [user] ∧ user.passwordHash = passwordHash ∧
      varchar 255 email = some user.email ∧ hasZero email = false := by
  unfold create at h
  split at h
  · cases h
  · next row hrow =>
    split at h
    · cases h
      simp only [newRow, Option.bind_eq_bind, Option.bind_eq_some_iff] at hrow
      obtain ⟨_, hguard, n, hn, e, he, c, hc, hrow⟩ := hrow
      cases hrow
      refine ⟨rfl, rfl, he, ?_⟩
      have hno := (Option.guard_eq_some' _).mp hguard
      simp only [Bool.and_eq_true, Bool.not_eq_true'] at hno
      exact hno.1.1.2
    · cases h

theorem create_error {e : Err} (h : create t now id name email company passwordHash = (t', .error e)) :
    t' = t := by
  unfold create at h
  split at h
  · exact (Prod.mk.inj h).1.symm
  · split at h
    · cases h
    · exact (Prod.mk.inj h).1.symm

end UserRepository

end JobFlow.Model
