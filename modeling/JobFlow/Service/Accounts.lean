import JobFlow.Model.AuthService

/-!
# Logging in with what was registered

Every stored email is in lower case and trimmed, and `Login` looks for the text as it was
typed. Who registers with a capital letter in the email has an account that this email does
not open.
-/

namespace JobFlow.Service.Accounts

open JobFlow.Lib.Unicode
open JobFlow.Lib.Transition
open JobFlow.Model
open JobFlow.Model.AuthService
open JobFlow.Model.JobRepository (hasZero)

/-- `CompareHashAndPassword` accepts exactly the password of which the hash was made. -/
def Exact (s : AuthService) : Prop :=
  ∀ salt password hash, s.generate salt password = .ok hash →
    ∀ other, s.compare hash other = true ↔ other = password

/-- The email and the password open the account of the user, and no other password that
`bcrypt` does not match to its hash does. -/
structure LogsIn (s : AuthService) (t : UserTable) (email password : String) (user : User) :
    Prop where
  opens : ∀ reading, ∃ found token, s.login t reading email password = .ok (found, token) ∧
    found.id = user.id
  rejects : ∀ reading other, s.compare user.passwordHash other = false →
    ∃ e, s.login t reading email other = .error e

variable {s : AuthService} {t t' t₁ t₂ : UserTable} {c : AuthService.Choice}
  {name email password token : String} {company : Option String} {user : User}
  {tr tr' : List (Except AuthErr (User × String))}

/-- Each row is stored under a normalised email. -/
def Normalized (t : UserTable) : Prop := ∀ r ∈ t.rows, normalizeEmail r.email = r.email

/-- A `Register` that succeeds adds the user it returns, under the normalised email and with
a hash of the password. -/
theorem register_ok (h : s.register t c name email company password = (t', .ok (user, token))) :
    t'.rows = t.rows ++ [user] ∧ user.email = normalizeEmail email ∧
      hasZero user.email = false ∧ s.generate c.salt password = .ok user.passwordHash := by
  unfold register at h
  simp only at h
  split at h
  · cases h
  · split at h
    · cases h
    · next hash hhash =>
      split at h
      · cases h
      · split at h
        · cases h
        · next t₁ created hcreate =>
          cases h
          obtain ⟨hrows, hpassword, hemail, hzero⟩ := UserRepository.create_ok hcreate
          have hnorm := varchar_trimmed hemail
          exact ⟨hrows, hnorm, hnorm ▸ hzero, hpassword ▸ hhash⟩

theorem register_error {e : AuthErr}
    (h : s.register t c name email company password = (t', .error e)) : t' = t := by
  unfold register at h
  simp only at h
  split at h
  · exact (Prod.mk.inj h).1.symm
  · split at h
    · exact (Prod.mk.inj h).1.symm
    · split at h
      · exact (Prod.mk.inj h).1.symm
      · split at h
        · next hcreate =>
          cases h
          exact UserRepository.create_error hcreate
        · cases h

/-- A registration keeps the rows, and what it adds is normalised. -/
theorem registrations_step {r : Registration} {a : Except AuthErr (User × String)}
    (h : registrations s t r = some (t', a)) :
    (∀ x ∈ t.rows, x ∈ t'.rows) ∧ (Normalized t → Normalized t') := by
  have hreg : s.register t r.choice r.name r.email r.company r.password = (t', a) :=
    Option.some.inj h
  cases a with
  | error e =>
    rw [register_error hreg]
    exact ⟨fun _ hx => hx, fun hn => hn⟩
  | ok result =>
    obtain ⟨user, token⟩ := result
    obtain ⟨hrows, hemail, -, -⟩ := register_ok hreg
    rw [Normalized, Normalized, hrows]
    refine ⟨fun x hx => List.mem_append_left _ hx, fun hn x hx => ?_⟩
    rcases List.mem_append.mp hx with hx | hx
    · exact hn x hx
    · rw [List.mem_singleton.mp hx, hemail, normalizeEmail_idem]

theorem rows_kept (h : Run (registrations s) anyStep t tr t') : ∀ x ∈ t.rows, x ∈ t'.rows :=
  h.invariant (I := fun _ t' => ∀ x ∈ t.rows, x ∈ t'.rows) (fun _ hx => hx)
    fun _ hkept _ hs x hx => (registrations_step hs).1 x (hkept x hx)

theorem normalized_run (h : Run (registrations s) anyStep t tr t') (hn : Normalized t) :
    Normalized t' :=
  h.invariant (I := fun _ t => Normalized t) hn fun _ hn _ hs => (registrations_step hs).2 hn

/-- An email that opens an account is normalised. -/
theorem normalized_of_login (hn : Normalized t) {reading : Time}
    (h : s.login t reading email password = .ok (user, token)) : normalizeEmail email = email := by
  unfold login UserRepository.findByEmail at h
  split at h
  · cases h
  · next found hfind =>
    split at hfind
    · cases hfind
    · split at hfind
      · cases hfind
      · next row hrow =>
        obtain ⟨hmem, rfl⟩ := UserTable.mem_of_find hrow
        exact hn row hmem

/-- The row of an email that is in the table is found. -/
theorem login_eq {reading : Time} (hmem : user ∈ t.rows) (hzero : hasZero user.email = false)
    (other : String) : s.login t reading user.email other =
      if s.compare user.passwordHash other then .ok (user, s.token reading user)
      else .error .invalidCredentials := by
  unfold login UserRepository.findByEmail
  rw [hzero, if_neg (by simp), UserTable.find_of_mem hmem]

/-- In every reachable table, for every `Register` that succeeds and after any further
registrations, what was registered logs in exactly if the email was given in lower case and
without white space around it. -/
theorem logs_in_iff (hexact : Exact s) (h : Run (registrations s) anyStep .empty tr t)
    (hreg : s.register t c name email company password = (t₁, .ok (user, token)))
    (hlater : Run (registrations s) anyStep t₁ tr' t₂) :
    LogsIn s t₂ email password user ↔ normalizeEmail email = email := by
  obtain ⟨hrows, hemail, hzero, hhash⟩ := register_ok hreg
  have hmem : user ∈ t₂.rows := rows_kept hlater user (by simp [hrows])
  have hnorm : Normalized t₂ := by
    refine normalized_run hlater ((registrations_step (s := s) (t := t)
      (r := ⟨c, name, email, company, password⟩) (congrArg some hreg)).2 ?_)
    exact normalized_run h fun _ => nofun
  constructor
  · intro hlogs
    obtain ⟨found, _, hlogin, -⟩ := hlogs.opens 0
    exact normalized_of_login hnorm hlogin
  · intro hfixed
    rw [hfixed] at hemail
    subst hemail
    refine ⟨fun reading => ?_, fun reading other hother => ?_⟩
    · refine ⟨user, _, (login_eq hmem hzero password).trans (if_pos ?_), rfl⟩
      exact (hexact _ _ _ hhash password).mpr rfl
    · exact ⟨_, (login_eq hmem hzero other).trans (if_neg (by simp [hother]))⟩

/-- Passwords that are their own hashes. -/
def plain : AuthService where
  generate _ password := .ok password
  compare hash password := hash = password
  sign claims := claims.sub

theorem plain_exact : Exact plain := by
  intro salt password hash h other
  cases h
  simp [plain, eq_comm]

def choice : AuthService.Choice := ⟨0, "00000000-0000-0000-0000-000000000001", 0, 0, false⟩

theorem succeeded {x : UserTable × Except AuthErr (User × String)} (h : x.2.isOk) :
    ∃ t user token, x = (t, .ok (user, token)) := by
  obtain ⟨t, result⟩ := x
  cases result with
  | error e => cases h
  | ok result => exact ⟨t, result.1, result.2, rfl⟩

theorem logs_in_iff_lower : ∃ t₁ user token,
    plain.register .empty choice "Ada" "user@example.com" none "secret" = (t₁, .ok (user, token)) ∧
      (LogsIn plain t₁ "user@example.com" "secret" user ↔
        normalizeEmail "user@example.com" = "user@example.com") := by
  obtain ⟨t₁, user, token, hreg⟩ := succeeded (show (plain.register .empty choice
    "Ada" "user@example.com" none "secret").2.isOk by decide +kernel)
  exact ⟨t₁, user, token, hreg, logs_in_iff plain_exact .start hreg .start⟩

/-- The email was typed with capital letters both times. -/
theorem locked_out : ¬ ∀ s t tr c name email company password t₁ user token,
    Exact s → Run (registrations s) anyStep .empty tr t →
    s.register t c name email company password = (t₁, .ok (user, token)) →
    LogsIn s t₁ email password user := by
  intro hall
  obtain ⟨t₁, user, token, hreg⟩ := succeeded (show (plain.register .empty choice
    "Ada" "User@Example.com" none "secret").2.isOk by decide +kernel)
  have hlogs := hall plain .empty [] choice "Ada" "User@Example.com" none "secret" _ _ _
    plain_exact .start hreg
  obtain ⟨found, _, hlogin, -⟩ := hlogs.opens 0
  have hnorm : Normalized t₁ := (registrations_step (s := plain) (t := .empty)
    (r := ⟨choice, "Ada", "User@Example.com", none, "secret"⟩) (congrArg some hreg)).2 fun _ => nofun
  exact absurd (normalized_of_login hnorm hlogin) (by decide +kernel)

end JobFlow.Service.Accounts
