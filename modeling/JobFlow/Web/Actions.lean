import JobFlow.Model.Client
import JobFlow.Runs.Delivery

/-!
# The job actions of the client and the routes of the server

A retry travels from the client over the route table, the middleware and the handler to
the row and the queue of the job. A cancellation does not: the client sends it by a
method under which the table has no route of that path.
-/

namespace JobFlow.Web.Actions

open JobFlow.Lib.Transition
open JobFlow.Model
open JobFlow.Model.JobRepository
open JobFlow.Model.RedisQueue
open JobFlow.Model.Router
open JobFlow.Model.Client
open JobFlow.Runs ControlFlow Steps Carried Entries

variable {s s' : State} {l : Label} {a : Act} {p : Pid} {u id token : String} {job : Job}
  {tr : List Act} {parse : String → Option String}

theorem toLower_ne_slash {c : Char} (h : WorkerRepository.isHex c) : c.toLower ≠ '/' := by
  intro heq
  unfold Char.toLower at heq
  split at heq
  · next hupper =>
    -- a capital letter goes up, away from the slash
    obtain ⟨hlow, hhigh⟩ := hupper
    have hval := congrArg Char.val heq
    rw [← UInt32.toNat_inj] at hval
    rw [ge_iff_le, UInt32.le_iff_toNat_le] at hlow
    rw [UInt32.le_iff_toNat_le] at hhigh
    simp [UInt32.toNat_add] at hval hlow hhigh
    omega
  · subst heq
    revert h
    decide

/-- The digits of a UUID are no slashes. -/
theorem uuidBytes_ne_slash {n : Nat} {cs ds rest : List Char}
    (h : WorkerRepository.uuidBytes n cs = some (ds, rest)) : '/' ∉ ds := by
  induction n generalizing cs ds with
  | zero =>
    cases h
    simp
  | succ n ih =>
    match cs, h with
    | a :: b :: cs, h =>
      rw [WorkerRepository.uuidBytes] at h
      split at h
      · next hex =>
        obtain ⟨⟨ds', rest'⟩, hrec, heq⟩ := Option.map_eq_some_iff.mp h
        cases heq
        rw [Bool.and_eq_true] at hex
        simp only [List.mem_cons, not_or]
        exact ⟨(toLower_ne_slash hex.1).symm, (toLower_ne_slash hex.2).symm, ih hrec⟩
      · cases h

theorem uuid_ne_slash {text digits : String} (h : WorkerRepository.uuid text = some digits) :
    '/' ∉ digits.toList := by
  unfold WorkerRepository.uuid at h
  split at h <;> split at h <;> cases h <;>
    (next hread => simpa using uuidBytes_ne_slash hread)

/-- The text of an id has no slashes and is not empty. -/
theorem parseID_text {text : String} (h : parseID text = some id) : '/' ∉ id.toList ∧ id ≠ "" := by
  obtain ⟨digits, hdigits, rfl⟩ := Option.map_eq_some_iff.mp h
  have hno := uuid_ne_slash hdigits
  constructor
  · intro hmem
    simp only [hyphenate, String.toList_ofList, List.mem_append, List.mem_cons] at hmem
    have hdrop : ∀ n, '/' ∉ digits.toList.drop n := fun n hc => hno (List.mem_of_mem_drop hc)
    have hgroup : ∀ m n, '/' ∉ (digits.toList.drop n).take m := fun m n hc =>
      hdrop n (List.mem_of_mem_take hc)
    have hfirst : '/' ∉ digits.toList.take 8 := fun hc => hno (List.mem_of_mem_take hc)
    simp [hfirst, hgroup, hdrop] at hmem
  · intro hempty
    have hlen := congrArg String.toList hempty
    simp [hyphenate] at hlen

/-- The ids the database makes up are in the form in which it gives them back. -/
def FreshIDs (s : State) : Label → Prop
  | .run p _ e => match s.procs p with
    | .createInsert _ => parseID e.freshID = some e.freshID
    | _ => True
  | _ => True

instance (s : State) (l : Label) : Decidable (FreshIDs s l) := by
  induction l using Label.casesOn with
  | run p _ e =>
    dsimp only [FreshIDs]
    induction s.procs p using Pc.casesOn <;> infer_instance
  | _ => exact .isTrue trivial

/-- A row that is new has the id made up for it. -/
theorem new_row {job : Job} (h : step s l = some (s', a)) (hnone : row s id = none)
    (hsome : row s' id = some job) : ∃ p m e params, l = .run p m e ∧
      s.procs p = .createInsert params ∧ e.freshID = id := by
  have hstep := step_row h id
  rw [hnone, hsome] at hstep
  generalize hnew : some job = new at hstep
  cases hstep with
  | same => cases hnew
  | @created p m e params r hl hpc hrow =>
    subst hl
    refine ⟨p, m, e, params, rfl, hpc, ?_⟩
    have hchanged : row s' id ≠ row s id := by
      rw [hnone, hsome]
      exact Option.some_ne_none job
    obtain ⟨cmd, next, reply, hran⟩ := step_run h
    have hcode := hran.code
    rw [hpc] at hcode
    cases hcode
    rcases hran.effect with ⟨-, hx⟩ | ⟨-, hw, -⟩
    · simp only [exec, Option.some.injEq] at hx
      obtain ⟨hworld, -⟩ := Prod.mk.inj hx
      rcases create_cases s.world.jobs s.world.clock e.reading e.freshID params with
        ⟨r', -, -, -, hfind⟩ | herr
      · by_contra hne
        have hrow' := hfind id
        rw [if_neg (Ne.symm hne)] at hrow'
        exact hchanged (by rw [row, ← hworld]; exact hrow')
      · exact absurd (by rw [row, ← hworld, herr]; rfl) hchanged
    · exact absurd (by rw [row, hw]; rfl) hchanged

/-- So all rows are found by the text of their id. -/
theorem parseID_row (h : Run step FreshIDs State.initial tr s) {id : String} {job : Job}
    (hrow : row s id = some job) : parseID id = some id := by
  refine h.invariant (I := fun _ s => ∀ id job, row s id = some job → parseID id = some id)
    (fun _ _ hnone => by cases hnone) ?_ id job hrow
  intro tr s s' l a hrun ih hfresh hs id job hsome
  cases hold : row s id with
  | some job' => exact ih id job' hold
  | none =>
    obtain ⟨p, m, e, params, rfl, hpc, rfl⟩ := new_row hs hold hsome
    simpa [FreshIDs, hpc] using hfresh

/-- The path of an action on a job. -/
theorem segments_action {path : String} {verb : List Char} (hid : '/' ∉ id.toList)
    (hverb : '/' ∉ verb) (hpath : path.toList = "/api/jobs/".toList ++ (id.toList ++ '/' :: verb)) :
    segments path = ["api", "jobs", id, String.ofList verb] := by
  have hstart : "/api/jobs/".toList =
      [] ++ '/' :: ("api".toList ++ '/' :: ("jobs".toList ++ '/' :: [])) := rfl
  rw [segments, hpath, hstart]
  simp only [List.append_assoc, List.cons_append, List.nil_append]
  rw [show '/' :: ("api".toList ++ '/' :: ("jobs".toList ++ '/' :: (id.toList ++ '/' :: verb))) =
      [] ++ '/' :: ("api".toList ++ '/' :: ("jobs".toList ++ '/' :: (id.toList ++ '/' :: verb)))
      from rfl, splitSlash_append (by simp), splitSlash_append (by decide),
    splitSlash_append (by decide), splitSlash_append hid, splitSlash_of_notMem hverb]
  simp

theorem find_retry {path : String} (hid : id ≠ "")
    (hpath : segments path = ["api", "jobs", id, "retry"]) :
    ∃ route, find .post path = some (route, [("id", id)]) ∧ route.handler = .retry ∧ route.auth := by
  refine ⟨⟨.post, [.literal "api", .literal "jobs", .param "id", .literal "retry"], .retry, true⟩,
    ?_, rfl, rfl⟩
  simp [find, routes, hpath, matchPath, hid]

/-- No route takes a `DELETE` of a path of four segments. -/
theorem find_delete {path verb : String} (hpath : segments path = ["api", "jobs", id, verb]) :
    find .delete path = none := by
  simp [find, routes, hpath, matchPath]

/-- The middleware reads the user out of the header that `api` sets. -/
theorem auth_bearer (htoken : token ≠ "") (hparse : parse token = some u) :
    auth parse ("Bearer " ++ token) = .ok u := by
  have htrim : trimBearer ("Bearer " ++ token) = token := by
    have hpre : "Bearer ".toList.isPrefixOf ("Bearer " ++ token).toList := by
      rw [String.toList_append]
      exact List.isPrefixOf_iff_prefix.mpr (List.prefix_append _ _)
    rw [trimBearer, if_pos hpre, String.toList_append, List.drop_left' (by rfl), String.ofList_toList]
  have hlonger : token ≠ "Bearer " ++ token := by
    intro heq
    have hlen := congrArg (fun s => s.toList.length) heq
    simp [String.toList_append] at hlen
    omega
  simp [auth, htrim, htoken, hlonger, hparse]

/-- The step leaves the row of the job and its entries in the queues as they are. -/
def Spares (id : String) (s : State) (l : Label) : Prop :=
  ∀ s' a, step s l = some (s', a) → row s' id = row s id ∧
    ∀ name, s'.world.redis.zscore (queueKey name) id = s.world.redis.zscore (queueKey name) id

/-- The commands of the request succeed, and no other operation concerns the job. -/
def Undisturbed (p : Pid) (id : String) (s : State) (l : Label) : Prop :=
  if Label.pid l = some p then
    ∃ e, l = .run p .ok e ∧
      (advance s.world (s.procs p) .ok e).all fun x => !x.2.2.commandFailed
  else Spares id s l

/-- The steps of the request itself. -/
def ownSteps (p : Pid) (ls : List Label) : Nat := ls.countP fun l => Label.pid l = some p

/-- The stages of a `Retry` by the number of its commands that are left. -/
inductive Retrying (u id : String) (p : Pid) (s : State) : Nat → Prop
  | update {job : Job} (hpc : s.procs p = .retryUpdate id u) (hrow : row s id = some job)
      (hw : requeueWhere id u job) : Retrying u id p s 3
  | enqueue {job : Job} (hpc : s.procs p = .retryEnqueue job) (hrow : row s id = some job)
      (hst : job.status = .queued) : Retrying u id p s 2
  | publish {job : Job} (hpc : s.procs p = .retryPublish job) (hrow : row s id = some job)
      (hst : job.status = .queued)
      (hin : s.world.redis.zscore (queueKey job.queueName) id ≠ none) : Retrying u id p s 1
  | done {job : Job} (hpc : s.procs p = .returned (.ok (some job))) (hrow : row s id = some job)
      (hst : job.status = .queued)
      (hin : s.world.redis.zscore (queueKey job.queueName) id ≠ none) : Retrying u id p s 0

theorem Retrying.spared {n : Nat} (h : Retrying u id p s n) (hpc : s'.procs p = s.procs p)
    (hrow : row s' id = row s id) (hin : ∀ name,
      s'.world.redis.zscore (queueKey name) id = s.world.redis.zscore (queueKey name) id) :
    Retrying u id p s' n := by
  cases h with
  | update hpc' hrow' hw => exact .update (hpc.trans hpc') (hrow.trans hrow') hw
  | enqueue hpc' hrow' hst => exact .enqueue (hpc.trans hpc') (hrow.trans hrow') hst
  | publish hpc' hrow' hst hin' =>
    exact .publish (hpc.trans hpc') (hrow.trans hrow') hst (by rwa [hin])
  | done hpc' hrow' hst hin' =>
    exact .done (hpc.trans hpc') (hrow.trans hrow') hst (by rwa [hin])

/-- Each command of the request takes it to the next stage. -/
theorem Retrying.command {n : Nat} {e : Env} {cmd : Cmd} {next : Reply → Pc} {r : Reply}
    (h : Retrying u id p s n) (hran : Ran s p .ok e s' a cmd next r)
    (hok : r.commandFailed = false) : Retrying u id p s' (n - 1) := by
  have hx := hran.effect_ok
  have hself : s'.procs p = next r := hran.procs_self
  have hcode := hran.code
  cases h with
  | @update job hpc hrow hw =>
    rw [hpc] at hcode
    cases hcode
    simp only [exec, Option.some.injEq] at hx
    obtain ⟨hworld, rfl⟩ := Prod.mk.inj hx
    rcases requeue_cases s.world.jobs s.world.clock id u with ⟨job', hrow', -, hret, hset⟩ | ⟨hno, -⟩
    · rw [hret] at hself
      refine .enqueue hself ?_ rfl
      rw [row, ← hworld]
      exact (hset id).trans (if_pos rfl)
    · exact absurd hw (hno job hrow)
  | @enqueue job hpc hrow hst =>
    rw [hpc] at hcode
    cases hcode
    cases exec_enqueue_reply hx hok
    have hid : job.id = id := JobTable.find_id hrow
    refine .publish hself ?_ hst ?_
    · rw [row, exec_jobs hx rfl]
      exact hrow
    · rw [← hid, exec_enqueue_done hx]
      simp
  | @publish job hpc hrow hst hin =>
    rw [hpc] at hcode
    cases hcode
    refine .done hself ?_ hst ?_
    · rw [row, exec_jobs hx rfl]
      exact hrow
    · rwa [exec_redis hx rfl]
  | done hpc =>
    rw [hpc] at hcode
    cases hcode

theorem Retrying.step {n : Nat} (h : Retrying u id p s n) (hu : Undisturbed p id s l)
    (hs : step s l = some (s', a)) :
    Retrying u id p s' (if Label.pid l = some p then n - 1 else n) := by
  unfold Undisturbed at hu
  split at hu
  · next hp =>
    obtain ⟨e, rfl, hok⟩ := hu
    obtain ⟨cmd, next, r, hran⟩ := step_run hs
    have hx := hran.effect_ok
    rw [if_pos hp]
    exact h.command hran (by simpa [advance, hran.code, hx] using hok)
  · next hp =>
    obtain ⟨hrow, hin⟩ := hu s' a hs
    rw [if_neg hp]
    exact h.spared (step_procs hs hp) hrow hin

theorem Retrying.execute {n : Nat} {ls : List Label} (h : Retrying u id p s n)
    (hu : Admitted Model.step (Undisturbed p id) s ls)
    (hs : Lib.Transition.execute Model.step s ls = some (s', tr)) :
    Retrying u id p s' (n - ownSteps p ls) := by
  induction ls generalizing s n tr with
  | nil =>
    cases hs
    exact h
  | cons l ls ih =>
    obtain ⟨s₁, a, tr', hs₁, he, -⟩ := execute_cons hs
    obtain ⟨hnow, hlater⟩ := hu
    rw [hs₁] at hlater
    have hnext := ih (h.step hnow hs₁) hlater he
    have hcount : (if Label.pid l = some p then n - 1 else n) - ownSteps p ls =
        n - ownSteps p (l :: ls) := by
      by_cases hp : Label.pid l = some p
      · simp [ownSteps, hp]
        omega
      · simp [ownSteps, hp]
    rwa [hcount] at hnext

/-- The token is one the server knows the user of. -/
def SignedIn (parse : String → Option String) (token u : String) : Prop :=
  token ≠ "" ∧ parse token = some u

/-- The jobs an action is for. -/
def applies (st : Status) : Action → Prop
  | .retryJob => st = .deadLetter
  | .cancelJob => st = .queued ∨ st = .scheduled ∨ st = .retrying

/-- The handler an action is for, and the number of commands of its call. -/
def handler : Action → Handler × Nat
  | .retryJob => (.retry, 3)
  | .cancelJob => (.cancel, 2)

/-- What an action is to leave. -/
def Done (s : State) (id : String) : Action → Prop
  | .retryJob => ∃ r, row s id = some r ∧ r.status = .queued ∧
      s.world.redis.zscore (queueKey r.queueName) id ≠ none
  | .cancelJob => ∃ r, row s id = some r ∧ r.status = .cancelled

/-- The request of the action reaches its handler with the id of the job. When the call
has had its commands, and none has failed and no other operation has concerned the job,
it has returned and has done what the action is for. -/
structure Agrees (parse : String → Option String) (s : State) (token u : String) (job : Job)
    (action : Action) : Prop where
  dispatched : route parse (action.request token job) =
    .handled (handler action).1 (some u) [("id", job.id)]
  done : ∃ call, serviceCall (route parse (action.request token job)) = some call ∧
    ∀ p ls s' tr, Admitted step (Undisturbed p job.id) (s.moveTo p (Pc.request call)) ls →
      execute step (s.moveTo p (Pc.request call)) ls = some (s', tr) →
      (handler action).2 ≤ ownSteps p ls →
      (∃ result, s'.procs p = .returned (.ok result)) ∧ Done s' job.id action

theorem retryJob_routed (hid : parseID job.id = some job.id) (htoken : SignedIn parse token u) :
    route parse (Action.request token job .retryJob) =
      .handled .retry (some u) [("id", job.id)] := by
  obtain ⟨hslash, hne⟩ := parseID_text hid
  have hpath : segments ("/api/jobs/" ++ job.id ++ "/retry") = ["api", "jobs", job.id, "retry"] :=
    segments_action hslash (show '/' ∉ "retry".toList by decide) (by simp [String.toList_append])
  obtain ⟨found, hfind, hhandler, hauth⟩ := find_retry hne hpath
  have hbearer : auth parse ("Bearer " ++ token) = .ok u := auth_bearer htoken.1 htoken.2
  simp [route, Action.request, api, hfind, hauth, hhandler, htoken.1, List.lookup_cons, hbearer]

/-- What the client sends to cancel a job is a request of no route. -/
theorem cancelJob_notFound (hid : parseID job.id = some job.id) :
    route parse (Action.request token job .cancelJob) = .notFound := by
  obtain ⟨hslash, -⟩ := parseID_text hid
  have hpath : segments ("/api/jobs/" ++ job.id ++ "/cancel") = ["api", "jobs", job.id, "cancel"] :=
    segments_action hslash (show '/' ∉ "cancel".toList by decide) (by simp [String.toList_append])
  simp [route, Action.request, api, find_delete hpath]

/-- So the user is told that it was not found. -/
theorem cancelJob_rejected (hid : parseID job.id = some job.id) :
    (refusal (route parse (Action.request token job .cancelJob))).map (Client.read "Not Found") =
      some (.error "Not Found") := by
  rw [cancelJob_notFound hid]
  rfl

/-- Client and server agree on an action exactly when it is a retry. -/
theorem client_server_agree_iff (h : Run step FreshIDs State.initial tr s)
    (hrow : row s job.id = some job) (howner : job.userID = some u)
    (htoken : SignedIn parse token u) {action : Action} (happlies : applies job.status action) :
    Agrees parse s token u job action ↔ action = .retryJob := by
  have hid := parseID_row h hrow
  cases action with
  | cancelJob =>
    refine iff_of_false (fun hagrees => ?_) (by simp)
    have hrouted := hagrees.dispatched
    rw [cancelJob_notFound hid] at hrouted
    cases hrouted
  | retryJob =>
    refine iff_of_true ?_ rfl
    have hrouted := retryJob_routed hid htoken
    refine ⟨hrouted, .retry job.id u, ?_, ?_⟩
    · rw [hrouted]
      simp [serviceCall, param, hid]
    · intro p ls s' tr hu hs hsteps
      have hw : requeueWhere job.id u job := by
        simp only [applies] at happlies
        simp [requeueWhere, howner, happlies]
      have hstart : Retrying u job.id p (s.moveTo p (Pc.request (.retry job.id u))) 3 :=
        .update (by simp [State.moveTo, Pc.request]) hrow hw
      have hend := hstart.execute hu hs
      have hnone : 3 - ownSteps p ls = 0 := Nat.sub_eq_zero_of_le hsteps
      rw [hnone] at hend
      generalize hn : 0 = n at hend
      cases hend with
      | done hpc hrow' hst hin => exact ⟨⟨_, hpc⟩, _, hrow', hst, hin⟩
      | update | enqueue | publish => cases hn

/-- The id of a job. -/
def jobID : String := "00000000-0000-0000-0000-000000000001"

/-- A job is created (0) and waits in its queue. -/
def created : List Label :=
  [.start 0 (.request (.create ⟨"u1", "default", "force_fail", none, 0, 1, none⟩)),
    .run 0 .ok { freshID := jobID }, .run 0 .ok {}, .run 0 .ok {}]

/-- A worker (1) runs it and it fails for good. -/
def exhausted : List Label :=
  created ++ [.start 1 (.worker ⟨"00000000000000000000000000000001", "host", ["default"]⟩),
    .run 1 .ok {}, .run 1 .ok {}, .run 1 .ok {}, .finish 1 (.error "forced failure"), .run 1 .ok {}]

theorem created_runs : (execute step State.initial created).isSome := by decide

theorem exhausted_runs : (execute step State.initial exhausted).isSome := by decide

/-- The one token of `u1`. -/
def oneToken (token : String) : Option String := if token = "token" then some "u1" else none

theorem signedIn_oneToken : SignedIn oneToken "token" "u1" := ⟨by decide, rfl⟩

theorem client_server_agree_exhausted : ∃ tr s job, Run step FreshIDs State.initial tr s ∧
    row s job.id = some job ∧ job.status = .deadLetter ∧
    Agrees oneToken s "token" "u1" job .retryJob := by
  have hrun := Run.of_outcome exhausted_runs (show Admitted step FreshIDs _ _ by decide)
  have hfields : (row (outcome step State.initial exhausted exhausted_runs).1 jobID).map
      (fun r => (r.userID, r.status)) = some (some "u1", .deadLetter) := by decide
  obtain ⟨job, hrow, heq⟩ := Option.map_eq_some_iff.mp hfields
  obtain ⟨howner, hst⟩ := Prod.mk.inj heq
  have hid := JobTable.find_id hrow
  rw [← hid] at hrow
  have happlies : applies job.status .retryJob := hst
  exact ⟨_, _, job, hrun, hrow, hst,
    (client_server_agree_iff hrun hrow howner signedIn_oneToken happlies).mpr rfl⟩

/-- A queued job can not be cancelled from the client. -/
theorem cancel_not_routed : ¬ ∀ parse tr s token u job action,
    Run step FreshIDs State.initial tr s → row s job.id = some job → job.userID = some u →
    SignedIn parse token u → applies job.status action → Agrees parse s token u job action := by
  intro hall
  have hrun := Run.of_outcome created_runs (show Admitted step FreshIDs _ _ by decide)
  have hfields : (row (outcome step State.initial created created_runs).1 jobID).map
      (fun r => (r.userID, r.status)) = some (some "u1", .queued) := by decide
  obtain ⟨job, hrow, heq⟩ := Option.map_eq_some_iff.mp hfields
  obtain ⟨howner, hst⟩ := Prod.mk.inj heq
  have hid := JobTable.find_id hrow
  rw [← hid] at hrow
  have hrouted := (hall oneToken _ _ "token" "u1" job .cancelJob hrun hrow howner
    signedIn_oneToken (.inl hst)).dispatched
  rw [cancelJob_notFound (parseID_row hrun hrow)] at hrouted
  cases hrouted

end JobFlow.Web.Actions
