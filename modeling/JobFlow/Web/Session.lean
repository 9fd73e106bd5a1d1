import JobFlow.Model.UseJobFlow

/-!
# Whose data the dashboard shows

`refresh` writes what it receives, whatever has happened since it was called. The data
are those of the session as long as no refresh completes that was called with another
token or before the one on display.
-/

namespace JobFlow.Web.Session

open JobFlow.Model
open JobFlow.Model.UseJobFlow
open JobFlow.Lib.Transition

def Blank (h : Hook) : Prop := h.jobs = [] ∧ h.stats = none

/-- The jobs and the statistics are those of the session: from a refresh with its token,
or none, and none while there is no session. -/
structure ShowsSession (s : Session) : Prop where
  current : Blank s.hook ∨
    ∃ n r, s.shown = some n ∧ s.refreshes[n]? = some r ∧ r.token = s.hook.token
  signedOut : s.hook.token = "" → Blank s.hook

/-- Data do not give way to those of an earlier refresh. -/
def Ordered (s s' : Session) : Prop := ∀ m ∈ s.shown, ∀ n ∈ s'.shown, m ≤ n

/-- The answer is the second of two good ones. -/
def completes (r : Refresh) : Answer → Bool
  | .jobs (.ok _) =>
    match r.jobs, r.dashboard with
    | none, some (.ok _) => true
    | _, _ => false
  | .dashboard (.ok _) =>
    match r.jobs, r.dashboard with
    | some (.ok _), none => true
    | _, _ => false
  | _ => false

/-- A refresh completes under its own token and after those before it, and a sign-in
finds no data of another session. -/
def Fresh (s : Session) : Input → Prop
  | .arrive n x => ∀ r ∈ s.refreshes[n]?, completes r x = true →
      r.token = s.hook.token ∧ ∀ m ∈ s.shown, m ≤ n
  | .authenticated _ (.ok (token, _)) =>
      ∀ m ∈ s.shown, ∀ r ∈ s.refreshes[m]?, r.token = token
  | _ => True

instance (s : Session) (l : Input) : Decidable (Fresh s l) := by
  unfold Fresh
  split <;> infer_instance

/-! ## What one turn changes -/

/-- The screen and its source stay, and calls are made and answered. -/
structure Keeps (s s' : Session) : Prop where
  token : s'.hook.token = s.hook.token
  jobs : s'.hook.jobs = s.hook.jobs
  stats : s'.hook.stats = s.hook.stats
  shown : s'.shown = s.shown
  refreshes : ∀ (n : Nat) (r : Refresh), s.refreshes[n]? = some r →
    ∃ r' : Refresh, s'.refreshes[n]? = some r' ∧ r'.token = r.token ∧
    ∀ d, r.all = some (.ok d) → r'.all = some (.ok d)
  named : (∀ r ∈ s.refreshes, r.token ≠ "") → ∀ r ∈ s'.refreshes, r.token ≠ ""

theorem Keeps.of_eq {s s' : Session} (ht : s'.hook.token = s.hook.token)
    (hj : s'.hook.jobs = s.hook.jobs) (hd : s'.hook.stats = s.hook.stats)
    (hs : s'.shown = s.shown) (hr : s'.refreshes = s.refreshes) : Keeps s s' where
  token := ht
  jobs := hj
  stats := hd
  shown := hs
  refreshes n r hn := ⟨r, by rwa [hr], rfl, fun _ h => h⟩
  named h := by rwa [hr]

theorem Keeps.trans {s s₁ s₂ : Session} (h : Keeps s s₁) (h' : Keeps s₁ s₂) : Keeps s s₂ where
  token := h'.token.trans h.token
  jobs := h'.jobs.trans h.jobs
  stats := h'.stats.trans h.stats
  shown := h'.shown.trans h.shown
  refreshes n r hn := by
    obtain ⟨r₁, hn₁, ht₁, hall₁⟩ := h.refreshes n r hn
    obtain ⟨r₂, hn₂, ht₂, hall₂⟩ := h'.refreshes n r₁ hn₁
    exact ⟨r₂, hn₂, ht₂.trans ht₁, fun d hd => hall₂ d (hall₁ d hd)⟩
  named hs := h'.named (h.named hs)

theorem keeps_refresh (s : Session) (token : String) : Keeps s (s.refresh token) := by
  unfold Session.refresh
  split
  · exact .of_eq rfl rfl rfl rfl rfl
  · next hne =>
    constructor
    case refreshes =>
      intro n r hn
      have hlt : n < s.refreshes.length := (List.getElem?_eq_some_iff.mp hn).1
      refine ⟨r, ?_, rfl, fun _ h => h⟩
      exact (List.getElem?_append_left hlt).trans hn
    case named =>
      intro hs r hr
      rcases List.mem_append.mp hr with hr | hr
      · exact hs r hr
      · obtain rfl := List.mem_singleton.mp hr
        exact hne
    all_goals rfl

theorem keeps_render (s : Session) : Keeps s s.render := by
  unfold Session.render
  split
  · exact .of_eq rfl rfl rfl rfl rfl
  · have hr := keeps_refresh { s with rendered := s.hook.token :: s.rendered } s.hook.token
    have h : Keeps s { s with rendered := s.hook.token :: s.rendered } :=
      .of_eq rfl rfl rfl rfl rfl
    exact (h.trans hr).trans (.of_eq rfl rfl rfl rfl rfl)

/-- An answer leaves the token, and nothing that has completed. -/
theorem answer_spec {r r' : Refresh} {x : Answer} (h : r.answer x = some r') :
    r'.token = r.token ∧ (r.all.isSome = false ∧ (∃ d, r'.all = some (.ok d)) ↔ completes r x) ∧
      ∀ d, r.all = some (.ok d) → r'.all = some (.ok d) := by
  obtain ⟨token, jobs, dashboard⟩ := r
  cases x with
  | jobs y =>
    cases jobs with
    | some z => cases h
    | none =>
      obtain rfl := Option.some.inj h
      refine ⟨rfl, ?_, ?_⟩
      · rcases y with e | y <;> rcases dashboard with - | e | d <;>
          simp [Refresh.all, completes]
      · rcases dashboard with - | e | d <;> simp [Refresh.all]
  | dashboard y =>
    cases dashboard with
    | some z => cases h
    | none =>
      obtain rfl := Option.some.inj h
      refine ⟨rfl, ?_, ?_⟩
      · rcases y with e | y <;> rcases jobs with - | e | d <;>
          simp [Refresh.all, completes]
      · rcases jobs with - | e | d <;> simp [Refresh.all]

/-- What a turn does to the screen. -/
inductive Effect (s : Session) : Input → Session → Prop
  | keeps {l : Input} {s' : Session} : Keeps s s' → Fresh s l → Effect s l s'
  | shows {n : Nat} {x : Answer} {r r' : Refresh} {jobData : List Job}
      {statsData : DashboardStats} : s.refreshes[n]? = some r → r.answer x = some r' →
      completes r x = true → r'.all = some (.ok (jobData, statsData)) →
      Effect s (.arrive n x) { s with
        hook := s.hook.refreshed jobData statsData
        refreshes := s.refreshes.set n r'
        shown := some n }
  | signsIn {n : Nat} {mode token : String} {user : UseJobFlow.User} {signIns : List String} :
      Effect s (.authenticated n (.ok (token, user)))
        { s with hook := s.hook.authenticated mode token user, signIns := signIns }
  | signsOut : Effect s .signOut s.signOut

theorem keeps_answer {s : Session} {n : Nat} {x : Answer} {r r' : Refresh} {h : Hook}
    (hn : s.refreshes[n]? = some r) (hx : r.answer x = some r') (ht : h.token = s.hook.token)
    (hj : h.jobs = s.hook.jobs) (hd : h.stats = s.hook.stats) :
    Keeps s { s with hook := h, refreshes := s.refreshes.set n r' } := by
  obtain ⟨htoken, -, hall⟩ := answer_spec hx
  have hlt : n < s.refreshes.length := (List.getElem?_eq_some_iff.mp hn).1
  refine ⟨ht, hj, hd, rfl, fun m q hq => ?_, fun hs q hq => ?_⟩
  · by_cases hm : n = m
    · subst hm
      obtain rfl := Option.some.inj (hn.symm.trans hq)
      exact ⟨r', List.getElem?_set_self hlt, htoken, hall⟩
    · exact ⟨q, (List.getElem?_set_ne hm).trans hq, rfl, fun _ h => h⟩
  · rcases List.mem_or_eq_of_mem_set hq with hq | rfl
    · exact hs q hq
    · rw [htoken]
      exact hs r (List.mem_of_getElem? hn)

theorem effect_arrive {s s' : Session} {n : Nat} {x : Answer} (h : s.arrive n x = some s') :
    Effect s (.arrive n x) s' := by
  simp only [Session.arrive, Option.bind_eq_bind, Option.bind_eq_some_iff, Option.pure_def,
    Option.some.injEq] at h
  obtain ⟨r, hn, r', hx, rfl⟩ := h
  obtain ⟨-, hcompletes, -⟩ := answer_spec hx
  have hfresh (hc : ¬ completes r x = true) : Fresh s (.arrive n x) := fun q hq hqc => by
    obtain rfl := Option.some.inj (hn.symm.trans hq)
    exact absurd hqc hc
  unfold Session.resume
  split
  · next hbefore =>
    refine .keeps (keeps_answer hn hx rfl rfl rfl) (hfresh fun hc => ?_)
    rw [(hcompletes.mpr hc).1] at hbefore
    cases hbefore
  · next hbefore =>
    split
    · next hafter =>
      refine .keeps (keeps_answer hn hx rfl rfl rfl) (hfresh fun hc => ?_)
      obtain ⟨d, hd⟩ := (hcompletes.mpr hc).2
      rw [hafter] at hd
      cases hd
    · next e hafter =>
      refine .keeps (keeps_answer hn hx rfl rfl rfl) (hfresh fun hc => ?_)
      obtain ⟨d, hd⟩ := (hcompletes.mpr hc).2
      rw [hafter] at hd
      cases hd
    · next jobData statsData hafter =>
      exact .shows hn hx (hcompletes.mp ⟨by simpa using hbefore, _, hafter⟩) hafter

theorem effect_authenticated {s s' : Session} {n : Nat} {data : Except String (String × UseJobFlow.User)}
    (h : s.authenticated n data = some s') : Effect s (.authenticated n data) s' := by
  unfold Session.authenticated at h
  obtain ⟨mode, -, h⟩ := Option.bind_eq_some_iff.mp h
  rcases data with e | ⟨token, user⟩
  · obtain rfl := Option.some.inj h
    exact .keeps (.of_eq rfl rfl rfl rfl rfl) trivial
  · obtain rfl := Option.some.inj h
    exact .signsIn

theorem turn_effect {s s' : Session} {l : Input} (h : turn s l = some s') : Effect s l s' := by
  cases l with
  | render =>
    obtain rfl := Option.some.inj h
    exact .keeps (keeps_render s) trivial
  | refresh token =>
    obtain ⟨-, hs⟩ := Option.ite_none_right_eq_some.mp h
    obtain rfl := Option.some.inj hs
    exact .keeps (keeps_refresh s token) trivial
  | arrive n x => exact effect_arrive h
  | authenticated n data => exact effect_authenticated h
  | signOut =>
    obtain rfl := Option.some.inj h
    exact .signsOut
  | message parsed =>
    obtain ⟨token, -, rfl⟩ := Option.map_eq_some_iff.mp h
    have hk : Keeps s { s with hook := s.hook.onmessage parsed } := .of_eq rfl rfl rfl rfl rfl
    exact .keeps (hk.trans (keeps_refresh _ token)) trivial
  | sourceError =>
    obtain ⟨token, -, rfl⟩ := Option.map_eq_some_iff.mp h
    exact .keeps (.of_eq rfl rfl rfl rfl rfl) trivial
  | authenticate mode =>
    obtain rfl := Option.some.inj h
    exact .keeps (.of_eq rfl rfl rfl rfl rfl) trivial
  | setSelectedJob job =>
    obtain rfl := Option.some.inj h
    exact .keeps (.of_eq rfl rfl rfl rfl rfl) trivial
  | setNotice text =>
    obtain rfl := Option.some.inj h
    exact .keeps (.of_eq rfl rfl rfl rfl rfl) trivial
  | setError text =>
    obtain rfl := Option.some.inj h
    exact .keeps (.of_eq rfl rfl rfl rfl rfl) trivial

/-! ## The source of what is on display -/

/-- Data on display are both results of the refresh that is noted as their source. -/
structure Traced (s : Session) : Prop where
  blank : s.shown = none → Blank s.hook
  source : ∀ n, s.shown = some n → ∃ r d, s.refreshes[n]? = some r ∧
    r.all = some (.ok (s.hook.jobs, d)) ∧ s.hook.stats = some d
  named : ∀ r ∈ s.refreshes, r.token ≠ ""

theorem traced_mount (stored : Option String) : Traced (mount stored) where
  blank _ := ⟨rfl, rfl⟩
  source n h := by cases h
  named r h := by cases h

theorem Traced.of_keeps {s s' : Session} (ht : Traced s) (hk : Keeps s s') : Traced s' where
  blank h := by
    rw [hk.shown] at h
    obtain ⟨hj, hd⟩ := ht.blank h
    exact ⟨hk.jobs.trans hj, hk.stats.trans hd⟩
  source n h := by
    rw [hk.shown] at h
    obtain ⟨r, d, hn, hall, hd⟩ := ht.source n h
    obtain ⟨r', hn', -, hall'⟩ := hk.refreshes n r hn
    refine ⟨r', d, hn', ?_, hk.stats.trans hd⟩
    rw [hk.jobs]
    exact hall' _ hall
  named := hk.named ht.named

theorem traced_effect {s s' : Session} {l : Input} (ht : Traced s) (h : Effect s l s') :
    Traced s' := by
  cases h with
  | keeps hk _ => exact ht.of_keeps hk
  | shows hn hx hc hall =>
    have hk := keeps_answer (h := s.hook) hn hx rfl rfl rfl
    refine ⟨fun h => (by cases h), fun m hm => ?_, hk.named ht.named⟩
    obtain rfl := Option.some.inj hm
    exact ⟨_, _, List.getElem?_set_self (List.getElem?_eq_some_iff.mp hn).1, hall, rfl⟩
  | signsIn => exact ⟨ht.blank, ht.source, ht.named⟩
  | signsOut => exact ⟨fun _ => ⟨rfl, rfl⟩, fun n h => (by cases h), ht.named⟩

theorem traced_run {ok : Session → Input → Prop} {stored : Option String} {tr : List Hook}
    {s : Session} (hr : Run UseJobFlow.step ok (mount stored) tr s) : Traced s := by
  refine hr.invariant (I := fun _ => Traced) (traced_mount stored) fun _ ht _ h => ?_
  exact traced_effect ht (turn_effect (map_view_eq_some.mp h).1)

/-- The tokens decide: data are of the session when their refresh had its token. -/
theorem showsSession_iff {s : Session} (ht : Traced s) :
    ShowsSession s ↔ ∀ n ∈ s.shown, ∀ r ∈ s.refreshes[n]?, r.token = s.hook.token := by
  constructor
  · intro h n hn r hr
    obtain ⟨q, d, hq, -, hd⟩ := ht.source n hn
    rcases h.current with hb | ⟨m, q', hm, hq', htoken⟩
    · rw [hb.2] at hd
      cases hd
    · obtain rfl := Option.some.inj (hm.symm.trans hn)
      obtain rfl := Option.some.inj (hq'.symm.trans hr)
      exact htoken
  · intro h
    cases hs : s.shown with
    | none => exact ⟨.inl (ht.blank hs), fun _ => ht.blank hs⟩
    | some n =>
      obtain ⟨r, d, hr, -, -⟩ := ht.source n hs
      have htoken := h n hs r hr
      refine ⟨.inr ⟨n, r, hs, hr, htoken⟩, fun hempty => ?_⟩
      exact absurd (htoken.trans hempty) (ht.named r (List.mem_of_getElem? hr))

/-- One turn keeps the data those of the session, in order, exactly if it is `Fresh`. -/
theorem effect_iff {s s' : Session} {l : Input} (ht : Traced s) (hs : ShowsSession s)
    (h : Effect s l s') : ShowsSession s' ∧ Ordered s s' ↔ Fresh s l := by
  have hcurrent := (showsSession_iff ht).mp hs
  rw [showsSession_iff (traced_effect ht h)]
  cases h with
  | keeps hk hfresh =>
    refine iff_of_true ⟨fun n hn r' hr' => ?_, fun m hm n hn => ?_⟩ hfresh
    · rw [hk.shown] at hn
      obtain ⟨r, -, hr, -⟩ := ht.source n hn
      obtain ⟨q, hq, htoken, -⟩ := hk.refreshes n r hr
      obtain rfl := Option.some.inj (hq.symm.trans hr')
      rw [htoken, hk.token]
      exact hcurrent n hn r hr
    · rw [hk.shown, hm] at hn
      exact (Option.some.inj hn).le
  | @shows n x r r' jobData statsData hn hx hc hall =>
    have hself : (s.refreshes.set n r')[n]? = some r' :=
      List.getElem?_set_self (List.getElem?_eq_some_iff.mp hn).1
    have htoken := (answer_spec hx).1
    constructor
    · rintro ⟨hshows, hord⟩ q hq -
      obtain rfl := Option.some.inj (hn.symm.trans hq)
      exact ⟨htoken.symm.trans (hshows n rfl r' hself), fun m hm => hord m hm n rfl⟩
    · intro hfresh
      obtain ⟨hcur, hlater⟩ := hfresh r hn hc
      refine ⟨fun m hm q hq => ?_, fun m hm k hk => ?_⟩
      · obtain rfl := Option.some.inj hm
        obtain rfl := Option.some.inj (hself.symm.trans hq)
        exact htoken.trans hcur
      · obtain rfl := Option.some.inj hk
        exact hlater m hm
  | signsIn =>
    refine and_iff_left fun m hm n hn => ?_
    exact (Option.some.inj (hm.symm.trans hn)).le
  | signsOut =>
    exact iff_of_true ⟨fun n hn => (by cases hn), fun m _ n hn => (by cases hn)⟩ trivial

theorem step_iff {s s' : Session} {l : Input} {h : Hook} (ht : Traced s) (hs : ShowsSession s)
    (hstep : UseJobFlow.step s l = some (s', h)) : ShowsSession s' ∧ Ordered s s' ↔ Fresh s l := by
  obtain ⟨hturn, -⟩ := map_view_eq_some.mp hstep
  exact effect_iff ht hs (turn_effect hturn)

theorem showsSession_run {stored : Option String} {tr : List Hook} {s : Session}
    (hr : Run UseJobFlow.step Fresh (mount stored) tr s) : ShowsSession s := by
  refine hr.invariant (I := fun _ => ShowsSession) ⟨.inl ⟨rfl, rfl⟩, fun _ => ⟨rfl, rfl⟩⟩ ?_
  intro _ _ _ _ _ hr hs hfresh hstep
  exact ((step_iff (traced_run hr) hs hstep).mpr hfresh).1

/-- Over a run of fresh turns the dashboard shows the data of the session, and it goes
on to, without stepping back, after a further turn exactly if that turn is fresh too. -/
theorem shows_session {stored : Option String} {tr : List Hook} {s : Session}
    (hr : Run UseJobFlow.step Fresh (mount stored) tr s) :
    ShowsSession s ∧ ∀ l s' h, UseJobFlow.step s l = some (s', h) →
      (ShowsSession s' ∧ Ordered s s' ↔ Fresh s l) :=
  ⟨showsSession_run hr, fun _ _ _ hstep => step_iff (traced_run hr) (showsSession_run hr) hstep⟩

/-- What the server answers in the runs below. -/
def found : List Answer :=
  [.jobs (.ok [⟨"j1", some "u1", "default", "send_email", .null, .queued, 0, 0, 3, none, none, none,
      none, 0, 0⟩]),
    .dashboard (.ok ⟨1, 1, 0, 0, 0, 0, 0, [], fun _ => none, [("send_email", 1)]⟩)]

/-- u1 signs in, and the effect of the new token refreshes. -/
def signedIn : List Input :=
  [.render, .authenticate "login", .authenticated 0 (.ok ("t1", ⟨"u1", "Ann", "a@b.c", none, 0⟩)),
    .render]

def answered : List Input := signedIn ++ found.map (.arrive 0)

theorem answered_runs : (execute UseJobFlow.step (mount none) answered).isSome := by decide

theorem shows_session_answered : ∃ tr s, Run UseJobFlow.step Fresh (mount none) tr s ∧
    s.hook.jobs.map Job.id = ["j1"] ∧ ShowsSession s := by
  have hrun := Run.of_outcome answered_runs
    (show Admitted UseJobFlow.step Fresh (mount none) answered by decide)
  exact ⟨_, _, hrun, by decide, (shows_session hrun).1⟩

/-- The user signs out while the two requests are under way. -/
def leftEarly : List Input := signedIn ++ .signOut :: found.map (.arrive 0)

theorem leftEarly_runs : (execute UseJobFlow.step (mount none) leftEarly).isSome := by decide

/-- The jobs are written back after the sign-out. -/
theorem jobs_after_signOut : ¬ ∀ stored tr s, Run UseJobFlow.step anyStep (mount stored) tr s →
    ShowsSession s := by
  intro hall
  have hshows := hall _ _ _ (Run.of_outcome leftEarly_runs (admitted_anyStep _ _))
  have hjobs := (hshows.signedOut (by decide)).1
  have hlisted : ((outcome UseJobFlow.step (mount none) leftEarly leftEarly_runs).1.hook.jobs.map
      Job.id) = ["j1"] := by decide
  rw [hjobs] at hlisted
  cases hlisted

end JobFlow.Web.Session
