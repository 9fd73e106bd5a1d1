import JobFlow.Lib.AtomicObject
import JobFlow.Lib.ReadCommitted

/-!
# Statements about the row of one key

Such a statement takes effect at one instant. If it changes the row, that is its commit: it
has held the row since it tested it. If it does not, that is its snapshot or the visit at
which a newer version of the row failed the test. So any number of them that overlap do
what they do one after the other, and none of them waits for one that waits itself.
-/

namespace JobFlow.Lib.ReadCommitted

open JobFlow.Lib.Transition
open JobFlow.Lib (AtomicObject.Object AtomicObject.Action AtomicObject.Call)

variable {T κ ρ S A : Type*} [DecidableEq κ]

/-- The statement selects the row of the key if it passes the test, and tests a newer
version in the same way. -/
structure SingleRow (db : Dialect T κ ρ S) (st : S) (key : κ) (test : ρ → Bool) : Prop where
  selects : ∀ t ks, db.selects st t ks = true ↔ ks = if (db.find t key).any test then [key] else []
  rechecks : ∀ ks r, db.rechecks st ks r = test r

def Single (db : Dialect T κ ρ S) (st : S) : Prop := ∃ key test, SingleRow db st key test

/-- What clients see of the statements: their start, their end with what the rows they have
written amount to, and that they were given up. -/
def Dialect.shows (db : Dialect T κ ρ S) (reply : S → List ρ → A) :
    Machine (Database T κ S) (Label κ S) (List (AtomicObject.Action S A)) := fun d l =>
  match l with
  | .start i st _ => (db.step d l).map fun x => (x.1, [.invoke i st])
  | .visit _ => (db.step d l).map fun x => (x.1, [])
  | .commit i => (db.step d l).map fun x =>
    (x.1, (d.active i).toList.map fun txn => .answer i (reply txn.statement (x.2.map Change.new)))
  | .abort i => (db.step d l).map fun x => (x.1, [.abort i])

/-- The statements of every start satisfy `P`. -/
def Starts (P : Database T κ S → S → Prop) (d : Database T κ S) : Label κ S → Prop
  | .start _ st _ => P d st
  | _ => True

/-- A statement that has come to its end without a row has had its effect. -/
def Txn.call (reply : S → List ρ → A) (txn : Txn T κ S) : AtomicObject.Call S A :=
  ⟨txn.statement, if txn.pending.isEmpty && txn.written.isEmpty then some (reply txn.statement [])
    else none⟩

/-- The statements under way as operations on what is committed. -/
def Database.object (reply : S → List ρ → A) (d : Database T κ S) : AtomicObject.Object T S A :=
  ⟨d.table, fun i => (d.active i).map (Txn.call reply)⟩

section

variable {db : Dialect T κ ρ S} {reply : S → List ρ → A} {d d' : Database T κ S}

theorem step_of_shows {l : Label κ S} {a : List (AtomicObject.Action S A)}
    (h : db.shows reply d l = some (d', a)) : ∃ log, db.step d l = some (d', log) := by
  cases l <;>
  · obtain ⟨⟨d₁, log⟩, hs, heq⟩ := Option.map_eq_some_iff.mp h
    obtain ⟨rfl, -⟩ := Prod.mk.inj heq
    exact ⟨log, hs⟩

/-- A single statement holds one row at most, and then has no other before it. -/
theorem TxnSound.single {txn : Txn T κ S} (ht : TxnSound db d txn) {key : κ} {test : ρ → Bool}
    (h : SingleRow db txn.statement key test) :
    (txn.written ++ txn.pending = [] ∨
      (txn.written ++ txn.pending = [key] ∧ txn.selected = [key])) := by
  have hsel := (h.selects _ _).mp ht.selected
  have hahead := ht.ahead
  split at hsel
  · rw [hsel] at hahead
    rcases List.sublist_singleton.mp hahead with h | h
    · exact .inl h
    · exact .inr ⟨h, hsel⟩
  · rw [hsel] at hahead
    exact .inl (List.sublist_nil.mp hahead)

/-- The row that a single statement takes passes its test. -/
theorem TxnSound.takes_iff {txn : Txn T κ S} (ht : TxnSound db d txn) {key : κ} {test : ρ → Bool}
    (h : SingleRow db txn.statement key test) (hsel : txn.selected = [key]) :
    db.takes d txn key = (db.find d.table key).any test := by
  unfold Dialect.takes
  cases hf : db.find d.table key with
  | none => rfl
  | some r =>
    simp only [Option.any_some, h.rechecks]
    by_cases hv : d.version key = txn.seen key
    · have hsnap := (h.selects _ _).mp ht.selected
      rw [hsel, ← ht.unchanged key hv, hf, Option.any_some] at hsnap
      have hr : test r = true := by
        by_contra hno
        simp [hno] at hsnap
      simp [hv, hr]
    · simp [hv]

/-- The operations that the statements with `P` are, which are single. -/
structure Implements (db : Dialect T κ ρ S) (P : S → Prop) (reply : S → List ρ → A)
    (effect : S → T → T × A) (idle : A → Bool) : Prop where
  single : ∀ {st}, P st → Single db st
  write_nil : ∀ t st, db.write t st [] = t
  effect : ∀ {st t ks}, P st → db.selects st t ks →
    effect st t = (db.write t st ks, reply st ((db.changes t st ks).map Change.new))
  idle : ∀ st, idle (reply st [])

section Simulation

variable {effect : S → T → T × A} {idle : A → Bool}

omit [DecidableEq κ] in
theorem object_eq {o : AtomicObject.Object T S A} (hcontent : o.content = d.table)
    (hcalls : ∀ j, o.calls j = (d.active j).map (Txn.call reply)) : o = d.object reply := by
  obtain ⟨content, calls⟩ := o
  obtain rfl : content = d.table := hcontent
  obtain rfl : calls = fun j => (d.active j).map (Txn.call reply) := funext hcalls
  rfl

omit [DecidableEq κ] in
/-- A change of one statement is a change of one call. -/
theorem calls_update (d : Database T κ S) (i : Nat) (x : Option (Txn T κ S)) (j : Nat) :
    Function.update (d.object reply).calls i (x.map (Txn.call reply)) j =
      (Function.update d.active i x j).map (Txn.call reply) := by
  by_cases hj : j = i
  · subst hj
    simp
  · simp [hj, Database.object]

/-- A run of the object that shows the same as a step of the database. -/
def Answered (effect : S → T → T × A) (idle : A → Bool) (reply : S → List ρ → A)
    (d d' : Database T κ S) (a : List (AtomicObject.Action S A)) : Prop :=
  ∃ tr, Run (AtomicObject.step effect idle) anyStep (d.object reply) tr (d'.object reply) ∧
    tr.flatten = a

omit [DecidableEq κ] in
theorem Answered.of_run {o : AtomicObject.Object T S A}
    {tr : List (List (AtomicObject.Action S A))}
    (h : Run (AtomicObject.step effect idle) anyStep (d.object reply) tr o)
    (hcontent : o.content = d'.table)
    (hcalls : ∀ j, o.calls j = (d'.active j).map (Txn.call reply)) :
    Answered effect idle reply d d' tr.flatten :=
  ⟨tr, object_eq hcontent hcalls ▸ h, rfl⟩

/-- A visit changes the row or passes, as the statement takes it or not. -/
theorem visit_next {i : Nat} (h : db.visit d i = some d') : ∃ txn k rest,
    d.active i = some txn ∧ txn.pending = k :: rest ∧ d'.table = d.table ∧
    d'.active = Function.update d.active i (some { txn with
      pending := rest, written := if db.takes d txn k then txn.written ++ [k] else txn.written })
    := by
  unfold Dialect.visit at h
  split at h
  · cases h
  · next txn htxn =>
    split at h
    · cases h
    · next k rest hpending =>
      refine ⟨txn, k, rest, htxn, hpending, ?_⟩
      split at h
      · cases h
      · split at h
        · next htakes =>
          obtain rfl := Option.some.inj h
          exact ⟨rfl, by rw [if_pos htakes]⟩
        · next hpasses =>
          obtain rfl := Option.some.inj h
          exact ⟨rfl, by rw [if_neg hpasses]⟩

/-- A single statement under way: it has come to no row, or its row is next, or it has
written it. -/
theorem TxnSound.single_cases {txn : Txn T κ S} (ht : TxnSound db d txn) {key : κ}
    {test : ρ → Bool} (h : SingleRow db txn.statement key test) :
    (txn.pending = [] ∧ txn.written = []) ∨
    (txn.pending = [key] ∧ txn.written = [] ∧ txn.selected = [key]) ∨
    (txn.pending = [] ∧ txn.written = [key] ∧ txn.selected = [key]) := by
  rcases ht.single h with hnil | ⟨hone, hsel⟩
  · obtain ⟨hw, hp⟩ := List.append_eq_nil_iff.mp hnil
    exact .inl ⟨hp, hw⟩
  · rcases List.append_eq_singleton_iff.mp hone with ⟨hw, hp⟩ | ⟨hw, hp⟩
    · exact .inr (.inl ⟨hp, hw, hsel⟩)
    · exact .inr (.inr ⟨hp, hw, hsel⟩)

variable {P : S → Prop} (him : Implements db P reply effect idle)

include him

/-- A statement that selects nothing has its effect at once. -/
theorem answered_start {i : Nat} {st : S} {selected : List κ} (hst : P st)
    (h : db.start d i st selected = some d') :
    Answered effect idle reply d d' [.invoke i st] := by
  unfold Dialect.start at h
  split at h
  case isFalse => cases h
  case isTrue hc =>
  obtain rfl := Option.some.inj h
  have hnone : (d.object reply).calls i = none := by
    simp [Database.object, Option.isNone_iff_eq_none.mp hc.1]
  have hinvoke := AtomicObject.run_invoke effect idle hnone st
  cases selected with
  | nil =>
    have heffect := AtomicObject.run_effect effect idle (i := i)
      (o := { d.object reply with
        calls := Function.update (d.object reply).calls i (some { operation := st }) })
      (Function.update_self _ _ _) (him.effect hst hc.2)
    refine .of_run (hinvoke.trans heffect) (him.write_nil _ _) fun j => ?_
    rw [Function.update_idem]
    exact calls_update d i (some ⟨st, d.table, d.version, [], [], []⟩) j
  | cons k rest =>
    exact .of_run hinvoke rfl
      (calls_update d i (some ⟨st, d.table, d.version, k :: rest, k :: rest, []⟩))

/-- A statement whose row fails the test has its effect at the visit. -/
theorem answered_visit (hs : Sound db d) {i : Nat}
    (hP : ∀ txn, d.active i = some txn → P txn.statement)
    (h : db.visit d i = some d') : Answered effect idle reply d d' [] := by
  obtain ⟨txn, k, rest, htxn, hpending, htable, hactive⟩ := visit_next h
  have ht := hs.txns i txn htxn
  obtain ⟨key, test, hrow⟩ := him.single (hP txn htxn)
  have hcall : (d.object reply).calls i = some { operation := txn.statement } := by
    simp [Database.object, htxn, Txn.call, hpending]
  rcases ht.single_cases hrow with ⟨hp, -⟩ | ⟨hp, hw, hsel⟩ | ⟨hp, -⟩
  case inl | inr.inr => cases hpending.symm.trans hp
  case inr.inl =>
  obtain ⟨rfl, rfl⟩ := List.cons.inj (hpending.symm.trans hp)
  cases htakes : db.takes d txn k with
  | true =>
    refine .of_run .start htable.symm fun j => ?_
    rw [hactive, ← calls_update]
    refine (congrFun (Function.update_eq_self_iff.mpr ?_) j).symm
    rw [hcall]
    simp [Txn.call, htakes]
  | false =>
    have hno : db.selects txn.statement d.table [] := by
      rw [hrow.selects, ← ht.takes_iff hrow hsel, htakes, if_neg Bool.false_ne_true]
    refine .of_run (AtomicObject.run_effect effect idle hcall (him.effect (hP txn htxn) hno))
      (by rw [htable, ← him.write_nil d.table]; rfl) fun j => ?_
    rw [hactive, ← calls_update]
    simp [Txn.call, htakes, hw, Dialect.changes]

/-- A statement that has written its row has its effect at the commit. -/
theorem answered_commit (hs : Sound db d) {i : Nat} {log : List (Change κ ρ S)}
    (hP : ∀ txn, d.active i = some txn → P txn.statement)
    (h : db.commit d i = some (d', log)) :
    Answered effect idle reply d d' ((d.active i).toList.map fun txn =>
      .answer i (reply txn.statement (log.map Change.new))) := by
  obtain ⟨txn, htxn, hpending, rfl, rfl⟩ := commit_cases h
  have ht := hs.txns i txn htxn
  obtain ⟨key, test, hrow⟩ := him.single (hP txn htxn)
  have hend : ∀ {o : AtomicObject.Object T S A},
      (∀ j, j ≠ i → o.calls j = (d.active j).map (Txn.call reply)) →
      ∀ j, Function.update o.calls i none j =
        (Function.update d.active i none j).map (Txn.call reply) := by
    intro o ho j
    by_cases hj : j = i
    · subst hj
      simp
    · simp [hj, ho j hj]
  rw [htxn]
  rcases ht.single_cases hrow with ⟨-, hw⟩ | ⟨hp, -⟩ | ⟨-, hw, hsel⟩
  case inr.inl => cases hpending.symm.trans hp
  case inl =>
    have hcall : (d.object reply).calls i =
        some ⟨txn.statement, some (reply txn.statement [])⟩ := by
      simp [Database.object, htxn, Txn.call, hpending, hw]
    rw [hw]
    exact .of_run (AtomicObject.run_answer effect idle hcall) (him.write_nil _ _).symm
      (hend fun _ _ => rfl)
  case inr.inr =>
    have hcall : (d.object reply).calls i = some { operation := txn.statement } := by
      simp [Database.object, htxn, Txn.call, hw]
    have hyes : db.selects txn.statement d.table txn.written := by
      rw [hw, hrow.selects, ← ht.takes_iff hrow hsel, if_pos (ht.taken key (by simp [hw]))]
    have heffect := AtomicObject.run_effect effect idle hcall
      (him.effect (hP txn htxn) hyes)
    refine .of_run
      (heffect.trans (AtomicObject.run_answer effect idle (Function.update_self _ _ _))) rfl
      (hend fun j hj => ?_)
    exact Function.update_of_ne hj _ _

/-- A statement that is given up has not committed. -/
theorem answered_abort {i : Nat} (hi : (d.active i).isSome) :
    Answered effect idle reply d (d.release i) [.abort i] := by
  obtain ⟨txn, htxn⟩ := Option.isSome_iff_exists.mp hi
  have hcall : (d.object reply).calls i = some (txn.call reply) := by
    simp [Database.object, htxn]
  refine .of_run (AtomicObject.run_abort effect idle hcall ?_) rfl (calls_update d i none)
  unfold Txn.call
  dsimp only
  split
  · exact him.idle _
  · rfl

theorem answered_step (hs : Sound db d)
    (hP : ∀ i txn, d.active i = some txn → P txn.statement) {l : Label κ S}
    (hl : Starts (fun _ => P) d l) {a : List (AtomicObject.Action S A)}
    (h : db.shows reply d l = some (d', a)) : Answered effect idle reply d d' a := by
  cases l with
  | start i st selected =>
    obtain ⟨⟨d₁, log⟩, hstep, heq⟩ := Option.map_eq_some_iff.mp h
    obtain ⟨rfl, rfl⟩ := Prod.mk.inj heq
    exact answered_start him hl (map_view_eq_some.mp hstep).1
  | visit i =>
    obtain ⟨⟨d₁, log⟩, hstep, heq⟩ := Option.map_eq_some_iff.mp h
    obtain ⟨rfl, rfl⟩ := Prod.mk.inj heq
    exact answered_visit him hs (hP i) (map_view_eq_some.mp hstep).1
  | commit i =>
    obtain ⟨⟨d₁, log⟩, hstep, heq⟩ := Option.map_eq_some_iff.mp h
    obtain ⟨rfl, rfl⟩ := Prod.mk.inj heq
    exact answered_commit him hs (hP i) hstep
  | abort i =>
    obtain ⟨⟨d₁, log⟩, hstep, heq⟩ := Option.map_eq_some_iff.mp h
    obtain ⟨rfl, rfl⟩ := Prod.mk.inj heq
    obtain ⟨hi, hd⟩ := Option.ite_none_right_eq_some.mp hstep
    obtain ⟨rfl, -⟩ := Prod.mk.inj (Option.some.inj hd)
    exact answered_abort him hi

end Simulation

/-- A statement under way after a step was under way before it, or starts with it. -/
theorem active_step {l : Label κ S} {log : List (Change κ ρ S)}
    (h : db.step d l = some (d', log)) {j : Nat} {txn' : Txn T κ S}
    (hj : d'.active j = some txn') :
    (∃ txn, d.active j = some txn ∧ txn.statement = txn'.statement) ∨
      ∃ selected, l = .start j txn'.statement selected := by
  have hgone : ∀ i, Function.update d.active i none j = some txn' →
      ∃ txn, d.active j = some txn ∧ txn.statement = txn'.statement := by
    intro i hi
    rcases update_eq_some.mp hi with ⟨-, hnone⟩ | ⟨-, hold⟩
    · cases hnone
    · exact ⟨txn', hold, rfl⟩
  cases l with
  | start i st selected =>
    obtain ⟨-, hd⟩ := Option.ite_none_right_eq_some.mp (map_view_eq_some.mp h).1
    obtain rfl := Option.some.inj hd
    rcases update_eq_some.mp hj with ⟨rfl, hnew⟩ | ⟨-, hold⟩
    · obtain rfl := Option.some.inj hnew
      exact .inr ⟨selected, rfl⟩
    · exact .inl ⟨txn', hold, rfl⟩
  | visit i =>
    obtain ⟨txn, k, rest, htxn, -, -, hactive⟩ := visit_next (map_view_eq_some.mp h).1
    rw [hactive] at hj
    rcases update_eq_some.mp hj with ⟨rfl, hnew⟩ | ⟨-, hold⟩
    · obtain rfl := Option.some.inj hnew
      exact .inl ⟨txn, htxn, rfl⟩
    · exact .inl ⟨txn', hold, rfl⟩
  | commit i =>
    obtain ⟨_, -, -, -, rfl⟩ := commit_cases h
    exact .inl (hgone i hj)
  | abort i =>
    obtain ⟨-, hd⟩ := Option.ite_none_right_eq_some.mp h
    obtain ⟨rfl, -⟩ := Prod.mk.inj (Option.some.inj hd)
    exact .inl (hgone i hj)

/-- Whatever single statements overlap, what their clients see is what they would see if
each took effect at one instant between its start and its end. -/
theorem shows_answered {effect : S → T → T × A} {idle : A → Bool} {P : S → Prop}
    (him : Implements db P reply effect idle) {t : T}
    {tr : List (List (AtomicObject.Action S A))}
    (h : Run (db.shows reply) (Starts fun _ => P) { table := t } tr d) :
    ∃ tr', Run (AtomicObject.step effect idle) anyStep { content := t } tr' (d.object reply) ∧
      tr'.flatten = tr.flatten := by
  have hinv : ∀ {tr d}, Run (db.shows reply) (Starts fun _ => P) { table := t } tr d →
      Sound db d ∧ ∀ i txn, d.active i = some txn → P txn.statement := by
    intro tr d hrun
    refine hrun.invariant (I := fun _ d => Sound db d ∧ ∀ i txn, d.active i = some txn →
      P txn.statement) ⟨sound_initial t, fun i txn hi => by cases hi⟩ ?_
    intro tr d d' l a _ hI hl hs
    obtain ⟨log, hstep⟩ := step_of_shows hs
    refine ⟨sound_step hI.1 hstep, fun j txn' hj => ?_⟩
    rcases active_step hstep hj with ⟨txn, hold, heq⟩ | ⟨selected, rfl⟩
    · exact heq ▸ hI.2 j txn hold
    · exact hl
  have hanswered : ∃ tr' o, Run (AtomicObject.step effect idle) anyStep { content := t } tr' o ∧
      tr'.flatten = tr.flatten ∧ o = d.object reply := by
    refine h.answered (fun d o => o = d.object reply) rfl ?_
    intro tr d d' l a o hr ho hl hs
    obtain ⟨hsound, hP⟩ := hinv hr
    obtain ⟨tr', hrun, hflat⟩ := answered_step him hsound hP hl hs
    exact ⟨tr', _, ho ▸ hrun, hflat, rfl⟩
  obtain ⟨tr', o, hrun, hflat, rfl⟩ := hanswered
  exact ⟨tr', hrun, hflat⟩

/-! ## Nothing waits in a circle -/

/-- A statement goes on: it visits its next row or commits. -/
def Advances (_ : Database T κ S) : Label κ S → Prop
  | .visit _ | .commit _ => True
  | _ => False

/-- The database goes on, and statements leave it by committing. -/
def Leads (db : Dialect T κ ρ S) (d d' : Database T κ S) : Prop :=
  (∃ tr, Run db.step Advances d tr d') ∧ Sound db d' ∧
    ∀ j, d'.active j = none ∨ d'.active j = d.active j

theorem Leads.refl (hs : Sound db d) : Leads db d d := ⟨⟨[], .start⟩, hs, fun _ => .inr rfl⟩

theorem Leads.trans {d₁ d₂ d₃ : Database T κ S} (h : Leads db d₁ d₂) (h' : Leads db d₂ d₃) :
    Leads db d₁ d₃ := by
  obtain ⟨⟨tr, hrun⟩, -, hkeeps⟩ := h
  obtain ⟨⟨tr', hrun'⟩, hs, hkeeps'⟩ := h'
  refine ⟨⟨_, hrun.trans hrun'⟩, hs, fun j => ?_⟩
  rcases hkeeps' j with hj | hj
  · exact .inl hj
  · exact (hkeeps j).imp hj.trans hj.trans

/-- A statement with no row before it commits, and gives up its locks. -/
theorem leads_commit (hs : Sound db d) {i : Nat} {txn : Txn T κ S} (hi : d.active i = some txn)
    (hp : txn.pending = []) : ∃ d', Leads db d d' ∧ d'.active i = none ∧
      (∀ j, j ≠ i → d'.active j = d.active j) ∧ ∀ k ∈ txn.written, d'.locks k = none := by
  obtain ⟨d', log, hstep⟩ : ∃ d' log, db.step d (.commit i) = some (d', log) :=
    ⟨_, _, by simp only [Dialect.step, Dialect.commit, hi, hp, List.isEmpty_nil, if_true]; rfl⟩
  have hsound := sound_step hs hstep
  obtain ⟨txn', hi', -, -, hd'⟩ := commit_cases hstep
  obtain rfl := Option.some.inj (hi.symm.trans hi')
  have hother : ∀ j, j ≠ i → d'.active j = d.active j := by
    intro j hj
    rw [hd']
    exact Function.update_of_ne hj _ _
  have hself : d'.active i = none := by
    rw [hd']
    exact Function.update_self _ _ _
  have hrun : Run db.step Advances d [log] d' :=
    .single (show Advances d (.commit i) from trivial) hstep
  refine ⟨d', ⟨⟨_, hrun⟩, hsound, fun j => ?_⟩, hself, hother, fun k hk => ?_⟩
  · by_cases hj : j = i
    · exact .inl (hj ▸ hself)
    · exact .inr (hother j hj)
  · rw [hd']
    simp [Database.release, (hs.locked k i).mpr ⟨txn, hi, hk⟩]

/-- Whoever holds the next row of a statement beside single ones has nothing before it. -/
theorem leads_free (hs : Sound db d) {i : Nat} {txn : Txn T κ S} (hi : d.active i = some txn)
    (hothers : ∀ j txn', j ≠ i → d.active j = some txn' → Single db txn'.statement)
    {k : κ} {rest : List κ} (hp : txn.pending = k :: rest) :
    ∃ d', Leads db d d' ∧ d'.active i = some txn ∧ d'.locks k = none := by
  cases hk : d.locks k with
  | none => exact ⟨d, .refl hs, hi, hk⟩
  | some j =>
    obtain ⟨txn', hj, hwritten⟩ := (hs.locked k j).mp hk
    have hji : j ≠ i := by
      rintro rfl
      obtain rfl := Option.some.inj (hi.symm.trans hj)
      have ht := hs.txns j txn hi
      have hnodup := (db.nodup ht.selected).sublist ht.ahead
      exact (List.nodup_append.mp hnodup).2.2 k hwritten k (by simp [hp]) rfl
    obtain ⟨key, test, hrow⟩ := hothers j txn' hji hj
    have hend : txn'.pending = [] := by
      rcases (hs.txns j txn' hj).single_cases hrow with ⟨hp', -⟩ | ⟨-, hw, -⟩ | ⟨hp', -⟩
      · exact hp'
      · rw [hw] at hwritten
        cases hwritten
      · exact hp'
    obtain ⟨d', hleads, -, hother, hfree⟩ := leads_commit hs hj hend
    exact ⟨d', hleads, (hother i hji.symm).trans hi, hfree k hwritten⟩

/-- A statement beside single ones comes to its commit. -/
theorem leads_alone (hs : Sound db d) {i : Nat} {txn : Txn T κ S} (hi : d.active i = some txn)
    (hothers : ∀ j txn', j ≠ i → d.active j = some txn' → Single db txn'.statement) :
    ∃ d', d'.active i = none ∧ Leads db d d' := by
  induction hn : txn.pending.length generalizing d txn with
  | zero =>
    obtain ⟨d', hleads, hnone, -⟩ := leads_commit hs hi (List.eq_nil_of_length_eq_zero hn)
    exact ⟨d', hnone, hleads⟩
  | succ n ih =>
    obtain ⟨k, rest, hp⟩ := List.exists_cons_of_length_eq_add_one hn
    obtain ⟨d₁, hleads, hi₁, hfree⟩ := leads_free hs hi hothers hp
    obtain ⟨d₂, hvisit⟩ : ∃ d₂, db.visit d₁ i = some d₂ := by
      simp only [Dialect.visit, hi₁, hp, hfree, Option.isSome_none, Bool.false_eq_true, if_false]
      split <;> exact ⟨_, rfl⟩
    have hstep : db.step d₁ (.visit i) = some (d₂, []) := by simp [Dialect.step, hvisit]
    obtain ⟨txn₁, k₁, rest₁, hi₁', hp₁, -, hactive⟩ := visit_next hvisit
    obtain rfl := Option.some.inj (hi₁.symm.trans hi₁')
    obtain ⟨rfl, rfl⟩ := List.cons.inj (hp.symm.trans hp₁)
    have hother₂ : ∀ j, j ≠ i → d₂.active j = d₁.active j := by
      intro j hj
      rw [hactive]
      exact Function.update_of_ne hj _ _
    obtain ⟨⟨tr, hrun⟩, hs₁, hkeeps⟩ := hleads
    obtain ⟨d₃, hnone, ⟨tr', hrun'⟩, hs₃, hkeeps'⟩ := ih (sound_step hs₁ hstep)
      (by rw [hactive]; exact Function.update_self _ _ _)
      (fun j txn' hj hjt => by
        rw [hother₂ j hj] at hjt
        rcases hkeeps j with hgone | hsame
        · cases hgone.symm.trans hjt
        · exact hothers j txn' hj (hsame ▸ hjt))
      (by rw [hp] at hn; exact Nat.succ.inj hn)
    have hone : Run db.step Advances d₁ [[]] d₂ :=
      .single (show Advances d₁ (.visit i) from trivial) hstep
    refine ⟨d₃, hnone, ⟨_, (hrun.trans hone).trans hrun'⟩, hs₃, fun j => ?_⟩
    by_cases hj : j = i
    · exact .inl (hj ▸ hnone)
    · rcases hkeeps' j with hgone | hsame
      · exact .inl hgone
      · rw [hsame, hother₂ j hj]
        exact hkeeps j

/-- Of two statements under way at least one is single. -/
def OneMulti (db : Dialect T κ ρ S) (d : Database T κ S) : Prop :=
  ∀ i j txn txn', i ≠ j → d.active i = some txn → d.active j = some txn' →
    Single db txn.statement ∨ Single db txn'.statement

theorem OneMulti.of_leads (h : OneMulti db d) (hleads : Leads db d d') : OneMulti db d' := by
  intro i j txn txn' hij hi hj
  rcases hleads.2.2 i with hgone | hsame
  · cases hgone.symm.trans hi
  · rcases hleads.2.2 j with hgone' | hsame'
    · cases hgone'.symm.trans hj
    · exact h i j txn txn' hij (hsame ▸ hi) (hsame' ▸ hj)

/-- Each statement comes to its commit, a single one after the one that is not. -/
theorem leads_one (hs : Sound db d) (hone : OneMulti db d) (i : Nat) :
    ∃ d', d'.active i = none ∧ Leads db d d' := by
  cases hi : d.active i with
  | none => exact ⟨d, hi, .refl hs⟩
  | some txn =>
    by_cases hmulti : ∃ j txn', j ≠ i ∧ d.active j = some txn' ∧ ¬ Single db txn'.statement
    · obtain ⟨m, txn', hmi, hm, hnot⟩ := hmulti
      obtain ⟨d₁, hnone, hleads⟩ := leads_alone hs hm fun j txn₁ hj hjt =>
        (hone j m txn₁ txn' hj hjt hm).resolve_right hnot
      rcases hleads.2.2 i with hgone | hsame
      · exact ⟨d₁, hgone, hleads⟩
      · obtain ⟨d₂, hnone₂, hleads₂⟩ := leads_alone hleads.2.1 (hsame.trans hi)
          fun j txn₁ hj hjt => by
            rcases hleads.2.2 j with hgone | hsame'
            · cases hgone.symm.trans hjt
            · refine (hone j m txn₁ txn' ?_ (hsame' ▸ hjt) hm).resolve_right hnot
              rintro rfl
              cases hnone.symm.trans hjt
        exact ⟨d₂, hnone₂, hleads.trans hleads₂⟩
    · exact leads_alone hs hi fun j txn' hj hjt =>
        not_not.mp fun hnot => hmulti ⟨j, txn', hj, hjt, hnot⟩

theorem leads_all (hs : Sound db d) (hone : OneMulti db d) (clients : List Nat) :
    ∃ d', (∀ i ∈ clients, d'.active i = none) ∧ Leads db d d' := by
  induction clients generalizing d with
  | nil => exact ⟨d, by simp, .refl hs⟩
  | cons i clients ih =>
    obtain ⟨d₁, hnone, hleads⟩ := leads_one hs hone i
    obtain ⟨d₂, hnone₂, hleads₂⟩ := ih hleads.2.1 (hone.of_leads hleads)
    refine ⟨d₂, fun j hj => ?_, hleads.trans hleads₂⟩
    rcases List.mem_cons.mp hj with rfl | hj
    · exact (hleads₂.2.2 j).elim id fun hsame => hsame.trans hnone
    · exact hnone₂ j hj

/-- A statement that is not single starts only beside single ones. -/
def KeepsOneMulti (db : Dialect T κ ρ S) (d : Database T κ S) (st : S) : Prop :=
  Single db st ∨ ∀ i txn, d.active i = some txn → Single db txn.statement

/-- As long as at most one statement under way is not single, all can be brought to their
commits. -/
theorem run_completes {t : T} {tr : List (List (Change κ ρ S))}
    (h : Run db.step (Starts (KeepsOneMulti db)) { table := t } tr d) (clients : List Nat) :
    ∃ tr' d', Run db.step Advances d tr' d' ∧ ∀ i ∈ clients, d'.active i = none := by
  have hone : OneMulti db d := by
    refine h.invariant (I := fun _ d => OneMulti db d) (fun i j txn txn' _ hi => by cases hi) ?_
    intro tr d d' l log _ hone hl hs i j txn txn' hij hi hj
    rcases active_step hs hi with ⟨txn₁, hi₁, heq⟩ | ⟨selected, rfl⟩ <;>
      rcases active_step hs hj with ⟨txn₂, hj₂, heq'⟩ | ⟨selected', hl'⟩
    · exact heq ▸ heq' ▸ hone i j txn₁ txn₂ hij hi₁ hj₂
    · subst hl'
      exact hl.symm.imp (fun hall => heq ▸ hall i txn₁ hi₁) id
    · exact hl.imp id fun hall => heq' ▸ hall j txn₂ hj₂
    · injection hl' with hi'
      exact absurd hi' hij
  obtain ⟨d', hnone, ⟨tr', hrun⟩, -⟩ := leads_all (sound_run h) hone clients
  exact ⟨tr', d', hrun, hnone⟩

end

end JobFlow.Lib.ReadCommitted
