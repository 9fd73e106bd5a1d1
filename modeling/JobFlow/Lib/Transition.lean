import Mathlib.Data.List.Basic
import Mathlib.Logic.Relation
import Mathlib.Order.WellFounded

/-!
# Runs of a partial labelled step function

A machine is a partial function from a state and a label to the next state and
one observation. A run records the observations in the order they were made,
one for each step, and may restrict which steps are taken. Everything here is
about arbitrary state, label and observation types.
-/

namespace JobFlow.Lib.Transition

variable {σ ι α τ : Type*}

/-- One step: the next state and what is observed of the step. -/
abbrev Machine (σ ι α : Type*) := σ → ι → Option (σ × α)

/-- The finite runs from `s₀` whose steps all satisfy `ok`, with their history. -/
inductive Run (step : Machine σ ι α) (ok : σ → ι → Prop) (s₀ : σ) : List α → σ → Prop
  | start : Run step ok s₀ [] s₀
  | next {tr : List α} {s s' : σ} {l : ι} {a : α} : Run step ok s₀ tr s → ok s l →
      step s l = some (s', a) → Run step ok s₀ (tr ++ [a]) s'

/-- A step that shows a view of its next state shows what it leads to. -/
theorem map_view_eq_some {view : σ → α} {o : Option σ} {s : σ} {a : α} :
    (o.map fun s' => (s', view s')) = some (s, a) ↔ o = some s ∧ view s = a := by
  cases o with
  | none => simp
  | some s' =>
    rw [Option.map_some, Option.some.injEq, Option.some.injEq, Prod.mk.injEq]
    exact and_congr_right fun h => by rw [h]

/-- The condition that admits every step. -/
def anyStep : σ → ι → Prop := fun _ _ => True

namespace Run

variable {step : Machine σ ι α} {ok ok' : σ → ι → Prop} {s₀ s : σ} {tr : List α}

/-- A property of history and state that every step keeps holds of every run.
The step may use that its source state was itself reached by a run. -/
theorem invariant {I : List α → σ → Prop} (hrun : Run step ok s₀ tr s) (h0 : I [] s₀)
    (hstep : ∀ {tr s s' l a}, Run step ok s₀ tr s → I tr s → ok s l →
      step s l = some (s', a) → I (tr ++ [a]) s') : I tr s := by
  induction hrun with
  | start => exact h0
  | next hr ho hs ih => exact hstep hr ih ho hs

/-- A condition that holds of every step of a run may be required of it. -/
theorem strengthen (hrun : Run step ok s₀ tr s)
    (h : ∀ {tr s l}, Run step ok s₀ tr s → ok s l → ok' s l) : Run step ok' s₀ tr s := by
  induction hrun with
  | start => exact .start
  | next hr ho hs ih => exact .next ih (h hr ho) hs

/-- A weaker condition on the steps admits at least the same runs. -/
theorem mono (hrun : Run step ok s₀ tr s) (h : ∀ s l, ok s l → ok' s l) :
    Run step ok' s₀ tr s := hrun.strengthen fun _ => h _ _

theorem any (hrun : Run step ok s₀ tr s) : Run step anyStep s₀ tr s :=
  hrun.mono fun _ _ _ => trivial

theorem single {l : ι} {s' : σ} {a : α} (ho : ok s l) (hs : step s l = some (s', a)) :
    Run step ok s [a] s' := .next .start ho hs

theorem trans {s' : σ} {tr' : List α} (h : Run step ok s₀ tr s) (h' : Run step ok s tr' s') :
    Run step ok s₀ (tr ++ tr') s' := by
  induction h' with
  | start => simpa using h
  | next _ ho hs ih =>
    rw [← List.append_assoc]
    exact .next ih ho hs

/-- A history that splits comes from a run that passes through a middle state. -/
theorem split (before : List α) {after : List α} (h : Run step ok s₀ (before ++ after) s) :
    ∃ m, Run step ok s₀ before m ∧ Run step ok m after s := by
  generalize htr : before ++ after = tr at h
  induction h generalizing after with
  | start =>
    obtain ⟨rfl, rfl⟩ := List.append_eq_nil_iff.mp htr
    exact ⟨s₀, .start, .start⟩
  | @next tr s s' l a hr ho hs ih =>
    rcases List.eq_nil_or_concat after with rfl | ⟨after', b, rfl⟩
    · rw [List.append_nil] at htr
      subst htr
      exact ⟨s', .next hr ho hs, .start⟩
    · rw [List.concat_eq_append, ← List.append_assoc] at htr
      obtain ⟨hp, hb⟩ := List.append_inj' htr rfl
      obtain ⟨m, h1, h2⟩ := ih hp
      obtain rfl := List.singleton_inj.mp hb
      rw [List.concat_eq_append]
      exact ⟨m, h1, .next h2 ho hs⟩

/-- Every observation of a run was made by an admitted step from a state that
a shorter run of the same machine reaches. -/
theorem observed {before after : List α} {a : α}
    (h : Run step ok s₀ (before ++ a :: after) s) :
    ∃ m l m', Run step ok s₀ before m ∧ ok m l ∧ step m l = some (m', a) ∧
      Run step ok m' after s := by
  obtain ⟨m', h1, h2⟩ := split (before ++ [a]) (by simpa using h)
  generalize htr : before ++ [a] = tr at h1
  cases h1 with
  | start => simp at htr
  | next hr ho hs =>
    obtain ⟨rfl, hb⟩ := List.append_inj' htr rfl
    obtain rfl := List.singleton_inj.mp hb
    exact ⟨_, _, _, hr, ho, hs, h2⟩

/-- A map of states under which every step is one abstract move or none turns
a run into a path of abstract moves. -/
theorem simulates {R : τ → τ → Prop} (abs : σ → τ) (hrun : Run step ok s₀ tr s)
    (h : ∀ {tr s s' l a}, Run step ok s₀ tr s → ok s l → step s l = some (s', a) →
      abs s' = abs s ∨ R (abs s) (abs s')) :
    Relation.ReflTransGen R (abs s₀) (abs s) := by
  induction hrun with
  | start => exact .refl
  | next hr ho hs ih =>
    rcases h hr ho hs with heq | hmove
    · rwa [heq]
    · exact ih.tail hmove

/-- A view of the state that every step updates from its observation alone is a
fold of the history. -/
theorem foldl_view {hear : τ → α → τ} (view : σ → τ) (hrun : Run step ok s₀ tr s)
    (h : ∀ {tr s s' l a}, Run step ok s₀ tr s → step s l = some (s', a) →
      view s' = hear (view s) a) : view s = tr.foldl hear (view s₀) := by
  induction hrun with
  | start => rfl
  | next hr _ hs ih => rw [List.foldl_append, ← ih, h hr hs, List.foldl_cons, List.foldl_nil]

end Run

/-- A relation under which every step is answered by a run of another machine that shows
the same turns a run into a run of that machine that shows the same. -/
theorem Run.answered {σ' ι' : Type*} {step : Machine σ ι (List α)}
    {step' : Machine σ' ι' (List α)} {ok : σ → ι → Prop} {ok' : σ' → ι' → Prop} {s₀ s : σ}
    {t₀ : σ'} {tr : List (List α)} (R : σ → σ' → Prop) (hrun : Run step ok s₀ tr s)
    (h0 : R s₀ t₀)
    (hstep : ∀ {tr s s' l a t}, Run step ok s₀ tr s → R s t → ok s l → step s l = some (s', a) →
      ∃ tr' t', Run step' ok' t tr' t' ∧ tr'.flatten = a ∧ R s' t') :
    ∃ tr' t, Run step' ok' t₀ tr' t ∧ tr'.flatten = tr.flatten ∧ R s t := by
  induction hrun with
  | start => exact ⟨[], t₀, .start, rfl, h0⟩
  | next hr ho hs ih =>
    obtain ⟨tr₁, t, hrun, hflat, hR⟩ := ih
    obtain ⟨tr₂, t', hrun', hflat', hR'⟩ := hstep hr hR ho hs
    refine ⟨tr₁ ++ tr₂, t', hrun.trans hrun', ?_, hR'⟩
    rw [List.flatten_append, List.flatten_append, hflat, hflat', List.flatten_singleton]

/-- Where runs can take a measure down for as long as the goal does not hold, some run
reaches the goal. -/
theorem Run.eventually {step : Machine σ ι α} {ok : σ → ι → Prop} {good goal : σ → Prop}
    {β : Type*} [Preorder β] [WellFoundedLT β] (measure : σ → β)
    (h : ∀ s, good s → goal s ∨
      ∃ tr s', Run step ok s tr s' ∧ good s' ∧ measure s' < measure s) {s : σ} (hs : good s) :
    ∃ tr s', Run step ok s tr s' ∧ good s' ∧ goal s' := by
  induction s using (InvImage.wf measure wellFounded_lt).induction with
  | _ s ih =>
    rcases h s hs with hgoal | ⟨tr, s₁, hrun, hgood, hlt⟩
    · exact ⟨[], s, .start, hs, hgoal⟩
    · obtain ⟨tr', s', hrun', hgood', hgoal⟩ := ih s₁ hlt hgood
      exact ⟨tr ++ tr', s', hrun.trans hrun', hgood', hgoal⟩

/-- Execute a list of labels; `none` when one of them is not enabled. -/
def execute (step : Machine σ ι α) : σ → List ι → Option (σ × List α)
  | s, [] => some (s, [])
  | s, l :: ls => do
    let (s₁, a) ← step s l
    let (s₂, tr) ← execute step s₁ ls
    return (s₂, a :: tr)

/-- The condition `ok` at every step of an execution. -/
def Admitted (step : Machine σ ι α) (ok : σ → ι → Prop) : σ → List ι → Prop
  | _, [] => True
  | s, l :: ls => ok s l ∧
    match step s l with
    | none => True
    | some (s', _) => Admitted step ok s' ls

instance decidableAdmitted (step : Machine σ ι α) (ok : σ → ι → Prop)
    [∀ s l, Decidable (ok s l)] : ∀ s ls, Decidable (Admitted step ok s ls)
  | _, [] => .isTrue trivial
  | s, l :: ls =>
    let _rest : Decidable (match step s l with
        | none => True
        | some (s', _) => Admitted step ok s' ls) :=
      match step s l with
      | none => .isTrue trivial
      | some (s', _) => decidableAdmitted step ok s' ls
    inferInstanceAs (Decidable (ok s l ∧ _))

theorem execute_cons {step : Machine σ ι α} {s s₂ : σ} {l : ι} {ls : List ι} {tr : List α}
    (h : execute step s (l :: ls) = some (s₂, tr)) :
    ∃ s₁ a tr', step s l = some (s₁, a) ∧ execute step s₁ ls = some (s₂, tr') ∧ tr = a :: tr' := by
  simp only [execute, Option.bind_eq_bind, Option.bind_eq_some_iff] at h
  obtain ⟨⟨s₁, a⟩, hs, ⟨s₂', tr'⟩, he, hp⟩ := h
  cases hp
  exact ⟨s₁, a, tr', hs, he, rfl⟩

theorem Run.of_execute {step : Machine σ ι α} {ok : σ → ι → Prop} {s s' : σ} {ls : List ι}
    {tr : List α} (h : execute step s ls = some (s', tr)) (ho : Admitted step ok s ls) :
    Run step ok s tr s' := by
  induction ls generalizing s tr with
  | nil =>
    cases h
    exact .start
  | cons l ls ih =>
    obtain ⟨s₁, a, tr', hs, he, rfl⟩ := execute_cons h
    obtain ⟨hok, hrest⟩ := ho
    rw [hs] at hrest
    exact (Run.single hok hs).trans (ih he hrest)

/-- The final state and the history of an execution that goes through. -/
def outcome (step : Machine σ ι α) (s : σ) (l : List ι) (h : (execute step s l).isSome) :
    σ × List α := (execute step s l).get h

theorem Run.of_outcome {step : Machine σ ι α} {ok : σ → ι → Prop} {s : σ} {l : List ι}
    (h : (execute step s l).isSome) (ho : Admitted step ok s l) :
    Run step ok s (outcome step s l h).2 (outcome step s l h).1 :=
  Run.of_execute (Option.some_get h).symm ho

theorem admitted_anyStep {step : Machine σ ι α} (s : σ) (ls : List ι) :
    Admitted step anyStep s ls := by
  induction ls generalizing s with
  | nil => trivial
  | cons l ls ih =>
    refine ⟨trivial, ?_⟩
    split
    · trivial
    · exact ih _

end JobFlow.Lib.Transition
