import JobFlow.Lib.Transition
import Mathlib.Data.List.Forall2

/-!
# Two executions side by side

If related states answer related labels with related observations and related next
states, then executions of related lists of labels are observed alike. With equality
on labels and observations this is the unwinding argument: whoever sees only the
observations cannot tell related states apart.
-/

namespace JobFlow.Lib.Transition

variable {σ σ' ι ι' α α' : Type*}

/-- What one step does in related states under related labels. -/
def Unwinds (step : Machine σ ι α) (step' : Machine σ' ι' α') (ok : σ → ι → Prop)
    (ok' : σ' → ι' → Prop) (R : σ → σ' → Prop) (L : ι → ι' → Prop) (O : α → α' → Prop) : Prop :=
  ∀ {s s' l l' t a}, R s s' → L l l' → ok s l → ok' s' l' → step s l = some (t, a) →
    ∃ t' a', step' s' l' = some (t', a') ∧ R t t' ∧ O a a'

theorem admitted_cons {step : Machine σ ι α} {ok : σ → ι → Prop} {s t : σ} {l : ι} {ls : List ι}
    {a : α} (h : Admitted step ok s (l :: ls)) (hs : step s l = some (t, a)) :
    ok s l ∧ Admitted step ok t ls := by
  obtain ⟨hok, hrest⟩ := h
  rw [hs] at hrest
  exact ⟨hok, hrest⟩

theorem execute_step {step : Machine σ ι α} {s t u : σ} {l : ι} {ls : List ι} {a : α}
    {tr : List α} (hs : step s l = some (t, a)) (he : execute step t ls = some (u, tr)) :
    execute step s (l :: ls) = some (u, a :: tr) := by
  simp [execute, hs, he]

theorem Unwinds.execute {step : Machine σ ι α} {step' : Machine σ' ι' α'} {ok : σ → ι → Prop}
    {ok' : σ' → ι' → Prop} {R : σ → σ' → Prop} {L : ι → ι' → Prop} {O : α → α' → Prop}
    (hu : Unwinds step step' ok ok' R L O) {s t : σ} {s' : σ'} {ls : List ι} {ls' : List ι'}
    {tr : List α} (hR : R s s') (hL : List.Forall₂ L ls ls') (hok : Admitted step ok s ls)
    (hok' : Admitted step' ok' s' ls') (h : Transition.execute step s ls = some (t, tr)) :
    ∃ t' tr', Transition.execute step' s' ls' = some (t', tr') ∧ R t t' ∧
      List.Forall₂ O tr tr' := by
  induction hL generalizing s s' tr with
  | nil =>
    cases h
    exact ⟨s', [], rfl, hR, .nil⟩
  | cons hl _ ih =>
    obtain ⟨s₁, a, tr₁, hs, he, rfl⟩ := execute_cons h
    obtain ⟨hnow, hlater⟩ := admitted_cons hok hs
    obtain ⟨s₁', a', hs', hR₁, hO⟩ := hu hR hl hnow hok'.1 hs
    obtain ⟨t', tr', he', hRt, hOs⟩ := ih hR₁ hlater (admitted_cons hok' hs').2 he
    exact ⟨t', a' :: tr', execute_step hs' he', hRt, .cons hO hOs⟩

/-- Two machines that take their steps together. -/
def both (step : Machine σ ι α) (step' : Machine σ' ι' α') :
    Machine (σ × σ') (ι × ι') (α × α') := fun s l =>
  match step s.1 l.1, step' s.2 l.2 with
  | some (t, a), some (t', a') => some ((t, t'), (a, a'))
  | _, _ => none

theorem both_eq_some {step : Machine σ ι α} {step' : Machine σ' ι' α'} {s t : σ × σ'}
    {l : ι × ι'} {a : α × α'} : both step step' s l = some (t, a) ↔
      step s.1 l.1 = some (t.1, a.1) ∧ step' s.2 l.2 = some (t.2, a.2) := by
  unfold both
  cases h : step s.1 l.1 <;> cases h' : step' s.2 l.2 <;> simp [Prod.ext_iff]
  tauto

/-- Executions of the two machines are a run of both, whose steps meet what the pairs of
labels meet and what the execution side by side is admitted under. -/
theorem Run.both {step : Machine σ ι α} {step' : Machine σ' ι' α'} {L : ι → ι' → Prop}
    {ok : σ × σ' → ι × ι' → Prop} {s t : σ} {s' t' : σ'} {ls : List ι} {ls' : List ι'}
    {tr : List α} {tr' : List α'} (hL : List.Forall₂ L ls ls') (h : execute step s ls = some (t, tr))
    (h' : execute step' s' ls' = some (t', tr'))
    (hok : Admitted (Transition.both step step') ok (s, s') (ls.zip ls')) :
    ∃ tr₂, Run (Transition.both step step') (fun p l => L l.1 l.2 ∧ ok p l) (s, s') tr₂ (t, t') := by
  induction hL generalizing s s' tr tr' with
  | nil =>
    cases h
    cases h'
    exact ⟨[], .start⟩
  | @cons l l' _ _ hl _ ih =>
    obtain ⟨s₁, a, tr₁, hs, he, -⟩ := execute_cons h
    obtain ⟨s₁', a', tr₁', hs', he', -⟩ := execute_cons h'
    have hstep : Transition.both step step' (s, s') (l, l') = some ((s₁, s₁'), (a, a')) :=
      both_eq_some.mpr ⟨hs, hs'⟩
    obtain ⟨hnow, hlater⟩ := admitted_cons hok hstep
    obtain ⟨tr₂, hr⟩ := ih he he' hlater
    have hfirst : Run (Transition.both step step') (fun p l => L l.1 l.2 ∧ ok p l) (s, s')
        [(a, a')] (s₁, s₁') := Run.single ⟨hl, hnow⟩ hstep
    exact ⟨_, hfirst.trans hr⟩

end JobFlow.Lib.Transition
