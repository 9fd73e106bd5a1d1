import Mathlib.Data.List.Basic

/-!
# Loops that an error ends

An asynchronous function changes a state and may fail, and what it did before it failed
stays done. A loop of awaited calls ends with the first that fails.
-/

namespace JobFlow.Lib.Loop

variable {ε σ α β γ : Type}

abbrev Async (ε σ : Type) := ExceptT ε (StateM σ)

/-- The result and the state that is left. -/
def run (t : Async ε σ α) (s : σ) : Except ε α × σ := StateT.run (ExceptT.run t) s

/-- `try`, with a `finally` that only changes the state. -/
def tryFinally (t : Async ε σ α) (f : σ → σ) : Async ε σ α :=
  ExceptT.mk fun s => ((run t s).1, f (run t s).2)

@[simp] theorem run_pure (a : α) (s : σ) : run (pure a : Async ε σ α) s = (.ok a, s) := rfl

@[simp] theorem run_modify (f : σ → σ) (s : σ) :
    run (modify f : Async ε σ PUnit) s = (.ok ⟨⟩, f s) := rfl

@[simp] theorem run_get (s : σ) : run (get : Async ε σ σ) s = (.ok s, s) := rfl

@[simp] theorem run_tryFinally (t : Async ε σ α) (f : σ → σ) (s : σ) :
    run (tryFinally t f) s = ((run t s).1, f (run t s).2) := rfl

theorem run_bind (t : Async ε σ α) (f : α → Async ε σ β) (s : σ) :
    run (t >>= f) s =
      match run t s with
      | (.ok a, s') => run (f a) s'
      | (.error e, s') => (.error e, s') := by
  rw [run, ExceptT.run_bind, StateT.run_bind]
  rcases h : run t s with ⟨_ | _, _⟩
  · rw [run] at h
    rw [h]
    rfl
  · rw [run] at h
    rw [h]
    rfl

/-- What is read of the state that is left, when the rest does not change it. -/
theorem read_bind {t : Async ε σ α} {f : α → Async ε σ β} (read : σ → γ)
    (h : ∀ a s, read (run (f a) s).2 = read s) (s : σ) :
    read (run (t >>= f) s).2 = read (run t s).2 := by
  rw [run_bind]
  rcases run t s with ⟨_ | a, s'⟩
  · rfl
  · exact h a s'

section Attempts

variable {ok : α → Prop} [DecidablePred ok]

variable (ok) in
/-- What a loop over a list gets to, when it is left after the first that is not `ok`. -/
def attempted : List α → List α
  | [] => []
  | a :: rest => if ok a then a :: attempted rest else [a]

theorem prefix_attempted (l : List α) : attempted ok l <+: l := by
  induction l with
  | nil => exact List.prefix_rfl
  | cons a rest ih =>
    rw [attempted]
    split_ifs
    · exact (List.prefix_cons_inj a).mpr ih
    · exact ⟨rest, rfl⟩

variable (ok) in
/-- A loop gets to everything exactly when all before the last are `ok`. -/
theorem attempted_eq_self_iff (l : List α) : attempted ok l = l ↔ ∀ a ∈ l.dropLast, ok a := by
  induction l with
  | nil => simp [attempted]
  | cons a rest ih =>
    cases rest with
    | nil => simp [attempted]
    | cons b rest =>
      rw [attempted, List.dropLast_cons_cons, List.forall_mem_cons]
      split_ifs with h
      · rw [List.cons_inj_right, ih, and_iff_right h]
      · exact iff_of_false (by simp) fun hall => h hall.1

/-- The state keeps a log, and a call of `f` writes one entry and fails unless its argument
is `ok`. A loop of such calls writes the entries of what it gets to. -/
theorem log_forM {f : α → Async ε σ PUnit} (log : σ → List β) {entry : α → β}
    (hlog : ∀ a s, log (run (f a) s).2 = log s ++ [entry a])
    (hok : ∀ a s, (run (f a) s).1.isOk ↔ ok a) (l : List α) (s : σ) :
    log (run (forM l f) s).2 = log s ++ (attempted ok l).map entry := by
  induction l generalizing s with
  | nil => simp [attempted]
  | cons a rest ih =>
    have hentry := hlog a s
    have hresult := hok a s
    rw [List.forM_cons, run_bind, attempted]
    rcases hrun : run (f a) s with ⟨_ | _, s'⟩
    · rw [hrun] at hentry hresult
      rw [if_neg fun h => Bool.false_ne_true (hresult.mpr h)]
      exact hentry
    · rw [hrun] at hentry hresult
      rw [if_pos (hresult.mp rfl), ih, hentry, List.map_cons, List.append_assoc]
      rfl

end Attempts

end JobFlow.Lib.Loop
