import JobFlow.Model.System

/-!
# Reading the history of a run

The history lists what each step did, oldest first. The functions here count
and locate the statements and executions of one job in it; each has the lemma
for one more step, which is all that an induction on runs uses.
-/

namespace JobFlow.Runs.History

open JobFlow.Model

variable (id : String)

/-- A `MarkRunning` of the job took effect. -/
def isStart : Act → Bool
  | .markedRunning _ i _ => i = id
  | _ => false

/-- A `Requeue` of the job took effect, which is when a `Retry` has succeeded. -/
def isRequeue : Act → Bool
  | .requeued i => i = id
  | _ => false

/-- `Process` returned no error for the job. -/
def isSuccess : Act → Bool
  | .processReturned _ i success => i = id && success
  | _ => false

def starts (tr : List Act) : Nat := tr.countP (isStart id)

def requeues (tr : List Act) : Nat := tr.countP (isRequeue id)

def successes (tr : List Act) : Nat := tr.countP (isSuccess id)

/-- The `MarkRunning` statements after the last `Requeue` of the job, or all of them. -/
def startsSince (tr : List Act) : Nat :=
  tr.foldl (fun n a => if isRequeue id a then 0 else if isStart id a then n + 1 else n) 0

@[simp] theorem starts_nil : starts id [] = 0 := rfl
@[simp] theorem requeues_nil : requeues id [] = 0 := rfl
@[simp] theorem successes_nil : successes id [] = 0 := rfl
@[simp] theorem startsSince_nil : startsSince id [] = 0 := rfl

@[simp] theorem starts_snoc (tr : List Act) (a : Act) :
    starts id (tr ++ [a]) = starts id tr + if isStart id a then 1 else 0 := by
  simp [starts, List.countP_append, List.countP_singleton]

@[simp] theorem requeues_snoc (tr : List Act) (a : Act) :
    requeues id (tr ++ [a]) = requeues id tr + if isRequeue id a then 1 else 0 := by
  simp [requeues, List.countP_append, List.countP_singleton]

@[simp] theorem successes_snoc (tr : List Act) (a : Act) :
    successes id (tr ++ [a]) = successes id tr + if isSuccess id a then 1 else 0 := by
  simp [successes, List.countP_append, List.countP_singleton]

@[simp] theorem startsSince_snoc (tr : List Act) (a : Act) :
    startsSince id (tr ++ [a]) =
      if isRequeue id a then 0 else if isStart id a then startsSince id tr + 1
      else startsSince id tr := by
  simp [startsSince, List.foldl_append]

/-- The statement of goroutine `p` that ends an execution of the job took effect. -/
def isEnd (p : Pid) : Act → Bool
  | .markedCompleted q i => q = p && i = id
  | .markedFailed q i _ _ _ => q = p && i = id
  | _ => false

/-- Goroutine `p` is between its `MarkRunning` of the job and the moment its own
`MarkCompleted` or `MarkFailed` takes effect. -/
def Executing (p : Pid) (tr : List Act) : Prop :=
  ∃ before now after, tr = before ++ .markedRunning p id now :: after ∧
    ∀ a ∈ after, isEnd id p a = false

theorem not_executing_nil (p : Pid) : ¬ Executing id p [] := by
  rintro ⟨before, now, after, h, _⟩
  simp at h

theorem executing_snoc (p : Pid) (tr : List Act) (a : Act) :
    Executing id p (tr ++ [a]) ↔
      (∃ now, a = .markedRunning p id now) ∨ (Executing id p tr ∧ isEnd id p a = false) := by
  constructor
  · rintro ⟨before, now, after, h, hend⟩
    rcases List.eq_nil_or_concat after with rfl | ⟨after, b, rfl⟩
    · obtain ⟨-, hb⟩ := List.append_inj' h rfl
      exact .inl ⟨now, by simpa using hb⟩
    · rw [List.concat_eq_append, ← List.cons_append, ← List.append_assoc] at h
      obtain ⟨htr, hb⟩ := List.append_inj' h rfl
      obtain rfl : a = b := by simpa using hb
      exact .inr ⟨⟨before, now, after, htr, fun x hx => hend x (by simp [hx])⟩,
        hend a (by simp)⟩
  · rintro (⟨now, rfl⟩ | ⟨⟨before, now, after, rfl, hend⟩, ha⟩)
    · exact ⟨tr, now, [], rfl, by simp⟩
    · refine ⟨before, now, after ++ [a], by simp, ?_⟩
      intro x hx
      rcases List.mem_append.mp hx with hx | hx
      · exact hend x hx
      · rwa [List.mem_singleton.mp hx]

end JobFlow.Runs.History
