import JobFlow.Lib.Grouping
import JobFlow.Model.Dashboard

/-!
# `JobRepository.Stats`

It reads what its two queries deliver row by row. `Next` returns false at the end and on an error
alike; only `Err` tells one from the other, and `Stats` does not ask it.
-/

namespace JobFlow.Model

open JobFlow.Lib.Grouping
open JobFlow.Model.JobRepository (JobTable)

/-- `pgx.Rows`: what `Scan` gives for each row that `Next` steps to, and what `Err` reports
after that. -/
structure Rows (α : Type) where
  scanned : List (Except Err α)
  err : Option Err

/-- `for rows.Next()` with a `Scan` whose error is returned. -/
def eachRow {α β : Type} (body : β → α → β) : β → List (Except Err α) → Except Err β
  | acc, [] => .ok acc
  | acc, .ok row :: rows => eachRow body (body acc row) rows
  | _, .error e :: _ => .error e

namespace JobRepository

/-- `byStatus[status] = count; total += count` -/
def addStatus (acc : Sizes String × Nat) (row : String × Nat) : Sizes String × Nat :=
  (acc.1.insert row.1 row.2, acc.2 + row.2)

/-- `byType[typ] = count` -/
def addType (byType : Sizes String) (row : String × Nat) : Sizes String :=
  byType.insert row.1 row.2

/-- The arguments are what the two calls of `Query` return. -/
def stats (statusRows typeRows : Except Err (Rows (String × Nat))) :
    Except Err (Sizes String × Sizes String) := do
  let statusRows ← statusRows
  let (byStatus, total) ← eachRow addStatus (∅, 0) statusRows.scanned
  let byStatus := byStatus.insert "total" total
  let typeRows ← typeRows
  let byType ← eachRow addType ∅ typeRows.scanned
  return (byStatus, byType)

end JobRepository

/-- What a call of `Query` can return for a statement with the given answer, whose order SQL
leaves open. The rows may break off anywhere, and then `Err` reports an error. -/
inductive Answers {α : Type} (answer : List α) : Except Err (Rows α) → Prop
  | refused (e : Err) : Answers answer (.error e)
  | rows {order : List α} {rows : Rows α} (hperm : order.Perm answer)
      (hscan : List.Forall₂ (fun scan row => scan = .ok row ∨ ∃ e, scan = .error e)
        rows.scanned (order.take rows.scanned.length))
      (hend : rows.err = none → rows.scanned.length = answer.length) : Answers answer (.ok rows)

/-- `Query` or a `Scan` returns an error. -/
def Fails {α : Type} : Except Err (Rows α) → Prop
  | .error _ => True
  | .ok rows => ∃ e, .error e ∈ rows.scanned

/-- Every row of the answer is delivered, whatever `Err` reports then. -/
def Delivers {α : Type} (answer : List α) : Except Err (Rows α) → Prop
  | .error _ => False
  | .ok rows => rows.scanned.length = answer.length

variable {α β : Type}

theorem eachRow_ok (body : β → α → β) (acc : β) (rows : List α) :
    eachRow body acc (rows.map .ok) = .ok (rows.foldl body acc) := by
  induction rows generalizing acc with
  | nil => rfl
  | cons row rows ih => exact ih (body acc row)

theorem eachRow_error (body : β → α → β) (acc : β) {scanned : List (Except Err α)} {e : Err}
    (h : .error e ∈ scanned) : ∃ e', eachRow body acc scanned = .error e' := by
  induction scanned generalizing acc with
  | nil => cases h
  | cons scan scanned ih =>
    cases scan with
    | error e' => exact ⟨e', rfl⟩
    | ok row => exact ih (body acc row) ((List.mem_cons.mp h).resolve_left (by simp))

theorem scanned_eq {scanned : List (Except Err α)} {rows : List α}
    (h : List.Forall₂ (fun scan row => scan = .ok row ∨ ∃ e, scan = .error e) scanned rows)
    (hno : ¬ ∃ e, .error e ∈ scanned) : scanned = rows.map .ok := by
  induction h with
  | nil => rfl
  | @cons scan row scanned rows hscan _ ih =>
    rcases hscan with rfl | ⟨e, rfl⟩
    · rw [List.map_cons, ih fun ⟨e, he⟩ => hno ⟨e, List.mem_cons_of_mem _ he⟩]
    · exact absurd ⟨e, List.mem_cons_self⟩ hno

/-- Rows that all scan are as far as they go what the answer has in some order. -/
theorem Answers.scanned {answer : List α} {rows : Rows α} (h : Answers answer (.ok rows)) :
    (∃ e, .error e ∈ rows.scanned) ∨ ∃ order : List α, order.Perm answer ∧
      rows.scanned = (order.take rows.scanned.length).map .ok ∧
      rows.scanned.length ≤ answer.length := by
  cases h with
  | @rows order rows hperm hscan hend =>
    by_cases herr : ∃ e, .error e ∈ rows.scanned
    · exact .inl herr
    · refine .inr ⟨order, hperm, ?_, ?_⟩
      · exact scanned_eq hscan herr
      · have hlength := hscan.length_eq
        rw [List.length_take] at hlength
        have horder := hperm.length_eq
        omega

end JobFlow.Model
