import JobFlow.Model.Job
import Mathlib.Logic.Relation

/-!
# The life of a job, abstractly

What a job goes through as its owner sees it, with nothing about tables,
queues or processes: a graph on statuses, where `none` is a job that has not
been created. A history of a job is a path of this graph.
-/

namespace JobFlow.Abstract.Lifecycle

open JobFlow.Model (Status)
open Relation (ReflTransGen)

inductive Edge : Option Status → Option Status → Prop
  | createQueued : Edge none (some .queued)
  | createScheduled : Edge none (some .scheduled)
  | promote : Edge (some .scheduled) (some .queued)
  | cancelScheduled : Edge (some .scheduled) (some .cancelled)
  | start : Edge (some .queued) (some .running)
  | cancelQueued : Edge (some .queued) (some .cancelled)
  | restart : Edge (some .retrying) (some .running)
  | cancelRetrying : Edge (some .retrying) (some .cancelled)
  | complete : Edge (some .running) (some .completed)
  | fail : Edge (some .running) (some .retrying)
  | exhaust : Edge (some .running) (some .deadLetter)
  | revive : Edge (some .deadLetter) (some .queued)

/-- Completed and cancelled jobs have no further history. -/
def Final (st : Option Status) : Prop := st = some .completed ∨ st = some .cancelled

theorem Final.no_edge {st st' : Option Status} (h : Final st) : ¬ Edge st st' := by
  rintro ⟨⟩ <;> rcases h with h | h <;> cases h

theorem Final.absorbing {st st' : Option Status} (h : Final st) (hp : ReflTransGen Edge st st') :
    st' = st := by
  induction hp with
  | refl => rfl
  | tail _ he ih => exact absurd (ih ▸ he) h.no_edge

/-- No edge enters the status `failed`. -/
theorem no_edge_failed {st : Option Status} : ¬ Edge st (some .failed) := by
  rintro ⟨⟩

end JobFlow.Abstract.Lifecycle
