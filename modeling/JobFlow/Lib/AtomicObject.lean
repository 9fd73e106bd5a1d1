import JobFlow.Lib.Transition
import Mathlib.Logic.Function.Basic

/-!
# Objects whose operations take effect at one instant

A client invokes an operation, which has its effect on the object some time later, all at
once, and is answered after that. A client may give an operation up that has changed
nothing. What can be seen from outside are the invocations, the answers and the operations
given up, so an implementation whose every history is one of such an object is
linearizable. Objects, operations and answers are arbitrary.
-/

namespace JobFlow.Lib.AtomicObject

open JobFlow.Lib.Transition

variable {T S A : Type*}

/-- What is seen from outside. -/
inductive Action (S A : Type*) where
  | invoke (i : Nat) (operation : S)
  | answer (i : Nat) (result : A)
  | abort (i : Nat)

/-- An operation under way, with its result once it has had its effect. -/
structure Call (S A : Type*) where
  operation : S
  result : Option A := none

structure Object (T S A : Type*) where
  content : T
  calls : Nat → Option (Call S A) := fun _ => none

inductive Move (S : Type*) where
  | invoke (i : Nat) (operation : S)
  | effect (i : Nat)
  | answer (i : Nat)
  | abort (i : Nat)

/-- The object as a machine, from what an operation does to the content and which results
say that it has changed nothing. -/
def step (effect : S → T → T × A) (idle : A → Bool) :
    Machine (Object T S A) (Move S) (List (Action S A)) := fun o l =>
  match l with
  | .invoke i operation =>
    if (o.calls i).isNone then
      some ({ o with calls := Function.update o.calls i (some { operation }) },
        [.invoke i operation])
    else none
  | .effect i =>
    match o.calls i with
    | some ⟨operation, none⟩ =>
      some ({ content := (effect operation o.content).1
              calls := Function.update o.calls i
                (some ⟨operation, some (effect operation o.content).2⟩) }, [])
    | _ => none
  | .answer i =>
    match o.calls i with
    | some ⟨_, some result⟩ =>
      some ({ o with calls := Function.update o.calls i none }, [.answer i result])
    | _ => none
  | .abort i =>
    if (o.calls i).any fun call => call.result.all idle then
      some ({ o with calls := Function.update o.calls i none }, [.abort i])
    else none

variable (effect : S → T → T × A) (idle : A → Bool) {o : Object T S A} {i : Nat}

theorem run_invoke (hi : o.calls i = none) (operation : S) :
    Run (step effect idle) anyStep o [[.invoke i operation]]
      { o with calls := Function.update o.calls i (some { operation }) } :=
  .single (l := .invoke i operation) trivial (by simp [step, hi])

theorem run_effect {operation : S} (hi : o.calls i = some { operation }) {content : T} {result : A}
    (he : effect operation o.content = (content, result)) :
    Run (step effect idle) anyStep o [[]]
      { content, calls := Function.update o.calls i (some ⟨operation, some result⟩) } :=
  .single (l := .effect i) trivial (by simp [step, hi, he])

theorem run_answer {operation : S} {result : A} (hi : o.calls i = some ⟨operation, some result⟩) :
    Run (step effect idle) anyStep o [[.answer i result]]
      { o with calls := Function.update o.calls i none } :=
  .single (l := .answer i) trivial (by simp [step, hi])

theorem run_abort {call : Call S A} (hi : o.calls i = some call) (hidle : call.result.all idle) :
    Run (step effect idle) anyStep o [[.abort i]]
      { o with calls := Function.update o.calls i none } :=
  .single (l := .abort i) trivial (by simp [step, hi, hidle])

end JobFlow.Lib.AtomicObject
