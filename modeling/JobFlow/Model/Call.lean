import JobFlow.Model.System

/-!
# One call of the service on its own

A call runs from its first program point to its return while nothing else happens.
For each command the environment chooses whether the store fails it, in which case
the command has no effect.
-/

namespace JobFlow.Model

structure Choice where
  fails : Bool := false
  env : Env := {}

def Choice.mode (c : Choice) : Mode := if c.fails then .failed else .ok

def Pc.result : Pc → Option (Except Err (Option Job))
  | .returned result => some result
  | _ => none

/-- The world a call leaves and its result; `none` when the choices run out first. -/
def call (w : World) (pc : Pc) : List Choice → Option (World × Except Err (Option Job))
  | [] => pc.result.map fun result => (w, result)
  | c :: choices =>
    match pc.result with
    | some result => some (w, result)
    | none => (advance w pc c.mode c.env).bind fun (w', pc', _) => call w' pc' choices

theorem call_returned (w : World) (result : Except Err (Option Job)) (choices : List Choice) :
    call w (.returned result) choices = some (w, result) := by
  cases choices <;> rfl

/-- A call at a point with a command uses its first choice for it. -/
theorem call_cons {pc : Pc} {cmd : Cmd} {next : Reply → Pc} (hc : pc.code = some (cmd, next))
    (w : World) (c : Choice) (rest : List Choice) :
    call w pc (c :: rest) = if c.fails then call w (next (.err .unavailable)) rest
      else (exec w c.env cmd).bind fun x => call x.1 (next x.2) rest := by
  have hres : pc.result = none := by
    cases pc <;> first | rfl | cases hc
  simp only [call, hres, advance, hc, Choice.mode]
  cases c.fails with
  | true => rfl
  | false => simp [Option.bind_map]

theorem call_nil {pc : Pc} {cmd : Cmd} {next : Reply → Pc} (hc : pc.code = some (cmd, next))
    (w : World) : call w pc [] = none := by
  cases pc <;> first | rfl | cases hc

end JobFlow.Model
