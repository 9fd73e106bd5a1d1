import JobFlow.Lib.Numeral
import JobFlow.Model.Job

/-!
# The texts of JSON documents

The grammar that `JSON.parse` and `json.Unmarshal` share, as a recursive descent that
keeps the text of a number.
-/

namespace JobFlow.Model

open JobFlow.Lib (Numeral)

mutual

/-- Every number has the text of a numeral. -/
def Json.valid : Json → Bool
  | .number text => (Numeral.parse text.toList).isSome
  | .array items => validItems items
  | .object fields => validFields fields
  | .null | .bool _ | .string _ => true

def Json.validItems : List Json → Bool
  | [] => true
  | item :: items => item.valid && validItems items

def Json.validFields : List (String × Json) → Bool
  | [] => true
  | (_, value) :: fields => value.valid && validFields fields

end

/-- A document that has a text. -/
abbrev Document := { value : Json // value.valid }

namespace JsonText

def isSpace (c : Char) : Bool := c == ' ' || c == '\t' || c == '\n' || c == '\r'

def skip (text : List Char) : List Char := text.dropWhile isSpace

def hexValue? (c : Char) : Option Nat :=
  if '0' ≤ c ∧ c ≤ '9' then some (c.toNat - '0'.toNat)
  else if 'a' ≤ c ∧ c ≤ 'f' then some (c.toNat - 'a'.toNat + 10)
  else if 'A' ≤ c ∧ c ≤ 'F' then some (c.toNat - 'A'.toNat + 10)
  else none

/-- Four hexadecimal digits. -/
def unit? (a b c d : Char) : Option Nat := do
  some (((← hexValue? a) * 16 + (← hexValue? b)) * 256 + ((← hexValue? c) * 16 + (← hexValue? d)))

/-- What a letter after a backslash stands for. -/
def escaped? : Char → Option Nat
  | '"' => some 0x22
  | '\\' => some 0x5C
  | '/' => some 0x2F
  | 'b' => some 0x08
  | 'f' => some 0x0C
  | 'n' => some 0x0A
  | 'r' => some 0x0D
  | 't' => some 0x09
  | _ => none

/-- The code units up to the closing quote; a character that is not escaped is one. -/
def units : List Char → Option (List Nat × List Char)
  | [] => none
  | '"' :: rest => some ([], rest)
  | '\\' :: 'u' :: a :: b :: c :: d :: rest =>
    (unit? a b c d).bind fun u => (units rest).map fun x => (u :: x.1, x.2)
  | '\\' :: c :: rest =>
    (escaped? c).bind fun u => (units rest).map fun x => (u :: x.1, x.2)
  | c :: rest => if c.toNat < 32 then none else (units rest).map fun x => (c.toNat :: x.1, x.2)

def isHigh (u : Nat) : Bool := 0xD800 ≤ u && u < 0xDC00

def isLow (u : Nat) : Bool := 0xDC00 ≤ u && u < 0xE000

/-- Half of a surrogate pair is no character. -/
def scalar (u : Nat) : Char := if isHigh u || isLow u then Char.ofNat 0xFFFD else Char.ofNat u

def decode : List Nat → List Char
  | [] => []
  | [u] => [scalar u]
  | u :: v :: us =>
    if isHigh u && isLow v then Char.ofNat (0x10000 + (u - 0xD800) * 1024 + (v - 0xDC00)) :: decode us
    else scalar u :: decode (v :: us)

/-- A string after its opening quote. -/
def string (text : List Char) : Option (String × List Char) :=
  (units text).map fun x => (String.ofList (decode x.1), x.2)

def number (text : List Char) : Option (Json × List Char) :=
  let digits := text.takeWhile Numeral.isPart
  if (Numeral.parse digits).isSome then
    some (.number (String.ofList digits), text.dropWhile Numeral.isPart)
  else none

def word : List Char → Option (Json × List Char)
  | 'n' :: 'u' :: 'l' :: 'l' :: rest => some (.null, rest)
  | 't' :: 'r' :: 'u' :: 'e' :: rest => some (.bool true, rest)
  | 'f' :: 'a' :: 'l' :: 's' :: 'e' :: rest => some (.bool false, rest)
  | _ => none

/-- The key of a member, with its colon. -/
def key (text : List Char) : Option (String × List Char) :=
  match skip text with
  | '"' :: rest =>
    (string rest).bind fun x =>
      match skip x.2 with
      | ':' :: rest => some (x.1, rest)
      | _ => none
  | _ => none

mutual

def value : Nat → List Char → Option (Json × List Char)
  | 0, _ => none
  | fuel + 1, text =>
    match skip text with
    | [] => none
    | c :: rest =>
      if c = '"' then (string rest).map fun x => (.string x.1, x.2)
      else if c = '[' then
        match skip rest with
        | ']' :: rest => some (.array [], rest)
        | rest => (items fuel rest).map fun x => (.array x.1, x.2)
      else if c = '{' then
        match skip rest with
        | '}' :: rest => some (.object [], rest)
        | rest => (fields fuel rest).map fun x => (.object x.1, x.2)
      else if Numeral.isPart c then number (c :: rest)
      else word (c :: rest)

def items : Nat → List Char → Option (List Json × List Char)
  | 0, _ => none
  | fuel + 1, text =>
    (value fuel text).bind fun x =>
      match skip x.2 with
      | ',' :: rest => (items fuel rest).map fun y => (x.1 :: y.1, y.2)
      | ']' :: rest => some ([x.1], rest)
      | _ => none

def fields : Nat → List Char → Option (List (String × Json) × List Char)
  | 0, _ => none
  | fuel + 1, text =>
    (key text).bind fun k =>
      (value fuel k.2).bind fun x =>
        match skip x.2 with
        | ',' :: rest => (fields fuel rest).map fun y => ((k.1, x.1) :: y.1, y.2)
        | '}' :: rest => some ([(k.1, x.1)], rest)
        | _ => none

end

/-- A document nests no deeper than its text is long. -/
def parse (text : String) : Option Json :=
  (value text.toList.length text.toList).bind fun x => if skip x.2 = [] then some x.1 else none

/-- A character is not half of a surrogate pair. -/
theorem scalar_toNat (c : Char) : (isHigh c.toNat || isLow c.toNat) = false := by
  have hc : c.toNat < 0xD800 ∨ 0xDFFF < c.toNat ∧ c.toNat < 0x110000 := c.valid
  simp only [isHigh, isLow, Bool.or_eq_false_iff, Bool.and_eq_false_iff, decide_eq_false_iff_not]
  omega

theorem decode_toNat (cs : List Char) : decode (cs.map Char.toNat) = cs := by
  have hscalar : ∀ c : Char, scalar c.toNat = c := fun c => by
    rw [scalar, scalar_toNat, if_neg (by decide), Char.ofNat_toNat]
  induction cs with
  | nil => rfl
  | cons c cs ih =>
    have hhigh : isHigh c.toNat = false := (Bool.or_eq_false_iff.mp (scalar_toNat c)).1
    cases cs with
    | nil => rw [List.map_cons, List.map_nil, decode, hscalar]
    | cons d cs =>
      rw [List.map_cons, List.map_cons, decode, hhigh, Bool.false_and, if_neg (by decide), hscalar]
      exact congrArg (c :: ·) ih

/-! ### Where a value ends -/

/-- A text at which a numeral has ended. -/
def Closed (rest : List Char) : Prop := ∀ c ∈ rest.head?, Numeral.isPart c = false

mutual

/-- How deep the descent into a document goes. -/
def cost : Json → Nat
  | .array items => costItems items + 1
  | .object fields => costFields fields + 1
  | .null | .bool _ | .number _ | .string _ => 1

def costItems : List Json → Nat
  | [] => 0
  | item :: items => cost item + costItems items + 1

def costFields : List (String × Json) → Nat
  | [] => 0
  | (_, value) :: fields => cost value + costFields fields + 1

end

/-- What a text of a document can begin with. -/
def isOpening (c : Char) : Bool :=
  c == '"' || c == '[' || c == '{' || Numeral.isPart c || c == 'n' || c == 't' || c == 'f'

theorem skip_opening {c : Char} (h : isOpening c) (rest : List Char) :
    skip (c :: rest) = c :: rest := by
  have hc : isSpace c = false := by
    by_contra hspace
    simp only [isSpace, Bool.not_eq_false, Bool.or_eq_true, beq_iff_eq] at hspace
    rcases hspace with ((rfl | rfl) | rfl) | rfl <;> revert h <;> decide
  rw [skip, List.dropWhile_cons_of_neg (by rw [hc]; decide)]

theorem number_of_valid {text : List Char} (h : (Numeral.parse text).isSome) {rest : List Char}
    (hr : Closed rest) : number (text ++ rest) = some (.number (String.ofList text), rest) := by
  have hpart := List.all_eq_true.mp (Numeral.parse_isSome h).2
  have hrest : rest.takeWhile Numeral.isPart = [] ∧ rest.dropWhile Numeral.isPart = rest := by
    cases rest with
    | nil => exact ⟨rfl, rfl⟩
    | cons c rest =>
      have hc := hr c rfl
      exact ⟨List.takeWhile_cons_of_neg (by rw [hc]; decide),
        List.dropWhile_cons_of_neg (by rw [hc]; decide)⟩
  rw [number, List.takeWhile_append_of_pos hpart, List.dropWhile_append_of_pos hpart, hrest.1,
    hrest.2, List.append_nil, if_pos h]

/-- A numeral starts like no other document. -/
theorem value_number {text : List Char} (h : (Numeral.parse text).isSome) {rest : List Char}
    (hr : Closed rest) (fuel : Nat) :
    value (fuel + 1) (text ++ rest) = some (.number (String.ofList text), rest) := by
  obtain ⟨hne, hpart⟩ := Numeral.parse_isSome h
  obtain ⟨c, cs, rfl⟩ := List.exists_cons_of_ne_nil hne
  rw [List.all_cons, Bool.and_eq_true] at hpart
  have hopening : isOpening c := by simp only [isOpening, hpart.1, Bool.or_true, Bool.true_or]
  have hc : ∀ d, Numeral.isPart d = false → c ≠ d := by
    rintro d hd rfl
    rw [hpart.1] at hd
    cases hd
  have hvalue : value (fuel + 1) (c :: (cs ++ rest)) = number (c :: (cs ++ rest)) := by
    rw [value, skip_opening hopening]
    simp only [hc '"' rfl, hc '[' rfl, hc '{' rfl, hpart.1, if_true, if_false]
  rw [List.cons_append, hvalue]
  exact number_of_valid h hr

theorem closed_cons {c : Char} (h : Numeral.isPart c = false) (rest : List Char) :
    Closed (c :: rest) := by
  intro d hd
  rw [List.head?_cons, Option.mem_some_iff] at hd
  rw [← hd, h]

theorem cost_pos (v : Json) : 0 < cost v := by
  cases v <;> rw [cost] <;> omega

theorem skip_of_not_space {c : Char} (h : isSpace c = false) (rest : List Char) :
    skip (c :: rest) = c :: rest := List.dropWhile_cons_of_neg (by rw [h]; decide)

/-- Space before a value is passed over. -/
theorem skip_blank {space : List Char} (h : space.all isSpace) (text : List Char) :
    skip (space ++ text) = skip text := List.dropWhile_append_of_pos (List.all_eq_true.mp h)

theorem value_blank {space : List Char} (h : space.all isSpace) (fuel : Nat) (text : List Char) :
    value fuel (space ++ text) = value fuel text := by
  cases fuel with
  | zero => rfl
  | succ fuel => rw [value, value, skip_blank h]

theorem items_blank {space : List Char} (h : space.all isSpace) (fuel : Nat) (text : List Char) :
    items fuel (space ++ text) = items fuel text := by
  cases fuel with
  | zero => rfl
  | succ fuel => rw [items, items, value_blank h]

theorem fields_blank {space : List Char} (h : space.all isSpace) (fuel : Nat) (text : List Char) :
    fields fuel (space ++ text) = fields fuel text := by
  cases fuel with
  | zero => rfl
  | succ fuel => rw [fields, fields, key, key, skip_blank h]

end JsonText

end JobFlow.Model
