import JobFlow.Lib.Binary64
import JobFlow.Model.JsonValue
import JobFlow.Model.JsonWriter

/-!
# Values of JavaScript

What `JSON.parse` makes of a text and `JSON.stringify` of a value. An object has its keys
in order, not in the order in which they were set; nothing but the layout of a text comes
from that.
-/

namespace JobFlow.Model.JavaScript

open JobFlow.Lib

inductive Number where
  | finite (x : Binary64)
  | infinite (negative : Bool)
  | nan

/-- The values that JSON has texts for, and the numbers it has none for. -/
abbrev JsValue := Value Number

/-- A numeral is rounded; beyond the greatest number it is an infinity. -/
def Number.read (text : String) : Number :=
  match Numeral.parse text.toList with
  | none => .nan
  | some n =>
    match Binary64.ofNumeral? n with
    | some x => .finite x
    | none => .infinite n.negative

def ofJson (v : Json) : JsValue := v.tree.map Number.read

/-- `JSON.parse`; `none` stands for the `SyntaxError`. -/
def parse (text : String) : Option JsValue := (JsonText.parse text).map ofJson

/-- A number as JSON has it: zero without its sign, and `null` for what is not finite. -/
def Number.write : Number → Value String
  | .finite x =>
    .number (if x.magnitude = 0 then "0" else String.ofList x.toNumeral.text)
  | .infinite _ | .nan => .null

/-- Only quotes, backslashes and control characters are escaped. -/
def escape (c : Char) : List Char :=
  if c = '<' ∨ c = '>' ∨ c = '&' ∨ c.toNat = 0x2028 ∨ c.toNat = 0x2029 then [c]
  else Wire.escape c

theorem units_escape (c : Char) (rest : List Char) :
    JsonText.units (escape c ++ rest) =
      (JsonText.units rest).map fun x => (c.toNat :: x.1, x.2) := by
  unfold escape
  split
  next h =>
    have hprint : ¬ c.toNat < 32 ∧ c ≠ '"' ∧ c ≠ '\\' := by
      rcases h with rfl | rfl | rfl | h | h
      · decide
      · decide
      · decide
      · exact ⟨by omega, fun hc => absurd (hc ▸ h) (by decide), fun hc => absurd (hc ▸ h) (by decide)⟩
      · exact ⟨by omega, fun hc => absurd (hc ▸ h) (by decide), fun hc => absurd (hc ▸ h) (by decide)⟩
    exact JsonText.units_plain hprint.2.1 hprint.2.2 hprint.1 rest
  · exact JsonText.units_escape c rest

def layout (gap : Nat) : JsonText.Layout :=
  ⟨escape, List.replicate gap ' ', units_escape, by simp [JsonText.isSpace]⟩

/-- `JSON.stringify(value, null, gap)`. -/
def stringify (gap : Nat) (v : JsValue) : String :=
  String.ofList ((layout gap).print [] (Json.ofTree (v.bind Number.write)))

def Number.truthy : Number → Bool
  | .finite x => x.magnitude ≠ 0
  | .infinite _ => true
  | .nan => false

/-- `Boolean(value)`. -/
def truthy : JsValue → Bool
  | .null => false
  | .bool b => b
  | .number x => x.truthy
  | .string s => s ≠ ""
  | .array _ | .object _ => true

/-- `value?.name`; `none` is `undefined`. No name that is read is one of an array, a string
or a prototype. -/
def get (name : String) : JsValue → Option JsValue
  | .object members => members.lookup name
  | _ => none

/-- `left || …`: the left side, if that is taken. -/
def taken (v : Option JsValue) : Option JsValue := v.filter truthy

/-- `left ?? …`: the left side, if that is taken. -/
def present (v : Option JsValue) : Option JsValue :=
  v.filter fun v => match v with | .null => false | _ => true

/-- `{...value}`. A string has a member for each of its code units; a code unit that is
half of a character is no character, and is sent as the replacement character. -/
def spread : JsValue → List (String × JsValue)
  | .object members => members
  | .array items => Members.putAll [] (items.mapIdx fun i v => (toString i, v))
  | .string s =>
    Members.putAll [] ((s.toList.flatMap fun c =>
      if c.toNat < 0x10000 then [c] else [Char.ofNat 0xFFFD, Char.ofNat 0xFFFD]).mapIdx
        fun i c => (toString i, .string (String.singleton c)))
  | .null | .bool _ | .number _ => []

/-! ### A value that is written and read -/

/-- What is read for a number that was written. -/
def Number.settled : Number → JsValue
  | .finite x => if x.magnitude = 0 then .number (.read "0") else .number (.finite x)
  | .infinite _ | .nan => .null

/-- What a number that was written means. -/
def Number.meaning : Number → Value ℚ
  | .finite x => .number x.toNumeral.value
  | .infinite _ | .nan => .null

theorem isSome_write {x : Number} {text : String} (h : text ∈ x.write.numbers) :
    (Numeral.parse text.toList).isSome := by
  cases x with
  | infinite | nan => cases h
  | finite x =>
    rw [List.mem_singleton.mp h]
    split
    · decide
    · obtain ⟨n, hn, -⟩ := Numeral.parse_text x.toNumeral
      rw [String.toList_ofList, hn]
      rfl

/-- Every value has a text, and that is read back as the tree that was written. -/
theorem parse_print {v : JsValue} (hv : v.Canonical) (gap : Nat) :
    ∃ doc, JsonText.parse (stringify gap v) = some doc ∧ doc.tree = v.bind Number.write := by
  have hwrite : ∀ x : Number, x.write.Canonical := fun x => by
    cases x with
    | finite x => exact .number _
    | infinite | nan => exact .null
  have hvalid : (Json.ofTree (v.bind Number.write)).valid := by
    refine Json.valid_ofTree fun text ht => ?_
    obtain ⟨x, -, hx⟩ := Value.mem_numbers_bind ht
    exact isSome_write hx
  exact ⟨_, (layout gap).parse_print ⟨_, hvalid⟩, Json.tree_ofTree (hv.bind hwrite)⟩

theorem read_write (x : Number) : x.write.map Number.read = x.settled := by
  cases x with
  | infinite | nan => rfl
  | finite x =>
    rw [Number.write, Number.settled]
    split
    · rfl
    · obtain ⟨n, hn, hneg, hmag⟩ := Numeral.parse_text x.toNumeral
      have hread : Number.read (String.ofList x.toNumeral.text) = .finite x := by
        simp only [Number.read, String.toList_ofList, hn, Binary64.ofNumeral?_toNumeral hneg hmag]
      exact congrArg Value.number hread

/-- A value that is written and read again. -/
theorem parse_stringify {v : JsValue} (hv : v.Canonical) (gap : Nat) :
    parse (stringify gap v) = some (v.bind Number.settled) := by
  obtain ⟨doc, hdoc, htree⟩ := parse_print hv gap
  rw [parse, hdoc, Option.map_some, ofJson, htree, Value.map, Value.bind_bind]
  exact congrArg some (Value.bind_congr fun x _ => read_write x)

/-- An integer of less than 53 bits. -/
theorem read_toString {z : Int} (h : z.natAbs < 2 ^ 53) :
    ∃ x, Number.read (toString z) = .finite x ∧ x.negative = decide (z < 0) ∧
      x.magnitude = z.natAbs := by
  have hmag : (⟨decide (z < 0), z.natAbs, 0⟩ : Numeral).magnitude = z.natAbs := by
    simp [Numeral.magnitude]
  obtain ⟨x, hx, hneg, hmagx⟩ := Binary64.ofNumeral?_natCast h hmag
  refine ⟨x, ?_, hneg, hmagx⟩
  simp only [Number.read, Numeral.parse_toString, hx]

/-- What is written for either zero. -/
theorem read_zero : ∃ z, Number.read "0" = .finite z ∧ z.magnitude = 0 := by
  obtain ⟨z, hz, -, hmag⟩ := read_toString (z := 0) (by decide)
  exact ⟨z, hz, by simpa using hmag⟩

theorem settled_settled (x : Number) : x.settled.bind Number.settled = x.settled := by
  cases x with
  | infinite | nan => rfl
  | finite x =>
    rw [Number.settled]
    split
    · obtain ⟨z, hz, hmag⟩ := read_zero
      rw [hz, Value.bind, Number.settled, if_pos hmag, hz]
    next h => exact if_neg h

theorem canonical_ofJson (v : Json) : (ofJson v).Canonical := (Json.canonical_tree v).map _

theorem canonical_settled {v : JsValue} (h : v.Canonical) : (v.bind Number.settled).Canonical :=
  h.bind fun x => by
    cases x with
    | infinite | nan => exact .null
    | finite x =>
      rw [Number.settled]
      split <;> exact .number _

/-- A value that has been read from a text is written and read without change. -/
theorem bind_settled_settled (v : JsValue) :
    (v.bind Number.settled).bind Number.settled = v.bind Number.settled := by
  rw [Value.bind_bind]
  exact Value.bind_congr fun x _ => settled_settled x

theorem get_bind (name : String) (v : JsValue) :
    get name (v.bind Number.settled) = (get name v).map (·.bind Number.settled) := by
  cases v with
  | null | bool | string => rfl
  | number x =>
    cases x with
    | infinite | nan => rfl
    | finite x =>
      rw [Value.bind, Number.settled]
      split <;> rfl
  | array items => rw [Value.bind_array]; rfl
  | object members =>
    rw [Value.bind_object]
    exact Members.lookup_mapValues _ name members

/-- A property of an object is that of its document. -/
theorem get_ofJson (name : String) (fields : List (String × Json)) :
    get name (ofJson (.object fields)) = (Json.property fields name).map ofJson := by
  rw [ofJson, Json.tree_object, Value.map, Value.bind_object, get, Members.lookup_mapValues,
    Json.lookup_tree, Option.map_map]
  rfl

theorem canonical_spread {v : JsValue} (h : v.Canonical) : (Value.object (spread v)).Canonical := by
  cases h with
  | object hsorted hmembers => exact .object hsorted hmembers
  | null | bool | number => exact Value.canonical_nil
  | string s =>
    refine Value.canonical_nil.putAll fun p hp => ?_
    obtain ⟨i, hi, rfl⟩ := List.mem_mapIdx.mp hp
    exact .string _
  | array hitems =>
    refine Value.canonical_nil.putAll fun p hp => ?_
    obtain ⟨i, hi, rfl⟩ := List.mem_mapIdx.mp hp
    exact hitems _ (List.getElem_mem hi)

/-! ### What a value means once it is sent -/

theorem value_toNumeral_zero {x : Binary64} (h : x.magnitude = 0) : x.toNumeral.value = 0 := by
  have hshortest : ((Binary64.shortest 0).1 : ℚ) * 10 ^ (Binary64.shortest 0).2 = 0 := by
    decide +kernel
  have hzero : x.toNumeral.magnitude = 0 := by
    rw [Binary64.toNumeral, h]
    exact hshortest
  rw [Numeral.value, hzero, neg_zero, ite_self]

theorem meaning_settled (x : Number) : x.settled.bind Number.meaning = x.meaning := by
  cases x with
  | infinite | nan => rfl
  | finite x =>
    rw [Number.settled]
    split
    next h =>
      obtain ⟨z, hz, hmag⟩ := read_zero
      rw [hz, Value.bind, Number.meaning, Number.meaning, value_toNumeral_zero h,
        value_toNumeral_zero hmag]
    · rfl

/-- What is written is read as what the numbers mean. -/
theorem meaning_stringify {v : JsValue} (hv : v.Canonical) (gap : Nat) :
    (JsonText.parse (stringify gap v)).map Json.meaning = some (v.bind Number.meaning) := by
  obtain ⟨doc, hdoc, htree⟩ := parse_print hv gap
  have hnumber (x : Number) : x.write.map numeralValue = x.meaning := by
    cases x with
    | infinite | nan => rfl
    | finite x =>
      rw [Number.write, Number.meaning]
      split
      next h =>
        have hzero : numeralValue "0" = 0 := by decide +kernel
        rw [value_toNumeral_zero h, ← hzero]
        rfl
      · obtain ⟨n, hn, hneg, hmag⟩ := Numeral.parse_text x.toNumeral
        refine congrArg Value.number ?_
        rw [numeralValue, String.toList_ofList, hn]
        exact Numeral.value_congr hneg hmag
  rw [hdoc, Option.map_some, Json.meaning, htree, Value.map, Value.bind_bind]
  exact congrArg some (Value.bind_congr fun x _ => hnumber x)

end JobFlow.Model.JavaScript
