import JobFlow.Lib.Value
import JobFlow.Model.JsonText

/-!
# What a document means

Documents that differ in the order of their members, in members that later ones replace
or in how their numbers are written mean the same.
-/

namespace JobFlow.Model

open JobFlow.Lib

mutual

/-- The document as a tree; of several members with one key the last counts. -/
def Json.tree : Json → Value String
  | .null => .null
  | .bool b => .bool b
  | .number text => .number text
  | .string s => .string s
  | .array items => .array (treeItems items)
  | .object fields => .object (Members.putAll [] (treeFields fields))

def Json.treeItems : List Json → List (Value String)
  | [] => []
  | item :: items => item.tree :: treeItems items

def Json.treeFields : List (String × Json) → List (String × Value String)
  | [] => []
  | (key, value) :: fields => (key, value.tree) :: treeFields fields

end

mutual

/-- A document for a tree. -/
def Json.ofTree : Value String → Json
  | .null => .null
  | .bool b => .bool b
  | .number text => .number text
  | .string s => .string s
  | .array items => .array (ofTreeItems items)
  | .object members => .object (ofTreeMembers members)

def Json.ofTreeItems : List (Value String) → List Json
  | [] => []
  | item :: items => ofTree item :: ofTreeItems items

def Json.ofTreeMembers : List (String × Value String) → List (String × Json)
  | [] => []
  | (key, value) :: members => (key, ofTree value) :: ofTreeMembers members

end

mutual

/-- The texts of all numbers. -/
def Json.numbers : Json → List String
  | .null | .bool _ | .string _ => []
  | .number text => [text]
  | .array items => numbersItems items
  | .object fields => numbersFields fields

def Json.numbersItems : List Json → List String
  | [] => []
  | item :: items => item.numbers ++ numbersItems items

def Json.numbersFields : List (String × Json) → List String
  | [] => []
  | (_, value) :: fields => value.numbers ++ numbersFields fields

end

/-- The number that a numeral writes. -/
def numeralValue (text : String) : ℚ := ((Numeral.parse text.toList).map Numeral.value).getD 0

def Json.meaning (v : Json) : Value ℚ := v.tree.map numeralValue

/-- A member of an object; of several with one name the last counts. -/
def Json.property (fields : List (String × Json)) (name : String) : Option Json :=
  fields.reverse.lookup name

namespace Json

theorem induction {P : Json → Prop} (null : P .null) (bool : ∀ b, P (.bool b))
    (number : ∀ text, P (.number text)) (string : ∀ s, P (.string s))
    (array : ∀ items, (∀ v ∈ items, P v) → P (.array items))
    (object : ∀ fields, (∀ p ∈ fields, P p.2) → P (.object fields)) (v : Json) : P v := by
  refine @Json.rec P (fun items => ∀ v ∈ items, P v)
    (fun fields => ∀ p ∈ fields, P p.2) (fun p => P p.2) null bool number string array object
    ?_ ?_ ?_ ?_ ?_ v
  · simp
  · exact fun v items hv hitems => List.forall_mem_cons.mpr ⟨hv, hitems⟩
  · simp
  · exact fun p fields hp hfields => List.forall_mem_cons.mpr ⟨hp, hfields⟩
  · exact fun k v hv => hv

@[simp] theorem tree_array (items : List Json) :
    tree (.array items) = .array (items.map tree) := by
  rw [tree]
  congr 1
  induction items with
  | nil => rfl
  | cons item items ih => rw [treeItems, ih, List.map_cons]

@[simp] theorem tree_object (fields : List (String × Json)) :
    tree (.object fields) = .object (Members.putAll [] (Members.mapValues tree fields)) := by
  rw [tree]
  congr 2
  induction fields with
  | nil => rfl
  | cons p fields ih => rw [treeFields, ih, Members.mapValues, Members.mapValues, List.map_cons]

@[simp] theorem ofTree_array (items : List (Value String)) :
    ofTree (.array items) = .array (items.map ofTree) := by
  rw [ofTree]
  congr 1
  induction items with
  | nil => rfl
  | cons item items ih => rw [ofTreeItems, ih, List.map_cons]

@[simp] theorem ofTree_object (members : List (String × Value String)) :
    ofTree (.object members) = .object (Members.mapValues ofTree members) := by
  rw [ofTree]
  congr 1
  induction members with
  | nil => rfl
  | cons p members ih => rw [ofTreeMembers, ih, Members.mapValues, Members.mapValues, List.map_cons]

@[simp] theorem valid_array (items : List Json) :
    valid (.array items) ↔ ∀ v ∈ items, v.valid := by
  rw [valid]
  induction items with
  | nil => simp [validItems]
  | cons item items ih => rw [validItems, Bool.and_eq_true, ih, List.forall_mem_cons]

@[simp] theorem valid_object (fields : List (String × Json)) :
    valid (.object fields) ↔ ∀ p ∈ fields, p.2.valid := by
  rw [valid]
  induction fields with
  | nil => simp [validFields]
  | cons p fields ih => rw [validFields, Bool.and_eq_true, ih, List.forall_mem_cons]

@[simp] theorem numbers_array (items : List Json) :
    numbers (.array items) = items.flatMap numbers := by
  rw [numbers]
  induction items with
  | nil => rfl
  | cons item items ih => rw [numbersItems, ih, List.flatMap_cons]

@[simp] theorem numbers_object (fields : List (String × Json)) :
    numbers (.object fields) = fields.flatMap fun p => numbers p.2 := by
  rw [numbers]
  induction fields with
  | nil => rfl
  | cons p fields ih => rw [numbersFields, ih, List.flatMap_cons]

/-- The tree of a member. -/
theorem lookup_tree (fields : List (String × Json)) (name : String) :
    (Members.putAll [] (Members.mapValues tree fields)).lookup name =
      (property fields name).map tree := by
  rw [Members.lookup_putAll, List.lookup_nil, Option.or_none, Members.mapValues, ← List.map_reverse]
  exact Members.lookup_mapValues tree name fields.reverse

theorem canonical_tree (v : Json) : v.tree.Canonical := by
  induction v using Json.induction with
  | null => exact .null
  | bool b => exact .bool b
  | number text => exact .number text
  | string s => exact .string s
  | array items ih =>
    rw [tree_array]
    refine .array fun v hv => ?_
    obtain ⟨w, hw, rfl⟩ := List.mem_map.mp hv
    exact ih w hw
  | object fields ih =>
    rw [tree_object]
    refine .object (Members.sorted_putAll List.Pairwise.nil _) fun p hp => ?_
    have hmem := (Members.mem_putAll hp).resolve_left (List.not_mem_nil)
    obtain ⟨q, hq, rfl⟩ := List.mem_map.mp hmem
    exact ih q hq

/-- The tree of a document that was made from one. -/
theorem tree_ofTree {v : Value String} (h : v.Canonical) : (ofTree v).tree = v := by
  induction h with
  | null | bool | number | string => rfl
  | array h ih =>
    rw [ofTree_array, tree_array, List.map_map,
      List.map_congr_left (g := id) fun v hv => by rw [Function.comp_apply, ih v hv, id],
      List.map_id]
  | @object members hsorted h ih =>
    rw [ofTree_object, tree_object]
    have hmembers : Members.mapValues tree (Members.mapValues ofTree members) = members := by
      rw [Members.mapValues, Members.mapValues, List.map_map,
        List.map_congr_left (g := id) fun p hp => by rw [Function.comp_apply, ih p hp, id],
        List.map_id]
    rw [hmembers, Members.putAll_nil hsorted]

theorem valid_ofTree {v : Value String}
    (h : ∀ text ∈ v.numbers, (Numeral.parse text.toList).isSome) : (ofTree v).valid := by
  induction v using Value.induction with
  | null | bool | string => rfl
  | number text => exact h text (List.mem_singleton.mpr rfl)
  | array items ih =>
    rw [Value.numbers_array] at h
    rw [ofTree_array, valid_array]
    intro v hv
    obtain ⟨w, hw, rfl⟩ := List.mem_map.mp hv
    exact ih w hw fun text ht => h text (List.mem_flatMap.mpr ⟨w, hw, ht⟩)
  | object members ih =>
    rw [Value.numbers_object] at h
    rw [ofTree_object, valid_object]
    intro p hp
    obtain ⟨q, hq, rfl⟩ := List.mem_map.mp hp
    exact ih q hq fun text ht => h text (List.mem_flatMap.mpr ⟨q, hq, ht⟩)

theorem parse_of_valid {v : Json} (hv : v.valid) {text : String} (h : text ∈ v.numbers) :
    (Numeral.parse text.toList).isSome := by
  induction v using Json.induction with
  | null | bool | string => cases h
  | number text' =>
    rw [List.mem_singleton.mp h]
    exact hv
  | array items ih =>
    rw [numbers_array] at h
    rw [valid_array] at hv
    obtain ⟨w, hw, ht⟩ := List.mem_flatMap.mp h
    exact ih w hw (hv w hw) ht
  | object fields ih =>
    rw [numbers_object] at h
    rw [valid_object] at hv
    obtain ⟨p, hp, ht⟩ := List.mem_flatMap.mp h
    exact ih p hp (hv p hp) ht

/-- The tree has no other numbers than the document. -/
theorem mem_numbers_of_tree {v : Json} {text : String} (h : text ∈ v.tree.numbers) :
    text ∈ v.numbers := by
  induction v using Json.induction with
  | null | bool | string => cases h
  | number text' => exact h
  | array items ih =>
    rw [tree_array, Value.numbers_array] at h
    obtain ⟨w, hw, ht⟩ := List.mem_flatMap.mp h
    obtain ⟨u, hu, rfl⟩ := List.mem_map.mp hw
    rw [numbers_array]
    exact List.mem_flatMap.mpr ⟨u, hu, ih u hu ht⟩
  | object fields ih =>
    rw [tree_object, Value.numbers_object] at h
    obtain ⟨p, hp, ht⟩ := List.mem_flatMap.mp h
    have hmem := (Members.mem_putAll hp).resolve_left List.not_mem_nil
    obtain ⟨q, hq, rfl⟩ := List.mem_map.mp hmem
    rw [numbers_object]
    exact List.mem_flatMap.mpr ⟨q, hq, ih q hq ht⟩

end Json

end JobFlow.Model
