import JobFlow.Lib.Entries
import JobFlow.Model.JsonValue
import Mathlib.Data.List.Sort

/-!
# How the payload of a job is displayed

`payloadDisplayValue` of `format.js`. An object is given by its own properties in the order
in which `Object.entries` lists them.
-/

namespace JobFlow.Model.Format

open JobFlow.Lib

/-- The array index that a key writes, below `2 ^ 32 - 1`. -/
def arrayIndex? (key : String) : Option Nat :=
  (Numeral.whole? key.toList).filter fun n => n < 4294967295

/-- The order of the own properties: the indices ascending, then the rest as they were set. -/
def ordered (fields : List (String × Json)) : List (String × Json) :=
  (fields.filter fun p => (arrayIndex? p.1).isSome).insertionSort
      (fun p q => (arrayIndex? p.1).getD 0 ≤ (arrayIndex? q.1).getD 0) ++
    fields.filter fun p => !(arrayIndex? p.1).isSome

/-- `Object.fromEntries`. -/
def fromEntries (entries : List (String × Json)) : List (String × Json) :=
  ordered (Entries.fromEntries entries)

/-- `key.endsWith(suffix)`. -/
def endsWith (suffix key : String) : Bool := suffix.toList.isSuffixOf key.toList

/-- `key.replace(/suffix$/, replacement)`. -/
def replaceEnd (suffix replacement key : String) : String :=
  if endsWith suffix key then
    String.ofList (key.toList.take (key.length - suffix.length)) ++ replacement
  else key

def isIdentifier (key : String) : Bool := key == "id" || endsWith "_id" key || endsWith "Id" key

def displayKey (key : String) : String :=
  if key = "id" then "name" else replaceEnd "Id" "Name" (replaceEnd "_id" "" key)

mutual

def payloadDisplayValue : Json → Json
  | .null => .null
  | .bool b => .bool b
  | .number text => .number text
  | .string s => .string s
  | .array items => .array (displayItems items)
  | .object fields => .object (fromEntries (displayEntries fields))

def displayItems : List Json → List Json
  | [] => []
  | item :: items => payloadDisplayValue item :: displayItems items

def displayEntries : List (String × Json) → List (String × Json)
  | [] => []
  | (key, item) :: fields =>
    (displayKey key,
      if isIdentifier key then .string "Name unavailable" else payloadDisplayValue item) ::
    displayEntries fields

end

example : payloadDisplayValue (.object [("7", .null), ("userId", .number "1"),
      ("tags", .array [.object [("tag_id", .string "t")]]), ("3_id", .bool true)]) =
    .object [("3", .string "Name unavailable"), ("7", .null), ("userName", .string "Name unavailable"),
      ("tags", .array [.object [("tag", .string "Name unavailable")]])] := by rfl

/-- What becomes of one entry. -/
def displayEntry (p : String × Json) : String × Json :=
  (displayKey p.1, if isIdentifier p.1 then .string "Name unavailable" else payloadDisplayValue p.2)

@[simp] theorem display_array (items : List Json) :
    payloadDisplayValue (.array items) = .array (items.map payloadDisplayValue) := by
  rw [payloadDisplayValue]
  congr 1
  induction items with
  | nil => rfl
  | cons item items ih => rw [displayItems, ih, List.map_cons]

@[simp] theorem display_object (fields : List (String × Json)) :
    payloadDisplayValue (.object fields) = .object (fromEntries (fields.map displayEntry)) := by
  rw [payloadDisplayValue]
  congr 2
  induction fields with
  | nil => rfl
  | cons p fields ih => rw [displayEntries, ih, List.map_cons, displayEntry]

theorem perm_ordered (fields : List (String × Json)) : (ordered fields).Perm fields :=
  ((List.perm_insertionSort _ _).append_right _).trans (List.filter_append_perm _ fields)

theorem length_fromEntries_eq_iff (entries : List (String × Json)) :
    (fromEntries entries).length = entries.length ↔ (Entries.keys entries).Nodup := by
  rw [fromEntries, (perm_ordered _).length_eq, Entries.length_fromEntries_eq_iff]

theorem perm_fromEntries {entries : List (String × Json)} (h : (Entries.keys entries).Nodup) :
    (fromEntries entries).Perm entries := by
  rw [fromEntries, Entries.fromEntries_of_nodup h]
  exact perm_ordered entries

/-- With distinct keys every entry is the property of its key. -/
theorem property_of_mem {fields : List (String × Json)} (h : (Entries.keys fields).Nodup)
    {p : String × Json} (hp : p ∈ fields) : Json.property fields p.1 = some p.2 := by
  obtain ⟨before, after, rfl⟩ := List.append_of_mem hp
  rw [Json.property, List.lookup_eq_some_iff]
  refine ⟨after.reverse, before.reverse, by simp, fun q hq => ?_⟩
  rw [Entries.keys, List.map_append, List.map_cons] at h
  have hafter := (List.nodup_cons.mp (List.nodup_append.mp h).2.1).1
  exact bne_iff_ne.mpr fun heq => hafter (heq ▸ List.mem_map_of_mem (List.mem_reverse.mp hq))

theorem endsWith_iff {suffix key : String} :
    endsWith suffix key ↔ ∃ stem, key = stem ++ suffix := by
  rw [endsWith, List.isSuffixOf_iff_suffix]
  constructor
  · rintro ⟨stem, h⟩
    exact ⟨String.ofList stem, String.toList_inj.mp (by simp [← h])⟩
  · rintro ⟨stem, rfl⟩
    exact ⟨stem.toList, by simp⟩

@[simp] theorem replaceEnd_append (suffix replacement stem : String) :
    replaceEnd suffix replacement (stem ++ suffix) = stem ++ replacement := by
  rw [replaceEnd, if_pos (endsWith_iff.mpr ⟨stem, rfl⟩)]
  congr 1
  rw [String.length_append, Nat.add_sub_cancel, String.toList_append, ← String.length_toList,
    List.take_left', String.ofList_toList]
  rfl

theorem replaceEnd_of_not {suffix key : String} (replacement : String) (h : ¬ endsWith suffix key) :
    replaceEnd suffix replacement key = key := if_neg h

end JobFlow.Model.Format
