import JobFlow.Model.Format

/-!
# What the displayed payload keeps and what it hides

The values of identifier keys are never shown. Identifier keys are shown under other
names, though, and a name that two keys of one object share is shown once.
-/

namespace JobFlow.Web.PayloadDisplay

open JobFlow.Lib
open JobFlow.Model
open JobFlow.Model.Format

/-- The keys that are shown under a name. -/
inductive Spells : String → String → Prop
  | plain {key : String} (h : ¬ isIdentifier key) : Spells key key
  | id : Spells "name" "id"
  | underscore {stem : String} (h : ¬ endsWith "Id" stem) : Spells stem (stem ++ "_id")
  | camel (stem : String) : Spells (stem ++ "Name") (stem ++ "Id")
  | both (stem : String) : Spells (stem ++ "Name") (stem ++ "Id" ++ "_id")

theorem not_identifier_iff {key : String} :
    ¬ isIdentifier key ↔ key ≠ "id" ∧ ¬ endsWith "_id" key ∧ ¬ endsWith "Id" key := by
  simp [isIdentifier, and_assoc]

theorem append_ne_id {stem suffix : String} (h : suffix ≠ "id") (hlen : 2 ≤ suffix.length) :
    stem ++ suffix ≠ "id" := by
  intro heq
  have hnil : stem = "" := by
    have hlength := congrArg String.length heq
    rw [String.length_append] at hlength
    have : "id".length = 2 := rfl
    exact String.length_eq_zero_iff.mp (by omega)
  rw [hnil, String.empty_append] at heq
  exact h heq

theorem camel_not_underscore (stem : String) : ¬ endsWith "_id" (stem ++ "Id") := by
  rw [endsWith_iff]
  rintro ⟨stem', h⟩
  have hreverse := congrArg (fun s : String => s.toList.reverse) h
  simp at hreverse

/-- The renaming of the code. -/
theorem displayKey_eq_iff {name key : String} : displayKey key = name ↔ Spells name key := by
  constructor
  · rintro rfl
    rw [displayKey]
    by_cases hid : key = "id"
    · rw [if_pos hid, hid]
      exact .id
    rw [if_neg hid]
    by_cases hunder : endsWith "_id" key
    · obtain ⟨stem, rfl⟩ := endsWith_iff.mp hunder
      rw [replaceEnd_append, String.append_empty]
      by_cases hcamel : endsWith "Id" stem
      · obtain ⟨stem, rfl⟩ := endsWith_iff.mp hcamel
        rw [replaceEnd_append]
        exact .both stem
      · rw [replaceEnd_of_not _ hcamel]
        exact .underscore hcamel
    rw [replaceEnd_of_not _ hunder]
    by_cases hcamel : endsWith "Id" key
    · obtain ⟨stem, rfl⟩ := endsWith_iff.mp hcamel
      rw [replaceEnd_append]
      exact .camel stem
    · rw [replaceEnd_of_not _ hcamel]
      exact .plain (not_identifier_iff.mpr ⟨hid, hunder, hcamel⟩)
  · rintro (h | - | h | stem | stem)
    · obtain ⟨hid, hunder, hcamel⟩ := not_identifier_iff.mp h
      rw [displayKey, if_neg hid, replaceEnd_of_not _ hunder, replaceEnd_of_not _ hcamel]
    · rfl
    · rw [displayKey, if_neg (append_ne_id (by decide) (by decide)), replaceEnd_append,
        String.append_empty, replaceEnd_of_not _ h]
    · rw [displayKey, if_neg (append_ne_id (by decide) (by decide)),
        replaceEnd_of_not _ (camel_not_underscore stem), replaceEnd_append]
    · rw [displayKey, if_neg (append_ne_id (by decide) (by decide)), replaceEnd_append,
        String.append_empty, replaceEnd_append]

/-- A key that is no identifier is its own name. -/
theorem displayKey_of_not_identifier {key : String} (h : ¬ isIdentifier key) :
    displayKey key = key := displayKey_eq_iff.mpr (.plain h)

/-- Two keys that are shown under one name. -/
def Clash (key key' : String) : Prop := ∃ name, Spells name key ∧ Spells name key'

theorem clash_iff {key key' : String} : Clash key key' ↔ displayKey key = displayKey key' := by
  simp only [Clash, ← displayKey_eq_iff]
  exact ⟨fun ⟨name, h, h'⟩ => h.trans h'.symm, fun h => ⟨_, rfl, h.symm⟩⟩

/-- In no object that is shown do two keys clash. What an identifier key holds is not shown. -/
inductive Distinct : Json → Prop
  | null : Distinct .null
  | bool (b : Bool) : Distinct (.bool b)
  | number (text : String) : Distinct (.number text)
  | string (s : String) : Distinct (.string s)
  | array {items : List Json} (h : ∀ item ∈ items, Distinct item) : Distinct (.array items)
  | object {fields : List (String × Json)} (hkeys : fields.Pairwise fun p q => ¬ Clash p.1 q.1)
      (h : ∀ p ∈ fields, ¬ isIdentifier p.1 → Distinct p.2) : Distinct (.object fields)

/-- The second value shows the first and, at every depth, all its entries. -/
inductive Keeps : Json → Json → Prop
  | null : Keeps .null .null
  | bool (b : Bool) : Keeps (.bool b) (.bool b)
  | number (text : String) : Keeps (.number text) (.number text)
  | string (s : String) : Keeps (.string s) (.string s)
  | array {items shown : List Json}
      (hshown : List.Forall₂ (fun item s => s = payloadDisplayValue item) items shown)
      (h : ∀ item ∈ items, Keeps item (payloadDisplayValue item)) :
      Keeps (.array items) (.array shown)
  | object {fields shown : List (String × Json)} (hlen : shown.length = fields.length)
      (hshown : ∀ p ∈ fields, ¬ isIdentifier p.1 →
        Json.property shown p.1 = some (payloadDisplayValue p.2))
      (h : ∀ p ∈ fields, ¬ isIdentifier p.1 → Keeps p.2 (payloadDisplayValue p.2)) :
      Keeps (.object fields) (.object shown)

theorem nodup_displayEntry_iff (fields : List (String × Json)) :
    (Entries.keys (fields.map displayEntry)).Nodup ↔
      fields.Pairwise fun p q => ¬ Clash p.1 q.1 := by
  simp only [Entries.keys, List.map_map, List.Nodup, List.pairwise_map, Function.comp_apply,
    displayEntry, clash_iff]

/-- An entry whose key is no identifier is found under its key. -/
theorem property_displayEntry {fields : List (String × Json)}
    (h : fields.Pairwise fun p q => ¬ Clash p.1 q.1) {p : String × Json} (hp : p ∈ fields)
    (hkey : ¬ isIdentifier p.1) :
    Json.property (fromEntries (fields.map displayEntry)) p.1 = some (payloadDisplayValue p.2) := by
  have hnodup := (nodup_displayEntry_iff fields).mpr h
  have hperm := perm_fromEntries hnodup
  have hshown : Entries.keys (fromEntries (fields.map displayEntry)) |>.Nodup :=
    (hperm.map Prod.fst).nodup_iff.mpr hnodup
  have hentry : displayEntry p = (p.1, payloadDisplayValue p.2) := by
    rw [displayEntry, displayKey_of_not_identifier hkey, if_neg hkey]
  have hmem := hperm.mem_iff.mpr (List.mem_map_of_mem hp)
  rw [hentry] at hmem
  exact property_of_mem hshown hmem

/-- The display keeps everything exactly when no two keys of one object clash. -/
theorem display_keeps_iff (v : Json) : Keeps v (payloadDisplayValue v) ↔ Distinct v := by
  induction v using Json.induction with
  | null => exact iff_of_true .null .null
  | bool b => exact iff_of_true (.bool b) (.bool b)
  | number text => exact iff_of_true (.number text) (.number text)
  | string s => exact iff_of_true (.string s) (.string s)
  | array items ih =>
    rw [display_array]
    constructor
    · rintro (_ | _ | _ | _ | ⟨-, h⟩)
      exact .array fun item hitem => (ih item hitem).mp (h item hitem)
    · rintro (_ | _ | _ | _ | h)
      refine .array ?_ fun item hitem => (ih item hitem).mpr (h item hitem)
      exact List.forall₂_map_right_iff.mpr (List.forall₂_same.mpr fun _ _ => rfl)
  | object fields ih =>
    rw [display_object]
    constructor
    · rintro (_ | _ | _ | _ | _ | ⟨hlen, -, h⟩)
      have hkeys := (length_fromEntries_eq_iff _).mp (hlen.trans (List.length_map _).symm)
      exact .object ((nodup_displayEntry_iff fields).mp hkeys) fun p hp hkey =>
        (ih p hp).mp (h p hp hkey)
    · rintro (_ | _ | _ | _ | _ | ⟨hkeys, h⟩)
      refine .object ?_ (fun p hp hkey => property_displayEntry hkeys hp hkey)
        fun p hp hkey => (ih p hp).mpr (h p hp hkey)
      rw [(length_fromEntries_eq_iff _).mpr ((nodup_displayEntry_iff fields).mpr hkeys),
        List.length_map]

/-- Of an id and a name one is lost. -/
theorem id_replaces_name : ¬ ∀ v, Keeps v (payloadDisplayValue v) := by
  intro hall
  have hshown : payloadDisplayValue (.object [("id", .number "7"), ("name", .string "report")]) =
      .object [("name", .string "report")] := by rfl
  have hkeeps := hall (.object [("id", .number "7"), ("name", .string "report")])
  rw [hshown] at hkeeps
  cases hkeeps with
  | object hlen => cases hlen

/-- The same value, but for what identifier keys hold. -/
inductive Alike : Json → Json → Prop
  | refl (v : Json) : Alike v v
  | array {items items' : List Json} (hlen : items.length = items'.length)
      (h : ∀ p ∈ items.zip items', Alike p.1 p.2) : Alike (.array items) (.array items')
  | object {fields fields' : List (String × Json)}
      (hkeys : fields.map Prod.fst = fields'.map Prod.fst)
      (h : ∀ p ∈ fields.zip fields', ¬ isIdentifier p.1.1 → Alike p.1.2 p.2.2) :
      Alike (.object fields) (.object fields')

theorem map_eq_map_iff_zip {α β : Type*} {f : α → β} {l l' : List α} :
    l.map f = l'.map f ↔ l.length = l'.length ∧ ∀ p ∈ l.zip l', f p.1 = f p.2 := by
  rw [← List.forall₂_eq_eq_eq, List.forall₂_map_left_iff, List.forall₂_map_right_iff,
    List.forall₂_iff_zip, Prod.forall]

/-- The values of identifier keys leave no trace in the display. -/
theorem display_eq_of_alike {v w : Json} (h : Alike v w) :
    payloadDisplayValue v = payloadDisplayValue w := by
  induction h with
  | refl v => rfl
  | array hlen _ ih => rw [display_array, display_array, map_eq_map_iff_zip.mpr ⟨hlen, ih⟩]
  | @object fields fields' hkeys _ ih =>
    obtain ⟨hlen, hkeys⟩ := map_eq_map_iff_zip.mp hkeys
    have hentries : fields.map displayEntry = fields'.map displayEntry := by
      refine map_eq_map_iff_zip.mpr ⟨hlen, fun p hp => ?_⟩
      rw [displayEntry, displayEntry, ← hkeys p hp]
      split_ifs with hid
      · rfl
      · rw [ih p hp hid]
    rw [display_object, display_object, hentries]

/-- The payloads of two reports for different users. -/
def reportFor (user : Json) (order : String) : Json :=
  .object [("user_id", user),
    ("orders", .array [.object [("orderId", .string order), ("rows", .number "3")]])]

theorem display_eq_of_alike_reports :
    payloadDisplayValue (reportFor (.number "7") "a") =
      payloadDisplayValue (reportFor (.array [.null]) "b") := by
  refine display_eq_of_alike (.object rfl fun p hp hkey => ?_)
  have hmem : p = (("user_id", .number "7"), ("user_id", .array [.null])) ∨
      p = (("orders", .array [.object [("orderId", .string "a"), ("rows", .number "3")]]),
        ("orders", .array [.object [("orderId", .string "b"), ("rows", .number "3")]])) := by
    simpa using hp
  rcases hmem with rfl | rfl
  · exact absurd (by decide) hkey
  · refine .array rfl fun q hq => ?_
    rw [List.mem_singleton.mp hq]
    refine .object rfl fun r hr hkey' => ?_
    have hmem' : r = (("orderId", .string "a"), ("orderId", .string "b")) ∨
        r = (("rows", .number "3"), ("rows", .number "3")) := by simpa using hr
    rcases hmem' with rfl | rfl
    · exact absurd (by decide) hkey'
    · exact .refl _

end JobFlow.Web.PayloadDisplay
