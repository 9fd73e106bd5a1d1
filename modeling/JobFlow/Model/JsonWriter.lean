import JobFlow.Lib.EventSource
import JobFlow.Model.JsonText
import JobFlow.Model.Wire

/-!
# Writing documents

The writers differ in what they escape and in how they indent. Whatever the layout, a
document is read back from its text; `Wire.compact` is one of the writers.
-/

namespace JobFlow.Model.JsonText

open JobFlow.Lib (Numeral)
open JobFlow.Lib.EventSource (OneLine)

/-- What a character in a string is written as, and what a level is indented by. -/
structure Layout where
  escape : Char → List Char
  gap : List Char
  reads : ∀ c rest, units (escape c ++ rest) = (units rest).map fun x => (c.toNat :: x.1, x.2)
  blank : gap.all isSpace

namespace Layout

variable (l : Layout)

def quote (s : String) : List Char := '"' :: (s.toList.flatMap l.escape ++ ['"'])

/-- Without a gap everything stands on one line. -/
def newline (indent : List Char) : List Char := if l.gap = [] then [] else '\n' :: indent

def colon : List Char := if l.gap = [] then [':'] else [':', ' ']

mutual

def print (indent : List Char) : Json → List Char
  | .null => ['n', 'u', 'l', 'l']
  | .bool b => if b then ['t', 'r', 'u', 'e'] else ['f', 'a', 'l', 's', 'e']
  | .number text => text.toList
  | .string s => l.quote s
  | .array items =>
    if items.isEmpty then ['[', ']']
    else '[' :: (l.newline (indent ++ l.gap) ++ printItems (indent ++ l.gap) items ++
      (l.newline indent ++ [']']))
  | .object fields =>
    if fields.isEmpty then ['{', '}']
    else '{' :: (l.newline (indent ++ l.gap) ++ printFields (indent ++ l.gap) fields ++
      (l.newline indent ++ ['}']))

def printItems (indent : List Char) : List Json → List Char
  | [] => []
  | [item] => print indent item
  | item :: items => print indent item ++ ',' :: (l.newline indent ++ printItems indent items)

def printFields (indent : List Char) : List (String × Json) → List Char
  | [] => []
  | [(key, value)] => l.quote key ++ l.colon ++ print indent value
  | (key, value) :: fields => l.quote key ++ l.colon ++ print indent value ++
      ',' :: (l.newline indent ++ printFields indent fields)

end

/-! ### Strings and spaces -/

theorem units_quote (cs rest : List Char) :
    units (cs.flatMap l.escape ++ '"' :: rest) = some (cs.map Char.toNat, rest) := by
  induction cs with
  | nil => rfl
  | cons c cs ih => rw [List.flatMap_cons, List.append_assoc, l.reads, ih]; rfl

theorem string_quote (s : String) (rest : List Char) :
    string (s.toList.flatMap l.escape ++ '"' :: rest) = some (s, rest) := by
  rw [string, l.units_quote, Option.map_some, decode_toNat, String.ofList_toList]

theorem quote_append (s : String) (rest : List Char) :
    l.quote s ++ rest = '"' :: (s.toList.flatMap l.escape ++ '"' :: rest) := by
  rw [quote, List.cons_append, List.append_assoc, List.singleton_append]

theorem blank_newline {indent : List Char} (h : indent.all isSpace) :
    (l.newline indent).all isSpace := by
  unfold newline
  split
  · rfl
  · rw [List.all_cons, h]
    rfl

theorem blank_indent {indent : List Char} (h : indent.all isSpace) :
    (indent ++ l.gap).all isSpace := by
  rw [List.all_append, h, l.blank]
  rfl

theorem skip_newline {indent : List Char} (h : indent.all isSpace) {c : Char}
    (hc : isSpace c = false) (rest : List Char) :
    skip (l.newline indent ++ c :: rest) = c :: rest := by
  rw [skip_blank (l.blank_newline h), skip_of_not_space hc]

theorem closed_newline {indent : List Char} {c : Char} (h : Numeral.isPart c = false)
    (rest : List Char) : Closed (l.newline indent ++ c :: rest) := by
  unfold newline
  split
  · exact closed_cons h rest
  · exact closed_cons rfl _

theorem key_quote (k : String) (rest : List Char) :
    key (l.quote k ++ (l.colon ++ rest)) =
      some (k, (if l.gap = [] then [] else [' ']) ++ rest) := by
  have hskip : ∀ t, skip ('"' :: t) = '"' :: t := fun t => skip_of_not_space rfl t
  rw [quote_append, key, hskip]
  simp only [l.string_quote, Option.bind_some]
  by_cases hgap : l.gap = []
  · rw [colon, if_pos hgap, if_pos hgap]
    rfl
  · rw [colon, if_neg hgap, if_neg hgap]
    rfl

/-! ### Reading back -/

theorem printItems_cons (indent : List Char) (item : Json) (items : List Json) :
    l.printItems indent (item :: items) = l.print indent item ++
      if items.isEmpty then [] else ',' :: (l.newline indent ++ l.printItems indent items) := by
  cases items with
  | nil => exact (List.append_nil _).symm
  | cons next items => rfl

theorem printFields_cons (indent : List Char) (k : String) (v : Json)
    (fields : List (String × Json)) :
    l.printFields indent ((k, v) :: fields) = l.quote k ++ (l.colon ++ (l.print indent v ++
      if fields.isEmpty then [] else ',' :: (l.newline indent ++ l.printFields indent fields))) := by
  cases fields with
  | nil => simp [printFields]
  | cons next fields => simp [printFields]

theorem print_opening {v : Json} (hv : v.valid) (indent : List Char) :
    ∃ c text, l.print indent v = c :: text ∧ isOpening c := by
  cases v with
  | null => exact ⟨'n', _, rfl, rfl⟩
  | bool b => cases b <;> exact ⟨_, _, rfl, rfl⟩
  | number text =>
    rw [Json.valid] at hv
    obtain ⟨hne, hpart⟩ := Numeral.parse_isSome hv
    obtain ⟨c, cs, hcs⟩ := List.exists_cons_of_ne_nil hne
    rw [hcs, List.all_cons, Bool.and_eq_true] at hpart
    exact ⟨c, cs, hcs, by simp only [isOpening, hpart.1, Bool.or_true, Bool.true_or]⟩
  | string s => exact ⟨'"', _, rfl, rfl⟩
  | array items =>
    rw [print]
    split <;> exact ⟨'[', _, rfl, rfl⟩
  | object fields =>
    rw [print]
    split <;> exact ⟨'{', _, rfl, rfl⟩

/-- An array that does not end at once. -/
theorem value_array {items' : List Json} (hne : items' ≠ []) (hv : Json.validItems items')
    {indent space : List Char} (hspace : space.all isSpace) {fuel : Nat} {rest tail : List Char}
    (h : items fuel (l.printItems indent items' ++ tail) = some (items', rest)) :
    value (fuel + 1) ('[' :: (space ++ (l.printItems indent items' ++ tail))) =
      some (.array items', rest) := by
  obtain ⟨item, items', rfl⟩ := List.exists_cons_of_ne_nil hne
  rw [Json.validItems, Bool.and_eq_true] at hv
  obtain ⟨c, text, htext, hc⟩ := l.print_opening hv.1 indent
  rw [printItems_cons, htext, List.cons_append, List.cons_append] at h ⊢
  have hclose : c ≠ ']' := by
    rintro rfl
    revert hc
    decide
  rw [value, skip_of_not_space rfl]
  simp only [show '[' ≠ '"' by decide, if_true, if_false, skip_blank hspace, skip_opening hc]
  split
  next heq => exact absurd (List.cons_eq_cons.mp heq).1 hclose
  · rw [h, Option.map_some]

/-- An object that does not end at once. -/
theorem value_object {fields' : List (String × Json)} (hne : fields' ≠ [])
    {indent space : List Char} (hspace : space.all isSpace) {fuel : Nat} {rest tail : List Char}
    (h : fields fuel (l.printFields indent fields' ++ tail) = some (fields', rest)) :
    value (fuel + 1) ('{' :: (space ++ (l.printFields indent fields' ++ tail))) =
      some (.object fields', rest) := by
  obtain ⟨⟨k, v⟩, fields', rfl⟩ := List.exists_cons_of_ne_nil hne
  rw [printFields_cons, quote, List.cons_append, List.cons_append] at h ⊢
  rw [value, skip_of_not_space rfl]
  simp only [show '{' ≠ '"' by decide, show '{' ≠ '[' by decide, if_true, if_false,
    skip_blank hspace, skip_of_not_space (show isSpace '"' = false from rfl)]
  exact congrArg (Option.map fun x => (Json.object x.1, x.2)) h

mutual

/-- A document is read back from its text, whatever text follows. -/
theorem value_print (v : Json) (hv : v.valid) {fuel : Nat} (hf : cost v ≤ fuel)
    {indent : List Char} (hi : indent.all isSpace) {rest : List Char} (hr : Closed rest) :
    value fuel (l.print indent v ++ rest) = some (v, rest) := by
  obtain ⟨fuel, rfl⟩ : ∃ n, fuel = n + 1 := ⟨fuel - 1, by have := cost_pos v; omega⟩
  match v with
  | .null => rfl
  | .bool true => rfl
  | .bool false => rfl
  | .number text =>
    rw [Json.valid] at hv
    rw [print, value_number hv hr, String.ofList_toList]
  | .string s =>
    have hvalue : value (fuel + 1) ('"' :: (s.toList.flatMap l.escape ++ '"' :: rest)) =
        (string (s.toList.flatMap l.escape ++ '"' :: rest)).map fun x => (.string x.1, x.2) := rfl
    rw [print, quote_append, hvalue, l.string_quote, Option.map_some]
  | .array items' =>
    rw [Json.valid] at hv
    rw [cost] at hf
    by_cases hne : items' = []
    · rw [hne]
      rfl
    · have hitems := items_print items' hne hv (Nat.le_of_succ_le_succ hf) (l.blank_indent hi) hi rest
      rw [print, if_neg (by simpa using hne), List.cons_append, List.append_assoc, List.append_assoc,
        List.append_assoc, List.singleton_append]
      exact l.value_array hne hv (l.blank_newline (l.blank_indent hi)) hitems
  | .object fields' =>
    rw [Json.valid] at hv
    rw [cost] at hf
    by_cases hne : fields' = []
    · rw [hne]
      rfl
    · have hfields :=
        fields_print fields' hne hv (Nat.le_of_succ_le_succ hf) (l.blank_indent hi) hi rest
      rw [print, if_neg (by simpa using hne), List.cons_append, List.append_assoc, List.append_assoc,
        List.append_assoc, List.singleton_append]
      exact l.value_object hne (l.blank_newline (l.blank_indent hi)) hfields

theorem items_print (items' : List Json) (hne : items' ≠ []) (hv : Json.validItems items')
    {fuel : Nat} (hf : costItems items' ≤ fuel) {indent back : List Char}
    (hi : indent.all isSpace) (hb : back.all isSpace) (rest : List Char) :
    items fuel (l.printItems indent items' ++ (l.newline back ++ ']' :: rest)) =
      some (items', rest) := by
  match items' with
  | [] => exact absurd rfl hne
  | item :: items' =>
    rw [Json.validItems, Bool.and_eq_true] at hv
    rw [costItems] at hf
    obtain ⟨fuel, rfl⟩ : ∃ n, fuel = n + 1 := ⟨fuel - 1, by omega⟩
    have hcost : cost item ≤ fuel := by omega
    rw [printItems_cons, items, List.append_assoc]
    match items' with
    | [] =>
      rw [List.isEmpty_nil, if_pos rfl, List.nil_append,
        value_print item hv.1 hcost hi (l.closed_newline rfl _), Option.bind_some]
      simp only [l.skip_newline hb (show isSpace ']' = false from rfl)]
    | next :: items' =>
      have hfuel : costItems (next :: items') ≤ fuel := by omega
      have hitems := items_print (next :: items') (List.cons_ne_nil _ _) hv.2 hfuel hi hb rest
      rw [List.isEmpty_cons, if_neg (by decide), List.cons_append,
        value_print item hv.1 hcost hi (closed_cons rfl _), Option.bind_some]
      simp only [skip_of_not_space (show isSpace ',' = false from rfl), List.append_assoc,
        items_blank (l.blank_newline hi), hitems, Option.map_some]

theorem fields_print (fields' : List (String × Json)) (hne : fields' ≠ [])
    (hv : Json.validFields fields') {fuel : Nat} (hf : costFields fields' ≤ fuel)
    {indent back : List Char} (hi : indent.all isSpace) (hb : back.all isSpace)
    (rest : List Char) :
    fields fuel (l.printFields indent fields' ++ (l.newline back ++ '}' :: rest)) =
      some (fields', rest) := by
  match fields' with
  | [] => exact absurd rfl hne
  | (k, v) :: fields' =>
    rw [Json.validFields, Bool.and_eq_true] at hv
    rw [costFields] at hf
    obtain ⟨fuel, rfl⟩ : ∃ n, fuel = n + 1 := ⟨fuel - 1, by omega⟩
    have hcost : cost v ≤ fuel := by omega
    have hblank : (if l.gap = [] then ([] : List Char) else [' ']).all isSpace := by split <;> rfl
    rw [printFields_cons, fields, List.append_assoc, List.append_assoc, l.key_quote,
      Option.bind_some, value_blank hblank, List.append_assoc]
    match fields' with
    | [] =>
      rw [List.isEmpty_nil, if_pos rfl, List.nil_append,
        value_print v hv.1 hcost hi (l.closed_newline rfl _), Option.bind_some]
      simp only [l.skip_newline hb (show isSpace '}' = false from rfl)]
    | next :: fields' =>
      have hfuel : costFields (next :: fields') ≤ fuel := by omega
      have hfields := fields_print (next :: fields') (List.cons_ne_nil _ _) hv.2 hfuel hi hb rest
      rw [List.isEmpty_cons, if_neg (by decide), List.cons_append,
        value_print v hv.1 hcost hi (closed_cons rfl _), Option.bind_some]
      simp only [skip_of_not_space (show isSpace ',' = false from rfl), List.append_assoc,
        fields_blank (l.blank_newline hi), hfields, Option.map_some]

end

mutual

theorem cost_le_length (v : Json) (hv : v.valid) (indent : List Char) :
    cost v ≤ (l.print indent v).length := by
  match v with
  | .null | .bool true | .bool false => exact Nat.succ_pos _
  | .number text =>
    rw [Json.valid] at hv
    rw [cost, print]
    exact List.length_pos_iff.mpr (Numeral.parse_isSome hv).1
  | .string s =>
    rw [cost, print, quote, List.length_cons]
    omega
  | .array items =>
    rw [Json.valid] at hv
    have := costItems_le_length items hv (indent ++ l.gap)
    rw [cost, print]
    split
    next h => rw [List.isEmpty_iff.mp h]; decide
    · simp only [List.length_cons, List.length_append, List.length_nil]
      omega
  | .object fields =>
    rw [Json.valid] at hv
    have := costFields_le_length fields hv (indent ++ l.gap)
    rw [cost, print]
    split
    next h => rw [List.isEmpty_iff.mp h]; decide
    · simp only [List.length_cons, List.length_append, List.length_nil]
      omega

theorem costItems_le_length (items : List Json) (hv : Json.validItems items)
    (indent : List Char) : costItems items ≤ (l.printItems indent items).length + 1 := by
  match items with
  | [] => rw [costItems]; omega
  | item :: items =>
    rw [Json.validItems, Bool.and_eq_true] at hv
    have hitem := cost_le_length item hv.1 indent
    have hitems := costItems_le_length items hv.2 indent
    rw [costItems, printItems_cons, List.length_append]
    split
    next h =>
      rw [List.isEmpty_iff.mp h, costItems]
      omega
    · simp only [List.length_cons, List.length_append]
      omega

theorem costFields_le_length (fields : List (String × Json)) (hv : Json.validFields fields)
    (indent : List Char) : costFields fields ≤ (l.printFields indent fields).length + 1 := by
  match fields with
  | [] => rw [costFields]; omega
  | (k, v) :: fields =>
    rw [Json.validFields, Bool.and_eq_true] at hv
    have hvalue := cost_le_length v hv.1 indent
    have hfields := costFields_le_length fields hv.2 indent
    rw [costFields, printFields_cons, List.length_append, List.length_append, List.length_append]
    split
    next h =>
      rw [List.isEmpty_iff.mp h, costFields]
      omega
    · simp only [List.length_cons, List.length_append]
      omega

end

/-- The text of a document is read back as the document. -/
theorem parse_print (v : Document) : parse (String.ofList (l.print [] v.1)) = some v.1 := by
  have hclosed : Closed [] := by simp [Closed]
  have hblank : ([] : List Char).all isSpace := rfl
  have hvalue := l.value_print v.1 v.2 (l.cost_le_length v.1 v.2 []) hblank hclosed
  rw [List.append_nil] at hvalue
  rw [parse, String.toList_ofList, hvalue]
  rfl

end Layout

/-! ### `encoding/json` -/

theorem hexValue?_hexDigit : ∀ d < 16, hexValue? (Wire.hexDigit d) = some d := by decide

theorem unit?_hexDigit {n : Nat} (h : n < 256) :
    unit? '0' '0' (Wire.hexDigit (n / 16)) (Wire.hexDigit (n % 16)) = some n := by
  have hhigh := hexValue?_hexDigit (n / 16) (by omega)
  have hlow := hexValue?_hexDigit (n % 16) (by omega)
  have hzero : hexValue? '0' = some 0 := rfl
  simp only [unit?, hzero, hhigh, hlow, Option.bind_eq_bind, Option.bind_some, Option.some.injEq]
  omega

/-- A character that is neither a quote, a backslash nor a control character. -/
theorem units_plain {c : Char} (hquote : c ≠ '"') (hslash : c ≠ '\\') (hprint : ¬ c.toNat < 32)
    (rest : List Char) :
    units ([c] ++ rest) = (units rest).map fun x => (c.toNat :: x.1, x.2) := by
  rw [List.singleton_append, units]
  · rw [if_neg hprint]
  · exact hquote
  · exact fun _ _ _ _ _ h _ => hslash h
  · exact fun _ _ h _ => hslash h

/-- What is escaped by two digits fits into them. -/
theorem lt_of_escaped {c : Char} (h : c.toNat < 32 ∨ c = '<' ∨ c = '>' ∨ c = '&') :
    c.toNat < 256 := by
  rcases h with h | rfl | rfl | rfl
  · omega
  · decide
  · decide
  · decide

/-- What a character was escaped to is one code unit. -/
theorem units_escape (c : Char) (rest : List Char) :
    units (Wire.escape c ++ rest) = (units rest).map fun x => (c.toNat :: x.1, x.2) := by
  unfold Wire.escape
  split
  case isTrue h => subst h; rfl
  next hquote =>
  split
  case isTrue h => subst h; rfl
  next hslash =>
  split
  case isTrue h => rw [h]; rfl
  split
  case isTrue h => rw [h]; rfl
  split
  case isTrue h => rw [h]; rfl
  split
  case isTrue h => rw [h]; rfl
  split
  case isTrue h => rw [h]; rfl
  split
  case isTrue h =>
    simp only [List.cons_append, List.nil_append, units, unit?_hexDigit (lt_of_escaped h),
      Option.bind_some]
  next hplain =>
  split
  case isTrue h => rcases h with h | h <;> rw [h] <;> rfl
  exact units_plain hquote hslash (fun h => hplain (.inl h)) rest

/-- On one line, with the escapes of `encoding/json`. -/
def marshalLayout : Layout := ⟨Wire.escape, [], units_escape, rfl⟩

theorem toList_quote (s : String) : (Wire.quote s).toList = marshalLayout.quote s := by
  rw [Wire.quote, String.toList_ofList, List.cons_append]
  rfl

theorem newline_marshalLayout (indent : List Char) : marshalLayout.newline indent = [] := rfl

theorem compactItems_cons (item : Json) (items : List Json) :
    (Wire.compactItems (item :: items)).toList = (Wire.compact item).toList ++
      if items.isEmpty then [] else ',' :: (Wire.compactItems items).toList := by
  cases items <;> simp [Wire.compactItems]

theorem compactFields_cons (k : String) (v : Json) (fields : List (String × Json)) :
    (Wire.compactFields ((k, v) :: fields)).toList =
      (Wire.quote k).toList ++ ([':'] ++ ((Wire.compact v).toList ++
        if fields.isEmpty then [] else ',' :: (Wire.compactFields fields).toList)) := by
  cases fields <;> simp [Wire.compactFields]

mutual

theorem toList_compact (v : Json) (indent : List Char) :
    (Wire.compact v).toList = marshalLayout.print indent v := by
  match v with
  | .null | .bool true | .bool false => rfl
  | .number text => rfl
  | .string s => exact toList_quote s
  | .array items =>
    rw [Wire.compact, String.toList_append, String.toList_append,
      toList_compactItems items (indent ++ marshalLayout.gap), Layout.print]
    cases items <;> rfl
  | .object fields =>
    rw [Wire.compact, String.toList_append, String.toList_append,
      toList_compactFields fields (indent ++ marshalLayout.gap), Layout.print]
    cases fields <;> rfl

theorem toList_compactItems (items : List Json) (indent : List Char) :
    (Wire.compactItems items).toList = marshalLayout.printItems indent items := by
  match items with
  | [] => rfl
  | item :: items =>
    rw [compactItems_cons, toList_compact item indent, toList_compactItems items indent,
      Layout.printItems_cons, newline_marshalLayout, List.nil_append]

theorem toList_compactFields (fields : List (String × Json)) (indent : List Char) :
    (Wire.compactFields fields).toList = marshalLayout.printFields indent fields := by
  match fields with
  | [] => rfl
  | (k, v) :: fields =>
    rw [compactFields_cons, toList_quote, toList_compact v indent,
      toList_compactFields fields indent, Layout.printFields_cons, newline_marshalLayout,
      List.nil_append]
    rfl

end

/-- What `json.Marshal` writes is read back. -/
theorem parse_compact (v : Document) : parse (Wire.compact v.1) = some v.1 := by
  rw [← marshalLayout.parse_print v, ← toList_compact, String.ofList_toList]

/-! ### Line ends -/

theorem oneLine_cons {c : Char} {text : List Char} (hc : c ≠ '\r' ∧ c ≠ '\n') (h : OneLine text) :
    OneLine (c :: text) := List.forall_mem_cons.mpr ⟨hc, h⟩

theorem hexDigit_oneLine : ∀ d < 16, Wire.hexDigit d ≠ '\r' ∧ Wire.hexDigit d ≠ '\n' := by decide

/-- A line end is a control character, and those are escaped. -/
theorem escape_oneLine (c : Char) : OneLine (Wire.escape c) := by
  unfold Wire.escape
  split
  · simp [OneLine]
  split
  · simp [OneLine]
  split
  · simp [OneLine]
  split
  · simp [OneLine]
  split
  · simp [OneLine]
  next hlf =>
  split
  · simp [OneLine]
  split
  · simp [OneLine]
  next hcr =>
  have hlow := hexDigit_oneLine (c.toNat % 16) (Nat.mod_lt _ (by decide))
  split
  next h =>
    have hhigh : c.toNat / 16 < 16 := Nat.div_lt_of_lt_mul (lt_of_escaped h)
    simpa [OneLine] using ⟨hexDigit_oneLine _ hhigh, hlow⟩
  · split
    · simpa [OneLine] using hlow
    · have hc : c ≠ '\r' ∧ c ≠ '\n' := ⟨fun h => hcr (h ▸ rfl), fun h => hlf (h ▸ rfl)⟩
      simpa [OneLine] using hc

theorem quote_oneLine (s : String) : OneLine (Wire.quote s).toList := by
  have hbody : OneLine (s.toList.flatMap Wire.escape) := by
    intro c hc
    obtain ⟨d, -, hd⟩ := List.mem_flatMap.mp hc
    exact escape_oneLine d c hd
  rw [toList_quote]
  exact oneLine_cons (by decide) (hbody.append (by simp [OneLine]))

theorem numeral_oneLine {text : List Char} (h : (Numeral.parse text).isSome) : OneLine text := by
  intro c hc
  have hpart := List.all_eq_true.mp (Numeral.parse_isSome h).2 c hc
  constructor <;> rintro rfl <;> cases hpart

mutual

theorem print_oneLine (v : Json) (hv : v.valid) (indent : List Char) :
    OneLine (marshalLayout.print indent v) := by
  match v with
  | .null | .bool true | .bool false => simp [Layout.print, OneLine]
  | .number text =>
    rw [Json.valid] at hv
    exact numeral_oneLine hv
  | .string s =>
    rw [Layout.print, ← toList_quote]
    exact quote_oneLine s
  | .array items =>
    rw [Json.valid] at hv
    rw [Layout.print, newline_marshalLayout, newline_marshalLayout]
    split
    · simp [OneLine]
    · exact oneLine_cons (by decide) ((printItems_oneLine items hv _).append (by simp [OneLine]))
  | .object fields =>
    rw [Json.valid] at hv
    rw [Layout.print, newline_marshalLayout, newline_marshalLayout]
    split
    · simp [OneLine]
    · exact oneLine_cons (by decide) ((printFields_oneLine fields hv _).append (by simp [OneLine]))

theorem printItems_oneLine (items : List Json) (hv : Json.validItems items) (indent : List Char) :
    OneLine (marshalLayout.printItems indent items) := by
  match items with
  | [] => simp [Layout.printItems, OneLine]
  | item :: items =>
    rw [Json.validItems, Bool.and_eq_true] at hv
    rw [Layout.printItems_cons, newline_marshalLayout]
    refine (print_oneLine item hv.1 indent).append ?_
    split
    · simp [OneLine]
    · exact oneLine_cons (by decide) (printItems_oneLine items hv.2 indent)

theorem printFields_oneLine (fields : List (String × Json)) (hv : Json.validFields fields)
    (indent : List Char) : OneLine (marshalLayout.printFields indent fields) := by
  match fields with
  | [] => simp [Layout.printFields, OneLine]
  | (k, v) :: fields =>
    rw [Json.validFields, Bool.and_eq_true] at hv
    rw [Layout.printFields_cons, newline_marshalLayout, ← toList_quote]
    have hcolon : OneLine marshalLayout.colon := by simp [OneLine, Layout.colon, marshalLayout]
    refine (quote_oneLine k).append (hcolon.append ((print_oneLine v hv.1 indent).append ?_))
    split
    · simp [OneLine]
    · exact oneLine_cons (by decide) (printFields_oneLine fields hv.2 indent)

end

/-- What `json.Marshal` writes is on one line. -/
theorem compact_oneLine (v : Json) (hv : v.valid) : OneLine (Wire.compact v).toList := by
  rw [toList_compact v []]
  exact print_oneLine v hv []

end JobFlow.Model.JsonText
