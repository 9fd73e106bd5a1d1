import JobFlow.Model.Processor

/-!
# The body of a webhook

The body is decoded into Go values and encoded again, and a number is a `float64` in
between. What is sent means the same as what the payload holds just where no number is
changed by that.
-/

namespace JobFlow.Worker.Webhook

open JobFlow.Model
open JobFlow.Model.Processor
open JobFlow.Lib
open JobFlow.Lib.Binary64 (reread reread_reread)

/-! ### Values that are decoded and encoded -/

/-- The number that a `float64` is written as. -/
def written (x : Binary64) : ℚ := x.toNumeral.value

theorem numeralValue_numberText (x : Binary64) : numeralValue (numberText x) = written x := by
  obtain ⟨n, hn, hneg, hmag⟩ := Numeral.parse_text x.toNumeral
  rw [numeralValue, numberText, String.toList_ofList, hn]
  exact Numeral.value_congr hneg hmag

/-- A `float64` in range is written as what rounding makes of the number. -/
theorem written_float64 {text : String} {x : Binary64} (h : float64 text = some x) :
    written x = reread (numeralValue text) := by
  obtain ⟨n, hn, hx⟩ := Option.bind_eq_some_iff.mp h
  rw [written, Binary64.value_toNumeral hx, numeralValue, hn]
  rfl

theorem map_any {v : Json} (h : inRange v) :
    (any v).map written = v.meaning.map reread := by
  rw [Json.meaning, Value.map_map]
  refine (Value.bind_bind _ _ _).trans (Value.bind_congr fun text ht => ?_)
  obtain ⟨x, hx⟩ := Option.isSome_iff_exists.mp
    (List.all_eq_true.mp h text (Json.mem_numbers_of_tree ht))
  simp only [hx, ← written_float64 hx]
  rfl

theorem canonical_any (v : Json) : (any v).Canonical := by
  refine (Json.canonical_tree v).bind fun text => ?_
  split
  · exact .number _
  · exact .null

/-- What is marshalled is read back as it was written. -/
theorem parse_marshal {v : Value Binary64} (h : v.Canonical) :
    ∃ doc, JsonText.parse (marshal v) = some doc ∧ doc.meaning = v.map written := by
  have hvalid : (Json.ofTree (v.map numberText)).valid := by
    refine Json.valid_ofTree fun text ht => ?_
    rw [Value.numbers_map] at ht
    obtain ⟨x, -, rfl⟩ := List.mem_map.mp ht
    obtain ⟨n, hn, -⟩ := Numeral.parse_text x.toNumeral
    rw [numberText, String.toList_ofList, hn]
    rfl
  refine ⟨_, JsonText.parse_compact ⟨_, hvalid⟩, ?_⟩
  rw [Json.meaning, Json.tree_ofTree (h.map _), Value.map_map]
  exact Value.map_congr fun x _ => numeralValue_numberText x

/-! ### The members that spell `body` -/

/-- The members of a map as they are meant. -/
def meant (fields : List (String × Json)) : List (String × Value ℚ) :=
  Members.putAll [] (Members.mapValues Json.meaning fields)

/-- What one member of the payload makes of the map. -/
def gather (body : Option (List (String × Value ℚ))) (field : String × Json) :
    Option (List (String × Value ℚ)) :=
  if field.1.toLower = "body" then
    match field.2 with
    | .object fields => some (Members.putAll (body.getD []) (Members.mapValues Json.meaning fields))
    | .null => none
    | _ => body
  else body

/-- What all members whose keys are `body`, in whatever case, make of the map together. -/
def gathered (fields : List (String × Json)) : Option (List (String × Value ℚ)) :=
  fields.foldl gather none

/-- The map with all its numbers rounded. -/
def rounded (members : List (String × Value ℚ)) : List (String × Value ℚ) :=
  Members.mapValues (Value.map reread) members

/-- A payload that decodes, with a method and an address a request can be built from. -/
def Sendable (accepts : String → String → Bool) (payload : Json) : Prop :=
  (unmarshal payload).failed = false ∧ (unmarshal payload).url ≠ "" ∧
    accepts (if (unmarshal payload).method = "" then "POST" else (unmarshal payload).method)
      (unmarshal payload).url = true

/-- Every number is the shortest decimal of the `float64` next to it. -/
def Exact (v : Json) : Prop := ∀ q ∈ v.meaning.numbers, reread q = q

theorem meaning_object (fields : List (String × Json)) :
    (Json.object fields).meaning = .object (meant fields) := by
  have hmembers := Members.putAll_mapValues (Value.map numeralValue) []
    (Members.mapValues Json.tree fields)
  rw [Json.meaning, Json.tree_object]
  rw [Members.mapValues_mapValues] at hmembers
  exact (Value.bind_object _ _).trans (congrArg Value.object hmembers.symm)

/-- The decoded map and the members it was made of. -/
structure Agrees (p : Payload) (g : Option (List (String × Value ℚ))) : Prop where
  values : p.failed = false → p.body.map (Members.mapValues (Value.map written)) = g.map rounded
  canonical : ∀ m ∈ p.body, (Value.object m).Canonical

theorem Agrees.of_body {p p' : Payload} {g : Option (List (String × Value ℚ))} (h : Agrees p g)
    (hbody : p'.body = p.body) (hfailed : p'.failed = false → p.failed = false) : Agrees p' g where
  values hp := by rw [hbody, h.values (hfailed hp)]
  canonical := by rw [hbody]; exact h.canonical

/-- Members whose numbers are in range. -/
theorem mapValues_any {fields : List (String × Json)} (h : inRange (.object fields)) :
    Members.mapValues (Value.map written) (Members.mapValues any fields) =
      rounded (Members.mapValues Json.meaning fields) := by
  rw [rounded, Members.mapValues_mapValues, Members.mapValues_mapValues]
  refine List.map_congr_left fun p hp => ?_
  have hrange : inRange p.2 := by
    refine List.all_eq_true.mpr fun text ht => List.all_eq_true.mp h text ?_
    rw [Json.numbers_object]
    exact List.mem_flatMap.mpr ⟨p, hp, ht⟩
  exact congrArg (Prod.mk p.1) (map_any hrange)

/-- An object for the map adds its members to those that are there. -/
theorem Agrees.add {p : Payload} {g : Option (List (String × Value ℚ))} (h : Agrees p g)
    (fields : List (String × Json)) :
    Agrees { p with
        body := some (Members.putAll (p.body.getD []) (Members.mapValues any fields))
        failed := p.failed || !inRange (.object fields) }
      (some (Members.putAll (g.getD []) (Members.mapValues Json.meaning fields))) where
  values hp := by
    obtain ⟨hok, hrange⟩ := Bool.or_eq_false_iff.mp hp
    rw [Bool.not_eq_false'] at hrange
    have hold : Members.mapValues (Value.map written) (p.body.getD []) = rounded (g.getD []) := by
      have hvalues := h.values hok
      cases hb : p.body <;> cases hg : g <;> rw [hb, hg] at hvalues
      · rfl
      · cases hvalues
      · cases hvalues
      · exact Option.some.inj hvalues
    rw [Option.map_some, Option.map_some, ← Members.putAll_mapValues, hold, mapValues_any hrange,
      rounded, rounded, Members.putAll_mapValues]
    rfl
  canonical m hm := by
    obtain rfl := Option.some.inj hm
    have hold : (Value.object (p.body.getD [])).Canonical := by
      cases hb : p.body with
      | none => exact .object List.Pairwise.nil fun q hq => absurd hq List.not_mem_nil
      | some m => exact h.canonical m hb
    cases hold with
    | object hsorted hmembers =>
      refine .object (Members.sorted_putAll hsorted _) fun q hq => ?_
      rcases Members.mem_putAll hq with hq | hq
      · exact hmembers q hq
      · obtain ⟨f, -, rfl⟩ := List.mem_map.mp hq
        exact canonical_any f.2

theorem agrees_set {p : Payload} {g : Option (List (String × Value ℚ))} (h : Agrees p g)
    (field : String × Json) : Agrees (p.set field) (gather g field) := by
  have hbad : ∀ g', Agrees { p with failed := true } g' := fun g' =>
    ⟨fun hp => (by cases hp), h.canonical⟩
  unfold Payload.set gather
  by_cases hurl : field.1.toLower = "url"
  · rw [if_pos hurl, if_neg (by rw [hurl]; decide)]
    cases decodeString p.url field.2 with
    | none => exact hbad g
    | some s => exact h.of_body rfl id
  by_cases hmethod : field.1.toLower = "method"
  · rw [if_neg hurl, if_pos hmethod, if_neg (by rw [hmethod]; decide)]
    cases decodeString p.method field.2 with
    | none => exact hbad g
    | some s => exact h.of_body rfl id
  by_cases hbody : field.1.toLower = "body"
  · rw [if_neg hurl, if_neg hmethod, if_pos hbody, if_pos hbody]
    cases field.2 with
    | object fields => exact h.add fields
    | null => exact ⟨fun _ => rfl, fun m hm => by cases hm⟩
    | bool b | number text | string s | array items => exact hbad g
  · rw [if_neg hurl, if_neg hmethod, if_neg hbody, if_neg hbody]
    exact h

theorem agrees_unmarshal (fields : List (String × Json)) :
    Agrees (unmarshal (.object fields)) (gathered fields) := by
  have hrun : ∀ (fields : List (String × Json)) p g, Agrees p g →
      Agrees (fields.foldl Payload.set p) (fields.foldl gather g) := by
    intro fields
    induction fields with
    | nil => exact fun p g h => h
    | cons field fields ih => exact fun p g h => ih _ _ (agrees_set h field)
  exact hrun fields {} none ⟨fun _ => rfl, fun m hm => by cases hm⟩

theorem gather_of_other {field : String × Json} (h : field.1.toLower ≠ "body")
    (g : Option (List (String × Value ℚ))) : gather g field = g := if_neg h

/-- With one spelling of the key its object is the whole map. -/
theorem gathered_single (before after : List (String × Json)) {body : List (String × Json)}
    {key : String} (hkey : key.toLower = "body") (hb : ∀ f ∈ before, f.1.toLower ≠ "body")
    (ha : ∀ f ∈ after, f.1.toLower ≠ "body") :
    gathered (before ++ (key, .object body) :: after) = some (meant body) := by
  have hskip : ∀ fields : List (String × Json), (∀ f ∈ fields, f.1.toLower ≠ "body") →
      ∀ g, fields.foldl gather g = g := by
    intro fields
    induction fields with
    | nil => exact fun _ g => rfl
    | cons f fields ih =>
      intro h g
      rw [List.foldl_cons, gather_of_other (h f List.mem_cons_self),
        ih fun q hq => h q (List.mem_cons_of_mem _ hq)]
  rw [gathered, List.foldl_append, List.foldl_cons, hskip before hb, hskip after ha, gather,
    if_pos hkey]
  rfl

/-! ### The request -/

/-- A job whose payload is an object with an address and an object for the body. -/
structure IsWebhook (job : Job) (fields body : List (String × Json)) : Prop where
  jobType : job.jobType = "send_webhook"
  payload : job.payload = .object fields
  url : ∃ url ≠ "", Json.property fields "url" = some (.string url)
  body : Json.property fields "body" = some (.object body)

/-- The text of the request body means what the payload has as its body. -/
def Delivered (req : Processor.Request) (body : List (String × Json)) : Prop :=
  ∃ doc, JsonText.parse req.body = some doc ∧ doc.meaning = (Json.object body).meaning

variable {accepts : String → String → Bool}
  {send : Processor.Request → Except String Processor.Response}

theorem webhook_request {payload : Json} {req : Processor.Request} :
    (webhook accepts send payload).1 = some req ↔ Sendable accepts payload ∧
      req = ⟨if (unmarshal payload).method = "" then "POST" else (unmarshal payload).method,
        (unmarshal payload).url, [("Content-Type", "application/json")],
        ((unmarshal payload).body.map fun m => marshal (.object m)).getD "null"⟩ := by
  simp only [webhook, Sendable]
  generalize unmarshal payload = p
  generalize (if p.method = "" then "POST" else p.method) = method
  by_cases hfailed : p.failed = true
  · simp [hfailed]
  by_cases hurl : p.url = ""
  · simp [hfailed, hurl]
  rw [if_neg hfailed, if_neg hurl]
  by_cases haccepts : accepts method p.url = true
  · rw [if_pos haccepts, Option.some.injEq, eq_comm]
    exact (and_iff_right ⟨Bool.not_eq_true _ ▸ hfailed, hurl, haccepts⟩).symm
  · simp [haccepts]

theorem process_webhook {job : Job} (h : job.jobType = "send_webhook") :
    process accepts send job = webhook accepts send job.payload := by
  rw [process, if_neg (by rw [h]; decide), if_pos h]

/-- The text for the decoded map means the members it was made of, rounded. -/
theorem parse_body {p : Payload} {g : Option (List (String × Value ℚ))} (h : Agrees p g)
    (hok : p.failed = false) :
    ∃ doc, JsonText.parse ((p.body.map fun m => marshal (.object m)).getD "null") = some doc ∧
      doc.meaning = ((g.map rounded).map Value.object).getD .null := by
  have hvalues := h.values hok
  cases hb : p.body with
  | none =>
    rw [hb] at hvalues
    rw [← hvalues]
    exact ⟨.null, rfl, rfl⟩
  | some m =>
    obtain ⟨doc, hparse, hmeaning⟩ := parse_marshal (h.canonical m hb)
    rw [hb] at hvalues
    rw [← hvalues]
    exact ⟨doc, hparse, hmeaning.trans (Value.bind_object _ _)⟩

theorem exact_iff (v : Json) : Exact v ↔ v.meaning.map reread = v.meaning := Value.map_eq_self.symm

theorem map_object (members : List (String × Value ℚ)) :
    (Value.object members).map reread = .object (rounded members) := Value.bind_object _ _

theorem rounded_rounded (members : List (String × Value ℚ)) :
    rounded (rounded members) = rounded members := by
  rw [rounded, rounded, Members.mapValues_mapValues]
  refine List.map_congr_left fun p _ => congrArg (Prod.mk p.1) ?_
  exact (Value.map_map reread reread p.2).trans (Value.map_congr fun q _ => reread_reread q)

/-- Whatever else the payload holds: what is sent means the body if and only if nothing is
sent, or every number in the body is the shortest decimal of its nearest `float64` and
members under other spellings of the key make no difference once numbers are rounded. -/
theorem delivered_iff {job : Job} {fields body : List (String × Json)}
    (h : IsWebhook job fields body) :
    (∀ req, (process accepts send job).1 = some req → Delivered req body) ↔
      (Sendable accepts (.object fields) → Exact (.object body) ∧
        (gathered fields).map rounded = some (rounded (meant body))) := by
  rw [process_webhook h.jobType, h.payload]
  have hagrees := agrees_unmarshal fields
  simp only [webhook_request, and_imp]
  constructor
  · intro hdelivered hsend
    obtain ⟨doc, hparse, hmeaning⟩ := hdelivered _ hsend rfl
    obtain ⟨doc', hparse', hmeaning'⟩ := parse_body hagrees hsend.1
    rw [hparse] at hparse'
    obtain rfl := Option.some.inj hparse'
    rw [hmeaning', meaning_object] at hmeaning
    obtain ⟨members, hg, hm⟩ : ∃ members, gathered fields = some members ∧
        rounded members = meant body := by
      cases hg : gathered fields with
      | none => rw [hg] at hmeaning; cases hmeaning
      | some members => rw [hg] at hmeaning; exact ⟨members, rfl, Value.object.inj hmeaning⟩
    refine ⟨?_, ?_⟩
    · rw [exact_iff, meaning_object, map_object, ← hm, rounded_rounded]
    · rw [hg, Option.map_some, ← hm, rounded_rounded]
  · intro hcond req hsend hreq
    obtain ⟨hexact, hspelled⟩ := hcond hsend
    obtain ⟨doc, hparse, hmeaning⟩ := parse_body hagrees hsend.1
    refine ⟨doc, by rw [hreq]; exact hparse, ?_⟩
    rw [exact_iff, meaning_object, map_object] at hexact
    rw [hmeaning, hspelled, meaning_object]
    exact hexact

/-- A job with a number in the body of its payload. -/
def hooked (number : String) : Job where
  id := "1"
  userID := none
  queueName := "default"
  jobType := "send_webhook"
  payload := .object [("url", .string "https://example.com/hook"),
    ("body", .object [("n", .number number)])]
  status := .running
  priority := 5
  attempts := 1
  maxAttempts := 3
  errorMessage := none
  scheduledAt := none
  startedAt := none
  completedAt := none
  createdAt := 0
  updatedAt := 0

theorem isWebhook_hooked (number : String) :
    IsWebhook (hooked number) [("url", .string "https://example.com/hook"),
      ("body", .object [("n", .number number)])] [("n", .number number)] where
  jobType := rfl
  payload := rfl
  url := ⟨_, by decide, rfl⟩
  body := rfl

/-- What the processor sends for the job. -/
def sentFor (number : String) : Option Processor.Request :=
  (process (fun _ _ => true) (fun _ => .ok ⟨"200 OK", 200⟩) (hooked number)).1

theorem delivered_iff_half : ∃ req, sentFor "0.50" = some req ∧ Delivered req [("n", .number "0.50")] :=
  have hexact : Exact (.object [("n", .number "0.50")]) := by
    unfold Exact
    decide +kernel
  have hsend : (sentFor "0.50").isSome := by decide +kernel
  ⟨_, (Option.some_get hsend).symm, (delivered_iff (isWebhook_hooked "0.50")).mpr
    (fun _ => ⟨hexact, congrArg (Option.map rounded)
      (gathered_single [("url", _)] [] (by decide +kernel) (by decide +kernel) (by simp))⟩) _
    (Option.some_get hsend).symm⟩

/-- The first integer that is no `float64`. -/
theorem body_changed : ¬ ∀ accepts send job fields body, IsWebhook job fields body →
    ∀ req, (process accepts send job).1 = some req → Delivered req body := by
  intro h
  have hsend : (sentFor "9007199254740993").isSome := by decide +kernel
  have hsent : ((sentFor "9007199254740993").bind fun req =>
      (JsonText.parse req.body).map fun d => d.meaning.numbers) = some [9007199254740992] := by
    decide +kernel
  have hbody : (Json.object [("n", .number "9007199254740993")]).meaning.numbers =
      [9007199254740993] := by decide +kernel
  have hreq := (Option.some_get hsend).symm
  obtain ⟨doc, hparse, hmeaning⟩ := h _ _ _ _ _ (isWebhook_hooked "9007199254740993") _ hreq
  rw [hreq, Option.bind_some, hparse, Option.map_some, hmeaning, hbody] at hsent
  revert hsent
  decide

end JobFlow.Worker.Webhook
