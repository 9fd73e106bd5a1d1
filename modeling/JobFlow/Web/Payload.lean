import JobFlow.Web.Import

/-!
# The payload that is sent after an import

A value that JavaScript takes for false is replaced by the whole job, a truthy `force_fail`
becomes `true`, and a number has become the shortest decimal of its nearest `float64` or,
out of range, `null`. What is sent means the payload just where none of the three happens.
-/

namespace JobFlow.Web.Payload

open JobFlow.Model
open JobFlow.Model.JavaScript
open JobFlow.Web.Import
open JobFlow.Lib
open JobFlow.Lib.Binary64 (reread nearest)

/-- A number in range that is written as it was. -/
def Kept (q : ℚ) : Prop := nearest |q| < 2 ^ 1024 ∧ reread q = q

/-- What JavaScript takes for false. -/
def falsy : Value ℚ → Bool
  | .null => true
  | .bool b => !b
  | .number q => q = 0
  | .string s => s = ""
  | .array _ | .object _ => false

def member (name : String) : Value ℚ → Option (Value ℚ)
  | .object members => members.lookup name
  | _ => none

/-- A payload that an import leaves as it is. -/
structure Restorable (payload : Value ℚ) : Prop where
  taken : falsy payload = false
  forceFail : ∀ v ∈ member "force_fail" payload, falsy v = false → v = .bool true
  numbers : ∀ q ∈ payload.numbers, Kept q

/-! ### Numbers -/

theorem abs_value (n : Numeral) : |n.value| = n.magnitude := by
  have hn := Binary64.magnitude_nonneg n
  rw [Numeral.value]
  split
  · rw [abs_neg, abs_of_nonneg hn]
  · exact abs_of_nonneg hn

theorem meaning_read {text : String} (h : (Numeral.parse text.toList).isSome) :
    (Number.read text).meaning = .number (numeralValue text) ↔ Kept (numeralValue text) := by
  obtain ⟨n, hn⟩ := Option.isSome_iff_exists.mp h
  have hvalue : numeralValue text = n.value := by rw [numeralValue, hn]; rfl
  rw [hvalue, Kept, abs_value]
  by_cases hrange : nearest n.magnitude < 2 ^ 1024
  · obtain ⟨x, hx⟩ : ∃ x, Binary64.ofNumeral? n = some x := ⟨_, dif_pos hrange⟩
    have hread : Number.read text = .finite x := by simp only [Number.read, hn, hx]
    rw [hread, Number.meaning, Value.number.injEq, Binary64.value_toNumeral hx]
    exact (and_iff_right hrange).symm
  · have hx : Binary64.ofNumeral? n = none := dif_neg hrange
    have hread : Number.read text = .infinite n.negative := by simp only [Number.read, hn, hx]
    rw [hread, Number.meaning]
    exact ⟨fun h => (by cases h), fun h => absurd h.1 hrange⟩

/-- What is sent of a value means the same just where its numbers are kept. -/
theorem meaning_carried {v : Json} (h : v.valid) :
    (carried v).bind Number.meaning = v.meaning ↔ ∀ q ∈ v.meaning.numbers, Kept q := by
  have hcarried : (carried v).bind Number.meaning = v.tree.bind fun text => (Number.read text).meaning := by
    rw [carried, ofJson, Value.map, Value.bind_bind, Value.bind_bind]
    exact Value.bind_congr fun text _ => meaning_settled _
  rw [hcarried, Json.meaning, Value.bind_eq_map, Value.numbers_map]
  simp only [List.forall_mem_map]
  refine forall₂_congr fun text ht => meaning_read ?_
  exact Json.parse_of_valid h (Json.mem_numbers_of_tree ht)

theorem meaning_integer {n : Int} (h : n.natAbs < 2 ^ 53) :
    (Number.read (toString n)).meaning = .number n := by
  have hparse := Numeral.parse_toString n
  have hvalue : numeralValue (toString n) = n := by
    rw [numeralValue, hparse]
    simp only [Option.map_some, Option.getD_some, Numeral.value, Numeral.magnitude, zpow_zero, mul_one,
      decide_eq_true_eq]
    split
    · rw [← Int.cast_natCast, ← Int.cast_neg]
      congr 1
      omega
    · rw [← Int.cast_natCast]
      congr 1
      omega
  obtain ⟨x, hx, -, hmag⟩ := read_toString h
  have hkept : Kept (n : ℚ) := by
    refine ⟨?_, Binary64.reread_intCast h⟩
    have habs : |(n : ℚ)| = x.magnitude := by
      rw [hmag, ← Int.cast_abs, Int.abs_eq_natAbs, Int.cast_natCast]
    rw [habs, x.rounded]
    exact x.finite
  rw [← hvalue] at hkept ⊢
  exact (meaning_read (by rw [hparse]; rfl)).mpr hkept

/-! ### Values that are taken for false -/

theorem value_toNumeral_ne_zero {x : Binary64} (h : x.magnitude ≠ 0) : x.toNumeral.value ≠ 0 := by
  intro hzero
  have hmag : x.toNumeral.magnitude = 0 := by rw [← abs_value, hzero, abs_zero]
  have hnearest := Binary64.nearest_shortest x.representable x.nonneg
  have hself : ((Binary64.shortest x.magnitude).1 : ℚ) * 10 ^ (Binary64.shortest x.magnitude).2 = 0 :=
    hmag
  rw [hself] at hnearest
  exact h (hnearest.symm.trans (by decide +kernel))

/-- A value that was read from a file is truthy just where what it means is. -/
theorem falsy_carried (v : JsValue) :
    falsy ((v.bind Number.settled).bind Number.meaning) = !truthy (v.bind Number.settled) := by
  have hnumber (x : Number) : falsy (x.settled.bind Number.meaning) = !truthy x.settled := by
    cases x with
    | infinite | nan => rfl
    | finite x =>
      rw [meaning_settled, Number.settled, Number.meaning, falsy]
      split
      next h =>
        obtain ⟨z, hz, hmag⟩ := read_zero
        rw [hz, value_toNumeral_zero h, truthy, Number.truthy, hmag]
        simp
      next h =>
        rw [truthy, Number.truthy]
        simp [h, value_toNumeral_ne_zero h]
  cases v with
  | null | bool => rfl
  | string s => simp [Value.bind, falsy, truthy]
  | number x => exact hnumber x
  | array items => rw [Value.bind_array, Value.bind_array]; rfl
  | object members => rw [Value.bind_object, Value.bind_object]; rfl

theorem get_of_not_truthy {v : JsValue} (h : truthy v = false) (name : String) : get name v = none := by
  cases v with
  | object members => cases h
  | null | bool | number | string | array => rfl

theorem truthy_of_meaning {v : Json} {members : List (String × Value ℚ)}
    (h : v.meaning = .object members) : ∃ fields, v = .object fields ∧ truthy (carried v) := by
  cases v with
  | null | bool | number | string => cases h
  | array items =>
    rw [Json.meaning, Json.tree_array, Value.map, Value.bind_array] at h
    cases h
  | object fields =>
    refine ⟨fields, rfl, ?_⟩
    rw [carried, ofJson, Json.tree_object, Value.map, Value.bind_object, Value.bind_object]
    rfl

theorem member_meaning (name : String) (fields : List (String × Json)) :
    member name (Json.object fields).meaning = (Json.property fields name).map Json.meaning := by
  rw [Json.meaning, Json.tree_object, Value.map, Value.bind_object, member, Members.lookup_mapValues,
    Json.lookup_tree, Option.map_map]
  rfl

theorem member_bind (name : String) (v : JsValue) :
    member name (v.bind Number.meaning) = (get name v).map (·.bind Number.meaning) := by
  cases v with
  | null | bool | string => rfl
  | number x => cases x <;> rfl
  | array items => rw [Value.bind_array]; rfl
  | object members =>
    rw [Value.bind_object]
    exact Members.lookup_mapValues _ name members

/-! ### The payload of the request -/

/-- What the editor holds after the import. -/
def edited (server : Time → Int) (job : Job) : JsValue :=
  (taken (some (carried job.payload))).getD (carried (.object (JobListing.jobFields server job)))

/-- The payload that `createJobs` sends of it. -/
def sent (server : Time → Int) (job : Job) : JsValue :=
  if (taken (get "force_fail" (carried job.payload))).isSome then
    .object (Members.put "force_fail" (.bool true) (spread (edited server job)))
  else edited server job

variable {server : Time → Int} {job : Job}

theorem canonical_edited : (edited server job).Canonical := by
  rw [edited, taken_some]
  split
  · exact canonical_carried _
  · exact canonical_carried _

theorem canonical_sent : (sent server job).Canonical := by
  rw [sent]
  split
  · exact (canonical_spread canonical_edited).put _ (.bool true)
  · exact canonical_edited

theorem edited_of_truthy (h : truthy (carried job.payload)) : edited server job = carried job.payload := by
  rw [edited, taken_some, if_pos h]
  rfl

variable (server) in
/-- A falsy payload is replaced by an object. -/
theorem sent_of_falsy (h : truthy (carried job.payload) = false) :
    ∃ members, sent server job = .object members := by
  have hforce : taken (get "force_fail" (carried job.payload)) = none := by
    rw [get_of_not_truthy h]
    rfl
  have hedited : edited server job = carried (.object (JobListing.jobFields server job)) := by
    rw [edited, taken_some, h]
    rfl
  rw [sent, hforce, hedited, carried, ofJson, Json.tree_object, Value.map, Value.bind_object,
    Value.bind_object]
  exact ⟨_, rfl⟩

/-- Without a truthy `force_fail`, and with one that is `true`, nothing is replaced. -/
theorem sent_of_truthy (h : truthy (carried job.payload))
    (hforce : ∀ w, taken (get "force_fail" (carried job.payload)) = some w → w = .bool true) :
    sent server job = carried job.payload := by
  rw [sent, edited_of_truthy h]
  split
  next htaken =>
    obtain ⟨w, hw⟩ := Option.isSome_iff_exists.mp htaken
    have hget : get "force_fail" (carried job.payload) = some (.bool true) :=
      hforce w hw ▸ (Option.filter_eq_some_iff.mp hw).1
    have hcanonical := canonical_carried job.payload
    cases hv : carried job.payload with
    | null | bool | number | string | array => rw [hv] at hget; cases hget
    | object members =>
      rw [hv] at hget hcanonical
      cases hcanonical with
      | object hsorted _ => exact congrArg Value.object (Members.put_of_lookup hsorted hget)
  · rfl

/-- The member as it is read and as it is meant. -/
theorem forceFail_true {w : JsValue} (hw : get "force_fail" (carried job.payload) = some w)
    (h : member "force_fail" job.payload.meaning = some (.bool true)) : w = .bool true := by
  cases hv : job.payload with
  | null | bool | string => rw [hv] at h; cases h
  | number text => rw [hv] at h; cases h
  | array items =>
    rw [hv, Json.meaning, Json.tree_array, Value.map, Value.bind_array] at h
    cases h
  | object fields =>
    rw [hv, member_meaning] at h
    rw [hv, get_carried] at hw
    obtain ⟨d, hd, hmeaning⟩ := Option.map_eq_some_iff.mp h
    rw [hd, Option.map_some] at hw
    obtain rfl := Option.some.inj hw
    cases d with
    | bool b => cases hmeaning; rfl
    | null | number | string => cases hmeaning
    | array items =>
      rw [Json.meaning, Json.tree_array, Value.map, Value.bind_array] at hmeaning
      cases hmeaning
    | object fields =>
      rw [Json.meaning, Json.tree_object, Value.map, Value.bind_object] at hmeaning
      cases hmeaning

theorem sent_iff (hvalid : job.payload.valid) :
    (sent server job).bind Number.meaning = job.payload.meaning ↔ Restorable job.payload.meaning := by
  have hfalsy : falsy ((carried job.payload).bind Number.meaning) = !truthy (carried job.payload) :=
    falsy_carried _
  have hmember (w : JsValue) (hw : get "force_fail" (carried job.payload) = some w) :
      falsy (w.bind Number.meaning) = !truthy w := by
    rw [carried, get_bind] at hw
    obtain ⟨u, -, rfl⟩ := Option.map_eq_some_iff.mp hw
    exact falsy_carried u
  constructor
  · intro hsent
    have htruthy : truthy (carried job.payload) := by
      by_contra hnot
      obtain ⟨members, hmembers⟩ := sent_of_falsy server (Bool.not_eq_true _ ▸ hnot)
      rw [hmembers, Value.bind_object] at hsent
      exact hnot (truthy_of_meaning hsent.symm).choose_spec.2
    have hforce (w : JsValue) (hw : taken (get "force_fail" (carried job.payload)) = some w) :
        w = .bool true := by
      refine forceFail_true (Option.filter_eq_some_iff.mp hw).1 ?_
      have hput : member "force_fail" ((sent server job).bind Number.meaning) = some (.bool true) := by
        rw [member_bind, sent, hw, if_pos Option.isSome_some, JavaScript.get, Members.lookup_put, if_pos rfl]
        rfl
      rw [← hsent, hput]
    rw [sent_of_truthy htruthy hforce] at hsent
    refine ⟨?_, ?_, (meaning_carried hvalid).mp hsent⟩
    · rw [← hsent, hfalsy, htruthy]
      rfl
    · intro v hv hnot
      rw [← hsent, member_bind] at hv
      obtain ⟨w, hw, rfl⟩ := Option.map_eq_some_iff.mp hv
      have hw' : taken (get "force_fail" (carried job.payload)) = some w := by
        rw [hmember w hw, Bool.not_eq_false'] at hnot
        rw [hw, taken_some, if_pos hnot]
      rw [hforce w hw']
      rfl
  · intro h
    have hmeaning := (meaning_carried hvalid).mpr h.numbers
    have htruthy : truthy (carried job.payload) := by
      have := h.taken
      rw [← hmeaning, hfalsy] at this
      simpa using this
    rw [sent_of_truthy htruthy, hmeaning]
    intro w hw
    obtain ⟨hget, hwtrue⟩ := Option.filter_eq_some_iff.mp hw
    have hwmember : member "force_fail" job.payload.meaning = some (w.bind Number.meaning) := by
      rw [← hmeaning, member_bind, hget]
      rfl
    have htrue := h.forceFail _ hwmember (by rw [hmember w hget, hwtrue]; rfl)
    exact forceFail_true hget (htrue ▸ hwmember)

end JobFlow.Web.Payload
