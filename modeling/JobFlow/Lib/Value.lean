import JobFlow.Lib.Members
import Mathlib.Data.String.Basic

/-!
# Values of documents

Trees of values over numbers of any kind. An object has each of its keys once and in
order, so that equal objects are the same tree.
-/

namespace JobFlow.Lib

open Members (Sorted)

inductive Value (ν : Type) where
  | null
  | bool (b : Bool)
  | number (x : ν)
  | string (s : String)
  | array (items : List (Value ν))
  | object (members : List (String × Value ν))

namespace Value

variable {ν μ ρ : Type}

/-- Induction over the tree, with what holds of all the items or members. -/
theorem induction {P : Value ν → Prop} (null : P .null) (bool : ∀ b, P (.bool b))
    (number : ∀ x, P (.number x)) (string : ∀ s, P (.string s))
    (array : ∀ items, (∀ v ∈ items, P v) → P (.array items))
    (object : ∀ members, (∀ p ∈ members, P p.2) → P (.object members)) (v : Value ν) : P v := by
  refine @Value.rec ν P (fun items => ∀ v ∈ items, P v)
    (fun members => ∀ p ∈ members, P p.2) (fun p => P p.2) null bool number string array object
    ?_ ?_ ?_ ?_ ?_ v
  · simp
  · exact fun v items hv hitems => List.forall_mem_cons.mpr ⟨hv, hitems⟩
  · simp
  · exact fun p members hp hmembers => List.forall_mem_cons.mpr ⟨hp, hmembers⟩
  · exact fun k v hv => hv

mutual

/-- Every number replaced. -/
def bind (f : ν → Value μ) : Value ν → Value μ
  | .null => .null
  | .bool b => .bool b
  | .number x => f x
  | .string s => .string s
  | .array items => .array (bindItems f items)
  | .object members => .object (bindMembers f members)

def bindItems (f : ν → Value μ) : List (Value ν) → List (Value μ)
  | [] => []
  | v :: items => bind f v :: bindItems f items

def bindMembers (f : ν → Value μ) : List (String × Value ν) → List (String × Value μ)
  | [] => []
  | (k, v) :: members => (k, bind f v) :: bindMembers f members

end

mutual

/-- The numbers in it. -/
def numbers : Value ν → List ν
  | .null | .bool _ | .string _ => []
  | .number x => [x]
  | .array items => numbersItems items
  | .object members => numbersMembers members

def numbersItems : List (Value ν) → List ν
  | [] => []
  | v :: items => numbers v ++ numbersItems items

def numbersMembers : List (String × Value ν) → List ν
  | [] => []
  | (_, v) :: members => numbers v ++ numbersMembers members

end

def map (f : ν → μ) (v : Value ν) : Value μ := v.bind fun x => .number (f x)

@[simp] theorem bind_array (f : ν → Value μ) (items : List (Value ν)) :
    bind f (.array items) = .array (items.map (bind f)) := by
  rw [bind]
  congr 1
  induction items with
  | nil => rfl
  | cons v items ih => rw [bindItems, ih, List.map_cons]

@[simp] theorem bind_object (f : ν → Value μ) (members : List (String × Value ν)) :
    bind f (.object members) = .object (Members.mapValues (bind f) members) := by
  rw [bind]
  congr 1
  induction members with
  | nil => rfl
  | cons p members ih => rw [bindMembers, ih, Members.mapValues, Members.mapValues, List.map_cons]

@[simp] theorem numbers_array (items : List (Value ν)) :
    numbers (.array items) = items.flatMap numbers := by
  rw [numbers]
  induction items with
  | nil => rfl
  | cons v items ih => rw [numbersItems, ih, List.flatMap_cons]

@[simp] theorem numbers_object (members : List (String × Value ν)) :
    numbers (.object members) = members.flatMap fun p => numbers p.2 := by
  rw [numbers]
  induction members with
  | nil => rfl
  | cons p members ih => rw [numbersMembers, ih, List.flatMap_cons]

/-- Replacing depends on the numbers only. -/
theorem bind_congr {f g : ν → Value μ} {v : Value ν} (h : ∀ x ∈ v.numbers, f x = g x) :
    v.bind f = v.bind g := by
  induction v using Value.induction with
  | null | bool | string => rfl
  | number x => exact h x (List.mem_singleton.mpr rfl)
  | array items ih =>
    rw [numbers_array] at h
    rw [bind_array, bind_array]
    congr 1
    refine List.map_congr_left fun v hv => ih v hv fun x hx => h x ?_
    exact List.mem_flatMap.mpr ⟨v, hv, hx⟩
  | object members ih =>
    rw [numbers_object] at h
    rw [bind_object, bind_object]
    congr 1
    refine List.map_congr_left fun p hp => ?_
    rw [ih p hp fun x hx => h x (List.mem_flatMap.mpr ⟨p, hp, hx⟩)]

/-- The numbers come from those that were replaced. -/
theorem mem_numbers_bind {f : ν → Value μ} {v : Value ν} {y : μ} (h : y ∈ (v.bind f).numbers) :
    ∃ x ∈ v.numbers, y ∈ (f x).numbers := by
  induction v using Value.induction with
  | null | bool | string => cases h
  | number x => exact ⟨x, List.mem_singleton.mpr rfl, h⟩
  | array items ih =>
    rw [bind_array, numbers_array] at h
    obtain ⟨w, hw, hy⟩ := List.mem_flatMap.mp h
    obtain ⟨u, hu, rfl⟩ := List.mem_map.mp hw
    obtain ⟨x, hx, hfx⟩ := ih u hu hy
    rw [numbers_array]
    exact ⟨x, List.mem_flatMap.mpr ⟨u, hu, hx⟩, hfx⟩
  | object members ih =>
    rw [bind_object, numbers_object] at h
    obtain ⟨p, hp, hy⟩ := List.mem_flatMap.mp h
    obtain ⟨q, hq, rfl⟩ := List.mem_map.mp hp
    obtain ⟨x, hx, hfx⟩ := ih q hq hy
    rw [numbers_object]
    exact ⟨x, List.mem_flatMap.mpr ⟨q, hq, hx⟩, hfx⟩

theorem bind_bind (f : ν → Value μ) (g : μ → Value ρ) (v : Value ν) :
    (v.bind f).bind g = v.bind fun x => (f x).bind g := by
  induction v using Value.induction with
  | null | bool | string | number => rfl
  | array items ih =>
    rw [bind_array, bind_array, bind_array, List.map_map]
    exact congrArg Value.array (List.map_congr_left ih)
  | object members ih =>
    rw [bind_object, bind_object, bind_object, Members.mapValues, Members.mapValues, List.map_map]
    exact congrArg Value.object (List.map_congr_left fun p hp => by
      rw [Function.comp_apply, ih p hp])

theorem bind_number (v : Value ν) : v.bind .number = v := by
  induction v using Value.induction with
  | null | bool | string | number => rfl
  | array items ih =>
    rw [bind_array, List.map_congr_left ih, List.map_id']
  | object members ih =>
    rw [bind_object, Members.mapValues, List.map_congr_left (g := id), List.map_id]
    exact fun p hp => by rw [ih p hp, id]

theorem map_map (f : ν → μ) (g : μ → ρ) (v : Value ν) :
    (v.map f).map g = v.map fun x => g (f x) := bind_bind _ _ v

theorem map_congr {f g : ν → μ} {v : Value ν} (h : ∀ x ∈ v.numbers, f x = g x) :
    v.map f = v.map g := bind_congr fun x hx => congrArg Value.number (h x hx)

/-- Where every number is replaced by a number. -/
theorem bind_eq_map {f : ν → Value μ} {g : ν → μ} {v : Value ν} :
    v.bind f = v.map g ↔ ∀ x ∈ v.numbers, f x = .number (g x) := by
  refine ⟨fun h => ?_, fun h => bind_congr h⟩
  unfold map at h
  induction v using Value.induction with
  | null | bool | string => exact fun x hx => by cases hx
  | number x => exact fun y hy => List.mem_singleton.mp hy ▸ h
  | array items ih =>
    rw [bind_array, bind_array] at h
    rw [numbers_array]
    intro x hx
    obtain ⟨w, hw, hx⟩ := List.mem_flatMap.mp hx
    exact ih w hw (List.map_inj_left.mp (Value.array.inj h) w hw) x hx
  | object members ih =>
    rw [bind_object, bind_object] at h
    rw [numbers_object]
    intro x hx
    obtain ⟨p, hp, hx⟩ := List.mem_flatMap.mp hx
    have hvalue := List.map_inj_left.mp (Value.object.inj h) p hp
    exact ih p hp (Prod.mk.inj hvalue).2 x hx

theorem numbers_map (f : ν → μ) (v : Value ν) : (v.map f).numbers = v.numbers.map f := by
  unfold map
  induction v using Value.induction with
  | null | bool | string | number => rfl
  | array items ih =>
    rw [bind_array, numbers_array, numbers_array, List.flatMap_map, List.map_flatMap]
    exact List.flatMap_congr ih
  | object members ih =>
    rw [bind_object, numbers_object, numbers_object, Members.mapValues, List.flatMap_map,
      List.map_flatMap]
    exact List.flatMap_congr ih

/-- A value is kept where all its numbers are. -/
theorem map_eq_self {f : ν → ν} {v : Value ν} : v.map f = v ↔ ∀ x ∈ v.numbers, f x = x := by
  constructor
  · intro h x hx
    have hnumbers := numbers_map f v
    rw [h] at hnumbers
    exact (List.map_inj_left.mp (hnumbers.symm.trans (List.map_id _).symm)) x hx
  · intro h
    rw [map_congr h]
    exact bind_number v

/-- Objects in the order of their keys, at every depth. -/
inductive Canonical : Value ν → Prop
  | null : Canonical .null
  | bool (b : Bool) : Canonical (.bool b)
  | number (x : ν) : Canonical (.number x)
  | string (s : String) : Canonical (.string s)
  | array {items : List (Value ν)} (h : ∀ v ∈ items, Canonical v) : Canonical (.array items)
  | object {members : List (String × Value ν)} (hsorted : Sorted members)
      (h : ∀ p ∈ members, Canonical p.2) : Canonical (.object members)

theorem Canonical.bind {f : ν → Value μ} {v : Value ν} (h : Canonical v)
    (hf : ∀ x, Canonical (f x)) : Canonical (v.bind f) := by
  induction h with
  | null => exact .null
  | bool b => exact .bool b
  | number x => exact hf x
  | string s => exact .string s
  | array h ih =>
    rw [bind_array]
    refine .array fun v hv => ?_
    obtain ⟨w, hw, rfl⟩ := List.mem_map.mp hv
    exact ih w hw
  | object hsorted h ih =>
    rw [bind_object]
    refine .object (Members.sorted_mapValues _ hsorted) fun p hp => ?_
    obtain ⟨q, hq, rfl⟩ := List.mem_map.mp hp
    exact ih q hq

theorem Canonical.map {v : Value ν} (h : Canonical v) (f : ν → μ) : Canonical (v.map f) :=
  h.bind fun x => .number (f x)

theorem canonical_nil : (Value.object ([] : List (String × Value ν))).Canonical :=
  .object List.Pairwise.nil fun _ h => absurd h List.not_mem_nil

theorem Canonical.put {members : List (String × Value ν)} (h : (Value.object members).Canonical)
    (key : String) {v : Value ν} (hv : v.Canonical) :
    (Value.object (Members.put key v members)).Canonical := by
  cases h with
  | object hsorted hmembers =>
    refine .object (Members.sorted_put hsorted key v) fun p hp => ?_
    rcases Members.mem_put hp with rfl | hp
    · exact hv
    · exact hmembers p hp

theorem Canonical.putAll {members fields : List (String × Value ν)}
    (h : (Value.object members).Canonical) (hfields : ∀ p ∈ fields, p.2.Canonical) :
    (Value.object (Members.putAll members fields)).Canonical := by
  cases h with
  | object hsorted hmembers =>
    refine .object (Members.sorted_putAll hsorted fields) fun p hp => ?_
    exact (Members.mem_putAll hp).elim (hmembers p) (hfields p)

end Value

end JobFlow.Lib
