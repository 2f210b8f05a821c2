/-
JSON values and the reading rules that derived struct decoders share.

Values are trees, not texts: an encoder produces a value and a decoder consumes one.  Printing a
value and reading it back is taken to be lossless, except where `reread` stands for it.
-/

import Mathlib.Data.List.Nodup
import Mathlib.Data.Option.Basic
import Mathlib.Data.Rat.Defs

/-- Integers and finite floating-point numbers are kept apart, as a reader of
integer fields keeps them apart. -/
inductive Json where
  | null
  | bool (value : Bool)
  | int (value : Int)
  | float (value : Rat)
  | string (text : String)
  | array (items : List Json)
  | object (fields : List (String × Json))

namespace Json

def nat (value : Nat) : Json :=
  .int (value : Int)

/-- `null` stands for an absent optional value. -/
def option {α : Type} (encode : α → Json) : Option α → Json
  | none => .null
  | some value => encode value

def string? : Json → Option String
  | .string text => some text
  | _ => none

def nat? : Json → Option Nat
  | .int (.ofNat value) => some value
  | _ => none

def array? : Json → Option (List Json)
  | .array items => some items
  | _ => none

def strings? (value : Json) : Option (List String) :=
  value.array?.bind (fun items => items.mapM string?)

def number? : Json → Option Rat
  | .int value => some value
  | .float value => some value
  | _ => none

def int? : Json → Option Int
  | .int value => some value
  | _ => none

def list {α : Type} (encode : α → Json) (items : List α) : Json :=
  .array (items.map encode)

def list? {α : Type} (decode : Json → Option α) (value : Json) : Option (List α) :=
  value.array?.bind (fun items => items.mapM decode)

/-- The members of an object that names no field of `known` twice.  A derived
decoder ignores the members it does not know and refuses a repeated one. -/
def struct? (known : List String) : Json → Option (List (String × Json))
  | .object fields =>
      if known.all (fun name => decide ((fields.map Prod.fst).count name ≤ 1)) then some fields
      else none
  | _ => none

/-- A member that must be present. -/
def required {α : Type} (fields : List (String × Json)) (name : String)
    (decode : Json → Option α) : Option α :=
  (fields.lookup name).bind decode

/-- A member that falls back to `fallback` when it is absent. -/
def defaulted {α : Type} (fields : List (String × Json)) (name : String)
    (fallback : α) (decode : Json → Option α) : Option α :=
  match fields.lookup name with
  | none => some fallback
  | some value => decode value

/-- An optional member: absent and `null` both mean `none`. -/
def optional {α : Type} (fields : List (String × Json)) (name : String)
    (decode : Json → Option α) : Option (Option α) :=
  match fields.lookup name with
  | none => some none
  | some .null => some none
  | some value => (decode value).map some

/-- An internally tagged value: its tag, which must occur once, and the other
members.  A variant without fields ignores them, whatever they are. -/
def tagged? (tag : String) : Json → Option (String × List (String × Json))
  | .object fields =>
      if (fields.map Prod.fst).count tag ≤ 1 then
        (required fields tag string?).map (fun name =>
          (name, fields.filter (fun field => field.1 ≠ tag)))
      else none
  | _ => none

/-- A member that is left out when there is no value. -/
def present {α : Type} (name : String) (encode : α → Json) : Option α → List (String × Json)
  | none => []
  | some value => [(name, encode value)]

variable {α : Type} {decode : Json → Option α}

variable {encode : α → Json}

@[simp] theorem string?_string (text : String) : (Json.string text).string? = some text := rfl

@[simp] theorem nat?_nat (value : Nat) : (Json.nat value).nat? = some value := rfl

theorem list?_list (inverse : ∀ value, decode (encode value) = some value) (items : List α) :
    (list encode items).list? decode = some items := by
  change (items.map encode).mapM decode = some items
  induction items with
  | nil => rfl
  | cons item rest ih =>
      rw [List.map_cons, List.mapM_cons, inverse, ih]
      rfl

@[simp] theorem struct?_object (known : List String) (fields : List (String × Json)) :
    (Json.object fields).struct? known =
      if known.all (fun name => decide ((fields.map Prod.fst).count name ≤ 1)) then some fields
      else none := rfl

/-! ### Members and tags -/

/-- A map keeps the place of a key whose value it replaces. -/
def insert (fields : List (String × Json)) (field : String × Json) : List (String × Json) :=
  if field.1 ∈ fields.map Prod.fst then
    fields.map (fun old => if old.1 = field.1 then field else old)
  else fields ++ [field]

/-- The tag comes first into a map, the entries after it; no other value but null takes a tag. -/
def tagNewtype (tag name : String) : Json → Option Json
  | .null => some (.object [(tag, .string name)])
  | .object fields => some (.object (fields.foldl insert [(tag, .string name)]))
  | _ => none

theorem foldl_insert {before fields : List (String × Json)}
    (once : ((before ++ fields).map Prod.fst).Nodup) :
    fields.foldl insert before = before ++ fields := by
  induction fields generalizing before with
  | nil => rw [List.foldl_nil, List.append_nil]
  | cons field rest ih =>
      have fresh : field.1 ∉ before.map Prod.fst := by
        intro member
        rw [List.map_append, List.nodup_append] at once
        exact once.2.2 _ member _ List.mem_cons_self rfl
      rw [List.foldl_cons, insert, if_neg fresh, ih]
      · rw [List.append_assoc]
        rfl
      · rw [List.append_assoc]
        exact once

variable {fields : List (String × Json)}

theorem tagNewtype_object {tag name : String}
    (once : (fields.map Prod.fst).Nodup) (absent : tag ∉ fields.map Prod.fst) :
    (Json.object fields).tagNewtype tag name = some (.object ((tag, .string name) :: fields)) := by
  rw [tagNewtype, foldl_insert]
  · rfl
  · exact List.nodup_cons.mpr ⟨absent, once⟩

theorem tagged?_cons {tag name : String} (absent : tag ∉ fields.map Prod.fst) :
    (Json.object ((tag, .string name) :: fields)).tagged? tag = some (name, fields) := by
  have others : fields.filter (fun field => field.1 ≠ tag) = fields := by
    rw [List.filter_eq_self]
    intro field member
    exact decide_eq_true (fun same => absent (same ▸ List.mem_map_of_mem member))
  rw [tagged?, List.map_cons, List.count_cons_self, List.count_eq_zero_of_not_mem absent,
    if_pos (le_refl 1), List.filter_cons_of_neg (by simp), others, required, List.lookup_cons_self]
  rfl

theorem struct?_of_sublist {known : List String}
    (names : (fields.map Prod.fst).Sublist known) (once : known.Nodup) :
    (Json.object fields).struct? known = some fields := by
  rw [struct?, if_pos]
  rw [List.all_eq_true]
  intro name _
  exact decide_eq_true (List.nodup_iff_count_le_one.mp (once.sublist names) name)

theorem names_present (name : String) (encode : α → Json) (value : Option α) :
    ((present name encode value).map Prod.fst).Sublist [name] := by
  cases value with
  | none => exact List.nil_sublist _
  | some value => exact List.Sublist.refl _

variable {name : String}

@[simp] theorem lookup_present {α : Type} (name key : String) (encode : α → Json)
    (value : Option α) :
    (present name encode value).lookup key = if key = name then value.map encode else none := by
  cases value with
  | none => simp [present]
  | some value =>
      by_cases same : key = name
      · simp [present, same]
      · rw [present, List.lookup_cons, beq_false_of_ne same, if_neg same]
        rfl

theorem forall_mem_present {value : Option α} {good : String × Json → Prop} :
    (∀ field ∈ present name encode value, good field) ↔
      ∀ item ∈ value, good (name, encode item) := by
  cases value with
  | none =>
      exact iff_of_true (fun _ impossible => nomatch impossible)
        (fun _ impossible => nomatch impossible)
  | some value => simp [present]

theorem required_of_lookup (encode : α → Json) {value : α}
    (there : fields.lookup name = some (encode value))
    (inverse : decode (encode value) = some value) : required fields name decode = some value := by
  rw [required, there]
  exact inverse

theorem optional_of_lookup (encode : α → Json) {value : Option α}
    (there : fields.lookup name = value.map encode)
    (inverse : ∀ item ∈ value, decode (encode item) = some item)
    (some_ : ∀ item ∈ value, encode item ≠ .null) : optional fields name decode = some value := by
  rw [optional, there]
  cases value with
  | none => rfl
  | some item =>
      rw [Option.map_some]
      split
      · rename_i impossible
        cases impossible
      · rename_i impossible
        injection impossible with impossible
        exact absurd impossible (some_ item rfl)
      · rename_i value _ same
        injection same with same
        rw [← same, inverse item rfl]
        rfl

/-! ### A printed value that is read again -/

/-- What a reader that enters at most `levels` arrays and objects makes of a printed value; a float
is printed and read by `refloat`. -/
def reread (refloat : Rat → Rat) : Nat → Json → Option Json
  | 0, .array _ => none
  | 0, .object _ => none
  | levels + 1, .array items => (items.mapM (reread refloat levels)).map .array
  | levels + 1, .object fields =>
      (fields.mapM (fun field => (reread refloat levels field.2).map (Prod.mk field.1))).map .object
  | _, .float value => some (.float (refloat value))
  | _, value => some value

def rereadFields (refloat : Rat → Rat) (levels : Nat) (fields : List (String × Json)) :
    Option (List (String × Json)) :=
  fields.mapM (fun field => (field.2.reread refloat levels).map (Prod.mk field.1))

/-- No deeper than `levels`, with floats that `refloat` keeps. -/
def Rereads (refloat : Rat → Rat) : Nat → Json → Prop
  | 0, .array _ => False
  | 0, .object _ => False
  | levels + 1, .array items => ∀ item ∈ items, Rereads refloat levels item
  | levels + 1, .object fields => ∀ field ∈ fields, Rereads refloat levels field.2
  | _, .float value => refloat value = value
  | _, _ => True

theorem mapM_eq_self_iff {read : α → Option α} (items : List α) :
    items.mapM read = some items ↔ ∀ item ∈ items, read item = some item := by
  induction items with
  | nil => exact iff_of_true rfl (fun _ impossible => nomatch impossible)
  | cons item rest ih =>
      rw [List.mapM_cons, List.forall_mem_cons, ← ih]
      cases read item with
      | none =>
          exact iff_of_false (fun impossible => nomatch impossible) (fun both => nomatch both.1)
      | some value =>
          cases rest.mapM read with
          | none =>
              exact iff_of_false (fun impossible => nomatch impossible)
                (fun both => nomatch both.2)
          | some values => simp

section Reread

variable {refloat : Rat → Rat} {levels : Nat}

theorem reread_object (fields : List (String × Json)) :
    (Json.object fields).reread refloat (levels + 1) =
      (rereadFields refloat levels fields).map .object := rfl

theorem rereadFields_cons_string (name text : String) (fields : List (String × Json)) :
    rereadFields refloat levels ((name, .string text) :: fields) =
      (rereadFields refloat levels fields).map (List.cons (name, .string text)) := by
  have same : (Json.string text).reread refloat levels = some (.string text) := by
    cases levels <;> rfl
  rw [rereadFields, List.mapM_cons, same]
  change (rereadFields refloat levels fields).bind _ = _
  cases rereadFields refloat levels fields <;> rfl

theorem rereadFields_append (front fields : List (String × Json)) :
    rereadFields refloat levels (front ++ fields) =
      (rereadFields refloat levels front).bind (fun before =>
        (rereadFields refloat levels fields).map (before ++ ·)) := by
  rw [rereadFields, List.mapM_append]
  change (rereadFields refloat levels front).bind (fun before =>
    (rereadFields refloat levels fields).bind (fun after => some (before ++ after))) = _
  cases rereadFields refloat levels front <;> cases rereadFields refloat levels fields <;> rfl

theorem rereadFields_single (name : String) (value : Json) :
    rereadFields refloat levels [(name, value)] =
      (value.reread refloat levels).map (fun again => [(name, again)]) := by
  rw [rereadFields, List.mapM_cons]
  cases value.reread refloat levels <;> rfl

theorem names_rereadFields {fields again : List (String × Json)}
    (read : rereadFields refloat levels fields = some again) :
    again.map Prod.fst = fields.map Prod.fst := by
  induction fields generalizing again with
  | nil =>
      cases read
      rfl
  | cons field rest ih =>
      rw [rereadFields, List.mapM_cons] at read
      obtain ⟨first, one, read⟩ := Option.bind_eq_some_iff.mp read
      obtain ⟨others, rests, read⟩ := Option.bind_eq_some_iff.mp read
      obtain ⟨value, _, same⟩ := Option.map_eq_some_iff.mp one
      cases read
      rw [List.map_cons, List.map_cons, ih rests, ← same]

theorem reread_eq_self_iff (value : Json) :
    value.reread refloat levels = some value ↔ value.Rereads refloat levels := by
  induction levels generalizing value with
  | zero => cases value <;> simp [reread, Rereads]
  | succ levels ih =>
      cases value with
      | array items =>
          simp only [reread, Rereads, Option.map_eq_some_iff, array.injEq, exists_eq_right]
          rw [mapM_eq_self_iff]
          simp only [ih]
      | object fields =>
          simp only [reread, Rereads, Option.map_eq_some_iff, object.injEq, exists_eq_right]
          rw [mapM_eq_self_iff]
          refine forall₂_congr ?_
          intro field _
          simp [← ih, Prod.ext_iff]
      | null => simp [reread, Rereads]
      | bool value => simp [reread, Rereads]
      | int value => simp [reread, Rereads]
      | float value => simp [reread, Rereads]
      | string text => simp [reread, Rereads]

theorem rereadFields_eq_self_iff (fields : List (String × Json)) :
    rereadFields refloat levels fields = some fields ↔
      ∀ field ∈ fields, field.2.Rereads refloat levels := by
  rw [rereadFields, mapM_eq_self_iff]
  refine forall₂_congr ?_
  intro field _
  simp [← reread_eq_self_iff, Prod.ext_iff]

@[simp] theorem rereads_string (text : String) : (Json.string text).Rereads refloat levels := by
  cases levels <;> trivial

@[simp] theorem rereads_nat (value : Nat) : (Json.nat value).Rereads refloat levels := by
  cases levels <;> trivial

@[simp] theorem rereads_strings (texts : List String) :
    (Json.list .string texts).Rereads refloat (levels + 1) := by
  intro item member
  obtain ⟨text, _, rfl⟩ := List.mem_map.mp member
  exact rereads_string text

end Reread

end Json
