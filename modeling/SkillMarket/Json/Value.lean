import SkillMarket.Binary64.Basic

/-!
JSON values.

An object is the list of its members in the order of their keys' first appearance. A number is an
integer in the range of 64-bit words, signed or not, or else a binary64 number.
-/

namespace SkillMarket.Json

/-- A number as it is held: exactly if it is a 64-bit integer. -/
inductive Number where
  | integer (n : Int)
  | real (x : Binary64)
deriving DecidableEq, Repr

/-- A JSON value. -/
inductive Value where
  | null
  | bool (b : Bool)
  | number (n : Number)
  | string (s : String)
  | array (items : List Value)
  | object (members : List (String × Value))
deriving Inhabited

/-- The members of an object, in order. -/
abbrev Object := List (String × Value)

/-! ## Members -/

/-- The value of a key. -/
def Object.get? : Object → String → Option Value
  | [], _ => none
  | (k, v) :: rest, key => if k = key then some v else Object.get? rest key

/-- The keys, in order. -/
def Object.keys (o : Object) : List String := o.map Prod.fst

/-- Gives a key a value: in its place if the object has the key, else at the end. -/
def Object.insert (key : String) (value : Value) : Object → Object
  | [] => [(key, value)]
  | (k, v) :: rest => if k = key then (k, value) :: rest else (k, v) :: Object.insert key value rest

theorem Object.get?_nil (key : String) : Object.get? [] key = none := rfl

theorem Object.get?_cons (k key : String) (v : Value) (o : Object) :
    Object.get? ((k, v) :: o) key = if k = key then some v else Object.get? o key := rfl

theorem Object.get?_insert_self (o : Object) (key : String) (value : Value) :
    (o.insert key value).get? key = some value := by
  induction o with
  | nil => simp [Object.insert, Object.get?_cons]
  | cons m o ih =>
    obtain ⟨k, v⟩ := m
    by_cases h : k = key
    · simp [Object.insert, Object.get?_cons, h]
    · simp [Object.insert, Object.get?_cons, h, ih]

theorem Object.get?_insert_of_ne (o : Object) {key other : String} (value : Value)
    (h : other ≠ key) : (o.insert key value).get? other = o.get? other := by
  induction o with
  | nil => simp [Object.insert, Object.get?_cons, Object.get?_nil, Ne.symm h]
  | cons m o ih =>
    obtain ⟨k, v⟩ := m
    by_cases hk : k = key
    · subst hk; simp [Object.insert, Object.get?_cons, Ne.symm h]
    · simp [Object.insert, Object.get?_cons, hk, ih]

/-- A new key goes to the end, and a key that is there keeps its place. -/
theorem Object.keys_insert (o : Object) (key : String) (value : Value) :
    (o.insert key value).keys = if key ∈ o.keys then o.keys else o.keys ++ [key] := by
  induction o with
  | nil => simp [Object.insert, Object.keys]
  | cons m o ih =>
    obtain ⟨k, v⟩ := m
    by_cases h : k = key
    · simp [Object.insert, Object.keys, h]
    · simp only [Object.keys] at ih
      simp only [Object.insert, h, if_false, Object.keys, List.map_cons, List.mem_cons,
        Ne.symm h, false_or, ih]
      split <;> simp_all

/-- An object from members in order of appearance: a repeated key keeps its first place and takes
its last value. -/
def Object.ofMembers (ms : List (String × Value)) : Object :=
  ms.foldl (fun o m => o.insert m.1 m.2) []

/-! ## Views -/

def Value.asString? : Value → Option String
  | .string s => some s
  | _ => none

def Value.asArray? : Value → Option (List Value)
  | .array items => some items
  | _ => none

def Value.asObject? : Value → Option Object
  | .object members => some members
  | _ => none

/-! ## Equality as data -/

/-- Equality of numbers: an integer never equals a binary64 number. -/
def Number.same : Number → Number → Bool
  | .integer a, .integer b => a == b
  | .real x, .real y => x.eq y
  | _, _ => false

mutual

/-- Equality as data: the order of keys does not matter, and binary64 numbers are compared as
numbers. -/
def Value.same : Value → Value → Bool
  | .null, .null => true
  | .bool a, .bool b => a == b
  | .number a, .number b => a.same b
  | .string a, .string b => a == b
  | .array a, .array b => sameItems a b
  | .object a, .object b => a.length == b.length && sameMembers a b
  | _, _ => false

def sameItems : List Value → List Value → Bool
  | [], [] => true
  | v :: vs, w :: ws => v.same w && sameItems vs ws
  | _, _ => false

/-- Every member of the first object is in the second. -/
def sameMembers : List (String × Value) → Object → Bool
  | [], _ => true
  | (k, v) :: rest, o =>
    (match o.get? k with
      | some w => v.same w
      | none => false) && sameMembers rest o

end

/-- Equality of objects as data. -/
def Object.same (a b : Object) : Bool := Value.same (.object a) (.object b)

end SkillMarket.Json
