import SkillMarket.Binary64.Basic

/-!
TOML values, and tables while they are being filled.

A table remembers how it came to be, for that decides what may still be added to it: a header opens
a table once, dotted keys add to the tables that dotted keys have made, and a table in braces is
complete.
-/

namespace SkillMarket.Toml

/-- How a table came to be: in braces, by its own header, by the header of a table inside it, or by
a dotted key. -/
inductive Origin where
  | braces
  | header
  | implied
  | dotted
deriving DecidableEq, Repr

/-- A value. An array of tables is made of headers and has at least one table; the last one comes
first. -/
inductive Value where
  | string (s : List Char)
  | integer (n : Int)
  | real (x : Binary64)
  | bool (b : Bool)
  | datetime
  | array (items : List Value)
  | table (origin : Origin) (members : List (String × Value))
  | tables (last : List (String × Value)) (before : List (List (String × Value)))
deriving Inhabited

/-- The members of a table. -/
abbrev Table := List (String × Value)

/-- The value of a key. -/
def Table.get? : Table → String → Option Value
  | [], _ => none
  | (k, v) :: rest, key => if k = key then some v else Table.get? rest key

/-- Gives a key a value: in its place if the table has the key, else at the end. -/
def Table.put (key : String) (value : Value) : Table → Table
  | [] => [(key, value)]
  | (k, v) :: rest => if k = key then (k, value) :: rest else (k, v) :: Table.put key value rest

theorem Table.get?_cons (k key : String) (v : Value) (t : Table) :
    Table.get? ((k, v) :: t) key = if k = key then some v else Table.get? t key := rfl

theorem Table.get?_put_self (t : Table) (key : String) (value : Value) :
    (t.put key value).get? key = some value := by
  induction t with
  | nil => simp [Table.put, Table.get?_cons]
  | cons m t ih =>
    obtain ⟨k, v⟩ := m
    by_cases h : k = key <;> simp [Table.put, Table.get?_cons, h, ih]

/-! ## Adding to tables -/

/-- Gives a new key a value. -/
def Table.add (key : String) (value : Value) (t : Table) : Option Table :=
  match t.get? key with
  | none => some (t.put key value)
  | some _ => none

/-- Gives a dotted key a value: `path` leads through tables that are not complete and have no header
of their own, to one made by dotted keys. -/
def Table.addDotted (key : String) (value : Value) : List String → Table → Option Table
  | [], t => t.add key value
  | name :: path, t =>
    match t.get? name with
    | none => (Table.addDotted key value path []).map fun inner => t.put name (.table .dotted inner)
    | some (.table .dotted inner) =>
      (Table.addDotted key value path inner).map fun inner => t.put name (.table .dotted inner)
    | some (.table .implied inner) =>
      if path.isEmpty then none
      else
        (Table.addDotted key value path inner).map fun inner => t.put name (.table .implied inner)
    | some (.tables last before) =>
      if path.isEmpty then none
      else (Table.addDotted key value path last).map fun last => t.put name (.tables last before)
    | some _ => none

/-! ## Headers -/

/-- Changes the table that a header's path leads to, making those on the way that are missing. Of
an array of tables the last one is meant. -/
def Table.alterAt (change : Table → Option Table) : List String → Table → Option Table
  | [], t => change t
  | name :: path, t =>
    match t.get? name with
    | none => (Table.alterAt change path []).map fun inner => t.put name (.table .implied inner)
    | some (.table .braces _) => none
    | some (.table origin inner) =>
      (Table.alterAt change path inner).map fun inner => t.put name (.table origin inner)
    | some (.tables last before) =>
      (Table.alterAt change path last).map fun last => t.put name (.tables last before)
    | some _ => none

/-- Opens a table by its header. -/
def Table.openTable (name : String) (t : Table) : Option Table :=
  match t.get? name with
  | none => some (t.put name (.table .header []))
  | some (.table .implied inner) => some (t.put name (.table .header inner))
  | some _ => none

/-- Opens a further table of an array by its header. -/
def Table.openItem (name : String) (t : Table) : Option Table :=
  match t.get? name with
  | none => some (t.put name (.tables [] []))
  | some (.tables last before) => some (t.put name (.tables [] (last :: before)))
  | some _ => none

end SkillMarket.Toml
