import SkillMarket.Yaml.Event

/-!
The mapping that a text consists of.

Only the keys of the outermost mapping and the scalars they lead to are kept. An alias stands for
the node that carries its anchor. Anchors are numbered as they come, a known name being taken again
for a new anchor; of two anchors with one number the later one counts.
-/

namespace SkillMarket.Yaml

/-! ## Anchors -/

/-- An event in which an alias is known by its number. -/
inductive Item where
  | scalar (s : Scalar)
  | alias (number : Nat)
  | openSequence
  | openMapping
  | close
deriving DecidableEq, Repr

/-- What the anchors of a document are: the number of each name, and the nodes by number, a
collection being none. The later of two nodes comes first. -/
structure Anchors where
  numbers : List (String × Nat)
  nodes : List (Nat × Option Scalar)
deriving DecidableEq, Repr

/-- The number of names. -/
def Anchors.size (a : Anchors) : Nat := a.numbers.length

/-- Gives a node under a name the next number. -/
def Anchors.add (a : Anchors) (name : Option String) (node : Option Scalar) : Anchors :=
  match name with
  | none => a
  | some name =>
    ⟨(name, a.size) :: a.numbers.filter (·.1 ≠ name), (a.size, node) :: a.nodes⟩

/-- The node with a number. -/
def Anchors.node? (a : Anchors) (number : Nat) : Option Scalar := (a.nodes.lookup number).join

/-- Numbers the aliases of a document. An alias must follow an anchor of its name. -/
def Item.ofEvents? (a : Anchors) : List Event → Option (List Item × Anchors)
  | [] => some ([], a)
  | .scalar anchor s :: rest =>
    (ofEvents? (a.add anchor (some s)) rest).map fun r => (.scalar s :: r.1, r.2)
  | .openSequence anchor :: rest =>
    (ofEvents? (a.add anchor none) rest).map fun r => (.openSequence :: r.1, r.2)
  | .openMapping anchor :: rest =>
    (ofEvents? (a.add anchor none) rest).map fun r => (.openMapping :: r.1, r.2)
  | .close :: rest => (ofEvents? a rest).map fun r => (.close :: r.1, r.2)
  | .alias name :: rest =>
    match a.numbers.lookup name with
    | some number => (ofEvents? a rest).map fun r => (.alias number :: r.1, r.2)
    | none => none

/-! ## Entries -/

/-- A key with the scalar it leads to; a collection is none. -/
structure Entry where
  key : String
  value : Option Scalar
deriving DecidableEq, Repr

/-- The node that an item begins. -/
def Item.node? (a : Anchors) : Item → Option Scalar
  | .scalar s => some s
  | .alias number => a.node? number
  | _ => none

/-- The entries of a mapping after its start, up to its end: `depth` counts the open collections
inside, and `key` is the key whose value comes next. A key must be a scalar. -/
def collect (a : Anchors) (depth : Nat) (key : Option String) : List Item → Option (List Entry)
  | [] => none
  | item :: rest =>
    match depth, item, key with
    | 0, .close, none => some []
    | 0, item, none => do
      let s ← item.node? a
      collect a 0 (some (String.ofList s.text)) rest
    | 0, item, some key =>
      let inside := if item = .openSequence || item = .openMapping then 1 else 0
      (collect a inside none rest).map (⟨key, item.node? a⟩ :: ·)
    | depth + 1, item, key =>
      match item with
      | .openSequence | .openMapping => collect a (depth + 2) key rest
      | .close => collect a depth key rest
      | _ => collect a (depth + 1) key rest

/-- The entries of the mapping that a document is. -/
def Entry.ofEvents? (events : List Event) : Option (List Entry) := do
  match ← Item.ofEvents? ⟨[], []⟩ events with
  | ([], _) => return []
  | (.openMapping :: items, a) => collect a 0 none items
  | _ => none

/-- The entries of the mapping that a text is. A text without a document has none. -/
def Entry.ofText? (text : List Char) : Option (List Entry) := do
  Entry.ofEvents? (← Event.ofTokens? (← Token.ofText? (← prepare? text)))

/-! ## Optional texts -/

/-- The tag of nothing. -/
def nullTag : List UInt8 := asciiBytes "tag:yaml.org,2002:null".toList

/-- The words for nothing. -/
def nullWords : List (List Char) :=
  ["~".toList, "null".toList, "Null".toList, "NULL".toList]

/-- The text of a scalar, or none if it stands for nothing: a plain scalar without a tag that is
empty or a word for nothing. Under the tag of nothing a plain scalar must be such a word. -/
def Scalar.optional? (s : Scalar) : Option (Option (List Char)) :=
  if !s.isPlain then some (some s.text)
  else if s.tag = some nullTag then if nullWords.contains s.text then some none else none
  else if s.tag = none && (s.text.isEmpty || nullWords.contains s.text) then some none
  else some (some s.text)

end SkillMarket.Yaml
