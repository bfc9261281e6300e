import SkillMarket.Yaml.Token

/-!
Events: the nodes of a document, written out in order.

A stack of goals says what is still to come. The goal on top is replaced by what the next tokens
make of it.
-/

namespace SkillMarket.Yaml

/-- A scalar: whether it is plain, its tag as bytes, and its text. -/
structure Scalar where
  isPlain : Bool
  tag : Option (List UInt8)
  text : List Char
deriving DecidableEq, Repr

/-- A scalar, an alias, or the start or end of a collection. Scalars and collections may have
anchors. -/
inductive Event where
  | scalar (anchor : Option String) (s : Scalar)
  | alias (name : String)
  | openSequence (anchor : Option String)
  | openMapping (anchor : Option String)
  | close
deriving DecidableEq, Repr

/-- The scalar that stands where there is nothing. -/
def Event.empty : Event := .scalar none ⟨true, none, []⟩

/-- What is to come next. -/
inductive Goal where
  /-- A node, which may be a block collection, or a sequence whose dashes open no block. -/
  | node (block unindented : Bool)
  /-- The further items of a sequence in a block. -/
  | items
  /-- The further items of a sequence whose dashes open no block. -/
  | unindentedItems
  /-- The next key of a mapping in a block. -/
  | blockKey
  /-- The value of a key in a block. -/
  | blockValue
  /-- The first or a further item of a sequence in brackets. -/
  | flowItem (first : Bool)
  /-- The value of a single pair in brackets. -/
  | pairValue
  /-- The first or a further key of a mapping in braces. -/
  | flowKey (first : Bool)
  /-- The value of a key in braces. -/
  | flowValue
  /-- An event that is certain. -/
  | event (e : Event)
deriving DecidableEq, Repr

/-- What becomes of a goal: events, goals in its place, and the tokens that are left. -/
structure Expansion where
  events : List Event
  goals : List Goal
  rest : List Token
deriving DecidableEq, Repr

/-! ## Nodes -/

/-- The anchor and the tag of a node, in either order. -/
def readProperties : List Token → Option String × Option TagText × List Token
  | .anchor a :: .tag t :: rest => (some a, some t, rest)
  | .tag t :: .anchor a :: rest => (some a, some t, rest)
  | .anchor a :: rest => (some a, none, rest)
  | .tag t :: rest => (none, some t, rest)
  | rest => (none, none, rest)

/-- What the handles of a document stand for. -/
abbrev Handles := List (String × List UInt8)

/-- The whole tag; a handle must be known. -/
def resolveTag (handles : Handles) (t : TagText) : Option (List UInt8) :=
  if t.handle = "" then some t.suffix else (handles.lookup t.handle).map (· ++ t.suffix)

/-- The tag of a node, if it has one. -/
def resolveTag? (handles : Handles) : Option TagText → Option (Option (List UInt8))
  | none => some none
  | some t => (resolveTag handles t).map some

/-- A node with properties. -/
def expandNode (block unindented : Bool) (anchor : Option String) (tag : Option (List UInt8)) :
    List Token → Option Expansion
  | .scalar isPlain text :: rest =>
    some ⟨[.scalar anchor ⟨isPlain, tag, text⟩], [], rest⟩
  | .flowSequenceStart :: rest => some ⟨[.openSequence anchor], [.flowItem true], rest⟩
  | .flowMappingStart :: rest => some ⟨[.openMapping anchor], [.flowKey true], rest⟩
  | rest =>
    match unindented, block, rest with
    | true, _, .dash :: _ => some ⟨[.openSequence anchor], [.unindentedItems], rest⟩
    | _, true, .sequenceStart :: rest => some ⟨[.openSequence anchor], [.items], rest⟩
    | _, true, .mappingStart :: rest => some ⟨[.openMapping anchor], [.blockKey], rest⟩
    | _, _, rest =>
      if anchor.isSome || tag.isSome then some ⟨[.scalar anchor ⟨true, tag, []⟩], [], rest⟩
      else none

/-! ## Goals -/

/-- Nothing stands here in a block mapping. -/
def endsBlockNode : List Token → Bool
  | .key :: _ | .value :: _ | .blockEnd :: _ => true
  | _ => false

/-- Nothing stands here in a block sequence. -/
def endsItem : List Token → Bool
  | .dash :: _ | .blockEnd :: _ => true
  | _ => false

/-- Nothing stands here in a sequence whose dashes open no block. -/
def endsUnindentedItem : List Token → Bool
  | .dash :: _ => true
  | rest => endsBlockNode rest

/-- A node, or an empty scalar if nothing stands here; then a further goal. -/
def nodeOr (isEmpty : Bool) (node next : Goal) (rest : List Token) : Expansion :=
  if isEmpty then ⟨[.empty], [next], rest⟩ else ⟨[], [node, next], rest⟩

/-- An item of a sequence in brackets: a node, or a single pair, of which the key may be missing. -/
def expandFlowItem : List Token → Expansion
  | .flowSequenceEnd :: rest => ⟨[.close], [], rest⟩
  | .key :: .value :: rest | .key :: .comma :: rest | .key :: .flowSequenceEnd :: rest =>
    ⟨[.openMapping none, .empty], [.pairValue, .flowItem false], rest⟩
  | .key :: rest =>
    ⟨[.openMapping none], [.node false false, .pairValue, .flowItem false], rest⟩
  | rest => ⟨[], [.node false false, .flowItem false], rest⟩

/-- A key of a mapping in braces, which may have no value. -/
def expandFlowKey : List Token → Expansion
  | .flowMappingEnd :: rest => ⟨[.close], [], rest⟩
  | .key :: rest =>
    match rest with
    | .value :: _ | .comma :: _ | .flowMappingEnd :: _ =>
      ⟨[.empty], [.flowValue, .flowKey false], rest⟩
    | _ => ⟨[], [.node false false, .flowValue, .flowKey false], rest⟩
  | rest => ⟨[], [.node false false, .event .empty, .flowKey false], rest⟩

/-- Replaces a goal by what the next tokens make of it. -/
def Goal.expand (handles : Handles) : Goal → List Token → Option Expansion
  | .node _ _, .alias name :: rest => some ⟨[.alias name], [], rest⟩
  | .node block unindented, ts => do
    let (anchor, tag, rest) := readProperties ts
    expandNode block unindented anchor (← resolveTag? handles tag) rest
  | .items, .dash :: rest => some (nodeOr (endsItem rest) (.node true false) .items rest)
  | .items, .blockEnd :: rest => some ⟨[.close], [], rest⟩
  | .items, _ => none
  | .unindentedItems, .dash :: rest =>
    some (nodeOr (endsUnindentedItem rest) (.node true false) .unindentedItems rest)
  | .unindentedItems, ts => some ⟨[.close], [], ts⟩
  | .blockKey, .key :: rest =>
    some (nodeOr (endsBlockNode rest) (.node true true) .blockValue rest)
  | .blockKey, .blockEnd :: rest => some ⟨[.close], [], rest⟩
  | .blockKey, _ => none
  | .blockValue, .value :: rest =>
    some (nodeOr (endsBlockNode rest) (.node true true) .blockKey rest)
  | .blockValue, ts => some ⟨[.empty], [.blockKey], ts⟩
  | .flowItem true, ts => some (expandFlowItem ts)
  | .flowItem false, .comma :: rest => some (expandFlowItem rest)
  | .flowItem false, .flowSequenceEnd :: rest => some ⟨[.close], [], rest⟩
  | .flowItem false, _ => none
  | .pairValue, .value :: rest =>
    match rest with
    | .comma :: _ | .flowSequenceEnd :: _ => some ⟨[.empty, .close], [], rest⟩
    | _ => some ⟨[], [.node false false, .event .close], rest⟩
  | .pairValue, ts => some ⟨[.empty, .close], [], ts⟩
  | .flowKey true, ts => some (expandFlowKey ts)
  | .flowKey false, .comma :: rest => some (expandFlowKey rest)
  | .flowKey false, .flowMappingEnd :: rest => some ⟨[.close], [], rest⟩
  | .flowKey false, _ => none
  | .flowValue, .value :: rest =>
    match rest with
    | .comma :: _ | .flowMappingEnd :: _ => some ⟨[.empty], [], rest⟩
    | _ => some ⟨[], [.node false false], rest⟩
  | .flowValue, ts => some ⟨[.empty], [], ts⟩
  | .event e, ts => some ⟨[e], [], ts⟩

/-- Replaces goals until none is left: the events, and the tokens after them. -/
def expandAll (handles : Handles) : Nat → List Goal → List Token →
    Option (List Event × List Token)
  | _, [], ts => some ([], ts)
  | 0, _ :: _, _ => none
  | rounds + 1, g :: goals, ts => do
    let x ← g.expand handles ts
    let (events, rest) ← expandAll handles rounds (x.goals ++ goals) x.rest
    return (x.events ++ events, rest)

/-- How many goals a token can give rise to, at most. -/
def goalsPerToken : Nat := 8

/-! ## Documents -/

/-- The handles that need no directive. -/
def commonHandles : Handles := [("!", bareTag), ("!!", asciiBytes "tag:yaml.org,2002:".toList)]

/-- The directives in front of a document. -/
def takeDirectives : List Token → List Directive × List Token
  | .directive d :: rest =>
    let (ds, rest) := takeDirectives rest
    (d :: ds, rest)
  | rest => ([], rest)

/-- The handles that directives declare, none of them twice. -/
def declaredHandles : List Directive → Option Handles
  | [] => some []
  | .version _ _ :: ds => declaredHandles ds
  | .tag handle start :: ds => do
    let hs ← declaredHandles ds
    if (hs.lookup handle).isSome then none else some ((handle, start) :: hs)

/-- The versions that can be read. -/
def isKnownVersion (major minor : Nat) : Bool := major == 1 && (minor == 1 || minor == 2)

/-- The handles of a document with these directives: at most one version, which must be known. -/
def handlesOf (ds : List Directive) : Option Handles :=
  let versions := ds.filterMap fun
    | .version major minor => some (isKnownVersion major minor)
    | .tag _ _ => none
  if versions.length ≤ 1 && versions.all (· == true) then
    (declaredHandles ds).map (· ++ commonHandles)
  else none

/-- Nothing stands in a document that begins with a mark. -/
def endsDocument : List Token → Bool
  | [] | .directive _ :: _ | .documentStart :: _ | .documentEnd :: _ => true
  | _ => false

/-- The events of the first document, and the tokens after it. -/
def firstDocument? (ts : List Token) : Option (List Event × List Token) :=
  let rounds := goalsPerToken * (ts.length + 1)
  match takeDirectives ts with
  | (ds, .documentStart :: rest) => do
    let handles ← handlesOf ds
    if endsDocument rest then return ([.empty], rest)
    else expandAll handles rounds [.node true false] rest
  | ([], rest) => expandAll commonHandles rounds [.node true false] rest
  | _ => none

/-- The events of the only document of a text; there are none if the text has no document. -/
def Event.ofTokens? : List Token → Option (List Event)
  | [] => some []
  | ts => do
    let (events, rest) ← firstDocument? ts
    if rest.all (· == .documentEnd) then some events else none

end SkillMarket.Yaml
