import CodeSurvey.Yaml.Tag
import CodeSurvey.Yaml.Token

/-!
The tree of nodes that the tokens of a document spell. An alias is the node that was anchored under
its name; an alias inside the node it names stands for nothing. A text holds one document at most.
-/

namespace CodeSurvey.Yaml

/-- A node. -/
inductive Node where
  | scalar (tag : Tag) (text : List Char)
  | sequence (tag : Tag) (items : List Node)
  | mapping (tag : Tag) (entries : List (Node × Node))

namespace Node

instance : Inhabited Node := ⟨scalar .null []⟩

/-- The type of a node. -/
def tag : Node → Tag
  | scalar t _ | sequence t _ | mapping t _ => t

/-- The node where nothing is written. -/
def empty : Node := scalar .null []

end Node

/-- The tokens ahead, the nodes anchored so far and the handles of tags. -/
structure Reading where
  tokens : List Token
  anchors : List (List Char × Node) := []
  handles : List (List Char × List Char) := []

/-- Reads tokens and answers, or finds a fault. -/
abbrev Reader (α : Type) := StateT Reading (Except Fault) α

namespace Reader

/-- A document that breaks the rules. -/
def fail {α : Type} : Reader α := throw .malformed

/-- The token here. -/
def peek : Reader Token := do
  match (← get).tokens with
  | [] => fail
  | .failure f :: _ => throw f
  | t :: _ => return t

/-- Moves past the token here. -/
def drop : Reader Unit := modify fun r => { r with tokens := r.tokens.drop 1 }

/-- Moves past a token if it stands here, and says whether it did. -/
def accept (t : Token) : Reader Bool := do
  if (← peek) == t then
    drop
    return true
  else return false

/-- Moves past a token that has to stand here. -/
def expect (t : Token) : Reader Unit := do
  if !(← accept t) then fail

/-- One of these tokens stands here. -/
def atOne (ts : List Token) : Reader Bool := return ts.contains (← peek)

/-- The anchor here, if there is one. -/
def anchor? : Reader (Option (List Char)) := do
  match ← peek with
  | .anchor name => drop; return some name
  | _ => return none

/-- The tag here, if there is one, with its handle spelled out. -/
def tag? : Reader (Option (List Char)) := do
  match ← peek with
  | .tag none suffix => drop; return some suffix
  | .tag (some handle) suffix =>
    drop
    match (← get).handles.lookup handle with
    | some uri => return some (uri ++ suffix)
    | none => fail
  | _ => return none

/-- The anchor and the tag of a node, in either order. -/
def properties : Reader (Option (List Char) × Option (List Char)) := do
  match ← anchor? with
  | some name => return (some name, ← tag?)
  | none =>
    match ← tag? with
    | some tag => return (← anchor?, some tag)
    | none => return (none, none)

/-- Remembers a node under the name of an anchor. -/
def remember (name : Option (List Char)) (n : Node) : Reader Unit := do
  match name with
  | some name => modify fun r => { r with anchors := (name, n) :: r.anchors }
  | none => return

/-- The type of a collection, given its tag. -/
def collectionTag (usual : Tag) (tag : Option (List Char)) : Tag :=
  match tag with
  | none => usual
  | some t => if t == ['!'] then usual else Tag.named t

/-- The type of a scalar, given its tag. An exclamation mark alone makes any scalar a plain one. -/
def scalarTag (tag : Option (List Char)) (isPlain : Bool) (text : List Char) : Tag :=
  match tag with
  | none => if isPlain then Tag.ofText text else .text
  | some t => if t == ['!'] then Tag.ofText text else Tag.named t

mutual

/-- A node. Blocks may begin here if `block`, and also the items of a sequence that is no deeper
    than its key if `flush`. -/
def node (block flush : Bool) : Nat → Reader Node
  | 0 => fail
  | n + 1 => do
    match ← peek with
    | .alias name =>
      drop
      match (← get).anchors.lookup name with
      | some made => return made
      | none => fail
    | _ =>
      let (anchor, tag) ← properties
      let anchors := (← get).anchors
      if anchor.any fun name => (anchors.lookup name).isSome then fail
      remember anchor .empty
      let made ← content block flush (anchor.isSome || tag.isSome) tag n
      remember anchor made
      return made

/-- A node behind its anchor and its tag; with either of them it may be empty. -/
def content (block flush mayBeEmpty : Bool) (tag : Option (List Char)) : Nat → Reader Node
  | 0 => fail
  | n + 1 => do
    match ← peek with
    | .scalar text isPlain => drop; return .scalar (scalarTag tag isPlain text) text
    | .openSequence => drop; return .sequence (collectionTag .sequence tag) (← flowItems true n)
    | .openMapping => drop; return .mapping (collectionTag .mapping tag) (← flowEntries true n)
    | t =>
      if t == .item && flush then
        return .sequence (collectionTag .sequence tag) (← flushItems n)
      else if t == .sequenceStart && block then
        drop
        return .sequence (collectionTag .sequence tag) (← blockItems n)
      else if t == .mappingStart && block then
        drop
        return .mapping (collectionTag .mapping tag) (← blockEntries n)
      else if mayBeEmpty then return .scalar (scalarTag tag true []) []
      else fail

/-- A node, unless one of these tokens stands here. -/
def nodeUnless (stop : List Token) (block flush : Bool) : Nat → Reader Node
  | 0 => fail
  | n + 1 => do
    if ← atOne stop then return .empty
    node block flush n

/-- The items of a block to its end. -/
def blockItems : Nat → Reader (List Node)
  | 0 => fail
  | n + 1 => do
    if ← accept .item then
      let first ← nodeUnless [.item, .blockEnd] true false n
      return first :: (← blockItems n)
    else
      expect .blockEnd
      return []

/-- The items of a sequence that is no deeper than its key. -/
def flushItems : Nat → Reader (List Node)
  | 0 => fail
  | n + 1 => do
    if ← accept .item then
      let first ← nodeUnless [.item, .key, .value, .blockEnd] true false n
      return first :: (← flushItems n)
    else return []

/-- The value behind its mark, or nothing. -/
def valueOr (stop : List Token) (block : Bool) : Nat → Reader Node
  | 0 => fail
  | n + 1 => do
    if ← accept .value then nodeUnless stop block block n
    else return .empty

/-- The entries of a block to its end. -/
def blockEntries : Nat → Reader (List (Node × Node))
  | 0 => fail
  | n + 1 => do
    let hasKey ← accept .key
    if hasKey then
      let key ← nodeUnless [.key, .value, .blockEnd] true true n
      let value ← valueOr [.key, .value, .blockEnd] true n
      return (key, value) :: (← blockEntries n)
    else
      expect .blockEnd
      return []

/-- The items of a sequence in flow style to its end; an item with a key is a mapping. -/
def flowItems (first : Bool) : Nat → Reader (List Node)
  | 0 => fail
  | n + 1 => do
    if ← accept .closeSequence then return []
    if !first then expect .comma
    if ← accept .closeSequence then return []
    let item ←
      if ← accept .key then do
        let key ← nodeUnless [.value, .comma, .closeSequence] false false n
        let value ← valueOr [.comma, .closeSequence] false n
        pure (Node.mapping .mapping [(key, value)])
      else node false false n
    return item :: (← flowItems false n)

/-- The entries of a mapping in flow style to its end; a value may be missing. -/
def flowEntries (first : Bool) : Nat → Reader (List (Node × Node))
  | 0 => fail
  | n + 1 => do
    if ← accept .closeMapping then return []
    if !first then expect .comma
    if ← accept .closeMapping then return []
    let entry ←
      if ← accept .key then do
        let key ← nodeUnless [.value, .comma, .closeMapping] false false n
        let value ← valueOr [.comma, .closeMapping] false n
        pure (key, value)
      else do
        let key ← node false false n
        pure (key, Node.empty)
    return entry :: (← flowEntries false n)

end

/-- The handles that every document knows. -/
def usualHandles : List (List Char × List Char) :=
  [(['!'], ['!']), (['!', '!'], Tag.front.toList)]

/-- The directives in front of a document; at most one version, of the first kind, and no handle
    twice. -/
def directives (hasVersion : Bool) : Nat → Reader Unit
  | 0 => fail
  | n + 1 => do
    match ← peek with
    | .version major =>
      if hasVersion || major != 1 then fail
      drop
      directives true n
    | .handle name uri =>
      if ((← get).handles.lookup name).isSome then fail
      drop
      modify fun r => { r with handles := (name, uri) :: r.handles }
      directives hasVersion n
    | .directive => drop; directives hasVersion n
    | _ => modify fun r => { r with handles := r.handles ++ usualHandles }

/-- The token begins a document that is marked as one. -/
def opensDocument : Token → Bool
  | .version _ | .handle .. | .directive | .documentStart => true
  | _ => false

/-- Skips the end marks of documents. -/
def endMarks : Nat → Reader Unit
  | 0 => return
  | n + 1 => do
    if ← accept .documentEnd then endMarks n

/-- The only document of a text, if there is one. -/
def document (fuel : Nat) : Reader (Option Node) := do
  let first ← peek
  if first == .streamEnd then return none
  let made ←
    if opensDocument first then do
      directives false fuel
      expect .documentStart
      let t ← peek
      if opensDocument t || t == .documentEnd || t == .streamEnd then pure Node.empty
      else node true false fuel
    else do
      modify fun r => { r with handles := usualHandles }
      node true false fuel
  endMarks fuel
  expect .streamEnd
  return some made

end Reader

/-- The only document of a text, if there is one. -/
def document (text : List Char) : Except Fault (Option Node) := do
  let tokens := tokens text
  let (made, _) ← (Reader.document (4 * tokens.length + 8)).run { tokens }
  return made

end CodeSurvey.Yaml
