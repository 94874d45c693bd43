import StarlarkLint.Yaml.Token

/-!
# YAML trees

A document as a tree of scalars, sequences and mappings, with the tags that it states.  Aliases are
replaced by the nodes that they name, but for an alias that stands inside the node it names.

## Main definitions

* `Yaml.Tree` — the trees.
* `Yaml.Reader` — the tokens that are left, with what names and handles stand for.
* `Yaml.document` — the one document of a text, if it has one.
-/

namespace StarlarkLint.Yaml

/-- A node of a document; a node without a tag gets one by its form. -/
inductive Tree
  /-- A scalar; a plain one may stand for something else than its text. -/
  | scalar (tag : Option String) (text : String) (plain : Bool)
  /-- A sequence. -/
  | sequence (tag : Option String) (items : List Tree)
  /-- A mapping. -/
  | mapping (tag : Option String) (entries : List (Tree × Tree))
  /-- A sequence or, if `keyed`, a mapping inside itself. -/
  | loop (keyed : Bool)
  deriving Repr, Inhabited

/-- The node that stands where nothing is written. -/
def Tree.empty : Tree := .scalar none "" true

/-- The tokens that are left, with what names and handles stand for. -/
structure Reader where
  /-- The tokens. -/
  tokens : List Token
  /-- The nodes that have a name; for a node that is still being read a loop stands in. -/
  anchors : List (String × Tree) := []
  /-- What the handles of tags stand for. -/
  handles : List (String × String) := []
  deriving Repr

namespace Reader

/-- The next token. -/
def next (r : Reader) : Token := r.tokens.headD .streamEnd

/-- The reader behind the next token. -/
def skip (r : Reader) : Reader := { r with tokens := r.tokens.drop 1 }

/-- A tag in full. -/
def tagName (r : Reader) (handle : Option String) (suffix : String) : Except Problem String :=
  match handle with
  | none => .ok suffix
  | some h =>
    match r.handles.lookup h with
    | some uri => .ok (uri ++ suffix)
    | none => .error .badStructure

/-- An anchor, if one stands here. -/
def anchor? (r : Reader) : Option String × Reader :=
  match r.next with
  | .anchor name => (some name, r.skip)
  | _ => (none, r)

/-- A tag, if one stands here. -/
def tag? (r : Reader) : Except Problem ((Option String) × Reader) :=
  match r.next with
  | .tag handle suffix => do
    let name ← r.tagName handle suffix
    .ok (some name, r.skip)
  | _ => .ok (none, r)

/-- The anchor and the tag of a node, in either order. -/
def properties (r : Reader) : Except Problem ((Option String × Option String) × Reader) := do
  let (anchor, r) := r.anchor?
  let (tag, r) ← r.tag?
  match anchor with
  | some _ => .ok ((anchor, tag), r)
  | none =>
    let (anchor, r) := if tag.isSome then r.anchor? else (none, r)
    .ok ((anchor, tag), r)

/-- Whether a mapping starts here. -/
def startsMapping (r : Reader) : Bool :=
  r.next = .flowMappingStart ∨ r.next = .blockMappingStart

/-- Give a name to a node that starts here. -/
def openAnchor (anchor : Option String) (r : Reader) : Except Problem Reader :=
  match anchor with
  | none => .ok r
  | some name =>
    if (r.anchors.lookup name).isSome then .error .badReference
    else .ok { r with anchors := (name, .loop r.startsMapping) :: r.anchors }

/-- Let a name stand for a node that has been read. -/
def closeAnchor (anchor : Option String) (tree : Tree) (r : Reader) : Reader :=
  match anchor with
  | none => r
  | some name =>
    { r with anchors := r.anchors.map fun (n, t) => if n = name then (n, tree) else (n, t) }

/-- The node that a name stands for. -/
def resolve (name : String) (r : Reader) : Except Problem Tree :=
  match r.anchors.lookup name with
  | some tree => .ok tree
  | none => .error .badReference

mutual

/-- A node.  Outside brackets it may be written as a block; as the value of a key it may be a
sequence that is not indented. -/
def node (isBlock indentless : Bool) : Nat → Reader → Except Problem (Tree × Reader)
  | 0, _ => .error .badStructure
  | fuel + 1, r =>
    match r.next with
    | .alias name => do
      let tree ← r.resolve name
      .ok (tree, r.skip)
    | _ => do
      let ((anchor, stated), r) ← r.properties
      let r ← r.openAnchor anchor
      let tag := stated.filter (· ≠ "!")
      let (tree, r) ← match r.next with
        -- the tag of a single mark asks for what a plain scalar would stand for
        | .scalar text plain =>
          .ok (.scalar tag text (stated == some "!" || (plain && stated.isNone)), r.skip)
        | .flowSequenceStart => do
          let (items, r) ← flowItems true fuel r.skip
          .ok (.sequence tag items, r)
        | .flowMappingStart => do
          let (entries, r) ← flowEntries true fuel r.skip
          .ok (.mapping tag entries, r)
        | other =>
          if indentless && other == .blockEntry then do
            let (items, r) ← plainItems fuel r
            .ok (.sequence tag items, r)
          else if isBlock && other == .blockSequenceStart then do
            let (items, r) ← blockItems fuel r.skip
            .ok (.sequence tag items, r)
          else if isBlock && other == .blockMappingStart then do
            let (entries, r) ← blockEntries fuel r.skip
            .ok (.mapping tag entries, r)
          -- a name or a tag may stand for an empty node, nothing at all may not
          else if anchor.isSome || stated.isSome then .ok (.scalar tag "" tag.isNone, r)
          else .error .badStructure
      .ok (tree, r.closeAnchor anchor tree)

/-- A node, or nothing before one of the given tokens. -/
def optional (isBlock indentless : Bool) (before : List Token) :
    Nat → Reader → Except Problem (Tree × Reader)
  | 0, _ => .error .badStructure
  | fuel + 1, r =>
    if r.next ∈ before then .ok (.empty, r) else node isBlock indentless fuel r

/-- The items of a sequence that is written as a block, and its end. -/
def blockItems : Nat → Reader → Except Problem ((List Tree) × Reader)
  | 0, _ => .error .badStructure
  | fuel + 1, r =>
    match r.next with
    | .blockEntry => do
      let (item, r) ← optional true false [.blockEntry, .blockEnd] fuel r.skip
      let (items, r) ← blockItems fuel r
      .ok (item :: items, r)
    | .blockEnd => .ok ([], r.skip)
    | _ => .error .badStructure

/-- The items of a sequence that is not indented. -/
def plainItems : Nat → Reader → Except Problem ((List Tree) × Reader)
  | 0, _ => .error .badStructure
  | fuel + 1, r =>
    match r.next with
    | .blockEntry => do
      let (item, r) ← optional true false [.blockEntry, .key, .value, .blockEnd] fuel r.skip
      let (items, r) ← plainItems fuel r
      .ok (item :: items, r)
    | _ => .ok ([], r)

/-- The entries of a mapping that is written as a block, and its end. -/
def blockEntries : Nat → Reader → Except Problem ((List (Tree × Tree)) × Reader)
  | 0, _ => .error .badStructure
  | fuel + 1, r =>
    let entry (key : Tree) (r : Reader) : Except Problem ((List (Tree × Tree)) × Reader) := do
      let (value, r) ← if r.next = .value then
          optional true true [.key, .value, .blockEnd] fuel r.skip
        else .ok (.empty, r)
      let (entries, r) ← blockEntries fuel r
      .ok ((key, value) :: entries, r)
    match r.next with
    | .key => do
      let (key, r) ← optional true true [.key, .value, .blockEnd] fuel r.skip
      entry key r
    | .blockEnd => .ok ([], r.skip)
    | _ => .error .badStructure

/-- The items of a sequence in brackets, and its end; a comma stands before each but the first. -/
def flowItems (first : Bool) : Nat → Reader → Except Problem ((List Tree) × Reader)
  | 0, _ => .error .badStructure
  | fuel + 1, r =>
    if r.next = .flowSequenceEnd then .ok ([], r.skip)
    else if !first && r.next ≠ .flowEntry then .error .badStructure
    else
      let r := if first then r else r.skip
      if r.next = .flowSequenceEnd then .ok ([], r.skip)
      else if r.next = .key then do
        let (key, r) ← optional false false [.value, .flowEntry, .flowSequenceEnd] fuel r.skip
        let (value, r) ← if r.next = .value then
            optional false false [.flowEntry, .flowSequenceEnd] fuel r.skip
          else .ok (.empty, r)
        let (items, r) ← flowItems false fuel r
        .ok (.mapping none [(key, value)] :: items, r)
      else do
        let (item, r) ← node false false fuel r
        let (items, r) ← flowItems false fuel r
        .ok (item :: items, r)

/-- The entries of a mapping in braces, and its end; a comma stands before each but the first. -/
def flowEntries (first : Bool) : Nat → Reader → Except Problem ((List (Tree × Tree)) × Reader)
  | 0, _ => .error .badStructure
  | fuel + 1, r =>
    if r.next = .flowMappingEnd then .ok ([], r.skip)
    else if !first && r.next ≠ .flowEntry then .error .badStructure
    else
      let r := if first then r else r.skip
      if r.next = .flowMappingEnd then .ok ([], r.skip)
      else if r.next = .key then do
        let (key, r) ← optional false false [.value, .flowEntry, .flowMappingEnd] fuel r.skip
        let (value, r) ← if r.next = .value then
            optional false false [.flowEntry, .flowMappingEnd] fuel r.skip
          else .ok (.empty, r)
        let (entries, r) ← flowEntries false fuel r
        .ok ((key, value) :: entries, r)
      else do
        let (key, r) ← node false false fuel r
        let (entries, r) ← flowEntries false fuel r
        .ok ((key, .empty) :: entries, r)

end

/-- What handles stand for unless a directive says otherwise. -/
def defaultHandles : List (String × String) := [("!", "!"), ("!!", "tag:yaml.org,2002:")]

/-- The directives in front of a document. -/
def directives (versioned : Bool) : Nat → Reader → Except Problem Reader
  | 0, r => .ok r
  | fuel + 1, r =>
    match r.next with
    | .version major _ =>
      if versioned ∨ major ≠ 1 then .error .badStructure else directives true fuel r.skip
    | .handle name uri =>
      if (r.handles.lookup name).isSome then .error .badStructure
      else directives versioned fuel { r.skip with handles := (name, uri) :: r.handles }
    | .directive => directives versioned fuel r.skip
    | _ => .ok r

/-- Whether a token stands between documents. -/
def isOutside : Token → Bool
  | .version .. | .handle .. | .directive | .documentStart | .documentEnd | .streamEnd => true
  | _ => false

/-- The reader behind the marks that end documents. -/
def skipEnds (r : Reader) : Reader :=
  { r with tokens := r.tokens.dropWhile (· == .documentEnd) }

/-- The first document, if there is one. -/
def first (r : Reader) : Except Problem ((Option Tree) × Reader) := do
  let fuel := 4 * r.tokens.length + 8
  match r.next with
  | .streamEnd => .ok (none, r)
  | .version .. | .handle .. | .directive | .documentStart =>
    let r ← r.directives false fuel
    if r.next = .documentStart then
      let r := { r.skip with handles := r.handles ++ defaultHandles }
      if isOutside r.next then .ok (some .empty, r)
      else
        let (tree, r) ← node true false fuel r
        .ok (some tree, r)
    else .error .badStructure
  | _ =>
    let (tree, r) ← node true false fuel { r with handles := defaultHandles }
    .ok (some tree, r)

end Reader

/-- The one document of a text, if it has one. -/
def document (text : String) : Except Problem (Option Tree) := do
  let ts ← tokens text
  let (tree, r) ← ({ tokens := ts } : Reader).first
  if r.skipEnds.next = .streamEnd then .ok tree else .error .badStructure

end StarlarkLint.Yaml
