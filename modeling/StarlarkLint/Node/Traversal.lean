import StarlarkLint.Node.Basic

/-!
# Walking and editing trees

Trees are visited in pre-order with the slots of a node in source order, so that what a visitor
collects comes in a stable order.  A visit is a node together with its ancestors, outermost first.

An editor answers each visit: keep the node and go on below it, put another node in its place, or
delete it.  What replaces a node is not visited.  A deletion removes the node from the sequence that
holds it; in a slot for a single node, and at the root, it leaves the node as it is.

## Main definitions

* `Node.walk` — all visits of a tree.
* `Edit`, `Node.edit` — the answers of an editor, and what it makes of a tree.
* `Node.editCalls` — an editor that sees the calls of one name only.
* `SourceFile.edit` — what an editor makes of a file below its root.
-/

namespace StarlarkLint

/-- A node and its ancestors, outermost first. -/
abbrev Visit := Node × List Node

/-! ### Walking -/

namespace Node

mutual

/-- The visits of a tree whose root has the given ancestors. -/
def walkFrom (path : List Node) : Node → List Visit
  | hole => []
  | ident s name => [(ident s name, path)]
  | string s value => [(string s value, path)]
  | number s value => [(number s value, path)]
  | list s items => (list s items, path) :: walkAll (path ++ [list s items]) items
  | dict s entries => (dict s entries, path) :: walkAll (path ++ [dict s entries]) entries
  | entry s key value =>
    let below := path ++ [entry s key value]
    (entry s key value, path) :: (walkFrom below key ++ walkFrom below value)
  | member s base name => (member s base name, path) :: walkFrom (path ++ [member s base name]) base
  | call s callee args =>
    let below := path ++ [call s callee args]
    (call s callee args, path) :: (walkFrom below callee ++ walkAll below args)
  | unary s op operand =>
    (unary s op operand, path) :: walkFrom (path ++ [unary s op operand]) operand
  | binary s op left right =>
    let below := path ++ [binary s op left right]
    (binary s op left right, path) :: (walkFrom below left ++ walkFrom below right)
  | assign s target op value =>
    let below := path ++ [assign s target op value]
    (assign s target op value, path) :: (walkFrom below target ++ walkFrom below value)
  | load s module args =>
    let below := path ++ [load s module args]
    (load s module args, path) :: (walkFrom below module ++ walkAll below args)
  | file s p d statements =>
    (file s p d statements, path) :: walkAll (path ++ [file s p d statements]) statements

/-- The visits of the trees in a sequence. -/
def walkAll (path : List Node) : List Node → List Visit
  | [] => []
  | node :: nodes => walkFrom path node ++ walkAll path nodes

end

/-- The visits of a tree. -/
def walk (root : Node) : List Visit := walkFrom [] root

end Node

/-! ### Editing -/

/-- What an editor does with a node. -/
inductive Edit
  /-- Leave it and go on below it. -/
  | keep
  /-- Put another node in its place. -/
  | replace (node : Node)
  /-- Take it out of the sequence that holds it. -/
  | delete
  deriving Repr, Inhabited

/-- An editor answers a node and its ancestors. -/
abbrev Editor := Node → List Node → Edit

/-- What an editor made of a part of a tree, and the visits it made. -/
structure Edited (α : Type) where
  /-- The visits, in order. -/
  visits : List Visit
  /-- What the part has become. -/
  result : α
  deriving Repr

/-- The outcome for a node, given the outcome for what is below it. -/
def Editor.settle (editor : Editor) (path : List Node) (node : Node) (kept : Edited Node) :
    Edited (Option Node) :=
  match editor node path with
  | .keep => ⟨(node, path) :: kept.visits, some kept.result⟩
  | .replace other => ⟨[(node, path)], some other⟩
  | .delete => ⟨[(node, path)], none⟩

namespace Node

mutual

/-- Edit a tree whose root has the given ancestors; no result means that the root is deleted. -/
def editFrom (editor : Editor) (path : List Node) : Node → Edited (Option Node)
  | hole => ⟨[], some hole⟩
  | ident s name => editor.settle path (ident s name) ⟨[], ident s name⟩
  | string s value => editor.settle path (string s value) ⟨[], string s value⟩
  | number s value => editor.settle path (number s value) ⟨[], number s value⟩
  | list s items =>
    let below := editAll editor (path ++ [list s items]) items
    editor.settle path (list s items) ⟨below.visits, list s below.result⟩
  | dict s entries =>
    let below := editAll editor (path ++ [dict s entries]) entries
    editor.settle path (dict s entries) ⟨below.visits, dict s below.result⟩
  | entry s key value =>
    let path' := path ++ [entry s key value]
    let first := editFrom editor path' key
    let second := editFrom editor path' value
    editor.settle path (entry s key value)
      ⟨first.visits ++ second.visits,
        entry s (first.result.getD key) (second.result.getD value)⟩
  | member s base name =>
    let below := editFrom editor (path ++ [member s base name]) base
    editor.settle path (member s base name)
      ⟨below.visits, member s (below.result.getD base) name⟩
  | call s callee args =>
    let path' := path ++ [call s callee args]
    let first := editFrom editor path' callee
    let second := editAll editor path' args
    editor.settle path (call s callee args)
      ⟨first.visits ++ second.visits, call s (first.result.getD callee) second.result⟩
  | unary s op operand =>
    let below := editFrom editor (path ++ [unary s op operand]) operand
    editor.settle path (unary s op operand)
      ⟨below.visits, unary s op (below.result.getD operand)⟩
  | binary s op left right =>
    let path' := path ++ [binary s op left right]
    let first := editFrom editor path' left
    let second := editFrom editor path' right
    editor.settle path (binary s op left right)
      ⟨first.visits ++ second.visits,
        binary s op (first.result.getD left) (second.result.getD right)⟩
  | assign s target op value =>
    let path' := path ++ [assign s target op value]
    let first := editFrom editor path' target
    let second := editFrom editor path' value
    editor.settle path (assign s target op value)
      ⟨first.visits ++ second.visits,
        assign s (first.result.getD target) op (second.result.getD value)⟩
  | load s module args =>
    let path' := path ++ [load s module args]
    let first := editFrom editor path' module
    let second := editAll editor path' args
    editor.settle path (load s module args)
      ⟨first.visits ++ second.visits, load s (first.result.getD module) second.result⟩
  | file s p d statements =>
    let below := editAll editor (path ++ [file s p d statements]) statements
    editor.settle path (file s p d statements) ⟨below.visits, file s p d below.result⟩

/-- Edit the trees in a sequence, leaving out those that are deleted. -/
def editAll (editor : Editor) (path : List Node) : List Node → Edited (List Node)
  | [] => ⟨[], []⟩
  | node :: nodes =>
    let first := editFrom editor path node
    let rest := editAll editor path nodes
    ⟨first.visits ++ rest.visits, first.result.toList ++ rest.result⟩

end

/-- Edit a tree; its root stays when the editor deletes it. -/
def edit (editor : Editor) (root : Node) : Edited Node :=
  let edited := editFrom editor [] root
  ⟨edited.visits, edited.result.getD root⟩

/-- Whether an editor leaves the root in place, if only by deleting it. -/
def keepsRoot (editor : Editor) (root : Node) : Bool :=
  -- the root is the first visit, and its answer alone decides
  match editor root [] with
  | .replace _ => false
  | _ => true

end Node

/-- The editor that answers calls of one name as the given editor does and keeps all else. -/
def Editor.onCallsOf (name : String) (editor : Editor) : Editor := fun node path =>
  if node.isCallOf name then editor node path else .keep

/-- Edit the calls of one name; only these count as visited. -/
def Node.editCalls (name : String) (editor : Editor) (root : Node) : Edited Node :=
  let edited := root.edit (editor.onCallsOf name)
  ⟨edited.visits.filter (·.1.isCallOf name), edited.result⟩

/-! ### Editing files -/

/-- Edit what is below the root of a file. -/
def SourceFile.edit (editor : Editor) (f : SourceFile) : SourceFile :=
  -- the statements are a sequence, so that a deletion takes effect
  { f with statements := (Node.editAll editor [f.node] f.statements).result }

end StarlarkLint
