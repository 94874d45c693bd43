import Mathlib.Data.List.Forall2
import StarlarkLint.Proofs.Node.Place

/-!
# Ways through a tree

There are three ways to go through a tree: to walk it, to edit it, and to edit the calls of one
name.  A walk goes from a node to the nodes below it; an edit goes from slot to slot, and writes
back what it has settled there.  An editor that keeps every node writes back what was there, so that
the three ways come to the same: the places of the tree are met once each, in lexicographic order,
and at each of them the nodes above it are at hand, outermost first.

## Main definitions

* `Editor.Keeps` — the editor keeps every node.

## Main results

* `Node.editFrom_of_keeps` — an editor that keeps every node sees all and changes nothing.
* `Node.traversals_agree` — the three ways through a tree agree.
-/

namespace StarlarkLint

/-- The editor keeps every node. -/
def Editor.Keeps (editor : Editor) : Prop := ∀ node path, editor node path = .keep

theorem Editor.Keeps.onCallsOf {editor : Editor} (h : editor.Keeps) (name : String) :
    (editor.onCallsOf name).Keeps := by
  intro node path
  rw [Editor.onCallsOf, h node path, ite_self]

theorem Editor.Keeps.settle_eq {editor : Editor} (h : editor.Keeps) (path : List Node) (node : Node)
    (kept : Edited Node) :
    editor.settle path node kept = ⟨(node, path) :: kept.visits, some kept.result⟩ := by
  rw [Editor.settle, h node path]

namespace Node

variable {editor : Editor}

mutual

/-- **An editor that keeps every node** sees what a walk sees, and writes back what was there. -/
theorem editFrom_of_keeps (h : editor.Keeps) (path : List Node) (node : Node) :
    editFrom editor path node = ⟨walkFrom path node, some node⟩ := by
  cases node with
  | hole => rfl
  | ident | string | number => rw [editFrom, h.settle_eq, walkFrom]
  | list s items => rw [editFrom, editAll_of_keeps h, h.settle_eq, walkFrom]
  | dict s entries => rw [editFrom, editAll_of_keeps h, h.settle_eq, walkFrom]
  | file s p d statements => rw [editFrom, editAll_of_keeps h, h.settle_eq, walkFrom]
  | member s base name =>
    rw [editFrom, editFrom_of_keeps h, h.settle_eq, walkFrom, Option.getD_some]
  | unary s op operand =>
    rw [editFrom, editFrom_of_keeps h, h.settle_eq, walkFrom, Option.getD_some]
  | entry s key value =>
    rw [editFrom, editFrom_of_keeps h, editFrom_of_keeps h, h.settle_eq, walkFrom,
      Option.getD_some, Option.getD_some]
  | binary s op left right =>
    rw [editFrom, editFrom_of_keeps h, editFrom_of_keeps h, h.settle_eq, walkFrom,
      Option.getD_some, Option.getD_some]
  | assign s target op value =>
    rw [editFrom, editFrom_of_keeps h, editFrom_of_keeps h, h.settle_eq, walkFrom,
      Option.getD_some, Option.getD_some]
  | call s callee args =>
    rw [editFrom, editFrom_of_keeps h, editAll_of_keeps h, h.settle_eq, walkFrom, Option.getD_some]
  | load s module args =>
    rw [editFrom, editFrom_of_keeps h, editAll_of_keeps h, h.settle_eq, walkFrom, Option.getD_some]

theorem editAll_of_keeps (h : editor.Keeps) (path nodes : List Node) :
    editAll editor path nodes = ⟨walkAll path nodes, nodes⟩ := by
  cases nodes with
  | nil => rfl
  | cons node nodes =>
    rw [editAll, editFrom_of_keeps h, editAll_of_keeps h, walkAll, Option.toList_some,
      List.singleton_append]

end

theorem edit_of_keeps (h : editor.Keeps) (root : Node) : root.edit editor = ⟨root.walk, root⟩ := by
  rw [edit, editFrom_of_keeps h, Option.getD_some, walk]

/-- An editor of calls that keeps them sees the calls that a walk sees. -/
theorem editCalls_of_keeps (h : editor.Keeps) (name : String) (root : Node) :
    root.editCalls name editor = ⟨root.walk.filter (·.1.isCallOf name), root⟩ := by
  rw [editCalls, edit_of_keeps (h.onCallsOf name)]

/-- The calls of a name, whatever their arguments. -/
theorem isCallOf_iff {name : String} {n : Node} :
    n.isCallOf name = true ↔ ∃ s s' args, n = call s (ident s' name) args := by
  constructor
  · intro h
    cases n with
    | call s callee args =>
      cases callee with
      | ident s' other =>
        obtain rfl : other = name := by simpa [isCallOf] using h
        exact ⟨s, s', args, rfl⟩
      | _ => cases h
    | _ => cases h
  · rintro ⟨s, s', args, rfl⟩
    simp [isCallOf]

/-- **The ways through a tree agree.**  A walk meets the places of the tree that hold a node once
each, a node before what is below it and what is below a slot before what is below a later one; and
with each node it has the nodes above its place at hand, outermost first.  An editor that keeps
every node sees the same and leaves the tree as it is; an editor of the calls of a name sees of
these visits those to the calls of that name, and leaves the tree as it is. -/
theorem traversals_agree (h : editor.Keeps) (root : Node) :
    (∃ ps : List Place, ps.Pairwise (· < ·) ∧
      (∀ p, p ∈ ps ↔ ∃ n, root.at? p = some n ∧ n ≠ hole) ∧
      List.Forall₂ (fun visit p => root.at? p = some visit.1 ∧
        p.above.map root.at? = visit.2.map some) root.walk ps) ∧
    root.edit editor = ⟨root.walk, root⟩ ∧
    ∀ name, root.editCalls name editor = ⟨root.walk.filter (·.1.isCallOf name), root⟩ ∧
      ∀ n : Node, n.isCallOf name = true ↔ ∃ s s' args, n = call s (ident s' name) args := by
  refine ⟨?_, edit_of_keeps h root, fun name =>
    ⟨editCalls_of_keeps h name root, fun n => isCallOf_iff⟩⟩
  obtain ⟨ps, hps, hwalk⟩ := exists_enumerates_walk root
  refine ⟨ps, hps.ordered, fun p => hps.mem_iff, ?_⟩
  have hsights := hwalk []
  rw [← List.forall₂_eq_eq_eq, List.forall₂_map_left_iff, List.forall₂_map_right_iff] at hsights
  refine hsights.imp fun visit p hsight => ?_
  obtain ⟨hnode, habove⟩ := Prod.mk.inj hsight
  exact ⟨hnode.symm, habove.symm⟩

/-- A call of a name within an argument of a call of that name, in a file next to an empty slot: the
inner call is visited below the outer one, its argument and the file. -/
theorem traversals_agree_nested_glob :
    let glob (args : List Node) : Node := .call {} (.ident {} "glob") args
    let sum : Node := .binary {} "+" (glob []) .hole
    let root : Node := .file {} "BUILD" .build [glob [sum]]
    let editor : Editor := fun _ _ => .keep
    editor.Keeps ∧ root.edit editor = ⟨root.walk, root⟩ ∧
      root.editCalls "glob" editor =
        ⟨[(glob [sum], [root]), (glob [], [root, glob [sum], sum])], root⟩ := by
  intro glob sum root editor
  have hkeeps : editor.Keeps := fun _ _ => rfl
  obtain ⟨-, hedit, hcalls⟩ := traversals_agree hkeeps root
  exact ⟨hkeeps, hedit, (hcalls "glob").1.trans rfl⟩

end Node

theorem SourceFile.edit_of_keeps {editor : Editor} (h : editor.Keeps) (f : SourceFile) :
    f.edit editor = f := by
  rw [edit, Node.editAll_of_keeps h]

end StarlarkLint
