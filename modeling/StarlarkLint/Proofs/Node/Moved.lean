import StarlarkLint.Node.Basic
import StarlarkLint.Proofs.Position
import StarlarkLint.Token.Basic

/-!
# Trees that are moved

A text that is put below another one keeps its tokens and its trees, but they stand further down.
Moving is said for any map of places, and going down by some lines is one of them.

## Main definitions

* `Position.lowered` — the place some lines further down, in the same column.
* `Span.moved`, `Token.moved`, `Node.moved` — a span, a token and a tree with all their places
  moved.

## Main results

* `Position.through_lowered` — a text that starts further down ends further down.
* `Node.span_moved`, `Node.moved_withSpan` — moving a tree moves the span of its root.
-/

namespace StarlarkLint

namespace Position

/-- The place some lines further down, in the same column. -/
def lowered (lines : Nat) (p : Position) : Position := ⟨p.line + lines, p.column⟩

theorem after_lowered (lines : Nat) (p : Position) (c : Char) :
    (p.lowered lines).after c = (p.after c).lowered lines := by
  unfold after lowered
  split
  · simp [Int.add_right_comm]
  · rfl

/-- **A text that starts further down ends further down.** -/
theorem through_lowered (lines : Nat) (p : Position) (cs : List Char) :
    (p.lowered lines).through cs = (p.through cs).lowered lines := by
  induction cs generalizing p with
  | nil => rfl
  | cons c cs ih => rw [through_cons, through_cons, after_lowered, ih]

/-- Behind a line feed a text starts as many lines below the origin as there are line feeds in front
of it. -/
theorem behind_lineFeed (cs : List Char) :
    behind (cs ++ ['\n']) = origin.lowered (cs.count '\n' + 1) := by
  rw [behind_append_singleton, after_lineFeed]
  simp [behind, lowered, origin, Int.add_comm]

end Position

variable (move : Position → Position)

/-- A span with its places moved. -/
def Span.moved (s : Span) : Span := ⟨move s.start, move s.stop⟩

/-- A token with its places moved. -/
def Token.moved (t : Token) : Token := { t with span := t.span.moved move }

@[simp] theorem Token.kind_moved (t : Token) : (t.moved move).kind = t.kind := rfl

@[simp] theorem Token.value_moved (t : Token) : (t.moved move).value = t.value := rfl

@[simp] theorem Token.span_moved (t : Token) : (t.moved move).span = t.span.moved move := rfl

@[simp] theorem Token.moved_id : Token.moved id = id := rfl

namespace Node

mutual

/-- A tree with all its places moved. -/
def moved : Node → Node
  | hole => hole
  | ident s name => ident (s.moved move) name
  | string s value => string (s.moved move) value
  | number s value => number (s.moved move) value
  | list s items => list (s.moved move) (movedAll items)
  | dict s entries => dict (s.moved move) (movedAll entries)
  | entry s key value => entry (s.moved move) (moved key) (moved value)
  | member s base name => member (s.moved move) (moved base) name
  | call s callee args => call (s.moved move) (moved callee) (movedAll args)
  | unary s op operand => unary (s.moved move) op (moved operand)
  | binary s op left right => binary (s.moved move) op (moved left) (moved right)
  | assign s target op value => assign (s.moved move) (moved target) op (moved value)
  | load s module args => load (s.moved move) (moved module) (movedAll args)
  | file s path dialect statements => file (s.moved move) path dialect (movedAll statements)

/-- The trees in a sequence with all their places moved. -/
def movedAll : List Node → List Node
  | [] => []
  | node :: nodes => moved node :: movedAll nodes

end

theorem movedAll_eq_map (nodes : List Node) : movedAll move nodes = nodes.map (moved move) := by
  induction nodes with
  | nil => rfl
  | cons node nodes ih => rw [movedAll, ih, List.map_cons]

/-- An empty slot has no place that could be moved. -/
theorem span_moved {n : Node} (h : n ≠ hole) : (n.moved move).span = n.span.moved move := by
  cases n with
  | hole => exact absurd rfl h
  | _ => rfl

theorem moved_withSpan (n : Node) (s : Span) :
    (n.withSpan s).moved move = (n.moved move).withSpan (s.moved move) := by
  cases n <;> rfl

mutual

/-- A tree that is moved to where it stands. -/
theorem moved_id : ∀ n : Node, n.moved id = n
  | hole | ident _ _ | string _ _ | number _ _ => rfl
  | list s items => congrArg (list s) (movedAll_id items)
  | dict s entries => congrArg (dict s) (movedAll_id entries)
  | entry s key value => congrArg₂ (entry s) (moved_id key) (moved_id value)
  | member s base name => congrArg (member s · name) (moved_id base)
  | call s callee args => congrArg₂ (call s) (moved_id callee) (movedAll_id args)
  | unary s op operand => congrArg (unary s op) (moved_id operand)
  | binary s op left right => congrArg₂ (binary s op) (moved_id left) (moved_id right)
  | assign s target op value => congrArg₂ (assign s · op ·) (moved_id target) (moved_id value)
  | load s module args => congrArg₂ (load s) (moved_id module) (movedAll_id args)
  | file s path dialect statements => congrArg (file s path dialect) (movedAll_id statements)

theorem movedAll_id : ∀ nodes : List Node, movedAll id nodes = nodes
  | [] => rfl
  | node :: nodes => congrArg₂ List.cons (moved_id node) (movedAll_id nodes)

end

end Node

end StarlarkLint
