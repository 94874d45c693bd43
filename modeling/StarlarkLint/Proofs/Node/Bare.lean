import StarlarkLint.Node.Basic

/-!
# Trees without positions

Two trees mean the same when they differ in their spans only.  The bare form of a tree has the zero
span everywhere, so that this is equality of bare forms.

## Main definitions

* `Node.bare`, `Node.bareAll` — the bare form of a tree, and of the trees in a sequence.
-/

namespace StarlarkLint.Node

mutual

/-- The tree with the zero span everywhere. -/
def bare : Node → Node
  | hole => hole
  | ident _ name => ident {} name
  | string _ value => string {} value
  | number _ value => number {} value
  | list _ items => list {} (bareAll items)
  | dict _ entries => dict {} (bareAll entries)
  | entry _ key value => entry {} (bare key) (bare value)
  | member _ base name => member {} (bare base) name
  | call _ callee args => call {} (bare callee) (bareAll args)
  | unary _ op operand => unary {} op (bare operand)
  | binary _ op left right => binary {} op (bare left) (bare right)
  | assign _ target op value => assign {} (bare target) op (bare value)
  | load _ module args => load {} (bare module) (bareAll args)
  | file _ path dialect statements => file {} path dialect (bareAll statements)

/-- The bare forms of the trees in a sequence. -/
def bareAll : List Node → List Node
  | [] => []
  | node :: nodes => bare node :: bareAll nodes

end

theorem bareAll_eq_map (nodes : List Node) : bareAll nodes = nodes.map bare := by
  induction nodes with
  | nil => rfl
  | cons node nodes ih => rw [bareAll, ih, List.map_cons]

@[simp] theorem bareAll_nil : bareAll [] = [] := rfl

@[simp] theorem bareAll_cons (node : Node) (nodes : List Node) :
    bareAll (node :: nodes) = node.bare :: bareAll nodes := rfl

/-- The span of the root makes no difference either. -/
@[simp] theorem bare_withSpan (s : Span) (node : Node) : (node.withSpan s).bare = node.bare := by
  cases node <;> rfl

end StarlarkLint.Node
