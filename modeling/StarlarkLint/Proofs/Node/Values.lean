import StarlarkLint.Node.Basic

/-!
# The values in a tree

Most nodes of a tree are values: they can stand by themselves, in parentheses too.  The others hold
values together: entries of dictionaries, arguments that are passed by keyword or behind stars,
assignments, loads and files.

## Main definitions

* `Node.values` — the values in a value, an argument or an entry.
* `Node.statementValues`, `SourceFile.values` — the values in a statement and in a file.
-/

namespace StarlarkLint

namespace Node

mutual

/-- The values in a value, an argument, an entry or a load, from the outside in. -/
def values : Node → List Node
  | hole => []
  | ident s name => [ident s name]
  | string s value => [string s value]
  | number s value => [number s value]
  | list s items => list s items :: valuesAll items
  | dict s entries => dict s entries :: valuesAll entries
  | entry _ key value => values key ++ values value
  | member s base name => member s base name :: values base
  | call s callee args => call s callee args :: (values callee ++ valuesAll args)
  | unary s op operand =>
    -- stars belong to an argument, every other prefix to a value
    if op ∈ ["*", "**"] then values operand else unary s op operand :: values operand
  | binary s op left right => binary s op left right :: (values left ++ values right)
  -- an argument that is passed by keyword
  | assign _ _ _ value => values value
  | load _ _ args => valuesAll args
  | file _ _ _ _ => []

/-- The values in a sequence. -/
def valuesAll : List Node → List Node
  | [] => []
  | node :: nodes => values node ++ valuesAll nodes

end

/-- The values in a statement: both sides of an assignment hold some. -/
def statementValues : Node → List Node
  | assign _ target _ value => values target ++ values value
  | node => values node

theorem mem_values_withSpan {s : Span} {n m : Node} (h : m ∈ (n.withSpan s).values) :
    m = n.withSpan s ∨ m ∈ n.values := by
  cases n with
  | hole => exact .inr h
  | entry => exact .inr h
  | assign => exact .inr h
  | load => exact .inr h
  | file => exact .inr h
  | ident => exact .inl (List.mem_singleton.mp h)
  | string => exact .inl (List.mem_singleton.mp h)
  | number => exact .inl (List.mem_singleton.mp h)
  | unary span op operand =>
    unfold withSpan values at h
    rw [values]
    split at h
    · next hstars =>
      rw [if_pos hstars]
      exact .inr h
    · next hstars =>
      rw [if_neg hstars]
      exact (List.mem_cons.mp h).imp id (List.mem_cons_of_mem _)
  | _ => exact (List.mem_cons.mp h).imp id (List.mem_cons_of_mem _)

end Node

/-- The values in a file. -/
def SourceFile.values (f : SourceFile) : List Node := f.statements.flatMap Node.statementValues

end StarlarkLint
