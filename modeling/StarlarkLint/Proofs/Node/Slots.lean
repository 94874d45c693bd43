import Mathlib.Data.List.Basic
import StarlarkLint.Node.Traversal

/-!
# Trees by their slots

What is below a node stands in its slots, whatever kind of node it is.  Most of what is proved about
whole trees goes from the slots of a node to the node, and is the same for every kind.

## Main definitions

* `Node.slots`, `Node.mapSlots` — what is directly below a node, and the node with something else
  there.
* `Node.nodes` — the nodes of a tree, in the order of a walk.

## Main results

* `Node.induction_slots` — induction from the slots of a node to the node.
* `Node.nodes_eq` — a node comes first, and then the nodes in its slots.
* `Node.exists_editFrom_eq_settle` — an editor settles a node with its slots edited.
-/

namespace StarlarkLint.Node

/-- What stands in the slots of a node, in source order, empty slots included. -/
def slots : Node → List Node
  | hole | ident _ _ | string _ _ | number _ _ => []
  | list _ items => items
  | dict _ entries => entries
  | entry _ key value => [key, value]
  | member _ base _ => [base]
  | call _ callee args => callee :: args
  | unary _ _ operand => [operand]
  | binary _ _ left right => [left, right]
  | assign _ target _ value => [target, value]
  | load _ module args => module :: args
  | file _ _ _ statements => statements

/-- The node with something else in each of its slots. -/
def mapSlots (g : Node → Node) : Node → Node
  | list s items => list s (items.map g)
  | dict s entries => dict s (entries.map g)
  | entry s key value => entry s (g key) (g value)
  | member s base name => member s (g base) name
  | call s callee args => call s (g callee) (args.map g)
  | unary s op operand => unary s op (g operand)
  | binary s op left right => binary s op (g left) (g right)
  | assign s target op value => assign s (g target) op (g value)
  | load s module args => load s (g module) (args.map g)
  | file s path dialect statements => file s path dialect (statements.map g)
  | node => node

variable {n m : Node} {g : Node → Node}

@[simp] theorem slots_mapSlots (g : Node → Node) (n : Node) :
    (n.mapSlots g).slots = n.slots.map g := by
  cases n <;> rfl

@[simp] theorem span_mapSlots (g : Node → Node) (n : Node) : (n.mapSlots g).span = n.span := by
  cases n <;> rfl

/-- Another span makes no difference to what is below a node. -/
theorem slots_withSpan (s : Span) (n : Node) : (n.withSpan s).slots = n.slots := by
  cases n <;> rfl

theorem mapSlots_eq_hole_iff : n.mapSlots g = hole ↔ n = hole := by
  cases n <;> simp [mapSlots]

/-- A node whose slots are left alone stays. -/
theorem mapSlots_eq_self (h : ∀ m ∈ n.slots, g m = m) : n.mapSlots g = n := by
  have hall : ∀ ns : List Node, (∀ m ∈ ns, g m = m) → ns.map g = ns := by
    intro ns hns
    rw [List.map_congr_left hns, List.map_id']
  cases n with
  | list s items => exact congrArg (list s) (hall items h)
  | dict s entries => exact congrArg (dict s) (hall entries h)
  | file s path dialect statements => exact congrArg (file s path dialect) (hall statements h)
  | call s callee args =>
    rw [slots, List.forall_mem_cons] at h
    rw [mapSlots, h.1, hall args h.2]
  | load s module args =>
    rw [slots, List.forall_mem_cons] at h
    rw [mapSlots, h.1, hall args h.2]
  | _ => simp_all [slots, mapSlots]

theorem sizeOf_lt_of_mem_slots (h : m ∈ n.slots) : sizeOf m < sizeOf n := by
  have hall : ∀ ns : List Node, m ∈ ns → sizeOf m < sizeOf ns :=
    fun ns hm => List.sizeOf_lt_of_mem hm
  cases n with
  | list s items =>
    have hlt := hall items h
    rw [list.sizeOf_spec]
    omega
  | dict s entries =>
    have hlt := hall entries h
    rw [dict.sizeOf_spec]
    omega
  | file s path dialect statements =>
    have hlt := hall statements h
    rw [file.sizeOf_spec]
    omega
  | call s callee args =>
    rw [call.sizeOf_spec]
    rcases List.mem_cons.mp h with rfl | h
    · omega
    · have hlt := hall args h
      omega
  | load s module args =>
    rw [load.sizeOf_spec]
    rcases List.mem_cons.mp h with rfl | h
    · omega
    · have hlt := hall args h
      omega
  | _ =>
    simp only [slots, List.mem_cons, List.not_mem_nil, or_false] at h
    try rcases h with rfl | rfl
    all_goals
      simp only [entry.sizeOf_spec, member.sizeOf_spec, unary.sizeOf_spec, binary.sizeOf_spec,
        assign.sizeOf_spec]
      omega

/-- Induction from the slots of a node to the node. -/
theorem induction_slots {P : Node → Prop} (h : ∀ n : Node, (∀ m ∈ n.slots, P m) → P n)
    (n : Node) : P n :=
  h n fun m _ => induction_slots h m
termination_by sizeOf n
decreasing_by exact sizeOf_lt_of_mem_slots ‹_›

/-! ### The nodes of a tree -/

theorem walkAll_eq_flatMap (path ns : List Node) :
    walkAll path ns = ns.flatMap (walkFrom path) := by
  induction ns with
  | nil => rfl
  | cons n ns ih => rw [walkAll, ih, List.flatMap_cons]

/-- A node is visited first, and then what stands in its slots. -/
theorem walkFrom_eq (h : n ≠ hole) (path : List Node) :
    walkFrom path n = (n, path) :: n.slots.flatMap (walkFrom (path ++ [n])) := by
  cases n with
  | hole => exact absurd rfl h
  | _ => simp [walkFrom, slots, walkAll_eq_flatMap]

/-- The nodes of a tree, in the order of a walk. -/
def nodes (n : Node) : List Node := n.walk.map (·.1)

/-- The ancestors make no difference to the nodes. -/
theorem map_fst_walkFrom (n : Node) : ∀ path, (walkFrom path n).map (·.1) = n.nodes := by
  induction n using induction_slots with
  | h n ih =>
    intro path
    by_cases hn : n = hole
    · subst hn
      rfl
    · have hslots : ∀ path', (n.slots.flatMap (walkFrom path')).map (·.1) =
          n.slots.flatMap nodes := by
        intro path'
        rw [List.map_flatMap]
        exact List.flatMap_congr fun m hm => ih m hm path'
      rw [nodes, walk, walkFrom_eq hn, walkFrom_eq hn, List.map_cons, List.map_cons, hslots, hslots]

/-- A node comes first, and then the nodes in its slots. -/
theorem nodes_eq (h : n ≠ hole) : n.nodes = n :: n.slots.flatMap nodes := by
  rw [nodes, walk, walkFrom_eq h, List.map_cons, List.map_flatMap]
  exact congrArg (n :: ·) (List.flatMap_congr fun m _ => map_fst_walkFrom m _)

/-- An empty slot is not among the nodes. -/
theorem ne_hole_of_mem_nodes (h : m ∈ n.nodes) : m ≠ hole := by
  induction n using induction_slots with
  | h n ih =>
    by_cases hn : n = hole
    · subst hn
      cases h
    · rw [nodes_eq hn, List.mem_cons, List.mem_flatMap] at h
      rcases h with rfl | ⟨k, hk, hm⟩
      · exact hn
      · exact ih k hk hm

/-- What is below a node of a tree is in the tree. -/
theorem mem_nodes_trans {k : Node} (hk : k ∈ m.nodes) (hm : m ∈ n.nodes) : k ∈ n.nodes := by
  induction n using induction_slots with
  | h n ih =>
    by_cases hn : n = hole
    · subst hn
      cases hm
    rw [nodes_eq hn, List.mem_cons, List.mem_flatMap] at hm
    rcases hm with rfl | ⟨s, hs, hm⟩
    · exact hk
    · rw [nodes_eq hn]
      exact List.mem_cons_of_mem n (List.mem_flatMap.mpr ⟨s, hs, ih s hs hm⟩)

/-! ### Editing -/

variable {editor : Editor} {g : Node → Node}

/-- An editor that deletes nothing in a sequence changes each of its members. -/
theorem result_editAll_eq_map (ns : List Node)
    (h : ∀ m ∈ ns, ∀ path, (editFrom editor path m).result = some (g m)) (path : List Node) :
    (editAll editor path ns).result = ns.map g := by
  induction ns with
  | nil => rfl
  | cons m ns ih =>
    rw [List.forall_mem_cons] at h
    rw [editAll, h.1, ih h.2, Option.toList_some, List.singleton_append, List.map_cons]

/-- A node is settled with its slots edited, if nothing is deleted there. -/
theorem exists_editFrom_eq_settle {n : Node} (hn : n ≠ hole)
    (h : ∀ m ∈ n.slots, ∀ path, (editFrom editor path m).result = some (g m)) (path : List Node) :
    ∃ visits, editFrom editor path n = editor.settle path n ⟨visits, n.mapSlots g⟩ := by
  cases n with
  | hole => exact absurd rfl hn
  | ident => exact ⟨_, rfl⟩
  | string => exact ⟨_, rfl⟩
  | number => exact ⟨_, rfl⟩
  | list s items => exact ⟨_, by rw [editFrom, result_editAll_eq_map items h, mapSlots]⟩
  | dict s entries => exact ⟨_, by rw [editFrom, result_editAll_eq_map entries h, mapSlots]⟩
  | file s p d statements =>
    exact ⟨_, by rw [editFrom, result_editAll_eq_map statements h, mapSlots]⟩
  | call s callee args =>
    rw [slots, List.forall_mem_cons] at h
    exact ⟨_, by rw [editFrom, h.1, result_editAll_eq_map args h.2, Option.getD_some, mapSlots]⟩
  | load s module args =>
    rw [slots, List.forall_mem_cons] at h
    exact ⟨_, by rw [editFrom, h.1, result_editAll_eq_map args h.2, Option.getD_some, mapSlots]⟩
  | member s base name =>
    rw [slots, List.forall_mem_singleton] at h
    exact ⟨_, by rw [editFrom, h, Option.getD_some, mapSlots]⟩
  | unary s op operand =>
    rw [slots, List.forall_mem_singleton] at h
    exact ⟨_, by rw [editFrom, h, Option.getD_some, mapSlots]⟩
  | entry s key value =>
    rw [slots, List.forall_mem_cons, List.forall_mem_singleton] at h
    exact ⟨_, by rw [editFrom, h.1, h.2, Option.getD_some, Option.getD_some, mapSlots]⟩
  | binary s op left right =>
    rw [slots, List.forall_mem_cons, List.forall_mem_singleton] at h
    exact ⟨_, by rw [editFrom, h.1, h.2, Option.getD_some, Option.getD_some, mapSlots]⟩
  | assign s target op value =>
    rw [slots, List.forall_mem_cons, List.forall_mem_singleton] at h
    exact ⟨_, by rw [editFrom, h.1, h.2, Option.getD_some, Option.getD_some, mapSlots]⟩

end StarlarkLint.Node
