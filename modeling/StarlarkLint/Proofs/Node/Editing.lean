import StarlarkLint.Proofs.Node.Slots

/-!
# What editing comes to

An editor is asked about a node before what is below it, and what it answers decides about the whole
tree below the node: it goes on there, it puts something else in its place, or it takes the tree
away.  So it is asked about those nodes whose ancestors it all keeps, in the order of a walk.

What becomes of a tree is said by the fields of its nodes.  A node that is kept keeps its kind, its
span and its own data, and its fields are rewritten one by one.  What is deleted leaves a sequence,
but stays as it is in a field for a single node.

## Main definitions

* `Node.Field`, `Node.fields`, `Node.shell` — the fields of a node, and the node apart from them.
* `Editor.Reaches` — an editor keeps all ancestors of a node.
* `Node.Rewrites` — a tree, and what an editor is to make of it.

## Main results

* `Node.visits_editFrom` — an editor visits the nodes that it reaches.
* `Node.rewrites_iff` — editing a tree gives what the editor is to make of it.
* `Node.edit_rewrites` — both for the tree as a whole.
-/

namespace StarlarkLint

/-! ### Answers -/

namespace Editor

/-- What an editor answers for a slot: it is not asked about an empty one, which stays. -/
def answer (editor : Editor) (path : List Node) (n : Node) : Edit :=
  if n.isHole then .keep else editor n path

/-- All ancestors of a visit are kept. -/
def Reaches (editor : Editor) (v : Visit) : Prop :=
  ∀ above ancestor below, v.2 = above ++ ancestor :: below → editor ancestor above = .keep

/-- Nodes that follow one another downwards are all kept, the first of them standing below the given
ancestors. -/
def keepsAll (editor : Editor) (above : List Node) : List Node → Bool
  | [] => true
  | n :: below =>
    match editor n above with
    | .keep => keepsAll editor (above ++ [n]) below
    | _ => false

variable {editor : Editor}

theorem keepsAll_iff {above path : List Node} : editor.keepsAll above path = true ↔
    ∀ upper n below, path = upper ++ n :: below → editor n (above ++ upper) = .keep := by
  induction path generalizing above with
  | nil => simp [keepsAll]
  | cons m path ih =>
    constructor
    · intro h upper n below heq
      rw [keepsAll] at h
      split at h
      · next hkeep =>
        rcases List.cons_eq_append_iff.mp heq with ⟨rfl, hhead⟩ | ⟨upper, rfl, hpath⟩
        · obtain ⟨rfl, -⟩ := List.cons.inj hhead
          rwa [List.append_nil]
        · simpa using ih.mp h upper n below hpath
      · cases h
    · intro h
      have hkeep : editor m above = .keep := by simpa using h [] m path rfl
      rw [keepsAll, hkeep]
      refine ih.mpr fun upper n below heq => ?_
      simpa using h (m :: upper) n below (by rw [heq, List.cons_append])

instance : DecidablePred editor.Reaches := fun v =>
  decidable_of_iff (editor.keepsAll [] v.2 = true) (by simp [keepsAll_iff, Reaches])

end Editor

namespace Node

/-! ### Fields -/

/-- A field of a node that holds what is below the node. -/
inductive Field
  /-- A field for a single node, which may be empty. -/
  | single (node : Node)
  /-- A field for a sequence. -/
  | sequence (nodes : List Node)

/-- What a field holds. -/
def Field.nodes : Field → List Node
  | single node => [node]
  | sequence nodes => nodes

/-- The fields of a node, in source order. -/
def fields : Node → List Field
  | hole | ident _ _ | string _ _ | number _ _ => []
  | list _ items => [.sequence items]
  | dict _ entries => [.sequence entries]
  | entry _ key value => [.single key, .single value]
  | member _ base _ => [.single base]
  | call _ callee args => [.single callee, .sequence args]
  | unary _ _ operand => [.single operand]
  | binary _ _ left right => [.single left, .single right]
  | assign _ target _ value => [.single target, .single value]
  | load _ module args => [.single module, .sequence args]
  | file _ _ _ statements => [.sequence statements]

/-- A node apart from its fields: its kind, its span and its own data. -/
def shell : Node → Node
  | list s _ => list s []
  | dict s _ => dict s []
  | entry s _ _ => entry s hole hole
  | member s _ name => member s hole name
  | call s _ _ => call s hole []
  | unary s op _ => unary s op hole
  | binary s op _ _ => binary s op hole hole
  | assign s _ op _ => assign s hole op hole
  | load s _ _ => load s hole []
  | file s path dialect _ => file s path dialect []
  | node => node

/-- A node with other fields, if they fit. -/
def withFields : Node → List Field → Node
  | list s _, [.sequence items] => list s items
  | dict s _, [.sequence entries] => dict s entries
  | entry s _ _, [.single key, .single value] => entry s key value
  | member s _ name, [.single base] => member s base name
  | call s _ _, [.single callee, .sequence args] => call s callee args
  | unary s op _, [.single operand] => unary s op operand
  | binary s op _ _, [.single left, .single right] => binary s op left right
  | assign s _ op _, [.single target, .single value] => assign s target op value
  | load s _ _, [.single module, .sequence args] => load s module args
  | file s path dialect _, [.sequence statements] => file s path dialect statements
  | node, _ => node

variable {n m : Node} {path : List Node} {editor : Editor}

theorem slots_eq_flatMap_fields (n : Node) : n.slots = n.fields.flatMap Field.nodes := by
  cases n <;> simp [slots, fields, Field.nodes]

theorem withFields_shell (n : Node) : n.shell.withFields n.fields = n := by
  cases n <;> rfl

/-- A node is what it is by its shell and its fields. -/
theorem eq_of_shell_of_fields (hshell : m.shell = n.shell) (hfields : m.fields = n.fields) :
    m = n := by
  rw [← withFields_shell m, hshell, hfields, withFields_shell]

/-! ### What an editor is to make of a tree -/

mutual

/-- What becomes of a tree in a field for a single node, or at the root; the path is that of the
ancestors. -/
inductive Rewrites (editor : Editor) : List Node → Node → Node → Prop
  /-- A node that is replaced is its replacement, whatever that is. -/
  | replaced {path : List Node} {n other : Node} (h : editor.answer path n = .replace other) :
      Rewrites editor path n other
  /-- A node that is deleted stays, and all that is below it. -/
  | deleted {path : List Node} {n : Node} (h : editor.answer path n = .delete) :
      Rewrites editor path n n
  /-- A node that is kept differs in its fields only. -/
  | kept {path : List Node} {n m : Node} (h : editor.answer path n = .keep)
      (hshell : m.shell = n.shell)
      (hfields : RewritesFields editor (path ++ [n]) n.fields m.fields) : Rewrites editor path n m

/-- What becomes of the fields of a node. -/
inductive RewritesFields (editor : Editor) : List Node → List Field → List Field → Prop
  /-- There are no fields. -/
  | nil {path : List Node} : RewritesFields editor path [] []
  /-- A field for a single node. -/
  | single {path : List Node} {n m : Node} {fs gs : List Field} (h : Rewrites editor path n m)
      (hrest : RewritesFields editor path fs gs) :
      RewritesFields editor path (.single n :: fs) (.single m :: gs)
  /-- A field for a sequence. -/
  | sequence {path ns ms : List Node} {fs gs : List Field}
      (h : RewritesSequence editor path ns ms) (hrest : RewritesFields editor path fs gs) :
      RewritesFields editor path (.sequence ns :: fs) (.sequence ms :: gs)

/-- What becomes of the trees in a sequence. -/
inductive RewritesSequence (editor : Editor) : List Node → List Node → List Node → Prop
  /-- There are no trees. -/
  | nil {path : List Node} : RewritesSequence editor path [] []
  /-- A tree that is deleted is no longer there. -/
  | gone {path ns ms : List Node} {n : Node} (h : editor.answer path n = .delete)
      (hrest : RewritesSequence editor path ns ms) : RewritesSequence editor path (n :: ns) ms
  /-- Any other tree stays in front of those behind it. -/
  | stays {path ns ms : List Node} {n m : Node} (h : editor.answer path n ≠ .delete)
      (hn : Rewrites editor path n m) (hrest : RewritesSequence editor path ns ms) :
      RewritesSequence editor path (n :: ns) (m :: ms)

end

/-! ### Editing by fields -/

/-- What an editor makes of a field. -/
def Field.edited (editor : Editor) (path : List Node) : Field → Edited Field
  | single n =>
    let below := editFrom editor path n
    ⟨below.visits, single (below.result.getD n)⟩
  | sequence ns =>
    let below := editAll editor path ns
    ⟨below.visits, sequence below.result⟩

/-- A node is settled with its fields edited. -/
theorem exists_kept (hn : n ≠ hole) (editor : Editor) (path : List Node) :
    ∃ kept : Edited Node, editFrom editor path n = editor.settle path n kept ∧
      kept.visits = n.fields.flatMap (fun f => (f.edited editor (path ++ [n])).visits) ∧
      kept.result.shell = n.shell ∧
      kept.result.fields = n.fields.map fun f => (f.edited editor (path ++ [n])).result := by
  cases n with
  | hole => exact absurd rfl hn
  | _ => exact ⟨_, rfl, by simp [fields, Field.edited], rfl, rfl⟩

theorem answer_eq (hn : n ≠ hole) (editor : Editor) (path : List Node) :
    editor.answer path n = editor n path := by
  cases n with
  | hole => exact absurd rfl hn
  | _ => rfl

/-- A node that is not kept is settled by the editor's answer. -/
theorem exists_settle (h : editor.answer path n ≠ .keep) :
    editor n path = editor.answer path n ∧
      ∃ kept, editFrom editor path n = editor.settle path n kept := by
  have hn : n ≠ hole := by
    rintro rfl
    exact h rfl
  obtain ⟨kept, heq, -⟩ := exists_kept hn editor path
  exact ⟨(answer_eq hn editor path).symm, kept, heq⟩

theorem editFrom_of_replace {other : Node} (h : editor.answer path n = .replace other) :
    editFrom editor path n = ⟨[(n, path)], some other⟩ := by
  obtain ⟨hanswer, kept, heq⟩ := exists_settle (by simp [h] : editor.answer path n ≠ .keep)
  rw [heq, Editor.settle, hanswer, h]

theorem editFrom_of_delete (h : editor.answer path n = .delete) :
    editFrom editor path n = ⟨[(n, path)], none⟩ := by
  obtain ⟨hanswer, kept, heq⟩ := exists_settle (by simp [h] : editor.answer path n ≠ .keep)
  rw [heq, Editor.settle, hanswer, h]

/-- A node that is kept, or an empty slot, differs in its fields only. -/
theorem exists_result_of_keep (h : editor.answer path n = .keep) :
    ∃ m, (editFrom editor path n).result = some m ∧ m.shell = n.shell ∧
      m.fields = n.fields.map fun f => (f.edited editor (path ++ [n])).result := by
  by_cases hn : n = hole
  · subst hn
    exact ⟨hole, rfl, rfl, rfl⟩
  · obtain ⟨kept, heq, -, hshell, hfields⟩ := exists_kept hn editor path
    rw [answer_eq hn] at h
    refine ⟨kept.result, ?_, hshell, hfields⟩
    rw [heq, Editor.settle, h]

/-- A tree has no result exactly if it is deleted. -/
theorem result_eq_none_iff :
    (editFrom editor path n).result = none ↔ editor.answer path n = .delete := by
  cases h : editor.answer path n with
  | keep =>
    obtain ⟨m, hm, -⟩ := exists_result_of_keep h
    simp [hm]
  | replace other => simp [editFrom_of_replace h]
  | delete => simp [editFrom_of_delete h]

/-! ### The visits -/

theorem flatMap_visits_fields (editor : Editor) (path : List Node) (fs : List Field) :
    fs.flatMap (fun f => (f.edited editor path).visits) =
      (fs.flatMap Field.nodes).flatMap fun m => (editFrom editor path m).visits := by
  have hall : ∀ ns : List Node,
      (editAll editor path ns).visits = ns.flatMap fun m => (editFrom editor path m).visits := by
    intro ns
    induction ns with
    | nil => rfl
    | cons n ns ih => rw [editAll, ih, List.flatMap_cons]
  rw [List.flatMap_assoc]
  refine List.flatMap_congr fun f _ => ?_
  cases f with
  | single n => simp [Field.edited, Field.nodes]
  | sequence ns => exact hall ns

theorem visits_editFrom_eq (hn : n ≠ hole) (editor : Editor) (path : List Node) :
    (editFrom editor path n).visits = (n, path) ::
      match editor n path with
      | .keep => n.slots.flatMap fun m => (editFrom editor (path ++ [n]) m).visits
      | _ => [] := by
  obtain ⟨kept, heq, hvisits, -⟩ := exists_kept hn editor path
  rw [flatMap_visits_fields, ← slots_eq_flatMap_fields] at hvisits
  rw [heq, Editor.settle, ← hvisits]
  cases editor n path <;> rfl

/-- The ancestors of what is visited below a node start with those of the node. -/
theorem exists_append_of_mem_walkFrom {v : Visit} (n : Node) :
    ∀ {path}, v ∈ walkFrom path n → ∃ below, v.2 = path ++ below := by
  induction n using induction_slots with
  | h n ih =>
    intro path hv
    by_cases hn : n = hole
    · subst hn
      cases hv
    · rw [walkFrom_eq hn, List.mem_cons, List.mem_flatMap] at hv
      rcases hv with rfl | ⟨m, hm, hv⟩
      · exact ⟨[], by simp⟩
      · obtain ⟨below, hbelow⟩ := ih m hm hv
        exact ⟨n :: below, by simp [hbelow]⟩

/-- **An editor visits the nodes that a walk meets and whose ancestors it keeps.** -/
theorem visits_editFrom (editor : Editor) (n : Node) (path : List Node) :
    (editFrom editor path n).visits =
      (walkFrom path n).filter fun v => editor.keepsAll path (v.2.drop path.length) := by
  induction n using induction_slots generalizing path with
  | h n ih =>
    by_cases hn : n = hole
    · subst hn
      rfl
    · have hself : editor.keepsAll path (path.drop path.length) = true := by
        rw [List.drop_length, Editor.keepsAll]
      rw [visits_editFrom_eq hn, walkFrom_eq hn, List.filter_cons, if_pos hself,
        List.filter_flatMap]
      -- whether a node below is reached depends on the answer for this one
      have hbelow : ∀ v ∈ n.slots.flatMap (walkFrom (path ++ [n])),
          editor.keepsAll path (v.2.drop path.length) =
            match editor n path with
            | .keep => editor.keepsAll (path ++ [n]) (v.2.drop (path ++ [n]).length)
            | _ => false := by
        intro v hv
        obtain ⟨m, -, hv⟩ := List.mem_flatMap.mp hv
        obtain ⟨below, hbelow⟩ := exists_append_of_mem_walkFrom m hv
        rw [hbelow, List.drop_left, List.append_assoc, List.drop_left]
        rfl
      refine congrArg ((n, path) :: ·) ?_
      cases hanswer : editor n path with
      | keep =>
        refine List.flatMap_congr fun m hm => ?_
        rw [ih m hm]
        refine List.filter_congr fun v hv => ?_
        rw [hbelow v (List.mem_flatMap.mpr ⟨m, hm, hv⟩), hanswer]
      | _ =>
        refine (List.flatMap_eq_nil_iff.mpr fun m hm => ?_).symm
        refine List.filter_eq_nil_iff.mpr fun v hv => ?_
        rw [hbelow v (List.mem_flatMap.mpr ⟨m, hm, hv⟩), hanswer]
        exact Bool.false_ne_true

/-! ### The result -/

theorem rewritesSequence_iff {ns : List Node}
    (h : ∀ n ∈ ns, ∀ m, Rewrites editor path n m ↔ m = (editFrom editor path n).result.getD n) :
    ∀ ms, RewritesSequence editor path ns ms ↔ ms = (editAll editor path ns).result := by
  induction ns with
  | nil =>
    intro ms
    constructor
    · intro hms
      cases hms
      rfl
    · rintro rfl
      exact .nil
  | cons n ns ih =>
    intro ms
    rw [List.forall_mem_cons] at h
    have ih := ih h.2
    rw [editAll]
    cases hn : (editFrom editor path n).result with
    | none =>
      have hdelete := result_eq_none_iff.mp hn
      constructor
      · intro hms
        cases hms with
        | gone _ hrest => exact (ih _).mp hrest
        | stays hstays _ _ => exact absurd hdelete hstays
      · rintro rfl
        exact .gone hdelete ((ih _).mpr rfl)
    | some r =>
      have hstays : editor.answer path n ≠ .delete := by
        rw [ne_eq, ← result_eq_none_iff, hn]
        exact Option.some_ne_none r
      have hr : ∀ m, Rewrites editor path n m ↔ m = r := by simpa [hn] using h.1
      constructor
      · intro hms
        cases hms with
        | gone hdelete _ => exact absurd hdelete hstays
        | stays _ hm hrest =>
          rw [(hr _).mp hm, (ih _).mp hrest]
          rfl
      · rintro rfl
        exact .stays hstays ((hr r).mpr rfl) ((ih _).mpr rfl)

theorem rewritesFields_iff {fs : List Field}
    (h : ∀ n ∈ fs.flatMap Field.nodes, ∀ m,
      Rewrites editor path n m ↔ m = (editFrom editor path n).result.getD n) :
    ∀ gs, RewritesFields editor path fs gs ↔
      gs = fs.map fun f => (f.edited editor path).result := by
  induction fs with
  | nil =>
    intro gs
    constructor
    · intro hgs
      cases hgs
      rfl
    · rintro rfl
      exact .nil
  | cons f fs ih =>
    intro gs
    rw [List.flatMap_cons, List.forall_mem_append] at h
    have ih := ih h.2
    cases f with
    | single n =>
      have hn := h.1 n List.mem_cons_self
      constructor
      · intro hgs
        cases hgs with
        | single hm hrest =>
          rw [(hn _).mp hm, (ih _).mp hrest]
          rfl
      · rintro rfl
        exact .single ((hn _).mpr rfl) ((ih _).mpr rfl)
    | sequence ns =>
      have hns := rewritesSequence_iff h.1
      constructor
      · intro hgs
        cases hgs with
        | sequence hms hrest =>
          rw [(hns _).mp hms, (ih _).mp hrest]
          rfl
      · rintro rfl
        exact .sequence ((hns _).mpr rfl) ((ih _).mpr rfl)

/-- **Editing a tree gives what the editor is to make of it**, and there is no other such tree. -/
theorem rewrites_iff (editor : Editor) (path : List Node) (n m : Node) :
    Rewrites editor path n m ↔ m = (editFrom editor path n).result.getD n := by
  induction n using induction_slots generalizing path m with
  | h n ih =>
    rw [slots_eq_flatMap_fields] at ih
    have hfields := rewritesFields_iff fun k hk m => ih k hk (path ++ [n]) m
    cases hanswer : editor.answer path n with
    | replace other =>
      rw [editFrom_of_replace hanswer]
      constructor
      · intro h
        cases h <;> simp_all
      · rintro rfl
        exact .replaced hanswer
    | delete =>
      rw [editFrom_of_delete hanswer]
      constructor
      · intro h
        cases h <;> simp_all
      · rintro rfl
        exact .deleted hanswer
    | keep =>
      obtain ⟨r, hr, hshell, hrfields⟩ := exists_result_of_keep hanswer
      rw [hr, Option.getD_some]
      constructor
      · intro h
        cases h with
        | replaced h => simp [hanswer] at h
        | deleted h => simp [hanswer] at h
        | kept _ hshell' hrest =>
          refine eq_of_shell_of_fields (hshell'.trans hshell.symm) ?_
          rw [hrfields, (hfields _).mp hrest]
      · rintro rfl
        exact .kept hanswer hshell ((hfields _).mpr hrfields)

/-- **An edit visits the nodes whose ancestors it keeps, in the order of a walk, and makes of the
tree what the editor is to make of it.**  A root that is replaced gives way to its replacement; any
other root is handed back, as it was if it is deleted. -/
theorem edit_rewrites {root : Node} (hroot : root ≠ hole) (editor : Editor) :
    (root.edit editor).visits = root.walk.filter (editor.Reaches ·) ∧
      (∀ result, Rewrites editor [] root result ↔ result = (root.edit editor).result) ∧
      (∀ other, editor root [] = .replace other →
        (root.edit editor).result = other ∧ root.keepsRoot editor = false) ∧
      ((∀ other, editor root [] ≠ .replace other) →
        root.keepsRoot editor = true ∧ (root.edit editor).result.shell = root.shell ∧
          (editor root [] = .delete → (root.edit editor).result = root)) := by
  have hanswer := answer_eq hroot editor []
  refine ⟨?_, fun result => rewrites_iff editor [] root result, fun other hother => ?_,
    fun hother => ?_⟩
  · rw [edit, visits_editFrom, walk]
    refine List.filter_congr fun v _ => ?_
    rw [Bool.eq_iff_iff, decide_eq_true_iff, List.length_nil, List.drop_zero, Editor.keepsAll_iff]
    rfl
  · rw [edit, editFrom_of_replace (hanswer.trans hother), keepsRoot, hother]
    exact ⟨rfl, rfl⟩
  · cases hroot' : editor root [] with
    | replace other => exact absurd hroot' (hother other)
    | delete =>
      rw [edit, editFrom_of_delete (hanswer.trans hroot'), keepsRoot, hroot']
      exact ⟨rfl, rfl, fun _ => rfl⟩
    | keep =>
      obtain ⟨r, hr, hshell, -⟩ := exists_result_of_keep (hanswer.trans hroot')
      rw [edit, hr, keepsRoot, hroot']
      refine ⟨rfl, hshell, fun h => ?_⟩
      cases h

/-- Deletes one name wherever it stands, and puts a number in the place of another. -/
def editNames : Editor := fun n _ =>
  match n with
  | ident _ "old" => .delete
  | ident s "one" => .replace (number s "1")
  | _ => .keep

/-- In `old(old, one, old.x)` the name goes as an argument, but not as the callee or as the base of
a member. -/
theorem edit_rewrites_call :
    let root : Node := call {} (ident {} "old")
      [ident {} "old", ident {} "one", member {} (ident {} "old") "x"]
    root ≠ hole ∧ Rewrites editNames [] root
      (call {} (ident {} "old") [number {} "1", member {} (ident {} "old") "x"]) := by
  intro root
  have hroot : root ≠ hole := nofun
  exact ⟨hroot, ((edit_rewrites hroot editNames).2.1 _).mpr rfl⟩

end Node

end StarlarkLint
