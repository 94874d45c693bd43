import StarlarkLint.Check.Run
import StarlarkLint.Proofs.Node.Expressible
import StarlarkLint.Proofs.Node.Slots

/-!
# What the fix for the native module leaves behind

The fix puts names in place of members, and the name of a member may be any, a reserved one
included.  So what is expressible with some names is still expressible after the fix, but only with
any names.  The other checks leave the file as it is, whatever the order in which the checks run.

## Main definitions

* `Native.fixed` — a tree after the fix.

## Main results

* `Native.fix_of_dialect_eq` — the fix of a file is the fix of each statement.
* `Native.fix_isStatement` — the fix leaves statements that can be spelled.
* `Check.runAll_preserves` — what the fix preserves is preserved by checks in a row.
-/

namespace StarlarkLint

namespace Native

open Node

/-! ### One fix -/

theorem global?_eq_some_iff {n : Node} {name : String} : global? n = some name ↔
    ∃ s s', n = .member s (.ident s' "native") name ∧ name ∉ exemptMembers := by
  unfold global?
  rw [Option.filter_eq_some_iff]
  constructor
  · rintro ⟨hmember, hname⟩
    unfold member? at hmember
    split at hmember
    · next s s' root other =>
      simp only [Option.ite_none_right_eq_some, Option.some.injEq] at hmember
      obtain ⟨rfl, rfl⟩ := hmember
      exact ⟨s, s', rfl, by simpa using hname⟩
    · cases hmember
  · rintro ⟨s, s', rfl, hname⟩
    exact ⟨rfl, by simpa using hname⟩

/-- A node that is no global member is kept. -/
theorem settle_editor_of_global?_eq_none {node : Node} (h : global? node = none)
    (path : List Node) (kept : Edited Node) :
    (editor.settle path node kept).result = some kept.result := by
  simp only [Editor.settle, editor, h]

/-- A global member is replaced by its name. -/
theorem settle_editor_of_global?_eq_some {node : Node} {name : String}
    (h : global? node = some name) (path : List Node) (kept : Edited Node) :
    (editor.settle path node kept).result = some (.ident node.span name) := by
  simp only [Editor.settle, editor, h]

/-- A tree after the fix. -/
def fixed (n : Node) : Node := (editFrom editor [] n).result.getD n

/-- What becomes of a node, given what becomes of its slots. -/
theorem result_editFrom_eq {n : Node}
    (ih : ∀ m ∈ n.slots, ∀ path, (editFrom editor path m).result = some (fixed m))
    (path : List Node) : (editFrom editor path n).result = some
      (match global? n with
      | some name => .ident n.span name
      | none => n.mapSlots fixed) := by
  by_cases hn : n = hole
  · subst hn
    rfl
  · obtain ⟨visits, hsettle⟩ := exists_editFrom_eq_settle hn ih path
    rw [hsettle]
    cases hglobal : global? n with
    | some name => exact settle_editor_of_global?_eq_some hglobal ..
    | none => exact settle_editor_of_global?_eq_none hglobal ..

/-- Wherever a tree stands, it becomes the same. -/
theorem result_editFrom (n : Node) (path : List Node) :
    (editFrom editor path n).result = some (fixed n) := by
  induction n using induction_slots generalizing path with
  | h n ih =>
    rw [result_editFrom_eq ih, fixed, result_editFrom_eq ih]
    rfl

/-- A global member becomes its name. -/
theorem fixed_of_global?_eq_some {n : Node} {name : String} (h : global? n = some name) :
    fixed n = .ident n.span name := by
  rw [fixed, result_editFrom_eq fun m _ => result_editFrom m, h]
  rfl

/-- Any other node stays, and what is below it is fixed. -/
theorem fixed_of_global?_eq_none {n : Node} (h : global? n = none) :
    fixed n = n.mapSlots fixed := by
  rw [fixed, result_editFrom_eq fun m _ => result_editFrom m, h]
  rfl

@[simp] theorem fixed_ident (s : Span) (name : String) : fixed (.ident s name) = .ident s name :=
  fixed_of_global?_eq_none rfl

@[simp] theorem span_fixed (n : Node) : (fixed n).span = n.span := by
  cases h : global? n with
  | some name => rw [fixed_of_global?_eq_some h, span]
  | none => rw [fixed_of_global?_eq_none h, span_mapSlots]

/-- The fix of a package description is the fix of each of its statements. -/
theorem fix_of_dialect_eq {f : SourceFile} (h : f.dialect = .build) :
    fix f = { f with statements := f.statements.map fixed } := by
  rw [fix, if_pos h, SourceFile.edit, result_editAll_eq_map _ fun m _ => result_editFrom m]

/-- A file that is no package description has no fix. -/
theorem fix_of_dialect_ne {f : SourceFile} (h : f.dialect ≠ .build) : fix f = f :=
  if_neg h

@[simp] theorem dialect_fix (f : SourceFile) : (fix f).dialect = f.dialect := by
  unfold fix
  split <;> rfl

theorem node_fix {f : SourceFile} (h : f.dialect = .build) : (fix f).node = fixed f.node := by
  rw [fix_of_dialect_eq h, fixed_of_global?_eq_none rfl]
  rfl

/-! ### What can be spelled -/

/-- **An expressible tree is expressible after the fix**, with any names. -/
theorem fixed_expressible {role : Role} {n : Node} (h : n.Expressible AnyName role) :
    (fixed n).Expressible AnyName role := by
  induction h with
  | ident hname _ =>
    rw [fixed_ident]
    exact .ident hname trivial
  | string =>
    rw [fixed_of_global?_eq_none rfl]
    exact .string
  | number hvalue =>
    rw [fixed_of_global?_eq_none rfl]
    exact .number hvalue
  | list _ ih =>
    rw [fixed_of_global?_eq_none rfl]
    exact .list (List.forall_mem_map.mpr ih)
  | dict _ ih =>
    rw [fixed_of_global?_eq_none rfl]
    exact .dict (List.forall_mem_map.mpr ih)
  | @member s base name _ hname ih =>
    cases hglobal : global? (.member s base name) with
    | none =>
      rw [fixed_of_global?_eq_none hglobal]
      exact .member ih hname
    | some other =>
      rw [fixed_of_global?_eq_some hglobal]
      obtain ⟨_, _, hmember, -⟩ := global?_eq_some_iff.mp hglobal
      cases hmember
      exact .ident hname trivial
  | call _ _ ih ihargs =>
    rw [fixed_of_global?_eq_none rfl]
    exact .call ih (List.forall_mem_map.mpr ihargs)
  | unary hop _ ih =>
    rw [fixed_of_global?_eq_none rfl]
    exact .unary hop ih
  | binary hop _ _ ihleft ihright =>
    rw [fixed_of_global?_eq_none rfl]
    exact .binary hop ihleft ihright
  | positional _ ih => exact .positional ih
  | starred hop _ ih =>
    rw [fixed_of_global?_eq_none rfl]
    exact .starred hop ih
  | keyword hname _ ih =>
    -- the name that the argument is passed by is no member, and stays
    rw [fixed_of_global?_eq_none rfl, mapSlots, fixed_ident]
    exact .keyword hname ih
  | entry _ _ ihkey ihvalue =>
    rw [fixed_of_global?_eq_none rfl]
    exact .entry ihkey ihvalue

/-- A statement that can be spelled can be spelled after the fix. -/
theorem fixed_isStatement {n : Node} (h : n.IsStatement AnyName) :
    (fixed n).IsStatement AnyName := by
  cases h with
  | load hargs =>
    rw [fixed_of_global?_eq_none rfl, mapSlots, fixed_of_global?_eq_none rfl]
    exact .load (List.forall_mem_map.mpr fun n hn => fixed_expressible (hargs n hn))
  | value h => exact .value (fixed_expressible h)
  | assign hop htarget hvalue =>
    rw [fixed_of_global?_eq_none rfl]
    exact .assign hop (fixed_expressible htarget) (fixed_expressible hvalue)

/-- **The fix leaves statements that can be spelled.** -/
theorem fix_isStatement {f : SourceFile} (h : ∀ n ∈ f.statements, n.IsStatement AnyName) :
    ∀ n ∈ (fix f).statements, n.IsStatement AnyName := by
  by_cases hdialect : f.dialect = .build
  · rw [fix_of_dialect_eq hdialect]
    exact List.forall_mem_map.mpr fun n hn => fixed_isStatement (h n hn)
  · rw [fix_of_dialect_ne hdialect]
    exact h

end Native

/-! ### Checks in a row -/

namespace Check

variable {P : SourceFile → Prop} (hfix : ∀ f, P f → P (Native.fix f))
include hfix

theorem run_preserves (exempt : List String) (fix : Bool) {f : SourceFile} (h : P f)
    (check : Check) : P (check.run exempt fix f).file := by
  cases check with
  | nativeBuild =>
    cases fix with
    | false => exact h
    | true => exact hfix f h
  | _ => exact h

/-- **What the fix preserves is preserved by checks in a row.** -/
theorem runAll_preserves (exempt : List String) (fix : Bool) (checks : List Check)
    {f : SourceFile} (h : P f) : P (runAll exempt fix f checks).file := by
  induction checks generalizing f with
  | nil => exact h
  | cons check checks ih => exact ih (run_preserves hfix exempt fix h check)

end Check

end StarlarkLint
