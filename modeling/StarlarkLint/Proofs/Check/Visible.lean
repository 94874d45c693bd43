import StarlarkLint.Proofs.Check.NativeChain
import StarlarkLint.Proofs.Check.Rerun
import StarlarkLint.Proofs.Layout.Dots
import StarlarkLint.Proofs.Review

/-!
# A fix can be seen

The fix for the native module writes a name in place of a member, and with the member a dot goes.
The layout of the fixed file may differ in any other way, since lines come to fit that did not
before; but it has as many dots less as there were members.  So a file is rewritten exactly if there
is something to fix, though it is by their layouts that files are compared.

## Main definitions

* `SourceFile.NamesNative` — a package description names a global member of the native module.

## Main results

* `Native.dots_fixed` — how many dots the fix takes away.
* `Check.dots_runAll_lt`, `Check.file_runAll_eq` — when checks in a row change a file.
* `Disk.review_fixed_isSome_iff` — when a review has a fixed file.
-/

namespace StarlarkLint

open Node

/-- The file is a package description and names a member of the native module that is a global name
too. -/
def SourceFile.NamesNative (f : SourceFile) : Prop :=
  f.dialect = .build ∧ ∃ s s' name,
    .member s (.ident s' "native") name ∈ f.node.nodes ∧ name ∉ Native.exemptMembers

namespace Native

/-- The number of global members in a tree. -/
def globals (n : Node) : ℕ := n.nodes.countP fun m => (global? m).isSome

theorem globals_eq {n : Node} (hn : n ≠ hole) :
    globals n = (if (global? n).isSome then 1 else 0) + (n.slots.map globals).sum := by
  rw [globals, nodes_eq hn, List.countP_cons, List.countP_flatMap, Nat.add_comm]
  rfl

/-- **The fix takes away one dot for every global member.** -/
theorem dots_fixed (n : Node) : (fixed n).dots + globals n = n.dots := by
  induction n using induction_slots with
  | h n ih =>
    by_cases hn : n = hole
    · subst hn
      rfl
    · cases hglobal : global? n with
      | some name =>
        obtain ⟨s, s', rfl, -⟩ := global?_eq_some_iff.mp hglobal
        have hdots : (Node.member s (.ident s' "native") name).dots = dotsIn name + 1 := by
          rw [dots_eq]
          rfl
        have hglobals : globals (.member s (.ident s' "native") name) = 1 := by
          rw [globals_eq hn, hglobal]
          rfl
        rw [fixed_of_global?_eq_some hglobal, hdots, hglobals, dots_eq]
        rfl
      | none =>
        have hsum : ∀ ns : List Node, (∀ m ∈ ns, (fixed m).dots + globals m = m.dots) →
            (ns.map fun m => (fixed m).dots).sum + (ns.map globals).sum = (ns.map dots).sum := by
          intro ns hns
          rw [← List.sum_map_add]
          exact congrArg List.sum (List.map_congr_left hns)
        rw [fixed_of_global?_eq_none hglobal, dots_eq, dots_eq n, ownDots_mapSlots, slots_mapSlots,
          globals_eq hn, hglobal, ← hsum n.slots ih, List.map_map]
        simp [Function.comp_def]
        omega

/-- Something is fixed exactly if a member is named. -/
theorem globals_pos_iff {n : Node} : 0 < globals n ↔ ∃ s s' name,
    .member s (.ident s' "native") name ∈ n.nodes ∧ name ∉ exemptMembers := by
  rw [globals, List.countP_pos_iff]
  simp only [Option.isSome_iff_exists, global?_eq_some_iff]
  constructor
  · rintro ⟨_, hm, name, s, s', rfl, hname⟩
    exact ⟨s, s', name, hm, hname⟩
  · rintro ⟨s, s', name, hm, hname⟩
    exact ⟨_, hm, name, s, s', rfl, hname⟩

/-- The fix never adds a dot. -/
theorem dots_fix_le (f : SourceFile) : (fix f).node.dots ≤ f.node.dots := by
  by_cases h : f.dialect = .build
  · rw [node_fix h, ← dots_fixed f.node]
    exact Nat.le_add_right _ _
  · rw [fix_of_dialect_ne h]

theorem dots_iterate_fix_le (f : SourceFile) (times : ℕ) :
    (fix^[times] f).node.dots ≤ f.node.dots := by
  induction times generalizing f with
  | zero => exact Nat.le_refl _
  | succ times ih => exact Nat.le_trans (ih (fix f)) (dots_fix_le f)

/-- A package description that names a global member loses a dot. -/
theorem dots_fix_lt {f : SourceFile} (h : f.NamesNative) : (fix f).node.dots < f.node.dots := by
  rw [node_fix h.1, ← dots_fixed f.node]
  exact Nat.lt_add_of_pos_right (globals_pos_iff.mpr h.2)

/-- Any other file is left as it is. -/
theorem fix_eq_self {f : SourceFile} (h : ¬ f.NamesNative) : fix f = f := by
  by_cases hdialect : f.dialect = .build
  · have hnone : globals f.node = 0 :=
      Nat.eq_zero_of_not_pos fun hpos => h ⟨hdialect, globals_pos_iff.mp hpos⟩
    have hnodes : ∀ m ∈ f.node.nodes, global? m = none := by
      intro m hm
      have hnot := List.countP_eq_zero.mp hnone m hm
      simpa using hnot
    have hnode : (fix f).node = f.node := by
      rw [node_fix hdialect, fixed_eq_self_iff.mpr hnodes]
    exact Option.some.inj (congrArg SourceFile.ofNode? hnode)
  · exact fix_of_dialect_ne hdialect

end Native

namespace Check

variable {exempt : List String}

/-- Checks in a row leave a file as it is if there is nothing to fix, or nothing that fixes it. -/
theorem file_runAll_eq {f : SourceFile} {checks : List Check}
    (h : ¬ (f.NamesNative ∧ .nativeBuild ∈ checks)) : (runAll exempt true f checks).file = f := by
  rw [file_runAll]
  by_cases hnames : f.NamesNative
  · rw [List.count_eq_zero.mpr fun hmem => h ⟨hnames, hmem⟩]
    rfl
  · exact Function.iterate_fixed (Native.fix_eq_self hnames) _

/-- **Checks in a row that fix something take away a dot.** -/
theorem dots_runAll_lt (exempt : List String) {f : SourceFile} {checks : List Check}
    (h : f.NamesNative) (hmem : .nativeBuild ∈ checks) :
    (runAll exempt true f checks).file.node.dots < f.node.dots := by
  obtain ⟨more, hmore⟩ :=
    Nat.exists_eq_succ_of_ne_zero (List.count_pos_iff.mpr hmem).ne'
  rw [file_runAll, hmore, Function.iterate_succ_apply]
  exact Nat.lt_of_le_of_lt (Native.dots_iterate_fix_le _ more) (Native.dots_fix_lt h)

end Check

/-- A review of a file that can be read lays it out twice, and hands out the second layout exactly
if there was something to fix. -/
theorem Disk.review_fixed_isSome_iff {disk : Disk} {settings : Settings} {path : Path}
    {f : SourceFile}
    (h : SourceFile.read disk path (some (settings.dialect.getD (.ofPath path))) = .ok f) :
    (∃ before after, f.render = .ok before ∧
      (Check.runAll settings.exempt true f settings.checks).file.render = .ok after) ∧
      ((disk.review settings true path).fixed.isSome ↔
        f.NamesNative ∧ .nativeBuild ∈ settings.checks) := by
  obtain ⟨source, hsource⟩ := exists_parse_of_read h
  have hstatements : ∀ n ∈ f.statements, n.IsStatement AnyName := by
    intro n hn
    exact (isStatement_of_parse hsource n hn).restrict fun _ _ => trivial
  have hleft := Check.runAll_preserves (P := fun f => ∀ n ∈ f.statements, n.IsStatement AnyName)
    (fun _ => Native.fix_isStatement) settings.exempt true settings.checks hstatements
  obtain ⟨before, hbefore⟩ := SourceFile.exists_render {} hstatements
  obtain ⟨after, hafter⟩ := SourceFile.exists_render {} hleft
  refine ⟨⟨before, after, hbefore, hafter⟩, ?_⟩
  have hfixed : (disk.review settings true path).fixed =
      if after = before then none else some after := by
    simp only [Disk.review, h, if_true, changedLayout, hbefore, hafter]
  rw [hfixed]
  constructor
  · intro hsome
    by_contra hnone
    rw [Check.file_runAll_eq hnone, hbefore, Except.ok.injEq] at hafter
    rw [if_pos hafter.symm] at hsome
    cases hsome
  · rintro ⟨hnames, hmem⟩
    have hne : after ≠ before := by
      rintro rfl
      have hdots := Check.dots_runAll_lt settings.exempt hnames hmem
      rw [← SourceFile.dotsIn_render rfl hbefore, ← SourceFile.dotsIn_render rfl hafter] at hdots
      exact Nat.lt_irrefl _ hdots
    rw [if_neg hne]
    rfl

end StarlarkLint
