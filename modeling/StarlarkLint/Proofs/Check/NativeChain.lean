import Mathlib
import StarlarkLint.Proofs.Check.Native

/-!
# How often the fix has to be made

The fix replaces a member of the native module by its name and does not look at the result again.
The member may be `native` itself, so that what stands around it has become a member of the module:
`native.native.glob` is `native.glob` after one fix and `glob` after another.  A chain of such
members loses its first link with every fix, and nothing else changes.

## Main definitions

* `Native.chain?` — the number of links of a chain, and the name that is left in the end.

## Main results

* `Native.chain?_fixed` — a chain loses one link with every fix.
* `Native.flatMap_nodes_fixed` — the nodes after the fix are the nodes before it, each fixed, but
  for names.
* `Native.fix_settles_iff` — when one fix is enough.
-/

namespace StarlarkLint

namespace Native

open Node

/-! ### What the fix leaves alone -/

/-- The fix leaves a tree alone exactly if there is no global member in it. -/
theorem fixed_eq_self_iff {n : Node} : fixed n = n ↔ ∀ m ∈ n.nodes, global? m = none := by
  induction n using induction_slots with
  | h n ih =>
    by_cases hn : n = hole
    · subst hn
      exact iff_of_true rfl (List.forall_mem_nil _)
    rw [nodes_eq hn, List.forall_mem_cons]
    simp only [List.mem_flatMap, forall_exists_index, and_imp]
    constructor
    · intro hfixed
      cases hglobal : global? n with
      | some name =>
        obtain ⟨s, s', rfl, -⟩ := global?_eq_some_iff.mp hglobal
        rw [fixed_of_global?_eq_some hglobal] at hfixed
        cases hfixed
      | none =>
        rw [fixed_of_global?_eq_none hglobal] at hfixed
        have hslots : n.slots.map fixed = n.slots.map id := by
          rw [← slots_mapSlots, hfixed, List.map_id]
        refine ⟨rfl, fun m k hk hm => ?_⟩
        exact (ih k hk).mp (List.map_inj_left.mp hslots k hk) m hm
    · rintro ⟨hglobal, hslots⟩
      rw [fixed_of_global?_eq_none hglobal]
      exact mapSlots_eq_self fun k hk => (ih k hk).mpr fun m hm => hslots m k hk hm

/-! ### The nodes after a fix -/

/-- **The nodes after the fix are the nodes before it, each fixed**, as far as something is looked
for that no name is: where a member was, there is one name less. -/
theorem flatMap_nodes_fixed {α : Type} {φ : Node → List α} (hφ : ∀ s name, φ (.ident s name) = [])
    (n : Node) : (fixed n).nodes.flatMap φ = n.nodes.flatMap fun m => φ (fixed m) := by
  induction n using induction_slots with
  | h n ih =>
    by_cases hn : n = hole
    · subst hn
      rfl
    cases hglobal : global? n with
    | some name =>
      obtain ⟨s, s', rfl, -⟩ := global?_eq_some_iff.mp hglobal
      have hident : ∀ s name, (Node.ident s name).nodes = [.ident s name] := fun _ _ => rfl
      have hnodes : (Node.member s (.ident s' "native") name).nodes =
          [.member s (.ident s' "native") name, .ident s' "native"] := rfl
      rw [fixed_of_global?_eq_some hglobal, hident, hnodes]
      simp only [List.flatMap_cons, List.flatMap_nil, fixed_of_global?_eq_some hglobal,
        fixed_ident, hφ, List.append_nil]
    | none =>
      have hfixed : fixed n ≠ hole := by
        rw [fixed_of_global?_eq_none hglobal]
        exact fun h => hn (mapSlots_eq_hole_iff.mp h)
      have hslots : (fixed n).slots = n.slots.map fixed := by
        rw [fixed_of_global?_eq_none hglobal, slots_mapSlots]
      rw [nodes_eq hfixed, nodes_eq hn, hslots, List.flatMap_cons, List.flatMap_cons,
        List.flatMap_map, List.flatMap_assoc, List.flatMap_assoc, List.flatMap_congr ih]

@[simp] theorem iterate_fixed_ident (k : ℕ) (s : Span) (name : String) :
    fixed^[k] (.ident s name) = .ident s name :=
  Function.iterate_fixed (fixed_ident s name) k

/-- The nodes after some fixes are the nodes before them, each fixed so often. -/
theorem flatMap_nodes_iterate_fixed {α : Type} {φ : Node → List α}
    (hφ : ∀ s name, φ (.ident s name) = []) (k : ℕ) (n : Node) :
    (fixed^[k] n).nodes.flatMap φ = n.nodes.flatMap fun m => φ (fixed^[k] m) := by
  induction k generalizing n with
  | zero => rfl
  | succ k ih =>
    have hk : ∀ s name, φ (fixed^[k] (.ident s name)) = [] := by
      intro s name
      rw [iterate_fixed_ident, hφ]
    rw [Function.iterate_succ_apply, ih, flatMap_nodes_fixed hk]
    rfl

/-! ### Chains -/

/-- The number of links of a chain of members that are named `native`, and the name that is left
when all links are gone. -/
def chain? : Node → Option (ℕ × String)
  | .ident _ name => some (0, name)
  | .member _ base name =>
    ((chain? base).filter fun chain => chain.2 = "native" ∧ name ∉ exemptMembers).map
      fun chain => (chain.1 + 1, name)
  | _ => none

theorem chain?_eq_zero_iff {n : Node} {name : String} :
    chain? n = some (0, name) ↔ ∃ s, n = .ident s name := by
  cases n <;> simp [chain?]

theorem chain?_member_eq_some_iff {s : Span} {base : Node} {name x : String} {k : ℕ} :
    chain? (.member s base name) = some (k, x) ↔
      ∃ j, chain? base = some (j, "native") ∧ name ∉ exemptMembers ∧ j + 1 = k ∧ name = x := by
  rw [chain?, Option.map_eq_some_iff]
  constructor
  · rintro ⟨⟨j, root⟩, hfilter, heq⟩
    obtain ⟨hbase, hlink⟩ := Option.filter_eq_some_iff.mp hfilter
    obtain ⟨rfl, hname⟩ := of_decide_eq_true hlink
    obtain ⟨rfl, rfl⟩ := Prod.mk.injEq .. ▸ heq
    exact ⟨j, hbase, hname, rfl, rfl⟩
  · rintro ⟨j, hbase, hname, rfl, rfl⟩
    exact ⟨(j, "native"), Option.filter_eq_some_iff.mpr ⟨hbase, decide_eq_true ⟨rfl, hname⟩⟩, rfl⟩

/-- A global member is a chain of one link. -/
theorem global?_eq_some_iff_chain? {n : Node} {name : String} :
    global? n = some name ↔ chain? n = some (1, name) := by
  rw [global?_eq_some_iff]
  constructor
  · rintro ⟨s, s', rfl, hname⟩
    exact chain?_member_eq_some_iff.mpr ⟨0, rfl, hname, rfl, rfl⟩
  · intro h
    cases n with
    | member s base other =>
      obtain ⟨j, hbase, hname, hj, rfl⟩ := chain?_member_eq_some_iff.mp h
      obtain rfl : j = 0 := by omega
      obtain ⟨s', rfl⟩ := chain?_eq_zero_iff.mp hbase
      exact ⟨s, s', rfl, hname⟩
    | _ => simp [chain?] at h

/-- **A chain loses one link with every fix.** -/
theorem chain?_fixed (n : Node) : chain? (fixed n) = (chain? n).map (Prod.map (· - 1) id) := by
  induction n using induction_slots with
  | h n ih =>
    cases hglobal : global? n with
    | some name =>
      rw [fixed_of_global?_eq_some hglobal, global?_eq_some_iff_chain?.mp hglobal]
      rfl
    | none =>
      rw [fixed_of_global?_eq_none hglobal]
      cases n with
      | member s base name =>
        have hbase := ih base List.mem_cons_self
        have hlinks : ∀ j, chain? base = some (j, "native") → name ∉ exemptMembers → j ≠ 0 := by
          rintro j hj hname rfl
          rw [global?_eq_some_iff_chain?.mpr
            (chain?_member_eq_some_iff.mpr ⟨0, hj, hname, rfl, rfl⟩)] at hglobal
          cases hglobal
        ext ⟨k, x⟩
        simp only [mapSlots, chain?_member_eq_some_iff, hbase, Option.map_eq_some_iff, Prod.exists,
          Prod.map_apply, id, Prod.mk.injEq]
        constructor
        · rintro ⟨_, ⟨j, root, hj, rfl, rfl⟩, hname, rfl, rfl⟩
          have hlink := hlinks j hj hname
          exact ⟨j + 1, name, ⟨j, hj, hname, rfl, rfl⟩, by omega, rfl⟩
        · rintro ⟨_, _, ⟨j, hj, hname, rfl, rfl⟩, rfl, rfl⟩
          have hlink := hlinks j hj hname
          exact ⟨j - 1, ⟨j, "native", hj, rfl, rfl⟩, hname, by omega, rfl⟩
      | _ => rfl

theorem chain?_iterate_fixed (k : ℕ) (n : Node) :
    chain? (fixed^[k] n) = (chain? n).map (Prod.map (· - k) id) := by
  induction k with
  | zero => exact Option.map_id'.symm
  | succ k ih =>
    rw [Function.iterate_succ_apply', chain?_fixed, ih, Option.map_map]
    rfl

/-- What is a chain of one link after some fixes was longer before them. -/
theorem global?_iterate_fixed_eq_some_iff {k : ℕ} {n : Node} {name : String} :
    global? (fixed^[k] n) = some name ↔ chain? n = some (k + 1, name) := by
  simp only [global?_eq_some_iff_chain?, chain?_iterate_fixed, Option.map_eq_some_iff, Prod.exists,
    Prod.map_apply, id, Prod.mk.injEq]
  constructor
  · rintro ⟨j, x, hchain, hj, rfl⟩
    obtain rfl : j = k + 1 := by omega
    exact hchain
  · intro h
    exact ⟨k + 1, name, h, by omega, rfl⟩

/-! ### Files -/

section Files

variable {f : SourceFile} (h : f.dialect = .build)
include h

theorem iterate_fix (k : ℕ) :
    fix^[k] f = { f with statements := f.statements.map fixed^[k] } := by
  induction k with
  | zero => rw [Function.iterate_zero, Function.iterate_zero, List.map_id, id]
  | succ k ih =>
    have hdialect : (fix^[k] f).dialect = .build := by rw [ih, h]
    rw [Function.iterate_succ_apply', fix_of_dialect_eq hdialect, ih, Function.iterate_succ',
      List.map_map]

theorem node_iterate_fix (k : ℕ) : (fix^[k] f).node = fixed^[k] f.node := by
  induction k with
  | zero => rfl
  | succ k ih =>
    have hdialect : (fix^[k] f).dialect = .build := by rw [iterate_fix h, h]
    rw [Function.iterate_succ_apply', Function.iterate_succ_apply', node_fix hdialect, ih]

theorem findings_eq_nil_iff : findings f = [] ↔ ∀ n ∈ f.node.nodes, global? n = none := by
  rw [findings, if_pos h, List.map_eq_nil_iff, List.filter_eq_nil_iff]
  simp only [Bool.not_eq_true, Option.isSome_eq_false_iff, Option.isNone_iff_eq_none]
  rfl

/-- After some fixes nothing is reported exactly if no chain has one more link. -/
theorem findings_iterate_fix_eq_nil_iff (k : ℕ) : findings (fix^[k] f) = [] ↔
    ∀ n ∈ f.node.nodes, ∀ name, chain? n ≠ some (k + 1, name) := by
  have hnodes := flatMap_nodes_iterate_fixed (φ := fun n => (global? n).toList)
    (fun _ _ => rfl) k f.node
  have hdialect : (fix^[k] f).dialect = .build := by rw [iterate_fix h, h]
  calc findings (fix^[k] f) = []
    _ ↔ (fixed^[k] f.node).nodes.flatMap (fun n => (global? n).toList) = [] := by
        rw [findings_eq_nil_iff hdialect, node_iterate_fix h]
        simp only [List.flatMap_eq_nil_iff, Option.toList_eq_nil_iff]
    _ ↔ ∀ n ∈ f.node.nodes, global? (fixed^[k] n) = none := by
        rw [hnodes]
        simp only [List.flatMap_eq_nil_iff, Option.toList_eq_nil_iff]
    _ ↔ _ := by
        simp only [Option.eq_none_iff_forall_ne_some, ne_eq, global?_iterate_fixed_eq_some_iff]

/-- The fix leaves a file alone exactly if there is nothing to report. -/
theorem fix_eq_self_iff : fix f = f ↔ findings f = [] := by
  rw [findings_eq_nil_iff h, ← fixed_eq_self_iff, ← node_fix h]
  constructor
  · intro hfix
    rw [hfix]
  · intro hnode
    rw [fix_of_dialect_eq h] at hnode ⊢
    simp only [SourceFile.node, Node.file.injEq, true_and] at hnode
    rw [hnode]

/-- **One fix is enough exactly if no chain has two links**: else there is something to report
after the fix, and another fix changes the file once more. -/
theorem fix_settles_iff (exempt : List String) :
    let once := (Check.nativeBuild.run exempt true f).file
    ((Check.nativeBuild.run exempt false once).findings = [] ↔
        ∀ n ∈ f.node.nodes, ∀ name, chain? n ≠ some (2, name)) ∧
      ((Check.nativeBuild.run exempt true once).file = once ↔
        ∀ n ∈ f.node.nodes, ∀ name, chain? n ≠ some (2, name)) := by
  intro once
  have honce : once.dialect = .build := (dialect_fix f).trans h
  have hfindings : findings once = [] ↔ ∀ n ∈ f.node.nodes, ∀ name, chain? n ≠ some (2, name) :=
    findings_iterate_fix_eq_nil_iff h 1
  exact ⟨hfindings, (fix_eq_self_iff honce).trans hfindings⟩

end Files

/-- A member of a member named `native` is not settled by one fix. -/
theorem fix_settles_native_native :
    ∃ f, SourceFile.parse "native.native.foo()\n" "BUILD" none = .ok f ∧ f.dialect = .build ∧
      let once := (Check.nativeBuild.run [] true f).file
      (Check.nativeBuild.run [] false once).findings ≠ [] ∧
        (Check.nativeBuild.run [] true once).file ≠ once := by
  let member : Node :=
    .member ⟨⟨1, 1⟩, ⟨1, 18⟩⟩
      (.member ⟨⟨1, 1⟩, ⟨1, 14⟩⟩ (.ident ⟨⟨1, 1⟩, ⟨1, 7⟩⟩ "native") "native") "foo"
  let f : SourceFile :=
    ⟨⟨⟨1, 1⟩, ⟨2, 1⟩⟩, "BUILD", .build, [.call ⟨⟨1, 1⟩, ⟨1, 20⟩⟩ member []]⟩
  have hparse : SourceFile.parse "native.native.foo()\n" "BUILD" none = .ok f := by cbv
  have hmember : member ∈ f.node.nodes :=
    List.mem_cons_of_mem _ (List.mem_cons_of_mem _ List.mem_cons_self)
  have hchain : chain? member = some (2, "foo") := by decide
  obtain ⟨hfindings, hfile⟩ := fix_settles_iff (f := f) rfl []
  refine ⟨f, hparse, rfl, ?_, ?_⟩
  · intro hnone
    exact hfindings.mp hnone member hmember "foo" hchain
  · intro hsame
    exact hfile.mp hsame member hmember "foo" hchain

end Native

end StarlarkLint
