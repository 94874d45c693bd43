import StarlarkLint.Proofs.Check.NativeChain
import StarlarkLint.Proofs.Node.Place

/-!
# What the fix rewrites is what is reported

Asked to report, the check for members of the native module goes through the whole tree; asked to
fix, it does not go on below a member that it replaces.  Both come to the same members, as there is
no other one below a member.  So the fix puts names in exactly the places that the findings are
about, and every other place is left alone.

## Main definitions

* `Native.Rewrites` — a file with names in some places of another.
* `Node.isMember` — the nodes that the fix can take away.

## Main results

* `Native.at?_fixed` — what stands in a place after the fix.
* `Native.rewrites_fix` — the fix rewrites the places of the global members.
* `Native.fix_rewrites_findings` — the findings are those of the places that the fix rewrites.
-/

namespace StarlarkLint

/-- Whether a node is a member of a value. -/
def Node.isMember : Node → Bool
  | .member _ _ _ => true
  | _ => false

namespace Native

open Node

/-! ### Places after the fix -/

variable {n m : Node} {p q : Place}

/-- A place that is not below a global member holds the same node as before, fixed. -/
theorem at?_fixed (h : ∀ q m, q <+: p → q ≠ p → n.at? q = some m → global? m = none) :
    (fixed n).at? p = (n.at? p).map fixed := by
  induction p generalizing n with
  | nil => rw [at?_nil, at?_nil, Option.map_some]
  | cons i p ih =>
    have hglobal : global? n = none :=
      h [] n List.nil_prefix (List.cons_ne_nil i p).symm (at?_nil n)
    rw [fixed_of_global?_eq_none hglobal, at?_cons, at?_cons, slots_mapSlots, List.getElem?_map]
    cases hk : n.slots[i]? with
    | none => rfl
    | some k =>
      rw [Option.map_some, Option.bind_some, Option.bind_some]
      refine ih fun q m hq hne hm => h (i :: q) m ?_ ?_ ?_
      · exact List.cons_prefix_cons.mpr ⟨rfl, hq⟩
      · intro heq
        exact hne (List.cons.inj heq).2
      · rw [at?_cons, hk, Option.bind_some, hm]

/-- The fix brings nothing into a place that was not there before. -/
theorem exists_at?_of_fixed (h : (fixed n).at? p = some m) : ∃ k, n.at? p = some k := by
  induction p generalizing n with
  | nil => exact ⟨n, at?_nil n⟩
  | cons i p ih =>
    cases hglobal : global? n with
    | some name =>
      -- there is nothing below a name
      rw [fixed_of_global?_eq_some hglobal, at?_cons, slots, List.getElem?_nil,
        Option.bind_none] at h
      cases h
    | none =>
      rw [fixed_of_global?_eq_none hglobal, at?_cons, slots_mapSlots, List.getElem?_map,
        Option.bind_eq_some_iff] at h
      obtain ⟨_, hfixed, hm⟩ := h
      obtain ⟨k, hk, rfl⟩ := Option.map_eq_some_iff.mp hfixed
      rw [at?_cons, hk, Option.bind_some]
      exact ih hm

/-- Below a global member there is the name of the module and nothing else. -/
theorem global?_eq_none_of_below {name : String} (h : global? n = some name)
    (hm : n.at? p = some m) (hp : p ≠ []) : global? m = none := by
  obtain ⟨s, s', rfl, -⟩ := global?_eq_some_iff.mp h
  cases p with
  | nil => exact absurd rfl hp
  | cons i p =>
    rw [at?_cons, slots, Option.bind_eq_some_iff] at hm
    obtain ⟨k, hk, hm⟩ := hm
    rw [List.mem_singleton.mp (List.mem_of_getElem? hk)] at hm
    cases p with
    | nil =>
      rw [at?_nil, Option.some.injEq] at hm
      rw [← hm]
      rfl
    | cons j p =>
      rw [at?_cons, slots, List.getElem?_nil, Option.bind_none] at hm
      cases hm

/-- A global member becomes its name where it stands, as no other one is above it. -/
theorem at?_fixed_of_global? {name : String} (hm : n.at? p = some m)
    (h : global? m = some name) : (fixed n).at? p = some (.ident m.span name) := by
  have habove : ∀ q k, q <+: p → q ≠ p → n.at? q = some k → global? k = none := by
    rintro q k ⟨r, rfl⟩ hne hk
    rw [at?_append, hk, Option.bind_some] at hm
    rw [Option.eq_none_iff_forall_ne_some]
    intro other hother
    have hbelow := global?_eq_none_of_below hother hm (by simpa using hne)
    rw [hbelow] at h
    cases h
  rw [at?_fixed habove, hm, Option.map_some, fixed_of_global?_eq_some h]

/-! ### Rewriting -/

/-- The second file is the first one with names in some places, where global members of the native
module were, and all else as it was. -/
structure Rewrites (f g : SourceFile) (places : List Place) : Prop where
  /-- The places are in the order of a walk. -/
  ordered : places.Pairwise (· < ·)
  /-- They are the places of the members whose names are global. -/
  mem_iff : ∀ p, p ∈ places ↔ ∃ s s' name,
    f.node.at? p = some (.member s (.ident s' "native") name) ∧ name ∉ exemptMembers
  /-- Each of the members has become its name, with the span that the member had. -/
  named : ∀ p ∈ places, ∀ s base name, f.node.at? p = some (.member s base name) →
    g.node.at? p = some (.ident s name)
  /-- Every other node stays in its place with all that it holds itself. -/
  kept : ∀ p n, f.node.at? p = some n → (∀ q ∈ places, ¬q <+: p) →
    ∃ m, g.node.at? p = some m ∧ m.emptied = n.emptied
  /-- Nothing else has come in. -/
  only : ∀ p m, g.node.at? p = some m → ∃ n, f.node.at? p = some n

/-- What is looked for in a place is a global member. -/
theorem any_global?_iff {o : Option Node} : (o.any fun n => (global? n).isSome) = true ↔
    ∃ s s' name, o = some (.member s (.ident s' "native") name) ∧ name ∉ exemptMembers := by
  simp only [Option.any_eq_true, Option.isSome_iff_exists, global?_eq_some_iff]
  constructor
  · rintro ⟨_, rfl, name, s, s', rfl, hname⟩
    exact ⟨s, s', name, rfl, hname⟩
  · rintro ⟨s, s', name, rfl, hname⟩
    exact ⟨_, rfl, name, s, s', rfl, hname⟩

/-- **The fix rewrites the places of the global members.** -/
theorem rewrites_fix {f : SourceFile} (h : f.dialect = .build) {ps : List Place}
    (hps : f.node.Enumerates ps) :
    Rewrites f (fix f) (ps.filter fun p => (f.node.at? p).any fun n => (global? n).isSome) where
  ordered := hps.ordered.filter _
  mem_iff := by
    intro p
    rw [List.mem_filter, any_global?_iff]
    constructor
    · exact And.right
    · rintro ⟨s, s', name, hp, hname⟩
      exact ⟨hps.complete p _ hp nofun, s, s', name, hp, hname⟩
  named := by
    intro p hp s base name hmember
    obtain ⟨-, hglobal⟩ := List.mem_filter.mp hp
    rw [hmember, Option.any_some, Option.isSome_iff_exists] at hglobal
    obtain ⟨other, hglobal⟩ := hglobal
    obtain ⟨_, _, heq, -⟩ := global?_eq_some_iff.mp hglobal
    cases heq
    rw [node_fix h, at?_fixed_of_global? hmember hglobal, span]
  kept := by
    intro p n hn hp
    -- a global member in a place above, or in the place itself, is among those that are rewritten
    have hglobal : ∀ q m, q <+: p → f.node.at? q = some m → global? m = none := by
      intro q m hq hm
      rw [Option.eq_none_iff_forall_ne_some]
      intro name hname
      refine hp q (List.mem_filter.mpr ⟨?_, ?_⟩) hq
      · refine hps.complete q m hm ?_
        rintro rfl
        cases hname
      · rw [hm, Option.any_some, hname, Option.isSome_some]
    refine ⟨fixed n, ?_, ?_⟩
    · rw [node_fix h, at?_fixed fun q m hq _ => hglobal q m hq, hn, Option.map_some]
    · rw [fixed_of_global?_eq_none (hglobal p n List.prefix_rfl hn), emptied_mapSlots]
  only := by
    intro p m hm
    rw [node_fix h] at hm
    exact exists_at?_of_fixed hm

/-! ### Counting members -/

/-- A node is a member after the fix if it was one before, and no global one. -/
theorem isMember_fixed (n : Node) :
    (fixed n).isMember = (n.isMember && (global? n).isNone) := by
  cases h : global? n with
  | some name =>
    rw [fixed_of_global?_eq_some h, Option.isNone_some, Bool.and_false]
    rfl
  | none =>
    rw [fixed_of_global?_eq_none h, Option.isNone_none, Bool.and_true]
    cases n <;> rfl

/-- The nodes after the fix of a kind that no name is of are those nodes before it that become such
nodes. -/
theorem filter_nodes_fixed {q : Node → Bool} (hq : ∀ s name, q (.ident s name) = false)
    (n : Node) : (fixed n).nodes.filter q = (n.nodes.map fixed).filter q := by
  have hnames : ∀ s name, [Node.ident s name].filter q = [] := by
    intro s name
    rw [List.filter_singleton, hq, cond_false]
  calc (fixed n).nodes.filter q
    _ = ((fixed n).nodes.flatMap fun m => [m]).filter q := by rw [List.flatMap_singleton']
    _ = n.nodes.flatMap fun m => [fixed m].filter q := by
        rw [List.filter_flatMap, flatMap_nodes_fixed hnames]
    _ = (n.nodes.map fixed).filter q := by
        rw [List.map_eq_flatMap, List.filter_flatMap]

/-- The members that the fix takes away are the global ones. -/
theorem countP_isMember_fixed (n : Node) :
    (fixed n).nodes.countP isMember + n.nodes.countP (fun m => (global? m).isSome) =
      n.nodes.countP isMember := by
  have hglobal : ∀ m, (m.isMember && (global? m).isSome) = (global? m).isSome := by
    intro m
    cases m <;> rfl
  have hfixed : (fixed n).nodes.countP isMember =
      n.nodes.countP fun m => m.isMember && !(global? m).isSome := by
    rw [List.countP_eq_length_filter, filter_nodes_fixed fun _ _ => rfl,
      ← List.countP_eq_length_filter, List.countP_map]
    refine List.countP_congr fun m _ => ?_
    rw [Function.comp_apply, isMember_fixed, Option.not_isSome]
  rw [List.countP_eq_countP_filter_add n.nodes isMember fun m => (global? m).isSome,
    List.countP_filter, List.countP_filter, hfixed]
  simp only [hglobal]
  omega

/-! ### Reporting and fixing -/

/-- **The findings are those of the places that the fix rewrites**, one each and in the order of a
walk, and so many members are gone after the fix. -/
theorem fix_rewrites_findings {f : SourceFile} (h : f.dialect = .build) (exempt : List String) :
    let reported := Check.nativeBuild.run exempt false f
    let rewritten := Check.nativeBuild.run exempt true f
    rewritten.findings = [] ∧ reported.file = f ∧
      (∃ places, Rewrites f rewritten.file places ∧
        reported.findings.map some = places.map fun p =>
          (f.node.at? p).map fun n => f.finding n.span Check.nativeBuild.name message) ∧
      rewritten.file.node.nodes.countP isMember + reported.findings.length =
        f.node.nodes.countP isMember := by
  intro reported rewritten
  let report : Node → Finding := fun n => f.finding n.span Check.nativeBuild.name message
  have hfindings : reported.findings =
      (f.node.nodes.filter fun n => (global? n).isSome).map report := if_pos h
  obtain ⟨ps, hps⟩ := exists_enumerates f.node
  refine ⟨rfl, rfl, ⟨_, rewrites_fix h hps, ?_⟩, ?_⟩
  · have hplaces := hps.map_at?_filter fun n => (global? n).isSome
    calc reported.findings.map some
      _ = ((f.node.nodes.filter fun n => (global? n).isSome).map some).map (Option.map report) := by
          rw [hfindings, List.map_map, List.map_map]
          rfl
      _ = _ := by
          rw [← hplaces, List.map_map]
          rfl
  · rw [hfindings, List.length_map, ← List.countP_eq_length_filter, ← countP_isMember_fixed f.node,
      ← node_fix h]
    rfl

/-- Members as a callee and inside an argument are rewritten, and one that is no global name is
kept. -/
theorem fix_rewrites_findings_nested :
    ∃ f, SourceFile.parse "native.foo(native.bar.baz, native.existing_rule)\n" "BUILD" none =
        .ok f ∧ f.dialect = .build ∧
      let reported := Check.nativeBuild.run [] false f
      let rewritten := Check.nativeBuild.run [] true f
      reported.findings.map Finding.span = [⟨⟨1, 1⟩, ⟨1, 11⟩⟩, ⟨⟨1, 12⟩, ⟨1, 22⟩⟩] ∧
        rewritten.findings = [] ∧ reported.file = f ∧
        (∃ places, Rewrites f rewritten.file places ∧
          reported.findings.map some = places.map fun p =>
            (f.node.at? p).map fun n => f.finding n.span Check.nativeBuild.name message) ∧
        rewritten.file.node.nodes.countP isMember + 2 = 4 := by
  let args : List Node :=
    [.member ⟨⟨1, 12⟩, ⟨1, 26⟩⟩
        (.member ⟨⟨1, 12⟩, ⟨1, 22⟩⟩ (.ident ⟨⟨1, 12⟩, ⟨1, 18⟩⟩ "native") "bar") "baz",
      .member ⟨⟨1, 28⟩, ⟨1, 48⟩⟩ (.ident ⟨⟨1, 28⟩, ⟨1, 34⟩⟩ "native") "existing_rule"]
  let f : SourceFile :=
    ⟨⟨⟨1, 1⟩, ⟨2, 1⟩⟩, "BUILD", .build, [.call ⟨⟨1, 1⟩, ⟨1, 49⟩⟩
      (.member ⟨⟨1, 1⟩, ⟨1, 11⟩⟩ (.ident ⟨⟨1, 1⟩, ⟨1, 7⟩⟩ "native") "foo") args]⟩
  have hparse : SourceFile.parse "native.foo(native.bar.baz, native.existing_rule)\n" "BUILD" none =
      .ok f := by cbv
  have hspans : (Check.nativeBuild.run [] false f).findings.map Finding.span =
      [⟨⟨1, 1⟩, ⟨1, 11⟩⟩, ⟨⟨1, 12⟩, ⟨1, 22⟩⟩] := by decide
  have hcount : (Check.nativeBuild.run [] false f).findings.length = 2 := by decide
  have hmembers : f.node.nodes.countP isMember = 4 := by decide
  obtain ⟨hnone, hfile, hplaces, hfall⟩ := fix_rewrites_findings (f := f) rfl []
  rw [hcount, hmembers] at hfall
  exact ⟨f, hparse, rfl, hspans, hnone, hfile, hplaces, hfall⟩

end Native

end StarlarkLint
