import StarlarkLint.Proofs.Check.NativeChain

/-!
# What the fix brings to light

Names come to stand where there were members, so that a call of a member becomes a call of a name.
The checks that look for calls of names find more of them after each fix, and what they find at a
call stays the same.  The other checks find what they found before.

## Main definitions

* `Native.called?`, `Native.callsWithin` — the chain that a node calls, and whether some fixes make
  a call of a name of it.
* `ConstantGlob.Emerges`, `PositionalArgs.Emerges` — there is something that comes to light between
  two numbers of fixes.

## Main results

* `ConstantGlob.findings_eq_iff`, `PositionalArgs.findings_eq_iff` — when more fixes bring nothing
  to light.
* `DuplicatedName.findings_iterate_fix`, `StarArgs.findings_iterate_fix`,
  `Native.packageFindings_iterate_fix` — what no fix changes.
-/

namespace StarlarkLint

open Node

/-! ### Findings side by side -/

section Lists

variable {α β : Type} {g h : α → List β} {xs : List α}

theorem length_flatMap_le_of_forall_le (hle : ∀ x ∈ xs, (g x).length ≤ (h x).length) :
    (xs.flatMap g).length ≤ (xs.flatMap h).length := by
  induction xs with
  | nil => exact le_rfl
  | cons x xs ih =>
    rw [List.forall_mem_cons] at hle
    rw [List.flatMap_cons, List.flatMap_cons, List.length_append, List.length_append]
    exact Nat.add_le_add hle.1 (ih hle.2)

/-- Where no member contributes less to the second sequence than to the first, the sequences are the
same exactly if each member contributes the same. -/
theorem flatMap_eq_iff_of_length_le (hle : ∀ x ∈ xs, (g x).length ≤ (h x).length) :
    xs.flatMap g = xs.flatMap h ↔ ∀ x ∈ xs, g x = h x := by
  refine ⟨fun heq => ?_, List.flatMap_congr⟩
  induction xs with
  | nil => exact List.forall_mem_nil _
  | cons x xs ih =>
    rw [List.forall_mem_cons] at hle ⊢
    rw [List.flatMap_cons, List.flatMap_cons] at heq
    have hrest := length_flatMap_le_of_forall_le hle.2
    have hlength := congrArg List.length heq
    rw [List.length_append, List.length_append] at hlength
    have hfirst := hle.1
    obtain ⟨hx, hxs⟩ := List.append_inj heq (by omega)
    exact ⟨hx, ih hle.2 hxs⟩

end Lists

namespace Native

/-- What does not tell a name from a member stays with the fix of a node if it stays with the fix of
its slots. -/
theorem apply_fixed {α : Type} {ψ : Node → α}
    (hmember : ∀ s base name s', ψ (.ident s' name) = ψ (.member s base name)) {n : Node}
    (hslots : ψ (n.mapSlots fixed) = ψ n) : ψ (fixed n) = ψ n := by
  cases hglobal : global? n with
  | some name =>
    obtain ⟨s, s', rfl, -⟩ := global?_eq_some_iff.mp hglobal
    rw [fixed_of_global?_eq_some hglobal]
    exact hmember ..
  | none => rw [fixed_of_global?_eq_none hglobal, hslots]

/-- What stays with one fix stays with any number of them. -/
theorem apply_iterate_fix {α : Type} {ψ : SourceFile → α} (hψ : ∀ f, ψ (fix f) = ψ f) (k : ℕ)
    (f : SourceFile) : ψ (fix^[k] f) = ψ f :=
  congrFun (Function.iterate_invariant (funext hψ) k) f

/-! ### What a node calls -/

/-- The links and the name of the chain that a node calls, if it is a call of one. -/
def called? : Node → Option (ℕ × String)
  | .call _ callee _ => chain? callee
  | _ => none

/-- Whether a node is a call of a name of the given kind after the given number of fixes. -/
def callsWithin (p : String → Bool) (k : ℕ) (n : Node) : Bool :=
  (called? n).any fun chain => decide (chain.1 ≤ k) && p chain.2

theorem called?_fixed (n : Node) : called? (fixed n) = (called? n).map (Prod.map (· - 1) id) := by
  cases n with
  | call s callee args =>
    rw [fixed_of_global?_eq_none rfl]
    exact chain?_fixed callee
  | member s base name =>
    cases hglobal : global? (.member s base name) with
    | some other => rw [fixed_of_global?_eq_some hglobal]; rfl
    | none => rw [fixed_of_global?_eq_none hglobal]; rfl
  | _ => rw [fixed_of_global?_eq_none rfl]; rfl

theorem callsWithin_fixed (p : String → Bool) (k : ℕ) (n : Node) :
    callsWithin p k (fixed n) = callsWithin p (k + 1) n := by
  rw [callsWithin, callsWithin, called?_fixed, Option.any_map]
  congr 1
  funext ⟨j, name⟩
  exact congrArg (· && p name) (decide_eq_decide.mpr (by simp only [Prod.map_apply]; omega))

/-- A node calls a name after some fixes if it calls a chain that is not longer. -/
theorem callsWithin_iterate_fixed (p : String → Bool) (k : ℕ) (n : Node) :
    callsWithin p 0 (fixed^[k] n) = callsWithin p k n := by
  induction k generalizing n with
  | zero => rfl
  | succ k ih => rw [Function.iterate_succ_apply, ih, callsWithin_fixed]

theorem callsWithin_eq_true_iff {p : String → Bool} {k : ℕ} {n : Node} :
    callsWithin p k n = true ↔ ∃ j name, called? n = some (j, name) ∧ j ≤ k ∧ p name = true := by
  rw [callsWithin, Option.any_eq_true]
  simp only [Prod.exists, Bool.and_eq_true, decide_eq_true_eq]

theorem callsWithin_mono {p : String → Bool} {a b : ℕ} {n : Node} (hab : a ≤ b)
    (h : callsWithin p a n = true) : callsWithin p b n = true := by
  obtain ⟨j, name, hcalled, hj, hname⟩ := callsWithin_eq_true_iff.mp h
  exact callsWithin_eq_true_iff.mpr ⟨j, name, hcalled, hj.trans hab, hname⟩

/-- What calls a name after `b` fixes, but not after `a`, calls a chain of a length in between. -/
theorem callsWithin_between_iff {p : String → Bool} {a b : ℕ} {n : Node} :
    callsWithin p b n = true ∧ ¬ callsWithin p a n = true ↔
      ∃ j name, called? n = some (j, name) ∧ a < j ∧ j ≤ b ∧ p name = true := by
  constructor
  · rintro ⟨hb, ha⟩
    obtain ⟨j, name, hcalled, hj, hname⟩ := callsWithin_eq_true_iff.mp hb
    have hlong : a < j := by
      by_contra hshort
      exact ha (callsWithin_eq_true_iff.mpr ⟨j, name, hcalled, by omega, hname⟩)
    exact ⟨j, name, hcalled, hlong, hj, hname⟩
  · rintro ⟨j, name, hcalled, hlong, hj, hname⟩
    refine ⟨callsWithin_eq_true_iff.mpr ⟨j, name, hcalled, hj, hname⟩, fun ha => ?_⟩
    obtain ⟨j', name', hcalled', hj', -⟩ := callsWithin_eq_true_iff.mp ha
    rw [hcalled] at hcalled'
    cases hcalled'
    omega

/-- A call of a name is a call of a chain without links. -/
theorem isCallOf_eq_callsWithin (name : String) (n : Node) :
    n.isCallOf name = callsWithin (· == name) 0 n := by
  rw [Bool.eq_iff_iff, callsWithin_eq_true_iff]
  cases n with
  | call s callee args =>
    constructor
    · intro h
      cases callee with
      | ident s' other => exact ⟨0, other, rfl, le_rfl, h⟩
      | _ => cases h
    · rintro ⟨j, other, hcalled, hj, hname⟩
      obtain rfl : j = 0 := by omega
      obtain ⟨s', rfl⟩ := chain?_eq_zero_iff.mp hcalled
      exact hname
  | _ => simp [isCallOf, called?]

section Emerging

variable {α : Type} (p : String → Bool) (v : Node → List α)

/-- What is looked for at a call of a name of the given kind, after the given number of fixes. -/
def seenAt (k : ℕ) (n : Node) : List α := if callsWithin p k n then v n else []

variable {p v}

theorem seenAt_iterate_fixed (hv : ∀ n, v (fixed n) = v n) (k : ℕ) (n : Node) :
    seenAt p v 0 (fixed^[k] n) = seenAt p v k n := by
  have hk : v (fixed^[k] n) = v n := congrFun (Function.iterate_invariant (funext hv) k) n
  rw [seenAt, seenAt, callsWithin_iterate_fixed, hk]

variable {a b : ℕ} (hab : a ≤ b) (xs : List Node)
include hab

theorem length_seenAt_le (n : Node) : (seenAt p v a n).length ≤ (seenAt p v b n).length := by
  unfold seenAt
  by_cases ha : callsWithin p a n = true
  · rw [if_pos ha, if_pos (callsWithin_mono hab ha)]
  · rw [if_neg ha]
    exact Nat.zero_le _

/-- Nothing comes to light at a node that has nothing, or does not come to call a name. -/
theorem seenAt_eq_iff (n : Node) : seenAt p v b n = seenAt p v a n ↔
    ∀ j name, called? n = some (j, name) → a < j → j ≤ b → p name = true → v n = [] := by
  have hbetween := @callsWithin_between_iff p a b n
  unfold seenAt
  by_cases ha : callsWithin p a n = true
  · rw [if_pos ha, if_pos (callsWithin_mono hab ha)]
    refine iff_of_true rfl fun j name hcalled hlong hj hname => ?_
    exact absurd ha (hbetween.mpr ⟨j, name, hcalled, hlong, hj, hname⟩).2
  · rw [if_neg ha]
    by_cases hb : callsWithin p b n = true
    · rw [if_pos hb]
      constructor
      · intro h _ _ _ _ _ _
        exact h
      · intro h
        obtain ⟨j, name, hcalled, hlong, hj, hname⟩ := hbetween.mp ⟨hb, ha⟩
        exact h j name hcalled hlong hj hname
    · rw [if_neg hb]
      refine iff_of_true rfl fun j name hcalled hlong hj hname => ?_
      exact absurd (hbetween.mpr ⟨j, name, hcalled, hlong, hj, hname⟩).1 hb

theorem flatMap_seenAt_eq_iff : xs.flatMap (seenAt p v b) = xs.flatMap (seenAt p v a) ↔
    ∀ n ∈ xs, ∀ j name, called? n = some (j, name) → a < j → j ≤ b → p name = true → v n = [] := by
  rw [eq_comm, flatMap_eq_iff_of_length_le fun n _ => length_seenAt_le hab n]
  exact forall₂_congr fun n _ => eq_comm.trans (seenAt_eq_iff hab n)

end Emerging

end Native

/-! ### Constant patterns -/

namespace ConstantGlob

open Native

theorem constant?_fixed (n : Node) : constant? (fixed n) = constant? n :=
  apply_fixed (fun _ _ _ _ => rfl) (by cases n <;> rfl)

/-- The fix leaves the patterns of a call as they are. -/
theorem pattern?_fixed (n : Node) : pattern? (fixed n) = pattern? n := by
  refine apply_fixed (fun _ _ _ _ => rfl) ?_
  cases n with
  | call s callee args =>
    cases args with
    | nil => rfl
    | cons first args =>
      -- nothing but the first argument matters
      have hfirst : ∀ n callee' args', pattern? (.call s callee' (n :: args')) =
          pattern? (.call s callee (n :: args)) := by
        intro n _ _
        cases n <;> rfl
      rw [mapSlots, List.map_cons, hfirst]
      refine apply_fixed (ψ := fun m => pattern? (.call s callee (m :: args)))
        (fun _ _ _ _ => rfl) ?_
      cases first with
      | list s' items =>
        show (items.map fixed).findSome? constant? = items.findSome? constant?
        rw [List.findSome?_map]
        exact congrArg (items.findSome? ·) (funext constant?_fixed)
      | _ => rfl
  | _ => rfl

/-- What is found at a glob. -/
def found (f : SourceFile) (n : Node) : List Finding :=
  ((pattern? n).map fun (span, pattern) =>
    f.finding span Check.constantGlob.name (message pattern)).toList

theorem findings_eq {f : SourceFile} (h : f.dialect ≠ .generic) :
    findings f = f.node.nodes.flatMap (seenAt (· == "glob") (found f) 0) := by
  rw [findings, if_neg h, globs, List.filterMap_filter, List.map_filterMap,
    List.filterMap_eq_flatMap_toList, nodes]
  refine List.flatMap_congr fun n _ => ?_
  rw [seenAt, ← isCallOf_eq_callsWithin, found]
  split <;> rfl

theorem findings_iterate_fix {f : SourceFile} (h : f.dialect = .build) (k : ℕ) :
    findings (fix^[k] f) = f.node.nodes.flatMap (seenAt (· == "glob") (found f) k) := by
  have hdialect : (fix^[k] f).dialect ≠ .generic := by rw [iterate_fix h, h]; decide
  have hfound : found (fix^[k] f) = found f := by rw [iterate_fix h]; rfl
  have hident : ∀ s name, seenAt (· == "glob") (found f) 0 (.ident s name) = [] :=
    fun _ _ => rfl
  rw [findings_eq hdialect, hfound, node_iterate_fix h, flatMap_nodes_iterate_fixed hident]
  refine List.flatMap_congr fun n _ => seenAt_iterate_fixed (fun n => ?_) k n
  rw [found, pattern?_fixed, found]

/-- There is a glob with a constant pattern that is found after `b` fixes, but not after `a`. -/
def Emerges (f : SourceFile) (a b : ℕ) : Prop :=
  ∃ n ∈ f.node.nodes, ∃ links, called? n = some (links, "glob") ∧ a < links ∧ links ≤ b ∧
    pattern? n ≠ none

section

variable {f : SourceFile} (h : f.dialect = .build) {a b : ℕ} (hab : a ≤ b)
include h hab

theorem length_findings_le : (findings (fix^[a] f)).length ≤ (findings (fix^[b] f)).length := by
  rw [findings_iterate_fix h, findings_iterate_fix h]
  exact length_flatMap_le_of_forall_le fun n _ => length_seenAt_le hab n

theorem findings_eq_iff : findings (fix^[b] f) = findings (fix^[a] f) ↔ ¬ Emerges f a b := by
  have hfound : ∀ n, found f n = [] ↔ pattern? n = none := by
    intro n
    rw [found, Option.toList_eq_nil_iff, Option.map_eq_none_iff]
  rw [findings_iterate_fix h, findings_iterate_fix h, flatMap_seenAt_eq_iff hab]
  simp only [hfound, Emerges, not_exists, not_and, beq_iff_eq, not_not]
  constructor
  · intro hnone n hn links hcalled hlong hle
    exact hnone n hn links "glob" hcalled hlong hle rfl
  · rintro hnone n hn links name hcalled hlong hle rfl
    exact hnone n hn links hcalled hlong hle

end

end ConstantGlob

/-! ### Positional arguments -/

namespace PositionalArgs

open Native

theorem byKeyword_fixed (n : Node) : byKeyword (fixed n) = byKeyword n :=
  apply_fixed (fun _ _ _ _ => rfl) (by cases n <;> rfl)

/-- The first positional argument of a call, whatever is called. -/
def first? : Node → Option Node
  | .call _ _ args => args.find? (!byKeyword ·)
  | _ => none

/-- What is found at a call of a function that is not exempt. -/
def found (f : SourceFile) (n : Node) : List Finding :=
  ((first? n).map fun argument =>
    f.finding argument.span Check.positionalArgs.name message).toList

theorem found_fixed (f : SourceFile) (n : Node) : found f (fixed n) = found f n := by
  refine apply_fixed (fun _ _ _ _ => rfl) ?_
  cases n with
  | call s callee args =>
    have hkeyword : ((!byKeyword ·) ∘ fixed) = (!byKeyword ·) := by
      funext m
      exact congrArg (!·) (byKeyword_fixed m)
    rw [found, found, mapSlots, first?, first?, List.find?_map, hkeyword, Option.map_map]
    congr 2
    funext argument
    rw [Function.comp_apply, span_fixed]
  | _ => rfl

theorem findings_eq (exempt : List String) (f : SourceFile) :
    findings exempt f = f.statements.flatMap (seenAt (· ∉ exempt) (found f) 0) := by
  rw [findings, List.filterMap_eq_flatMap_toList]
  refine List.flatMap_congr fun n _ => ?_
  cases n with
  | call s callee args =>
    by_cases hcalled : ∃ s' name, callee = .ident s' name
    · obtain ⟨s', name, rfl⟩ := hcalled
      by_cases hname : name ∈ exempt <;>
        simp [finding?, argument?, seenAt, callsWithin, called?, chain?, found, first?, hname]
    · have hwithin : ¬ callsWithin (· ∉ exempt) 0 (.call s callee args) = true := by
        intro h
        obtain ⟨j, name, hchain, hj, -⟩ := callsWithin_eq_true_iff.mp h
        obtain rfl : j = 0 := by omega
        obtain ⟨s', rfl⟩ := chain?_eq_zero_iff.mp hchain
        exact hcalled ⟨s', name, rfl⟩
      have hargument : argument? exempt (.call s callee args) = none := by
        cases callee with
        | ident s' name => exact absurd ⟨s', name, rfl⟩ hcalled
        | _ => rfl
      rw [finding?, hargument, seenAt, if_neg hwithin]
      rfl
  | _ => rfl

theorem findings_iterate_fix {f : SourceFile} (h : f.dialect = .build) (exempt : List String)
    (k : ℕ) : findings exempt (fix^[k] f) =
      f.statements.flatMap (seenAt (· ∉ exempt) (found f) k) := by
  have hfound : found (fix^[k] f) = found f := by rw [iterate_fix h]; rfl
  have hstatements : (fix^[k] f).statements = f.statements.map fixed^[k] := by rw [iterate_fix h]
  rw [findings_eq, hfound, hstatements, List.flatMap_map]
  exact List.flatMap_congr fun n _ => seenAt_iterate_fixed (found_fixed f) k n

/-- There is a positional argument that is found after `b` fixes, but not after `a`. -/
def Emerges (exempt : List String) (f : SourceFile) (a b : ℕ) : Prop :=
  ∃ n ∈ f.statements, ∃ links name, called? n = some (links, name) ∧ a < links ∧ links ≤ b ∧
    name ∉ exempt ∧ first? n ≠ none

section

variable {f : SourceFile} (h : f.dialect = .build) {a b : ℕ} (hab : a ≤ b) (exempt : List String)
include h hab

theorem length_findings_le :
    (findings exempt (fix^[a] f)).length ≤ (findings exempt (fix^[b] f)).length := by
  rw [findings_iterate_fix h, findings_iterate_fix h]
  exact length_flatMap_le_of_forall_le fun n _ => length_seenAt_le hab n

theorem findings_eq_iff :
    findings exempt (fix^[b] f) = findings exempt (fix^[a] f) ↔ ¬ Emerges exempt f a b := by
  have hfound : ∀ n, found f n = [] ↔ first? n = none := by
    intro n
    rw [found, Option.toList_eq_nil_iff, Option.map_eq_none_iff]
  rw [findings_iterate_fix h, findings_iterate_fix h, flatMap_seenAt_eq_iff hab]
  simp only [hfound, Emerges, not_exists, not_and, decide_eq_true_eq, ne_eq, not_not]

end

end PositionalArgs

/-! ### Arguments behind stars -/

namespace StarArgs

open Native

theorem ofArgument?_fixed (n : Node) : ofArgument? (fixed n) = ofArgument? n :=
  apply_fixed (fun _ _ _ _ => rfl) (by cases n <;> rfl)

theorem ofCall_fixed (n : Node) : ofCall (fixed n) = ofCall n := by
  refine apply_fixed (fun _ _ _ _ => rfl) ?_
  cases n with
  | call s callee args =>
    rw [mapSlots, ofCall, ofCall, List.filterMap_map]
    exact congrArg (args.filterMap ·) (funext ofArgument?_fixed)
  | _ => rfl

/-- Arguments behind stars are left where they are. -/
theorem findings_fix (f : SourceFile) : findings (fix f) = findings f := by
  by_cases h : f.dialect = .build
  · have hnodes : (fix f).node.nodes.flatMap ofCall = f.node.nodes.flatMap ofCall := by
      rw [node_fix h, flatMap_nodes_fixed fun _ _ => rfl]
      exact List.flatMap_congr fun n _ => ofCall_fixed n
    rw [nodes, nodes] at hnodes
    rw [findings, findings, dialect_fix, hnodes, fix_of_dialect_eq h]
    rfl
  · rw [fix_of_dialect_ne h]

theorem findings_iterate_fix (k : ℕ) (f : SourceFile) : findings (fix^[k] f) = findings f :=
  apply_iterate_fix findings_fix k f

end StarArgs

/-! ### Calls of the package function -/

namespace Native

/-- What is fixed is no extension file. -/
theorem packageFindings_fix (f : SourceFile) : packageFindings (fix f) = packageFindings f := by
  by_cases h : f.dialect = .build
  · have hbzl : f.dialect ≠ .bzl := by rw [h]; decide
    rw [packageFindings, packageFindings, dialect_fix, if_neg hbzl, if_neg hbzl]
  · rw [fix_of_dialect_ne h]

theorem packageFindings_iterate_fix (k : ℕ) (f : SourceFile) :
    packageFindings (fix^[k] f) = packageFindings f :=
  apply_iterate_fix packageFindings_fix k f

end Native

/-! ### Names -/

namespace DuplicatedName

open Native

/-- The value of an argument that is passed under the given name. -/
def passed? (key : String) : Node → Option Node
  | .assign _ (.ident _ name) _ value => if name = key then some value else none
  | _ => none

/-- A name that counts, with the place of the literal. -/
def literal? : Node → Option (String × Span)
  | .string span value => if value = "" then none else some (value, span)
  | _ => none

/-- The name that a statement gives itself. -/
def given? (n : Node) : Option (String × Span) := (Declaration.ofStatement? n).bind name?

theorem names_eq (f : SourceFile) : names f = f.statements.filterMap given? := by
  rw [names, SourceFile.declarations, List.filterMap_filterMap]
  rfl

theorem name?_eq (d : Declaration) :
    name? d = (d.args.findSome? (passed? "name")).bind literal? := by
  have hattribute : d.attribute? "name" = d.args.findSome? (passed? "name") := rfl
  rw [name?, hattribute]
  cases d.args.findSome? (passed? "name") with
  | none => rfl
  | some value => cases value <;> rfl

/-- A call gives itself a name if its callee spells one, of which none is empty. -/
theorem given?_call {s : Span} {callee : Node} {args : List Node}
    (h : callee.dottedName? ≠ some "") : given? (.call s callee args) =
      if callee.dottedName? = none then none
      else (args.findSome? (passed? "name")).bind literal? := by
  have hkind : callee.dottedName?.getD "" = "" ↔ callee.dottedName? = none := by
    cases hname : callee.dottedName? with
    | none => exact iff_of_true rfl rfl
    | some name =>
      rw [hname, ne_eq, Option.some.injEq] at h
      exact iff_of_false h (Option.some_ne_none name)
  by_cases hnone : callee.dottedName? = none
  · rw [if_pos hnone, given?, Declaration.ofStatement?, Declaration.kind, if_pos (hkind.mpr hnone)]
    rfl
  · rw [if_neg hnone, given?, Declaration.ofStatement?, Declaration.kind,
      if_neg (fun h => hnone (hkind.mp h)), Option.bind_some, name?_eq]

theorem literal?_fixed (n : Node) : literal? (fixed n) = literal? n :=
  apply_fixed (fun _ _ _ _ => rfl) (by cases n <;> rfl)

theorem dottedName?_fixed_eq_none_iff (n : Node) :
    (fixed n).dottedName? = none ↔ n.dottedName? = none := by
  induction n using induction_slots with
  | h n ih =>
    cases hglobal : global? n with
    | some name =>
      obtain ⟨s, s', rfl, -⟩ := global?_eq_some_iff.mp hglobal
      rw [fixed_of_global?_eq_some hglobal]
      exact iff_of_false (Option.some_ne_none _) (Option.some_ne_none _)
    | none =>
      rw [fixed_of_global?_eq_none hglobal]
      cases n with
      | member s base name =>
        rw [mapSlots, dottedName?, dottedName?, Option.map_eq_none_iff, Option.map_eq_none_iff]
        exact ih base List.mem_cons_self
      | _ => exact Iff.rfl

/-- No callee spells the empty name. -/
theorem dottedName?_ne_empty {role : Role} {n : Node} (h : n.Expressible AnyName role) :
    n.dottedName? ≠ some "" := by
  intro hdotted
  induction h with
  | ident hname =>
    cases hdotted
    obtain ⟨c, cs, l, hempty, -⟩ := hname
    cases hempty
  | @member s base name =>
    rw [dottedName?, Option.map_eq_some_iff] at hdotted
    obtain ⟨root, -, hempty⟩ := hdotted
    have hlength := congrArg String.length hempty
    rw [String.length_append, String.length_append] at hlength
    have hdot : ".".length = 1 := rfl
    have hnone : "".length = 0 := rfl
    omega
  | positional _ ih => exact ih hdotted
  | _ => cases hdotted

/-- The names that arguments are passed under are left as they are. -/
theorem passed?_fixed {n : Node} (h : n.Expressible AnyName .argument) (key : String) :
    passed? key (fixed n) = (passed? key n).map fixed := by
  cases hglobal : global? n with
  | some name =>
    obtain ⟨s, s', rfl, -⟩ := global?_eq_some_iff.mp hglobal
    rw [fixed_of_global?_eq_some hglobal]
    rfl
  | none =>
    rw [fixed_of_global?_eq_none hglobal]
    cases n with
    | assign s target op value =>
      cases h with
      | positional h => cases h
      | keyword hname h =>
        rw [mapSlots, fixed_ident, passed?, passed?]
        split <;> rfl
    | _ => rfl

/-- What is passed under a name is passed under it after the fix. -/
theorem findSome?_passed?_fixed {args : List Node}
    (h : ∀ n ∈ args, n.Expressible AnyName .argument) (key : String) :
    (args.map fixed).findSome? (passed? key) = (args.findSome? (passed? key)).map fixed := by
  induction args with
  | nil => rfl
  | cons n args ih =>
    rw [List.forall_mem_cons] at h
    rw [List.map_cons, List.findSome?_cons, List.findSome?_cons, passed?_fixed h.1]
    cases passed? key n with
    | none => exact ih h.2
    | some value => rfl

theorem given?_fixed {n : Node} (h : n.IsStatement AnyName) : given? (fixed n) = given? n := by
  refine apply_fixed (fun _ _ _ _ => rfl) ?_
  cases n with
  | call s callee args =>
    cases h with | value h =>
    cases h with | call hcallee hargs =>
    rw [mapSlots, given?_call (dottedName?_ne_empty hcallee),
      given?_call (dottedName?_ne_empty (fixed_expressible hcallee)),
      findSome?_passed?_fixed hargs]
    simp only [dottedName?_fixed_eq_none_iff]
    congr 1
    cases args.findSome? (passed? "name") with
    | none => rfl
    | some value => exact literal?_fixed value
  | _ => rfl

/-- The names that declarations give themselves are left as they are. -/
theorem findings_fix {f : SourceFile} (h : ∀ n ∈ f.statements, n.IsStatement AnyName) :
    findings (fix f) = findings f := by
  by_cases hdialect : f.dialect = .build
  · have hnames : names (fix f) = names f := by
      rw [names_eq, names_eq, fix_of_dialect_eq hdialect, List.filterMap_map]
      exact List.filterMap_congr fun n hn => given?_fixed (h n hn)
    rw [findings, findings, dialect_fix, hnames, fix_of_dialect_eq hdialect]
    rfl
  · rw [fix_of_dialect_ne hdialect]

theorem findings_iterate_fix {f : SourceFile} (h : ∀ n ∈ f.statements, n.IsStatement AnyName)
    (k : ℕ) : findings (fix^[k] f) = findings f := by
  induction k generalizing f with
  | zero => rfl
  | succ k ih => rw [Function.iterate_succ_apply, ih (fix_isStatement h), findings_fix h]

end DuplicatedName

end StarlarkLint
