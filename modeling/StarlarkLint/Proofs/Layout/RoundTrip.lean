import Mathlib
import StarlarkLint.Proofs.Layout.File

/-!
# Laying out and reading back

Values come back from every layout.  The statements of a file come back from its layout unless one
of them starts like a load by accident: brackets around a name are not kept, so that a call of the
name `load` in brackets is laid out as a load.

## Main results

* `parse_render_value` — a value comes back from its layout.
* `parse_render_iff` — when the statements of a file come back from its layout.
-/

namespace StarlarkLint

open Grammar

/-- A text without comments that is read as the symbols of a file spells the file. -/
theorem exists_parse_of_derives {text : String} {ss : List Symbol} {ns : List Node}
    (hlexes : Lexes 0 text.toList ss 0 []) (hcomment : ∀ s ∈ ss, s.kind ≠ .comment)
    (hderives : FileDerives (ss ++ [⟨.endOfFile, ""⟩]) ns) (path : String)
    (dialect : Option Dialect) :
    ∃ f, SourceFile.parse text path dialect = .ok f ∧ Node.bareAll f.statements = ns := by
  have hall : ss.filter (·.kind ≠ .comment) = ss :=
    List.filter_eq_self.mpr (by simpa using hcomment)
  rw [← hall] at hderives
  exact exists_parse_of_lexes hlexes hderives path dialect

/-- **A value comes back from its layout**, whatever the options are, as long as indentation is
blank. -/
theorem parse_render_value {options : LayoutOptions}
    (hindent : ∀ c ∈ options.indent.toList, c = ' ' ∨ c = '\t') {value : Node}
    (hvalue : value.Expressible Free .value) (level : Nat) (path : String)
    (dialect : Option Dialect) :
    ∃ text f, value.render options level = .ok text ∧
      SourceFile.parse ("x = " ++ text ++ "\n") path dialect = .ok f ∧
      Node.bareAll f.statements = [.assign {} (.ident {} "x") "=" value.bare] := by
  obtain ⟨text, ss, htext, hreads, hderives⟩ :=
    Prints.renders (Node.Expressible.laysOut hindent hvalue) level
  have hname : IsLexeme .identifier "x" := ⟨_, _, _, rfl, rfl, rfl, rfl⟩
  have hx : Derives (.value 8) [⟨.identifier, "x"⟩] (.ident {} "x") := .name rfl (by decide)
  have hstatement : StatementDerives ([⟨.identifier, "x"⟩] ++ ⟨.equals, "="⟩ :: ss)
      (.assign {} (.ident {} "x") "=" value.bare) :=
    .assign (hx.loosen (Nat.zero_le 8)) (.inl rfl) hderives id
  have hfile : FileDerives (([⟨.identifier, "x"⟩] ++ ⟨.equals, "="⟩ :: ss) ++ [newline] ++
      [⟨.endOfFile, ""⟩]) [.assign {} (.ident {} "x") "=" value.bare] := by
    have hblock := BlockDerives.more hstatement (List.cons_ne_nil newline [])
      (by simp [Separates, newline]) .none
    have hend : (⟨.endOfFile, ""⟩ : Symbol).kind = .endOfFile := rfl
    simpa using FileDerives.of_block hblock hend
  have hcomment : ∀ s ∈ ([⟨.identifier, "x"⟩] ++ ⟨.equals, "="⟩ :: ss) ++ [newline],
      s.kind ≠ .comment := by
    rw [List.forall_mem_append]
    exact ⟨fun s hs => (hstatement.isInner.2 s hs).kind_ne_comment, by simp [newline]⟩
  have hassignment : Reads ("x" ++ " " ++ "=" ++ " " ++ text).toList
      ([⟨.identifier, "x"⟩] ++ ⟨.equals, "="⟩ :: ss) :=
    reads_assignment (by decide) (reads_of_isLexeme hname (by decide)) hreads
  have hlexes := (hassignment 0 ['\n'] (separate_mark (by decide) (by decide) [])).trans
    (lexes_newline [])
  have htexts : ("x" ++ " " ++ "=" ++ " " ++ text).toList ++ ['\n'] =
      ("x = " ++ text ++ "\n").toList := by simp
  rw [htexts] at hlexes
  obtain ⟨f, hf, hbare⟩ := exists_parse_of_derives hlexes hcomment hfile path dialect
  exact ⟨text, f, htext, hf, hbare⟩

/-- A product of a member and a list of a string comes back. -/
theorem parse_render_value_product :
    let value : Node := .binary {} "*" (.member {} (.unary {} "-" (.number {} "1")) "real")
      (.list {} [.string {} "\""])
    value.Expressible Free .value ∧
      ∃ text f, value.render {} 1 = .ok text ∧
        SourceFile.parse ("x = " ++ text ++ "\n") "BUILD" (some .build) = .ok f ∧
        Node.bareAll f.statements = [.assign {} (.ident {} "x") "=" value.bare] := by
  intro value
  have hone : IsLexeme .number "1" := ⟨_, _, _, rfl, rfl, rfl, rfl⟩
  have hreal : IsLexeme .identifier "real" := ⟨_, _, _, rfl, rfl, rfl, rfl⟩
  have hvalue : value.Expressible Free .value :=
    .binary (by decide) (.member (.unary (by decide) (.number hone)) hreal)
      (.list (by simpa using Node.Expressible.string))
  exact ⟨hvalue, parse_render_value indent_default_blank hvalue 1 "BUILD" (some .build)⟩

/-- **The statements of a file come back from its layout exactly if none of them starts like a load
by accident.** -/
theorem parse_render_iff {source path : String} {dialect : Option Dialect} {f : SourceFile}
    (h : SourceFile.parse source path dialect = .ok f) :
    ∃ text, f.render = .ok text ∧
      ((∃ g, SourceFile.parse text path dialect = .ok g ∧
          Node.bareAll g.statements = Node.bareAll f.statements) ↔
        ∀ n ∈ f.statements, n.opensLoad = false) := by
  obtain ⟨text, htext, hiff⟩ := render_iff indent_default_blank (isStatement_of_parse h)
  exact ⟨text, htext, hiff path dialect⟩

set_option maxRecDepth 2000 in
/-- A call of the name `load` in brackets does not come back. -/
theorem parse_render_load_in_brackets :
    ∃ f text, SourceFile.parse "(load)(\"x\")" "BUILD" (some .build) = .ok f ∧
      f.render = .ok text ∧
      ¬ ∃ g, SourceFile.parse text "BUILD" (some .build) = .ok g ∧
        Node.bareAll g.statements = Node.bareAll f.statements := by
  let call : Node := .call ⟨⟨1, 1⟩, ⟨1, 12⟩⟩ (.ident ⟨⟨1, 1⟩, ⟨1, 7⟩⟩ "load")
    [.string ⟨⟨1, 8⟩, ⟨1, 11⟩⟩ "x"]
  have hparse : SourceFile.parse "(load)(\"x\")" "BUILD" (some .build) =
      .ok ⟨⟨⟨1, 1⟩, ⟨1, 12⟩⟩, "BUILD", .build, [call]⟩ := by cbv
  obtain ⟨text, htext, hiff⟩ := parse_render_iff hparse
  refine ⟨_, text, hparse, htext, fun hback => ?_⟩
  have hopens := hiff.mp hback call List.mem_cons_self
  cases hopens

end StarlarkLint
