import StarlarkLint.Proofs.Discovery
import StarlarkLint.Proofs.Layout.Dots
import StarlarkLint.Proofs.Text.Encoding
import StarlarkLint.Proofs.Unfailing

/-!
# Layouts are kept by files

A layout is put together of texts that a file keeps.  Names and numbers hold no carriage return,
and the byte order mark is neither a letter nor a digit; a literal starts with a quote and writes
carriage returns with a backslash.  So whatever a string holds, even if it came out of a file that
was read as Latin-1, the layout is read back from its bytes as it is.

## Main results

* `IsLexeme.kept`, `Literal.kept_written` — names, numbers and literals are kept.
* `Node.Expressible.kept_render`, `SourceFile.kept_render` — so is the layout of a tree and of a
  file.
* `Disk.read_write` — what was written to a file is read from it.
* `SourceFile.layout_read_back` — a layout that is written to a file is read back.
-/

namespace StarlarkLint

open Text

/-! ### Names, numbers and literals -/

/-- The tail of a number holds characters of words, and dots. -/
theorem Lexeme.mem_numberTail (cs : List Char) :
    ∀ d ∈ numberTail cs, isWordPart d = true ∨ d = '.' := by
  fun_induction numberTail cs with
  | case1 => exact List.forall_mem_nil _
  | case2 c cs hpart ih => exact List.forall_mem_cons.mpr ⟨.inl hpart, ih⟩
  | case3 c cs _ hdot ih => exact List.forall_mem_cons.mpr ⟨.inr hdot.1, ih⟩
  | case4 => exact List.forall_mem_nil _

/-- Characters of words, and dots, make up a text that is kept. -/
theorem Text.kept_ofList {c : Char} {cs : List Char} (hmark : c ≠ byteOrderMark)
    (h : ∀ d ∈ c :: cs, isWordPart d = true ∨ d = '.') : Kept (String.ofList (c :: cs)) := by
  constructor
  · rw [String.toList_ofList]
    intro hreturn
    rcases h _ hreturn with hpart | hdot
    · exact not_mem_marks_of_isWordPart hpart (by decide)
    · exact absurd hdot (by decide)
  · rwa [String.toList_ofList, List.head?_cons, Option.mem_some]

/-- **Names and numbers are kept.** -/
theorem IsLexeme.kept {kind : TokenKind} {text : String} (h : IsLexeme kind text)
    (hkind : kind ∈ [TokenKind.identifier, .keyword, .number]) : Kept text := by
  have hmark : isWordStart byteOrderMark = false ∧ isDigit byteOrderMark = false := by
    decide +kernel
  generalize hs : (⟨kind, text⟩ : Symbol) = s
  have hgenuine := hs ▸ h.genuine
  obtain rfl : s.kind = kind := by rw [← hs]
  obtain rfl : s.value = text := by rw [← hs]
  cases hgenuine with
  | @word c tail hstart htail =>
    have hne : c ≠ byteOrderMark := by
      rintro rfl
      rw [hmark.1] at hstart
      cases hstart
    refine kept_ofList hne (List.forall_mem_cons.mpr ⟨.inl ?_, fun d hd => .inl (htail d hd)⟩)
    exact isWordPart_of_isWordStart hstart
  | @number c tail hstart htail =>
    rw [Lexeme.startsNumber, Bool.or_eq_true, Bool.and_eq_true, beq_iff_eq] at hstart
    have hne : c ≠ byteOrderMark := by
      rintro rfl
      rcases hstart with hdigit | ⟨hdot, -⟩
      · rw [hmark.2] at hdigit
        cases hdigit
      · exact absurd hdot (by decide)
    refine kept_ofList hne (List.forall_mem_cons.mpr ⟨?_, htail ▸ Lexeme.mem_numberTail tail⟩)
    exact hstart.imp isWordPart_of_isDigit fun hdot => hdot.1
  | sign hsign => exact absurd hkind (Lexeme.kind_not_mem_of_mem_signTexts hsign)
  | string value => simp at hkind
  | comment text => simp at hkind
  | newline => simp at hkind

namespace Literal

/-- **Literals are kept**, whatever they hold. -/
theorem kept_written (value : String) : Kept (written value) := by
  constructor
  · intro hreturn
    exact absurd (printable_written value _ hreturn).1 (by decide)
  · rw [toList_written, List.head?_cons, Option.mem_some]
    decide

end Literal

/-! ### Trees -/

theorem kept_bracketed {least : ℕ} {node : Node} {text : String} (h : Kept text) :
    Kept (bracketed least node text) := by
  unfold bracketed
  split
  · exact (Kept.append (by decide) h).append (by decide)
  · exact h

/-- An operator between blanks. -/
theorem kept_operation {x op y : String} (hx : Kept x) (hop : Kept op) (hy : Kept y) :
    Kept (x ++ " " ++ op ++ " " ++ y) := by
  have hspace : Kept " " := by decide
  exact (((hx.append hspace).append hop).append hspace).append hy

section

variable {options : LayoutOptions} (hindent : Kept options.indent)
include hindent

/-- A sequence with one item to a line is kept if its items are. -/
theorem LayoutOptions.kept_stacked (level : ℕ) {opener closer : String} (hopener : Kept opener)
    (hcloser : Kept closer) {items : List String} (h : ∀ item ∈ items, Kept item) :
    Kept (options.stacked level opener closer items) := by
  have hindentation : ∀ level, Kept (options.indentation level) := by
    intro level
    refine Kept.join fun step hstep => ?_
    rw [List.eq_of_mem_replicate hstep]
    exact hindent
  unfold stacked
  split
  · exact hopener.append hcloser
  · refine Kept.intercalate (by decide) ?_
    rw [List.forall_mem_append, List.forall_mem_cons, List.forall_mem_map,
      List.forall_mem_singleton]
    refine ⟨⟨hopener, fun item hitem => ?_⟩, (hindentation level).append hcloser⟩
    exact ((hindentation (level + 1)).append (h item hitem)).append (by decide)

namespace Node

omit hindent in
/-- The texts of the nodes in a sequence are kept if those of each node are. -/
theorem kept_renderAll {ns : List Node} {level : ℕ} {texts : List String}
    (ih : ∀ n ∈ ns, ∀ level text, n.render options level = .ok text → Kept text)
    (h : renderAll options level ns = .ok texts) : ∀ text ∈ texts, Kept text := by
  intro text htext
  have hforall := renderAll_eq_ok_iff.mp h
  induction hforall with
  | nil => cases htext
  | cons hn hrest ihrest =>
    rw [List.forall_mem_cons] at ih
    rcases List.mem_cons.mp htext with rfl | htext
    · exact ih.1 level _ hn
    · exact ihrest ih.2 (renderAll_eq_ok_iff.mpr hrest) htext

variable {allowed : String → Prop}

/-- **The layout of a tree that can be spelled is kept**, whatever names count. -/
theorem Expressible.kept_render {role : Role} {n : Node} (h : n.Expressible allowed role)
    (level : ℕ) (text : String) (hrender : n.render options level = .ok text) : Kept text := by
  have hops : ∀ op ∈ ["-", "+", "not"] ++ (["*", "**"] ++ Operator.levels.flatten), Kept op := by
    decide
  have hgap : ∀ op, Kept (if op = "not" then " " else "") := by
    intro op
    split <;> decide
  induction h generalizing level text with
  | ident hname =>
    cases hrender
    exact hname.kept (by decide)
  | string =>
    cases hrender
    exact Literal.kept_written _
  | number hvalue =>
    cases hrender
    exact hvalue.kept (by decide)
  | positional _ ih => exact ih level text hrender
  | list _ ih =>
    rw [render] at hrender
    split at hrender
    · simp only [bind_eq_ok_iff, Except.ok.injEq] at hrender
      obtain ⟨texts, htexts, rfl⟩ := hrender
      have hitems : Kept (", ".intercalate texts) :=
        Kept.intercalate (by decide) (kept_renderAll ih htexts)
      exact (Kept.append (by decide) hitems).append (by decide)
    · simp only [bind_eq_ok_iff, Except.ok.injEq] at hrender
      obtain ⟨texts, htexts, rfl⟩ := hrender
      exact LayoutOptions.kept_stacked hindent level (by decide) (by decide)
        (kept_renderAll ih htexts)
  | dict _ ih =>
    simp only [render, bind_eq_ok_iff, Except.ok.injEq] at hrender
    obtain ⟨texts, htexts, rfl⟩ := hrender
    exact LayoutOptions.kept_stacked hindent level (by decide) (by decide)
      (kept_renderAll ih htexts)
  | member _ hname ih =>
    simp only [render, bind_eq_ok_iff, Except.ok.injEq] at hrender
    obtain ⟨x, hx, rfl⟩ := hrender
    exact ((kept_bracketed (ih level x hx)).append (by decide)).append (hname.kept (by decide))
  | call _ _ ih ihargs =>
    simp only [render, bind_eq_ok_iff] at hrender
    obtain ⟨name, hname, texts, htexts, hrender⟩ := hrender
    have hcallee := ih level name hname
    split at hrender
    · cases hrender
      have hargs : Kept (", ".intercalate texts) :=
        Kept.intercalate (by decide) (kept_renderAll ihargs htexts)
      exact (((kept_bracketed hcallee).append (by decide)).append hargs).append (by decide)
    · simp only [bind_eq_ok_iff, Except.ok.injEq] at hrender
      obtain ⟨below, hbelow, rfl⟩ := hrender
      exact (kept_bracketed hcallee).append (LayoutOptions.kept_stacked hindent level (by decide)
        (by decide) (kept_renderAll ihargs hbelow))
  | @unary s op operand hop _ ih =>
    have hop := hops op (List.mem_append_left _ hop)
    simp only [render, bind_eq_ok_iff, Except.ok.injEq] at hrender
    obtain ⟨x, hx, rfl⟩ := hrender
    exact (hop.append (hgap op)).append (kept_bracketed (ih level x hx))
  | @starred s op operand hop _ ih =>
    have hop := hops op (List.mem_append_right _ (List.mem_append_left _ hop))
    simp only [render, bind_eq_ok_iff, Except.ok.injEq] at hrender
    obtain ⟨x, hx, rfl⟩ := hrender
    exact (hop.append (hgap op)).append (kept_bracketed (ih level x hx))
  | @binary s op left right hop _ _ ihleft ihright =>
    have hop := hops op (List.mem_append_right _ (List.mem_append_right _ hop))
    rw [render] at hrender
    split at hrender
    · cases hrender
    · simp only [bind_eq_ok_iff, Except.ok.injEq] at hrender
      obtain ⟨x, hx, y, hy, rfl⟩ := hrender
      exact kept_operation (kept_bracketed (ihleft level x hx)) hop
        (kept_bracketed (ihright level y hy))
  | keyword hname _ ih =>
    simp only [render, bind_eq_ok_iff, Except.ok.injEq] at hrender
    obtain ⟨_, rfl, y, hy, rfl⟩ := hrender
    exact kept_operation (hname.kept (by decide)) (by decide) (ih level y hy)
  | entry _ _ ihkey ihvalue =>
    simp only [render, bind_eq_ok_iff, Except.ok.injEq] at hrender
    obtain ⟨x, hx, y, hy, rfl⟩ := hrender
    exact ((ihkey level x hx).append (by decide)).append (ihvalue level y hy)

/-- So is the layout of a statement. -/
theorem IsStatement.kept_render {n : Node} (h : n.IsStatement allowed) (level : ℕ) (text : String)
    (hrender : n.render options level = .ok text) : Kept text := by
  cases h with
  | load hargs =>
    simp only [render, bind_eq_ok_iff, Except.ok.injEq] at hrender
    obtain ⟨_, rfl, texts, htexts, rfl⟩ := hrender
    have hall := kept_renderAll (fun n hn => (hargs n hn).kept_render hindent) htexts
    refine (Kept.append (by decide) ?_).append (by decide)
    exact Kept.intercalate (by decide) (List.forall_mem_cons.mpr ⟨Literal.kept_written _, hall⟩)
  | value h => exact h.kept_render hindent level text hrender
  | @assign s target value op hop htarget hvalue =>
    have hops : ∀ op ∈ ["=", "+="], Kept op := by decide
    simp only [render, bind_eq_ok_iff, Except.ok.injEq] at hrender
    obtain ⟨x, hx, y, hy, rfl⟩ := hrender
    exact kept_operation (htarget.kept_render hindent level x hx) (hops op hop)
      (hvalue.kept_render hindent level y hy)

end Node

omit hindent in
theorem LayoutOptions.kept_linesAfter (previous : Node) {rest : List (Node × String)}
    (h : ∀ p ∈ rest, Kept p.2) : ∀ line ∈ options.linesAfter previous rest, Kept line := by
  induction rest generalizing previous with
  | nil => exact List.forall_mem_nil _
  | cons p rest ih =>
    obtain ⟨next, text⟩ := p
    rw [List.forall_mem_cons] at h
    rw [linesAfter, List.forall_mem_append, List.forall_mem_cons]
    refine ⟨fun line hline => ?_, h.1, ih next h.2⟩
    rw [between_blank options previous next line hline]
    decide

/-- **The layout of a file of statements that can be spelled is kept**, whatever names count. -/
theorem SourceFile.kept_render {allowed : String → Prop} {f : SourceFile}
    (h : ∀ n ∈ f.statements, n.IsStatement allowed) {text : String}
    (hrender : f.render options = .ok text) : Kept text := by
  obtain ⟨texts, htexts, hrender⟩ := bind_eq_ok_iff.mp hrender
  have hall := Node.kept_renderAll (fun n hn => (h n hn).kept_render hindent) htexts
  have hzip : ∀ p ∈ f.statements.zip texts, Kept p.2 := by
    rintro ⟨n, line⟩ hp
    exact hall line (List.of_mem_zip hp).2
  split at hrender
  · cases hrender
    decide
  · next first line rest hlines =>
    cases hrender
    rw [hlines, List.forall_mem_cons] at hzip
    refine Kept.append (Kept.intercalate (by decide) ?_) (by decide)
    exact List.forall_mem_cons.mpr ⟨hzip.1, LayoutOptions.kept_linesAfter first hzip.2⟩

end

/-! ### Files that were written -/

namespace Disk

variable {disk : Disk} {path : Path} {place : List String}

/-- A file can be put where there is no directory, and paths lead where they led. -/
theorem follow_put_file (hfree : disk.at? place ≠ some .directory) (bytes : ByteArray)
    {names start target : List String} (h : disk.follow path start names = .ok target) :
    (disk.put place (.file bytes)).follow path start names = .ok target := by
  induction names generalizing start with
  | nil => exact h
  | cons name names ih =>
    rw [follow_cons_eq_ok_iff] at h ⊢
    have hother : start ≠ place := by
      rintro rfl
      exact hfree h.1
    rw [at?_put_of_ne _ hother]
    exact ⟨h.1, ih h.2⟩

/-- **What was written to a file is read from it**, be it there before or not. -/
theorem read_write (hplace : disk.place path = .ok place)
    (hfree : disk.at? place ≠ some .directory) (bytes : ByteArray) :
    (disk.write path bytes).read path = .ok bytes := by
  have hne : place ≠ [] := by
    rintro rfl
    exact hfree rfl
  have hafter : (disk.put place (.file bytes)).place path = .ok place :=
    follow_put_file hfree bytes hplace
  rw [write, hplace, read, hafter]
  simp only [bind, Except.bind, at?_put_self _ hne]

theorem readSource_write (hplace : disk.place path = .ok place)
    (hfree : disk.at? place ≠ some .directory) {text : String} (h : Kept text) :
    (disk.write path (Text.encode text)).readSource path = .ok text := by
  rw [readSource, read_write hplace hfree, Except.map, decodeSource_encode_iff.mpr h]

end Disk

/-- **A layout that is written to a file is read back.**  Every file that can be read has a text,
and no carriage return in it, whatever its bytes are; and the layout of a file that was read, as it
was or after any sequence of requests, is the text of its bytes, so that it is read from any file to
which they are written. -/
theorem SourceFile.layout_read_back :
    (∀ (disk : Disk) (path : Path) (bytes : ByteArray), disk.read path = .ok bytes →
      ∃ text, disk.readSource path = .ok text ∧ '\r' ∉ text.toList) ∧
    ∀ (source path : String) (dialect : Option Dialect) (f : SourceFile),
      SourceFile.parse source path dialect = .ok f → ∀ requests : List Request,
        ∃ text, (Request.fileAfter f requests).render = .ok text ∧
          decodeSource (encode text) = text ∧
          ∀ (disk : Disk) (target : Path) (place : List String), disk.place target = .ok place →
            disk.at? place ≠ some .directory →
              (disk.write target (encode text)).readSource target = .ok text := by
  constructor
  · intro disk path bytes hread
    refine ⟨decodeSource bytes, ?_, not_mem_decodeSource bytes⟩
    rw [Disk.readSource, hread, Except.map]
  · intro source path dialect f hparse requests
    obtain ⟨text, htext⟩ := exists_render_fileAfter hparse requests {}
    have hkept : Kept text :=
      kept_render (by decide) (isStatement_fileAfter hparse requests) htext
    exact ⟨text, htext, decodeSource_encode_iff.mpr hkept,
      fun disk target place hplace hfree => Disk.readSource_write hplace hfree hkept⟩

set_option maxRecDepth 4000 in
/-- A fixed file whose string holds a carriage return and a mark, written over one in Latin-1. -/
theorem SourceFile.layout_read_back_native :
    let disk : Disk := { entries := [(["BUILD"], .file ⟨#[0xe9, 0x0d]⟩)] }
    let target : Path := ⟨.here, ["BUILD"]⟩
    ∃ f, SourceFile.parse "native.x('\\r\ufeff')\n" "BUILD" none = .ok f ∧
      disk.read target = .ok ⟨#[0xe9, 0x0d]⟩ ∧
      (∃ text, disk.readSource target = .ok text ∧ '\r' ∉ text.toList) ∧
      (Request.fileAfter f [⟨.nativeBuild, true, []⟩]).render = .ok "x(\"\\r\ufeff\")\n" ∧
      disk.place target = .ok ["BUILD"] ∧ disk.at? ["BUILD"] ≠ some .directory ∧
      (disk.write target (encode "x(\"\\r\ufeff\")\n")).readSource target =
        .ok "x(\"\\r\ufeff\")\n" := by
  intro disk target
  let f : SourceFile :=
    ⟨⟨⟨1, 1⟩, ⟨2, 1⟩⟩, "BUILD", .build,
      [.call ⟨⟨1, 1⟩, ⟨1, 16⟩⟩
        (.member ⟨⟨1, 1⟩, ⟨1, 9⟩⟩ (.ident ⟨⟨1, 1⟩, ⟨1, 7⟩⟩ "native") "x")
        [.string ⟨⟨1, 10⟩, ⟨1, 15⟩⟩ "\r\ufeff"]]⟩
  have hparse : SourceFile.parse "native.x('\\r\ufeff')\n" "BUILD" none = .ok f := by cbv
  have hread : disk.read target = .ok ⟨#[0xe9, 0x0d]⟩ := by cbv
  have hplace : disk.place target = .ok ["BUILD"] := by cbv
  have hfree : disk.at? ["BUILD"] ≠ some .directory := by
    intro hdirectory
    cases hdirectory
  have hrender : (Request.fileAfter f [⟨.nativeBuild, true, []⟩]).render =
      .ok "x(\"\\r\ufeff\")\n" := by cbv
  obtain ⟨hreads, hwrites⟩ := layout_read_back
  obtain ⟨text, htext, -, hback⟩ := hwrites _ _ _ f hparse [⟨.nativeBuild, true, []⟩]
  rw [hrender, Except.ok.injEq] at htext
  subst htext
  exact ⟨f, hparse, hread, hreads disk target _ hread, hrender, hplace, hfree,
    hback disk target _ hplace hfree⟩

end StarlarkLint
