import Ripple.Proofs.PrintedStatements
import Ripple.Proofs.ProgramParts

/-!
Printed programs are read back. Every line of a printed program is one line without white space around
it, so that the text is split where it was put together (`lines_flatMap`) and no line is changed before it
is read. A title opens no paragraph, the first statement under it does, and the blank line ends it
(`addLines_passage`).
-/

namespace Ripple.Program

variable {decimal : Decimals} {cs rest : List Char}

/-! ## Lines -/

theorem lines_append (line : IsLine cs) (rest : List Char) :
    Text.lines (cs ++ '\n' :: rest) = cs :: Text.lines rest := by
  obtain ⟨own, rfl | rfl, read⟩ := lines_lineFeed line.single
  · exact read rest
  · -- a carriage return is white space
    cases line.last '\r' (by simp)

/-- A text is split where its lines were put together. -/
theorem lines_flatMap {ls : List (List Char)} (every : ∀ l ∈ ls, IsLine l) :
    Text.lines (ls.flatMap (· ++ ['\n'])) = ls := by
  induction ls with
  | nil => rfl
  | cons l ls ih =>
    obtain ⟨own, others⟩ := List.forall_mem_cons.mp every
    rw [List.flatMap_cons, List.append_assoc, List.singleton_append, lines_append own, ih others]

theorem dropWhile_of_head {p : Char → Bool} (solid : ∀ c ∈ cs.head?, p c = false) :
    cs.dropWhile p = cs := by
  cases cs with
  | nil => rfl
  | cons c cs => exact List.dropWhile_cons_of_neg (Bool.eq_false_iff.mp (solid c rfl))

theorem trim_of_isLine (line : IsLine cs) : Text.trim cs = cs := by
  have back : ∀ c ∈ cs.reverse.head?, Text.isBlank c = false := by
    rw [List.head?_reverse]
    exact line.last
  rw [Text.trim, dropWhile_of_head line.first, dropWhile_of_head back, List.reverse_reverse]

theorem not_blank_of_head?_dropWhile {p : Char → Bool} {c : Char} (head : c ∈ (cs.dropWhile p).head?) :
    p c = false := by
  have stopped := List.head?_dropWhile_not p cs
  rw [Option.mem_def.mp head] at stopped
  simpa using stopped

/-- What is left after white space is removed does not end with white space. -/
theorem not_blank_of_getLast?_trim {c : Char} (last : c ∈ (Text.trim cs).getLast?) :
    Text.isBlank c = false := by
  rw [Text.trim, List.getLast?_reverse] at last
  exact not_blank_of_head?_dropWhile last

theorem isLine_nil : IsLine [] := isLine_of_solid fun _ none => nomatch none

theorem isLine_titleLine {title : String} (isTitle : IsTitle title) : IsLine (titleLine title) where
  single := by simp [titleLine, isTitle.oneLine]
  first := by
    rintro c ⟨⟩
    decide
  last c last := by
    obtain ⟨a, more, shape⟩ := List.exists_cons_of_ne_nil isTitle.nonempty
    rw [titleLine, shape, List.getLast?_cons_cons, List.getLast?_cons_cons, List.getLast?_cons_cons,
      ← shape, ← isTitle.trimmed] at last
    exact not_blank_of_getLast?_trim last

theorem isLine_statement {s : Statement} (printable : s.Printable decimal) : IsLine (s.spelling decimal) :=
  isLine_spell (Statement.balanced printable).printable

theorem isLine_passage {p : Passage} (printable : p.Printable decimal) :
    ∀ l ∈ p.lines decimal, IsLine l := by
  intro l member
  simp only [Passage.lines, List.mem_append, List.mem_map, Option.mem_toList] at member
  rcases member with ⟨title, titled, rfl⟩ | ⟨s, listed, rfl⟩
  · exact isLine_titleLine (printable.title title titled)
  · exact isLine_statement (printable.statements s listed)

theorem isLine_passageLines {passages : List Passage} (printable : ∀ p ∈ passages, p.Printable decimal) :
    ∀ l ∈ passageLines decimal passages, IsLine l := by
  induction passages with
  | nil => exact fun l none => nomatch none
  | cons p passages ih =>
    obtain ⟨own, others⟩ := List.forall_mem_cons.mp printable
    cases passages with
    | nil => exact isLine_passage own
    | cons q passages =>
      exact List.forall_mem_append.mpr
        ⟨isLine_passage own, List.forall_mem_cons.mpr ⟨isLine_nil, ih others⟩⟩

theorem lines_printProgram {passages : List Passage} (printable : ∀ p ∈ passages, p.Printable decimal) :
    Text.lines (printProgram decimal passages).toList = passageLines decimal passages := by
  rw [printProgram, String.toList_ofList, lines_flatMap (isLine_passageLines printable)]

/-! ## One line -/

/-- The comment of a title line is the title. -/
theorem comment?_titleLine {title : String} (isTitle : IsTitle title) :
    comment? (titleLine title) = some title.toList := by
  have trimmed : Text.trim (' ' :: title.toList) = Text.trim title.toList := by
    rw [Text.trim, List.dropWhile_cons_of_pos (by decide), Text.trim]
  rw [titleLine, comment?, trimmed, isTitle.trimmed]

theorem spell_cons (t : Token) (ts : List Token) :
    ∃ more, spell decimal (t :: ts) = t.spelling decimal ++ more := by
  cases ts with
  | nil => exact ⟨[], by rw [spell_singleton, List.append_nil]⟩
  | cons u ts => exact ⟨_, spell_cons_cons t u ts⟩

/-- The token begins a statement. -/
def Token.Leads : Token → Prop
  | tilde | table _ | word _ => True
  | _ => False

theorem Statement.leads_tokens (s : Statement) : ∃ t ts, s.tokens = t :: ts ∧ t.Leads := by
  cases s with
  | define table source => cases source <;> exact ⟨_, _, rfl, trivial⟩
  | _ => exact ⟨_, _, rfl, trivial⟩

theorem Token.Leads.head {t : Token} (leads : t.Leads) (printable : t.Printable decimal) :
    ∃ c more, t.spelling decimal = c :: more ∧ c ≠ '-' := by
  cases t with
  | word name =>
    obtain ⟨c, more, shape, start, -⟩ := printable
    refine ⟨c, more, shape, ?_⟩
    rintro rfl
    revert start
    decide
  | tilde | table name => exact ⟨_, _, rfl, by decide⟩
  | _ => exact leads.elim

/-- A statement is not taken for a comment. -/
theorem comment?_spelling {s : Statement} (printable : s.Printable decimal) :
    s.spelling decimal ≠ [] ∧ comment? (s.spelling decimal) = none := by
  obtain ⟨t, ts, tokens, leads⟩ := s.leads_tokens
  have own : t.Printable decimal := (Statement.balanced printable).printable t (by simp [tokens])
  obtain ⟨c, more, head, other⟩ := leads.head own
  obtain ⟨others, shape⟩ := spell_cons t ts
  rw [Statement.spelling, tokens, shape, head]
  refine ⟨List.cons_ne_nil _ _, ?_⟩
  unfold comment?
  split
  · next same => exact absurd (List.cons.inj same).1 other
  · rfl

variable {complete : List Paragraph} {title : Option String}

theorem addLine_statement {s : Statement} (printable : s.Printable decimal)
    (current : Option Paragraph) (number : Nat) :
    Reading.addLine ⟨complete, current, title, none⟩ number (s.spelling decimal) =
      .ok (Reading.addStatement ⟨complete, current, title, none⟩ number s) := by
  obtain ⟨written, noComment⟩ := comment?_spelling printable
  have balance : bracketBalance .outside (s.spelling decimal) = 0 :=
    (bracketBalance_spell (Statement.balanced printable).printable).trans
      (Statement.balanced printable).depth
  have some : ¬ (s.spelling decimal).isEmpty := by simpa using written
  simp only [Reading.addLine, some, if_false, noComment, Reading.addText, balance, Int.lt_irrefl,
    readStatement_spelling printable, Bool.false_eq_true]

theorem addLine_title {title : String} (isTitle : IsTitle title) (number : Nat) :
    Reading.addLine ⟨complete, none, none, none⟩ number (titleLine title) =
      .ok ⟨complete, none, some title, none⟩ := by
  have written : ¬ (titleLine title).isEmpty := by simp [titleLine]
  have nonempty : ¬ title.toList.isEmpty := by simpa using isTitle.nonempty
  simp [Reading.addLine, written, comment?_titleLine isTitle, Reading.addComment, nonempty]

/-! ## Passages -/

theorem addLines_cons {r after : Reading} {number : Nat} (line : IsLine cs)
    (read : r.addLine number cs = .ok after) (ls : List (List Char)) :
    r.addLines number (cs :: ls) = after.addLines (number + 1) ls := by
  rw [Reading.addLines, trim_of_isLine line, read]
  rfl

/-- Statements on lines that are numbered from one on. -/
def numberLines (first : Nat) (statements : List Statement) : List Line :=
  (statements.zipIdx first).map fun (s, number) => ⟨number, s⟩

/-- The number of lines of a passage. -/
def Passage.height (p : Passage) : Nat := p.title.toList.length + p.statements.length

theorem length_lines (p : Passage) : (p.lines decimal).length = p.height := by
  rw [Passage.lines, Passage.height, List.length_append, List.length_map, List.length_map]

/-- A passage as a paragraph, from the line on that the passage begins on. -/
def Passage.paragraph (p : Passage) (start : Nat) : Paragraph :=
  let first := start + p.title.toList.length
  ⟨p.title, first, numberLines first p.statements⟩

/-- Passages as paragraphs from a line on, with a blank line between them. -/
def paragraphsFrom (start : Nat) : List Passage → List Paragraph
  | [] => []
  | p :: rest => p.paragraph start :: paragraphsFrom (start + p.height + 1) rest

/-- Statements are added to a paragraph that is open. -/
theorem addLines_statements {statements : List Statement}
    (printable : ∀ s ∈ statements, s.Printable decimal) (p : Paragraph) (number : Nat) :
    Reading.addLines ⟨complete, some p, title, none⟩ number (statements.map (·.spelling decimal)) =
      .ok ⟨complete, some { p with lines := p.lines ++ numberLines number statements }, title, none⟩ := by
  induction statements generalizing p number with
  | nil => simp [Reading.addLines, numberLines]
  | cons s statements ih =>
    obtain ⟨own, others⟩ := List.forall_mem_cons.mp printable
    rw [List.map_cons, addLines_cons (isLine_statement own) (addLine_statement own _ _)]
    refine (ih others _ _).trans ?_
    simp [numberLines]

theorem addLines_opening {s : Statement} {statements : List Statement}
    (printable : ∀ t ∈ s :: statements, t.Printable decimal) (number : Nat) :
    Reading.addLines ⟨complete, none, title, none⟩ number ((s :: statements).map (·.spelling decimal)) =
      .ok ⟨complete, some ⟨title, number, numberLines number (s :: statements)⟩, none, none⟩ := by
  obtain ⟨own, others⟩ := List.forall_mem_cons.mp printable
  rw [List.map_cons, addLines_cons (isLine_statement own) (addLine_statement own _ _)]
  refine (addLines_statements others _ _).trans ?_
  simp [numberLines]

/-- A passage is read as a paragraph, which stays open. -/
theorem addLines_passage {p : Passage} (printable : p.Printable decimal) (start : Nat) :
    Reading.addLines ⟨complete, none, none, none⟩ start (p.lines decimal) =
      .ok ⟨complete, some (p.paragraph start), none, none⟩ := by
  obtain ⟨title, statements⟩ := p
  obtain ⟨s, others, rfl⟩ := List.exists_cons_of_ne_nil printable.nonempty
  cases title with
  | none => exact addLines_opening printable.statements start
  | some title =>
    have isTitle := printable.title title rfl
    refine (addLines_cons (isLine_titleLine isTitle) (addLine_title isTitle start) _).trans ?_
    exact addLines_opening printable.statements (start + 1)

/-- Passages are read as paragraphs after those that are complete. -/
theorem addLines_passages {passages : List Passage} (printable : ∀ p ∈ passages, p.Printable decimal)
    (start : Nat) :
    (Reading.addLines ⟨complete, none, none, none⟩ start (passageLines decimal passages) >>=
        Reading.finish) =
      .ok (complete.reverse ++ paragraphsFrom start passages) := by
  induction passages generalizing complete start with
  | nil => exact congrArg Except.ok (List.append_nil _).symm
  | cons p passages ih =>
    obtain ⟨own, others⟩ := List.forall_mem_cons.mp printable
    cases passages with
    | nil =>
      rw [passageLines, addLines_passage own]
      exact congrArg Except.ok List.reverse_cons
    | cons q passages =>
      have blank (number : Nat) :
          Reading.addLine ⟨complete, some (p.paragraph start), none, none⟩ number [] =
            .ok ⟨p.paragraph start :: complete, none, none, none⟩ := rfl
      rw [passageLines, Reading.addLines_append (addLines_passage own start), addLines_cons isLine_nil (blank _),
        ih others, length_lines, List.reverse_cons, List.append_assoc]
      rfl

/-! ## Line numbers -/

theorem getElem?_numberLines {first : Nat} {statements : List Statement} {line : Line}
    (member : line ∈ numberLines first statements) :
    first ≤ line.number ∧ statements[line.number - first]? = some line.statement := by
  obtain ⟨⟨s, number⟩, listed, rfl⟩ := List.mem_map.mp member
  obtain ⟨below, there⟩ := List.mk_mem_zipIdx_iff_le_and_getElem?_sub.mp listed
  exact ⟨below, there⟩

/-- A statement stands on the line with its number. -/
theorem getElem?_passage (decimal : Decimals) {p : Passage} {start : Nat} {line : Line}
    (member : line ∈ (p.paragraph start).lines) :
    start ≤ line.number ∧
      (p.lines decimal)[line.number - start]? = some (line.statement.spelling decimal) := by
  obtain ⟨below, there⟩ := getElem?_numberLines member
  refine ⟨by omega, ?_⟩
  have after : (p.title.toList.map titleLine).length ≤ line.number - start := by
    rw [List.length_map]
    omega
  rw [Passage.lines, List.getElem?_append_right after, List.length_map, List.getElem?_map,
    Nat.sub_sub, there]
  rfl

theorem getElem?_passageLines {passages : List Passage} {start : Nat} {p : Paragraph} {line : Line}
    (listed : p ∈ paragraphsFrom start passages) (member : line ∈ p.lines) :
    start ≤ line.number ∧
      (passageLines decimal passages)[line.number - start]? =
        some (line.statement.spelling decimal) := by
  induction passages generalizing start with
  | nil => cases listed
  | cons q passages ih =>
    rcases List.mem_cons.mp listed with rfl | later
    · obtain ⟨below, there⟩ := getElem?_passage decimal member
      refine ⟨below, ?_⟩
      cases passages with
      | nil => exact there
      | cons next passages =>
        rw [passageLines, List.getElem?_append_left (List.getElem?_eq_some_iff.mp there).1, there]
    · obtain ⟨below, there⟩ := ih later
      refine ⟨by omega, ?_⟩
      cases passages with
      | nil => cases later
      | cons next passages =>
        have after : (q.lines decimal).length ≤ line.number - start := by
          rw [length_lines]
          omega
        have beyond : line.number - start - q.height = line.number - (start + q.height + 1) + 1 := by
          omega
        rw [passageLines, List.getElem?_append_right after, length_lines, beyond,
          List.getElem?_cons_succ, there]

/-- The title and the statements of a paragraph. -/
def Paragraph.passage (p : Paragraph) : Passage := ⟨p.title, p.lines.map Line.statement⟩

theorem passage_paragraph (p : Passage) (start : Nat) : (p.paragraph start).passage = p := by
  simp [Passage.paragraph, Paragraph.passage, numberLines, Function.comp_def]

theorem passages_paragraphsFrom (start : Nat) (passages : List Passage) :
    (paragraphsFrom start passages).map Paragraph.passage = passages := by
  induction passages generalizing start with
  | nil => rfl
  | cons p passages ih => rw [paragraphsFrom, List.map_cons, passage_paragraph, ih]

/-- A paragraph is numbered by its first statement. -/
theorem firstLine_paragraphsFrom {passages : List Passage} (nonempty : ∀ p ∈ passages, p.statements ≠ [])
    {start : Nat} : ∀ p ∈ paragraphsFrom start passages, p.lines.head?.map Line.number = some p.firstLine := by
  induction passages generalizing start with
  | nil => exact fun p none => nomatch none
  | cons q passages ih =>
    obtain ⟨own, others⟩ := List.forall_mem_cons.mp nonempty
    refine List.forall_mem_cons.mpr ⟨?_, ih others⟩
    obtain ⟨s, more, shape⟩ := List.exists_cons_of_ne_nil own
    simp [Passage.paragraph, numberLines, shape]

/-- **What is printed is read back.** The text of passages is read as paragraphs with their titles and
their statements, in their order. Each paragraph is numbered by its first statement, and each statement by
the line of the text that it stands on. -/
theorem readProgram_printProgram {passages : List Passage}
    (printable : ∀ p ∈ passages, p.Printable decimal) :
    readProgram (printProgram decimal passages) = .ok (paragraphsFrom 1 passages) ∧
      (paragraphsFrom 1 passages).map Paragraph.passage = passages ∧
      ∀ p ∈ paragraphsFrom 1 passages, p.lines.head?.map Line.number = some p.firstLine ∧
        ∀ line ∈ p.lines, 1 ≤ line.number ∧
          (Text.lines (printProgram decimal passages).toList)[line.number - 1]? =
            some (line.statement.spelling decimal) := by
  have lines := lines_printProgram printable
  refine ⟨?_, passages_paragraphsFrom 1 passages, fun p listed => ⟨?_, fun line member => ?_⟩⟩
  · rw [readProgram, lines]
    exact addLines_passages printable 1
  · exact firstLine_paragraphsFrom (fun p member => (printable p member).nonempty) p listed
  · rw [lines]
    exact getElem?_passageLines listed member

/-- A program of two passages, with statements of all kinds. -/
def ledger : List Passage :=
  [⟨some "Ledger",
    [.watch "in" (some "a"),
      .define "t" (.literal ⟨["a", "b"],
        [[.text "[\"\n", .unary .neg (.name "x")], [.bool true, .column "in" none]]⟩),
      .append "t" ⟨[], [[.name "x", .number (.ofDigits ['0'] ['5'])]]⟩]⟩,
   ⟨none,
    [.assign "x" (.binary .pow (.pick "t" (some "a") (.text "")) (.name "y")),
      .set "t" "b" (some (.name "x")) .add (.binary .or (.name "x") (.bool true)),
      .define "u" (.formula (.column "t" (some "b")))]⟩]

/-- The decimal of one half, for every number. -/
def halves : Decimals := fun _ => (['0'], ['5'])

set_option maxRecDepth 8192 in
example : printProgram halves ledger =
    "-- Ledger\n~ #in . a\n#t = [ a b | \"[\\\"\\n\" ( - x ) ; true #in ]\n#t += [ x 0.5 ]\n\n" ++
      "x = #t . a \x7b \"\" \x7d ^ y\n#t . b \x7b x \x7d :+= x | true\n#u = #t . b\n" := by
  rfl

theorem readProgram_printProgram_ledger :
    (∀ p ∈ ledger, p.Printable halves) ∧
      readProgram (printProgram halves ledger) = .ok (paragraphsFrom 1 ledger) ∧
      (paragraphsFrom 1 ledger).map Paragraph.firstLine = [2, 6] := by
  have a : IsFreeName "a" := ⟨isName_of_all rfl rfl rfl, by decide, by decide⟩
  have b : IsFreeName "b" := ⟨isName_of_all rfl rfl rfl, by decide, by decide⟩
  have x : IsFreeName "x" := ⟨isName_of_all rfl rfl rfl, by decide, by decide⟩
  have y : IsFreeName "y" := ⟨isName_of_all rfl rfl rfl, by decide, by decide⟩
  have input : IsTableName "in" := ⟨by decide, List.all_eq_true.mp rfl⟩
  have t : IsTableName "t" := ⟨by decide, List.all_eq_true.mp rfl⟩
  have u : IsTableName "u" := ⟨by decide, List.all_eq_true.mp rfl⟩
  have half : WritesNumber (['0'], ['5']) (.ofDigits ['0'] ['5']) := ⟨by decide, List.all_eq_true.mp rfl, rfl⟩
  have title : IsTitle "Ledger" := ⟨by decide, by decide, by decide⟩
  have path {table column : String} (isTable : IsTableName table) (named : IsFreeName column) :
      IsPath table (some column) := ⟨isTable, fun _ same => Option.mem_some.mp same ▸ named.1⟩
  have table : Literal.Printable halves ⟨["a", "b"],
      [[.text "[\"\n", .unary .neg (.name "x")], [.bool true, .column "in" none]]⟩ :=
    ⟨by simp [a, b], by decide, by decide, by decide,
      by simp [Expr.Printable, x, IsPath, input]⟩
  have rows : Literal.Printable halves ⟨[], [[.name "x", .number (.ofDigits ['0'] ['5'])]]⟩ :=
    ⟨by simp, by decide, by simp, by simp [Literal.width],
      by simp [Expr.Printable, x, halves, half]⟩
  have printable : ∀ p ∈ ledger, p.Printable halves := by
    refine List.forall_mem_cons.mpr ⟨⟨?_, by simp, ?_⟩, List.forall_mem_singleton.mpr ⟨?_, by simp, ?_⟩⟩
    · simpa using title
    · simp [Statement.Printable, path input a, t, table, rows]
    · simp
    · simp [Statement.Printable, Expr.Printable, path t a, path t b, u, x, y]
  exact ⟨printable, (readProgram_printProgram printable).1, rfl⟩

end Ripple.Program
