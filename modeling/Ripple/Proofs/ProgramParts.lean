import Mathlib.Data.List.TakeWhile
import Ripple.Program.Paragraph
import Ripple.Proofs.ChangeCases

/-!
Programs in parts. A text that was read leaves nothing open at its end, and the blank line after it ends its
last paragraph and forgets its last title. So what comes below is read as it would be by itself, with the
paragraphs above kept aside and every line number higher by the number of lines above (`Reading.below`).
Each step of reading does the same on such a reading (`addLine_below`), and so does reading as a whole.
-/

namespace Ripple.Program

/-! ## Lines of two texts -/

variable {cs : List Char}

/-- A line feed ends the line before it, with the carriage return that may come last there. -/
theorem lines_lineFeed (single : '\n' ∉ cs) :
    ∃ line, (cs = line ∨ cs = line ++ ['\r']) ∧
      ∀ rest, Text.lines (cs ++ '\n' :: rest) = line :: Text.lines rest := by
  induction cs with
  | nil => exact ⟨[], .inl rfl, fun rest => rfl⟩
  | cons c cs ih =>
    obtain ⟨own, others⟩ := not_or.mp (mt List.mem_cons.mpr single)
    by_cases closing : c = '\r' ∧ cs = []
    · obtain ⟨rfl, rfl⟩ := closing
      exact ⟨[], .inr rfl, fun rest => by rw [List.cons_append, List.nil_append, Text.lines]⟩
    · obtain ⟨line, shape, read⟩ := ih others
      refine ⟨c :: line, shape.imp (congrArg _) (congrArg _), fun rest => ?_⟩
      rw [List.cons_append, Text.lines, read]
      · exact fun same => own same.symm
      · -- a line feed would have to come right after the carriage return
        rintro more rfl split
        cases cs with
        | nil => exact closing ⟨rfl, rfl⟩
        | cons d cs =>
          cases split
          exact others List.mem_cons_self

theorem lines_of_single (single : '\n' ∉ cs) (some : cs ≠ []) : Text.lines cs = [cs] := by
  induction cs with
  | nil => exact absurd rfl some
  | cons c cs ih =>
    obtain ⟨own, others⟩ := not_or.mp (mt List.mem_cons.mpr single)
    have inside : ∀ more, c = '\r' → cs = '\n' :: more → False := by
      rintro more - rfl
      exact others List.mem_cons_self
    by_cases last : cs = []
    · subst last
      rw [Text.lines, Text.lines]
      exacts [fun same => own same.symm, inside]
    · rw [Text.lines, ih others last]
      exacts [fun same => own same.symm, inside]

theorem trim_append_carriageReturn (cs : List Char) : Text.trim (cs ++ ['\r']) = Text.trim cs := by
  have blank : Text.isBlank '\r' := by decide
  unfold Text.trim
  by_cases all : ∀ c ∈ cs, Text.isBlank c
  · rw [List.dropWhile_append_of_pos all, List.dropWhile_eq_nil_iff.mpr all]
    simp [blank]
  · have some : ¬ (cs.dropWhile Text.isBlank).isEmpty := by
      simpa [List.isEmpty_iff, List.dropWhile_eq_nil_iff] using all
    rw [List.dropWhile_append, if_neg some, List.reverse_append]
    simp [blank]

/-- The lines of a text stay as they are when others follow below a line feed, but for white space at the
end and for an empty line that may come last. -/
theorem exists_lines_above (cs : List Char) :
    ∃ above : List (List Char), above.length = cs.count '\n' + 1 ∧
      (∀ rest, Text.lines (cs ++ '\n' :: rest) = above ++ Text.lines rest) ∧
      (above.map Text.trim = (Text.lines cs).map Text.trim ∨
        above.map Text.trim = (Text.lines cs).map Text.trim ++ [[]]) := by
  induction feeds : cs.count '\n' generalizing cs with
  | zero =>
    have single : '\n' ∉ cs := List.count_eq_zero.mp feeds
    obtain ⟨line, shape, read⟩ := lines_lineFeed single
    refine ⟨[line], rfl, read, ?_⟩
    by_cases none : cs = []
    · subst none
      obtain rfl : [] = line := shape.resolve_right (by simp)
      exact .inr rfl
    · left
      rw [lines_of_single single none]
      rcases shape with rfl | rfl
      · rfl
      · simp [trim_append_carriageReturn]
  | succ feeds' ih =>
    have some : '\n' ∈ cs := List.count_pos_iff.mp (by omega)
    obtain ⟨first, more, rfl, single⟩ := List.eq_append_cons_of_mem some
    obtain ⟨line, shape, read⟩ := lines_lineFeed single
    have fewer : more.count '\n' = feeds' := by
      rw [List.count_append, List.count_cons_self, List.count_eq_zero.mpr single] at feeds
      omega
    obtain ⟨above, count, readAbove, same⟩ := ih more fewer
    refine ⟨line :: above, congrArg (· + 1) count, fun rest => ?_, ?_⟩
    · rw [List.append_assoc, List.cons_append, read, readAbove, List.cons_append]
    · rw [read, List.map_cons, List.map_cons, List.cons_append]
      exact same.imp (congrArg _) (congrArg _)

/-! ## Readings further below -/

/-- The line with a number that is higher by so many lines. -/
def Line.below (k : Nat) (line : Line) : Line := { line with number := line.number + k }

def Paragraph.below (k : Nat) (p : Paragraph) : Paragraph :=
  { p with firstLine := p.firstLine + k, lines := p.lines.map (Line.below k) }

def CompileError.below (k : Nat) (e : CompileError) : CompileError := { e with line := e.line + k }

def OpenStatement.below (k : Nat) (s : OpenStatement) : OpenStatement := { s with start := s.start + k }

/-- The reading after some lines and the paragraphs that were read from them, the latest first. -/
def Reading.below (done : List Paragraph) (k : Nat) (r : Reading) : Reading where
  complete := r.complete.map (Paragraph.below k) ++ done
  current := r.current.map (Paragraph.below k)
  title := r.title
  unfinished := r.unfinished.map (OpenStatement.below k)

/-- The result, or else the error, further below. -/
def moved {α β : Type} (k : Nat) (move : α → β) : Except CompileError α → Except CompileError β
  | .ok a => .ok (move a)
  | .error e => .error (e.below k)

namespace Reading

variable (done : List Paragraph) (k : Nat) (r : Reading)

theorem addStatement_below (number : Nat) (s : Statement) :
    (r.below done k).addStatement (number + k) s = (r.addStatement number s).below done k := by
  cases current : r.current <;>
    simp [addStatement, below, current, Paragraph.below, Line.below]

theorem endParagraph_below : (r.below done k).endParagraph = r.endParagraph.below done k := by
  cases current : r.current <;> simp [endParagraph, below, current]

theorem addComment_below (comment : List Char) :
    (r.below done k).addComment comment = (r.addComment comment).below done k := by
  unfold addComment
  by_cases takes : r.current = none ∧ r.title = none ∧ ¬ comment.isEmpty
  · rw [if_pos takes, if_pos (by simpa [below] using takes)]
    rfl
  · rw [if_neg takes, if_neg (by simpa [below] using takes)]

theorem addText_below (s : OpenStatement) :
    (r.below done k).addText (s.below k) = moved k (below done k) (r.addText s) := by
  unfold addText
  by_cases more : 0 < s.depth
  · rw [if_pos more, if_pos (by simpa [OpenStatement.below] using more)]
    rfl
  · rw [if_neg more, if_neg (by simpa [OpenStatement.below] using more)]
    have same : (s.below k).text = s.text := rfl
    rw [same]
    cases readStatement s.text with
    | error fault => rfl
    | ok statement => exact congrArg Except.ok (addStatement_below done k { r with unfinished := none } ..)

theorem addLine_below (number : Nat) (line : List Char) :
    (r.below done k).addLine (number + k) line = moved k (below done k) (r.addLine number line) := by
  cases unfinished : r.unfinished with
  | some s =>
    have same : (r.below done k).unfinished = some (s.below k) := by simp [below, unfinished]
    have longer : (s.below k).addLine line = (s.addLine line).below k := by
      unfold OpenStatement.addLine
      split <;> rfl
    rw [addLine, same, addLine, unfinished]
    dsimp only
    rw [longer, addText_below]
  | none =>
    have same : (r.below done k).unfinished = none := by simp [below, unfinished]
    rw [addLine, same, addLine, unfinished]
    dsimp only
    split
    · rw [endParagraph_below]
      rfl
    · split
      · rw [addComment_below]
        rfl
      · exact addText_below done k r ⟨number, line, bracketBalance .outside line⟩

/-- Lines are read further below as they are read by themselves. -/
theorem addLines_below (number : Nat) (lines : List (List Char)) :
    (r.below done k).addLines (number + k) lines = moved k (below done k) (r.addLines number lines) := by
  induction lines generalizing r number with
  | nil => rfl
  | cons line rest ih =>
    rw [addLines, addLine_below, addLines]
    cases r.addLine number (Text.trim line) with
    | error e => rfl
    | ok next =>
      have later : number + k + 1 = number + 1 + k := by omega
      simp only [moved, bind, Except.bind, later, ih]

theorem finish_below : (r.below done k).finish =
    moved k (fun paragraphs => done.reverse ++ paragraphs.map (Paragraph.below k)) r.finish := by
  cases unfinished : r.unfinished with
  | some s => simp [finish, below, unfinished, moved, OpenStatement.below, CompileError.below]
  | none =>
    have same : (r.below done k).unfinished = none := by simp [below, unfinished]
    rw [finish, same, finish, unfinished]
    dsimp only [moved]
    rw [endParagraph_below]
    simp [below]

/-! ## The end of a part -/

variable {r} {after : Reading} {number : Nat}

theorem addLines_append {lines : List (List Char)} (read : r.addLines number lines = .ok after)
    (more : List (List Char)) :
    r.addLines number (lines ++ more) = after.addLines (number + lines.length) more := by
  induction lines generalizing r number with
  | nil =>
    cases read
    rfl
  | cons line rest ih =>
    obtain ⟨next, first, others⟩ := bind_eq_ok_iff.mp read
    rw [List.cons_append, addLines, first, List.length_cons, Nat.add_comm rest.length, ← Nat.add_assoc]
    exact ih others

/-- White space around lines does not matter. -/
theorem addLines_congr {lines others : List (List Char)}
    (same : lines.map Text.trim = others.map Text.trim) :
    r.addLines number lines = r.addLines number others := by
  induction lines generalizing r number others with
  | nil =>
    obtain rfl := List.map_eq_nil_iff.mp same.symm
    rfl
  | cons line rest ih =>
    cases others with
    | nil => cases same
    | cons other others =>
      obtain ⟨first, rest'⟩ := List.cons.inj same
      rw [addLines, addLines, first]
      cases r.addLine number (Text.trim other) with
      | error e => rfl
      | ok next => exact ih rest'

theorem addLine_nil (closed : r.unfinished = none) : r.addLine number [] = .ok r.endParagraph := by
  rw [addLine, closed]
  rfl

/-- A reading that can be finished goes on, below a blank line, from the paragraphs it gives and nothing
else. -/
theorem endParagraph_of_finish {paragraphs : List Paragraph} (finished : r.finish = .ok paragraphs) :
    r.unfinished = none ∧ r.endParagraph = start.below paragraphs.reverse k := by
  obtain ⟨complete, current, title, unfinished⟩ := r
  cases unfinished with
  | some s => cases finished
  | none =>
    cases finished
    refine ⟨rfl, ?_⟩
    cases current <;> simp [endParagraph, below, start]

end Reading

/-! ## A text below another one -/

/-- The lines of a text that was read and the blank line after them are read to the paragraphs of the text,
with nothing left open. -/
theorem exists_lines_of_readProgram {above : String} {paragraphs : List Paragraph}
    (read : readProgram above = .ok paragraphs) (k : Nat) :
    ∃ lines : List (List Char), lines.length = above.toList.count '\n' + 2 ∧
      (∀ below : String, Text.lines (above ++ "\n\n" ++ below).toList = lines ++ Text.lines below.toList) ∧
      Reading.start.addLines 1 lines = .ok (Reading.start.below paragraphs.reverse k) := by
  obtain ⟨r, first, finished⟩ := bind_eq_ok_iff.mp read
  obtain ⟨closed, kept⟩ := Reading.endParagraph_of_finish k finished
  obtain ⟨lines, count, split, same⟩ := exists_lines_above above.toList
  refine ⟨lines ++ [[]], by rw [List.length_append, count, List.length_singleton], fun below => ?_, ?_⟩
  · simpa [Text.lines] using split ('\n' :: below.toList)
  · have blank : Text.trim [] = [] := rfl
    -- an empty line may have come last, and then two blank lines follow
    rcases same with same | same
    · have one : (lines ++ [[]]).map Text.trim = (Text.lines above.toList ++ [[]]).map Text.trim := by
        simp [same]
      rw [Reading.addLines_congr one, Reading.addLines_append first, Reading.addLines, blank,
        Reading.addLine_nil closed, kept]
      rfl
    · have two : (lines ++ [[]]).map Text.trim = (Text.lines above.toList ++ [[], []]).map Text.trim := by
        simp [same, blank]
      rw [Reading.addLines_congr two, Reading.addLines_append first, Reading.addLines, blank,
        Reading.addLine_nil closed, kept]
      rfl

/-- What is read from a text below another one and a blank line is what is read from it by itself, with
numbers that count the lines above. -/
theorem readProgram_below {above : String} {paragraphs : List Paragraph}
    (read : readProgram above = .ok paragraphs) (below : String) :
    readProgram (above ++ "\n\n" ++ below) =
      moved (above.toList.count '\n' + 2)
        (fun others => paragraphs ++ others.map (Paragraph.below (above.toList.count '\n' + 2)))
        (readProgram below) := by
  obtain ⟨lines, count, split, readAbove⟩ :=
    exists_lines_of_readProgram read (above.toList.count '\n' + 2)
  rw [readProgram, split, Reading.addLines_append readAbove, count]
  simp only [bind, Except.bind, Reading.addLines_below]
  rw [readProgram]
  cases Reading.start.addLines 1 (Text.lines below.toList) with
  | error e => rfl
  | ok last => simpa [moved, bind, Except.bind] using Reading.finish_below paragraphs.reverse _ last

/-- **The parts of a program are read apart.** Below a text that is read and a blank line, another text is
read as it would be by itself, with the same paragraphs or the same fault, and every line number counts
the lines above. -/
theorem parts_read_apart {above : String} {paragraphs : List Paragraph}
    (read : readProgram above = .ok paragraphs) (below : String) :
    (∀ others, readProgram below = .ok others →
      readProgram (above ++ "\n\n" ++ below) =
        .ok (paragraphs ++ others.map (Paragraph.below (above.toList.count '\n' + 2)))) ∧
    ∀ e, readProgram below = .error e →
      readProgram (above ++ "\n\n" ++ below) = .error ⟨e.line + (above.toList.count '\n' + 2), e.fault⟩ := by
  rw [readProgram_below read]
  constructor
  · intro others readBelow
    rw [readBelow]
    rfl
  · intro e failed
    rw [failed]
    rfl

/-- A title, a statement with a comment between its lines, a carriage return and a title for no statement. -/
def pricesText : String := "-- Prices\n#t = [x\n-- one row\n| true]\r\n-- Sums"

/-- The last title is forgotten, and statements below start on line 7. -/
theorem parts_read_apart_prices :
    ∃ paragraphs, readProgram pricesText = .ok paragraphs ∧ paragraphs.map (·.title) = [some "Prices"] ∧
      readProgram (pricesText ++ "\n\n" ++ "#s = #t.x") =
        .ok (paragraphs ++ [⟨none, 7, [⟨7, .define "s" (.formula (.column "t" (some "x")))⟩]⟩]) ∧
      readProgram (pricesText ++ "\n\n" ++ "#s = [") = .error ⟨7, .malformed .openBracket⟩ := by
  have read : readProgram pricesText =
      .ok [⟨some "Prices", 2, [⟨2, .define "t" (.literal ⟨["x"], [[.bool true]]⟩)⟩]⟩] := by cbv
  have sums : readProgram "#s = #t.x" =
      .ok [⟨none, 1, [⟨1, .define "s" (.formula (.column "t" (some "x")))⟩]⟩] := by cbv
  have unclosed : readProgram "#s = [" = .error ⟨1, .malformed .openBracket⟩ := by cbv
  have feeds : pricesText.toList.count '\n' + 2 = 6 := by decide
  obtain ⟨-, fails⟩ := parts_read_apart read "#s = ["
  obtain ⟨reads, -⟩ := parts_read_apart read "#s = #t.x"
  rw [feeds] at reads fails
  exact ⟨_, read, rfl, reads _ sums, fails _ unclosed⟩

end Ripple.Program
