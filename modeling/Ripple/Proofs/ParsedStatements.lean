import Ripple.Program.Paragraph
import Ripple.Proofs.ChangeCases

/-!
What reading a program guarantees about its statements. A table literal that was read names no column
twice and has no row without cells, and its rows are all of one length (`Literal.Formed`). Every line of a
program is a statement that was read from a text of its own (`lines_parsed`).
-/

namespace Ripple.Program

/-- A literal with different column names, if it has any, and with rows of one length that are not
empty. -/
structure Literal.Formed (l : Literal) : Prop where
  columns : l.columns.Nodup
  rows : ∀ row ∈ l.rows, row ≠ []
  width : ∀ row ∈ l.rows, row.length = l.width

/-- The literal, if it is one, is formed. -/
def Source.Formed : Source → Prop
  | .literal l => l.Formed
  | .formula _ => True

/-- The literal of the statement, if there is one, is formed. -/
def Statement.Formed : Statement → Prop
  | .define _ source => source.Formed
  | .append _ l => l.Formed
  | _ => True

/-- The statement of the line was read from a text. -/
def Line.Parsed (line : Line) : Prop := ∃ text, readStatement text = .ok line.statement

/-! ## Table literals -/

/-- The names of a record differ from each other and from those read before. -/
theorem readFields_names {before : List String} {ts : List Token} {fields : List (String × Expr)}
    {after : After ts} (read : readFields before ts = .ok (fields, after)) :
    (fields.map Prod.fst).Nodup ∧ ∀ name ∈ fields.map Prod.fst, name ∉ before := by
  fun_induction readFields before ts generalizing fields with
  | case2 before rest =>
    cases read
    simp
  | case4 before rest inner after' shorter more ih | case6 before rest inner after' shorter more ih =>
    cases read
    exact ih more
  | case10 before name rest fresh cell more shorter first inner after' shorter' others ih =>
    cases read
    obtain ⟨distinct, apart⟩ := ih others
    refine ⟨List.nodup_cons.mpr ⟨fun again => apart name again List.mem_cons_self, distinct⟩, ?_⟩
    intro other member
    rcases List.mem_cons.mp member with rfl | later
    · exact fresh
    · exact fun old => apart other later (List.mem_cons_of_mem _ old)
  | _ => cases read

/-- A record that starts with a named cell has one. -/
theorem readFields_ne_nil {before : List String} {ts : List Token} {fields : List (String × Expr)}
    {after : After ts} (starts : startsRecord ts)
    (read : readFields before ts = .ok (fields, after)) : fields ≠ [] := by
  unfold startsRecord at starts
  split at starts
  · rw [readFields] at read
    split at read
    · cases read
    · split at read
      · cases read
      · split at read
        · cases read
        · cases read
          exact List.cons_ne_nil _ _
  · cases starts

/-- A row is added only if it has cells. -/
theorem addRow_nonempty {row : List Expr} {rows : List (List Expr)}
    (others : ∀ r ∈ rows, r ≠ []) : ∀ r ∈ addRow row rows, r ≠ [] := by
  unfold addRow
  split
  · exact others
  · next some =>
    intro r member
    rcases List.mem_cons.mp member with rfl | later
    · simpa using some
    · exact others r later

theorem readRows_nonempty {row : List Expr} {ts : List Token} {rows : List (List Expr)}
    {after : After ts} (read : readRows row ts = .ok (rows, after)) : ∀ r ∈ rows, r ≠ [] := by
  fun_induction readRows row ts generalizing rows with
  | case2 row rest =>
    cases read
    exact addRow_nonempty (by simp)
  | case4 row rest inner after' shorter more ih | case6 row rest inner after' shorter more ih =>
    cases read
    exact addRow_nonempty (ih more)
  | case8 row rest inner after' shorter more ih =>
    cases read
    exact ih more
  | case11 row token more _ _ _ _ cell rest shorter first inner after' shorter' others ih =>
    cases read
    exact ih others
  | _ => cases read

theorem firstDuplicate?_eq_none {before names : List String}
    (none : firstDuplicate? before names = none) :
    names.Nodup ∧ ∀ name ∈ names, name ∉ before := by
  induction names generalizing before with
  | nil => simp
  | cons name names ih =>
    unfold firstDuplicate? at none
    split at none
    · cases none
    · next fresh =>
      obtain ⟨distinct, apart⟩ := ih none
      refine ⟨List.nodup_cons.mpr ⟨fun again => apart name again List.mem_cons_self, distinct⟩, ?_⟩
      intro other member
      rcases List.mem_cons.mp member with rfl | later
      · exact fresh
      · exact fun old => apart other later (List.mem_cons_of_mem _ old)

/-- A search of a numbered list for what does not hold fails if it holds everywhere. -/
theorem findSome?_zipIdx_eq_none_iff {α β : Type} {f : α × Nat → Option β} {holds : α → Prop}
    (each : ∀ x i, f (x, i) = none ↔ holds x) (l : List α) (first : Nat) :
    (l.zipIdx first).findSome? f = none ↔ ∀ x ∈ l, holds x := by
  induction l generalizing first with
  | nil => simp
  | cons x l ih =>
    rw [List.zipIdx_cons, List.findSome?_cons, List.forall_mem_cons, ← each x first, ← ih (first + 1)]
    cases f (x, first) <;> simp

theorem checkedLiteral_eq_ok_iff {columns : List String} {rows : List (List Expr)} {l : Literal} :
    checkedLiteral columns rows = .ok l ↔
      l = ⟨columns, rows⟩ ∧ ∀ row ∈ rows, row.length = l.width := by
  have even (width : Nat) : firstRagged? width rows = none ↔ ∀ row ∈ rows, row.length = width :=
    findSome?_zipIdx_eq_none_iff (fun row i => by simp) rows 1
  unfold checkedLiteral
  dsimp only
  split
  · next ragged =>
    constructor
    · intro none
      cases none
    · rintro ⟨rfl, all⟩
      cases ragged.symm.trans ((even _).mpr all)
  · next whole =>
    rw [even] at whole
    constructor
    · intro same
      cases same
      exact ⟨rfl, whole⟩
    · rintro ⟨rfl, -⟩
      rfl

/-- A literal that was read is formed, be it a record or rows with a header or without. -/
theorem formed_of_readLiteral {ts after : List Token} {l : Literal}
    (read : readLiteral ts = .ok (l, after)) : l.Formed := by
  unfold readLiteral at read
  dsimp only at read
  split at read
  · next starts =>
    split at read
    · cases read
    · next fields rest shorter cells =>
      cases read
      refine ⟨(readFields_names cells).1, ?_, ?_⟩
      · intro row member
        obtain rfl := List.mem_singleton.mp member
        simpa using readFields_ne_nil starts cells
      · intro row member
        obtain rfl := List.mem_singleton.mp member
        cases fields <;> simp [Literal.width]
  · split at read
    · cases read
    · next fresh =>
      split at read
      · cases read
      · next rows rest shorter cells =>
        split at read
        · cases read
        · next literal checked =>
          cases read
          obtain ⟨rfl, width⟩ := checkedLiteral_eq_ok_iff.mp checked
          exact ⟨(firstDuplicate?_eq_none fresh).1, readRows_nonempty cells, width⟩

/-! ## Statements -/

theorem formed_of_readTableStatement {table : String} {ts after : List Token} {s : Statement}
    (read : readTableStatement table ts = .ok (s, after)) : s.Formed := by
  unfold readTableStatement at read
  split at read
  · obtain ⟨⟨l, rest⟩, literal, result⟩ := bind_eq_ok_iff.mp read
    cases result
    exact formed_of_readLiteral literal
  · obtain ⟨value, -, result⟩ := bind_eq_ok_iff.mp read
    cases result
    trivial
  · obtain ⟨⟨l, rest⟩, literal, result⟩ := bind_eq_ok_iff.mp read
    cases result
    exact formed_of_readLiteral literal
  · cases read
  · obtain ⟨column, -, indexed⟩ := bind_eq_ok_iff.mp read
    obtain ⟨index, -, result⟩ := bind_eq_ok_iff.mp indexed
    dsimp only at result
    split at result
    · cases result
    · split at result
      · cases result
      · obtain ⟨value, -, done⟩ := bind_eq_ok_iff.mp result
        cases done
        trivial
  · cases read

theorem formed_of_readStatement {text : List Char} {s : Statement}
    (read : readStatement text = .ok s) : s.Formed := by
  obtain ⟨ts, -, headed⟩ := bind_eq_ok_iff.mp read
  obtain ⟨⟨statement, rest⟩, head, result⟩ := bind_eq_ok_iff.mp headed
  have whole : statement = s := by
    cases rest with
    | nil =>
      cases result
      rfl
    | cons token rest => cases result
  subst whole
  unfold readStatementHead at head
  split at head
  · cases head
  · unfold readWatch at head
    split at head
    · split at head
      · cases head
      · cases head
        trivial
    · cases head
  · exact formed_of_readTableStatement head
  · split at head
    · cases head
    · obtain ⟨value, -, done⟩ := bind_eq_ok_iff.mp head
      cases done
      trivial
  · cases head

theorem Line.Parsed.formed {line : Line} (parsed : line.Parsed) : line.statement.Formed := by
  obtain ⟨text, read⟩ := parsed
  exact formed_of_readStatement read

/-! ## Programs -/

/-- All lines so far were parsed. -/
def Reading.Sourced (r : Reading) : Prop :=
  (∀ p ∈ r.complete, ∀ line ∈ p.lines, line.Parsed) ∧
    ∀ p ∈ r.current, ∀ line ∈ p.lines, line.Parsed

namespace Reading.Sourced

variable {r after : Reading}

theorem addStatement (sourced : r.Sourced) {number : Nat} {s : Statement}
    (parsed : Line.Parsed ⟨number, s⟩) : (r.addStatement number s).Sourced := by
  unfold Reading.addStatement
  split
  · next p open_ =>
    refine ⟨sourced.1, ?_⟩
    rintro q ⟨⟩ line member
    rcases List.mem_append.mp member with old | new
    · exact sourced.2 p open_ line old
    · exact List.mem_singleton.mp new ▸ parsed
  · refine ⟨sourced.1, ?_⟩
    rintro q ⟨⟩ line member
    exact List.mem_singleton.mp member ▸ parsed

theorem endParagraph (sourced : r.Sourced) : r.endParagraph.Sourced := by
  unfold Reading.endParagraph
  split
  · next p open_ =>
    refine ⟨?_, by simp⟩
    intro q member
    rcases List.mem_cons.mp member with rfl | old
    · exact sourced.2 q open_
    · exact sourced.1 q old
  · exact sourced

theorem addComment (sourced : r.Sourced) (comment : List Char) : (r.addComment comment).Sourced := by
  unfold Reading.addComment
  split <;> exact sourced

theorem addText (sourced : r.Sourced) {s : OpenStatement} (added : r.addText s = .ok after) :
    after.Sourced := by
  unfold Reading.addText at added
  split at added
  · cases added
    exact sourced
  · split at added
    · cases added
    · next statement read =>
      cases added
      exact addStatement (r := { r with unfinished := none }) sourced ⟨s.text, read⟩

theorem addLine (sourced : r.Sourced) {number : Nat} {line : List Char}
    (added : r.addLine number line = .ok after) : after.Sourced := by
  unfold Reading.addLine at added
  split at added
  · exact sourced.addText added
  · split at added
    · cases added
      exact sourced.endParagraph
    · split at added
      · cases added
        exact sourced.addComment _
      · exact sourced.addText added

theorem addLines (sourced : r.Sourced) {number : Nat} {lines : List (List Char)}
    (added : r.addLines number lines = .ok after) : after.Sourced := by
  induction lines generalizing r number with
  | nil =>
    cases added
    exact sourced
  | cons line lines ih =>
    obtain ⟨middle, first, others⟩ := bind_eq_ok_iff.mp added
    exact ih (sourced.addLine first) others

end Reading.Sourced

/-- Every line of a program that was read is a statement read from a text. -/
theorem lines_parsed {text : String} {paragraphs : List Paragraph}
    (read : readProgram text = .ok paragraphs) : ∀ p ∈ paragraphs, ∀ line ∈ p.lines, line.Parsed := by
  obtain ⟨r, added, finished⟩ := bind_eq_ok_iff.mp read
  have start : Reading.start.Sourced := ⟨by simp [Reading.start], by simp [Reading.start]⟩
  unfold Reading.finish at finished
  split at finished
  · cases finished
  · cases finished
    intro p member
    exact (start.addLines added).endParagraph.1 p (List.mem_reverse.mp member)

end Ripple.Program
