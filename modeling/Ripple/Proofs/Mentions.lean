import Ripple.Program.Compilation
import Ripple.Proofs.ChangeCases

/-!
The columns that a block follows. `Mentions` says where in an expression or a statement a column is
read, and `Paragraph.Follows` which columns a block has to answer to: those of its watch statements,
or everything it reads if it has none. The blocks of a compiled program watch the registers of exactly
these columns (`block_watches_iff`), each block standing for one paragraph of the text
(`blocks_of_compile`).
-/

namespace Ripple

theorem mem_keepFirst {α : Type} [DecidableEq α] {items : List α} {x : α} :
    x ∈ keepFirst items ↔ x ∈ items := by
  have all (items seen : List α) :
      x ∈ items.foldl (fun seen x => if x ∈ seen then seen else x :: seen) seen ↔
        x ∈ seen ∨ x ∈ items := by
    induction items generalizing seen with
    | nil => simp
    | cons y items ih =>
      rw [List.foldl_cons, ih]
      split
      · next old =>
        rw [List.mem_cons]
        constructor
        · exact Or.imp_right .inr
        · rintro (there | rfl | rest)
          · exact .inl there
          · exact .inl old
          · exact .inr rest
      · rw [List.mem_cons, List.mem_cons, or_assoc, or_left_comm]
  rw [keepFirst, List.mem_reverse, all]
  simp

/-- What is kept is kept once. -/
theorem nodup_keepFirst {α : Type} [DecidableEq α] (items : List α) : (keepFirst items).Nodup := by
  have all (items seen : List α) (once : seen.Nodup) :
      (items.foldl (fun seen x => if x ∈ seen then seen else x :: seen) seen).Nodup := by
    induction items generalizing seen with
    | nil => exact once
    | cons x items ih =>
      rw [List.foldl_cons]
      split
      · exact ih seen once
      · next new => exact ih (x :: seen) (List.nodup_cons.mpr ⟨new, once⟩)
  exact (List.reverse_perm _).nodup_iff.mpr (all items [] List.nodup_nil)

namespace Program

/-- An expression reads a column somewhere, be it in an index. -/
inductive Expr.Mentions : Expr → String → Option String → Prop where
  | column {t : String} {c : Option String} : Mentions (.column t c) t c
  | pick {t : String} {c : Option String} {index : Expr} : Mentions (.pick t c index) t c
  | index {t t' : String} {c c' : Option String} {index : Expr} (inner : Mentions index t' c') :
      Mentions (.pick t c index) t' c'
  | operand {t : String} {c : Option String} {op : UnaryOp} {e : Expr} (inner : Mentions e t c) :
      Mentions (.unary op e) t c
  | left {t : String} {c : Option String} {op : BinaryOp} {a b : Expr} (inner : Mentions a t c) :
      Mentions (.binary op a b) t c
  | right {t : String} {c : Option String} {op : BinaryOp} {a b : Expr} (inner : Mentions b t c) :
      Mentions (.binary op a b) t c

/-- A statement reads a column: in a cell of a literal, in a formula, in the value or the index of
what it sets, or as the old value that a compound assignment starts from. -/
inductive Statement.Mentions : Statement → String → Option String → Prop where
  | cell {table t : String} {c : Option String} {l : Literal} {row : List Expr} {e : Expr}
      (inRows : row ∈ l.rows) (inRow : e ∈ row) (inner : e.Mentions t c) :
      Mentions (.define table (.literal l)) t c
  | formula {table t : String} {c : Option String} {e : Expr} (inner : e.Mentions t c) :
      Mentions (.define table (.formula e)) t c
  | value {table column t : String} {c : Option String} {index : Option Expr} {op : SetOp} {e : Expr}
      (inner : e.Mentions t c) : Mentions (.set table column index op e) t c
  | picked {table column t : String} {c : Option String} {op : SetOp} {index e : Expr}
      (inner : index.Mentions t c) : Mentions (.set table column (some index) op e) t c
  | old {table column : String} {index : Option Expr} {op : SetOp} {e : Expr}
      (compound : op ≠ .assign) : Mentions (.set table column index op e) table (some column)
  | added {table t : String} {c : Option String} {l : Literal} {row : List Expr} {e : Expr}
      (inRows : row ∈ l.rows) (inRow : e ∈ row) (inner : e.Mentions t c) :
      Mentions (.append table l) t c
  | named {name t : String} {c : Option String} {e : Expr} (inner : e.Mentions t c) :
      Mentions (.assign name e) t c

variable {t : String} {c : Option String} {r : Register}

theorem Expr.mem_reads_iff {e : Expr} : (t, c) ∈ e.reads ↔ e.Mentions t c := by
  induction e with
  | number | text | bool | name =>
    simp only [reads, List.not_mem_nil, false_iff]
    rintro ⟨⟩
  | column t' c' =>
    simp only [reads, List.mem_singleton, Prod.mk.injEq]
    constructor
    · rintro ⟨rfl, rfl⟩
      exact .column
    · rintro ⟨⟩
      exact ⟨rfl, rfl⟩
  | pick t' c' index ih =>
    simp only [reads, List.mem_cons, Prod.mk.injEq, ih]
    constructor
    · rintro (⟨rfl, rfl⟩ | inner)
      · exact .pick
      · exact .index inner
    · rintro (_ | _ | inner)
      · exact .inl ⟨rfl, rfl⟩
      · exact .inr inner
  | unary op e ih =>
    rw [reads, ih]
    exact ⟨.operand, fun | .operand inner => inner⟩
  | binary op a b left right =>
    rw [reads, List.mem_append, left, right]
    constructor
    · rintro (inner | inner)
      · exact .left inner
      · exact .right inner
    · rintro (_ | _ | _ | _ | inner | inner)
      · exact .inl inner
      · exact .inr inner

/-- The value of an expression depends on the tables that it reads and on the names that it uses. -/
theorem Expr.eval_congr {w v : Workspace} {e : Expr}
    (names : ∀ name ∈ e.names, w.names.lookup name = v.names.lookup name)
    (tables : ∀ t c, e.Mentions t c → w.find? (.of t) = v.find? (.of t)) : e.eval w = e.eval v := by
  have read (t : String) (c : Option String) (mentions : e.Mentions t c) : w.read t c = v.read t c := by
    rw [Workspace.read, Workspace.read, Workspace.table, Workspace.table, tables t c mentions]
  clear tables
  induction e with
  | number | text | bool => rfl
  | name n => simp only [Expr.eval, names n (List.mem_singleton_self n)]
  | column t c => exact read t c .column
  | pick t c index ih =>
    simp only [Expr.eval, read t c .pick, ih names fun t' c' inner => read t' c' (.index inner)]
  | unary op e ih => simp only [Expr.eval, ih names fun t c inner => read t c (.operand inner)]
  | binary op a b left right =>
    have inA := left (fun name member => names name (List.mem_append_left _ member)) fun t c inner =>
      read t c (.left inner)
    have inB := right (fun name member => names name (List.mem_append_right _ member)) fun t c inner =>
      read t c (.right inner)
    simp only [Expr.eval, inA, inB]

/-- A statement mentions what its expressions mention, and its own column if it is compound. -/
theorem Statement.mentions_iff {s : Statement} :
    s.Mentions t c ↔ (∃ e ∈ s.exprs, e.Mentions t c) ∨
      ∃ column index op e, s = .set t column index op e ∧ op ≠ .assign ∧ c = some column := by
  constructor
  · intro mentions
    cases mentions with
    | cell inRows inRow inner => exact .inl ⟨_, List.mem_flatten.mpr ⟨_, inRows, inRow⟩, inner⟩
    | formula inner => exact .inl ⟨_, List.mem_singleton.mpr rfl, inner⟩
    | value inner => exact .inl ⟨_, List.mem_cons_self, inner⟩
    | picked inner => exact .inl ⟨_, List.mem_cons_of_mem _ (List.mem_singleton.mpr rfl), inner⟩
    | old compound => exact .inr ⟨_, _, _, _, rfl, compound, rfl⟩
    | added inRows inRow inner => exact .inl ⟨_, List.mem_flatten.mpr ⟨_, inRows, inRow⟩, inner⟩
    | named inner => exact .inl ⟨_, List.mem_singleton.mpr rfl, inner⟩
  · rintro (⟨e, member, inner⟩ | ⟨column, index, op, e, rfl, compound, rfl⟩)
    · cases s with
      | watch table column => cases member
      | define table source =>
        cases source with
        | literal l =>
          obtain ⟨row, inRows, inRow⟩ := List.mem_flatten.mp member
          exact .cell inRows inRow inner
        | formula e' =>
          obtain rfl := List.mem_singleton.mp member
          exact .formula inner
      | set table column index op value =>
        rcases List.mem_cons.mp member with rfl | member
        · exact .value inner
        · obtain rfl := Option.mem_toList.mp member
          exact .picked inner
      | append table l =>
        obtain ⟨row, inRows, inRow⟩ := List.mem_flatten.mp member
        exact .added inRows inRow inner
      | assign name value =>
        obtain rfl := List.mem_singleton.mp member
        exact .named inner
    · exact .old compound

/-- The registers that a statement reads are those of the columns it mentions. -/
theorem Statement.mem_readRegisters_iff {s : Statement} :
    r ∈ s.readRegisters ↔ ∃ t c, s.Mentions t c ∧ registerOf t c = r := by
  have inner : (∃ read ∈ s.exprs.flatMap Expr.reads, registerOf read.1 read.2 = r) ↔
      ∃ t c, (∃ e ∈ s.exprs, e.Mentions t c) ∧ registerOf t c = r := by
    simp only [List.mem_flatMap, Prod.exists, Expr.mem_reads_iff]
  simp only [mentions_iff, or_and_right, exists_or]
  rw [← inner]
  cases s with
  | set table column index op value =>
    simp only [readRegisters]
    split
    · next plain =>
      refine List.mem_map.trans (or_iff_left ?_).symm
      rintro ⟨t, c, ⟨column', index', op', e, ⟨⟩, compound, -⟩, -⟩
      exact compound plain
    · next compound =>
      rw [List.mem_append, List.mem_singleton]
      refine or_congr List.mem_map ⟨?_, ?_⟩
      · rintro rfl
        exact ⟨table, some column, ⟨column, index, op, value, rfl, compound, rfl⟩, rfl⟩
      · rintro ⟨t, c, ⟨column', index', op', e, ⟨⟩, -, rfl⟩, rfl⟩
        rfl
  | _ =>
    refine List.mem_map.trans (or_iff_left ?_).symm
    rintro ⟨t, c, ⟨column, index, op, e, ⟨⟩, -⟩, -⟩

theorem Statement.watchRegister?_eq_some_iff {s : Statement} :
    s.watchRegister? = some r ↔ ∃ t c, s = .watch t c ∧ registerOf t c = r := by
  cases s <;> simp [watchRegister?, and_assoc]

/-! ## Blocks of paragraphs -/

namespace Paragraph

/-- A paragraph without watch statements. -/
def IsFormula (p : Paragraph) : Prop := ∀ line ∈ p.lines, line.statement.watchRegister? = none

/-- The block has to answer to a column: it asks to watch it or, if it asks for nothing, reads it. -/
def Follows (p : Paragraph) (t : String) (c : Option String) : Prop :=
  (∃ line ∈ p.lines, line.statement = .watch t c) ∨
    p.IsFormula ∧ ∃ line ∈ p.lines, line.statement.Mentions t c

/-- The block watches the registers of the columns that its paragraph follows. -/
theorem block_watches_iff {p : Paragraph} {number : Nat} {b : Block}
    (compiled : p.block number = .ok b) :
    b.watches r ↔ ∃ t c, p.Follows t c ∧ r.overlaps (registerOf t c) := by
  obtain ⟨_, -, result⟩ := bind_eq_ok_iff.mp compiled
  have formula : ((p.lines.map Line.statement).filterMap Statement.watchRegister?).isEmpty ↔
      p.IsFormula := by
    rw [List.isEmpty_iff, List.filterMap_eq_nil_iff, List.forall_mem_map]
    rfl
  simp only [Follows, or_and_right, exists_or]
  dsimp only at result
  split at result
  · next empty =>
    have plain := formula.mp empty
    cases result
    have silent : ¬ ∃ t c, (∃ line ∈ p.lines, line.statement = .watch t c) ∧
        r.overlaps (registerOf t c) := by
      rintro ⟨t, c, ⟨line, member, asks⟩, -⟩
      simpa [asks, Statement.watchRegister?] using plain line member
    rw [or_iff_right silent]
    simp only [Block.watches, Block.build, List.any_eq_true, mem_keepFirst, List.mem_flatMap,
      List.mem_map, Statement.mem_readRegisters_iff]
    constructor
    · rintro ⟨q, ⟨s, ⟨line, member, rfl⟩, t, c, mentions, rfl⟩, seen⟩
      exact ⟨t, c, ⟨plain, line, member, mentions⟩, seen⟩
    · rintro ⟨t, c, ⟨-, line, member, mentions⟩, seen⟩
      exact ⟨_, ⟨_, ⟨line, member, rfl⟩, t, c, mentions, rfl⟩, seen⟩
  · next some =>
    have watching := mt formula.mpr some
    cases result
    have silent : ¬ ∃ t c, (p.IsFormula ∧ ∃ line ∈ p.lines, line.statement.Mentions t c) ∧
        r.overlaps (registerOf t c) := by
      rintro ⟨t, c, ⟨plain, -⟩, -⟩
      exact watching plain
    rw [or_iff_left silent]
    simp only [Block.watches, Block.build, List.any_eq_true, mem_keepFirst, List.mem_filterMap,
      List.mem_map, Statement.watchRegister?_eq_some_iff]
    constructor
    · rintro ⟨q, ⟨s, ⟨line, member, rfl⟩, t, c, asks, rfl⟩, seen⟩
      exact ⟨t, c, ⟨line, member, asks⟩, seen⟩
    · rintro ⟨t, c, ⟨line, member, asks⟩, seen⟩
      exact ⟨_, ⟨_, ⟨line, member, rfl⟩, t, c, asks, rfl⟩, seen⟩

end Paragraph

/-- The paragraphs that are blocks, in order. -/
def sources (paragraphs : List Paragraph) : List Paragraph :=
  paragraphs.filter fun p => ! p.isDeclaration

/-- Adding paragraphs adds one block for each that is not a declaration. -/
theorem blocks_of_addParagraphs {paragraphs : List Paragraph} {program after : Program}
    (added : addParagraphs program paragraphs = .ok after) :
    ∃ blocks, after.blocks = program.blocks ++ blocks ∧
      blocks.length = (sources paragraphs).length ∧
      ∀ (i : Nat) (p : Paragraph) (b : Block),
        (sources paragraphs)[i]? = some p → blocks[i]? = some b →
          p.block (program.blocks.length + i + 1) = .ok b := by
  induction paragraphs generalizing program with
  | nil =>
    cases added
    refine ⟨[], by simp, rfl, ?_⟩
    rintro i p b ⟨⟩
  | cons p rest ih =>
    unfold addParagraphs at added
    split at added
    · next declares =>
      split at added
      · cases added
      · next tables _ =>
        have same : sources (p :: rest) = sources rest := by simp [sources, declares]
        rw [same]
        exact @ih { program with tables } added
    · next asks =>
      split at added
      · cases added
      · next b compiled =>
        have first : sources (p :: rest) = p :: sources rest := by simp [sources, asks]
        obtain ⟨blocks, whole, count, each⟩ := ih added
        refine ⟨b :: blocks, by simp [whole], by simp [first, count], ?_⟩
        intro i p' b' there here
        rw [first] at there
        cases i with
        | zero =>
          cases there
          cases here
          exact compiled
        | succ i =>
          have later := each i p' b' there here
          simpa [Nat.add_assoc, Nat.add_comm 1] using later

/-- The blocks of a program are those of the paragraphs of its text, in order. -/
theorem blocks_of_compile {text : String} {program : Program} {paragraphs : List Paragraph}
    (compiled : compile text = .ok program) (read : readProgram text = .ok paragraphs) :
    program.blocks.length = (sources paragraphs).length ∧
      ∀ (i : Nat) (p : Paragraph) (b : Block),
        (sources paragraphs)[i]? = some p → program.blocks[i]? = some b →
          p.block (i + 1) = .ok b := by
  obtain ⟨others, reread, added⟩ := bind_eq_ok_iff.mp compiled
  cases read.symm.trans reread
  obtain ⟨blocks, whole, count, each⟩ := blocks_of_addParagraphs added
  rw [empty, List.nil_append] at whole
  refine ⟨whole ▸ count, ?_⟩
  intro i p b there here
  simpa [empty] using each i p b there (whole ▸ here)

end Program

end Ripple
