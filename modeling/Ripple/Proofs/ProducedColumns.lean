import Ripple.Proofs.CompiledBlocks
import Ripple.Proofs.OneRound
import Ripple.Proofs.Staleness

/-!
The columns that a block writes. What a block produces is read off the names in its text, while what it
touches is found in its tables when it runs. `Statement.Writes` says which registers a statement can touch
in the state in which its turn comes (`Turn`). The two agree for defined tables, for added rows and for a
column that has the name it is set under. A column that is set under its position is not produced, unless
the block writes it in some other way (`Paragraph.covers_iff`).
-/

namespace Ripple

namespace Program

/-! ## The turn of a statement -/

/-- When lines are carried out from one state, the turn of a line comes in another one. -/
inductive Turn : Workspace → List Line → Line → Workspace → Prop
  | now {w : Workspace} {line : Line} {rest : List Line} : Turn w (line :: rest) line w
  | later {w middle at_line : Workspace} {first line : Line} {rest : List Line}
      (ran : first.statement.run w = .ok middle) (turn : Turn middle rest line at_line) :
      Turn w (first :: rest) line at_line

theorem Turn.mem {w at_line : Workspace} {lines : List Line} {line : Line}
    (turn : Turn w lines line at_line) : line ∈ lines := by
  induction turn with
  | now => exact List.mem_cons_self
  | later _ _ ih => exact List.mem_cons_of_mem _ ih

/-! ## What statements write -/

/-- What a statement can touch in a state: any column of the table that it defines, the rows of the table
that it adds to, or the column that the name is resolved to. -/
inductive Statement.Writes (w : Workspace) : Statement → Register → Prop
  | define {table : String} {source : Source} {r : Register} (own : r.table = .of table) :
      Writes w (.define table source) r
  | append {table : String} {l : Literal} : Writes w (.append table l) (.any (.of table))
  | set {table name : String} {index : Option Expr} {op : SetOp} {value : Expr} {t : Table}
      {column : Nat} {c : Column} (found : w.find? (.of table) = some t)
      (resolved : findColumn t table (some name) = .ok column)
      (declared : t.columns[column]? = some c) :
      Writes w (.set table name index op value) ⟨.of table, some c.spec.id⟩

/-- All changes of the draft name registers of which something holds. -/
def Draft.Names (registers : Register → Prop) (d : Draft) : Prop :=
  ∀ change ∈ d.changes, ∃ r, change.register? = some r ∧ registers r

namespace Draft

variable {registers : Register → Prop} {d : Draft} {row column : Nat}

theorem names_ofTable (t : Table) : (ofTable t).Names registers := by
  rintro change ⟨⟩

namespace Names

theorem change (names : d.Names registers) {t : Table} {change : Change} {r : Register}
    (own : change.register? = some r) (holds : registers r) :
    (Draft.mk t (d.changes ++ [change])).Names registers := by
  intro other member
  rcases List.mem_append.mp member with old | new
  · exact names other old
  · obtain rfl := List.mem_singleton.mp new
    exact ⟨r, own, holds⟩

theorem setCell (names : d.Names registers)
    (holds : ∀ spec, d.table.specs[column]? = some spec → registers ⟨d.table.id, some spec.id⟩)
    (value : Value) : (d.setCell row column value).Names registers := by
  unfold Draft.setCell
  split
  · exact names
  · next c declared =>
    split
    · exact names
    · exact names.change rfl (holds c.spec (by simp [Table.specs, declared]))

theorem sets (names : d.Names registers) (holds : ∀ key, registers ⟨d.table.id, some key⟩)
    {e : Draft} (sets : d.Sets e) : e.Names registers := by
  induction sets with
  | refl => exact names
  | cell before _ ih => exact ih.setCell (fun spec _ => before.id_eq ▸ holds spec.id) _

theorem append (names : d.Names registers) (holds : registers (.any d.table.id)) (rows : List Row) :
    (d.append rows).Names registers := by
  unfold Draft.append
  split
  · exact names
  · exact names.change rfl holds

theorem setCells {op : SetOp} {table name : String} {kind : Kind} {after : Draft}
    (names : d.Names registers)
    (holds : ∀ spec, d.table.specs[column]? = some spec → registers ⟨d.table.id, some spec.id⟩)
    {given : List (Nat × Value)}
    (set : Program.setCells op table name column kind d given = .ok after) :
    after.Names registers := by
  induction given generalizing d with
  | nil =>
    cases set
    exact names
  | cons pair rest ih =>
    obtain ⟨value, -, set⟩ := bind_eq_ok_iff.mp set
    split at set
    · exact ih (names.setCell holds value) (by simpa using holds) set
    · cases set

end Names

end Draft

namespace Workspace

variable {w after : Workspace} {table : String} {t : Table} {d : Draft}

theorem names_setColumn {name : String} {index : Option Expr} {op : SetOp} {value : Expr}
    (set : w.setColumn table name index op value = .ok d) :
    d.Names ((Statement.set table name index op value).Writes w) := by
  obtain ⟨values, -, set⟩ := bind_eq_ok_iff.mp set
  obtain ⟨selector, -, set⟩ := bind_eq_ok_iff.mp set
  obtain ⟨t, found, set⟩ := bind_eq_ok_iff.mp set
  obtain ⟨column, resolved, set⟩ := bind_eq_ok_iff.mp set
  obtain ⟨rows, -, set⟩ := bind_eq_ok_iff.mp set
  obtain ⟨given, -, set⟩ := bind_eq_ok_iff.mp set
  rw [table_eq_ok_iff] at found
  refine (Draft.names_ofTable t).setCells ?_ set
  intro spec declared
  rw [Table.specs, List.getElem?_map] at declared
  obtain ⟨c, here, rfl⟩ := Option.map_eq_some_iff.mp declared
  rw [Draft.ofTable, id_of_find? found]
  exact .set found resolved here

theorem names_appendRows {l : Literal} (appended : w.appendRows table l = .ok d) :
    d.Names ((Statement.append table l).Writes w) := by
  obtain ⟨rows, t, arranged, -, found, -, -, rfl⟩ := appendRows_cases appended
  refine (Draft.names_ofTable t).append ?_ arranged
  rw [Draft.ofTable, id_of_find? found]
  exact .append

theorem names_newDraft {specs : List ColumnSpec} {registers : Register → Prop}
    (holds : registers (.any (.of table))) : (newDraft table specs).Names registers := by
  intro change member
  obtain rfl := List.mem_singleton.mp member
  exact ⟨_, rfl, holds⟩

theorem names_defineTable {source : Source} {names : List String} {rows : List Row}
    (defined : w.defineTable table names rows = .ok d) :
    d.Names ((Statement.define table source).Writes w) := by
  unfold Workspace.defineTable at defined
  split at defined
  · obtain ⟨-, rfl⟩ := createTable_cases defined
    exact (names_newDraft (.define rfl)).append (.define rfl) rows
  · next t found =>
    have own : t.id = .of table := id_of_find? found
    obtain ⟨arranged, -, -, -, sets, rfl⟩ := overwriteTable_cases defined
    refine ((Draft.names_ofTable t).sets (fun key => .define own) sets).append (.define ?_) _
    rw [sets.id_eq]
    exact own

/-- The changes that a statement adds name what it writes. -/
theorem names_of_run {s : Statement} (ran : s.run w = .ok after) :
    ∀ change ∈ after.changes,
      change ∈ w.changes ∨ ∃ r, change.register? = some r ∧ s.Writes w r := by
  obtain ⟨action, acts, result⟩ := bind_eq_ok_iff.mp ran
  cases result
  have adopted {d : Draft} (names : d.Names (s.Writes w)) : ∀ change ∈ (w.adopt d).changes,
      change ∈ w.changes ∨ ∃ r, change.register? = some r ∧ s.Writes w r := by
    intro change member
    exact (List.mem_append.mp member).imp_right (names change)
  cases s with
  | watch =>
    cases acts
    exact fun change => .inl
  | define table source =>
    obtain ⟨⟨names, rows⟩, -, acts⟩ := bind_eq_ok_iff.mp acts
    obtain ⟨d, defined, acts⟩ := bind_eq_ok_iff.mp acts
    cases acts
    exact adopted (names_defineTable defined)
  | set table column index op value =>
    obtain ⟨d, set, acts⟩ := bind_eq_ok_iff.mp acts
    cases acts
    exact adopted (names_setColumn set)
  | append table rows =>
    obtain ⟨d, appended, acts⟩ := bind_eq_ok_iff.mp acts
    cases acts
    exact adopted (names_appendRows appended)
  | assign name value =>
    obtain ⟨values, -, acts⟩ := bind_eq_ok_iff.mp acts
    cases acts
    exact fun change => .inl

/-- The changes that lines add name what one of them writes when its turn comes. -/
theorem names_of_runLines {lines : List Line} (ran : runLines w lines = .ok after) :
    ∀ change ∈ after.changes, change ∈ w.changes ∨
      ∃ line at_line r, Turn w lines line at_line ∧ change.register? = some r ∧
        line.statement.Writes at_line r := by
  induction lines generalizing w with
  | nil =>
    cases ran
    exact fun change => .inl
  | cons line rest ih =>
    obtain ⟨middle, first, ran⟩ := runLines_cons_eq_ok_iff.mp ran
    intro change member
    rcases ih ran change member with before | ⟨other, at_line, r, turn, own, writes⟩
    · exact (names_of_run first change before).imp_right fun ⟨r, own, writes⟩ =>
        ⟨line, w, r, .now, own, writes⟩
    · exact .inr ⟨other, at_line, r, .later first turn, own, writes⟩

end Workspace

/-! ## Paragraphs -/

/-- When its turn comes, a statement sets the column of the register under its position. -/
def Paragraph.PutsByPosition (p : Paragraph) (s : Store) (r : Register) : Prop :=
  ∃ line w table name index op value t column c,
    Turn (.start s) p.body line w ∧ line.statement = .set table name index op value ∧
      w.find? (.of table) = some t ∧ t.ByPosition (some name) ∧
      findColumn t table (some name) = .ok column ∧ t.columns[column]? = some c ∧
      r = ⟨.of table, some c.spec.id⟩

/-- The text says that the register is written: it defines the table, adds rows to it or sets the column
under a name with the identifier. -/
def Statement.Produces (s : Statement) (r : Register) : Prop :=
  ∃ table, Ident.of table = r.table ∧
    ((∃ source, s = .define table source) ∨ (∃ l, s = .append table l) ∨
      ∃ name index op value, s = .set table name index op value ∧ r.column = some (.of name))

theorem Statement.produces_iff {s : Statement} {r : Register} :
    s.Produces r ↔ s.produceRegister? = some r ∨ s.produceRegister? = some (.any r.table) := by
  obtain ⟨table, column⟩ := r
  cases s with
  | watch | assign => simp [Produces, produceRegister?]
  | define | append =>
    simp only [Produces, produceRegister?]
    grind [Register.any]
  | set =>
    simp only [Produces, produceRegister?]
    grind [Register.any, Register.named]

namespace Paragraph

variable {p : Paragraph} {number : Nat} {b : Block} {r : Register} {s : Store} {changes : List Change}

theorem mem_produce_iff (compiled : p.block number = .ok b) :
    r ∈ b.produce ↔ ∃ line ∈ p.lines, line.statement.produceRegister? = some r := by
  obtain ⟨_, -, result⟩ := bind_eq_ok_iff.mp compiled
  have listed : b.produce =
      keepFirst ((p.lines.map Line.statement).filterMap Statement.produceRegister?) := by
    dsimp only at result
    split at result <;> cases result <;> rfl
  simp [listed, mem_keepFirst]

/-- The block covers exactly the registers that one of its statements says it writes. -/
theorem covers_iff (compiled : p.block number = .ok b) :
    b.Covers r ↔ ∃ line ∈ p.lines, line.statement.Produces r := by
  simp only [Block.Covers, mem_produce_iff compiled, Statement.produces_iff, and_or_left, exists_or]

/-- What the block touches is written by one of its statements when its turn comes. -/
theorem writes_of_touched (compiled : p.block number = .ok b) (asked : b.routine s = .ok changes)
    (touched : TouchedBy s changes r) :
    ∃ line w, Turn (.start s) p.body line w ∧ line.statement.Writes w r := by
  rw [routine_of_block compiled, routine, evaluate] at asked
  cases ran : runLines (.start s) p.body with
  | error fault => simp [ran, bind, Except.bind, Except.mapError] at asked
  | ok after =>
    have same : after.changes = changes := by
      simpa [ran, bind, Except.bind, pure, Except.pure, Except.mapError] using asked
    have named : ∀ change ∈ changes, ∃ line w r, Turn (.start s) p.body line w ∧
        change.register? = some r ∧ line.statement.Writes w r := by
      intro change member
      rcases Workspace.names_of_runLines ran change (same ▸ member) with none | found
      · cases none
      · exact found
    obtain ⟨change, member, own⟩ := touched.register fun change member => by
      obtain ⟨line, w, r, -, own, -⟩ := named change member
      exact ⟨r, own⟩
    obtain ⟨line, w, r', turn, own', writes⟩ := named change member
    cases own.symm.trans own'
    exact ⟨line, w, turn, writes⟩

/-- A register is written by position, or the text says that it is written. -/
theorem produces_of_writes {line : Line} {w : Workspace} (turn : Turn (.start s) p.body line w)
    (writes : line.statement.Writes w r) : p.PutsByPosition s r ∨ line.statement.Produces r := by
  cases same : line.statement with
  | watch | assign =>
    rw [same] at writes
    cases writes
  | define table source =>
    rw [same] at writes
    cases writes with
    | define own => exact .inr ⟨table, own.symm, .inl ⟨source, rfl⟩⟩
  | append table l =>
    rw [same] at writes
    cases writes
    exact .inr ⟨table, rfl, .inr (.inl ⟨l, rfl⟩)⟩
  | set table name index op value =>
    rw [same] at writes
    cases writes with
    | @set _ _ _ _ _ t column c found resolved declared =>
      by_cases position : t.ByPosition (some name)
      · exact .inl ⟨line, w, table, name, index, op, value, t, column, c, turn, same, found, position,
          resolved, declared, rfl⟩
      · have names := names_of_findColumn resolved position
        rw [Table.Names, declared, Option.map_some] at names
        exact .inr ⟨table, rfl, .inr (.inr ⟨name, index, op, value, rfl, names⟩)⟩

theorem covers_of_touched (compiled : p.block number = .ok b) (asked : b.routine s = .ok changes)
    (touched : TouchedBy s changes r) : p.PutsByPosition s r ∨ b.Covers r := by
  obtain ⟨line, w, turn, writes⟩ := writes_of_touched compiled asked touched
  rw [covers_iff compiled]
  exact (produces_of_writes turn writes).imp_right fun produces =>
    ⟨line, (List.mem_filter.mp turn.mem).1, produces⟩

end Paragraph

/-- On the store no block of the paragraphs sets a column under its position. -/
def NamesOnly (paragraphs : List Paragraph) (s : Store) : Prop :=
  ∀ p ∈ sources paragraphs, ∀ r, ¬ p.PutsByPosition s r

theorem coversOn_of_namesOnly {text : String} {program : Program} {paragraphs : List Paragraph}
    (compiled : compile text = .ok program) (read : readProgram text = .ok paragraphs) {s : Store}
    (named : NamesOnly paragraphs s) : ∀ b ∈ program.blocks, b.CoversOn s := by
  intro b member changes r asked touched
  obtain ⟨count, each⟩ := blocks_of_compile compiled read
  obtain ⟨i, inside, rfl⟩ := List.getElem_of_mem member
  have source := List.getElem?_eq_getElem (count ▸ inside : i < (sources paragraphs).length)
  have own := each i _ _ source (List.getElem?_eq_getElem inside)
  exact (Paragraph.covers_of_touched own asked touched).resolve_left
    (named _ (List.mem_of_getElem? source) r)

/-- Where no column is set under a name that is a number, none is set under its position. -/
theorem namesOnly_of_not_numeric {paragraphs : List Paragraph}
    (words : ∀ p ∈ sources paragraphs, ∀ line ∈ p.lines, ∀ table name index op value,
      line.statement = .set table name index op value → position? name = none) (s : Store) :
    NamesOnly paragraphs s := by
  rintro p member r ⟨line, w, table, name, index, op, value, t, column, c, turn, same, -, position,
    resolved, -, -⟩
  have word := words p member line (List.mem_filter.mp turn.mem).1 table name index op value same
  have absent : t.columnIndex? (.of name) = none := position
  simp [findColumn, absent, word] at resolved

end Program

open Program

/-- **Blocks produce what they write by name.** On any store, each register that a compiled block touches
is covered by its produce set, or a statement of the block sets the column under its position; whichever
it is, it is covered exactly if the text defines the table, adds rows to it or sets the column under its
name. Hence a program without feedback edges takes one round at most, if no column is set under its
position on the way. -/
theorem touched_is_produced_unless_by_position {text : String} {program : Program}
    {paragraphs : List Paragraph} (compiled : compile text = .ok program)
    (read : readProgram text = .ok paragraphs) :
    (∀ (i : Nat) (p : Paragraph) (b : Block) (s : Store) (changes : List Change) (r : Register),
      (sources paragraphs)[i]? = some p → program.blocks[i]? = some b →
      b.routine s = .ok changes → TouchedBy s changes r →
        (¬ p.PutsByPosition s r → b.Covers r) ∧
          (b.Covers r ↔ ∃ line ∈ p.lines, line.statement.Produces r)) ∧
    ∀ (runner : Propagator) (s : Store), 1 ≤ runner.cap →
      (Graph.ofBlocks program.blocks).feedbackCount = 0 →
        (∀ changes, (∀ first q, carryOut s changes = .ok first → FiresTo program.blocks first q →
            NamesOnly paragraphs q) → runner.CommitsInOneRound program.blocks s changes) ∧
          ((∀ q, FiresTo program.blocks s q → NamesOnly paragraphs q) →
            runner.LoadsInOneRound program.blocks s) := by
  constructor
  · intro i p b s changes r source block asked touched
    have own := (blocks_of_compile compiled read).2 i p b source block
    exact ⟨(Paragraph.covers_of_touched own asked touched).resolve_left, Paragraph.covers_iff own⟩
  · intro runner s allowed forward
    constructor
    · intro changes named
      exact commitsInOneRound allowed forward fun first carried q leads =>
        coversOn_of_namesOnly compiled read (named first q carried leads)
    · intro named
      exact loadsInOneRound allowed forward fun q leads =>
        coversOn_of_namesOnly compiled read (named q leads)

/-! ## Two copies in a table, under names and under a position -/

/-- A paragraph that copies a column of a table to another one when it is written. -/
def copyPlan (line : Nat) (source target : String) : Paragraph :=
  ⟨none, line, [⟨line, .watch "t" (some source)⟩,
    ⟨line + 1, .set "t" target none .assign (.column "t" (some source))⟩]⟩

/-- Two copies after their table, of which the second one is to a column under some name. -/
def copyPlans (target : String) : List Paragraph :=
  [⟨none, 1, [⟨1, .define "t" (.literal
      ⟨["x", "y", "z"], [[.number .one, .number .zero, .number .zero]]⟩)⟩]⟩,
    copyPlan 3 "y" "z", copyPlan 6 "x" target]

/-- The block of such a paragraph. -/
def copyBlock (number line : Nat) (source target : String) : Block where
  name := s!"block-{number}"
  activation := .onWatch
  watch := [.named "t" source]
  produce := [.named "t" target]
  routine := routine [⟨line + 1, .set "t" target none .assign (.column "t" (some source))⟩]

def copyBlocks (target : String) : List Block :=
  [copyBlock 1 3 "y" "z", copyBlock 2 6 "x" target]

theorem blocks_copyPlans (target : String) :
    ∃ tables, addParagraphs empty (copyPlans target) = .ok ⟨tables, copyBlocks target⟩ :=
  ⟨_, rfl⟩

/-- The table once the program is loaded. -/
def threeCells : Table :=
  ⟨.of "t", "t", [⟨.named "x" .number, [.number .one]⟩, ⟨.named "y" .number, [.number .zero]⟩,
    ⟨.named "z" .number, [.number .zero]⟩], 1⟩

theorem threeCells_columns :
    threeCells.columnIndex? (.of "y") = some 1 ∧ (threeCells.specs.map ColumnSpec.id).Nodup := by
  decide +kernel

theorem tidy_threeCells : (Store.mk [threeCells]).Tidy where
  ascending := List.pairwise_singleton _ _
  tidy t member := by
    obtain rfl := List.mem_singleton.mp member
    refine ⟨?_, threeCells_columns.2⟩
    intro c inside
    simp only [threeCells, List.mem_cons, List.not_mem_nil, or_false] at inside
    obtain rfl | rfl | rfl := inside
    all_goals exact ⟨rfl, by simp [Value.kind, ColumnSpec.named]⟩

/-- What the second copy asks for, under whatever name, touches the column `y`. -/
theorem touched_threeCells :
    TouchedBy ⟨[threeCells]⟩ [.set (.of "t") 0 (.id (.of "y")) (.number .one)]
      (.named "t" "y") := by
  have found : (Store.mk [threeCells]).find? (.of "t") = some threeCells := by
    simp [Store.find?, threeCells]
  exact .here (.set (c := ⟨.named "y" .number, [.number .zero]⟩) found threeCells_columns.1 rfl rfl
    (by decide))

theorem namesOnly_copyPlans {target : String} (word : position? target = none) (s : Store) :
    NamesOnly (copyPlans target) s := by
  have sets {number : Nat} {source target : String} {line : Line}
      (inside : line ∈ (copyPlan number source target).lines) {table name : String}
      {index : Option Expr} {op : SetOp} {value : Expr}
      (same : line.statement = .set table name index op value) : name = target := by
    simp only [copyPlan, List.mem_cons, List.not_mem_nil, or_false] at inside
    obtain rfl | rfl := inside
    · cases same
    · cases same
      rfl
  refine namesOnly_of_not_numeric ?_ s
  intro p member line inside table name index op value same
  have member : p ∈ [copyPlan 3 "y" "z", copyPlan 6 "x" target] := member
  simp only [List.mem_cons, List.not_mem_nil, or_false] at member
  obtain rfl | rfl := member
  · rw [sets inside same]
    rfl
  · rw [sets inside same]
    exact word

/-- A number that the column `x` does not hold. -/
def five : Number := ⟨0x4014000000000000⟩

/-- Under its name the second copy feeds the first one. -/
theorem copies_named :
    (List.range 2).map (Graph.successorsOf (copyBlocks "y")) = [[], [0]] ∧
      (copyBlock 2 6 "x" "y").routine ⟨[threeCells]⟩ =
        .ok [.set (.of "t") 0 (.id (.of "y")) (.number .one)] ∧
      ((Propagator.ofCap 64).commit
        { Graph.ofBlocks (copyBlocks "y") with order := [1, 0], ranks := [1, 0] } ⟨[threeCells]⟩
        [.set (.of "t") 0 (.named "x") (.number five)]).2.toOption.map (fun entry =>
          (entry.rounds, entry.fired)) = some (1, ["block-2", "block-1"]) := by
  decide +kernel

/-- Under its position it feeds no block, although it does the same. -/
theorem copies_by_position :
    (List.range 2).map (Graph.successorsOf (copyBlocks "2")) = [[], []] ∧
      (copyBlock 2 6 "x" "2").routine ⟨[threeCells]⟩ =
        .ok [.set (.of "t") 0 (.id (.of "y")) (.number .one)] ∧
      ((Propagator.ofCap 64).commit
        { Graph.ofBlocks (copyBlocks "2") with order := [0, 1], ranks := [0, 1] } ⟨[threeCells]⟩
        [.set (.of "t") 0 (.named "x") (.number five)]).2.toOption.map (fun entry =>
          (entry.rounds, entry.fired)) = some (2, ["block-2", "block-1"]) ∧
      Ident.of "y" ≠ Ident.of "2" := by
  decide +kernel

/-- Under names all is covered, and one round is enough. -/
theorem touched_is_produced_named :
    ∃ program,
      compile "#t = [x y z | 1 0 0]\n\n~ #t.y\n#t.z := #t.y\n\n~ #t.x\n#t.y := #t.x" = .ok program ∧
      (∃ b changes, program.blocks[1]? = some b ∧ b.routine ⟨[threeCells]⟩ = .ok changes ∧
        TouchedBy ⟨[threeCells]⟩ changes (.named "t" "y") ∧ b.Covers (.named "t" "y")) ∧
      (Graph.ofBlocks program.blocks).feedbackCount = 0 ∧
      ((Propagator.ofCap 64).commit (.ofBlocks program.blocks) ⟨[threeCells]⟩
        [.set (.of "t") 0 (.named "x") (.number five)]).2.toOption.map (fun entry =>
          (entry.rounds, entry.fired)) = some (1, ["block-2", "block-1"]) ∧
      (Propagator.ofCap 64).CommitsInOneRound program.blocks ⟨[threeCells]⟩
        [.set (.of "t") 0 (.named "x") (.number five)] ∧
      (Propagator.ofCap 64).LoadsInOneRound program.blocks ⟨[threeCells]⟩ := by
  have read : readProgram "#t = [x y z | 1 0 0]\n\n~ #t.y\n#t.z := #t.y\n\n~ #t.x\n#t.y := #t.x" =
      .ok (copyPlans "y") := by cbv
  obtain ⟨tables, added⟩ := blocks_copyPlans "y"
  have compiled := bind_eq_ok_iff.mpr ⟨_, read, added⟩
  obtain ⟨successors, asked, figures⟩ := copies_named
  have ordered : Graph.evaluationOrder (fun v => [[], [0]].getD v []) 2 = [1, 0] := by cbv
  have forward : (Graph.ofBlocks (copyBlocks "y")).feedbackCount = 0 :=
    Graph.feedbackCount_of_order successors ordered rfl (by decide)
  have named : ∀ s, NamesOnly (copyPlans "y") s := namesOnly_copyPlans rfl
  obtain ⟨produces, settles⟩ := touched_is_produced_unless_by_position compiled read
  obtain ⟨commits, loads⟩ := settles (.ofCap 64) ⟨[threeCells]⟩ (by decide) forward
  refine ⟨_, compiled, ⟨_, _, rfl, asked, touched_threeCells, ?_⟩, forward, ?_, ?_, ?_⟩
  · have source : (sources (copyPlans "y"))[1]? = some (copyPlan 6 "x" "y") := rfl
    exact (produces 1 _ _ _ _ _ source rfl asked touched_threeCells).1
      (named _ _ (List.mem_of_getElem? source) _)
  · rw [Graph.ofBlocks_eq_of_order successors ordered rfl]
    exact figures
  · exact commits _ fun _ q _ _ => named q
  · exact loads fun q _ => named q

/-- Under its position the second copy is before the first one in no edge, and a second round is needed. -/
theorem position_is_not_produced :
    ∃ program,
      compile "#t = [x y z | 1 0 0]\n\n~ #t.y\n#t.z := #t.y\n\n~ #t.x\n#t.2 := #t.x" = .ok program ∧
      (Store.mk [threeCells]).Tidy ∧
      (∃ b changes, program.blocks[1]? = some b ∧ b.routine ⟨[threeCells]⟩ = .ok changes ∧
        TouchedBy ⟨[threeCells]⟩ changes (.named "t" "y") ∧ ¬ b.Covers (.named "t" "y")) ∧
      (Graph.ofBlocks program.blocks).feedbackCount = 0 ∧
      ((Propagator.ofCap 64).commit (.ofBlocks program.blocks) ⟨[threeCells]⟩
        [.set (.of "t") 0 (.named "x") (.number five)]).2.toOption.map (fun entry =>
          (entry.rounds, entry.fired)) = some (2, ["block-2", "block-1"]) := by
  have read : readProgram "#t = [x y z | 1 0 0]\n\n~ #t.y\n#t.z := #t.y\n\n~ #t.x\n#t.2 := #t.x" =
      .ok (copyPlans "2") := by cbv
  obtain ⟨tables, added⟩ := blocks_copyPlans "2"
  have compiled := bind_eq_ok_iff.mpr ⟨_, read, added⟩
  obtain ⟨successors, asked, figures, other⟩ := copies_by_position
  have ordered : Graph.evaluationOrder (fun v => [[], []].getD v []) 2 = [0, 1] := by cbv
  have forward : (Graph.ofBlocks (copyBlocks "2")).feedbackCount = 0 :=
    Graph.feedbackCount_of_order successors ordered rfl (by decide)
  refine ⟨_, compiled, tidy_threeCells, ⟨_, _, rfl, asked, touched_threeCells, ?_⟩, forward, ?_⟩
  · simp [Block.Covers, copyBlock, Register.named, Register.any, other]
  · rw [Graph.ofBlocks_eq_of_order successors ordered rfl]
    exact figures

end Ripple
