import Ripple.Proofs.BlockGraph
import Ripple.Proofs.Mentions
import Ripple.Proofs.Touches

/-!
When a block is woken by a change of a column that it follows. A written cell touches the register of
its column under the identifier of the column, while a block watches the identifiers of the names in
its text. The two agree for a name that a column has, and for a table named as a whole. A name that is
only a position is watched under an identifier that no column has: a cell written there does not wake
the block, unless the block follows the column in some other way (`woken_iff`).
-/

namespace Ripple

open Program

/-- The name stands for the column by its identifier; no name stands for every column. -/
def Table.Names (t : Table) (index : Nat) : Option String → Prop
  | none => True
  | some name => (t.columns[index]?).map (·.spec.id) = some (.of name)

/-- No column has the name, so that it can only be a position. -/
def Table.ByPosition (t : Table) : Option String → Prop
  | none => False
  | some name => t.columnIndex? (.of name) = none

variable {s : Store} {t : Table} {id : Ident} {row index : Nat}

/-! ## What a block sees -/

theorem registerOf_table (table : String) (column : Option String) :
    (registerOf table column).table = .of table := by
  cases column <;> rfl

/-- An append is seen through the table. -/
theorem any_overlaps_registerOf_iff {table : String} {column : Option String} :
    (Register.any id).overlaps (registerOf table column) ↔ .of table = id := by
  rw [overlaps_iff, registerOf_table]
  constructor
  · intro seen
    exact seen.1.symm
  · intro same
    exact ⟨same.symm, .inl rfl⟩

/-- A write to a column is seen through its identifier and through its table. -/
theorem overlaps_registerOf_iff {c : Column} {table : String} {column : Option String}
    (declared : t.columns[index]? = some c) :
    (⟨id, some c.spec.id⟩ : Register).overlaps (registerOf table column) ↔
      .of table = id ∧ t.Names index column := by
  rw [overlaps_iff, registerOf_table]
  refine and_congr eq_comm ?_
  cases column with
  | none => exact iff_of_true (.inr (.inl rfl)) trivial
  | some name =>
    rw [Table.Names, declared, Option.map_some]
    constructor
    · rintro (none | none | same)
      · cases none
      · cases none
      · exact same
    · intro same
      exact .inr (.inr same)

/-- The watchers of a register are the blocks whose paragraphs follow a column of it. -/
theorem mem_watchers_of_compile {text : String} {program : Program} {paragraphs : List Paragraph}
    (compiled : compile text = .ok program) (read : readProgram text = .ok paragraphs) {i : Nat}
    {p : Paragraph} (source : (sources paragraphs)[i]? = some p) {r : Register} :
    i ∈ (Graph.ofBlocks program.blocks).watchers r ↔
      ∃ t c, p.Follows t c ∧ r.overlaps (registerOf t c) := by
  obtain ⟨count, each⟩ := blocks_of_compile compiled read
  have inside : i < program.blocks.length := by
    rw [count]
    exact (List.getElem?_eq_some_iff.mp source).1
  have there := List.getElem?_eq_getElem inside
  have own := each i p _ source there
  rw [Graph.mem_watchers_iff, ← Paragraph.block_watches_iff own]
  constructor
  · rintro ⟨b, here, watches⟩
    obtain rfl := Option.some.inj (there.symm.trans here)
    exact watches
  · intro watches
    exact ⟨_, there, watches⟩

/-- A name that is resolved stands for the column by its identifier, or by position only. -/
theorem names_of_findColumn {table : String} {column : Option String}
    (resolved : findColumn t table column = .ok index) (named : ¬ t.ByPosition column) :
    t.Names index column := by
  cases column with
  | none => trivial
  | some name =>
    cases found : t.columnIndex? (.of name) with
    | none => exact absurd found named
    | some first =>
      simp only [findColumn, found] at resolved
      cases resolved
      obtain ⟨inside, same, -⟩ := List.findIdx?_eq_some_iff_getElem.mp found
      simpa [Table.Names, inside] using same

/-- A changed cell wakes a block exactly if rows were appended or the block follows the column of the
cell by its identifier or by its table. -/
theorem woken_iff {text : String} {program : Program} {paragraphs : List Paragraph}
    (compiled : compile text = .ok program) (read : readProgram text = .ok paragraphs) {i : Nat}
    {p : Paragraph} (source : (sources paragraphs)[i]? = some p) (found : s.find? id = some t)
    (some : ∃ table column, p.Follows table column ∧ .of table = id) {change : Change}
    {outcome : Outcome} (applied : change.apply s = .ok outcome)
    (changed : outcome.store.cell? id row index ≠ s.cell? id row index) :
    (∃ r ∈ outcome.touched, i ∈ (Graph.ofBlocks program.blocks).watchers r) ↔
      (∃ rows, change = .append id rows) ∨
        ∃ table column, p.Follows table column ∧ .of table = id ∧ t.Names index column := by
  simp only [mem_watchers_of_compile compiled read source]
  rcases Change.touched_of_cell_ne applied changed with
    ⟨⟨_, _, _, rfl⟩, u, c, again, declared, touched⟩ | ⟨appends, touched⟩
  · obtain rfl := Option.some.inj (found.symm.trans again)
    rw [touched]
    constructor
    · rintro ⟨r, member, table, column, follows, seen⟩
      obtain rfl := List.mem_singleton.mp member
      exact .inr ⟨table, column, follows, (overlaps_registerOf_iff declared).mp seen⟩
    · rintro (⟨rows, ⟨⟩⟩ | ⟨table, column, follows, named⟩)
      exact ⟨_, List.mem_singleton_self _, table, column, follows,
        (overlaps_registerOf_iff declared).mpr named⟩
  · obtain ⟨table, column, follows, same⟩ := some
    rw [touched]
    refine iff_of_true ⟨_, List.mem_singleton_self _, table, column, follows, ?_⟩ (.inl appends)
    exact any_overlaps_registerOf_iff.mpr same

/-- **Blocks follow identifiers, not positions.** Let a block follow a column, by a watch statement or,
if it has none, by an expression or a compound assignment that reads it, and let a change alter a cell
of the column that the name is resolved to. The block is then among the watchers of what the change
touched, unless the name is a position only. Whatever the name, it is among them exactly if the change
appended rows or the block follows the table as a whole or the column by its identifier. -/
theorem changed_cell_wakes_unless_by_position {text : String} {program : Program}
    {paragraphs : List Paragraph} (compiled : compile text = .ok program)
    (read : readProgram text = .ok paragraphs) {i : Nat} {p : Paragraph}
    (source : (sources paragraphs)[i]? = some p) {table : String} {column : Option String}
    (follows : p.Follows table column) (found : s.find? (.of table) = some t)
    (resolved : findColumn t table column = .ok index) {change : Change} {outcome : Outcome}
    (applied : change.apply s = .ok outcome)
    (changed : outcome.store.cell? (.of table) row index ≠ s.cell? (.of table) row index) :
    (¬ t.ByPosition column →
      ∃ r ∈ outcome.touched, i ∈ (Graph.ofBlocks program.blocks).watchers r) ∧
    ((∃ r ∈ outcome.touched, i ∈ (Graph.ofBlocks program.blocks).watchers r) ↔
      (∃ rows, change = .append (.of table) rows) ∨
        ∃ table' column', p.Follows table' column' ∧ .of table' = Ident.of table ∧
          t.Names index column') := by
  have woken := woken_iff compiled read source found ⟨table, column, follows, rfl⟩ applied changed
  refine ⟨fun named => woken.mpr (.inr ⟨table, column, follows, rfl, ?_⟩), woken⟩
  exact names_of_findColumn resolved named

/-! ## A formula that reads one column, by its name and by its position -/

/-- A formula that reads a column under a name. -/
def readingBlock (column : String) : Paragraph :=
  ⟨none, 3, [⟨3, .define "s" (.formula (.binary .add (.column "t" (some column)) (.number .one)))⟩]⟩

/-- The formula after a table with one column. -/
def reading (column : String) : List Paragraph :=
  [⟨none, 1, [⟨1, .define "t" (.literal ⟨["x"], [[.number .one]]⟩)⟩]⟩, readingBlock column]

theorem sources_reading (column : String) :
    (sources (reading column))[0]? = some (readingBlock column) := rfl

theorem follows_reading {column : String} {t : String} {c : Option String} :
    (readingBlock column).Follows t c ↔ t = "t" ∧ c = some column := by
  constructor
  · rintro (⟨line, member, watch⟩ | ⟨-, line, member, mentions⟩)
    · obtain rfl := List.mem_singleton.mp member
      cases watch
    · obtain rfl := List.mem_singleton.mp member
      cases mentions with
      | formula inner =>
        cases inner with
        | left inner =>
          cases inner
          exact ⟨rfl, rfl⟩
        | right inner => cases inner
  · rintro ⟨rfl, rfl⟩
    refine .inr ⟨?_, _, List.mem_singleton_self _, .formula (.left .column)⟩
    intro line member
    obtain rfl := List.mem_singleton.mp member
    rfl

/-- The table once the program is loaded. -/
def numbers : Table := ⟨.of "t", "t", [⟨.named "x" .number, [.number .one]⟩], 1⟩

theorem found_numbers : (Store.mk [numbers]).find? (.of "t") = some numbers := by
  simp [Store.find?, numbers]

theorem sound_numbers : (Store.mk [numbers]).Sound := by
  refine Store.sound_single ?_
  intro c member
  obtain rfl := List.mem_singleton.mp member
  exact ⟨rfl, by simp [Value.kind, ColumnSpec.named]⟩

theorem columnIndex_numbers : numbers.columnIndex? (.of "x") = some 0 := by
  simp [Table.columnIndex?, numbers, ColumnSpec.named]

theorem of_x_ne_of_1 : Ident.of "x" ≠ Ident.of "1" := by decide +kernel

theorem columnIndex_numbers_position : numbers.columnIndex? (.of "1") = none := by
  simp [Table.columnIndex?, numbers, ColumnSpec.named, of_x_ne_of_1]

/-- Clearing the only cell alters it and touches its column. -/
theorem clear_numbers :
    ∃ outcome, (Change.set (.of "t") 0 (.named "x") (.number .zero)).apply ⟨[numbers]⟩ =
        .ok outcome ∧
      outcome.store.cell? (.of "t") 0 0 ≠ (Store.mk [numbers]).cell? (.of "t") 0 0 ∧
      outcome.touched = [⟨.of "t", some (.of "x")⟩] := by
  have leads : Change.Leads ⟨[numbers]⟩ (.set (.of "t") 0 (.named "x") (.number .zero))
      ⟨(Store.mk [numbers]).put (numbers.put 0 0 (.number .zero)),
        [.cell (.of "t") 0 0 (some (.number .one)) (.number .zero)],
        [⟨.of "t", some (.of "x")⟩]⟩ :=
    .written (t := numbers) (c := ⟨.named "x" .number, [.number .one]⟩) found_numbers
      columnIndex_numbers rfl rfl (by decide) rfl
  refine ⟨_, (Change.apply_eq_ok_iff sound_numbers _).mpr leads, ?_, rfl⟩
  dsimp only
  rw [Store.cell_put_self (by rfl), Store.cell_of_find? found_numbers]
  decide

/-- Under its name the column wakes the formula. -/
theorem changed_cell_wakes_named :
    ∃ program outcome, compile "#t = [x | 1]\n\n#s = #t.x + 1" = .ok program ∧
      (Change.set (.of "t") 0 (.named "x") (.number .zero)).apply ⟨[numbers]⟩ = .ok outcome ∧
      ∃ r ∈ outcome.touched, 0 ∈ (Graph.ofBlocks program.blocks).watchers r := by
  have read : readProgram "#t = [x | 1]\n\n#s = #t.x + 1" = .ok (reading "x") := by cbv
  obtain ⟨program, added⟩ : ∃ program, addParagraphs empty (reading "x") = .ok program := ⟨_, rfl⟩
  have compiled : compile "#t = [x | 1]\n\n#s = #t.x + 1" = .ok program :=
    bind_eq_ok_iff.mpr ⟨_, read, added⟩
  obtain ⟨outcome, applied, changed, -⟩ := clear_numbers
  have resolved : findColumn numbers "t" (some "x") = .ok 0 := by
    simp only [findColumn, columnIndex_numbers]
  have woken := changed_cell_wakes_unless_by_position compiled read (sources_reading "x")
    (follows_reading.mpr ⟨rfl, rfl⟩) found_numbers resolved applied changed
  exact ⟨program, outcome, compiled, applied, woken.1 (by
    rw [Table.ByPosition, columnIndex_numbers]
    rintro ⟨⟩)⟩

/-- Under its position it does not, although the formula reads it. -/
theorem position_does_not_wake :
    ∃ program outcome, compile "#t = [x | 1]\n\n#s = #t.1 + 1" = .ok program ∧
      readProgram "#t = [x | 1]\n\n#s = #t.1 + 1" = .ok (reading "1") ∧
      (sources (reading "1"))[0]? = some (readingBlock "1") ∧
      (readingBlock "1").Follows "t" (some "1") ∧
      (Store.mk [numbers]).find? (.of "t") = some numbers ∧
      findColumn numbers "t" (some "1") = .ok 0 ∧
      (Change.set (.of "t") 0 (.named "x") (.number .zero)).apply ⟨[numbers]⟩ = .ok outcome ∧
      outcome.store.cell? (.of "t") 0 0 ≠ (Store.mk [numbers]).cell? (.of "t") 0 0 ∧
      ∀ r ∈ outcome.touched, 0 ∉ (Graph.ofBlocks program.blocks).watchers r := by
  have read : readProgram "#t = [x | 1]\n\n#s = #t.1 + 1" = .ok (reading "1") := by cbv
  obtain ⟨program, added⟩ : ∃ program, addParagraphs empty (reading "1") = .ok program := ⟨_, rfl⟩
  have compiled : compile "#t = [x | 1]\n\n#s = #t.1 + 1" = .ok program :=
    bind_eq_ok_iff.mpr ⟨_, read, added⟩
  obtain ⟨outcome, applied, changed, touched⟩ := clear_numbers
  have resolved : findColumn numbers "t" (some "1") = .ok 0 := by
    simp only [findColumn, columnIndex_numbers_position]
    rfl
  have follows : (readingBlock "1").Follows "t" (some "1") := follows_reading.mpr ⟨rfl, rfl⟩
  have woken := woken_iff compiled read (sources_reading "1") found_numbers ⟨_, _, follows, rfl⟩
    applied changed
  refine ⟨program, outcome, compiled, read, sources_reading "1", follows, found_numbers, resolved,
    applied, changed, ?_⟩
  intro r member here
  rcases woken.mp ⟨r, member, here⟩ with ⟨rows, ⟨⟩⟩ | ⟨table, column, other, -, named⟩
  obtain ⟨rfl, rfl⟩ := follows_reading.mp other
  exact of_x_ne_of_1 (Option.some.inj named)

end Ripple
