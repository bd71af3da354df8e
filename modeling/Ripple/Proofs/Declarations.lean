import Mathlib.Data.List.Forall2
import Ripple.Session
import Ripple.Proofs.CompiledBlocks

/-!
Declared tables and defined tables. A paragraph of constant definitions is checked when a program is
compiled, and its tables are made when the program is loaded; as a block the same lines would be checked and
carried out when they run. The rows of a literal that was read are all of one length, so that what is left
to check are the kinds of their cells, and this both do against the first row (`createTable_eq_ok_iff`).
-/

namespace Ripple.Program

variable {table : String} {names : List String} {rows : List Row} {row : Row}

/-! ## Kinds -/

/-- A row fits columns exactly if it has their kinds. -/
theorem checkRow_eq_ok_iff {specs : List ColumnSpec} :
    checkRow table specs row = .ok () ↔ row.map Value.kind = specs.map ColumnSpec.kind := by
  have kinds : ∀ (specs : List ColumnSpec) (row : Row), row.length = specs.length →
      (checkKinds table specs row = .ok () ↔ row.map Value.kind = specs.map ColumnSpec.kind) := by
    intro specs
    induction specs with
    | nil =>
      intro row width
      obtain rfl := List.length_eq_zero_iff.mp width
      simp [checkKinds]
    | cons spec specs ih =>
      intro row width
      cases row with
      | nil => cases width
      | cons value values =>
        by_cases same : spec.kind = value.kind
        · simp [checkKinds, same, ih values (Nat.succ.inj width)]
        · simp [checkKinds, same, Ne.symm same]
  unfold checkRow
  split
  · next width => exact kinds specs row width
  · next width =>
    constructor
    · intro none
      cases none
    · intro same
      exact absurd (by simpa using congrArg List.length same) width

/-- What a table is made of: rows that are not empty, each as long as there are columns, which have the
kinds of the first row. -/
structure Uniform (names : List String) (rows : List Row) : Prop where
  nonempty : ∀ row ∈ rows, row ≠ []
  width : ∀ row ∈ rows, row.length = (newSpecs names rows).length
  kinds : rows ≠ [] → (newSpecs names rows).map ColumnSpec.kind = (rows.headD []).map Value.kind

theorem kinds_newSpecs {rest : List Row} (width : names = [] ∨ names.length = row.length) :
    (newSpecs names (row :: rest)).map ColumnSpec.kind = row.map Value.kind := by
  unfold newSpecs
  dsimp only
  split
  · refine List.ext_getElem (by simp) fun i _ _ => ?_
    simp [ColumnSpec.positional, ColumnSpec.named]
  · next given =>
    have long : names.length = row.length := width.resolve_left (by simpa using given)
    refine List.ext_getElem (by simp [long]) fun i _ _ => ?_
    simp [ColumnSpec.named]

/-- The rows of a source are as long as the first one, and as a header if there is one. -/
theorem lengths_of_eval {source : Source} {w : Workspace} (formed : source.Formed)
    (evaluated : source.eval w = .ok (names, rows)) {first : Row} (head : first ∈ rows) :
    (names = [] ∨ names.length = first.length) ∧ ∀ row ∈ rows, row.length = first.length := by
  cases source with
  | literal l =>
    obtain ⟨values, literal, result⟩ := bind_eq_ok_iff.mp evaluated
    cases result
    have written : ∀ row ∈ rows, row.length = l.width := by
      intro row member
      have length : row.length ∈ l.rows.map List.length :=
        Literal.lengths_of_eval literal ▸ List.mem_map_of_mem member
      obtain ⟨cells, inside, same⟩ := List.mem_map.mp length
      exact same.symm.trans (Literal.Formed.width formed cells inside)
    refine ⟨?_, fun row member => (written row member).trans (written first head).symm⟩
    rw [written first head, Literal.width]
    cases l.columns <;> simp
  | formula e =>
    obtain ⟨values, -, result⟩ := bind_eq_ok_iff.mp evaluated
    cases result
    have single : ∀ row ∈ values.map ([·]), row.length = 1 := by simp
    exact ⟨.inl rfl, fun row member => (single row member).trans (single first head).symm⟩

theorem uniform_of_eval {source : Source} {w : Workspace} (formed : source.Formed)
    (evaluated : source.eval w = .ok (names, rows)) : Uniform names rows := by
  have nonempty := (Source.eval_spec formed evaluated).1
  cases rows with
  | nil => exact ⟨nonempty, by simp, fun some => absurd rfl some⟩
  | cons first rest =>
    obtain ⟨width, all⟩ := lengths_of_eval formed evaluated List.mem_cons_self
    have kinds : (newSpecs names (first :: rest)).map ColumnSpec.kind = first.map Value.kind :=
      kinds_newSpecs width
    have columns : (newSpecs names (first :: rest)).length = first.length := by
      simpa using congrArg List.length kinds
    exact ⟨nonempty, fun row member => (all row member).trans columns.symm, fun _ => kinds⟩

theorem uniform_of_constants {source : Source} (formed : source.Formed)
    (constants : source.constants? = some (names, rows)) : Uniform names rows :=
  uniform_of_eval formed (eval_of_constants constants (.start .empty))

theorem forall_zip_iff_map {kinds : List Kind} (width : row.length = kinds.length) :
    (∀ p ∈ row.zip kinds, p.1.kind = p.2) ↔ row.map Value.kind = kinds := by
  rw [← List.forall₂_eq_eq_eq, List.forall₂_map_left_iff, List.forall₂_iff_zip]
  simp [width]

/-- Both checks ask for the kinds of the columns. -/
theorem mixedKinds?_eq_none_iff (uniform : Uniform names rows) :
    mixedKinds? table ((rows.headD []).map Value.kind) rows = none ↔
      ∀ row ∈ rows, checkRow table (newSpecs names rows) row = .ok () := by
  have mixed : mixedKinds? table ((rows.headD []).map Value.kind) rows = none ↔
      ∀ row ∈ rows, ∀ p ∈ row.zip ((rows.headD []).map Value.kind), p.1.kind = p.2 :=
    findSome?_zipIdx_eq_none_iff (fun row r =>
      findSome?_zipIdx_eq_none_iff (fun p c => by simp) _ 1) rows 1
  rw [mixed]
  refine forall₂_congr fun row member => ?_
  have kinds := uniform.kinds (List.ne_nil_of_mem member)
  rw [checkRow_eq_ok_iff, ← kinds]
  exact forall_zip_iff_map (by simpa using uniform.width row member)

/-! ## Installing -/

namespace Declaration

variable {d : Declaration} {s : Store}

/-- The rows can be added to the table. -/
def Fits (d : Declaration) : Prop := (Table.empty d.id d.name d.specs).checkRows d.rows = .ok ()

/-- The declared table with the changes that make it. -/
def draft (d : Declaration) : Draft :=
  Draft.append ⟨.empty d.id d.name d.specs, [.define d.id d.name d.specs]⟩ d.rows

theorem table_draft (d : Declaration) :
    d.draft.table = (Table.empty d.id d.name d.specs).extend d.rows :=
  Draft.table_append _ _

theorem id_draft (d : Declaration) : d.draft.table.id = d.id := by
  rw [table_draft]
  rfl

theorem Fits.regular (fits : d.Fits) : d.draft.table.Regular := by
  rw [table_draft]
  exact Table.regular_extend (Table.regular_empty _ _ _) fun row member =>
    Table.checkRow_of_checkRows fits member

theorem Fits.create (fits : d.Fits) (absent : s.find? d.id = none) :
    s.create d.id d.name d.specs d.rows = .ok (s.put d.draft.table) := by
  unfold Fits at fits
  rw [Store.create, Store.contains_eq_false_iff.mpr absent, table_draft]
  simp [Table.append, fits, bind, Except.bind, pure, Except.pure]

/-- A table is made by its changes where it is not there yet. This does not go by `Draft.From`, since its
columns may have the same identifier. -/
theorem Fits.carryOut (fits : d.Fits) (sound : s.Sound) (absent : s.find? d.id = none) :
    carryOut s d.draft.changes = .ok (s.put d.draft.table) := by
  have first := (Change.apply_eq_ok_iff sound (.define d.id d.name d.specs)).mpr (.created absent)
  rw [table_draft, draft, Draft.append]
  split
  · next none =>
    rw [List.isEmpty_iff.mp none, Table.extend_nil]
    simp [Ripple.carryOut, first, bind, Except.bind]
  · next some =>
    rw [List.isEmpty_iff] at some
    have placed : (s.put (.empty d.id d.name d.specs)).Sound :=
      Store.sound_put sound (Table.regular_empty _ _ _)
    have second := (Change.apply_eq_ok_iff placed (.append d.id d.rows)).mpr
      (.appended (Store.find?_put_self rfl) some fits)
    have same : (Table.empty d.id d.name d.specs).id =
        ((Table.empty d.id d.name d.specs).extend d.rows).id := rfl
    rw [Store.put_put _ same] at second
    rw [List.singleton_append]
    simp only [Ripple.carryOut, first, bind, Except.bind]
    exact second ▸ rfl

end Declaration

/-- Tables that fit and are not there yet can be created, with the result of the changes that make
them. -/
theorem declareAll_of_fits {s : Store} {ds : List Declaration} (sound : s.Sound)
    (fits : ∀ d ∈ ds, d.Fits) (absent : ∀ d ∈ ds, s.find? d.id = none)
    (distinct : (ds.map Declaration.id).Nodup) :
    ∃ r, Session.declareAll s ds = .ok r ∧ carryOut s (ds.flatMap (·.draft.changes)) = .ok r := by
  induction ds generalizing s with
  | nil => exact ⟨s, rfl, rfl⟩
  | cons d ds ih =>
    obtain ⟨fit, fits⟩ := List.forall_mem_cons.mp fits
    obtain ⟨new, absent⟩ := List.forall_mem_cons.mp absent
    obtain ⟨once, distinct⟩ := List.nodup_cons.mp distinct
    have later : ∀ other ∈ ds, (s.put d.draft.table).find? other.id = none := by
      intro other member
      rw [Store.find?_put, if_neg]
      · exact absent other member
      · rw [d.id_draft]
        exact fun same => once (List.mem_map.mpr ⟨other, member, same.symm⟩)
    obtain ⟨r, created, carried⟩ := ih (Store.sound_put sound fit.regular) fits later distinct
    refine ⟨r, ?_, ?_⟩
    · rw [Session.declareAll, fit.create new]
      exact created
    · rw [List.flatMap_cons, carryOut_append (fit.carryOut sound new), carried]

/-! ## Lines -/

theorem createTable_eq (fit : ∀ row ∈ rows, checkRow table (newSpecs names rows) row = .ok ()) :
    createTable table names rows =
      .ok (Declaration.mk (.of table) table (newSpecs names rows) rows).draft := by
  have checked := forM_eq_ok_iff.mpr fit
  simp only [createTable, checked]
  rfl

/-- A table can be created from constants if and only if they declare it. -/
theorem createTable_eq_ok_iff (uniform : Uniform names rows) {e : Draft} :
    createTable table names rows = .ok e ↔ ∃ d, declare table names rows = .ok d ∧ e = d.draft := by
  simp only [declare_eq_ok_iff, mixedKinds?_eq_none_iff uniform]
  constructor
  · intro created
    obtain ⟨_, checked, -⟩ := bind_eq_ok_iff.mp created
    have fit := forM_eq_ok_iff.mp checked
    exact ⟨_, ⟨fit, rfl⟩, Except.ok.inj (created.symm.trans (createTable_eq fit))⟩
  · rintro ⟨d, ⟨fit, rfl⟩, rfl⟩
    exact createTable_eq fit

/-- Rows that fit columns of their kinds can be added to a table of these columns. -/
theorem Uniform.fits (uniform : Uniform names rows)
    (fit : ∀ row ∈ rows, checkRow table (newSpecs names rows) row = .ok ()) :
    (Declaration.mk (.of table) table (newSpecs names rows) rows).Fits := by
  have checked : ∀ row ∈ rows,
      (Table.empty (.of table) table (newSpecs names rows)).checkRow row = .ok () :=
    (Workspace.createTable_cases (createTable_eq fit)).1
  cases rows with
  | nil => simp [Declaration.Fits, Table.checkRows, pure, Except.pure]
  | cons row rest =>
    have columns := (Table.ne_nil_iff_of_checkRow (checked row List.mem_cons_self)).mp
      (uniform.nonempty row List.mem_cons_self)
    exact Table.checkRows_eq_ok columns checked

namespace Line

variable {line : Line} {d : Declaration} {w after : Workspace}

theorem Declares.fits (declares : line.Declares d) (formed : line.statement.Formed) : d.Fits := by
  obtain ⟨table, source, names, rows, same, known⟩ := exists_of_constants declares.constant
  have uniform : Uniform names rows := uniform_of_constants (by rwa [same] at formed) known
  obtain ⟨even, rfl⟩ := declare_eq_ok_iff.mp ((declares_iff same known).mp declares)
  exact uniform.fits ((mixedKinds?_eq_none_iff uniform).mp even)

theorem Declares.produces (declares : line.Declares d) :
    line.statement.produceRegister? = some (.any d.id) := by
  obtain ⟨table, source, names, rows, same, known⟩ := exists_of_constants declares.constant
  obtain ⟨-, rfl⟩ := declare_eq_ok_iff.mp ((declares_iff same known).mp declares)
  rw [same]
  rfl

/-- A line of constants runs if and only if it declares a table, and then drafts this table, as long as
it is not there yet. -/
theorem run_eq_ok_iff (formed : line.statement.Formed) (constant : line.statement.constants?.isSome)
    (absent : ∀ r, line.statement.produceRegister? = some r → w.find? r.table = none) :
    line.statement.run w = .ok after ↔ ∃ d, line.Declares d ∧ after = w.adopt d.draft := by
  obtain ⟨table, source, names, rows, same, known⟩ := exists_of_constants constant
  have uniform : Uniform names rows := uniform_of_constants (by rwa [same] at formed) known
  have new : w.find? (.of table) = none := absent (.any (.of table)) (by rw [same]; rfl)
  have acts : line.statement.action w = createTable table names rows >>= fun e => .ok (.write e) := by
    rw [same]
    simp only [Statement.action, eval_of_constants known, Workspace.defineTable, new]
    rfl
  rw [Statement.run, bind_eq_ok_iff, acts]
  constructor
  · rintro ⟨_, wrote, ran⟩
    obtain ⟨e, created, drafts⟩ := bind_eq_ok_iff.mp wrote
    cases drafts
    cases ran
    obtain ⟨d, declared, rfl⟩ := (createTable_eq_ok_iff uniform).mp created
    exact ⟨d, (declares_iff same known).mpr declared, rfl⟩
  · rintro ⟨d, declares, rfl⟩
    have created : createTable table names rows = .ok d.draft :=
      (createTable_eq_ok_iff uniform).mpr ⟨d, (declares_iff same known).mp declares, rfl⟩
    exact ⟨.write d.draft, bind_eq_ok_iff.mpr ⟨_, created, rfl⟩, rfl⟩

end Line

/-! ## Paragraphs -/

variable {lines : List Line} {before tables ds : List Declaration} {w after : Workspace}

/-- Lines that define different tables by constants, none of which the block finds. -/
structure Fresh (w : Workspace) (lines : List Line) : Prop where
  formed : ∀ line ∈ lines, line.statement.Formed
  constant : ∀ line ∈ lines, line.statement.constants?.isSome
  distinct : (lines.map fun line => line.statement.produceRegister?).Nodup
  absent : ∀ line ∈ lines, ∀ r, line.statement.produceRegister? = some r → w.find? r.table = none

/-- When one of the tables was made, the others still are to be. -/
theorem Fresh.adopt {line : Line} {rest : List Line} {d : Declaration} (fresh : Fresh w (line :: rest))
    (declares : line.Declares d) : Fresh (w.adopt d.draft) rest where
  formed := fun other member => fresh.formed other (List.mem_cons_of_mem _ member)
  constant := fun other member => fresh.constant other (List.mem_cons_of_mem _ member)
  distinct := (List.nodup_cons.mp fresh.distinct).2
  absent other member r produces := by
    rw [Workspace.find?_adopt, d.id_draft, if_neg]
    · exact fresh.absent other (List.mem_cons_of_mem _ member) r produces
    · intro same
      obtain ⟨table, source, -, -, defines, -⟩ :=
        exists_of_constants (fresh.constant other (List.mem_cons_of_mem _ member))
      have whole : r = .any r.table := by
        rw [defines] at produces
        cases produces
        rfl
      have again : other.statement.produceRegister? = line.statement.produceRegister? := by
        rw [produces, declares.produces, whole, same]
      exact (List.nodup_cons.mp fresh.distinct).1 (List.mem_map.mpr ⟨other, member, again⟩)

/-- Lines of constants run if and only if each of them declares a table, and then draft these tables. -/
theorem runLines_eq_ok_iff (fresh : Fresh w lines) :
    runLines w lines = .ok after ↔
      ∃ ds, List.Forall₂ Line.Declares lines ds ∧
        after = ds.foldl (fun w d => w.adopt d.draft) w := by
  induction lines generalizing w with
  | nil => simp [runLines, eq_comm]
  | cons line rest ih =>
    have here : ∀ middle, line.statement.run w = .ok middle ↔
        ∃ d, line.Declares d ∧ middle = w.adopt d.draft := fun _ =>
      Line.run_eq_ok_iff (fresh.formed line List.mem_cons_self)
        (fresh.constant line List.mem_cons_self) (fresh.absent line List.mem_cons_self)
    rw [runLines_cons_eq_ok_iff]
    constructor
    · rintro ⟨middle, first, ran⟩
      obtain ⟨d, declares, rfl⟩ := (here middle).mp first
      obtain ⟨ds, others, rfl⟩ := (ih (fresh.adopt declares)).mp ran
      exact ⟨d :: ds, .cons declares others, rfl⟩
    · rintro ⟨_, all, rfl⟩
      cases all with
      | @cons _ d _ ds declares others =>
        exact ⟨w.adopt d.draft, (here _).mpr ⟨d, declares, rfl⟩,
          (ih (fresh.adopt declares)).mpr ⟨ds, others, rfl⟩⟩

theorem exists_forall₂_declares_iff :
    (∃ ds, List.Forall₂ Line.Declares lines ds) ↔ ∀ line ∈ lines, ∃ d, line.Declares d := by
  induction lines with
  | nil => simp
  | cons line rest ih =>
    rw [List.forall_mem_cons, ← ih]
    constructor
    · rintro ⟨_, all⟩
      cases all with
      | cons declares others => exact ⟨⟨_, declares⟩, _, others⟩
    · rintro ⟨⟨d, declares⟩, ds, others⟩
      exact ⟨d :: ds, .cons declares others⟩

theorem changes_foldl_adopt :
    (ds.foldl (fun w d => w.adopt d.draft) w).changes =
      w.changes ++ ds.flatMap fun d => d.draft.changes := by
  induction ds generalizing w with
  | nil => simp
  | cons d ds ih =>
    rw [List.foldl_cons, ih, List.flatMap_cons, ← List.append_assoc]
    rfl

/-- What different lines declare is added to what was declared before. -/
theorem declareLines_of_forall₂ (declares : List.Forall₂ Line.Declares lines ds)
    (distinct : ((before ++ ds).map Declaration.id).Nodup) :
    declareLines before lines = .ok (before ++ ds) := by
  induction declares generalizing before with
  | nil => rw [declareLines, List.append_nil]
  | @cons line d rest ds declares _ ih =>
    have whole : before ++ d :: ds = before ++ [d] ++ ds := by simp
    have new : d.id ∉ before.map Declaration.id := by
      intro there
      rw [List.map_append] at distinct
      exact (List.nodup_append.mp distinct).2.2 d.id there d.id (by simp) rfl
    rw [whole] at distinct ⊢
    exact declareLines_cons_eq_ok_iff.mpr (.inr ⟨d, declares, new, ih distinct⟩)

theorem nodup_of_declareLines (declared : declareLines before lines = .ok tables)
    (distinct : (before.map Declaration.id).Nodup) : (tables.map Declaration.id).Nodup := by
  induction lines generalizing before with
  | nil =>
    cases declared
    exact distinct
  | cons line rest ih =>
    rcases declareLines_cons_eq_ok_iff.mp declared with ⟨-, declared⟩ | ⟨d, -, new, declared⟩
    · exact ih declared distinct
    · refine ih declared ?_
      rw [List.map_append, List.map_singleton]
      exact List.nodup_append.mpr ⟨distinct, List.nodup_singleton _, fun id old other here same =>
        new (List.mem_singleton.mp here ▸ same ▸ old)⟩

/-- A program declares no table twice. -/
theorem nodup_of_addParagraphs {program after : Program} {paragraphs : List Paragraph}
    (added : addParagraphs program paragraphs = .ok after)
    (distinct : (program.tables.map Declaration.id).Nodup) :
    (after.tables.map Declaration.id).Nodup :=
  addParagraphs_keeps (P := fun tables => (tables.map Declaration.id).Nodup) added distinct
    fun _ _ _ _ declared => nodup_of_declareLines declared

/-! ## Installed and defined tables -/

/-- The tables of a compiled program can be created. -/
theorem exists_declareAll_of_compile {text : String} {program : Program}
    (compiled : compile text = .ok program) :
    ∃ s, Session.declareAll .empty program.tables = .ok s := by
  obtain ⟨paragraphs, read, added⟩ := bind_eq_ok_iff.mp compiled
  have fits : ∀ d ∈ program.tables, d.Fits := by
    intro d member
    rcases declares_of_addParagraphs added d member with ⟨⟨⟩⟩ | ⟨p, inText, line, inLines, declares⟩
    exact declares.fits (lines_parsed read p inText line inLines).formed
  obtain ⟨s, created, -⟩ := declareAll_of_fits Store.sound_empty fits
    (fun d _ => Store.find?_empty d.id) (nodup_of_addParagraphs added List.nodup_nil)
  exact ⟨s, created⟩

/-- Lines that define different tables by constants can be evaluated as a block if and only if each of them
declares a table, and then ask for the changes that make these tables. -/
theorem evaluate_eq_ok_iff {changes : List Change} (fresh : Fresh (.start s) lines) :
    evaluate lines s = .ok changes ↔
      ∃ ds, List.Forall₂ Line.Declares lines ds ∧ changes = ds.flatMap fun d => d.draft.changes := by
  rw [evaluate, bind_eq_ok_iff]
  constructor
  · rintro ⟨after, ran, result⟩
    cases result
    obtain ⟨ds, declares, rfl⟩ := (runLines_eq_ok_iff fresh).mp ran
    exact ⟨ds, declares, changes_foldl_adopt⟩
  · rintro ⟨ds, declares, rfl⟩
    exact ⟨_, (runLines_eq_ok_iff fresh).mpr ⟨ds, declares, rfl⟩,
      congrArg Except.ok changes_foldl_adopt⟩

theorem fits_of_forall₂ (declares : List.Forall₂ Line.Declares lines ds)
    (formed : ∀ line ∈ lines, line.statement.Formed) : ∀ d ∈ ds, d.Fits := by
  induction declares with
  | nil => simp
  | cons declares _ ih =>
    obtain ⟨first, others⟩ := List.forall_mem_cons.mp formed
    exact List.forall_mem_cons.mpr ⟨declares.fits first, ih others⟩

theorem nodup_of_forall₂ (declares : List.Forall₂ Line.Declares lines ds)
    (distinct : (lines.map fun line => line.statement.produceRegister?).Nodup) :
    (ds.map Declaration.id).Nodup := by
  have same : lines.map (fun line => line.statement.produceRegister?) =
      (ds.map Declaration.id).map fun id => some (.any id) := by
    rw [List.map_map, ← List.forall₂_eq_eq_eq, List.forall₂_map_left_iff, List.forall₂_map_right_iff]
    exact declares.imp fun _ _ => Line.Declares.produces
  exact List.Nodup.of_map _ (same ▸ distinct)

/-- **Tables are the same, declared or defined.** All tables that a compiled program declares can be
created, and lines that define different tables by constants can be declared if and only if they can be
evaluated as a block. Then the store with the declared tables is the one that the changes of the block
lead to. -/
theorem declared_as_defined :
    (∀ text program, compile text = .ok program →
      ∃ s, Session.declareAll .empty program.tables = .ok s) ∧
    ∀ lines : List Line, (∀ line ∈ lines, line.Parsed) →
      (∀ line ∈ lines, line.statement.constants?.isSome) →
      (lines.map fun line => line.statement.produceRegister?).Nodup →
        ((∀ line ∈ lines, ∃ d, line.Declares d) ↔ ∃ changes, evaluate lines .empty = .ok changes) ∧
        ∀ changes, evaluate lines .empty = .ok changes →
          ∃ ds s, List.Forall₂ Line.Declares lines ds ∧ declareLines [] lines = .ok ds ∧
            Session.declareAll .empty ds = .ok s ∧ carryOut .empty changes = .ok s := by
  refine ⟨fun text program => exists_declareAll_of_compile, fun lines parsed constant distinct => ?_⟩
  have fresh : Fresh (.start .empty) lines :=
    ⟨fun line member => (parsed line member).formed, constant, distinct, fun _ _ r _ =>
      (Workspace.find?_start .empty r.table).trans (Store.find?_empty r.table)⟩
  constructor
  · rw [← exists_forall₂_declares_iff]
    simp only [evaluate_eq_ok_iff fresh]
    exact ⟨fun ⟨ds, declares⟩ => ⟨_, ds, declares, rfl⟩, fun ⟨_, ds, declares, _⟩ => ⟨ds, declares⟩⟩
  · intro changes asked
    obtain ⟨ds, declares, rfl⟩ := (evaluate_eq_ok_iff fresh).mp asked
    have once := nodup_of_forall₂ declares distinct
    obtain ⟨s, created, carried⟩ := declareAll_of_fits Store.sound_empty
      (fits_of_forall₂ declares fresh.formed) (fun d _ => Store.find?_empty d.id) once
    exact ⟨ds, s, declares, declareLines_of_forall₂ declares once, created, carried⟩

/-- A table of one row below a header, and one of a single cell. -/
def twoTables : List Line :=
  [⟨1, .define "t" (.literal ⟨["x", "y"], [[.unary .neg (.number .one), .text "a"]]⟩)⟩,
    ⟨2, .define "n" (.formula (.number .one))⟩]

/-- A program of these two lines declares both tables, and the changes of a block of them make both. -/
theorem declared_as_defined_two :
    ∃ ds s changes, compile "#t = [x y | -1, \"a\"]\n#n = 1" = .ok ⟨ds, []⟩ ∧ ds.length = 2 ∧
      evaluate twoTables .empty = .ok changes ∧ changes.length = 4 ∧
      Session.declareAll .empty ds = .ok s ∧ carryOut .empty changes = .ok s := by
  have read : readProgram "#t = [x y | -1, \"a\"]\n#n = 1" = .ok [⟨none, 1, twoTables⟩] := by cbv
  have parsed : ∀ line ∈ twoTables, line.Parsed := fun line member =>
    lines_parsed read _ List.mem_cons_self line member
  have constant : ∀ line ∈ twoTables, line.statement.constants?.isSome := by decide +kernel
  have distinct : (twoTables.map fun line => line.statement.produceRegister?).Nodup := by
    decide +kernel
  obtain ⟨changes, asked, four⟩ :
      ∃ changes, evaluate twoTables .empty = .ok changes ∧ changes.length = 4 := by
    refine ⟨[.define (.of "t") "t" [.named "x" .number, .named "y" .text],
      .append (.of "t") [[.number Number.one.neg, .text "a"]],
      .define (.of "n") "n" [.positional 1 .number], .append (.of "n") [[.number .one]]], ?_, rfl⟩
    decide +kernel
  obtain ⟨ds, s, declares, declared, created, carried⟩ :=
    (declared_as_defined.2 twoTables parsed constant distinct).2 changes asked
  have compiled : compile "#t = [x y | -1, \"a\"]\n#n = 1" = .ok ⟨ds, []⟩ := by
    have declaration : Paragraph.isDeclaration ⟨none, 1, twoTables⟩ := by decide +kernel
    refine bind_eq_ok_iff.mpr ⟨_, read, ?_⟩
    rw [addParagraphs, if_pos declaration]
    simp only [empty, declared, addParagraphs]
  obtain ⟨_, installed⟩ := declared_as_defined.1 _ _ compiled
  cases installed.symm.trans created
  exact ⟨ds, s, changes, compiled, declares.length_eq.symm, asked, four, installed, carried⟩

end Ripple.Program
