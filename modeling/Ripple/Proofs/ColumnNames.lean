import Mathlib.Data.List.Nodup
import Mathlib.Data.Set.Function
import Ripple.Program.Evaluation
import Ripple.Proofs.ParsedStatements

/-!
The columns of the tables that statements create. `Statement.columnNames` are the names that a statement
gives to columns as far as the text says, and `Source.eval_spec` ties them to the columns of the table
that comes of it. As the names of a literal that was read are different, so are the identifiers of the
columns, as long as no two names have the same one (`Source.distinct_newSpecs`).
-/

namespace Ripple.Program

/-! ## Evaluation item by item -/

/-- What is true of each result by itself is true of all of them, one by one. -/
theorem map_of_mapM {ε α β γ : Type} {f : α → Except ε β} {shown : β → γ} {expected : α → γ}
    (each : ∀ x y, f x = .ok y → shown y = expected x) {items : List α} {results : List β}
    (done : items.mapM f = .ok results) : results.map shown = items.map expected := by
  induction items generalizing results with
  | nil =>
    cases done
    rfl
  | cons x rest ih =>
    rw [List.mapM_cons] at done
    obtain ⟨y, first, done⟩ := bind_eq_ok_iff.mp done
    obtain ⟨ys, others, result⟩ := bind_eq_ok_iff.mp done
    cases result
    rw [List.map_cons, List.map_cons, each x y first, ih others]

theorem length_of_mapM {ε α β : Type} {f : α → Except ε β} {items : List α} {results : List β}
    (done : items.mapM f = .ok results) : results.length = items.length := by
  have same : results.map (fun _ => ()) = items.map (fun _ => ()) :=
    map_of_mapM (fun _ _ _ => rfl) done
  simpa using congrArg List.length same

theorem mem_of_mapM {ε α β : Type} {f : α → Except ε β} {items : List α} {results : List β}
    (done : items.mapM f = .ok results) {y : β} (member : y ∈ results) :
    ∃ x ∈ items, f x = .ok y := by
  induction items generalizing results with
  | nil =>
    cases done
    cases member
  | cons x rest ih =>
    rw [List.mapM_cons] at done
    obtain ⟨first, here, done⟩ := bind_eq_ok_iff.mp done
    obtain ⟨ys, others, result⟩ := bind_eq_ok_iff.mp done
    cases result
    rcases List.mem_cons.mp member with rfl | later
    · exact ⟨x, List.mem_cons_self, here⟩
    · obtain ⟨z, inRest, there⟩ := ih others later
      exact ⟨z, List.mem_cons_of_mem x inRest, there⟩

theorem mapM_congr {ε α β : Type} {f g : α → Except ε β} {items : List α}
    (same : ∀ x ∈ items, f x = g x) : items.mapM f = items.mapM g := by
  induction items with
  | nil => rfl
  | cons x rest ih =>
    rw [List.mapM_cons, List.mapM_cons, same x List.mem_cons_self,
      ih fun y member => same y (List.mem_cons_of_mem x member)]

theorem mapM_of_mapM {ε α β : Type} {f : α → Option β} {g : α → Except ε β}
    (each : ∀ x y, f x = some y → g x = .ok y) {items : List α} {results : List β}
    (done : items.mapM f = some results) : items.mapM g = .ok results := by
  induction items generalizing results with
  | nil =>
    cases done
    rfl
  | cons x rest ih =>
    simp only [List.mapM_cons, Option.bind_eq_bind, Option.bind_eq_some_iff, Option.pure_def,
      Option.some.injEq] at done
    obtain ⟨y, first, ys, others, rfl⟩ := done
    rw [List.mapM_cons, each x y first, ih others]
    rfl

/-! ## Rows of literals -/

/-- A literal gives as many rows as it has, and each of them as long as it is written. -/
theorem Literal.lengths_of_eval {w : Workspace} {l : Literal} {rows : List Row}
    (evaluated : l.eval w = .ok rows) : rows.map List.length = l.rows.map List.length :=
  map_of_mapM (fun _ _ values => length_of_mapM values) evaluated

theorem Literal.Formed.nonempty_of_eval {w : Workspace} {l : Literal} (formed : l.Formed)
    {rows : List Row} (evaluated : l.eval w = .ok rows) : ∀ row ∈ rows, row ≠ [] := by
  rintro row member rfl
  obtain ⟨cells, written, values⟩ := mem_of_mapM evaluated member
  exact formed.rows cells written (List.length_eq_zero_iff.mp (length_of_mapM values).symm)

/-! ## Column names -/

/-- The names of the columns of a table that a literal creates. -/
def Literal.columnNames (l : Literal) : List String :=
  if l.columns.isEmpty then (List.range l.width).map fun i => toString (i + 1) else l.columns

def Source.columnNames : Source → List String
  | .literal l => l.columnNames
  | .formula _ => [toString 1]

def Statement.columnNames : Statement → List String
  | .define _ source => source.columnNames
  | _ => []

/-- The names of the columns of all tables that lines may create. -/
def columnNames (lines : List Line) : Set String :=
  { name | ∃ line ∈ lines, name ∈ line.statement.columnNames }

theorem columnNames_tail {line : Line} {rest : List Line} :
    columnNames rest ⊆ columnNames (line :: rest) :=
  fun _ ⟨other, member, named⟩ => ⟨other, List.mem_cons_of_mem _ member, named⟩

theorem toString_injective : Function.Injective (toString : Nat → String) := by
  intro i j same
  have digits : Nat.toDigits 10 i = Nat.toDigits 10 j := by
    simpa [Nat.toString_eq_repr] using congrArg String.toList same
  rw [← Nat.ofDigitChars_ten_toDigits (n := i), digits, Nat.ofDigitChars_ten_toDigits]

theorem nodup_positions (width : Nat) :
    ((List.range width).map fun i => toString (i + 1)).Nodup :=
  List.nodup_range.map fun _ _ same => Nat.succ_injective (toString_injective same)

theorem Source.nodup_columnNames {source : Source} (formed : source.Formed) :
    source.columnNames.Nodup := by
  cases source with
  | literal l =>
    simp only [columnNames, Literal.columnNames]
    split
    · exact nodup_positions l.width
    · exact formed.columns
  | formula e => exact List.nodup_singleton _

theorem fst_zip_sublist {α β : Type} (xs : List α) (ys : List β) :
    ((xs.zip ys).map Prod.fst).Sublist xs := by
  induction xs generalizing ys with
  | nil => exact List.Sublist.slnil
  | cons x xs ih =>
    cases ys with
    | nil => exact List.nil_sublist _
    | cons y ys => exact (ih ys).cons_cons x

/-- New columns have the identifiers of their names. -/
theorem ids_newSpecs (names : List String) (rows : List Row) :
    (newSpecs names rows).map ColumnSpec.id =
      ((newSpecs names rows).map ColumnSpec.name).map Ident.of := by
  rw [List.map_map]
  refine List.map_congr_left ?_
  intro spec member
  unfold newSpecs at member
  dsimp only at member
  split at member
  · obtain ⟨_, -, rfl⟩ := List.mem_map.mp member
    rfl
  · obtain ⟨_, -, rfl⟩ := List.mem_map.mp member
    rfl

/-- Without given names the columns are numbered through. -/
theorem names_newSpecs_nil (rows : List Row) :
    (newSpecs [] rows).map ColumnSpec.name =
      (List.range (rows.headD []).length).map fun i => toString (i + 1) := by
  cases rows with
  | nil => rfl
  | cons row rows =>
    refine List.ext_getElem (by simp [newSpecs]) ?_
    intro i _ _
    simp [newSpecs, ColumnSpec.positional, ColumnSpec.named]

theorem names_newSpecs_sublist {names : List String} (given : names ≠ []) (rows : List Row) :
    ((newSpecs names rows).map ColumnSpec.name).Sublist names := by
  unfold newSpecs
  dsimp only
  rw [if_neg (by simpa using given), List.map_map]
  exact fst_zip_sublist names _

/-- What a table is defined by has no empty rows, and its columns get the names that the source
says. -/
theorem Source.eval_spec {w : Workspace} {source : Source} (formed : source.Formed)
    {names : List String} {rows : List Row} (evaluated : source.eval w = .ok (names, rows)) :
    (∀ row ∈ rows, row ≠ []) ∧
      ((newSpecs names rows).map ColumnSpec.name).Sublist source.columnNames := by
  cases source with
  | literal l =>
    obtain ⟨values, literal, result⟩ := bind_eq_ok_iff.mp evaluated
    cases result
    refine ⟨Literal.Formed.nonempty_of_eval formed literal, ?_⟩
    by_cases given : l.columns = []
    · have width : (rows.headD []).length = l.width := by
        have first := congrArg List.head? (l.lengths_of_eval literal)
        rw [List.head?_map, List.head?_map] at first
        rw [Literal.width, if_pos (by simp [given]), ← first]
        cases rows <;> rfl
      rw [given, names_newSpecs_nil, columnNames, Literal.columnNames, if_pos (by simp [given]),
        width]
    · rw [columnNames, Literal.columnNames, if_neg (by simpa using given)]
      exact names_newSpecs_sublist given rows
  | formula e =>
    obtain ⟨values, -, result⟩ := bind_eq_ok_iff.mp evaluated
    cases result
    refine ⟨by simp, ?_⟩
    rw [names_newSpecs_nil]
    cases values with
    | nil => exact List.nil_sublist _
    | cons value values => exact List.Sublist.refl _

/-- A table that is created from a source has columns with different identifiers. -/
theorem Source.distinct_newSpecs {w : Workspace} {source : Source} (formed : source.Formed)
    (injective : Set.InjOn Ident.of { name | name ∈ source.columnNames }) {names : List String}
    {rows : List Row} (evaluated : source.eval w = .ok (names, rows)) :
    ((newSpecs names rows).map ColumnSpec.id).Nodup := by
  obtain ⟨-, given⟩ := Source.eval_spec formed evaluated
  rw [ids_newSpecs]
  refine List.Nodup.map_on ?_ (given.nodup (Source.nodup_columnNames formed))
  intro a inA b inB same
  exact injective (given.subset inA) (given.subset inB) same

end Ripple.Program
