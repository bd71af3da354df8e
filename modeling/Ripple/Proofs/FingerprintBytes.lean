import Ripple.Proofs.ChangeCases
import Ripple.Store.Fingerprint

/-!
What the bytes of a store tell about it. Read from the front they give back the identifier of the
first table, its name if that is known to be the table's, its row count and then column by column
identifier, kind and cells: words have eight bytes, texts in cells are preceded by their length, and
no name of a kind begins with another one. Two things are not written down, where a table's name
ends and how many columns there are. Hence stores with the same bytes are alike, save for two tables
of one identifier with different names, and for a table whose further columns are read as the tables
that follow it in the other store.
-/

namespace Ripple

variable {rest more : List UInt8}

/-! ## Words and texts -/

theorem length_word64Bytes (word : UInt64) : (word64Bytes word).length = 8 := by
  simp [word64Bytes]

theorem word64Bytes_injective {v w : UInt64} (same : word64Bytes v = word64Bytes w) : v = w := by
  simp only [word64Bytes, List.range, List.range.loop, List.map_cons, List.map_nil,
    List.cons.injEq, ← UInt8.toNat_inj] at same
  simp [Nat.shiftRight_eq_div_pow] at same
  have := v.toNat_lt
  have := w.toNat_lt
  rw [← UInt64.toNat_inj]
  omega

theorem word64Bytes_cancel {v w : UInt64} (same : word64Bytes v ++ rest = word64Bytes w ++ more) :
    v = w ∧ rest = more := by
  obtain ⟨words, rests⟩ := List.append_inj same (by simp only [length_word64Bytes])
  exact ⟨word64Bytes_injective words, rests⟩

theorem ident_cancel {a b : Ident} (same : word64Bytes a.raw ++ rest = word64Bytes b.raw ++ more) :
    a = b ∧ rest = more := by
  obtain ⟨words, rests⟩ := word64Bytes_cancel same
  exact ⟨congrArg Ident.mk words, rests⟩

theorem countBytes_cancel {m n : Nat} (hm : m < UInt64.size) (hn : n < UInt64.size)
    (same : countBytes m ++ rest = countBytes n ++ more) : m = n ∧ rest = more := by
  obtain ⟨words, rests⟩ := word64Bytes_cancel same
  have counts := congrArg UInt64.toNat words
  rw [UInt64.toNat_ofNat_of_lt' hm, UInt64.toNat_ofNat_of_lt' hn] at counts
  exact ⟨counts, rests⟩

theorem toList_loop (bytes : ByteArray) (i : Nat) (front : List UInt8) :
    ByteArray.toList.loop bytes i front = front.reverse ++ bytes.data.toList.drop i := by
  fun_induction ByteArray.toList.loop bytes i front with
  | case1 i front inside ih =>
    have next : bytes.data.toList.drop i = bytes.get! i :: bytes.data.toList.drop (i + 1) := by
      rw [List.drop_eq_getElem_cons (by simpa using inside)]
      simp [ByteArray.get!, inside]
    rw [ih, next, List.reverse_cons, List.append_assoc, List.singleton_append]
  | case2 i front outside =>
    have done : bytes.data.toList.drop i = [] :=
      List.drop_eq_nil_iff.mpr (by simpa using Nat.not_lt.mp outside)
    rw [done, List.append_nil]

theorem textBytes_injective {s t : String} (same : textBytes s = textBytes t) : s = t := by
  simp only [textBytes, ByteArray.toList, toList_loop, List.reverse_nil, List.nil_append,
    List.drop_zero, Array.toList_inj] at same
  exact String.toByteArray_inj.mp (ByteArray.ext same)

/-! ## Cells -/

/-- A value whose length or row, if it has one, is a number of 64 bits. -/
def Value.WithinWords : Value → Prop
  | .text s => (textBytes s).length < UInt64.size
  | .ref r => r.row < UInt64.size
  | _ => True

theorem value_cancel {v w : Value} (kinds : v.kind = w.kind) (hv : v.WithinWords)
    (hw : w.WithinWords) (same : v.bytes ++ rest = w.bytes ++ more) : v = w ∧ rest = more := by
  cases v with
  | number x =>
    cases w <;> simp only [Value.kind, reduceCtorEq] at kinds
    next y =>
      obtain ⟨bits, rests⟩ := word64Bytes_cancel same
      exact ⟨congrArg (Value.number ∘ Number.mk) bits, rests⟩
  | bool x =>
    cases w <;> simp only [Value.kind, reduceCtorEq] at kinds
    next y => cases x <;> cases y <;> simp_all [Value.bytes]
  | text s =>
    cases w <;> simp only [Value.kind, reduceCtorEq] at kinds
    next t =>
      simp only [Value.bytes, List.append_assoc] at same
      obtain ⟨lengths, same⟩ := countBytes_cancel hv hw same
      obtain ⟨texts, rests⟩ := List.append_inj same lengths
      exact ⟨congrArg Value.text (textBytes_injective texts), rests⟩
  | ref r =>
    cases w <;> simp only [Value.kind, reduceCtorEq] at kinds
    next q =>
      simp only [Value.bytes, List.append_assoc] at same
      obtain ⟨tables, afterTable⟩ := ident_cancel same
      obtain ⟨rows, rests⟩ := countBytes_cancel hv hw afterTable
      exact ⟨congrArg Value.ref (RowRef.mk.injEq .. ▸ ⟨tables, rows⟩), rests⟩

theorem cells_cancel {kind : Kind} {cells others : List Value}
    (lengths : cells.length = others.length) (hc : ∀ v ∈ cells, v.kind = kind ∧ v.WithinWords)
    (ho : ∀ v ∈ others, v.kind = kind ∧ v.WithinWords)
    (same : cells.flatMap Value.bytes ++ rest = others.flatMap Value.bytes ++ more) :
    cells = others ∧ rest = more := by
  induction cells generalizing others with
  | nil =>
    obtain rfl := List.length_eq_zero_iff.mp lengths.symm
    exact ⟨rfl, same⟩
  | cons v cells ih =>
    cases others with
    | nil => cases lengths
    | cons w others =>
      obtain ⟨⟨kindV, wordV⟩, hc⟩ := List.forall_mem_cons.mp hc
      obtain ⟨⟨kindW, wordW⟩, ho⟩ := List.forall_mem_cons.mp ho
      simp only [List.flatMap_cons, List.append_assoc] at same
      obtain ⟨heads, afterHead⟩ := value_cancel (kindV.trans kindW.symm) wordV wordW same
      obtain ⟨tails, rests⟩ := ih (Nat.succ.inj lengths) hc ho afterHead
      exact ⟨by rw [heads, tails], rests⟩

/-! ## Columns -/

/-- No name of a kind begins with the name of another one. -/
theorem kind_of_begins {k l : Kind} (begins : textBytes k.name <+: textBytes l.name) : k = l := by
  revert begins
  cases k <;> cases l <;> decide +kernel

theorem kind_cancel {k l : Kind} (same : textBytes k.name ++ rest = textBytes l.name ++ more) :
    k = l ∧ rest = more := by
  have kinds : k = l := by
    rcases List.prefix_or_prefix_of_prefix (List.prefix_append _ rest)
      (same ▸ List.prefix_append _ more) with begins | begins
    · exact kind_of_begins begins
    · exact (kind_of_begins begins).symm
  exact ⟨kinds, List.append_cancel_left (kinds ▸ same)⟩

/-- A column without what it is called. -/
def Column.unnamed (c : Column) : Column := { c with spec := { c.spec with name := "" } }

theorem Column.unnamed_eq_iff {c d : Column} : c.unnamed = d.unnamed ↔
    c.spec.id = d.spec.id ∧ c.spec.kind = d.spec.kind ∧ c.cells = d.cells := by
  simp [unnamed, and_assoc]

theorem column_cancel {c d : Column} {count : Nat} (hc : c.Fits count) (hd : d.Fits count)
    (wordsC : ∀ v ∈ c.cells, v.WithinWords) (wordsD : ∀ v ∈ d.cells, v.WithinWords)
    (same : c.bytes ++ rest = d.bytes ++ more) : c.unnamed = d.unnamed ∧ rest = more := by
  simp only [Column.bytes, List.append_assoc] at same
  obtain ⟨ids, afterId⟩ := ident_cancel same
  obtain ⟨kinds, afterKind⟩ := kind_cancel afterId
  obtain ⟨cells, rests⟩ := cells_cancel (hc.length_eq.trans hd.length_eq.symm)
    (fun v member => ⟨hc.kind_eq v member, wordsC v member⟩)
    (fun v member => ⟨(hd.kind_eq v member).trans kinds.symm, wordsD v member⟩) afterKind
  exact ⟨Column.unnamed_eq_iff.mpr ⟨ids, kinds, cells⟩, rests⟩

/-! ## Columns that are followed by tables -/

namespace Table

/-- A table whose row count, and whose cells, are numbers of 64 bits as far as they are counts. -/
structure WithinWords (t : Table) : Prop where
  rowCount_lt : t.rowCount < UInt64.size
  cells : ∀ c ∈ t.columns, ∀ v ∈ c.cells, v.WithinWords

/-- A table without what its columns are called: what is left is the identifier, the name, the row
count, and of every column in order the identifier, the kind and the cells. -/
def unnamed (t : Table) : Table := { t with columns := t.columns.map Column.unnamed }

/-- A table whose bytes may be those of a column: it has the identifier of the column, and its name
begins with the name of the column's kind or is the beginning of it. -/
def ReadsAs (t : Table) (c : Column) : Prop :=
  t.id = c.spec.id ∧
    (textBytes c.spec.kind.name <+: textBytes t.name ∨ textBytes t.name <+: textBytes c.spec.kind.name)

theorem readsAs_of_bytes {t : Table} {c : Column} (same : t.bytes ++ rest = c.bytes ++ more) :
    t.ReadsAs c := by
  simp only [bytes, Column.bytes, List.append_assoc] at same
  obtain ⟨ids, names⟩ := ident_cancel same
  have inside : textBytes t.name <+: textBytes c.spec.kind.name ++ _ :=
    names ▸ List.prefix_append _ _
  exact ⟨ids, List.prefix_or_prefix_of_prefix (List.prefix_append _ _) inside⟩

/-- One of the columns has the bytes that one of the tables begins with. -/
def ReadAmong (tables : List Table) (columns : List Column) : Prop :=
  ∃ c ∈ columns, ∃ t ∈ tables, t.ReadsAs c

theorem ReadAmong.cons {tables : List Table} {columns : List Column}
    (read : ReadAmong tables columns) (c : Column) : ReadAmong tables (c :: columns) := by
  obtain ⟨d, inside, found⟩ := read
  exact ⟨d, List.mem_cons_of_mem c inside, found⟩

/-- If no columns are left, then the bytes of a further column are those of the next table. -/
theorem readAmong_of_bytes {tables : List Table} {columns : List Column} (left : columns ≠ [])
    (same : tables.flatMap bytes = columns.flatMap Column.bytes ++ more) :
    ReadAmong tables columns := by
  obtain ⟨c, columns, rfl⟩ := List.exists_cons_of_ne_nil left
  cases tables with
  | nil =>
    have lengths := congrArg List.length same
    simp only [List.flatMap_nil, List.flatMap_cons, Column.bytes, List.length_nil,
      List.length_append, length_word64Bytes] at lengths
    omega
  | cons t tables =>
    simp only [List.flatMap_cons, List.append_assoc] at same
    exact ⟨c, List.mem_cons_self, t, List.mem_cons_self, readsAs_of_bytes same⟩

/-- The columns of two tables of as many rows, each with the tables that follow it: the bytes tell
them apart as long as neither has more columns than the other. -/
theorem columns_cancel {count : Nat} {cs ds : List Column} {later after : List Table}
    (hc : ∀ c ∈ cs, c.Fits count ∧ ∀ v ∈ c.cells, v.WithinWords)
    (hd : ∀ d ∈ ds, d.Fits count ∧ ∀ v ∈ d.cells, v.WithinWords)
    (same : cs.flatMap Column.bytes ++ later.flatMap bytes =
      ds.flatMap Column.bytes ++ after.flatMap bytes) :
    (cs.map Column.unnamed = ds.map Column.unnamed ∧ later.flatMap bytes = after.flatMap bytes) ∨
      (ds.length < cs.length ∧ ReadAmong after cs) ∨
      (cs.length < ds.length ∧ ReadAmong later ds) := by
  induction cs generalizing ds with
  | nil =>
    cases ds with
    | nil => exact .inl ⟨rfl, same⟩
    | cons d ds =>
      exact .inr (.inr ⟨Nat.succ_pos _, readAmong_of_bytes (List.cons_ne_nil d ds) same⟩)
  | cons c cs ih =>
    cases ds with
    | nil =>
      exact .inr (.inl ⟨Nat.succ_pos _, readAmong_of_bytes (List.cons_ne_nil c cs) same.symm⟩)
    | cons d ds =>
      obtain ⟨⟨fitsC, wordsC⟩, hc⟩ := List.forall_mem_cons.mp hc
      obtain ⟨⟨fitsD, wordsD⟩, hd⟩ := List.forall_mem_cons.mp hd
      simp only [List.flatMap_cons, List.append_assoc] at same
      obtain ⟨heads, same⟩ := column_cancel fitsC fitsD wordsC wordsD same
      rcases ih hc hd same with ⟨tails, rests⟩ | ⟨longer, read⟩ | ⟨longer, read⟩
      · exact .inl ⟨by rw [List.map_cons, List.map_cons, heads, tails], rests⟩
      · exact .inr (.inl ⟨Nat.succ_lt_succ longer, read.cons c⟩)
      · exact .inr (.inr ⟨Nat.succ_lt_succ longer, read.cons d⟩)

/-! ## Tables -/

/-- Two tables with one identifier have different names, of which one begins with the other. -/
def Renamed (ts us : List Table) : Prop :=
  ∃ t ∈ ts, ∃ u ∈ us, t.id = u.id ∧ t.name ≠ u.name ∧
    (textBytes t.name <+: textBytes u.name ∨ textBytes u.name <+: textBytes t.name)

/-- A table has more columns than the one with its identifier among the others, and one of its
columns reads as a table that comes after that one. -/
def Swallows (ts us : List Table) : Prop :=
  ∃ t ∈ ts, ∃ u ∈ us, t.id = u.id ∧ u.columns.length < t.columns.length ∧
    ∃ v ∈ us, u.id < v.id ∧ ∃ c ∈ t.columns, v.ReadsAs c

theorem Renamed.cons {ts us : List Table} (renamed : Renamed ts us) (t u : Table) :
    Renamed (t :: ts) (u :: us) := by
  obtain ⟨v, inside, w, among, apart⟩ := renamed
  exact ⟨v, List.mem_cons_of_mem t inside, w, List.mem_cons_of_mem u among, apart⟩

theorem Swallows.cons {ts us : List Table} (swallows : Swallows ts us) (t u : Table) :
    Swallows (t :: ts) (u :: us) := by
  obtain ⟨v, inside, w, among, ids, longer, x, later, read⟩ := swallows
  exact ⟨v, List.mem_cons_of_mem t inside, w, List.mem_cons_of_mem u among, ids, longer,
    x, List.mem_cons_of_mem u later, read⟩

theorem swallows_cons_of_readAmong {t u : Table} {ts us : List Table} (ids : t.id = u.id)
    (longer : u.columns.length < t.columns.length) (after : ∀ v ∈ us, u.id < v.id)
    (read : ReadAmong us t.columns) : Swallows (t :: ts) (u :: us) := by
  obtain ⟨c, inside, v, later, found⟩ := read
  exact ⟨t, List.mem_cons_self, u, List.mem_cons_self, ids, longer,
    v, List.mem_cons_of_mem u later, after v later, c, inside, found⟩

/-- Tables with the bytes of no table are no tables. -/
theorem eq_nil_of_bytes {ts : List Table} (none : ts.flatMap bytes = []) : ts = [] := by
  cases ts with
  | nil => rfl
  | cons t ts =>
    have lengths := congrArg List.length none
    simp only [List.flatMap_cons, bytes, List.length_append, length_word64Bytes,
      List.length_nil] at lengths
    omega

theorem tables_cancel {ts us : List Table} (ascendingT : ts.Pairwise fun a b => a.id < b.id)
    (ascendingU : us.Pairwise fun a b => a.id < b.id) (formedT : ∀ t ∈ ts, t.Regular ∧ t.WithinWords)
    (formedU : ∀ u ∈ us, u.Regular ∧ u.WithinWords) (same : ts.flatMap bytes = us.flatMap bytes) :
    ts.map unnamed = us.map unnamed ∨ Renamed ts us ∨ Swallows ts us ∨ Swallows us ts := by
  induction ts generalizing us with
  | nil => exact .inl (by rw [eq_nil_of_bytes same.symm])
  | cons t ts ih =>
    cases us with
    | nil => exact .inl (by rw [eq_nil_of_bytes same])
    | cons u us =>
      obtain ⟨afterT, ascendingT⟩ := List.pairwise_cons.mp ascendingT
      obtain ⟨afterU, ascendingU⟩ := List.pairwise_cons.mp ascendingU
      obtain ⟨⟨regularT, wordsT⟩, formedT⟩ := List.forall_mem_cons.mp formedT
      obtain ⟨⟨regularU, wordsU⟩, formedU⟩ := List.forall_mem_cons.mp formedU
      simp only [List.flatMap_cons, bytes, List.append_assoc] at same
      obtain ⟨ids, afterId⟩ := ident_cancel same
      by_cases names : t.name = u.name
      · rw [names] at afterId
        obtain ⟨rows, afterRows⟩ := countBytes_cancel wordsT.rowCount_lt wordsU.rowCount_lt
          (List.append_cancel_left afterId)
        rcases columns_cancel (fun c member => ⟨regularT c member, wordsT.cells c member⟩)
          (fun d member => ⟨rows ▸ regularU d member, wordsU.cells d member⟩) afterRows with
          ⟨columns, rests⟩ | ⟨longer, read⟩ | ⟨longer, read⟩
        · have heads : t.unnamed = u.unnamed := by simp only [unnamed, ids, names, rows, columns]
          rcases ih ascendingT ascendingU formedT formedU rests with tails | renamed | left | right
          · exact .inl (by rw [List.map_cons, List.map_cons, heads, tails])
          · exact .inr (.inl (renamed.cons t u))
          · exact .inr (.inr (.inl (left.cons t u)))
          · exact .inr (.inr (.inr (right.cons u t)))
        · exact .inr (.inr (.inl (swallows_cons_of_readAmong ids longer afterU read)))
        · exact .inr (.inr (.inr (swallows_cons_of_readAmong ids.symm longer afterT read)))
      · have inside : textBytes t.name <+: textBytes u.name ++ _ :=
          afterId ▸ List.prefix_append _ _
        have begins := List.prefix_or_prefix_of_prefix inside (List.prefix_append _ _)
        exact .inr (.inl ⟨t, List.mem_cons_self, u, List.mem_cons_self, ids, names, begins⟩)

end Table

/-! ## Stores -/

namespace Store

/-- Each identifier leads in both stores to tables that agree in all but the names of columns, or
leads nowhere in both. -/
def Alike (a b : Store) : Prop := ∀ id, (a.find? id).map Table.unnamed = (b.find? id).map Table.unnamed

/-- The store without the names of columns. -/
def unnamed (s : Store) : Store := ⟨s.tables.map Table.unnamed⟩

theorem find?_unnamed (s : Store) (id : Ident) :
    s.unnamed.find? id = (s.find? id).map Table.unnamed := by
  simp only [find?, unnamed, List.find?_map]
  rfl

theorem ascending_unnamed {s : Store} (ascending : s.Ascending) : s.unnamed.Ascending :=
  List.pairwise_map.mpr ascending

theorem bytes_unnamed (s : Store) : s.unnamed.bytes = s.bytes := by
  have columns (c : Column) : c.unnamed.bytes = c.bytes := rfl
  have tables (t : Table) : t.unnamed.bytes = t.bytes := by
    simp only [Table.bytes, Table.unnamed, List.flatMap_map, columns]
  simp only [bytes, unnamed, List.flatMap_map, tables]

theorem alike_iff_unnamed_eq {a b : Store} (ascendingA : a.Ascending) (ascendingB : b.Ascending) :
    a.Alike b ↔ a.unnamed = b.unnamed := by
  constructor
  · intro alike
    refine eq_of_find?_eq (ascending_unnamed ascendingA) (ascending_unnamed ascendingB) ?_
    intro id
    rw [find?_unnamed, find?_unnamed, alike id]
  · intro same id
    rw [← find?_unnamed, ← find?_unnamed, same]

/-- **The bytes that are digested tell a store from every store it is not alike, with two
exceptions.** Stores in which each identifier leads to the same name, row count and columns (with
identifiers, kinds and cells in order) have the same bytes, however their tables came into them.
Stores with the same bytes are alike, unless two tables of one identifier have different names of
which one begins with the other, or a table has more columns in one of the stores than in the other
and one of them has the identifier of a table that follows there and whose name begins like the name
of the column's kind. -/
theorem bytes_identify {a b : Store} (soundA : a.Sound) (soundB : b.Sound)
    (wordsA : ∀ t ∈ a.tables, t.WithinWords) (wordsB : ∀ t ∈ b.tables, t.WithinWords) :
    (a.Alike b → a.bytes = b.bytes) ∧
      (a.bytes = b.bytes → a.Alike b ∨ Table.Renamed a.tables b.tables ∨
        Table.Swallows a.tables b.tables ∨ Table.Swallows b.tables a.tables) := by
  rw [alike_iff_unnamed_eq soundA.ascending soundB.ascending]
  constructor
  · intro alike
    rw [← bytes_unnamed a, alike, bytes_unnamed]
  · intro same
    refine (Table.tables_cancel soundA.ascending soundB.ascending
      (fun t member => ⟨soundA.regular t member, wordsA t member⟩)
      (fun t member => ⟨soundB.regular t member, wordsB t member⟩) same).imp_left ?_
    intro tables
    exact congrArg Store.mk tables

/-- A table with one cell. -/
def dot (value : Value) : Table where
  id := .of "t"
  name := "t"
  columns := [⟨.named "x" value.kind, [value]⟩]
  rowCount := 1

theorem regular_dot (value : Value) : (dot value).Regular := by
  intro c member
  obtain rfl := List.mem_singleton.mp member
  exact ⟨rfl, fun v inside => List.mem_singleton.mp inside ▸ rfl⟩

theorem withinWords_dot {value : Value} (word : value.WithinWords) : (dot value).WithinWords where
  rowCount_lt := (by decide : 1 < UInt64.size)
  cells c member v inside := by
    obtain rfl := List.mem_singleton.mp member
    exact List.mem_singleton.mp inside ▸ word

/-- The bytes change with a cell. -/
theorem bytes_identify_cell : Store.bytes ⟨[dot (.bool false)]⟩ ≠ Store.bytes ⟨[dot (.bool true)]⟩ := by
  intro same
  have words (b : Bool) : ∀ t ∈ [dot (.bool b)], t.WithinWords := fun t member =>
    List.mem_singleton.mp member ▸ withinWords_dot trivial
  rcases (bytes_identify (sound_single (regular_dot _)) (sound_single (regular_dot _))
    (words false) (words true)).2 same with alike | renamed | left | right
  · have cells := alike (.of "t")
    simp [find?, dot, Table.unnamed, Column.unnamed] at cells
  · obtain ⟨t, inT, u, inU, -, apart, -⟩ := renamed
    rw [List.mem_singleton.mp inT, List.mem_singleton.mp inU] at apart
    exact apart rfl
  all_goals
    obtain ⟨t, inT, u, inU, -, longer, -⟩ := by assumption
    rw [List.mem_singleton.mp inT, List.mem_singleton.mp inU] at longer
    exact absurd longer (by decide)

/-- A table with a truth value, and a table called `number` without columns. -/
def narrow : Store := ⟨[dot (.bool true), .empty (.of "number") "number" []]⟩

/-- One table, with a truth value and a zero in a column called `number`. -/
def wide : Store :=
  ⟨[{ dot (.bool true) with
      columns := (dot (.bool true)).columns ++ [⟨.named "number" .number, [.number .zero]⟩] }]⟩

/-- The identifier, the name and the row count of a table without columns have the bytes of a
column's identifier and kind and of a zero, so that two stores that are not alike have the same
fingerprint. -/
theorem column_reads_as_table :
    (empty.create (.of "t") "t" [.named "x" .bool] [[.bool true]] >>= fun s =>
      s.create (.of "number") "number" [] []).toOption = some narrow ∧
    (empty.create (.of "t") "t" [.named "x" .bool, .named "number" .number]
      [[.bool true, .number .zero]]).toOption = some wide ∧
    narrow.bytes = wide.bytes ∧ ¬ narrow.Alike wide := by
  refine ⟨by decide +kernel, by decide +kernel, by decide +kernel, ?_⟩
  intro alike
  have columns := alike (.of "t")
  simp [find?, narrow, wide, dot, Table.unnamed] at columns

end Store

end Ripple
