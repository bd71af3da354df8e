import Ripple.Proofs.ExpressionGrammar
import Ripple.Proofs.ParsedStatements
import Ripple.Proofs.PrintedTokens

/-!
Printed statements are read back. Their tokens can be printed and close every bracket they open
(`Statement.balanced`). The grammar derives a printed expression from its tokens, and as a primary one if
it stands beside others (`Expr.derives`), so that it is read wherever the reader stops after it. Table
literals are told apart by their first tokens: a header goes up to its bar, and cells without a header
begin with something that no header goes on with (`header?_cells`).
-/

namespace Ripple.Program

variable {decimal : Decimals} {ts us rest : List Token} {t : Token} {e : Expr}

/-! ## Tokens of statements -/

/-- The tokens can be printed, and close every bracket they open. -/
structure Balanced (decimal : Decimals) (ts : List Token) : Prop where
  printable : ∀ t ∈ ts, t.Printable decimal
  depth : Token.balance ts = 0

namespace Balanced

theorem nil : Balanced decimal [] := ⟨by simp, rfl⟩

theorem cons (printable : t.Printable decimal) (level : t.depth = 0) (others : Balanced decimal ts) :
    Balanced decimal (t :: ts) where
  printable := List.forall_mem_cons.mpr ⟨printable, others.printable⟩
  depth := by rw [Token.balance, level, others.depth, Int.zero_add]

theorem append (one : Balanced decimal ts) (other : Balanced decimal us) :
    Balanced decimal (ts ++ us) where
  printable := List.forall_mem_append.mpr ⟨one.printable, other.printable⟩
  depth := by rw [Token.balance_append, one.depth, other.depth, Int.zero_add]

theorem brackets (inside : Balanced decimal ts) :
    Balanced decimal (.openBracket :: (ts ++ [.closeBracket])) where
  printable := by
    rintro t member
    rcases List.mem_cons.mp member with rfl | member
    · trivial
    · rcases List.mem_append.mp member with member | member
      · exact inside.printable t member
      · obtain rfl := List.mem_singleton.mp member
        trivial
  depth := by
    rw [Token.balance, Token.balance_append, inside.depth]
    rfl

theorem flatMap {α : Type} {xs : List α} {f : α → List Token}
    (every : ∀ x ∈ xs, Balanced decimal (f x)) : Balanced decimal (xs.flatMap f) := by
  induction xs with
  | nil => exact nil
  | cons x xs ih =>
    obtain ⟨own, others⟩ := List.forall_mem_cons.mp every
    exact own.append (ih others)

end Balanced

theorem balanced_path {table : String} {column : Option String} (named : IsPath table column) :
    Balanced decimal (pathTokens table column) := by
  obtain ⟨isTable, isColumn⟩ := named
  cases column with
  | none => exact .cons isTable rfl .nil
  | some name => exact .cons isTable rfl (.cons trivial rfl (.cons (isColumn name rfl) rfl .nil))

theorem Balanced.surround {before after : Token} (inside : Balanced decimal ts)
    (opens : before.Printable decimal ∧ before.depth = 0)
    (closes : after.Printable decimal ∧ after.depth = 0) :
    Balanced decimal (before :: ts ++ [after]) :=
  (inside.cons opens.1 opens.2).append (.cons closes.1 closes.2 .nil)

theorem balanced_enclose (inside : Balanced decimal ts) (e : Expr) : Balanced decimal (enclose e ts) := by
  unfold enclose
  split
  · exact inside.surround ⟨trivial, rfl⟩ ⟨trivial, rfl⟩
  · exact inside.surround ⟨trivial, rfl⟩ ⟨trivial, rfl⟩
  · exact inside

theorem isName_of_all {name : String} {c : Char} {cs : List Char} (spelled : name.toList = c :: cs)
    (start : isNameStart c) (others : cs.all isNameChar) : IsName name :=
  ⟨c, cs, spelled, start, List.all_eq_true.mp others⟩

theorem isName_true : IsName "true" := isName_of_all rfl rfl rfl

theorem isName_false : IsName "false" := isName_of_all rfl rfl rfl

theorem UnaryOp.balanced (op : UnaryOp) (others : Balanced decimal ts) :
    Balanced decimal (op.token :: ts) := by
  cases op <;> exact .cons trivial rfl others

theorem BinaryOp.balanced (op : BinaryOp) (others : Balanced decimal ts) :
    Balanced decimal (op.token :: ts) := by
  cases op <;> exact .cons trivial rfl others

theorem SetOp.balanced (op : SetOp) (others : Balanced decimal ts) :
    Balanced decimal (op.token :: ts) := by
  cases op <;> exact .cons trivial rfl others

theorem Expr.balanced (printable : e.Printable decimal) : Balanced decimal e.tokens := by
  induction e with
  | number n => exact .cons printable rfl .nil
  | text s => exact .cons trivial rfl .nil
  | bool b =>
    cases b with
    | true => exact .cons isName_true rfl .nil
    | false => exact .cons isName_false rfl .nil
  | name n => exact .cons printable.1 rfl .nil
  | column table column => exact balanced_path printable
  | pick table column index ih =>
    obtain ⟨named, inside⟩ := printable
    rw [Expr.tokens, List.append_assoc]
    exact (balanced_path named).append ((ih inside).surround ⟨trivial, rfl⟩ ⟨trivial, rfl⟩)
  | unary op e ih => exact op.balanced (balanced_enclose (ih printable) e)
  | binary op a b left right =>
    exact (balanced_enclose (left printable.1) a).append
      (op.balanced (balanced_enclose (right printable.2) b))

theorem Expr.balanced_operand (printable : e.Printable decimal) : Balanced decimal e.operand :=
  balanced_enclose (Expr.balanced printable) e

theorem cellTokens_cons_cons (row next : List Expr) (rows : List (List Expr)) :
    cellTokens (row :: next :: rows) =
      row.flatMap Expr.operand ++ .semicolon :: cellTokens (next :: rows) := by
  simp [cellTokens, List.intercalate]

theorem cellTokens_singleton (row : List Expr) : cellTokens [row] = row.flatMap Expr.operand := by
  simp [cellTokens]

theorem balanced_cells {rows : List (List Expr)}
    (printable : ∀ row ∈ rows, ∀ e ∈ row, e.Printable decimal) : Balanced decimal (cellTokens rows) := by
  induction rows with
  | nil => exact .nil
  | cons row rows ih =>
    obtain ⟨own, others⟩ := List.forall_mem_cons.mp printable
    have cells := Balanced.flatMap fun e member => Expr.balanced_operand (own e member)
    cases rows with
    | nil => exact cellTokens_singleton row ▸ cells
    | cons next rows => exact cellTokens_cons_cons row next rows ▸ cells.append (.cons trivial rfl (ih others))

theorem balanced_header {columns : List String} (named : ∀ name ∈ columns, IsFreeName name) :
    Balanced decimal (headerTokens columns) := by
  have words : Balanced decimal (columns.map .word) := by
    rw [List.map_eq_flatMap]
    exact .flatMap fun name member => .cons (named name member).1 rfl .nil
  cases columns with
  | nil => exact .nil
  | cons name names => exact words.append (.cons trivial rfl .nil)

theorem Literal.balanced {l : Literal} (printable : l.Printable decimal) :
    Balanced decimal (.openBracket :: l.tokens) :=
  .brackets ((balanced_header printable.columns).append (balanced_cells printable.cells))

theorem balanced_index {index : Option Expr} (printable : ∀ e ∈ index, e.Printable decimal) :
    Balanced decimal (indexTokens index) := by
  cases index with
  | none => exact .nil
  | some e =>
    exact (Expr.balanced (printable e rfl)).surround ⟨trivial, rfl⟩ ⟨trivial, rfl⟩

theorem Statement.balanced {s : Statement} (printable : s.Printable decimal) :
    Balanced decimal s.tokens := by
  cases s with
  | watch table column => exact .cons trivial rfl (balanced_path printable)
  | define table source =>
    cases source with
    | literal l => exact .cons printable.1 rfl (.cons trivial rfl (Literal.balanced printable.2))
    | formula e => exact .cons printable.1 rfl (.cons trivial rfl (Expr.balanced printable.2))
  | set table column index op value =>
    obtain ⟨named, indexed, given⟩ := printable
    exact (balanced_path named).append
      ((balanced_index indexed).append (op.balanced (Expr.balanced given)))
  | append table rows => exact .cons printable.1 rfl (.cons trivial rfl (Literal.balanced printable.2))
  | assign name value => exact .cons printable.1.1 rfl (.cons trivial rfl (Expr.balanced printable.2))

/-! ## Expressions -/

theorem exists_path (table : String) (column : Option String) :
    ∃ path, pathTokens table column = .table table :: path ∧ Selects path column := by
  cases column with
  | none => exact ⟨[], rfl, .nothing⟩
  | some name => exact ⟨_, rfl, .word name⟩

theorem UnaryOp.signs (op : UnaryOp) : Signs op.token op := by
  cases op
  · exact .neg
  · exact .not

theorem BinaryOp.joins (op : BinaryOp) : op = .pow ∨ ∃ n ≤ 4, Joins (n + 1) op.token op := by
  cases op with
  | pow => exact .inl rfl
  | mul | div => exact .inr ⟨0, by omega, by constructor⟩
  | add | sub => exact .inr ⟨1, by omega, by constructor⟩
  | lt | gt | le | ge | eq | ne => exact .inr ⟨2, by omega, by constructor⟩
  | and => exact .inr ⟨3, by omega, .and⟩
  | or => exact .inr ⟨4, by omega, .or⟩

/-- Operands that are primary, with an operator between them, are an expression. -/
theorem derives_binary (op : BinaryOp) {a b : Expr} (left : Derives .primary ts a)
    (right : Derives .primary us b) : Derives (.tier 5) (ts ++ op.token :: us) (.binary op a b) := by
  rcases op.joins with rfl | ⟨n, tight, joins⟩
  · exact (Derives.power (.raised left (right.loosen 0))).widen (Nat.zero_le 5)
  · exact (Derives.binary joins (left.loosen (n + 1)) (right.loosen n)).widen (Nat.succ_le_succ tight)

/-- A printed expression is derived from its tokens, and is a primary one where it stands beside others. -/
theorem Expr.derives (printable : e.Printable decimal) :
    Derives (.tier 5) e.tokens e ∧ Derives .primary e.operand e := by
  have atom {e : Expr} (same : e.operand = e.tokens) (primary : Derives .primary e.tokens e) :
      Derives (.tier 5) e.tokens e ∧ Derives .primary e.operand e :=
    ⟨primary.loosen 5, same ▸ primary⟩
  induction e with
  | number n => exact atom rfl (.number n)
  | text s => exact atom rfl (.text s)
  | bool b =>
    cases b with
    | true => exact atom rfl .yes
    | false => exact atom rfl .no
  | name n => exact atom rfl (.name printable.2.1 printable.2.2)
  | column table column =>
    obtain ⟨path, shape, selects⟩ := exists_path table column
    refine atom rfl ?_
    rw [Expr.tokens, shape]
    exact .column table selects
  | pick table column index ih =>
    obtain ⟨path, shape, selects⟩ := exists_path table column
    refine atom rfl ?_
    rw [Expr.tokens, shape]
    exact .pick table selects (ih printable.2).1
  | unary op e ih =>
    have whole : Derives (.tier 5) (op.token :: e.operand) (.unary op e) :=
      (Derives.unary op.signs ((ih printable).2.loosen 0)).widen (Nat.zero_le 5)
    exact ⟨whole, .parens whole⟩
  | binary op a b left right =>
    have whole := derives_binary op (left printable.1).2 (right printable.2).2
    exact ⟨whole, .parens whole⟩

/-- A printed expression is read up to where the loosest tier stops. -/
theorem read_tokens (printable : e.Printable decimal) (stops : Stops 5 rest) :
    plain (readExpr (e.tokens ++ rest)) = .ok (e, rest) :=
  (reads_of_derives (Expr.derives printable).1).tier stops

/-- An operand is read up to where the tightest tier stops. -/
theorem read_operand (printable : e.Printable decimal) (stops : Stops 0 rest) :
    plain (readUnary (e.operand ++ rest)) = .ok (e, rest) := by
  have read := (reads_of_derives ((Expr.derives printable).2.loosen 0)).tier stops
  rwa [Category.read, readTier] at read

/-- The token begins an operand. -/
def Token.Opens : Token → Prop
  | number _ | text _ | word _ | table _ | openParen => True
  | _ => False

theorem Expr.opens_operand (e : Expr) : ∃ t ts, e.operand = t :: ts ∧ t.Opens := by
  cases e with
  | bool b => cases b <;> exact ⟨_, _, rfl, trivial⟩
  | column table column | pick table column index =>
    obtain ⟨path, shape, -⟩ := exists_path table column
    simp only [Expr.operand, enclose, Expr.tokens, shape]
    exact ⟨_, _, rfl, trivial⟩
  | _ => exact ⟨_, _, rfl, trivial⟩

theorem stops_of_opens (opens : t.Opens) (ts : List Token) : Stops 0 (t :: ts) := by
  cases t <;> first | exact opens.elim | exact stops_of_other (by nofun) (by nofun) (by nofun) (by nofun) 0 ts

/-! ## Table literals -/

theorem readRows_closeBracket (row : List Expr) (ts : List Token) :
    plain (readRows row (.closeBracket :: ts)) = .ok (addRow row [], ts) := by
  rw [readRows]
  rfl

theorem readRows_semicolon (row : List Expr) (ts : List Token) :
    plain (readRows row (.semicolon :: ts)) =
      plain (readRows [] ts) >>= fun p => .ok (addRow row p.1, p.2) := by
  rw [readRows]
  cases readRows [] ts <;> rfl

theorem readRows_opens (opens : t.Opens) (row : List Expr) (ts : List Token) :
    plain (readRows row (t :: ts)) =
      plain (readUnary (t :: ts)) >>= fun p => plain (readRows (row ++ [p.1]) p.2) := by
  rw [readRows]
  · cases readUnary (t :: ts) with
    | error fault => rfl
    | ok found =>
      obtain ⟨cell, rest, shorter⟩ := found
      show _ = plain (readRows (row ++ [cell]) rest)
      simp only
      cases readRows (row ++ [cell]) rest <;> rfl
  all_goals
    rintro rfl
    exact opens

theorem stops_cells (stops : Stops 0 rest) (cells : List Expr) :
    Stops 0 (cells.flatMap Expr.operand ++ rest) := by
  cases cells with
  | nil => exact stops
  | cons e cells =>
    obtain ⟨t, ts, shape, opens⟩ := e.opens_operand
    rw [List.flatMap_cons, shape]
    exact stops_of_opens opens _

/-- The cells of a row are read one by one. -/
theorem readRows_row {cells : List Expr} (printable : ∀ e ∈ cells, e.Printable decimal)
    (stops : Stops 0 rest) (row : List Expr) :
    plain (readRows row (cells.flatMap Expr.operand ++ rest)) = plain (readRows (row ++ cells) rest) := by
  induction cells generalizing row with
  | nil => rw [List.flatMap_nil, List.nil_append, List.append_nil]
  | cons e cells ih =>
    obtain ⟨own, others⟩ := List.forall_mem_cons.mp printable
    have read := read_operand own (stops_cells stops cells)
    obtain ⟨t, ts, shape, opens⟩ := e.opens_operand
    rw [shape, List.cons_append] at read
    rw [List.flatMap_cons, List.append_assoc, shape, List.cons_append, readRows_opens opens, read]
    exact (ih others (row ++ [e])).trans (by rw [List.append_assoc, List.singleton_append])

theorem addRow_of_ne_nil {row : List Expr} (some : row ≠ []) (rows : List (List Expr)) :
    addRow row rows = row :: rows := by
  obtain ⟨e, cells, rfl⟩ := List.exists_cons_of_ne_nil some
  rfl

theorem readRows_cells {rows : List (List Expr)} (nonempty : ∀ row ∈ rows, row ≠ [])
    (printable : ∀ row ∈ rows, ∀ e ∈ row, e.Printable decimal) (rest : List Token) :
    plain (readRows [] (cellTokens rows ++ .closeBracket :: rest)) = .ok (rows, rest) := by
  have stops {t : Token} (ends : t = .semicolon ∨ t = .closeBracket) (ts : List Token) :
      Stops 0 (t :: ts) := by
    rcases ends with rfl | rfl <;> exact stops_of_other (by nofun) (by nofun) (by nofun) (by nofun) 0 ts
  induction rows with
  | nil => exact readRows_closeBracket [] rest
  | cons row rows ih =>
    obtain ⟨some, others⟩ := List.forall_mem_cons.mp nonempty
    obtain ⟨own, printableOthers⟩ := List.forall_mem_cons.mp printable
    cases rows with
    | nil =>
      rw [cellTokens_singleton, readRows_row own (stops (.inr rfl) _), List.nil_append,
        readRows_closeBracket, addRow_of_ne_nil some]
    | cons next rows =>
      rw [cellTokens_cons_cons, List.append_assoc, List.cons_append,
        readRows_row own (stops (.inl rfl) _), List.nil_append, readRows_semicolon,
        ih others printableOthers]
      exact congrArg (fun rows => Except.ok (rows, rest)) (addRow_of_ne_nil some _)

/-- What `readHeader?` reads, without the reason why the tokens left are fewer. -/
def header? (ts : List Token) : Option (List String × List Token) :=
  (readHeader? ts).map fun p => (p.1, p.2.val)

theorem header?_word (name : String) (ts : List Token) :
    header? (.word name :: ts) =
      if isReserved name then none else (header? ts).map fun p => (name :: p.1, p.2) := by
  rw [header?, header?, readHeader?]
  split
  · rfl
  · cases readHeader? ts <;> rfl

theorem header?_names {names : List String} (free : ∀ name ∈ names, IsFreeName name)
    (rest : List Token) : header? (names.map .word ++ .pipe :: rest) = some (names, rest) := by
  induction names with
  | nil => rfl
  | cons name names ih =>
    obtain ⟨own, others⟩ := List.forall_mem_cons.mp free
    have notReserved : ¬ isReserved name := by simp [isReserved, own.2]
    rw [List.map_cons, List.cons_append, header?_word, if_neg notReserved, ih others]
    rfl

/-- An operand is a word by itself, or begins with what stands in no header. -/
theorem header?_operand (e : Expr) (other : header? rest = none) :
    header? (e.operand ++ rest) = none := by
  have word (name : String) : header? (.word name :: rest) = none := by
    rw [header?_word, other]
    split <;> rfl
  cases e with
  | name n => exact word n
  | bool b =>
    cases b with
    | true => exact word "true"
    | false => exact word "false"
  | column table column | pick table column index =>
    obtain ⟨path, shape, -⟩ := exists_path table column
    simp only [Expr.operand, enclose, Expr.tokens, shape]
    rfl
  | _ => rfl

/-- Cells without a header before them are not taken for one. -/
theorem header?_cells (rows : List (List Expr)) (rest : List Token) :
    header? (cellTokens rows ++ .closeBracket :: rest) = none := by
  have cells (row : List Expr) {ts : List Token} (other : header? ts = none) :
      header? (row.flatMap Expr.operand ++ ts) = none := by
    induction row with
    | nil => exact other
    | cons e row ih =>
      rw [List.flatMap_cons, List.append_assoc]
      exact header?_operand e ih
  rcases rows with _ | ⟨row, _ | ⟨next, rows⟩⟩
  · rfl
  · rw [cellTokens_singleton]
    exact cells row rfl
  · rw [cellTokens_cons_cons, List.append_assoc]
    exact cells row rfl

theorem firstDuplicate?_of_nodup {before names : List String} (distinct : names.Nodup)
    (new : ∀ name ∈ names, name ∉ before) : firstDuplicate? before names = none := by
  induction names generalizing before with
  | nil => rfl
  | cons name names ih =>
    obtain ⟨fresh, others⟩ := List.nodup_cons.mp distinct
    obtain ⟨own, newOthers⟩ := List.forall_mem_cons.mp new
    rw [firstDuplicate?, if_neg own]
    refine ih others fun other member again => ?_
    rcases List.mem_cons.mp again with rfl | earlier
    · exact fresh member
    · exact newOthers other member earlier

/-- What was read is what it is without the reason why the tokens left are fewer. -/
theorem exists_of_plain {α : Type} {fewer : List Token → Prop} {a : α}
    {read : Except SyntaxFault (α × { rest : List Token // fewer rest })}
    (plainly : plain read = .ok (a, rest)) : ∃ within, read = .ok (a, ⟨rest, within⟩) := by
  cases read with
  | error fault => cases plainly
  | ok found =>
    obtain ⟨b, after, within⟩ := found
    cases plainly
    exact ⟨within, rfl⟩

/-- The header of a printed literal is read as its columns, whether there are any or not. -/
theorem header?_tokens {l : Literal} (printable : l.Printable decimal) :
    (header? l.tokens).getD ([], l.tokens) = (l.columns, cellTokens l.rows ++ [.closeBracket]) := by
  obtain ⟨columns, rows⟩ := l
  cases columns with
  | nil =>
    simp only [Literal.tokens, headerTokens, List.nil_append]
    rw [header?_cells]
    rfl
  | cons name names =>
    have read := header?_names printable.columns (cellTokens rows ++ [.closeBracket])
    simp only [Literal.tokens, headerTokens, List.append_assoc, List.cons_append, List.nil_append]
    rw [read]
    rfl

theorem startsRecord_of_printable (printable : ∀ t ∈ ts, t.Printable decimal) :
    startsRecord ts = false := by
  unfold startsRecord
  split
  · exact (printable .colon (by simp)).elim
  · rfl

theorem dropWhile_of_printable (printable : ∀ t ∈ ts, t.Printable decimal) :
    ts.dropWhile (· = .newline) = ts := by
  cases ts with
  | nil => rfl
  | cons t ts =>
    refine List.dropWhile_cons_of_neg ?_
    rintro lineFeed
    obtain rfl := of_decide_eq_true lineFeed
    exact (printable .newline List.mem_cons_self).elim

/-- A literal that is no record is read as rows, under the header if there is one. -/
theorem readLiteral_rows {start body : List Token} {columns : List String} {rows : List (List Expr)}
    {l : Literal} (begins : ts.dropWhile (· = .newline) = start) (notRecord : startsRecord start = false)
    (header : (header? start).getD ([], start) = (columns, body))
    (distinct : firstDuplicate? [] columns = none) (read : plain (readRows [] body) = .ok (rows, rest))
    (checked : checkedLiteral columns rows = .ok l) : readLiteral ts = .ok (l, rest) := by
  subst begins
  obtain ⟨within, readRows⟩ := exists_of_plain read
  rw [readLiteral]
  simp only [notRecord, Bool.false_eq_true, if_false]
  rw [header?] at header
  cases found : readHeader? (ts.dropWhile (· = .newline)) with
  | none =>
    rw [found] at header
    cases header
    simp only [distinct, readRows, checked]
  | some p =>
    rw [found] at header
    cases header
    simp only [distinct, readRows, checked]

theorem readLiteral_tokens {l : Literal} (printable : l.Printable decimal) :
    readLiteral l.tokens = .ok (l, []) := by
  have spelled (t : Token) (member : t ∈ l.tokens) : t.Printable decimal :=
    (Literal.balanced printable).printable t (List.mem_cons_of_mem _ member)
  exact readLiteral_rows (dropWhile_of_printable spelled) (startsRecord_of_printable spelled)
    (header?_tokens printable) (firstDuplicate?_of_nodup printable.distinct (by simp))
    (readRows_cells printable.nonempty printable.cells [])
    (checkedLiteral_eq_ok_iff.mpr ⟨rfl, printable.width⟩)

/-! ## Statements -/

theorem readExpr_tokens (printable : e.Printable decimal) :
    ∃ fewer, readExpr e.tokens = .ok (e, ⟨[], fewer⟩) := by
  have read := read_tokens printable (stops_nil 5)
  rw [List.append_nil] at read
  exact exists_of_plain read

theorem readIndex?_tokens {index : Option Expr} (printable : ∀ e ∈ index, e.Printable decimal)
    (other : ∀ token ∈ rest.head?, token ≠ .openBrace) :
    plain (readIndex? (indexTokens index ++ rest)) = .ok (index, rest) := by
  cases index with
  | none =>
    rw [indexTokens, List.nil_append]
    unfold readIndex?
    split
    · exact absurd rfl (other .openBrace rfl)
    · rfl
  | some e =>
    have stops : Stops 5 (.closeBrace :: rest) :=
      stops_of_other (by nofun) (by nofun) (by nofun) (by nofun) 5 rest
    obtain ⟨within, read⟩ := exists_of_plain (read_tokens (printable e rfl) stops)
    have shape : indexTokens (some e) ++ rest = .openBrace :: (e.tokens ++ .closeBrace :: rest) := by
      simp [indexTokens]
    rw [shape, readIndex?, read]
    rfl

theorem setOperator?_token (op : SetOp) : setOperator? op.token = some op := by
  cases op <;> rfl

theorem readSet_tokens {table column : String} {index : Option Expr} (op : SetOp)
    (indexed : ∀ e ∈ index, e.Printable decimal) (printable : e.Printable decimal) :
    readSet table (.word column :: (indexTokens index ++ op.token :: e.tokens)) =
      .ok (.set table column index op e, []) := by
  have other : ∀ token ∈ (op.token :: e.tokens).head?, token ≠ .openBrace := by
    rintro _ ⟨⟩
    cases op <;> nofun
  obtain ⟨within, picked⟩ := exists_of_plain (readIndex?_tokens indexed other)
  obtain ⟨fewer, read⟩ := readExpr_tokens printable
  simp only [readSet, readColumnName, picked, bind, Except.bind]
  split
  · next equals => cases op <;> cases equals
  · rw [List.head?_cons, Option.bind_some, setOperator?_token]
    simp only [List.tail_cons, read]
    rfl

/-- The tokens of an expression do not begin with a bracket: a formula is not taken for a literal. -/
theorem Expr.tokens_ne_openBracket (e : Expr) (ts : List Token) : e.tokens ≠ .openBracket :: ts := by
  cases e with
  | bool b => cases b <;> nofun
  | column table column | pick table column index =>
    obtain ⟨path, shape, -⟩ := exists_path table column
    simp only [Expr.tokens, shape]
    nofun
  | unary op e => cases op <;> nofun
  | binary op a b =>
    obtain ⟨t, us, shape, opens⟩ := a.opens_operand
    intro same
    rw [Expr.tokens, show enclose a a.tokens = t :: us from shape] at same
    cases same
    exact opens
  | _ => nofun

/-- A printed statement is read back from its tokens. -/
theorem readStatementHead_tokens {s : Statement} (printable : s.Printable decimal) :
    readStatementHead s.tokens = .ok (s, []) := by
  cases s with
  | watch table column =>
    obtain ⟨path, shape, selects⟩ := exists_path table column
    have read : plain (readColumn? (path ++ [])) = .ok (column, []) :=
      readColumn?_of_selects selects (by simp)
    rw [List.append_nil] at read
    obtain ⟨within, read⟩ := exists_of_plain read
    simp only [Statement.tokens, shape, readStatementHead, readWatch, read]
  | define table source =>
    cases source with
    | literal l =>
      simp only [Statement.tokens, readStatementHead, readTableStatement,
        readLiteral_tokens printable.2]
      rfl
    | formula e =>
      obtain ⟨fewer, read⟩ := readExpr_tokens printable.2
      simp only [Statement.tokens, readStatementHead]
      rw [readTableStatement, read]
      · rfl
      · exact e.tokens_ne_openBracket
  | set table column index op value =>
    exact readSet_tokens op printable.2.1 printable.2.2
  | append table rows =>
    simp only [Statement.tokens, readStatementHead, readTableStatement,
      readLiteral_tokens printable.2]
    rfl
  | assign name value =>
    obtain ⟨fewer, read⟩ := readExpr_tokens printable.2
    have notReserved : isReserved name = false := by simp [isReserved, printable.1.2]
    simp only [Statement.tokens, readStatementHead, notReserved, Bool.false_eq_true, if_false, read]
    rfl

/-- **A printed statement is read back.** -/
theorem readStatement_spelling {s : Statement} (printable : s.Printable decimal) :
    readStatement (s.spelling decimal) = .ok s := by
  have cut := tokenize_spell (Statement.balanced printable).printable
  simp only [readStatement, Statement.spelling, cut, bind, Except.bind,
    readStatementHead_tokens printable]
  rfl

end Ripple.Program
