import Ripple.Program.Expression
import Ripple.Proofs.ChangeCases

/-!
Expressions are read by their grammar:

    or      ::= and | or '|' and
    and     ::= cmp | and '&' cmp
    cmp     ::= add | cmp ('<' | '>' | '<=' | '>=' | '==' | '!=') add
    add     ::= mul | add ('+' | '-') mul
    mul     ::= unary | mul ('*' | '/') unary
    unary   ::= power | ('-' | '!') unary
    power   ::= primary | primary '^' unary
    primary ::= number | text | 'true' | 'false' | name
              | table ['.' column] ['{' or '}'] | '(' or ')'

`Derives` is this grammar with the trees that it gives. Whatever is read off the head of some tokens is
derived (`derives_of_read`). Conversely a reader takes what is derived off the head of any tokens that it
could not go on with (`read_of_derives`): a binary operator is left to the loop over its tier, which is
why the induction says what that loop is started with.
-/

namespace Ripple.Program

/-! ## The grammar -/

/-- The categories of the grammar. The tiers of the binary operators are counted from `unary`, which is
tier 0, up to `or`, which is tier 5. -/
inductive Category where
  | tier (n : Nat)
  | power
  | primary
  deriving DecidableEq, Repr

/-- The token writes a binary operator of a tier. -/
inductive Joins : Nat → Token → BinaryOp → Prop
  | or : Joins 5 .pipe .or
  | and : Joins 4 .ampersand .and
  | lt : Joins 3 .less .lt
  | gt : Joins 3 .greater .gt
  | le : Joins 3 .lessEqual .le
  | ge : Joins 3 .greaterEqual .ge
  | eq : Joins 3 .same .eq
  | ne : Joins 3 .different .ne
  | add : Joins 2 .plus .add
  | sub : Joins 2 .minus .sub
  | mul : Joins 1 .star .mul
  | div : Joins 1 .slash .div

/-- The token writes an operator with one operand. -/
inductive Signs : Token → UnaryOp → Prop
  | neg : Signs .minus .neg
  | not : Signs .bang .not

/-- The tokens name a column after a table name: with a word, with a position counted from one, or not
at all. -/
inductive Selects : List Token → Option String → Prop
  | nothing : Selects [] none
  | word (name : String) : Selects [.dot, .word name] (some name)
  | position {n : Number} {k : Int} (integral : n.toInt? = some k) (positive : 1 ≤ k) :
      Selects [.dot, .number n] (some (toString (min k.toNat (UInt64.size - 1))))

/-- The tokens are an expression of the category, with the tree. -/
inductive Derives : Category → List Token → Expr → Prop
  | tighter {n : Nat} {ts : List Token} {e : Expr} (operand : Derives (.tier n) ts e) :
      Derives (.tier (n + 1)) ts e
  | binary {n : Nat} {us vs : List Token} {token : Token} {op : BinaryOp} {a b : Expr}
      (joins : Joins (n + 1) token op) (left : Derives (.tier (n + 1)) us a)
      (right : Derives (.tier n) vs b) :
      Derives (.tier (n + 1)) (us ++ token :: vs) (.binary op a b)
  | power {ts : List Token} {e : Expr} (operand : Derives .power ts e) : Derives (.tier 0) ts e
  | unary {ts : List Token} {token : Token} {op : UnaryOp} {e : Expr} (signs : Signs token op)
      (operand : Derives (.tier 0) ts e) : Derives (.tier 0) (token :: ts) (.unary op e)
  | primary {ts : List Token} {e : Expr} (operand : Derives .primary ts e) : Derives .power ts e
  | raised {us vs : List Token} {a b : Expr} (base : Derives .primary us a)
      (exponent : Derives (.tier 0) vs b) :
      Derives .power (us ++ .caret :: vs) (.binary .pow a b)
  | number (n : Number) : Derives .primary [.number n] (.number n)
  | text (s : String) : Derives .primary [.text s] (.text s)
  | yes : Derives .primary [.word "true"] (.bool true)
  | no : Derives .primary [.word "false"] (.bool false)
  | name {name : String} (notTrue : name ≠ "true") (notFalse : name ≠ "false") :
      Derives .primary [.word name] (.name name)
  | column (table : String) {path : List Token} {column : Option String}
      (selects : Selects path column) :
      Derives .primary (.table table :: path) (.column table column)
  | pick (table : String) {path ts : List Token} {column : Option String} {index : Expr}
      (selects : Selects path column) (inside : Derives (.tier 5) ts index) :
      Derives .primary (.table table :: path ++ .openBrace :: ts ++ [.closeBrace])
        (.pick table column index)
  | parens {ts : List Token} {e : Expr} (inside : Derives (.tier 5) ts e) :
      Derives .primary (.openParen :: ts ++ [.closeParen]) e

variable {n m : Nat} {token : Token} {op : BinaryOp} {ts us vs rest after : List Token} {e : Expr}
  {c : Category} {path : List Token} {column : Option String}

/-- An expression in parentheses, or without an operator, is one of every tier. -/
theorem Derives.loosen (primary : Derives .primary ts e) (n : Nat) : Derives (.tier n) ts e := by
  induction n with
  | zero => exact .power (.primary primary)
  | succ n ih => exact .tighter ih

/-! ## What the tokens write -/

theorem operator?_eq_some_iff : operator? n token = some op ↔ Joins n token op := by
  constructor
  · intro found
    unfold operator? at found
    split at found <;> cases found
    all_goals constructor
  · rintro (_ | _) <;> rfl

theorem prefixOperator?_eq_some_iff {op : UnaryOp} :
    prefixOperator? token = some op ↔ Signs token op := by
  constructor
  · intro found
    unfold prefixOperator? at found
    split at found <;> cases found
    all_goals constructor
  · rintro (_ | _) <;> rfl

theorem positionName?_eq_some_iff {n : Number} {name : String} :
    positionName? n = some name ↔
      ∃ k, n.toInt? = some k ∧ 1 ≤ k ∧ toString (min k.toNat (UInt64.size - 1)) = name := by
  simp only [positionName?, Option.map_eq_some_iff, Option.filter_eq_some_iff, decide_eq_true_eq]
  constructor
  · rintro ⟨_, ⟨⟨k, integral, rfl⟩, positive⟩, rfl⟩
    exact ⟨k, integral, by omega, rfl⟩
  · rintro ⟨k, integral, positive, rfl⟩
    exact ⟨_, ⟨⟨k, integral, rfl⟩, by omega⟩, rfl⟩

/-! ## The readers as plain functions -/

/-- What was read, without the reason why the tokens left are fewer. -/
def plain {α : Type} {fewer : List Token → Prop} :
    Except SyntaxFault (α × { rest : List Token // fewer rest }) → Except SyntaxFault (α × List Token)
  | .ok (a, rest) => .ok (a, rest.val)
  | .error fault => .error fault

/-- Reads an expression of the category off the head of some tokens. -/
def Category.read : Category → List Token → Except SyntaxFault (Expr × List Token)
  | .tier n, ts => plain (readTier n ts)
  | .power, ts => plain (readPower ts)
  | .primary, ts => plain (readPrimary ts)

/-- Goes on with the operators of a tier after a first operand. -/
def operands (n : Nat) (left : Expr) (ts : List Token) : Except SyntaxFault (Expr × List Token) :=
  plain (readOperands n left ts)

/-- Goes on after a base, if a caret follows. -/
def raise (base : Expr) : List Token → Except SyntaxFault (Expr × List Token)
  | .caret :: more => do
    let (exponent, rest) ← Category.read (.tier 0) more
    return (.binary .pow base exponent, rest)
  | rest => .ok (base, rest)

/-- Goes on after a table and its column, if an index follows. -/
def pickIndexed (table : String) (column : Option String) :
    List Token → Except SyntaxFault (Expr × List Token)
  | .openBrace :: inside => do
    let (index, closing) ← Category.read (.tier 5) inside
    match closing with
    | .closeBrace :: rest => return (.pick table column index, rest)
    | _ => throw .openIndex
  | rest => .ok (.column table column, rest)

theorem read_shorter (read : c.read ts = .ok (e, rest)) : rest.length < ts.length := by
  cases c <;> simp only [Category.read, plain] at read
  all_goals
    split at read
    · next after _ =>
      cases read
      exact after.property
    · cases read

theorem read_tier_succ (n : Nat) (ts : List Token) :
    Category.read (.tier (n + 1)) ts =
      Category.read (.tier n) ts >>= fun p => operands (n + 1) p.1 p.2 := by
  simp only [Category.read, operands]
  rw [readTier]
  cases readTier n ts with
  | error fault => rfl
  | ok found =>
    obtain ⟨left, rest, shorter⟩ := found
    simp only [plain, bind, Except.bind]
    cases readOperands (n + 1) left rest <;> rfl

theorem operands_nil (n : Nat) (left : Expr) : operands n left [] = .ok (left, []) := by
  rw [operands, readOperands]
  rfl

theorem operands_stop (stop : operator? n token = none) (left : Expr) (ts : List Token) :
    operands n left (token :: ts) = .ok (left, token :: ts) := by
  rw [operands, readOperands]
  split
  · rfl
  · next go =>
    cases stop.symm.trans go

theorem operands_step (go : operator? n token = some op) (left : Expr) (ts : List Token) :
    operands n left (token :: ts) =
      Category.read (.tier (n - 1)) ts >>= fun p => operands n (.binary op left p.1) p.2 := by
  simp only [operands, Category.read]
  rw [readOperands]
  split
  · next stop =>
    cases go.symm.trans stop
  · next same =>
    cases go.symm.trans same
    cases readTier (n - 1) ts with
    | error fault => rfl
    | ok found =>
      obtain ⟨right, rest, shorter⟩ := found
      simp only [plain, bind, Except.bind]
      cases readOperands n (.binary op left right) rest <;> rfl

theorem read_unary_signed {op : UnaryOp} (signed : prefixOperator? token = some op)
    (ts : List Token) :
    Category.read (.tier 0) (token :: ts) =
      Category.read (.tier 0) ts >>= fun p => .ok (.unary op p.1, p.2) := by
  simp only [Category.read, readTier]
  rw [readUnary]
  split
  · next same =>
    cases signed.symm.trans same
    cases readUnary ts <;> rfl
  · next plain =>
    cases signed.symm.trans plain

theorem read_unary_plain (unsigned : prefixOperator? token = none) (ts : List Token) :
    Category.read (.tier 0) (token :: ts) = Category.read .power (token :: ts) := by
  simp only [Category.read, readTier]
  rw [readUnary]
  split
  · next signed =>
    cases unsigned.symm.trans signed
  · rfl

theorem read_power (ts : List Token) :
    Category.read .power ts = Category.read .primary ts >>= fun p => raise p.1 p.2 := by
  simp only [Category.read]
  rw [readPower]
  cases readPrimary ts with
  | error fault => rfl
  | ok found =>
    obtain ⟨base, rest, shorter⟩ := found
    simp only [plain, bind, Except.bind]
    cases rest with
    | nil => rfl
    | cons token more =>
      cases token with
      | caret =>
        simp only [raise, Category.read, readTier]
        cases readUnary more <;> rfl
      | _ => rfl

theorem read_table (table : String) (ts : List Token) :
    Category.read .primary (.table table :: ts) =
      plain (readColumn? ts) >>= fun p => pickIndexed table p.1 p.2 := by
  simp only [Category.read]
  rw [readPrimary]
  cases readColumn? ts with
  | error fault => rfl
  | ok found =>
    obtain ⟨column, rest, within⟩ := found
    simp only [plain, bind, Except.bind]
    cases rest with
    | nil => rfl
    | cons token inside =>
      cases token with
      | openBrace =>
        simp only [pickIndexed, Category.read, loosest]
        cases readTier 5 inside with
        | error fault => rfl
        | ok found =>
          obtain ⟨i, closing, shorter⟩ := found
          simp only [plain, bind, Except.bind]
          cases closing with
          | nil => rfl
          | cons token rest => cases token <;> rfl
      | _ => rfl

/-- Goes on after an expression, if its parenthesis is closed. -/
def closeParens (e : Expr) : List Token → Except SyntaxFault (Expr × List Token)
  | .closeParen :: rest => .ok (e, rest)
  | _ => .error .openParen

theorem read_openParen (ts : List Token) :
    Category.read .primary (.openParen :: ts) =
      Category.read (.tier 5) ts >>= fun p => closeParens p.1 p.2 := by
  simp only [Category.read]
  rw [readPrimary]
  simp only [loosest]
  cases readTier 5 ts with
  | error fault => rfl
  | ok found =>
    obtain ⟨e, closing, shorter⟩ := found
    simp only [plain, bind, Except.bind]
    cases closing with
    | nil => rfl
    | cons token rest => cases token <;> rfl

theorem read_number (n : Number) (ts : List Token) :
    Category.read .primary (.number n :: ts) = .ok (.number n, ts) := by
  rw [Category.read, readPrimary]
  rfl

theorem read_text (s : String) (ts : List Token) :
    Category.read .primary (.text s :: ts) = .ok (.text s, ts) := by
  rw [Category.read, readPrimary]
  rfl

/-- The tree of a word. -/
def ofWord (name : String) : Expr :=
  if name = "true" then .bool true else if name = "false" then .bool false else .name name

theorem read_word (name : String) (ts : List Token) :
    Category.read .primary (.word name :: ts) = .ok (ofWord name, ts) := by
  rw [Category.read, readPrimary]
  rfl

/-! ## What is read is derived -/

/-- What a reader takes off the head of the tokens is an expression of the category. -/
def Category.Takes (c : Category) (ts : List Token) (e : Expr) (rest : List Token) : Prop :=
  ∃ used, ts = used ++ rest ∧ Derives c used e

/-- The readers are right about all lists of tokens that are shorter. -/
structure RightBelow (size : Nat) : Prop where
  read : ∀ (c : Category) (ts : List Token) (e : Expr) (rest : List Token), ts.length < size →
    c.read ts = .ok (e, rest) → c.Takes ts e rest
  operands : ∀ (n : Nat) (us : List Token) (left : Expr) (ts : List Token) (e : Expr)
    (rest : List Token), ts.length < size → Derives (.tier n) us left →
    operands n left ts = .ok (e, rest) →
    ∃ used, ts = used ++ rest ∧ Derives (.tier n) (us ++ used) e

theorem derives_ofWord (name : String) : Derives .primary [.word name] (ofWord name) := by
  unfold ofWord
  split
  · next same => exact same ▸ .yes
  · next notTrue =>
    split
    · next same => exact same ▸ .no
    · next notFalse => exact .name notTrue notFalse

theorem selects_of_readColumnName {name : String} {after : After ts}
    (read : readColumnName ts = .ok (name, after)) :
    ∃ token, ts = token :: after.val ∧ Selects [.dot, token] (some name) := by
  unfold readColumnName at read
  split at read
  · cases read
    exact ⟨_, rfl, .word _⟩
  · split at read
    · next found =>
      cases read
      obtain ⟨k, integral, positive, rfl⟩ := positionName?_eq_some_iff.mp found
      exact ⟨_, rfl, .position integral positive⟩
    · cases read
  · cases read

theorem selects_of_readColumn? {after : Within ts} (read : readColumn? ts = .ok (column, after)) :
    ∃ path, ts = path ++ after.val ∧ Selects path column := by
  unfold readColumn? at read
  split at read
  · split at read
    · cases read
    · next found =>
      cases read
      obtain ⟨token, shape, selects⟩ := selects_of_readColumnName found
      exact ⟨[.dot, token], congrArg (Token.dot :: ·) shape, selects⟩
  · cases read
    exact ⟨[], rfl, .nothing⟩

section

variable {size : Nat} (right : RightBelow size)

include right

theorem takes_pickIndexed {table : String} (short : ts.length < size) (selects : Selects path column)
    (read : pickIndexed table column ts = .ok (e, rest)) :
    ∃ used, ts = used ++ rest ∧ Derives .primary (.table table :: path ++ used) e := by
  unfold pickIndexed at read
  split at read
  · next inside =>
    obtain ⟨⟨i, closing⟩, found, closed⟩ := bind_eq_ok_iff.mp read
    obtain ⟨used, rfl, derives⟩ := right.read _ _ _ _ (Nat.lt_of_succ_lt short) found
    dsimp only at closed
    split at closed
    · cases closed
      refine ⟨.openBrace :: used ++ [.closeBrace], by simp, ?_⟩
      simpa using Derives.pick table selects derives
    · cases closed
  · cases read
    exact ⟨[], rfl, by simpa using Derives.column table selects⟩

theorem takes_primary (size_eq : ts.length = size)
    (read : Category.read .primary ts = .ok (e, rest)) : Category.Takes .primary ts e rest := by
  cases ts with
  | nil =>
    rw [Category.read, readPrimary] at read
    cases read
  | cons token more =>
    have short : more.length < size := size_eq ▸ Nat.lt_succ_self _
    cases token with
    | number n =>
      cases (read_number n more).symm.trans read
      exact ⟨[_], rfl, .number n⟩
    | text s =>
      cases (read_text s more).symm.trans read
      exact ⟨[_], rfl, .text s⟩
    | word name =>
      cases (read_word name more).symm.trans read
      exact ⟨[_], rfl, derives_ofWord name⟩
    | table name =>
      rw [read_table] at read
      obtain ⟨⟨column, after⟩, selected, read⟩ := bind_eq_ok_iff.mp read
      cases found : readColumn? more with
      | error fault =>
        rw [found] at selected
        cases selected
      | ok answer =>
        rw [found] at selected
        cases selected
        obtain ⟨path, split, selects⟩ := selects_of_readColumn? found
        have within := Nat.lt_of_le_of_lt answer.2.property short
        obtain ⟨used, cut, derives⟩ := takes_pickIndexed right within selects read
        exact ⟨.table name :: path ++ used, by simp [split, cut], derives⟩
    | openParen =>
      rw [read_openParen] at read
      obtain ⟨⟨inner, after⟩, inside, closed⟩ := bind_eq_ok_iff.mp read
      obtain ⟨used, rfl, derives⟩ := right.read _ _ _ _ short inside
      unfold closeParens at closed
      split at closed
      · next others same =>
        obtain rfl : after = .closeParen :: others := same
        cases closed
        exact ⟨.openParen :: used ++ [.closeParen], by simp, .parens derives⟩
      · cases closed
    | _ =>
      rw [Category.read, readPrimary] at read
      · cases read
      all_goals simp

theorem takes_power (size_eq : ts.length = size) (read : Category.read .power ts = .ok (e, rest)) :
    Category.Takes .power ts e rest := by
  rw [read_power] at read
  obtain ⟨⟨base, after⟩, first, goesOn⟩ := bind_eq_ok_iff.mp read
  have shorter : after.length < size := size_eq ▸ read_shorter first
  obtain ⟨used, split, derives⟩ := takes_primary right size_eq first
  unfold raise at goesOn
  split at goesOn
  · next more same =>
    obtain rfl : after = .caret :: more := same
    obtain ⟨⟨exponent, closing⟩, found, done⟩ := bind_eq_ok_iff.mp goesOn
    cases done
    obtain ⟨others, rfl, derives'⟩ := right.read _ _ _ _ (Nat.lt_of_succ_lt shorter) found
    exact ⟨used ++ .caret :: others, by simp [split], .raised derives derives'⟩
  · cases goesOn
    exact ⟨used, split, .primary derives⟩

theorem takes_unary (size_eq : ts.length = size) (read : Category.read (.tier 0) ts = .ok (e, rest)) :
    Category.Takes (.tier 0) ts e rest := by
  cases ts with
  | nil =>
    rw [Category.read, readTier, readUnary] at read
    cases read
  | cons token more =>
    cases signed : prefixOperator? token with
    | some op =>
      rw [read_unary_signed signed] at read
      obtain ⟨⟨operand, after⟩, found, done⟩ := bind_eq_ok_iff.mp read
      cases done
      obtain ⟨used, rfl, derives⟩ := right.read _ _ _ _ (size_eq ▸ Nat.lt_succ_self _) found
      exact ⟨token :: used, rfl, .unary (prefixOperator?_eq_some_iff.mp signed) derives⟩
    | none =>
      rw [read_unary_plain signed] at read
      obtain ⟨used, split, derives⟩ := takes_power right size_eq read
      exact ⟨used, split, .power derives⟩

theorem takes_operands {left : Expr} (size_eq : ts.length = size) (first : Derives (.tier n) us left)
    (read : operands n left ts = .ok (e, rest)) :
    ∃ used, ts = used ++ rest ∧ Derives (.tier n) (us ++ used) e := by
  cases ts with
  | nil =>
    cases (operands_nil n left).symm.trans read
    exact ⟨[], rfl, by simpa using first⟩
  | cons token more =>
    cases joins : operator? n token with
    | none =>
      cases (operands_stop joins left more).symm.trans read
      exact ⟨[], rfl, by simpa using first⟩
    | some op =>
      rw [operands_step joins] at read
      obtain ⟨⟨operand, after⟩, found, others⟩ := bind_eq_ok_iff.mp read
      have shorter := read_shorter found
      have short : more.length < size := size_eq ▸ Nat.lt_succ_self _
      obtain ⟨used, rfl, derives⟩ := right.read _ _ _ _ short found
      cases n with
      | zero => cases operator?_eq_some_iff.mp joins
      | succ n =>
        have further := Derives.binary (operator?_eq_some_iff.mp joins) first derives
        obtain ⟨more, rfl, all⟩ :=
          right.operands _ _ _ _ _ _ (Nat.lt_trans shorter short) further others
        exact ⟨token :: used ++ more, by simp, by simpa using all⟩

theorem takes_tier (size_eq : ts.length = size) (read : Category.read (.tier n) ts = .ok (e, rest)) :
    Category.Takes (.tier n) ts e rest := by
  induction n generalizing e rest with
  | zero => exact takes_unary right size_eq read
  | succ n ih =>
    rw [read_tier_succ] at read
    obtain ⟨⟨left, after⟩, first, others⟩ := bind_eq_ok_iff.mp read
    have shorter := size_eq ▸ read_shorter first
    obtain ⟨used, split, derives⟩ := ih first
    obtain ⟨more, cut, all⟩ := right.operands _ _ _ _ _ _ shorter (.tighter derives) others
    exact ⟨used ++ more, by simp_all, all⟩

end

theorem rightBelow (size : Nat) : RightBelow size := by
  induction size with
  | zero => exact ⟨by simp, by simp⟩
  | succ size ih =>
    constructor
    · intro c ts e rest short read
      rcases Nat.lt_succ_iff_lt_or_eq.mp short with shorter | same
      · exact ih.read c ts e rest shorter read
      · cases c with
        | tier n => exact takes_tier ih same read
        | power => exact takes_power ih same read
        | primary => exact takes_primary ih same read
    · intro n us left ts e rest short first read
      rcases Nat.lt_succ_iff_lt_or_eq.mp short with shorter | same
      · exact ih.operands n us left ts e rest shorter first read
      · exact takes_operands ih same first read

/-- Whatever is read off the head of some tokens is an expression. -/
theorem derives_of_read (read : c.read ts = .ok (e, rest)) : c.Takes ts e rest :=
  (rightBelow (ts.length + 1)).read c ts e rest (Nat.lt_succ_self _) read

/-! ## What is derived is read -/

/-- No column and no index follows. -/
def Ended (ts : List Token) : Prop := ∀ token ∈ ts.head?, token ≠ .dot ∧ token ≠ .openBrace

/-- Besides, no caret follows and no operator of the tier or of a tighter one. -/
def Stops (n : Nat) (ts : List Token) : Prop :=
  Ended ts ∧ ∀ token ∈ ts.head?, token ≠ .caret ∧ ∀ m ≤ n, operator? m token = none

theorem Stops.mono (stops : Stops n ts) (tighter : m ≤ n) : Stops m ts :=
  ⟨stops.1, fun token head =>
    ⟨(stops.2 token head).1, fun k below => (stops.2 token head).2 k (Nat.le_trans below tighter)⟩⟩

theorem stops_nil (n : Nat) : Stops n [] := ⟨by simp [Ended], by simp⟩

/-- An operator ends the operands of tighter tiers. -/
theorem stops_of_joins (joins : Joins (n + 1) token op) (ts : List Token) : Stops n (token :: ts) := by
  have none (m : Nat) (below : m ≤ n) : operator? m token = none := by
    refine Option.eq_none_iff_forall_ne_some.mpr fun other found => ?_
    have joins' := operator?_eq_some_iff.mp found
    cases joins <;> cases joins' <;> omega
  constructor
  · intro other head
    cases head
    cases joins <;> exact ⟨nofun, nofun⟩
  · intro other head
    cases head
    refine ⟨?_, none⟩
    cases joins <;> exact nofun

/-- So does a token that writes no operator and begins no column and no index. -/
theorem stops_of_other (dot : token ≠ .dot) (brace : token ≠ .openBrace) (caret : token ≠ .caret)
    (other : ∀ m op, ¬ Joins m token op) (n : Nat) (ts : List Token) : Stops n (token :: ts) := by
  constructor
  · rintro _ ⟨⟩
    exact ⟨dot, brace⟩
  · rintro _ ⟨⟩
    refine ⟨caret, fun m _ => Option.eq_none_iff_forall_ne_some.mpr fun op found => ?_⟩
    exact other m op (operator?_eq_some_iff.mp found)

theorem operands_of_stops (stops : Stops n ts) (e : Expr) : operands n e ts = .ok (e, ts) := by
  cases ts with
  | nil => exact operands_nil n e
  | cons token rest => exact operands_stop ((stops.2 token rfl).2 n (Nat.le_refl n)) e rest

theorem raise_of_stops (stops : Stops n ts) (e : Expr) : raise e ts = .ok (e, ts) := by
  unfold raise
  split
  · exact absurd rfl (stops.2 .caret rfl).1
  · rfl

/-- The reader of the category takes the expression off the head of any tokens with which it does not go
on, and after an operand of a tier it goes on with the operators of the tier. -/
def Category.Reads : Category → List Token → Expr → Prop
  | .tier n, ts, e =>
    ∀ rest, Stops (n - 1) rest → Category.read (.tier n) (ts ++ rest) = operands n e rest
  | .power, ts, e => ∀ rest, Stops 0 rest → Category.read .power (ts ++ rest) = .ok (e, rest)
  | .primary, ts, e => ∀ rest, Ended rest → Category.read .primary (ts ++ rest) = .ok (e, rest)

/-- So it takes an expression of a tier off tokens with which the tier does not go on. -/
theorem Category.Reads.tier (reads : Category.Reads (.tier n) ts e) (stops : Stops n rest) :
    Category.read (.tier n) (ts ++ rest) = .ok (e, rest) :=
  (reads rest (stops.mono (Nat.sub_le n 1))).trans (operands_of_stops stops e)

/-- A primary expression does not begin with a sign, and neither does a power. -/
theorem unsigned_of_derives (derives : Derives c ts e) (tight : c = .power ∨ c = .primary) :
    ∃ token more, ts = token :: more ∧ prefixOperator? token = none := by
  induction derives with
  | primary _ ih => exact ih (.inr rfl)
  | raised _ _ ih =>
    obtain ⟨token, more, rfl, unsigned⟩ := ih (.inr rfl)
    exact ⟨token, _, rfl, unsigned⟩
  | number | text | yes | no | name | column | pick | parens => exact ⟨_, _, rfl, rfl⟩
  | tighter | binary | power | unary => simp at tight

theorem readColumn?_of_selects (selects : Selects path column)
    (noDot : ∀ token ∈ rest.head?, token ≠ .dot) :
    plain (readColumn? (path ++ rest)) = .ok (column, rest) := by
  cases selects with
  | nothing =>
    rw [List.nil_append]
    unfold readColumn?
    split
    · exact absurd rfl (noDot .dot rfl)
    · rfl
  | word name =>
    simp only [List.cons_append, List.nil_append, readColumn?, readColumnName]
    rfl
  | position integral positive =>
    have named := positionName?_eq_some_iff.mpr ⟨_, integral, positive, rfl⟩
    simp only [List.cons_append, List.nil_append, readColumn?, readColumnName]
    split
    · next fault found =>
      split at found
      · cases found
      · next none =>
        cases named.symm.trans none
    · next name after shorter found =>
      split at found
      · next same =>
        cases named.symm.trans same
        cases found
        rfl
      · cases found

theorem pickIndexed_of_ended (table : String) (column : Option String) (ended : Ended ts) :
    pickIndexed table column ts = .ok (.column table column, ts) := by
  unfold pickIndexed
  split
  · exact absurd rfl (ended .openBrace rfl).2
  · rfl

/-- Everything that is derived is read. -/
theorem reads_of_derives (derives : Derives c ts e) : c.Reads ts e := by
  induction derives with
  | @tighter n ts e _ ih =>
    intro rest stops
    rw [read_tier_succ, ih.tier stops]
    rfl
  | @binary n us vs token op a b joins _ _ left right =>
    intro rest stops
    rw [List.append_assoc, List.cons_append, left _ (stops_of_joins joins _),
      operands_step (operator?_eq_some_iff.mpr joins)]
    rw [Nat.add_sub_cancel, right.tier stops]
    rfl
  | power operand ih =>
    intro rest stops
    obtain ⟨token, more, rfl, unsigned⟩ := unsigned_of_derives operand (.inl rfl)
    rw [List.cons_append, read_unary_plain unsigned]
    exact (ih rest stops).trans (operands_of_stops stops _).symm
  | unary signs _ ih =>
    intro rest stops
    rw [List.cons_append, read_unary_signed (prefixOperator?_eq_some_iff.mpr signs), ih.tier stops]
    exact (operands_of_stops stops _).symm
  | primary _ ih =>
    intro rest stops
    rw [read_power, ih rest stops.1]
    exact raise_of_stops stops _
  | raised _ _ base exponent =>
    intro rest stops
    rw [List.append_assoc, List.cons_append, read_power, base _ (by simp [Ended])]
    have found := exponent.tier stops
    simp only [bind, Except.bind, raise, found]
    rfl
  | number n =>
    intro rest _
    exact read_number n rest
  | text s =>
    intro rest _
    exact read_text s rest
  | yes =>
    intro rest _
    exact read_word "true" rest
  | no =>
    intro rest _
    exact read_word "false" rest
  | @name name notTrue notFalse =>
    intro rest _
    have own : ofWord name = .name name := by simp [ofWord, notTrue, notFalse]
    exact own ▸ read_word name rest
  | @column table path column selects =>
    intro rest ended
    rw [List.cons_append, read_table,
      readColumn?_of_selects selects fun token head => (ended token head).1]
    exact pickIndexed_of_ended table column ended
  | @pick table path ts column i selects _ ih =>
    intro rest _
    have closing : Stops 5 (.closeBrace :: rest) :=
      stops_of_other (by decide) (by decide) (by decide) (by rintro _ _ ⟨⟩) 5 rest
    have shape : Token.table table :: path ++ .openBrace :: ts ++ [.closeBrace] ++ rest =
        .table table :: (path ++ .openBrace :: (ts ++ .closeBrace :: rest)) := by simp
    have selected : plain (readColumn? (path ++ .openBrace :: (ts ++ .closeBrace :: rest))) =
        .ok (column, .openBrace :: (ts ++ .closeBrace :: rest)) :=
      readColumn?_of_selects selects (by simp)
    have found := ih.tier closing
    rw [shape, read_table, selected]
    simp only [bind, Except.bind, pickIndexed, found]
    rfl
  | @parens ts e _ ih =>
    intro rest _
    have closing : Stops 5 (.closeParen :: rest) :=
      stops_of_other (by decide) (by decide) (by decide) (by rintro _ _ ⟨⟩) 5 rest
    rw [List.cons_append, List.cons_append, List.append_assoc, List.cons_append, List.nil_append,
      read_openParen, ih.tier closing]
    rfl

/-! ## Expressions -/

/-- The tokens are read as an expression, and none is left. -/
def ReadsAll (ts : List Token) (e : Expr) : Prop := ∃ after, readExpr ts = .ok (e, after) ∧ after.val = []

theorem readsAll_iff : ReadsAll ts e ↔ Category.read (.tier 5) ts = .ok (e, []) := by
  simp only [ReadsAll, readExpr, loosest, Category.read]
  cases readTier 5 ts with
  | error fault => simp [plain]
  | ok found =>
    obtain ⟨e', after⟩ := found
    simp only [plain, Except.ok.injEq, Prod.mk.injEq]
    constructor
    · rintro ⟨after, ⟨rfl, rfl⟩, none⟩
      exact ⟨rfl, none⟩
    · rintro ⟨rfl, none⟩
      exact ⟨after, ⟨rfl, rfl⟩, none⟩

theorem readsAll_iff_derives : ReadsAll ts e ↔ Derives (.tier 5) ts e := by
  rw [readsAll_iff]
  constructor
  · intro read
    obtain ⟨used, split, derives⟩ := derives_of_read read
    rw [split, List.append_nil]
    exact derives
  · intro derives
    have read := (reads_of_derives derives).tier (stops_nil 5)
    rwa [List.append_nil] at read

/-- An expression of a tier is one of every looser tier. -/
theorem Derives.widen (derives : Derives (.tier n) ts e) (looser : n ≤ m) : Derives (.tier m) ts e := by
  induction looser with
  | refl => exact derives
  | step _ ih => exact .tighter ih

/-- **Expressions are read exactly by their grammar.** Tokens are read as an expression, with none left,
if and only if the grammar derives it from them, and then it derives no other one. In particular the
operators of one tier group to the left, and `^` groups to the right and binds tighter than a sign in
front of its base. -/
theorem expression_read_iff_derived :
    (∀ ts e, ReadsAll ts e ↔ Derives (.tier 5) ts e) ∧
    (∀ ts a b, Derives (.tier 5) ts a → Derives (.tier 5) ts b → a = b) ∧
    (∀ n us vs ws first second op op' a b c, Joins (n + 1) first op → Joins (n + 1) second op' →
      Derives (.tier n) us a → Derives (.tier n) vs b → Derives (.tier n) ws c →
      ReadsAll (us ++ first :: vs ++ second :: ws) (.binary op' (.binary op a b) c)) ∧
    (∀ us vs ws a b c, Derives .primary us a → Derives .primary vs b → Derives (.tier 0) ws c →
      ReadsAll (us ++ .caret :: vs ++ .caret :: ws) (.binary .pow a (.binary .pow b c))) ∧
    (∀ us vs a b, Derives .primary us a → Derives (.tier 0) vs b →
      ReadsAll (.minus :: us ++ .caret :: vs) (.unary .neg (.binary .pow a b))) := by
  refine ⟨fun ts e => readsAll_iff_derives, ?_, ?_, ?_, ?_⟩
  · intro ts a b first second
    have one := readsAll_iff.mp (readsAll_iff_derives.mpr first)
    cases one.symm.trans (readsAll_iff.mp (readsAll_iff_derives.mpr second))
    rfl
  · intro n us vs ws first second op op' a b c joins joins' left middle right
    have below : n + 1 ≤ 5 := by cases joins <;> omega
    have grouped := Derives.binary joins' (.binary joins (.tighter left) middle) right
    exact readsAll_iff_derives.mpr (grouped.widen below)
  · intro us vs ws a b c left middle right
    have grouped := Derives.raised left (.power (.raised middle right))
    rw [List.append_assoc, List.cons_append]
    exact readsAll_iff_derives.mpr (.widen (.power grouped) (Nat.zero_le 5))
  · intro us vs a b base exponent
    have signed := Derives.unary .neg (.power (.raised base exponent))
    exact readsAll_iff_derives.mpr (signed.widen (Nat.zero_le 5))

/-- In `-x ^ y - z - x` the sign stands before the power, and the second difference takes the first. -/
theorem expression_read_iff_derived_signed :
    ReadsAll [.minus, .word "x", .caret, .word "y"]
        (.unary .neg (.binary .pow (.name "x") (.name "y"))) ∧
      ReadsAll [.word "x", .minus, .word "y", .minus, .word "z"]
        (.binary .sub (.binary .sub (.name "x") (.name "y")) (.name "z")) := by
  have name (s : String) (h : s ≠ "true") (h' : s ≠ "false") : Derives .primary [.word s] (.name s) :=
    .name h h'
  obtain ⟨-, -, left, -, tight⟩ := expression_read_iff_derived
  have x := name "x" (by decide) (by decide)
  have y := name "y" (by decide) (by decide)
  have z := name "z" (by decide) (by decide)
  exact ⟨tight [.word "x"] [.word "y"] _ _ x (y.loosen 0),
    left 1 [.word "x"] [.word "y"] [.word "z"] .minus .minus .sub .sub _ _ _ .sub .sub (x.loosen 1)
      (y.loosen 1) (z.loosen 1)⟩

end Ripple.Program
