import Ripple.Proofs.Printer

/-!
Printed tokens are read back. What ends a token is the blank after it, so that tokens with blanks between
them are cut off one by one (`tokenize_spell`). The count of open brackets goes through the same characters
by itself, and agrees with the tokens on what stands between quotes (`bracketBalance_spell`).
-/

namespace Ripple

/-! ## Classes of characters -/

namespace Text

/-- No range of the one list meets a range of the other. -/
def CodeRange.apart (first second : List CodeRange) : Bool :=
  first.all fun a => second.all fun b => a.2 < b.1 || b.2 < a.1

/-- Then they have no code point in common. -/
theorem CodeRange.not_covers_of_apart {first second : List CodeRange} (apart : CodeRange.apart first second)
    {code : Nat} (one : CodeRange.covers first code) : CodeRange.covers second code = false := by
  obtain ⟨a, inFirst, here⟩ := List.any_eq_true.mp one
  refine List.any_eq_false.mpr fun b inSecond there => ?_
  have separate := List.all_eq_true.mp (List.all_eq_true.mp apart a inFirst) b inSecond
  simp only [Bool.and_eq_true, Bool.or_eq_true, decide_eq_true_eq] at here there separate
  rcases separate with before | after <;> omega

set_option maxRecDepth 8192 in
theorem blank_apart_alphabetic : CodeRange.apart blankRanges alphabeticRanges := by decide

theorem blank_apart_numeric : CodeRange.apart blankRanges numericRanges := by decide

end Text

namespace Program

/-- What holds of all characters of ASCII holds of one of them. -/
theorem of_ascii {P : Char → Prop} (all : ∀ n < 128, P (Char.ofNat n)) {c : Char}
    (ascii : c.toNat < 128) : P c := by
  have own := all c.toNat ascii
  rwa [Char.ofNat_toNat] at own

theorem not_blank_of_nameChar {c : Char} (named : isNameChar c) : Text.isBlank c = false := by
  by_cases ascii : c.toNat < 128
  · have all : ∀ n < 128, isNameChar (Char.ofNat n) → Text.isBlank (Char.ofNat n) = false := by decide
    exact of_ascii (P := fun c => isNameChar c → Text.isBlank c = false) all ascii named
  · rw [Text.isBlank, if_neg ascii]
    cases blank : Text.CodeRange.covers Text.blankRanges c.toNat with
    | false => rfl
    | true =>
      have letter := Text.CodeRange.not_covers_of_apart Text.blank_apart_alphabetic blank
      have numeral := Text.CodeRange.not_covers_of_apart Text.blank_apart_numeric blank
      have notUnderscore : c ≠ '_' := by
        rintro rfl
        exact ascii (by decide)
      simp [isNameChar, Text.isAlphabetic, Text.isNumeric, ascii, letter, numeral, notUnderscore] at named

theorem nameChar_of_digit {c : Char} (digit : Number.isDigit c) :
    isNameChar c ∧ isNameStart c = false := by
  have all : ∀ n < 128, Number.isDigit (Char.ofNat n) →
      isNameChar (Char.ofNat n) ∧ isNameStart (Char.ofNat n) = false := by decide
  refine of_ascii (P := fun c => Number.isDigit c → isNameChar c ∧ isNameStart c = false) all ?_ digit
  exact Nat.lt_of_le_of_lt (Text.isBetween_iff.mp digit).2 (by decide)

theorem nameChar_of_nameStart {c : Char} (start : isNameStart c) :
    isNameChar c ∧ Number.isDigit c = false := by
  constructor
  · simp only [isNameStart, isNameChar, Bool.or_eq_true] at start ⊢
    exact start.imp_left .inl
  · cases digit : Number.isDigit c with
    | false => rfl
    | true =>
      rw [(nameChar_of_digit digit).2] at start
      cases start

/-- No operator or bracket is found at a character that none begins with. -/
theorem symbol?_eq_none {c : Char} (other : ∀ s ∈ symbols, s.1.head? ≠ some c) (cs : List Char) :
    symbol? (c :: cs) = none := by
  have written : ∀ s ∈ symbols, s.1 ≠ [] := by decide
  refine List.findSome?_eq_none_iff.mpr ?_
  rintro ⟨spelling, token⟩ member
  cases spelling with
  | nil => exact absurd rfl (written _ member)
  | cons a more =>
    have differ : a ≠ c := fun same => other _ member (congrArg some same)
    simp [after?, differ]

theorem symbol?_of_nameChar {c : Char} (named : isNameChar c) (cs : List Char) :
    symbol? (c :: cs) = none := by
  have every : symbols.all fun s => s.1.head?.all (! isNameChar ·) := by decide
  refine symbol?_eq_none (fun s member same => ?_) cs
  have other := List.all_eq_true.mp every s member
  simp [same, named] at other

theorem tableChar_of_nameChar {c : Char} (named : isNameChar c) : isTableChar c := by
  simp [isTableChar, named]

/-- The characters of names and decimals. -/
def IsQuiet (c : Char) : Prop := isTableChar c ∨ c = '.' ∨ c = '#'

/-- None of them is a quote or a bracket. -/
theorem IsQuiet.other {c : Char} (quiet : IsQuiet c) : c ≠ '"' ∧ c ≠ '[' ∧ c ≠ ']' := by
  have quote : isTableChar '"' = false := by decide
  have opening : isTableChar '[' = false := by decide
  have closing : isTableChar ']' = false := by decide
  refine ⟨?_, ?_, ?_⟩ <;> rintro rfl <;> simp_all [IsQuiet]

theorem IsQuiet.not_blank {c : Char} (quiet : IsQuiet c) : Text.isBlank c = false := by
  rcases quiet with named | rfl | rfl
  · simp only [isTableChar, Bool.or_eq_true, decide_eq_true_eq] at named
    rcases named with named | rfl
    · exact not_blank_of_nameChar named
    · decide
  · decide
  · decide

theorem quiet_of_nameChar {c : Char} (named : isNameChar c) : IsQuiet c :=
  .inl (tableChar_of_nameChar named)

/-! ## Up to the next blank -/

/-- The text ends here, or a blank follows. -/
def Parted (rest : List Char) : Prop := ∀ c ∈ rest.head?, c = ' '

variable {rest : List Char}

theorem parted_nil : Parted [] := fun _ none => nomatch none

theorem parted_blank (cs : List Char) : Parted (' ' :: cs) := by
  rintro c head
  cases head
  rfl

theorem takeWhile_of_parted (parted : Parted rest) {p : Char → Bool} (stop : p ' ' = false) :
    rest.takeWhile p = [] ∧ rest.dropWhile p = rest := by
  cases rest with
  | nil => exact ⟨rfl, rfl⟩
  | cons c cs =>
    obtain rfl := parted c rfl
    simp [stop]

/-- Characters of one class are taken up to the blank. -/
theorem takeWhile_append_parted (parted : Parted rest) {p : Char → Bool} (stop : p ' ' = false)
    {cs : List Char} (all : ∀ c ∈ cs, p c) :
    (cs ++ rest).takeWhile p = cs ∧ (cs ++ rest).dropWhile p = rest := by
  obtain ⟨none, whole⟩ := takeWhile_of_parted parted stop
  exact ⟨by rw [List.takeWhile_append_of_pos all, none, List.append_nil],
    by rw [List.dropWhile_append_of_pos all, whole]⟩

/-- What an operator or bracket leaves of a text does not depend on what follows a blank. -/
theorem after?_append (parted : Parted rest) {spelling : List Char} (solid : ' ' ∉ spelling)
    (cs : List Char) : after? spelling (cs ++ rest) = (after? spelling cs).map (· ++ rest) := by
  induction spelling generalizing cs with
  | nil => rfl
  | cons a more ih =>
    obtain ⟨notBlank, solidMore⟩ := not_or.mp (mt List.mem_cons.mpr solid)
    cases cs with
    | nil =>
      cases rest with
      | nil => rfl
      | cons c cs =>
        obtain rfl := parted c rfl
        simp [after?, Ne.symm notBlank]
    | cons c cs =>
      simp only [List.cons_append, after?]
      split
      · exact ih solidMore cs
      · rfl

/-- What is found first depends only on what is found at each place. -/
theorem findSome?_congr {α β : Type} {f g : α → Option β} {xs : List α} (same : ∀ x ∈ xs, f x = g x) :
    xs.findSome? f = xs.findSome? g := by
  induction xs with
  | nil => rfl
  | cons x xs ih =>
    obtain ⟨here, others⟩ := List.forall_mem_cons.mp same
    rw [List.findSome?_cons, List.findSome?_cons, here, ih others]

theorem symbol?_append (parted : Parted rest) {cs : List Char} {token : Token}
    (found : symbol? cs = some (token, [])) : symbol? (cs ++ rest) = some (token, rest) := by
  have solid : ∀ s ∈ symbols, ' ' ∉ s.1 := by decide
  have same : symbol? (cs ++ rest) = (symbol? cs).map fun p => (p.1, p.2 ++ rest) := by
    rw [symbol?, symbol?, List.map_findSome?]
    refine findSome?_congr fun s member => ?_
    simp [after?_append parted (solid s member), Function.comp_def]
  rw [same, found]
  rfl

/-- A character is escaped by another one after a backslash, or stands for itself. -/
theorem escapeChar_cases (c : Char) :
    (∃ e, escapeChar c = ['\\', e] ∧ unescape e = c ∧ e ≠ '\n') ∨
      (escapeChar c = [c] ∧ c ≠ '\\' ∧ c ≠ '"' ∧ c ≠ '\n') := by
  unfold escapeChar
  split
  · next backslash => exact .inl ⟨'\\', rfl, backslash.symm, by decide⟩
  · next notBackslash =>
    split
    · next quote => exact .inl ⟨'"', rfl, quote.symm, by decide⟩
    · next notQuote =>
      split
      · next lineFeed => exact .inl ⟨'n', rfl, lineFeed.symm, by decide⟩
      · next notLineFeed => exact .inr ⟨rfl, notBackslash, notQuote, notLineFeed⟩

theorem scanText?_escapeChar (c : Char) (cs : List Char) :
    scanText? (escapeChar c ++ cs) = (scanText? cs).map fun p => (c :: p.1, p.2) := by
  rcases escapeChar_cases c with ⟨e, escaped, rfl, -⟩ | ⟨plain, backslash, quote, -⟩
  · rw [escaped]
    rfl
  · rw [plain, List.singleton_append, scanText?]
    · exact quote
    · exact fun _ _ same _ => backslash same
    · exact fun same _ => backslash same

theorem scanText?_escaped (cs rest : List Char) :
    scanText? (cs.flatMap escapeChar ++ '"' :: rest) = some (cs, rest) := by
  induction cs with
  | nil => rfl
  | cons c cs ih =>
    rw [List.flatMap_cons, List.append_assoc, scanText?_escapeChar, ih]
    rfl

/-- A decimal is read back. -/
theorem scanNumber_spelled (parted : Parted rest) {whole fraction : List Char}
    (wholeDigits : ∀ c ∈ whole, Number.isDigit c) (fractionDigits : ∀ c ∈ fraction, Number.isDigit c) :
    scanNumber (spellDecimal (whole, fraction) ++ rest) = (whole, fraction, rest) := by
  have stop : Number.isDigit ' ' = false := by decide
  cases fraction with
  | nil =>
    obtain ⟨taken, left⟩ := takeWhile_append_parted parted stop wholeDigits
    simp only [spellDecimal, scanNumber, taken, left]
    split
    · next d more =>
      cases parted '.' rfl
    · rfl
  | cons d more =>
    have point : Number.isDigit '.' = false := by decide
    obtain ⟨taken, left⟩ := takeWhile_append_parted parted stop fractionDigits
    have first := fractionDigits d List.mem_cons_self
    rw [List.cons_append] at taken left
    simp only [spellDecimal, scanNumber, List.append_assoc, List.cons_append,
      List.takeWhile_append_of_pos wholeDigits, List.dropWhile_append_of_pos wholeDigits,
      List.takeWhile_cons_of_neg (p := Number.isDigit) (Bool.eq_false_iff.mp point),
      List.dropWhile_cons_of_neg (p := Number.isDigit) (Bool.eq_false_iff.mp point),
      List.append_nil, first, if_true, taken, left]

/-! ## One token -/

variable {decimal : Decimals}

/-- The token can be printed. No statement is printed with a line feed, nor with a colon of its own. -/
def Token.Printable (decimal : Decimals) : Token → Prop
  | number n => WritesNumber (decimal n) n
  | table name => IsTableName name
  | word name => IsName name
  | newline | colon => False
  | _ => True

theorem separator_of_blank {c : Char} (solid : Text.isBlank c = false) : isSeparator c = false := by
  cases separates : isSeparator c with
  | false => rfl
  | true =>
    simp only [isSeparator, Bool.or_eq_true, decide_eq_true_eq] at separates
    rcases separates with (rfl | rfl) | rfl <;> cases solid

/-- The token is read back from the head of a text that goes on with `rest`. -/
def ReadsBack (cs : List Char) (t : Token) (rest : List Char) : Prop :=
  ∃ c more, cs ++ rest = c :: more ∧ isSeparator c = false ∧ readToken c more = .ok (t, rest)

theorem readsBack_symbol (parted : Parted rest) {c : Char} {cs : List Char} {t : Token}
    (solid : isSeparator c = false) (found : symbol? (c :: cs) = some (t, [])) :
    ReadsBack (c :: cs) t rest := by
  refine ⟨c, cs ++ rest, rfl, solid, ?_⟩
  rw [readToken, ← List.cons_append, symbol?_append parted found]

theorem readsBack_number (parted : Parted rest) {digits : List Char × List Char} {n : Number}
    (writes : WritesNumber digits n) : ReadsBack (spellDecimal digits) (.number n) rest := by
  obtain ⟨whole, fraction⟩ := digits
  obtain ⟨wholeDigits, fractionDigits⟩ := List.forall_mem_append.mp writes.digit
  have scanned := scanNumber_spelled parted wholeDigits fractionDigits
  cases whole with
  | nil => exact absurd rfl writes.whole
  | cons c whole =>
    have digit := wholeDigits c List.mem_cons_self
    have named := (nameChar_of_digit digit).1
    have shape : spellDecimal (c :: whole, fraction) = c :: spellDecimal (whole, fraction) := by
      cases fraction <;> rfl
    rw [shape, List.cons_append] at scanned
    refine ⟨c, _, by rw [shape, List.cons_append], separator_of_blank (not_blank_of_nameChar named), ?_⟩
    have notQuote := (quiet_of_nameChar named).other.1
    have notHash : c ≠ '#' := by
      rintro rfl
      cases digit
    simp only [readToken, symbol?_of_nameChar named, notQuote, notHash, if_false, digit, if_true,
      scanned, writes.value]

theorem readsBack_text (s : String) (rest : List Char) :
    ReadsBack ('"' :: s.toList.flatMap escapeChar ++ ['"']) (.text s) rest := by
  have none (cs : List Char) : symbol? ('"' :: cs) = none := symbol?_eq_none (by decide) cs
  refine ⟨'"', _, rfl, rfl, ?_⟩
  simp only [readToken, none, if_true, List.append_eq, List.append_assoc, List.singleton_append,
    scanText?_escaped, String.ofList_toList]

theorem readsBack_table (parted : Parted rest) {name : String} (isName : IsTableName name) :
    ReadsBack ('#' :: name.toList) (.table name) rest := by
  obtain ⟨written, chars⟩ := isName
  have none (cs : List Char) : symbol? ('#' :: cs) = none := symbol?_eq_none (by decide) cs
  obtain ⟨taken, left⟩ := takeWhile_append_parted parted (by decide) chars
  refine ⟨'#', _, rfl, rfl, ?_⟩
  simp [readToken, none, taken, left, written]

theorem readsBack_word (parted : Parted rest) {name : String} (isName : IsName name) :
    ReadsBack name.toList (.word name) rest := by
  obtain ⟨c, cs, shape, start, chars⟩ := isName
  obtain ⟨named, notDigit⟩ := nameChar_of_nameStart start
  obtain ⟨taken, left⟩ := takeWhile_append_parted parted (by decide) chars
  refine ⟨c, cs ++ rest, by rw [shape, List.cons_append],
    separator_of_blank (not_blank_of_nameChar named), ?_⟩
  have notQuote := (quiet_of_nameChar named).other.1
  have notHash : c ≠ '#' := by
    rintro rfl
    revert start
    decide
  simp only [readToken, symbol?_of_nameChar named, notQuote, notHash, if_false, notDigit,
    Bool.false_eq_true, start, if_true, taken, left, ← shape, String.ofList_toList]

theorem readsBack_spelling {t : Token} (printable : t.Printable decimal) (parted : Parted rest) :
    ReadsBack (t.spelling decimal) t rest := by
  cases t with
  | number n => exact readsBack_number parted printable
  | text s => exact readsBack_text s rest
  | table name => exact readsBack_table parted printable
  | word name => exact readsBack_word parted printable
  | newline | colon => exact printable.elim
  | _ => exact readsBack_symbol parted rfl rfl

theorem tokenize_blank (cs : List Char) : tokenize (' ' :: cs) = tokenize cs := by
  rw [tokenize, if_pos (by decide)]

theorem tokenize_spelling {t : Token} {ts : List Token} (printable : t.Printable decimal)
    (parted : Parted rest) (others : tokenize rest = .ok ts) :
    tokenize (t.spelling decimal ++ rest) = .ok (t :: ts) := by
  obtain ⟨c, cs, shape, solid, read⟩ := readsBack_spelling printable parted
  rw [shape, tokenize, if_neg (Bool.eq_false_iff.mp solid)]
  split
  · next failed => cases read.symm.trans failed
  · next found =>
    cases read.symm.trans found
    rw [others]

/-! ## Tokens with blanks between them -/

theorem spell_singleton (t : Token) : spell decimal [t] = t.spelling decimal := by simp [spell]

theorem spell_cons_cons (t u : Token) (ts : List Token) :
    spell decimal (t :: u :: ts) = t.spelling decimal ++ ' ' :: spell decimal (u :: ts) := by
  simp [spell, List.intercalate]

theorem tokenize_spell {ts : List Token} (printable : ∀ t ∈ ts, t.Printable decimal) :
    tokenize (spell decimal ts) = .ok ts := by
  induction ts with
  | nil => rw [spell, List.map_nil, List.intercalate_nil, tokenize]
  | cons t ts ih =>
    obtain ⟨own, others⟩ := List.forall_mem_cons.mp printable
    cases ts with
    | nil =>
      rw [spell_singleton, ← List.append_nil (t.spelling decimal)]
      exact tokenize_spelling own parted_nil (by rw [tokenize])
    | cons u ts =>
      rw [spell_cons_cons]
      exact tokenize_spelling own (parted_blank _) ((tokenize_blank _).trans (ih others))

/-! ## Open brackets -/

theorem quiet_decimal {digits : List Char × List Char} {n : Number} (writes : WritesNumber digits n) :
    ∀ c ∈ spellDecimal digits, IsQuiet c := by
  obtain ⟨whole, fraction⟩ := digits
  have quiet (c : Char) (member : c ∈ whole ++ fraction) : IsQuiet c :=
    quiet_of_nameChar (nameChar_of_digit (writes.digit c member)).1
  intro c member
  cases fraction with
  | nil => exact quiet c (List.mem_append_left _ member)
  | cons d more =>
    rcases List.mem_append.mp member with inWhole | inFraction
    · exact quiet c (List.mem_append_left _ inWhole)
    · rcases List.mem_cons.mp inFraction with rfl | inFraction
      · exact .inr (.inl rfl)
      · exact quiet c (List.mem_append_right _ inFraction)

theorem quiet_table {name : String} (isName : IsTableName name) :
    ∀ c ∈ '#' :: name.toList, IsQuiet c :=
  List.forall_mem_cons.mpr ⟨.inr (.inr rfl), fun c member => .inl (isName.2 c member)⟩

theorem quiet_word {name : String} (isName : IsName name) : ∀ c ∈ name.toList, IsQuiet c := by
  obtain ⟨c, cs, shape, start, chars⟩ := isName
  rw [shape]
  exact List.forall_mem_cons.mpr ⟨quiet_of_nameChar (nameChar_of_nameStart start).1,
    fun d member => quiet_of_nameChar (chars d member)⟩

/-- What a token adds to the number of open brackets. -/
def Token.depth : Token → Int
  | openBracket => 1
  | closeBracket => -1
  | _ => 0

theorem bracketBalance_quiet {cs : List Char} (quiet : ∀ c ∈ cs, IsQuiet c) (rest : List Char) :
    bracketBalance .outside (cs ++ rest) = bracketBalance .outside rest := by
  induction cs with
  | nil => rfl
  | cons c cs ih =>
    obtain ⟨own, others⟩ := List.forall_mem_cons.mp quiet
    obtain ⟨quote, opening, closing⟩ := own.other
    rw [List.cons_append, bracketBalance, if_neg quote, if_neg opening, if_neg closing, ih others]

/-- What is escaped does not end the quotes. -/
theorem bracketBalance_escapeChar (c : Char) (cs : List Char) :
    bracketBalance .inside (escapeChar c ++ cs) = bracketBalance .inside cs := by
  rcases escapeChar_cases c with ⟨e, escaped, -, -⟩ | ⟨plain, backslash, quote, -⟩
  · rw [escaped]
    rfl
  · rw [plain, List.singleton_append, bracketBalance, if_neg backslash, if_neg quote]

theorem bracketBalance_escaped (cs rest : List Char) :
    bracketBalance .inside (cs.flatMap escapeChar ++ '"' :: rest) = bracketBalance .outside rest := by
  induction cs with
  | nil => rfl
  | cons c cs ih => rw [List.flatMap_cons, List.append_assoc, bracketBalance_escapeChar, ih]

/-- How many brackets some tokens open but do not close. -/
def Token.balance : List Token → Int
  | [] => 0
  | t :: ts => t.depth + balance ts

theorem Token.balance_append (ts us : List Token) :
    balance (ts ++ us) = balance ts + balance us := by
  induction ts with
  | nil => exact (Int.zero_add _).symm
  | cons t ts ih => rw [List.cons_append, balance, balance, ih, Int.add_assoc]

theorem bracketBalance_spelling {t : Token} (printable : t.Printable decimal) (rest : List Char) :
    bracketBalance .outside (t.spelling decimal ++ rest) = t.depth + bracketBalance .outside rest := by
  cases t with
  | number n => exact (bracketBalance_quiet (quiet_decimal printable) rest).trans (Int.zero_add _).symm
  | text s =>
    simp only [Token.spelling, Token.depth, List.append_assoc, List.cons_append, Int.zero_add]
    rw [bracketBalance, if_pos rfl, bracketBalance_escaped, List.nil_append]
  | table name => exact (bracketBalance_quiet (quiet_table printable) rest).trans (Int.zero_add _).symm
  | word name => exact (bracketBalance_quiet (quiet_word printable) rest).trans (Int.zero_add _).symm
  | newline | colon => exact printable.elim
  | openBracket => exact Int.add_comm _ _
  | closeBracket => exact Int.add_comm _ _
  | _ => exact (Int.zero_add _).symm

/-- The characters of printed tokens open as many brackets as the tokens do. -/
theorem bracketBalance_spell {ts : List Token} (printable : ∀ t ∈ ts, t.Printable decimal) :
    bracketBalance .outside (spell decimal ts) = Token.balance ts := by
  induction ts with
  | nil => rfl
  | cons t ts ih =>
    obtain ⟨own, others⟩ := List.forall_mem_cons.mp printable
    cases ts with
    | nil =>
      rw [spell_singleton, ← List.append_nil (t.spelling decimal), bracketBalance_spelling own]
      rfl
    | cons u ts =>
      rw [spell_cons_cons, bracketBalance_spelling own, Token.balance, ← ih others]
      rfl

/-! ## Lines -/

/-- One line without white space around it. -/
structure IsLine (cs : List Char) : Prop where
  single : '\n' ∉ cs
  first : ∀ c ∈ cs.head?, Text.isBlank c = false
  last : ∀ c ∈ cs.getLast?, Text.isBlank c = false

theorem isLine_of_solid {cs : List Char} (solid : ∀ c ∈ cs, Text.isBlank c = false) : IsLine cs where
  single member := by cases solid _ member
  first c head := solid c (List.mem_of_mem_head? head)
  last c last := solid c (List.mem_of_mem_getLast? last)

theorem isLine_of_all {cs : List Char} (solid : cs.all (! Text.isBlank ·)) : IsLine cs :=
  isLine_of_solid fun c member => by simpa using List.all_eq_true.mp solid c member

theorem isLine_text (s : String) : IsLine ('"' :: s.toList.flatMap escapeChar ++ ['"']) where
  single := by
    have escaped (c : Char) : '\n' ∉ escapeChar c := by
      rcases escapeChar_cases c with ⟨e, escaped, -, other⟩ | ⟨plain, -, -, other⟩
      · simp [escaped, Ne.symm other]
      · simp [plain, Ne.symm other]
    simp [escaped]
  first c head := by
    cases head
    decide
  last c last := by
    rw [List.getLast?_concat] at last
    cases last
    decide

theorem IsLine.join {cs ds : List Char} (one : IsLine cs) (other : IsLine ds) (left : cs ≠ [])
    (right : ds ≠ []) : IsLine (cs ++ ' ' :: ds) where
  single := by simp [one.single, other.single]
  first c head := by
    obtain ⟨a, more, rfl⟩ := List.exists_cons_of_ne_nil left
    exact one.first c head
  last c last := by
    obtain ⟨a, more, rfl⟩ := List.exists_cons_of_ne_nil right
    rw [List.getLast?_append, List.getLast?_cons_cons] at last
    exact other.last c (by simpa using last)

theorem spelling_ne_nil {t : Token} (printable : t.Printable decimal) : t.spelling decimal ≠ [] := by
  obtain ⟨c, more, shape, -⟩ := readsBack_spelling printable parted_nil
  rw [List.append_nil] at shape
  exact shape ▸ List.cons_ne_nil c more

theorem isLine_spelling {t : Token} (printable : t.Printable decimal) : IsLine (t.spelling decimal) := by
  cases t with
  | number n => exact isLine_of_solid fun c member => (quiet_decimal printable c member).not_blank
  | text s => exact isLine_text s
  | table name => exact isLine_of_solid fun c member => (quiet_table printable c member).not_blank
  | word name => exact isLine_of_solid fun c member => (quiet_word printable c member).not_blank
  | newline | colon => exact printable.elim
  | _ => exact isLine_of_all rfl

theorem spell_ne_nil {ts : List Token} (printable : ∀ t ∈ ts, t.Printable decimal) (some : ts ≠ []) :
    spell decimal ts ≠ [] := by
  obtain ⟨t, ts, rfl⟩ := List.exists_cons_of_ne_nil some
  have written := spelling_ne_nil (printable t List.mem_cons_self)
  cases ts with
  | nil => exact spell_singleton t ▸ written
  | cons u ts =>
    rw [spell_cons_cons]
    exact List.append_ne_nil_of_left_ne_nil written _

/-- What is printed on a line stays there. -/
theorem isLine_spell {ts : List Token} (printable : ∀ t ∈ ts, t.Printable decimal) :
    IsLine (spell decimal ts) := by
  induction ts with
  | nil => exact isLine_of_solid fun c none => nomatch none
  | cons t ts ih =>
    obtain ⟨own, others⟩ := List.forall_mem_cons.mp printable
    cases ts with
    | nil => exact spell_singleton t ▸ isLine_spelling own
    | cons u ts =>
      rw [spell_cons_cons]
      exact (isLine_spelling own).join (ih others) (spelling_ne_nil own)
        (spell_ne_nil others (List.cons_ne_nil u ts))

end Program

end Ripple
