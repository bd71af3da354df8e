import Ripple.Number.Decimal
import Ripple.Program.SyntaxFault
import Ripple.Text.Alphabetic
import Ripple.Text.Numeric

/-!
# Reading tokens

A text is cut into tokens from left to right. Blanks, tabs and carriage returns separate
tokens; a line feed is a token of its own.
-/

namespace Ripple.Program

/-- The characters that stand between tokens. -/
def isSeparator (c : Char) : Bool := c = ' ' || c = '\t' || c = '\r'

/-- The characters a name can start with. -/
def isNameStart (c : Char) : Bool := Text.isAlphabetic c || c = '_'

/-- The characters a name can go on with. -/
def isNameChar (c : Char) : Bool := Text.isAlphabetic c || Text.isNumeric c || c = '_'

/-- The characters of table names, which can be paths. -/
def isTableChar (c : Char) : Bool := isNameChar c || c = '/'

/-- The operators and brackets, each one before those that it begins with. -/
def symbols : List (List Char × Token) :=
  [([':', '='], .becomes), ([':', '+', '='], .becomesSum), ([':', '-', '='], .becomesDifference),
   ([':', '*', '='], .becomesProduct), ([':', '/', '='], .becomesQuotient), ([':'], .colon),
   (['+', '='], .extend), (['+'], .plus), (['=', '='], .same), (['='], .equals),
   (['!', '='], .different), (['!'], .bang), (['<', '='], .lessEqual), (['<'], .less),
   (['>', '='], .greaterEqual), (['>'], .greater), (['\n'], .newline), (['~'], .tilde),
   (['.'], .dot), (['\x7b'], .openBrace), (['\x7d'], .closeBrace), (['['], .openBracket),
   ([']'], .closeBracket), (['('], .openParen), ([')'], .closeParen), (['|'], .pipe),
   ([';'], .semicolon), ([','], .comma), (['&'], .ampersand), (['^'], .caret), (['*'], .star),
   (['/'], .slash), (['-'], .minus)]

/-- What comes after a spelling, if a text starts with it. -/
def after? : List Char → List Char → Option (List Char)
  | [], cs => some cs
  | _ :: _, [] => none
  | a :: spelling, c :: cs => if a = c then after? spelling cs else none

/-- The operator or bracket at the head of a text, the longest one if several fit. -/
def symbol? (cs : List Char) : Option (Token × List Char) :=
  symbols.findSome? fun (spelling, token) => (after? spelling cs).map (token, ·)

theorem eq_append_of_after? {spelling cs rest : List Char} (h : after? spelling cs = some rest) :
    cs = spelling ++ rest := by
  fun_induction after? spelling cs with
  | case1 => simp_all
  | case2 => simp at h
  | case3 spelling c cs ih => simp [← ih h]
  | case4 => simp at h

theorem symbol?_length {cs : List Char} {token : Token} {rest : List Char}
    (h : symbol? cs = some (token, rest)) : rest.length < cs.length := by
  obtain ⟨⟨spelling, t⟩, member, found⟩ := List.exists_of_findSome?_eq_some h
  obtain ⟨r, shape, same⟩ := Option.map_eq_some_iff.1 found
  obtain ⟨-, rfl⟩ := Prod.mk.inj same
  have written : spelling ≠ [] := by
    have every : symbols.all fun s => ! s.1.isEmpty := by decide
    have := List.all_eq_true.1 every _ member
    simpa using this
  have := List.length_pos_iff.2 written
  simp [eq_append_of_after? shape]
  omega

/-- What a backslash and the character after it stand for. -/
def unescape (c : Char) : Char := if c = 'n' then '\n' else if c = 't' then '\t' else c

/-- Reads a text up to its closing quote: the characters it stands for and what comes after
the quote. -/
def scanText? : List Char → Option (List Char × List Char)
  | [] => none
  | '"' :: rest => some ([], rest)
  | '\\' :: c :: rest => (scanText? rest).map fun (s, after) => (unescape c :: s, after)
  | '\\' :: [] => none
  | c :: rest => (scanText? rest).map fun (s, after) => (c :: s, after)

theorem scanText?_length {cs s rest : List Char} (h : scanText? cs = some (s, rest)) :
    rest.length < cs.length := by
  fun_induction scanText? cs generalizing s with
  | case1 => simp at h
  | case2 => simp_all
  | case4 => simp at h
  | case3 | case5 =>
    rename_i ih
    obtain ⟨⟨_, after⟩, found, same⟩ := Option.map_eq_some_iff.1 h
    obtain ⟨-, rfl⟩ := Prod.mk.inj same
    have := ih found
    simp only [List.length_cons]
    omega

/-- Reads a decimal: the digits before the point, those after it, and the rest. There is a
fraction only if a digit follows the point, so that `#t.1` names a column. -/
def scanNumber (cs : List Char) : List Char × List Char × List Char :=
  let whole := cs.takeWhile Number.isDigit
  let rest := cs.dropWhile Number.isDigit
  match rest with
  | '.' :: d :: more =>
    if Number.isDigit d then
      (whole, (d :: more).takeWhile Number.isDigit, (d :: more).dropWhile Number.isDigit)
    else (whole, [], rest)
  | _ => (whole, [], rest)

theorem length_dropWhile_le {α : Type} (p : α → Bool) (xs : List α) :
    (xs.dropWhile p).length ≤ xs.length :=
  (List.dropWhile_suffix p).length_le

theorem scanNumber_length {c : Char} {cs : List Char} (h : Number.isDigit c = true) :
    (scanNumber (c :: cs)).2.2.length < (c :: cs).length := by
  have first : ((c :: cs).dropWhile Number.isDigit).length ≤ cs.length := by
    simpa [List.dropWhile_cons, h] using length_dropWhile_le Number.isDigit cs
  have whole : ((c :: cs).dropWhile Number.isDigit).length < (c :: cs).length :=
    Nat.lt_succ_of_le first
  simp only [scanNumber]
  split
  · next d more shape =>
    have fraction := length_dropWhile_le Number.isDigit (d :: more)
    split
    · rw [shape] at whole
      simp only [List.length_cons] at *
      omega
    · exact whole
  · exact whole

/-- The token that begins with a character, which is no separator, and what comes after it. -/
def readToken (c : Char) (cs : List Char) : Except SyntaxFault (Token × List Char) :=
  match symbol? (c :: cs) with
  | some found => .ok found
  | none =>
    if c = '"' then
      match scanText? cs with
      | none => .error .openText
      | some (s, after) => .ok (.text (String.ofList s), after)
    else if c = '#' then
      let name := cs.takeWhile isTableChar
      if name.isEmpty then .error .tableNameMissing
      else .ok (.table (String.ofList name), cs.dropWhile isTableChar)
    else if Number.isDigit c then
      let (whole, fraction, after) := scanNumber (c :: cs)
      .ok (.number (.ofDigits whole fraction), after)
    else if isNameStart c then
      let name := c :: cs.takeWhile isNameChar
      .ok (.word (String.ofList name), cs.dropWhile isNameChar)
    else .error (.strangeCharacter c)

theorem readToken_length {c : Char} {cs : List Char} {token : Token} {after : List Char}
    (h : readToken c cs = .ok (token, after)) : after.length < (c :: cs).length := by
  have shorter (p : Char → Bool) : (cs.dropWhile p).length < (c :: cs).length :=
    Nat.lt_succ_of_le (length_dropWhile_le p cs)
  unfold readToken at h
  split at h
  · next found =>
    cases h
    exact symbol?_length found
  · split at h
    · split at h
      · cases h
      · next found =>
        cases h
        exact Nat.lt_succ_of_lt (scanText?_length found)
    · split at h
      · dsimp only at h
        split at h
        · cases h
        · cases h
          exact shorter _
      · split at h
        · next digit =>
          cases h
          exact scanNumber_length digit
        · split at h
          · cases h
            exact shorter _
          · cases h

/-- `tokenize` cuts a text into tokens. -/
def tokenize (cs : List Char) : Except SyntaxFault (List Token) :=
  match cs with
  | [] => .ok []
  | c :: rest =>
    if isSeparator c then tokenize rest
    else
      match _found : readToken c rest with
      | .error fault => .error fault
      | .ok (token, after) =>
        match tokenize after with
        | .error fault => .error fault
        | .ok tokens => .ok (token :: tokens)
termination_by cs.length
decreasing_by
  · exact Nat.lt_succ_self _
  · exact readToken_length _found

end Ripple.Program
