/-
  LineLisp.Text.Quoted

  Quoted text: the form in which messages and dumps show a piece of text, with
  every character visible.
-/
import LineLisp.Text.Printable

namespace LineLisp.Text

/-- The apostrophe, the preferred quote. -/
def singleQuote : Char := '\x27'

/-- The quotation mark, used around text that holds an apostrophe and no
    quotation mark. -/
def doubleQuote : Char := '\x22'

/-- The lower-case hexadecimal digits of a number, padded or cut to a width. -/
def hexDigits : Nat → Nat → List Char
  | 0, _ => []
  | width + 1, n => hexDigits width (n / 16) ++ [Nat.digitChar (n % 16)]

/-- A character that is shown by its number: a backslash, a letter that tells
    the number of digits, and the digits. -/
def escapeByNumber (c : Char) : List Char :=
  if c.toNat < 0x100 then '\\' :: 'x' :: hexDigits 2 c.toNat
  else if c.toNat < 0x10000 then '\\' :: 'u' :: hexDigits 4 c.toNat
  else '\\' :: 'U' :: hexDigits 8 c.toNat

/-- A character as it stands between the quotes: the quote in use and the
    backslash follow a backslash, the common controls have letters, and what is
    not printable is shown by its number. -/
def escapeChar (quote c : Char) : List Char :=
  if c = quote || c = '\\' then ['\\', c]
  else if c = '\t' then ['\\', 't']
  else if c = '\n' then ['\\', 'n']
  else if c = '\r' then ['\\', 'r']
  else if isPrintable c then [c]
  else escapeByNumber c

/-- The quote around a text: an apostrophe, unless the text holds one and holds
    no quotation mark. -/
def quoteFor (text : List Char) : Char :=
  if singleQuote ∈ text ∧ doubleQuote ∉ text then doubleQuote else singleQuote

/-- A text in quotes, all of its characters visible. -/
def quoted (text : String) : String :=
  let cs := text.toList
  let quote := quoteFor cs
  String.ofList (quote :: cs.flatMap (escapeChar quote) ++ [quote])

-- ============================================================================
-- Lemmas
-- ============================================================================

@[simp] theorem length_hexDigits (width n : Nat) : (hexDigits width n).length = width := by
  induction width generalizing n with
  | zero => rfl
  | succ width ih => simp [hexDigits, ih]

/-- No text is hidden: an escaped character is never empty. -/
theorem escapeChar_ne_nil (quote c : Char) : escapeChar quote c ≠ [] := by
  unfold escapeChar escapeByNumber
  repeat' split
  all_goals simp

end LineLisp.Text
