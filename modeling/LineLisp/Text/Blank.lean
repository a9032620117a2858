/-
  LineLisp.Text.Blank

  Blank characters, and the texts that hold nothing else. Blanks separate
  expressions, make up the lines that are skipped, and are trimmed from
  settings.
-/

namespace LineLisp.Text

/-- A blank character: white space of any script, a line or paragraph end, or
    one of the four separator controls. -/
def isBlank (c : Char) : Bool :=
  let n := c.toNat
  (0x09 ≤ n && n ≤ 0x0D) || (0x1C ≤ n && n ≤ 0x20) || n == 0x85 || n == 0xA0
    || n == 0x1680 || (0x2000 ≤ n && n ≤ 0x200A) || n == 0x2028 || n == 0x2029
    || n == 0x202F || n == 0x205F || n == 0x3000

/-- Whether a text is empty or made of blanks alone. -/
def isBlankLine (line : String) : Bool :=
  line.toList.all isBlank

/-- A text without the blanks at its two ends. -/
def trim (text : String) : String :=
  String.ofList ((text.toList.dropWhile isBlank).reverse.dropWhile isBlank).reverse

-- ============================================================================
-- Lemmas
-- ============================================================================

/-- All white space of the core character class is blank. -/
theorem isBlank_of_isWhitespace {c : Char} (h : c.isWhitespace = true) : isBlank c = true := by
  simp only [Char.isWhitespace, Bool.or_eq_true, decide_eq_true_eq] at h
  rcases h with ((rfl | rfl) | rfl) | rfl <;> decide

/-- No blank is a visible character of ASCII. -/
theorem toNat_of_isBlank {c : Char} (h : isBlank c = true) : c.toNat ≤ 0x20 ∨ 0x85 ≤ c.toNat := by
  simp only [isBlank, Bool.or_eq_true, Bool.and_eq_true, decide_eq_true_eq, beq_iff_eq] at h
  omega

@[simp] theorem isBlankLine_empty : isBlankLine "" = true := rfl

theorem isBlankLine_iff {line : String} :
    isBlankLine line = true ↔ ∀ c ∈ line.toList, isBlank c = true := by
  simp [isBlankLine, List.all_eq_true]

end LineLisp.Text
