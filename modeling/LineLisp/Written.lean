/-
  LineLisp.Written

  Things with a text in which integers stand in decimal. The text of a thing is
  defined whatever the length of its integers; whether it may be written depends
  on the bound on the length of numerals.
-/
import LineLisp.Numeral

namespace LineLisp

/-- A type of things with a text. -/
class Written (α : Type) where
  /-- The text, with integers of any length. -/
  text : α → String
  /-- Whether every integer in the text has a numeral of bounded length. -/
  fits : α → Bool

/-- The text of a thing, when all of its integers can be written. -/
def Written.text? {α : Type} [Written α] (a : α) : Option String :=
  if Written.fits a then some (Written.text a) else none

theorem Written.text?_of_fits {α : Type} [Written α] {a : α} (h : Written.fits a = true) :
    Written.text? a = some (Written.text a) := by
  simp [Written.text?, h]

@[simp] theorem Written.text?_eq_none_iff {α : Type} [Written α] {a : α} :
    Written.text? a = none ↔ Written.fits a = false := by
  simp [Written.text?]

end LineLisp
