/-
  LineLisp.Numeral

  Decimal numerals: reading them, writing them, and the bound on their length.
  Integers themselves have no bound. Only the step between an integer and its
  decimal text is limited, in both directions, to 4300 digits. Numerals of other
  origins than source text may have margins, digits of any script, and
  underscores between their digits.
-/
import LineLisp.Text.Blank
import LineLisp.Text.Digit

namespace LineLisp.Numeral

/-- The most digits a numeral may have. -/
def maxDigits : Nat := 4300

/-- The least number whose numeral has more than `maxDigits` digits. -/
def bound : Nat := Nat.pow 10 maxDigits

/-- Whether an integer has a numeral of at most `maxDigits` digits. -/
def fits (n : Int) : Bool :=
  n.natAbs < bound

/-- Whether a character may stand around a numeral: any blank but the separator
    controls. -/
def isMargin (c : Char) : Bool :=
  Text.isBlank c && !(0x1C ≤ c.toNat && c.toNat ≤ 0x1F)

/-- A text without the margins at its two ends. -/
def trimMargins (cs : List Char) : List Char :=
  ((cs.dropWhile isMargin).reverse.dropWhile isMargin).reverse

/-- The digits of a numeral in ASCII: at least one digit of any script, where one
    underscore may stand between two of them. -/
def plainDigits? : List Char → Option (List Char)
  | [] => none
  | [c] => (Text.asciiDigit? c).map fun d => [d]
  | c :: '_' :: cs =>
    (Text.asciiDigit? c).bind fun d => (plainDigits? cs).map fun ds => d :: ds
  | c :: cs =>
    (Text.asciiDigit? c).bind fun d => (plainDigits? cs).map fun ds => d :: ds

/-- The value of the digits of a numeral, of which there may be `maxDigits` at
    most, leading zeros included. -/
def readDigits? (digits : List Char) : Option Nat :=
  (plainDigits? digits).bind fun ds =>
    if ds.length ≤ maxDigits then some (Nat.ofDigitChars 10 ds 0) else none

/-- The value of a numeral: an optional sign, then digits, with margins around
    it. -/
def read? (cs : List Char) : Option Int :=
  match trimMargins cs with
  | '-' :: digits => (readDigits? digits).map fun (n : Nat) => -(n : Int)
  | '+' :: digits => (readDigits? digits).map Int.ofNat
  | digits => (readDigits? digits).map Int.ofNat

/-- The decimal text of an integer, whatever its length. -/
def text (n : Int) : String :=
  match n with
  | .ofNat m => m.repr
  | .negSucc m => "-" ++ (m + 1).repr

-- ============================================================================
-- Lemmas
-- ============================================================================

theorem fits_iff {n : Int} : fits n = true ↔ n.natAbs < bound := by
  simp [fits]

@[simp] theorem fits_neg (n : Int) : fits (-n) = fits n := by
  simp [fits]

/-- A number below the bound has at most `maxDigits` digits. -/
theorem length_toDigits_le {m : Nat} (h : m < bound) :
    (Nat.toDigits 10 m).length ≤ maxDigits := by
  have hpos : 0 < maxDigits := by decide
  unfold bound at h
  generalize maxDigits = limit at h hpos ⊢
  exact (Nat.length_toDigits_le_iff (by decide) hpos).2 h

/-- The digits of a numeral come out as ASCII digits. -/
theorem isDigit_of_mem_plainDigits? {cs ds : List Char} (h : plainDigits? cs = some ds) :
    ∀ d ∈ ds, d.isDigit = true := by
  fun_induction plainDigits? cs generalizing ds with
  | case1 => simp at h
  | case2 c =>
    obtain ⟨d, hd, rfl⟩ := Option.map_eq_some_iff.1 h
    simpa using Text.isDigit_of_asciiDigit?_eq_some hd
  | case3 c cs ih =>
    obtain ⟨d, hd, htail⟩ := Option.bind_eq_some_iff.1 h
    obtain ⟨tail, hcs, rfl⟩ := Option.map_eq_some_iff.1 htail
    simpa using ⟨Text.isDigit_of_asciiDigit?_eq_some hd, ih hcs⟩
  | case4 c cs _ _ ih =>
    obtain ⟨d, hd, htail⟩ := Option.bind_eq_some_iff.1 h
    obtain ⟨tail, hcs, rfl⟩ := Option.map_eq_some_iff.1 htail
    simpa using ⟨Text.isDigit_of_asciiDigit?_eq_some hd, ih hcs⟩

/-- ASCII digits stand for themselves. -/
theorem plainDigits?_of_isDigit {cs : List Char} (hne : cs ≠ [])
    (h : ∀ c ∈ cs, c.isDigit = true) : plainDigits? cs = some cs := by
  fun_induction plainDigits? cs with
  | case1 => exact absurd rfl hne
  | case2 c => simp [Text.asciiDigit?_of_isDigit (h c List.mem_cons_self)]
  | case3 c cs ih => exact absurd (h '_' (by simp)) (by decide)
  | case4 c cs hcs _ ih =>
    have htail := ih hcs fun d hd => h d (List.mem_cons_of_mem _ hd)
    simp [Text.asciiDigit?_of_isDigit (h c List.mem_cons_self), htail]

/-- A text of ASCII digits that is short enough has the value that its digits
    give. -/
theorem readDigits?_of_isDigit {cs : List Char} (hne : cs ≠ [])
    (h : ∀ c ∈ cs, c.isDigit = true) (hlen : cs.length ≤ maxDigits) :
    readDigits? cs = some (Nat.ofDigitChars 10 cs 0) := by
  rw [readDigits?, plainDigits?_of_isDigit hne h, Option.bind_some, if_pos hlen]

theorem isDigit_of_mem_toDigits {m : Nat} {c : Char} (h : c ∈ Nat.toDigits 10 m) :
    c.isDigit = true :=
  Nat.isDigit_of_mem_toDigits (by decide) (by decide) h

theorem toList_text_ofNat (m : Nat) : (text (.ofNat m)).toList = Nat.toDigits 10 m :=
  Nat.toList_repr

theorem toList_text_negSucc (m : Nat) :
    (text (.negSucc m)).toList = '-' :: Nat.toDigits 10 (m + 1) := by
  simp [text]

/-- The numeral of a natural number that fits reads back as that number. -/
theorem readDigits?_toDigits {m : Nat} (h : m < bound) :
    readDigits? (Nat.toDigits 10 m) = some m := by
  have hdigits : ∀ c ∈ Nat.toDigits 10 m, c.isDigit = true := fun _ => isDigit_of_mem_toDigits
  rw [readDigits?_of_isDigit Nat.toDigits_ne_nil hdigits (length_toDigits_le h),
    Nat.ofDigitChars_ten_toDigits]

/-- Digits only ever stand for a number below the power of ten that their
    count gives. -/
theorem ofDigitChars_lt {digits : List Char} (h : digits.all Char.isDigit = true) (start : Nat) :
    Nat.ofDigitChars 10 digits start < (start + 1) * Nat.pow 10 digits.length := by
  induction digits generalizing start with
  | nil => simp [Nat.ofDigitChars]
  | cons c digits ih =>
    simp only [List.all_cons, Bool.and_eq_true] at h
    have hc : c.toNat - '0'.toNat ≤ 9 := by
      have h9 := (Char.isDigit_iff_toNat.1 h.1).2
      have h0 : '0'.toNat = 48 := rfl
      have h57 : '9'.toNat = 57 := rfl
      omega
    have hpow : Nat.pow 10 (c :: digits).length = 10 * Nat.pow 10 digits.length :=
      Nat.mul_comm _ 10
    rw [Nat.ofDigitChars_cons, hpow, ← Nat.mul_assoc]
    exact Nat.lt_of_lt_of_le (ih h.2 _) (Nat.mul_le_mul_right _ (by omega))

/-- As many digits as a numeral may have stay below the bound. -/
theorem pow_le_bound {count : Nat} (h : count ≤ maxDigits) : Nat.pow 10 count ≤ bound := by
  unfold bound
  generalize maxDigits = limit at h
  exact Nat.pow_le_pow_right (by decide) h

/-- What the digits of a numeral stand for has a numeral that fits. -/
theorem lt_of_readDigits?_eq_some {digits : List Char} {m : Nat}
    (h : readDigits? digits = some m) : m < bound := by
  obtain ⟨ds, hds, hvalue⟩ := Option.bind_eq_some_iff.1 h
  split at hvalue
  · next hlen =>
    obtain rfl := Option.some.inj hvalue
    have hlt := ofDigitChars_lt (List.all_eq_true.2 (isDigit_of_mem_plainDigits? hds)) 0
    rw [Nat.zero_add, Nat.one_mul] at hlt
    exact Nat.lt_of_lt_of_le hlt (pow_le_bound hlen)
  · exact absurd hvalue (by simp)

/-- What a numeral stands for fits. -/
theorem fits_of_read?_eq_some {numeral : List Char} {n : Int} (h : read? numeral = some n) :
    fits n = true := by
  unfold read? at h
  split at h <;> obtain ⟨m, hm, rfl⟩ := Option.map_eq_some_iff.1 h <;>
    simpa [fits] using lt_of_readDigits?_eq_some hm

-- ============================================================================
-- Reading back
-- ============================================================================

theorem isMargin_eq_false {c : Char} (h : 0x20 < c.toNat ∧ c.toNat < 0x85) :
    isMargin c = false := by
  rw [isMargin, Bool.and_eq_false_iff]
  left
  refine Bool.eq_false_iff.2 fun hblank => ?_
  have hcode := Text.toNat_of_isBlank hblank
  omega

/-- A text without margins is trimmed to itself. -/
theorem trimMargins_eq_self {cs : List Char} (h : ∀ c ∈ cs, isMargin c = false) :
    trimMargins cs = cs := by
  have hdrop : ∀ ds : List Char, (∀ c ∈ ds, isMargin c = false) → ds.dropWhile isMargin = ds := by
    intro ds hds
    cases ds with
    | nil => rfl
    | cons d ds => rw [List.dropWhile_cons_of_neg (by simp [hds d List.mem_cons_self])]
  rw [trimMargins, hdrop cs h, hdrop _ fun c hc => h c (List.mem_reverse.1 hc),
    List.reverse_reverse]

/-- A minus sign and digits, or digits alone, have no margins to be trimmed. -/
theorem trimMargins_toDigits (m : Nat) :
    trimMargins (Nat.toDigits 10 m) = Nat.toDigits 10 m ∧
      trimMargins ('-' :: Nat.toDigits 10 m) = '-' :: Nat.toDigits 10 m := by
  have hdigits : ∀ c ∈ Nat.toDigits 10 m, isMargin c = false := by
    intro c hc
    have hdigit : c.isDigit = true := isDigit_of_mem_toDigits hc
    have hcode : 48 ≤ c.toNat ∧ c.toNat ≤ 57 := Char.isDigit_iff_toNat.1 hdigit
    exact isMargin_eq_false (by omega)
  constructor
  · exact trimMargins_eq_self hdigits
  · exact trimMargins_eq_self (List.forall_mem_cons.2 ⟨by decide, hdigits⟩)

/-- Digits have no sign to be read off. -/
theorem read?_toDigits (m : Nat) :
    read? (Nat.toDigits 10 m) = (readDigits? (Nat.toDigits 10 m)).map Int.ofNat := by
  have hhead : ∀ c cs, Nat.toDigits 10 m = c :: cs → c.isDigit = true := by
    intro c cs heq
    have hmem : c ∈ Nat.toDigits 10 m := by simp [heq]
    exact isDigit_of_mem_toDigits hmem
  rw [read?, (trimMargins_toDigits m).1]
  split
  · next heq => exact absurd (hhead _ _ heq) (by decide)
  · next heq => exact absurd (hhead _ _ heq) (by decide)
  · rfl

/-- The text of an integer that fits reads back as that integer. -/
theorem read?_text {n : Int} (h : fits n = true) : read? (text n).toList = some n := by
  have hlt : n.natAbs < bound := fits_iff.1 h
  cases n with
  | ofNat m =>
    have hread : readDigits? (Nat.toDigits 10 m) = some m := readDigits?_toDigits hlt
    rw [toList_text_ofNat, read?_toDigits, hread]
    rfl
  | negSucc m =>
    have hread : readDigits? (Nat.toDigits 10 (m + 1)) = some (m + 1) := readDigits?_toDigits hlt
    rw [toList_text_negSucc, read?, (trimMargins_toDigits (m + 1)).2]
    show (readDigits? (Nat.toDigits 10 (m + 1))).map _ = _
    rw [hread]
    rfl

end LineLisp.Numeral
