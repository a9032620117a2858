/-
  LineLisp.Text.Lines

  Cutting a text into the lines that a session is fed with.
-/

namespace LineLisp.Text

/-- The pieces of a text between its line feeds. A last piece that no line feed
    ends counts when it is not empty. -/
def cutLines : List Char → List (List Char)
  | [] => []
  | c :: rest =>
    if c = '\n' then [] :: cutLines rest
    else match cutLines rest with
      | [] => [[c]]
      | line :: lines => (c :: line) :: lines

/-- A line without the carriage returns and line feeds at its end. -/
def trimLineEnd (line : List Char) : List Char :=
  (line.reverse.dropWhile fun c => c = '\r' || c = '\n').reverse

/-- The lines of a text: cut at line feeds only, then freed of the carriage
    returns at their ends. -/
def lines (text : String) : List String :=
  (cutLines text.toList).map fun line => String.ofList (trimLineEnd line)

/-- Every way of ending a line written as a line feed: a carriage return, alone
    or before a line feed, is one line end. -/
def unifyLineEnds : List Char → List Char
  | [] => []
  | '\r' :: '\n' :: rest => '\n' :: unifyLineEnds rest
  | c :: rest => (if c = '\r' then '\n' else c) :: unifyLineEnds rest

/-- The lines of a text in which a carriage return, a line feed and the two
    together all end a line. -/
def universalLines (text : String) : List String :=
  lines (String.ofList (unifyLineEnds text.toList))

-- ============================================================================
-- Lemmas
-- ============================================================================

@[simp] theorem cutLines_nil : cutLines [] = [] := rfl

@[simp] theorem cutLines_newline (rest : List Char) :
    cutLines ('\n' :: rest) = [] :: cutLines rest := by
  simp [cutLines]

/-- A line ended by a line feed is the first piece. -/
theorem cutLines_append_newline {line : List Char} (h : '\n' ∉ line) (rest : List Char) :
    cutLines (line ++ '\n' :: rest) = line :: cutLines rest := by
  induction line with
  | nil => simp
  | cons c line ih =>
    simp only [List.mem_cons, not_or] at h
    have hc : c ≠ '\n' := fun e => h.1 e.symm
    simp [cutLines, hc, ih h.2]

/-- No piece holds a line feed. -/
theorem newline_not_mem_of_mem_cutLines {text line : List Char} (h : line ∈ cutLines text) :
    '\n' ∉ line := by
  induction text generalizing line with
  | nil => simp at h
  | cons c rest ih =>
    by_cases hc : c = '\n'
    · simp only [cutLines, hc, if_true, List.mem_cons] at h
      rcases h with rfl | h
      · simp
      · exact ih h
    · have hc' : ¬ '\n' = c := fun e => hc e.symm
      simp only [cutLines, hc, if_false] at h
      split at h
      · simp only [List.mem_singleton] at h
        subst h
        simp [hc']
      · next first others hcut =>
        rcases List.mem_cons.1 h with rfl | h
        · simp [hc', ih (hcut ▸ List.mem_cons_self)]
        · exact ih (hcut ▸ List.mem_cons_of_mem _ h)

end LineLisp.Text
