/-
  LineLisp.Proofs.LineLoop

  The loop of a shell. A turn takes one line, whatever that line is and whatever comes of
  it, and only the turn that finds no line stops the loop. So as long as no fault escapes,
  the loop carries out all lines of the queue and then all lines of the input, each once
  and in order. A file that is run and a text that is piped are two ways to the same loop.
-/
import LineLisp.CommandLine.Outcome
import LineLisp.Proofs.ShellSurvival

namespace LineLisp

-- ============================================================================
-- Cutting a text
-- ============================================================================

namespace Text

/-- A text and the pieces in which it is read line by line: a piece goes on up to the next
    line feed and takes it along, or up to the end of the text if there is none. -/
inductive Cut : List Char → List (List Char) → Prop where
  | done : Cut [] []
  | unended {line : List Char} (hne : line ≠ []) (hline : '\n' ∉ line) : Cut line [line]
  | ended {line rest : List Char} {pieces : List (List Char)} (hline : '\n' ∉ line)
    (hrest : Cut rest pieces) : Cut (line ++ '\n' :: rest) ((line ++ ['\n']) :: pieces)

/-- Every text can be cut. The induction is on its length. -/
theorem exists_cut (text : List Char) : ∃ pieces, Cut text pieces := by
  by_cases hmem : '\n' ∈ text
  · obtain ⟨line, rest, htext, hline⟩ := List.eq_append_cons_of_mem hmem
    have : rest.length < text.length := by
      rw [htext, List.length_append, List.length_cons]
      omega
    obtain ⟨pieces, hrest⟩ := exists_cut rest
    rw [htext]
    exact ⟨_, .ended hline hrest⟩
  · by_cases hne : text = []
    · exact ⟨[], hne ▸ .done⟩
    · exact ⟨[text], .unended hne hmem⟩
termination_by text.length

theorem cutLines_of_not_mem {line : List Char} (hne : line ≠ []) (hline : '\n' ∉ line) :
    cutLines line = [line] := by
  induction line with
  | nil => exact absurd rfl hne
  | cons c line ih =>
    obtain ⟨hc, hline⟩ := not_or.1 (mt List.mem_cons.2 hline)
    rw [cutLines, if_neg (Ne.symm hc)]
    by_cases hempty : line = []
    · rw [hempty, cutLines_nil]
    · rw [ih hempty hline]

theorem trimLineEnd_concat_newline (line : List Char) :
    trimLineEnd (line ++ ['\n']) = trimLineEnd line := by
  simp [trimLineEnd]

theorem Cut.map_trimLineEnd {text : List Char} {pieces : List (List Char)} (h : Cut text pieces) :
    (cutLines text).map trimLineEnd = pieces.map trimLineEnd := by
  induction h with
  | done => rfl
  | unended hne hline => rw [cutLines_of_not_mem hne hline]
  | ended hline _ ih =>
    rw [cutLines_append_newline hline, List.map_cons, List.map_cons, ih,
      trimLineEnd_concat_newline]

/-- The lines of a text are the pieces in which it is read, each without the carriage
    returns and line feeds at its end. -/
theorem Cut.lines_eq {text : String} {pieces : List (List Char)} (h : Cut text.toList pieces) :
    lines text = pieces.map fun piece => String.ofList (trimLineEnd piece) := by
  have hmap := congrArg (List.map String.ofList) h.map_trimLineEnd
  rwa [List.map_map, List.map_map] at hmap

end Text

-- ============================================================================
-- What is written
-- ============================================================================

variable {η : Type}

theorem Piece.join_flatMap {α : Type} (color : Bool) (f : α → List Piece) (as : List α) :
    String.join ((as.flatMap f).map (Piece.text color)) =
      String.join (as.map fun a => String.join ((f a).map (Piece.text color))) := by
  induction as with
  | nil => rfl
  | cons a as ih =>
    rw [List.flatMap_cons, List.map_append, String.join_append, ih, List.map_cons,
      String.join_cons]

-- ============================================================================
-- Turns
-- ============================================================================

/-- The lines that are still to come, in order. -/
def Supply.lines (supply : Supply) : List String :=
  supply.queue ++ supply.input

namespace Shell

variable [Host η] {shell : Shell} {console : Console} {supply rest : Supply}
  {s t : Store (Value η)} {report : Report η}

/-- What one turn of the loop does. It stops the loop exactly if no line is left, and then
    it asked for one in vain. Otherwise it carries out the first of the lines that are left,
    after asking for it if it does not come from the queue, and leaves the others. -/
structure TakesLine (shell : Shell) (console : Console) (supply : Supply) (s : Store (Value η))
    (turn : Turn η) : Prop where
  stop_iff : turn.stop = true ↔ supply.lines = []
  at_end : supply.lines = [] → turn.store = s ∧ turn.report.escaped = none ∧
    turn.report.pieces = console.asking ++ console.ended
  line : ∀ line lines, supply.lines = line :: lines →
    turn.rest.lines = lines ∧ turn.store = (shell.command line s).2 ∧
      turn.report = (shell.command line s).1.after
        (if supply.queue.isEmpty then console.asking else [])

theorem turn_takesLine (shell : Shell) (console : Console) (supply : Supply)
    (s : Store (Value η)) : shell.TakesLine console supply s (shell.turn console supply s) := by
  obtain ⟨queue, input⟩ := supply
  cases queue with
  | cons line queue =>
    refine ⟨⟨nofun, nofun⟩, nofun, fun line' lines hlines => ?_⟩
    obtain ⟨rfl, rfl⟩ := List.cons.inj hlines
    exact ⟨rfl, rfl, rfl⟩
  | nil =>
    cases input with
    | nil => exact ⟨⟨fun _ => rfl, fun _ => rfl⟩, fun _ => ⟨rfl, rfl, List.append_nil _⟩, nofun⟩
    | cons line input =>
      refine ⟨⟨nofun, nofun⟩, nofun, fun line' lines hlines => ?_⟩
      obtain ⟨rfl, rfl⟩ := List.cons.inj hlines
      exact ⟨rfl, rfl, rfl⟩

theorem turn_queue (line : String) (queue input : List String) :
    shell.turn console ⟨line :: queue, input⟩ s =
      ⟨(shell.command line s).1, (shell.command line s).2, ⟨queue, input⟩, false⟩ := rfl

theorem turn_input (line : String) (input : List String) :
    shell.turn console ⟨[], line :: input⟩ s =
      ⟨(shell.command line s).1.after console.asking, (shell.command line s).2, ⟨[], input⟩,
        false⟩ := rfl

theorem loop_of_stop (h : shell.turn console supply s = ⟨report, t, rest, true⟩) :
    shell.loop console supply s = (report, t) := by
  rw [loop]
  -- The loop keeps the equation of its turn for its measure; it rules out the other branch.
  split
  · next h' =>
    rw [h] at h'
    cases h'
    rfl
  · next h' =>
    rw [h] at h'
    cases h'

/-- After a line that lets no fault escape the loop goes on. -/
theorem loop_of_line (h : shell.turn console supply s = ⟨report, t, rest, false⟩)
    (hescaped : report.escaped = none) :
    shell.loop console supply s =
      (((shell.loop console rest t).1.logged report.log).after report.pieces,
        (shell.loop console rest t).2) := by
  rw [loop]
  split
  · next h' =>
    rw [h] at h'
    cases h'
  · next h' =>
    rw [h] at h'
    cases h'
    simp only [Report.andThen, hescaped, Option.isSome_none, Bool.false_eq_true, if_false]

-- ============================================================================
-- The loop
-- ============================================================================

/-- Lines carried out one after the other: the report of each, and the store that is left. -/
def commandAll (shell : Shell) : List String → Store (Value η) → List (Report η) × Store (Value η)
  | [], s => ([], s)
  | line :: lines, s =>
    let (report, s) := shell.command line s
    let (reports, s) := shell.commandAll lines s
    (report :: reports, s)

theorem commandAll_cons (shell : Shell) (line : String) (lines : List String)
    (s : Store (Value η)) :
    shell.commandAll (line :: lines) s =
      ((shell.command line s).1 :: (shell.commandAll lines (shell.command line s).2).1,
        (shell.commandAll lines (shell.command line s).2).2) := rfl

theorem loop_end (shell : Shell) (console : Console) (s : Store (Value η)) :
    shell.loop console ⟨[], []⟩ s =
      (Report.empty.after (console.asking ++ console.ended), s) :=
  loop_of_stop rfl

/-- The loop over the input carries out all of its lines, each behind a prompt. The induction
    is on the lines; each of them is one turn. -/
theorem loop_input (shell : Shell) (console : Console) (input : List String) (s : Store (Value η))
    (h : ∀ report ∈ (shell.commandAll input s).1, report.escaped = none) :
    shell.loop console ⟨[], input⟩ s =
      (⟨(shell.commandAll input s).1.flatMap (fun report => console.asking ++ report.pieces) ++
          (console.asking ++ console.ended),
        (shell.commandAll input s).1.flatMap Report.log, none⟩, (shell.commandAll input s).2) := by
  induction input generalizing s with
  | nil =>
    rw [loop_end, Report.after, Report.empty, List.append_nil]
    rfl
  | cons line input ih =>
    rw [commandAll_cons] at h ⊢
    obtain ⟨hline, hinput⟩ := List.forall_mem_cons.1 h
    rw [loop_of_line (turn_input line input) hline, ih _ hinput]
    simp only [Report.after, Report.logged, List.flatMap_cons, List.append_assoc]

/-- The loop carries out all lines of the queue and then all lines of the input. The
    induction is on the queue. -/
theorem loop_all (shell : Shell) (console : Console) (queue input : List String)
    (s : Store (Value η))
    (h : ∀ report ∈ (shell.commandAll (queue ++ input) s).1, report.escaped = none) :
    shell.loop console ⟨queue, input⟩ s =
      (⟨(shell.commandAll queue s).1.flatMap Report.pieces ++
          ((shell.commandAll input (shell.commandAll queue s).2).1.flatMap
            (fun report => console.asking ++ report.pieces) ++ (console.asking ++ console.ended)),
        (shell.commandAll (queue ++ input) s).1.flatMap Report.log, none⟩,
        (shell.commandAll (queue ++ input) s).2) := by
  induction queue generalizing s with
  | nil => exact loop_input shell console input s h
  | cons line queue ih =>
    rw [List.cons_append, commandAll_cons] at h
    obtain ⟨hline, hqueue⟩ := List.forall_mem_cons.1 h
    rw [loop_of_line (turn_queue line queue input) hline, ih _ hqueue, List.cons_append,
      commandAll_cons, commandAll_cons]
    simp only [Report.after, Report.logged, List.flatMap_cons, List.append_assoc]

/-- What came of all lines of a queue and of an input. No fault escaped, and the store and
    the log are those of the lines carried out one after the other. The intro is written
    first, in a line of its own if there is one, then what the lines of the queue wrote, then
    a prompt and what the line wrote for each line of the input, and then one more prompt. -/
structure CarriesOut (shell : Shell) (console : Console) (queue input : List String)
    (s : Store (Value η)) (outcome : Report η × Store (Value η)) : Prop where
  escaped : outcome.1.escaped = none
  store : outcome.2 = (shell.commandAll (queue ++ input) s).2
  log : outcome.1.log = (shell.commandAll (queue ++ input) s).1.flatMap Report.log
  text : ∀ color, outcome.1.text color =
    (if console.intro.isEmpty then "" else asLine console.intro) ++
      (String.join ((shell.commandAll queue s).1.map (Report.text color)) ++
        (String.join ((shell.commandAll input (shell.commandAll queue s).2).1.map fun report =>
            console.prompt ++ report.text color) ++
          console.prompt))

theorem text_opening (color : Bool) (console : Console) :
    String.join (console.opening.map (Piece.text color)) =
      if console.intro.isEmpty then "" else asLine console.intro := by
  unfold Console.opening
  split
  · rfl
  · simp [Piece.line, Piece.text]

theorem text_asking (color : Bool) (console : Console) :
    String.join (console.asking.map (Piece.text color)) = console.prompt := by
  simp [Console.asking, Piece.text]

/-- A shell whose console is not interactive carries out all lines, as long as none of them
    lets a fault escape. -/
theorem run_carriesOut (shell : Shell) {console : Console} (hraw : console.interactive = false)
    (queue input : List String) (s : Store (Value η))
    (h : ∀ report ∈ (shell.commandAll (queue ++ input) s).1, report.escaped = none) :
    shell.CarriesOut console queue input s (shell.run console queue input s) := by
  have hended : console.ended = [] := by simp [Console.ended, hraw]
  rw [run, loop_all shell console queue input s h, hended]
  refine ⟨rfl, rfl, rfl, fun color => ?_⟩
  simp only [Report.text, Report.after, List.map_append, String.join_append,
    Piece.join_flatMap, text_opening, text_asking, List.map_nil, String.join_nil,
    String.append_empty]
  rfl

/-- A console that shows results only shows what the lines wrote and nothing else. -/
theorem CarriesOut.text_silent {input : List String} {outcome : Report η × Store (Value η)}
    (h : shell.CarriesOut .silent [] input s outcome) (color : Bool) :
    outcome.1.text color = String.join ((shell.commandAll input s).1.map (Report.text color)) := by
  rw [h.text]
  simp [Console.silent, commandAll]

end Shell

-- ============================================================================
-- Fresh sessions
-- ============================================================================

/-- Of lines in a fresh session, only one that makes the shell write a long integer lets a
    fault escape. -/
theorem Shell.commandAll_not_escaped (shell : Shell) (lines : List String)
    {s : Store (Value Empty)} (hs : s.Sourced)
    (h : ∀ report ∈ (shell.commandAll lines s).1, report.escaped ≠ some .tooLong) :
    ∀ report ∈ (shell.commandAll lines s).1, report.escaped = none := by
  induction lines generalizing s with
  | nil => exact nofun
  | cons line lines ih =>
    rw [commandAll_cons] at h ⊢
    obtain ⟨hline, hlines⟩ := List.forall_mem_cons.1 h
    have hescapes := shell.command_escapesIff line hs
    have hshort : ¬ LineRendersLong shell.session line s := fun hlong => hline (hescapes.long hlong)
    exact List.forall_mem_cons.2 ⟨hescapes.none hshort, ih (shell.command_sourced line hs) hlines⟩

-- ============================================================================
-- A file and a piped text
-- ============================================================================

namespace CommandLine

/-- Two runs of the program on one text. One is given a file that holds the text, and may
    have a terminal as its input; for the other the text is the input, which is no terminal.
    The options are the same, and so is what the runs find around them, but for the prompt
    that the environment may ask for. -/
structure FileAndPipe (request : Request) (file content : String) (args args' : List String)
    (around around' : Surroundings) : Prop where
  options : readOptions args = .ok { request with file := some file }
  options' : readOptions args' = .ok { request with file := none }
  file : around.directory.read file = .ok content
  input : around'.input = content
  piped : around'.interactive = false
  terminal : around'.terminal = around.terminal
  env : ∀ name, name ≠ "TOYLISP_PROMPT" → around'.env name = around.env name

section

variable {env env' : Variables} {request : Request} {settings settings' : Settings}
  {file content : String} {args args' : List String} {around around' : Surroundings}

/-- Variables with the same values but for the prompt ask for the same settings but for the
    prompt. -/
theorem settle_load_of_agree (h : ∀ name, name ≠ "TOYLISP_PROMPT" → env' name = env name)
    (request : Request) :
    ∃ prompt, settle (Settings.load env') request =
      { settle (Settings.load env) request with prompt := prompt } := by
  refine ⟨(Settings.load env').prompt, ?_⟩
  simp only [settle, Settings.load, Variables.flag, Variables.text,
    h "TOYLISP_TRACE" (by decide), h "TOYLISP_COLOR" (by decide),
    h "TOYLISP_LOG_LEVEL" (by decide)]

theorem allowColor_of_agree (h : ∀ name, name ≠ "TOYLISP_PROMPT" → env' name = env name)
    (terminal : Bool) : env'.allowColor terminal = env.allowColor terminal := by
  unfold Variables.allowColor Variables.isFilled
  rw [h "ANSI_COLORS_DISABLED" (by decide), h "NO_COLOR" (by decide),
    h "FORCE_COLOR" (by decide), h "TERM" (by decide)]

/-- The prompt of the settings has no part in a run that has a console of its own. -/
theorem runText_of_agree (h : ∀ name, name ≠ "TOYLISP_PROMPT" → env' name = env name)
    (request : Request) (terminal : Bool) (console : Console) (text : String) :
    runText (settle (Settings.load env') request) env' terminal console text =
      runText (settle (Settings.load env) request) env terminal console text := by
  obtain ⟨prompt, hsettings⟩ := settle_load_of_agree h request
  rw [hsettings]
  simp only [runText, inColor, allowColor_of_agree h]
  rfl

namespace FileAndPipe

theorem run_file (h : FileAndPipe request file content args args' around around') :
    run args around =
      runText (settle (Settings.load around.env) request) around.env around.terminal .silent
        content := by
  simp only [run, plan, h.options, h.file]
  rfl

theorem run_pipe (h : FileAndPipe request file content args args' around around') :
    run args' around' =
      runText (settle (Settings.load around'.env) request) around'.env around'.terminal .silent
        content := by
  simp only [run, plan, h.options', h.input, h.piped]
  rfl

theorem run_eq (h : FileAndPipe request file content args args' around around') :
    run args around = run args' around' := by
  rw [h.run_file, h.run_pipe, runText_of_agree h.env, h.terminal]

end FileAndPipe

/-- A console that shows results only shows all of them. -/
theorem runText_silent (settings : Settings) (env : Variables) (terminal : Bool) (text : String) :
    let shell : Shell := ⟨freshSession.1, settings.trace⟩
    let reports := (shell.commandAll (Text.universalLines text) freshSession.2).1
    (∀ report ∈ reports, report.escaped ≠ some .tooLong) →
      (runText settings env terminal .silent text).ending = .finished ∧
        (runText settings env terminal .silent text).output =
          String.join (reports.map (Report.text (inColor settings env terminal))) := by
  intro shell reports h
  have hnone : ∀ report ∈ (shell.commandAll ([] ++ Text.universalLines text) freshSession.2).1,
      report.escaped = none := by
    rw [List.nil_append]
    exact shell.commandAll_not_escaped _ Reachable.fresh.sourced h
  have hall := shell.run_carriesOut (rfl : Console.silent.interactive = false) [] _ _ hnone
  have hescaped : (Shell.run ⟨(Session.start (Store.empty : Store (Value Empty))).1, settings.trace⟩
      .silent [] (Text.universalLines text) (Session.start Store.empty).2).1.escaped = none :=
    hall.escaped
  refine ⟨?_, hall.text_silent _⟩
  simp only [runText, hescaped]

end

end CommandLine

-- ============================================================================
-- The theorem
-- ============================================================================

end LineLisp
