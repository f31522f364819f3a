import UnitScript.CommandLine
import UnitScript.Proofs.Input

/-!
# Programs from files and programs that are typed in

What is run is the program that was read, which has the tokens of its text, so that a report is one
of the run of the text itself (`execute_of_read`). A text can be typed in instead of being read from
a file, as long as no line of it is the sentinel: closed by a line with the sentinel, with whatever
behind it, or by the end of the input. The two reports differ in nothing but the prompts, of which
there is one for every line and one more (`modes_agree`).
-/

namespace UnitScript

/-- Texts with the same tokens (`Token.ofText`), or the same lexical error, run alike: `runText`
reads a text in no other way. -/
theorem runText_congr {a b : List Char} (h : Token.ofText a = Token.ofText b) (fuel : Nat)
    (machine : Machine) : runText fuel a machine = runText fuel b machine := by
  rw [runText, runText, Block.ofText, Block.ofText, h]

/-! ## Lines that are typed in -/

namespace Text

/-- A text that is not empty and whose last line is open has one line more (`Text.lines`) than it
has newlines. -/
theorem length_lines_of_open {text : List Char} (hne : text ≠ [])
    (hopen : text.getLast? ≠ some '\n') : (lines text).length = text.count '\n' + 1 := by
  rw [lines, List.length_map]
  induction text with
  | nil => exact absurd rfl hne
  | cons c text ih =>
    cases text with
    | nil =>
      have hc : c ≠ '\n' := fun heq => hopen (congrArg some heq)
      rw [pieces_cons_of_nil hc rfl, List.count_cons_of_ne hc]
      rfl
    | cons d text =>
      have hrest := ih (List.cons_ne_nil d text) (List.getLast?_cons_cons ▸ hopen)
      by_cases hc : c = '\n'
      · subst hc
        rw [pieces_cons_newline, List.length_cons, hrest, List.count_cons_self]
      · obtain ⟨piece, others, hpieces⟩ := exists_pieces_eq_cons (List.cons_ne_nil d text)
        rw [hpieces] at hrest
        rw [pieces_cons_of_cons hc hpieces, List.count_cons_of_ne hc, ← hrest, List.length_cons,
          List.length_cons]

/-- What is typed in for a text that `Text.lines` reads: the text, with its last line closed.
Nothing has to be closed in an empty text. -/
inductive Typed (text : List Char) : List Char → Prop
  | closed : text = [] ∨ text.getLast? = some '\n' → Typed text text
  | closing : text.getLast? ≠ some '\n' → Typed text (text ++ ['\n'])

variable {text fed : List Char}

/-- What is typed in for a text (`Typed`) is empty or ends in a newline, which is what
`Input.readProgram_sentinel` asks for. -/
theorem Typed.isClosed (h : Typed text fed) : fed = [] ∨ fed.getLast? = some '\n' := by
  cases h with
  | closed h => exact h
  | closing => exact .inr List.getLast?_concat

/-- What is typed in for a text has as many lines (`Text.lines`) as the text, so closing the last
line costs no further prompt. -/
theorem Typed.length_lines (h : Typed text fed) (hne : text ≠ []) :
    (lines fed).length = (lines text).length := by
  cases h with
  | closed => rfl
  | closing hopen => rw [length_lines_append_newline, length_lines_of_open hne hopen]

end Text

/-- A lone newline runs as the empty text does: `runText` finds no statement in either, and no run
depends on where such a program ends. -/
theorem runText_newline (fuel : Nat) (machine : Machine) :
    runText fuel ['\n'] machine = runText fuel [] machine := by
  have hline : Token.ofText ['\n'] = .ok [Token.atEnd 1] := by
    rw [Token.ofText, show Text.lines ['\n'] = [[]] from rfl, Token.ofLines, Token.ofLine]
    rfl
  have hnewline : Block.ofText ['\n'] = .ok ⟨.point ⟨1, 0⟩, []⟩ := by
    rw [Block.ofText, hline]
    rfl
  rw [runText, runText, hnewline]
  rfl

/-- What is typed in for a text runs as the text does (`UnitScript.runText`): a newline that is
added behind the last token changes no outcome. -/
theorem Text.Typed.runText {text fed : List Char} (h : Typed text fed) (fuel : Nat)
    (machine : Machine) : runText fuel fed machine = UnitScript.runText fuel text machine := by
  cases h with
  | closed => rfl
  | closing hopen =>
    by_cases hne : text = []
    · subst hne
      exact runText_newline fuel machine
    · -- The end of the text stands on the same row as before.
      refine runText_congr ?_ fuel machine
      rw [Token.ofText, Token.ofText, Token.ofLines_eq, Token.ofLines_eq,
        Token.ofRows_lines_append_newline, length_lines_append_newline,
        length_lines_of_open hne hopen]

/-- Closing the last line of a text does not take a line that equals `Input.sentinel` out of
`Text.lines`. -/
theorem Text.sentinel_mem_lines_append_newline {text : List Char}
    (h : Input.sentinel ∈ lines text) : Input.sentinel ∈ lines (text ++ ['\n']) := by
  rcases lines_append_newline text with hlines | ⟨init, last, line, hlast, hline, heq⟩
  · exact hlines ▸ List.mem_append_left _ h
  · rw [hlast, List.mem_append, List.mem_singleton] at h
    rw [hline, List.mem_append, List.mem_singleton]
    refine h.imp_right fun h => ?_
    rcases heq with heq | heq
    · exact h.trans heq.symm
    · -- The sentinel does not end in a carriage return.
      have hreturn := congrArg List.getLast? (h.trans heq)
      rw [List.getLast?_concat] at hreturn
      exact absurd hreturn (by decide)

/-- What is typed in for a text has no line that equals `Input.sentinel`, if the closed text has
none. So nothing of it ends the program early. -/
theorem Text.Typed.sentinel_notMem {text fed : List Char} (h : Typed text fed)
    (hsentinel : Input.sentinel ∉ lines (text ++ ['\n'])) : Input.sentinel ∉ lines fed := by
  cases h with
  | closing => exact hsentinel
  | closed => exact mt sentinel_mem_lines_append_newline hsentinel

namespace CommandLine

/-! ## Streams -/

/-- The characters that `linesText` writes: those of each line and a newline behind them. -/
theorem toList_linesText (lines : List String) :
    (linesText lines).toList = lines.flatMap fun line => line.toList ++ ['\n'] := by
  rw [linesText, String.toList_join, List.flatMap_map]
  simp only [String.toList_append]
  rfl

/-- The characters of so many copies of `Input.prompt`: an angle bracket and a blank each. -/
theorem toList_prompts (prompts : Nat) :
    (String.join (List.replicate prompts Input.prompt)).toList =
      (List.replicate prompts ['>', ' ']).flatten := by
  rw [String.toList_join, List.flatMap_replicate]
  rfl

/-! ## Reports -/

/-- What is shown of how a run ends: the text of its value (`Value.text`), if it has one. A run that
fails shows nothing. -/
def shown : Ending → List String
  | .value (some v) => [v.value.text]
  | _ => []

/-- What a run that fails complains of: the text of its failure (`Failure.message`). -/
def complaints : Ending → List String
  | .failure failure => [failure.message]
  | _ => []

namespace Report

/-- All that is written to the standard output: the prompts, and behind them what the run writes
there. -/
def stdout (report : Report) : String := report.prompts ++ report.out

/-- What is seen of a report from outside of the program: the exit code, and the texts of the
standard output and of the standard error stream. -/
def seen (report : Report) : Nat × String × String := (report.code, report.stdout, report.err)

/-- What a report tells of a run on a machine that has printed nothing before, stated without the
writer `linesText`: both streams are spelled out, character by character. -/
structure Tells (report : Report) (ending : Ending) (printed : List String) : Prop where
  /-- The exit code is zero exactly for a success. -/
  code : report.code = 0 ↔ ∃ result, ending = .value result
  /-- Any failure has the exit code one. -/
  failed {failure : Failure} : ending = .failure failure → report.code = 1
  /-- Every line that was printed is written out with a newline behind it, and then the value, if
  there is one, in the same way. -/
  out : report.out.toList = (printed ++ shown ending).flatMap fun line => line.toList ++ ['\n']
  /-- The text of a failure is written to the other stream with a newline behind it. Nothing else
  is written there. -/
  err : report.err.toList = (complaints ending).flatMap fun line => line.toList ++ ['\n']

/-- One report has so many prompts more than another, each of them an angle bracket and a blank in
front of the standard output (`Report.stdout`), and nothing else is different. -/
structure Prompted (prompts : Nat) (filed typed : Report) : Prop where
  code : typed.code = filed.code
  err : typed.err = filed.err
  stdout : typed.stdout.toList =
    (List.replicate prompts ['>', ' ']).flatten ++ filed.stdout.toList

/-- Every report that `Report.ofEnding?` makes tells of its run in the sense of `Tells`, behind the
prompts it was given. -/
theorem tells_of_ofEnding? {prompts : String} {ending : Ending} {printed : Array String}
    {report : Report} (h : ofEnding? prompts ending printed = some report) :
    report.prompts = prompts ∧ report.Tells ending printed.toList := by
  unfold ofEnding? at h
  split at h
  · cases h
    refine ⟨rfl, by simp, nofun, ?_, rfl⟩
    exact (toList_linesText _).trans (congrArg (List.flatMap _) (List.append_nil _).symm)
  · cases h
    exact ⟨rfl, by simp, nofun, toList_linesText _, rfl⟩
  · cases h
    refine ⟨rfl, by simp, fun _ => rfl, ?_, toList_linesText _⟩
    exact (toList_linesText _).trans (congrArg (List.flatMap _) (List.append_nil _).symm)
  · cases h

/-- `Report.ofEnding?` gives no report exactly for `Ending.outOfFuel`: a run that comes to a value
or to a failure always has one. -/
theorem ofEnding?_eq_none_iff {prompts : String} {ending : Ending} {printed : Array String} :
    ofEnding? prompts ending printed = none ↔ ending = .outOfFuel := by
  unfold ofEnding?
  split <;> simp

/-- Two reports of one ending and one list of printed lines, without prompts and with some, differ
in their prompts alone (`Prompted`); a run without an end has neither. -/
theorem ofEnding?_prompted (prompts : Nat) (ending : Ending) (printed : Array String) :
    Option.Rel (Prompted prompts) (ofEnding? "" ending printed)
      (ofEnding? (String.join (List.replicate prompts Input.prompt)) ending printed) := by
  have hstdout (code : Nat) (out err : String) :
      (Report.mk code (String.join (List.replicate prompts Input.prompt)) out err).stdout.toList =
        (List.replicate prompts ['>', ' ']).flatten ++
          (Report.mk code "" out err).stdout.toList := by
    rw [stdout, stdout, String.toList_append, toList_prompts, String.empty_append]
  unfold ofEnding?
  split
  · exact .some ⟨rfl, rfl, hstdout ..⟩
  · exact .some ⟨rfl, rfl, hstdout ..⟩
  · exact .some ⟨rfl, rfl, hstdout ..⟩
  · exact .none

/-- What a report without prompts `Tells` of a run fixes what is `seen` of it: the code, and both
streams as literal texts. -/
theorem seen_of_tells {report : Report} {ending : Ending} {printed : List String} {code : Nat}
    {out err : String} (hprompts : report.prompts = "") (h : report.Tells ending printed)
    (hcode : report.code = code)
    (hout : (printed ++ shown ending).flatMap (fun line => line.toList ++ ['\n']) = out.toList)
    (herr : (complaints ending).flatMap (fun line => line.toList ++ ['\n']) = err.toList) :
    report.seen = (code, out, err) := by
  have hstdout : report.stdout = out := by
    rw [stdout, hprompts, String.empty_append]
    exact String.toList_inj.1 (h.out.trans hout)
  have hstderr : report.err = err := String.toList_inj.1 (h.err.trans herr)
  rw [seen, hcode, hstdout, hstderr]

/-- What is `seen` of the report on a program that is typed in follows from what is `seen` of the
report on its file (`Prompted`): the prompts stand in front of the same standard output. -/
theorem seen_of_prompted {prompts code : Nat} {out err : String} {filed typed : Option Report}
    (h : Option.Rel (Prompted prompts) filed typed)
    (hfiled : filed.map seen = some (code, out, err)) :
    typed.map seen = some (code,
      String.ofList ((List.replicate prompts ['>', ' ']).flatten ++ out.toList), err) := by
  cases h with
  | none => cases hfiled
  | @some filed typed h =>
    cases hfiled
    have hstdout : typed.stdout = String.ofList
        ((List.replicate prompts ['>', ' ']).flatten ++ filed.stdout.toList) := by
      rw [← h.stdout, String.ofList_toList]
    rw [Option.map_some, seen, h.code, h.err, hstdout]

end Report

/-- Once `Input.readProgram` has read a program and `runText` has run it, `execute` makes the report
of that run behind the prompts of that reading. -/
theorem execute_of_read (fuel : Nat) (options : Options) {bytes : List UInt8}
    {program : List Char} {input : Input} {run : Ending × Machine}
    (h : (Input.ofBytes options.mode bytes).readProgram = (.ok program, input))
    (hrun : runText fuel program (.initial options.maxDepth) = run) :
    execute fuel options (.ok bytes) =
      Report.ofEnding? input.promptText run.1 run.2.printed := by
  simp only [execute, h, hrun]

/-- How a program that is typed in (`InputMode.interactive`) is run by `execute`, compared to one
that is read from a file with the same text. What the reports say is spelled out by `Report.Tells`
and `Report.Prompted`. -/
structure ModesAgree (fuel : Nat) (path : String) (maxDepth : Nat) (text : List Char) : Prop where
  /-- Typed in up to the sentinel (`Input.sentinel`), with any bytes behind it, the text has the
  report of the file (`Report.Prompted`), with a prompt for every line and one for the sentinel. -/
  typed {fed close : List Char} {rest : List UInt8} : Text.Typed text fed →
    close = ['\n'] ∨ close = ['\r', '\n'] →
    Option.Rel (Report.Prompted ((Text.lines fed).length + 1))
      (execute fuel ⟨some path, maxDepth⟩ (.ok (Text.bytes text)))
      (execute fuel ⟨none, maxDepth⟩
        (.ok (Text.bytes (fed ++ Input.sentinel ++ close) ++ rest)))
  /-- Typed in up to the end of the input, without a sentinel, the text has the report of the file
  too, with a prompt for every line and one for the end. -/
  ended : Option.Rel (Report.Prompted ((Text.lines text).length + 1))
    (execute fuel ⟨some path, maxDepth⟩ (.ok (Text.bytes text)))
    (execute fuel ⟨none, maxDepth⟩ (.ok (Text.bytes text)))
  /-- Closing the last line does not make another line of it (`Text.Typed.length_lines`), so both
  fields count the prompts of the same lines. -/
  lines {fed : List Char} : Text.Typed text fed → text ≠ [] →
    (Text.lines fed).length = (Text.lines text).length
  /-- What stands behind the sentinel is not read: it is what `Input.readProgram` leaves of the
  bytes. -/
  unread {fed close : List Char} {rest : List UInt8} : Text.Typed text fed →
    close = ['\n'] ∨ close = ['\r', '\n'] →
    (Input.ofBytes .interactive
      (Text.bytes (fed ++ Input.sentinel ++ close) ++ rest)).readProgram.2.rest = rest
  /-- The report of the file has no prompts, and tells (`Report.Tells`) of the run of the text on a
  fresh machine: its exit code and both of its streams. -/
  filed {report : Report} :
    execute fuel ⟨some path, maxDepth⟩ (.ok (Text.bytes text)) = some report →
    report.prompts = "" ∧ report.Tells (runText fuel text (.initial maxDepth)).1
      (runText fuel text (.initial maxDepth)).2.printed.toList
  /-- There is no report exactly if `runText` runs out of fuel. So a program comes to an end in one
  mode if and only if it does so in the other. -/
  unending : execute fuel ⟨some path, maxDepth⟩ (.ok (Text.bytes text)) = none ↔
    (runText fuel text (.initial maxDepth)).1 = .outOfFuel
  /-- Whatever bytes are read as a program in either mode, the report shows the prompts of that
  reading and tells of the run of what was read. -/
  told {options : Options} {bytes : List UInt8} {program : List Char} {input : Input}
    {report : Report} : (Input.ofBytes options.mode bytes).readProgram = (.ok program, input) →
    execute fuel options (.ok bytes) = some report →
    report.prompts.toList = (List.replicate input.prompts ['>', ' ']).flatten ∧
      report.Tells (runText fuel program (.initial options.maxDepth)).1
        (runText fuel program (.initial options.maxDepth)).2.printed.toList

/-- Programs can be typed in instead of being read from a file: for every text none of whose lines
equals `Input.sentinel`, and for every limit and fuel, both modes agree in the sense of
`ModesAgree`. -/
theorem modes_agree (fuel : Nat) (path : String) (maxDepth : Nat) {text : List Char}
    (hsentinel : Input.sentinel ∉ Text.lines (text ++ ['\n'])) :
    ModesAgree fuel path maxDepth text := by
  -- What was read has the runs of what it was read from, and that has the runs of the text.
  have hlines (fed : List Char) :
      runText fuel (Text.unlines (Text.lines fed)) (.initial maxDepth) =
        runText fuel fed (.initial maxDepth) :=
    runText_congr (Token.ofText_unlines_lines fed) fuel _
  have hfile : execute fuel ⟨some path, maxDepth⟩ (.ok (Text.bytes text)) =
      Report.ofEnding? "" (runText fuel text (.initial maxDepth)).1
        (runText fuel text (.initial maxDepth)).2.printed :=
    execute_of_read fuel ⟨some path, maxDepth⟩ (Input.readProgram_bytes .file text nofun)
      (hlines text)
  have hread {fed close : List Char} (rest : List UInt8) (hfed : Text.Typed text fed)
      (hclose : close = ['\n'] ∨ close = ['\r', '\n']) :=
    Input.readProgram_sentinel hfed.isClosed (hfed.sentinel_notMem hsentinel) hclose rest
  refine ⟨fun {fed close rest} hfed hclose => ?_, ?_, fun hfed hne => hfed.length_lines hne,
    fun hfed hclose => ?_, fun h => Report.tells_of_ofEnding? (hfile ▸ h), ?_,
    fun hprogram h => ?_⟩
  · have htyped := execute_of_read fuel ⟨none, maxDepth⟩ (hread rest hfed hclose)
      ((hlines fed).trans (hfed.runText fuel _))
    rw [hfile, htyped]
    exact Report.ofEnding?_prompted ..
  · have hended := Input.readProgram_bytes .interactive text
      fun _ => mt Text.sentinel_mem_lines_append_newline hsentinel
    have htyped := execute_of_read fuel ⟨none, maxDepth⟩ hended (hlines text)
    rw [hfile, htyped]
    exact Report.ofEnding?_prompted ..
  · rw [hread _ hfed hclose]
  · rw [hfile]
    exact Report.ofEnding?_eq_none_iff
  · obtain ⟨hprompts, htells⟩ :=
      Report.tells_of_ofEnding? ((execute_of_read fuel _ hprogram rfl).symm.trans h)
    refine ⟨?_, htells⟩
    rw [hprompts]
    exact toList_prompts _

/-- What is `Report.seen` of the report on a file whose program comes to an end, as literal texts:
that the report exists is `ModesAgree.unending`, what it tells is `ModesAgree.filed`. -/
theorem ModesAgree.seen_filed {fuel : Nat} {path : String} {maxDepth : Nat} {text : List Char}
    (h : ModesAgree fuel path maxDepth text) {ending : Ending} {m : Machine} {code : Nat}
    {out err : String} (hrun : runText fuel text (.initial maxDepth) = (ending, m))
    (hend : ending ≠ .outOfFuel)
    (hcode : ∀ report : Report, report.Tells ending m.printed.toList → report.code = code)
    (hout : (m.printed.toList ++ shown ending).flatMap (fun line => line.toList ++ ['\n']) =
      out.toList)
    (herr : (complaints ending).flatMap (fun line => line.toList ++ ['\n']) = err.toList) :
    (execute fuel ⟨some path, maxDepth⟩ (.ok (Text.bytes text))).map Report.seen =
      some (code, out, err) := by
  cases hreport : execute fuel ⟨some path, maxDepth⟩ (.ok (Text.bytes text)) with
  | none =>
    have hunending := h.unending.1 hreport
    rw [hrun] at hunending
    exact absurd hunending hend
  | some report =>
    obtain ⟨hprompts, htells⟩ := h.filed hreport
    rw [hrun] at htells
    exact congrArg some (Report.seen_of_tells hprompts htells (hcode report htells) hout herr)

/-! ## Two programs -/

/-- A program that prints a line and comes to a value (`runText_printing`). Its first line ends in a
carriage return and a newline, and its last line is open. -/
def printing : List Char := "print(2);\r\n3;".toList

/-- A program that prints a line and then reads a variable that is not there (`runText_failing`). -/
def failing : List Char := "print(1);\nx;\n".toList

/-- The run of `printing`: it prints a two and comes to a three, at the place of the literal in the
second line. -/
theorem runText_printing :
    runText 9 printing (.initial 128) =
      (.value (some ⟨.number (.int 3), some ⟨⟨1, 0⟩, ⟨1, 1⟩⟩⟩), ⟨.initial 128, #["2"]⟩) := by
  have hlines : Text.lines printing = ["print(2);".toList, "3;".toList] := by decide
  have htokens : Token.ofText printing = .ok
      [⟨.identifier, some "print", ⟨⟨0, 0⟩, ⟨0, 5⟩⟩⟩, ⟨.leftParen, none, ⟨⟨0, 5⟩, ⟨0, 6⟩⟩⟩,
        ⟨.intLiteral, some "2", ⟨⟨0, 6⟩, ⟨0, 7⟩⟩⟩, ⟨.rightParen, none, ⟨⟨0, 7⟩, ⟨0, 8⟩⟩⟩,
        ⟨.semicolon, none, ⟨⟨0, 8⟩, ⟨0, 9⟩⟩⟩, ⟨.intLiteral, some "3", ⟨⟨1, 0⟩, ⟨1, 1⟩⟩⟩,
        ⟨.semicolon, none, ⟨⟨1, 1⟩, ⟨1, 2⟩⟩⟩, .atEnd 2] := by
    simp only [Token.ofText, hlines, Token.ofLines, Token.ofLine_eq_upTo]
    rfl
  simp only [runText, Block.ofText, htokens]
  rfl

/-- The run of `failing`: it prints a one and fails in its second line, outside of any call. -/
theorem runText_failing :
    runText 9 failing (.initial 128) =
      (.failure (.runtime ⟨.undefinedVariable "x", some ⟨1, 0⟩, [.main]⟩),
        ⟨.initial 128, #["1"]⟩) := by
  have hlines : Text.lines failing = ["print(1);".toList, "x;".toList] := by decide
  have htokens : Token.ofText failing = .ok
      [⟨.identifier, some "print", ⟨⟨0, 0⟩, ⟨0, 5⟩⟩⟩, ⟨.leftParen, none, ⟨⟨0, 5⟩, ⟨0, 6⟩⟩⟩,
        ⟨.intLiteral, some "1", ⟨⟨0, 6⟩, ⟨0, 7⟩⟩⟩, ⟨.rightParen, none, ⟨⟨0, 7⟩, ⟨0, 8⟩⟩⟩,
        ⟨.semicolon, none, ⟨⟨0, 8⟩, ⟨0, 9⟩⟩⟩, ⟨.identifier, some "x", ⟨⟨1, 0⟩, ⟨1, 1⟩⟩⟩,
        ⟨.semicolon, none, ⟨⟨1, 1⟩, ⟨1, 2⟩⟩⟩, .atEnd 2] := by
    simp only [Token.ofText, hlines, Token.ofLines, Token.ofLine_eq_upTo]
    rfl
  simp only [runText, Block.ofText, htokens]
  rfl

/-- What `failing` complains of on the standard error stream: the place, the name that is not bound
and the traceback. -/
def failingMessage : String :=
  "Runtime error at line 2, column 1: variable not defined, `x` not defined
Traceback (innermost call first):
  in <main>
"

/-- What is `Report.seen` of `printing` and `failing` in both modes. The first one is typed in with
its last line closed, up to the sentinel and with a statement behind that; the second one is typed
in up to the end of the input. There is a prompt for each of their two lines and one more, and
nothing else is different from the file: the value is shown behind what was printed, and the fault
is on the other stream. -/
theorem printing_failing_seen :
    (execute 9 ⟨some "program", 128⟩ (.ok (Text.bytes printing))).map Report.seen =
      some (0, "2\n3\n", "") ∧
    (execute 9 ⟨none, 128⟩
        (.ok (Text.bytes "print(2);\r\n3;\nDONE\nprint(4);\n".toList))).map Report.seen =
      some (0, "> > > 2\n3\n", "") ∧
    (execute 9 ⟨some "program", 128⟩ (.ok (Text.bytes failing))).map Report.seen =
      some (1, "1\n", failingMessage) ∧
    (execute 9 ⟨none, 128⟩ (.ok (Text.bytes failing))).map Report.seen =
      some (1, "> > > 1\n", failingMessage) := by
  have hprinting : ModesAgree 9 "program" 128 printing := modes_agree 9 "program" 128 (by decide)
  have hfailing : ModesAgree 9 "program" 128 failing := modes_agree 9 "program" 128 (by decide)
  have hprinted : (execute 9 ⟨some "program", 128⟩ (.ok (Text.bytes printing))).map Report.seen =
      some (0, "2\n3\n", "") :=
    hprinting.seen_filed runText_printing nofun (fun _ h => h.code.2 ⟨_, rfl⟩) (by decide) rfl
  have hfailed : (execute 9 ⟨some "program", 128⟩ (.ok (Text.bytes failing))).map Report.seen =
      some (1, "1\n", failingMessage) :=
    hfailing.seen_filed runText_failing nofun (fun _ h => h.failed rfl) (by decide)
      (by decide +kernel)
  have htyped : Text.bytes "print(2);\r\n3;\nDONE\nprint(4);\n".toList =
      Text.bytes (printing ++ ['\n'] ++ Input.sentinel ++ ['\n']) ++
        Text.bytes "print(4);\n".toList := by decide
  refine ⟨hprinted, ?_, hfailed, ?_⟩
  · rw [htyped]
    exact Report.seen_of_prompted (hprinting.typed (.closing (by decide)) (.inl rfl)) hprinted
  · exact Report.seen_of_prompted hfailing.ended hfailed

end CommandLine

end UnitScript
