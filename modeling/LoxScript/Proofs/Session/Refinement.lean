import LoxScript.Proofs.Execution.Sequence
import LoxScript.Proofs.Grammar.Joining
import LoxScript.Proofs.Session.Echo

/-!
# Sessions and scripts

A session that is given the parts of a script one after the other does what a run of the whole
script does when a `print` is put before each expression at its top.  It writes the same and leaves
the same variables; and if the run fails, the session fails in the same statement for the same
reason.  It only counts lines from the start of each part, while the script counts them from its own
start.

The script is the parts below one another, so its statements are those of the parts on other lines.
Where a part does not fail, the next one takes over in both.
-/

namespace LoxScript

open Bytes (lineCount)

/-! ### Runs that show expressions -/

/-- Runs a program with a `print` before each expression at its top. -/
def runShown (p : Program) (c : Chain) : Outcome :=
  run .unlimited (p.map Stmt.shown) c

section Shown

variable {p : Program} {c : Chain} {e : RuntimeError}

lemma Stmt.shown_relocate (f : Int → Int) (stmt : Stmt) :
    (stmt.relocate f).shown = stmt.shown.relocate f := by
  cases stmt <;> rfl

lemma runShown_relocate (f : Int → Int) (p : Program) (c : Chain) :
    runShown (Program.relocate f p) c = (runShown p c).relocate f := by
  have hshown : (Program.relocate f p).map Stmt.shown =
      Program.relocate f (p.map Stmt.shown) := by
    rw [Program.relocate_eq_map, Program.relocate_eq_map, List.map_map, List.map_map]
    exact List.map_congr_left fun stmt _ => stmt.shown_relocate f
  rw [runShown, hshown, run_relocate, runShown]

lemma runShown_append (h : (runShown p c).failure = none) (q : Program) :
    runShown (p ++ q) c = (runShown p c).andThen (runShown q (runShown p c).chain) := by
  rw [runShown, List.map_append]
  exact run_append h _

lemma runShown_append_of_failure (h : (runShown p c).failure = some e) (q : Program) :
    runShown (p ++ q) c = runShown p c := by
  rw [runShown, List.map_append]
  exact run_append_of_failure h _

lemma exists_failing_of_runShown (h : (runShown p c).failure = some e) :
    ∃ done stmt rest, p = done ++ stmt :: rest ∧ (runShown done c).failure = none ∧
      runShown (done ++ [stmt]) c = runShown p c := by
  obtain ⟨done', stmt', rest', hsplit, hdone, hstmt⟩ := exists_failing_statement h
  obtain ⟨done, later, rfl, rfl, hlater⟩ := List.map_eq_append_iff.1 hsplit
  obtain ⟨stmt, rest, rfl, rfl, rfl⟩ := List.map_eq_cons_iff.1 hlater
  refine ⟨done, stmt, rest, rfl, hdone, ?_⟩
  rw [runShown, List.map_append]
  exact hstmt

end Shown

/-! ### Scripts that are put below one another -/

lemma Program.stacked_append (k : Int) (above below : List (Bytes × Program)) :
    Program.stacked k (above ++ below) =
      Program.stacked k above ++
        Program.stacked (k + lineCount (above.map Prod.fst)) below := by
  induction above generalizing k with
  | nil => simp [Program.stacked, lineCount]
  | cons entry above ih =>
    obtain ⟨text, p⟩ := entry
    rw [List.cons_append, Program.stacked, Program.stacked, ih, List.append_assoc]
    simp [lineCount, Int.add_assoc]

/-- If the script fails, one of its parts does so after those above it have succeeded. -/
lemma exists_failing_part {entries : List (Bytes × Program)} {k : Int} {c : Chain}
    {e : RuntimeError} (h : (runShown (Program.stacked k entries) c).failure = some e) :
    ∃ above text p below, entries = above ++ (text, p) :: below ∧
      (runShown (Program.stacked k above) c).failure = none ∧
      ∃ e', (runShown p (runShown (Program.stacked k above) c).chain).failure = some e' := by
  induction entries generalizing k c with
  | nil => cases h
  | cons entry below ih =>
    obtain ⟨text, p⟩ := entry
    cases hp : (runShown p c).failure with
    | some e' => exact ⟨[], text, p, below, rfl, rfl, e', hp⟩
    | none =>
      have hmoved : (runShown (Program.relocate (· + k) p) c).failure = none := by
        rw [runShown_relocate, Outcome.relocate, hp, Option.map_none]
      rw [Program.stacked, runShown_append hmoved] at h
      obtain ⟨above, text', p', below', rfl, habove, hpart⟩ := ih h
      refine ⟨(text, p) :: above, text', p', below', rfl, ?_, ?_⟩
      · rw [Program.stacked, runShown_append hmoved]
        exact habove
      · rw [Program.stacked, runShown_append hmoved]
        exact hpart

/-- Scripts that are programs, each with its statements. -/
lemma exists_entries {sources : List Bytes}
    (h : ∀ source ∈ sources, ∃ p, parse .failFast source = .ok p) :
    ∃ entries : List (Bytes × Program), entries.map Prod.fst = sources ∧
      ∀ entry ∈ entries, parse .failFast entry.1 = .ok entry.2 := by
  induction sources with
  | nil => exact ⟨[], rfl, nofun⟩
  | cons source rest ih =>
    obtain ⟨⟨p, hp⟩, hrest⟩ := List.forall_mem_cons.1 h
    obtain ⟨entries, hsources, hentries⟩ := ih hrest
    refine ⟨(source, p) :: entries, ?_, List.forall_mem_cons.2 ⟨hp, hentries⟩⟩
    rw [List.map_cons, hsources]

namespace Session

/-- What a session writes while it handles sources one after the other, and the variables that it is
left with. -/
def evalAll (trace : Bool) (chain : Chain) : List Bytes → Bytes × Chain
  | [] => ([], chain)
  | source :: rest =>
    let step := eval trace chain source
    let later := evalAll trace step.chain rest
    (step.output ++ later.1, later.2)

lemma evalAll_append (trace : Bool) (chain : Chain) (sources later : List Bytes) :
    evalAll trace chain (sources ++ later) =
      ((evalAll trace chain sources).1 ++
          (evalAll trace (evalAll trace chain sources).2 later).1,
        (evalAll trace (evalAll trace chain sources).2 later).2) := by
  induction sources generalizing chain with
  | nil => rfl
  | cons source rest ih =>
    rw [List.cons_append, evalAll, evalAll, ih]
    simp

/-- A part that is a program is run with the variables of the session. -/
lemma eval_of_parse {source : Bytes} {p : Program} (h : parse .failFast source = .ok p)
    (chain : Chain) :
    eval false chain source =
      ⟨(runShown p chain).output ++ failureReport (runShown p chain).failure,
        (runShown p chain).chain, true⟩ := by
  rw [eval_of_accepted (parse_eq_ok_iff_failFast.2 h)]
  rfl

/-- Where the script does not fail, the session writes what it writes. -/
lemma evalAll_of_no_failure {entries : List (Bytes × Program)}
    (hentries : ∀ entry ∈ entries, parse .failFast entry.1 = .ok entry.2) {k : Int} {c : Chain}
    (h : (runShown (Program.stacked k entries) c).failure = none) :
    evalAll false c (entries.map Prod.fst) =
      ((runShown (Program.stacked k entries) c).output,
        (runShown (Program.stacked k entries) c).chain) := by
  induction entries generalizing k c with
  | nil => rfl
  | cons entry below ih =>
    obtain ⟨text, p⟩ := entry
    obtain ⟨hentry, hbelow⟩ := List.forall_mem_cons.1 hentries
    have hmoved := runShown_relocate (· + k) p c
    cases hp : (runShown p c).failure with
    | some e =>
      have hfailed : (runShown (Program.relocate (· + k) p) c).failure =
          some (e.relocate (· + k)) := by
        rw [hmoved, Outcome.relocate, hp, Option.map_some]
      rw [Program.stacked, runShown_append_of_failure hfailed, hfailed] at h
      cases h
    | none =>
      have hdone : (runShown (Program.relocate (· + k) p) c).failure = none := by
        rw [hmoved, Outcome.relocate, hp, Option.map_none]
      have hchain : (runShown (Program.relocate (· + k) p) c).chain = (runShown p c).chain := by
        rw [hmoved]
        rfl
      have houtput : (runShown (Program.relocate (· + k) p) c).output = (runShown p c).output := by
        rw [hmoved]
        rfl
      rw [Program.stacked, runShown_append hdone, hchain] at h
      rw [List.map_cons, evalAll, eval_of_parse hentry, Program.stacked, runShown_append hdone,
        Outcome.output_andThen, houtput, hchain]
      dsimp only
      rw [ih hbelow h, hp, failureReport, List.append_nil]
      rfl

/-- Parts of a script that are programs make a program, and a session that is given the parts writes
what a run of the whole writes and leaves the same variables.  If the run fails, the session reports
the failure in the same statement, on a line that is counted from the start of its part. -/
theorem session_refines_run (sources : List Bytes)
    (h : ∀ source ∈ sources, ∃ p, parse .failFast source = .ok p) :
    ∃ p, parse .failFast (Bytes.joinLines sources) = .ok p ∧
      ((runShown p .fresh).failure = none →
        evalAll false .fresh sources = ((runShown p .fresh).output, (runShown p .fresh).chain)) ∧
      ∀ e, (runShown p .fresh).failure = some e →
        ∃ before source after above done stmt rest below e',
          sources = before ++ source :: after ∧
          parse .failFast (Bytes.joinLines before) = .ok above ∧
          parse .failFast source = .ok (done ++ stmt :: rest) ∧
          p = above ++ Program.relocate (· + lineCount before) (done ++ stmt :: rest) ++ below ∧
          (runShown (above ++ Program.relocate (· + lineCount before) done) .fresh).failure = none ∧
          runShown (above ++ Program.relocate (· + lineCount before) (done ++ [stmt])) .fresh =
            runShown p .fresh ∧
          (runShown done (evalAll false .fresh before).2).failure = none ∧
          (runShown (done ++ [stmt]) (evalAll false .fresh before).2).failure = some e' ∧
          e = e'.relocate (· + lineCount before) ∧
          evalAll false .fresh (before ++ [source]) =
            ((runShown p .fresh).output ++ Bytes.line (utf8 "runtime error: " ++ e'.message),
              (runShown p .fresh).chain) := by
  obtain ⟨entries, rfl, hentries⟩ := exists_entries h
  refine ⟨Program.stacked 0 entries, parse_joinLines hentries,
    fun hnone => evalAll_of_no_failure hentries hnone, fun e he => ?_⟩
  obtain ⟨aboves, text, p, belows, rfl, habove, e', hpart⟩ := exists_failing_part he
  obtain ⟨hbefore, hfrom⟩ := List.forall_mem_append.1 hentries
  obtain ⟨hentry, -⟩ := List.forall_mem_cons.1 hfrom
  obtain ⟨done, stmt, rest, rfl, hdone, hstmt⟩ := exists_failing_of_runShown hpart
  have hsession := evalAll_of_no_failure hbefore habove
  generalize hk : lineCount (aboves.map Prod.fst) = k
  -- What comes after the parts above is run with the variables that they leave.
  have hrun : ∀ q : Program,
      runShown (Program.stacked 0 aboves ++ Program.relocate (· + k) q) .fresh =
        (runShown (Program.stacked 0 aboves) .fresh).andThen
          ((runShown q (runShown (Program.stacked 0 aboves) .fresh).chain).relocate (· + k)) := by
    intro q
    rw [runShown_append habove, runShown_relocate]
  have hsplit := Program.stacked_append 0 aboves ((text, done ++ stmt :: rest) :: belows)
  rw [hk, Int.zero_add, Program.stacked, ← List.append_assoc] at hsplit
  have hfailure : (runShown (Program.stacked 0 aboves ++
      Program.relocate (· + k) (done ++ stmt :: rest)) .fresh).failure =
        some (e'.relocate (· + k)) := by
    rw [hrun, Outcome.andThen, Outcome.relocate, hpart, Option.map_some]
  have hwhole := runShown_append_of_failure hfailure
    (Program.stacked (k + (text.count Bytes.newline + 1)) belows)
  rw [← hsplit] at hwhole
  refine ⟨aboves.map Prod.fst, text, belows.map Prod.fst, Program.stacked 0 aboves, done, stmt,
    rest, _, e', ?_, parse_joinLines hbefore, hentry, hk ▸ hsplit, ?_, ?_, ?_, ?_, ?_, ?_⟩
  · rw [List.map_append, List.map_cons]
  · rw [hk, hrun, Outcome.andThen, Outcome.relocate, hdone, Option.map_none]
  · rw [hk, hrun, hstmt, ← hrun, hwhole]
  · rw [hsession]
    exact hdone
  · rw [hsession, hstmt]
    exact hpart
  · rw [hwhole, hfailure] at he
    rw [hk]
    exact (Option.some.inj he).symm
  · rw [evalAll_append, evalAll, evalAll, hsession, eval_of_parse hentry, hpart, hwhole, hrun,
      Outcome.output_andThen]
    simp [failureReport, Outcome.relocate, Outcome.andThen, Outcome.output]

/-- The second of three parts fails on its second line, the third of the script. -/
theorem session_refines_run_undefined :
    let sources := [utf8 "var a = \"x\";", utf8 "a;\nprint a + b;", utf8 "a = a;"]
    (∀ source ∈ sources, ∃ p, parse .failFast source = .ok p) ∧
      ∃ p, parse .failFast (Bytes.joinLines sources) = .ok p ∧
        (runShown p .fresh).failure = some (.undefined (utf8 "b") 3) ∧
        ∃ before source after e', sources = before ++ source :: after ∧
          .undefined (utf8 "b") 3 = RuntimeError.relocate (· + lineCount before) e' ∧
          (evalAll false .fresh (before ++ [source])).1 = (runShown p .fresh).output ++
            Bytes.line (utf8 "runtime error: " ++ e'.message) := by
  intro sources
  have hread : ∀ source ∈ sources, ∃ p, parse .failFast source = .ok p := by
    have hok : ∀ source ∈ sources, (parse .failFast source).isOk = true := by decide +kernel
    intro source hsource
    have := hok source hsource
    cases hp : parse .failFast source with
    | error r =>
      rw [hp] at this
      cases this
    | ok p => exact ⟨p, rfl⟩
  obtain ⟨p, hp, -, hfails⟩ := session_refines_run sources hread
  have hfailure : (runShown p .fresh).failure = some (.undefined (utf8 "b") 3) := by
    have hjoined : (parse .failFast (Bytes.joinLines sources)).toOption.bind
        (fun q => (runShown q .fresh).failure) = some (.undefined (utf8 "b") 3) := by
      decide +kernel
    rw [hp] at hjoined
    exact hjoined
  obtain ⟨before, source, after, -, -, -, -, -, e', hsources, -, -, -, -, -, -, -, he', hwritten⟩ :=
    hfails _ hfailure
  exact ⟨hread, p, hp, hfailure, before, source, after, e', hsources, he',
    congrArg Prod.fst hwritten⟩

end Session

end LoxScript
