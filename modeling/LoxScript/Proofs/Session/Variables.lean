import LoxScript.Proofs.Grammar.WellFormed
import LoxScript.Proofs.Scope.Changes
import LoxScript.Proofs.Session.Echo

/-!
# The variables of a session

A session keeps its variables in one scope.  Whatever it is told, that scope stays the only one: a
failure deep inside the blocks of an entry leaves all of them, and an entry with mistakes changes
nothing.  The names in the scope are those of the declarations at the top of entries that have been
carried out, and listing the variables shows each of them once, in order.

One entry develops the chain by the declarations that it carries out; a whole session does so by all
of them together.
-/

namespace LoxScript

/-- The name that a statement declares in the scope it stands in. -/
def Stmt.declares? : Stmt → Option Bytes
  | .var _ name _ => some name.lexeme
  | _ => none

/-- A well-formed statement that is no declaration declares nothing. -/
lemma Stmt.WellFormed.mayDeclare_eq_nil {ts : List Token} {stmt : Stmt} (h : stmt.WellFormed ts)
    (hdeclaration : stmt.isDeclaration = false) : stmt.mayDeclare = [] := by
  match stmt with
  | .expression .. | .print .. | .block .. | .missing => rfl
  | .var .. => cases hdeclaration
  | .ifThen _ condition consequence =>
    obtain ⟨-, hconsequence, hthen⟩ := h
    exact hconsequence.mayDeclare_eq_nil hthen
  | .ifElse _ condition consequence alternative =>
    obtain ⟨-, ⟨hconsequence, hthen⟩, halternative, helse⟩ := h
    rw [mayDeclare, hconsequence.mayDeclare_eq_nil hthen, halternative.mayDeclare_eq_nil helse,
      List.append_nil]

namespace Session

open Chain (Develops)

/-! ### What a session is told -/

/-- The names of the declarations at the top of an entry that are carried out. -/
def carriedOut : List Stmt → Store → List Bytes
  | [], _ => []
  | stmt :: rest, s =>
    match echo stmt s with
    | .ok _ t => stmt.declares?.toList ++ carriedOut rest t
    | .error _ _ => []

/-- The names that are declared while a text is handled. -/
def declaredBy (chain : Chain) (text : Bytes) : List Bytes :=
  if Bytes.trim text = [] ∨ Entry.isCommand text = true then []
  else
    match parse .recovering text with
    | .ok program => carriedOut program ⟨chain, []⟩
    | .error _ => []

/-- The variables after texts have been handled one after the other. -/
def chainAfter (trace : Bool) (chain : Chain) : List Bytes → Chain
  | [] => chain
  | text :: rest => chainAfter trace (handle trace chain text).chain rest

/-- The names declared while texts are handled one after the other. -/
def declared (trace : Bool) (chain : Chain) : List Bytes → List Bytes
  | [] => []
  | text :: rest =>
    declaredBy chain text ++ declared trace (handle trace chain text).chain rest

/-- The text is the given command. -/
def Tells (command : Command) (text : Bytes) : Prop :=
  Entry.isCommand text = true ∧ Command.ofText (Bytes.trim text) = command

/-! ### One entry -/

variable {ts : List Token}

/-- A statement at the top of an entry declares its name if it is a declaration, and nothing
otherwise. -/
lemma develops_of_echo_ok {stmt : Stmt} (h : stmt.WellFormed ts) {s t : Store}
    (hecho : echo stmt s = .ok () t) : Develops stmt.declares?.toList s.chain t.chain := by
  cases hdeclaration : stmt.isDeclaration with
  | true =>
    cases stmt with
    | var keyword name initial => exact develops_of_exec_var hecho
    | expression | print | block | ifThen | ifElse | missing => cases hdeclaration
  | false =>
    have hnone : stmt.declares? = none := by
      cases stmt with
      | var => cases hdeclaration
      | expression | print | block | ifThen | ifElse | missing => rfl
    have hshown : stmt.shown.mayDeclare = [] := by
      have hnothing := h.mayDeclare_eq_nil hdeclaration
      cases stmt with
      | expression => rfl
      | print | var | block | ifThen | ifElse | missing => exact hnothing
    rw [echo_eq_exec] at hecho
    have hdeclares := declares_exec .unlimited stmt.shown s
    rw [hecho, hshown] at hdeclares
    obtain ⟨names, hnames, hdevelops⟩ := hdeclares
    rw [List.subset_nil.1 hnames] at hdevelops
    rw [hnone]
    exact hdevelops

/-- A statement that fails declares nothing. -/
lemma develops_of_echo_error {stmt : Stmt} {s t : Store} {e : RuntimeError}
    (hecho : echo stmt s = .error e t) : Develops [] s.chain t.chain := by
  have hdeclares := declares_exec .unlimited stmt.shown s
  rw [← echo_eq_exec, hecho] at hdeclares
  exact hdeclares

/-- The statements of an entry declare the names of the declarations that are carried out. -/
lemma develops_echoAll {p : List Stmt} (h : Program.WellFormed ts p) (s : Store) :
    Develops (carriedOut p s).reverse s.chain (stateAfter (echoAll p s)).chain := by
  induction p generalizing s with
  | nil => exact .refl s.chain
  | cons stmt rest ih =>
    rw [carriedOut, echoAll]
    cases hecho : echo stmt s with
    | error e t =>
      rw [bind_of_result_error hecho]
      exact develops_of_echo_error hecho
    | ok a t =>
      have hrest := (develops_of_echo_ok h.1 hecho).trans (ih h.2 t)
      have hreverse : stmt.declares?.toList.reverse = stmt.declares?.toList := by
        cases stmt.declares? <;> rfl
      rw [bind_of_result_ok hecho, List.reverse_append, hreverse]
      exact hrest

lemma chain_eval_of_accepted {trace : Bool} {chain : Chain} {source : Bytes} {p : Program}
    (h : parse .recovering source = .ok p) :
    (eval trace chain source).chain = (stateAfter (echoAll p ⟨chain, []⟩)).chain := by
  rw [eval_of_accepted h, echoAll_eq_execAll, run]
  cases execAll .unlimited (p.map Stmt.shown) ⟨chain, []⟩ <;> rfl

lemma chain_command (chain : Chain) (text : Bytes) : (command chain text).chain = chain := by
  unfold command
  cases Command.ofText text <;> rfl

/-- Handling a text declares the names that it is said to declare. -/
lemma develops_handle (trace : Bool) (chain : Chain) (text : Bytes) :
    Develops (declaredBy chain text).reverse chain (handle trace chain text).chain := by
  unfold declaredBy handle
  dsimp only
  by_cases hblank : Bytes.trim text = []
  · rw [if_pos (.inl hblank), if_pos hblank]
    exact .refl chain
  by_cases hcommand : Entry.isCommand text = true
  · rw [if_pos (.inr hcommand), if_neg hblank, if_pos hcommand, chain_command]
    exact .refl chain
  rw [if_neg (not_or.2 ⟨hblank, hcommand⟩), if_neg hblank, if_neg hcommand]
  cases hparse : parse .recovering text with
  | error r =>
    rw [chain_eval_of_rejected hparse]
    exact .refl chain
  | ok p =>
    obtain ⟨words, last, -, hwell⟩ := exists_wellFormed_of_parse hparse
    rw [chain_eval_of_accepted hparse]
    exact develops_echoAll hwell ⟨chain, []⟩

/-- A text that is no program changes nothing. -/
lemma chain_handle_of_rejected {trace : Bool} {chain : Chain} {text : Bytes} {r : Rejection}
    (h : parse .recovering text = .error r) : (handle trace chain text).chain = chain := by
  unfold handle
  dsimp only
  split_ifs
  · rfl
  · exact chain_command chain _
  · exact chain_eval_of_rejected h trace

/-! ### A whole session -/

/-- A session develops its chain by all that it has been told. -/
lemma develops_chainAfter (trace : Bool) (chain : Chain) (texts : List Bytes) :
    Develops (declared trace chain texts).reverse chain (chainAfter trace chain texts) := by
  induction texts generalizing chain with
  | nil => exact .refl chain
  | cons text rest ih =>
    rw [declared, chainAfter, List.reverse_append]
    exact (develops_handle trace chain text).trans (ih _)

lemma goesOn_handle_of_not_tells_quit {text : Bytes} (h : ¬ Tells .quit text) (trace : Bool)
    (chain : Chain) : (handle trace chain text).goesOn = true := by
  unfold handle
  dsimp only
  split_ifs with hblank hcommand
  · rfl
  · unfold command
    cases hname : Command.ofText (Bytes.trim text) with
    | quit => exact absurd ⟨hcommand, hname⟩ h
    | _ => rfl
  · unfold eval
    dsimp only
    cases (readSource .recovering text).result <;> rfl

/-- After texts that do not end it, a session goes on with the variables they leave. -/
lemma exists_transcribe_append (settings : Settings) (chain : Chain) (told : List (Nat × Bytes))
    (h : ∀ entry ∈ told, ¬ Tells .quit entry.2) :
    ∃ output, ∀ rest,
      transcribe settings chain (told.map (fun entry => ⟨entry.1, .entry entry.2⟩) ++ rest) =
        output ++ transcribe settings
          (chainAfter settings.traceParser chain (told.map Prod.snd)) rest := by
  induction told generalizing chain with
  | nil => exact ⟨[], fun rest => rfl⟩
  | cons entry told ih =>
    obtain ⟨hentry, htold⟩ := List.forall_mem_cons.1 h
    obtain ⟨output, houtput⟩ := ih (handle settings.traceParser chain entry.2).chain htold
    have hgoesOn := goesOn_handle_of_not_tells_quit hentry settings.traceParser chain
    refine ⟨prompts settings ⟨entry.1, .entry entry.2⟩ ++
      ((handle settings.traceParser chain entry.2).output ++ output), fun rest => ?_⟩
    rw [List.map_cons, List.cons_append, transcribe]
    simp only [hgoesOn, if_true, houtput, List.append_assoc]
    rfl

/-- The listing of a single scope shows each of its names with the value that it has. -/
lemma exists_listVariables_root {scope : Scope} (h : scope.Sorted) :
    ∃ listed : List (Bytes × Value),
      (listed.map Prod.fst).Pairwise (· < ·) ∧
      (∀ name, name ∈ listed.map Prod.fst ↔ scope.has name = true) ∧
      (∀ entry ∈ listed, (Chain.root scope).get? entry.1 = some entry.2) ∧
      listVariables (.root scope) = listed.flatMap fun entry => listing entry.1 entry.2 := by
  have hvalue : ∀ name ∈ scope.names, (Chain.root scope).get? name =
      some (((Chain.root scope).get? name).getD .nil) := by
    intro name hname
    obtain ⟨v, hv⟩ := Option.isSome_iff_exists.1 ((scope.mem_names name).1 hname)
    have hget : (Chain.root scope).get? name = some v := hv
    rw [hget, Option.getD_some]
  refine ⟨scope.names.map fun name => (name, ((Chain.root scope).get? name).getD .nil),
    ?_, ?_, ?_, ?_⟩
  · rw [List.map_map, Function.comp_def, List.map_id']
    exact List.pairwise_map.2 h
  · intro name
    rw [List.map_map, Function.comp_def, List.map_id']
    exact scope.mem_names name
  · intro entry hentry
    obtain ⟨name, hname, rfl⟩ := List.mem_map.1 hentry
    exact hvalue name hname
  · rw [List.flatMap_map]
    refine List.flatMap_congr fun name hname => ?_
    rw [hvalue name hname]
    rfl

lemma output_handle_of_tells_variables {text : Bytes} (h : Tells .variables text) (trace : Bool)
    (chain : Chain) : (handle trace chain text).output = listVariables chain := by
  obtain ⟨hcommand, hname⟩ := h
  have hblank : Bytes.trim text ≠ [] := by
    intro hnil
    rw [hnil] at hname
    exact absurd hname (by decide)
  unfold handle
  dsimp only
  rw [if_neg hblank, if_pos hcommand, command, hname]

/-- A session keeps one scope, whatever it has been told.  The names in it are those of the
declarations at the top of entries that were carried out, a text that is no program changes nothing,
and listing the variables shows each name once, in order, with its value. -/
theorem session_keeps_one_scope (settings : Settings) (told : List (Nat × Bytes)) :
    ∃ scope : Scope,
      chainAfter settings.traceParser .fresh (told.map Prod.snd) = .root scope ∧
      ((∀ entry ∈ told, ¬ Tells .quit entry.2) → ∃ output, ∀ rest,
        transcribe settings .fresh (told.map (fun entry => ⟨entry.1, .entry entry.2⟩) ++ rest) =
          output ++ transcribe settings (.root scope) rest) ∧
      (∀ name, scope.has name = true ↔
        name ∈ declared settings.traceParser .fresh (told.map Prod.snd)) ∧
      (∀ text r, parse .recovering text = .error r →
        (handle settings.traceParser (.root scope) text).chain = .root scope) ∧
      (∀ text, Tells .variables text → ∃ listed : List (Bytes × Value),
        (listed.map Prod.fst).Pairwise (· < ·) ∧
        (∀ name, name ∈ listed.map Prod.fst ↔
          name ∈ declared settings.traceParser .fresh (told.map Prod.snd)) ∧
        (∀ entry ∈ listed, (Chain.root scope).get? entry.1 = some entry.2) ∧
        (handle settings.traceParser (.root scope) text).output =
          listed.flatMap fun entry => listing entry.1 entry.2) := by
  obtain ⟨scope, hscope, hnames, hsorted⟩ :=
    (develops_chainAfter settings.traceParser .fresh (told.map Prod.snd)).root
  have hhas : ∀ name, scope.has name = true ↔
      name ∈ declared settings.traceParser .fresh (told.map Prod.snd) := by
    intro name
    rw [hnames, List.mem_reverse]
    exact or_iff_left nofun
  refine ⟨scope, hscope, ?_, hhas, fun text r hparse => chain_handle_of_rejected hparse, ?_⟩
  · intro hquit
    rw [← hscope]
    exact exists_transcribe_append settings .fresh told hquit
  · intro text htext
    obtain ⟨listed, hordered, hlisted, hvalues, hlisting⟩ :=
      exists_listVariables_root (hsorted List.Pairwise.nil)
    refine ⟨listed, hordered, fun name => (hlisted name).trans (hhas name), hvalues, ?_⟩
    rw [output_handle_of_tells_variables htext, hlisting]

end Session

end LoxScript
