import Mathlib.Algebra.GroupWithZero.Nat
import Mathlib.Tactic.SplitIfs
import LoxScript.Session
import LoxScript.Proofs.Token.Lines

/-!
# How lines become entries

Reading entries cuts the lines of the input into passages.  A passage is what one entry takes: one
or more lines, all of which go into its text, and then the blank line that ended it, if a blank line
did.  All lines of a passage but the last leave the text unfinished, so a passage carries with it
the reasons for which the reading went on and for which it stopped.

The main result is that the passages follow one upon the other without a gap and make up the whole
input.  It is proved along the reading: the lines that an entry has taken so far are kept as a front
of its passage, every part of which is unfinished.
-/

namespace LoxScript

namespace Entry

/-! ### Passages -/

/-- The text is no command, and as a program it merely ends too early. -/
def Unfinished (text : Bytes) : Prop :=
  isCommand text = false ∧ ∃ r, parse .failFast text = .error r ∧ r.isIncomplete = true

lemma isUnfinished_iff {text : Bytes} :
    isUnfinished text = true ↔ ∃ r, parse .failFast text = .error r ∧ r.isIncomplete = true := by
  unfold isUnfinished
  cases parse .failFast text with
  | ok p => simp
  | error r => simp

lemma wantsMore_iff {text : Bytes} : wantsMore text = true ↔ Unfinished text := by
  unfold wantsMore Unfinished
  rw [Bool.and_eq_true, Bool.not_eq_true', isUnfinished_iff]

/-- What ends an entry. -/
inductive Closing where
  /-- Its text is complete. -/
  | complete
  /-- A blank line. -/
  | blank (line : Bytes)
  /-- The end of the input. -/
  | endOfInput

namespace Closing

/-- The closing can end an entry with the given text. -/
def Ends (text : Bytes) : Closing → Prop
  | complete =>
    isCommand text = true ∨
      ∀ r, parse .failFast text = .error r → r.isIncomplete = false
  | blank line => Bytes.trim line = [] ∧ Unfinished text
  | endOfInput => Unfinished text

/-- The line taken for the closing, if any. -/
def lines : Closing → List Bytes
  | complete | endOfInput => []
  | blank line => [line]

/-- How often a line is asked for to find the closing. -/
def reads : Closing → Nat
  | complete => 0
  | blank _ | endOfInput => 1

end Closing

/-- The lines that an entry takes.  The entry goes on after every front of its lines, and not after
all of them. -/
structure Passage where
  /-- The lines of the text. -/
  lines : List Bytes
  closing : Closing
  ne_nil : lines ≠ []
  goesOn : ∀ front rest, front ≠ [] → rest ≠ [] → lines = front ++ rest →
    Unfinished (Bytes.joinLines front)
  ends : closing.Ends (Bytes.joinLines lines)

namespace Passage

/-- The text of the entry. -/
def text (P : Passage) : Bytes :=
  Bytes.joinLines P.lines

/-- All lines taken, with the blank one that may end the entry. -/
def taken (P : Passage) : List Bytes :=
  P.lines ++ P.closing.lines

/-- How often a line is asked for. -/
def reads (P : Passage) : Nat :=
  P.lines.length + P.closing.reads

/-- The attempt to read an entry that takes the passage. -/
def entry (P : Passage) : Entry :=
  ⟨P.reads - 1, .entry P.text⟩

/-- The prompt for the next line, when the given text has been read. -/
def promptAfter (settings : Settings) (text : Bytes) : Bytes :=
  if wantsMore text then settings.continuationPrompt else settings.prompt

end Passage

/-! ### Reading an entry -/

variable {front rest lines : List Bytes}

/-- All fronts of the lines are unfinished, the lines as a whole included. -/
def Open (lines : List Bytes) : Prop :=
  lines ≠ [] ∧ ∀ front rest, front ≠ [] → lines = front ++ rest → Unfinished (Bytes.joinLines front)

lemma Open.unfinished (h : Open lines) : Unfinished (Bytes.joinLines lines) :=
  h.2 lines [] h.1 (List.append_nil lines).symm

lemma open_singleton {text : Bytes} (h : Unfinished text) : Open [text] := by
  refine ⟨List.cons_ne_nil text [], fun front rest hfront hsplit => ?_⟩
  obtain ⟨first, others, rfl⟩ := List.exists_cons_of_ne_nil hfront
  rw [List.cons_append, List.cons.injEq] at hsplit
  obtain ⟨rfl, hnil⟩ := hsplit
  obtain ⟨rfl, -⟩ := List.append_eq_nil_iff.1 hnil.symm
  rwa [Bytes.joinLines_singleton]

/-- Fronts of a longer list of lines are fronts of the shorter one, or all of it. -/
lemma eq_or_front_of_append_singleton {text : Bytes} {front rest lines : List Bytes}
    (h : lines ++ [text] = front ++ rest) :
    (rest = [] ∧ front = lines ++ [text]) ∨ ∃ rest', lines = front ++ rest' := by
  rcases List.eq_nil_or_concat rest with rfl | ⟨rest', last, rfl⟩
  · exact .inl ⟨rfl, by rw [h, List.append_nil]⟩
  · rw [List.concat_eq_append, ← List.append_assoc] at h
    exact .inr ⟨rest', (List.append_inj' h rfl).1⟩

lemma Open.append_singleton (h : Open lines) {text : Bytes}
    (hunfinished : Unfinished (Bytes.joinLines (lines ++ [text]))) : Open (lines ++ [text]) := by
  refine ⟨by simp, fun front rest hfront hsplit => ?_⟩
  rcases eq_or_front_of_append_singleton hsplit with ⟨-, rfl⟩ | ⟨rest', hlines⟩
  · exact hunfinished
  · exact h.2 front rest' hfront hlines

/-- Lines that leave the text unfinished form a passage with whatever ends an unfinished text. -/
def Open.passage (h : Open lines) (closing : Closing)
    (hends : closing.Ends (Bytes.joinLines lines)) : Passage where
  lines := lines
  closing := closing
  ne_nil := h.1
  goesOn := fun front rest hfront _ hsplit => h.2 front rest hfront hsplit
  ends := hends

/-- A line more may complete the text. -/
def Open.completed (h : Open lines) (text : Bytes)
    (hends : Closing.complete.Ends (Bytes.joinLines (lines ++ [text]))) : Passage where
  lines := lines ++ [text]
  closing := .complete
  ne_nil := by simp
  goesOn := by
    intro front rest hfront hrest hsplit
    rcases eq_or_front_of_append_singleton hsplit with ⟨rfl, -⟩ | ⟨rest', hlines⟩
    · exact absurd rfl hrest
    · exact h.2 front rest' hfront hlines
  ends := hends

/-- A line may be an entry of its own. -/
def Passage.single (text : Bytes) (hends : Closing.complete.Ends text) : Passage where
  lines := [text]
  closing := .complete
  ne_nil := List.cons_ne_nil text []
  goesOn := by
    intro front rest hfront hrest hsplit
    obtain ⟨first, others, rfl⟩ := List.exists_cons_of_ne_nil hfront
    rw [List.cons_append, List.cons.injEq] at hsplit
    exact absurd (List.append_eq_nil_iff.1 hsplit.2.symm).2 hrest
  ends := by rwa [Bytes.joinLines_singleton]

lemma ends_complete_iff {text : Bytes} : Closing.complete.Ends text ↔ wantsMore text = false := by
  rw [← Bool.not_eq_true, wantsMore_iff]
  unfold Unfinished Closing.Ends
  cases isCommand text <;> simp

/-- What one step of the reading comes to: the entry goes on, or it is complete. -/
lemma progress_cases (text : Bytes) :
    (Unfinished text ∧ Progress.of text = .unfinished text) ∨
      (Closing.complete.Ends text ∧ Progress.of text = .complete text) := by
  unfold Progress.of
  split_ifs with hmore
  · exact .inl ⟨wantsMore_iff.1 hmore, rfl⟩
  · exact .inr ⟨ends_complete_iff.2 (Bool.eq_false_iff.2 hmore), rfl⟩

/-- A passage at the start of some lines, with the lines left after it.  Nothing is left after a
passage that the end of the input ends. -/
def Passage.Starts (P : Passage) (lines left : List Bytes) : Prop :=
  lines = P.taken ++ left ∧ (P.closing = .endOfInput → left = [])

/-- Reading on from lines that leave the text unfinished takes a passage. -/
lemma exists_passage_of_continue? (hopen : Open front) (lines : List Bytes) :
    ∃ (P : Passage) (k : Nat) (left : List Bytes),
      P.Starts (front ++ lines) left ∧ P.reads = front.length + k ∧
        continue? false (Bytes.joinLines front) lines = (⟨k, .entry P.text⟩, left) := by
  induction lines generalizing front with
  | nil =>
    refine ⟨hopen.passage .endOfInput hopen.unfinished, 1, [], ⟨?_, fun _ => rfl⟩, rfl, rfl⟩
    simp [Passage.taken, Open.passage, Closing.lines]
  | cons line rest ih =>
    by_cases hblank : Bytes.trim line = []
    · refine ⟨hopen.passage (.blank line) ⟨hblank, hopen.unfinished⟩, 1, rest, ⟨?_, ?_⟩, rfl, ?_⟩
      · simp [Passage.taken, Open.passage, Closing.lines]
      · intro hclosing
        cases hclosing
      · simp [continue?, extend, hblank, Passage.text, Open.passage]
    · have hextend : extend (Bytes.joinLines front) line =
          .of (Bytes.joinLines (front ++ [line])) := by
        rw [extend, if_neg hblank, Bytes.joinLines_append_singleton hopen.1]
      rcases progress_cases (Bytes.joinLines (front ++ [line])) with
        ⟨hunfinished, hprogress⟩ | ⟨hends, hprogress⟩
      · obtain ⟨P, k, left, hstarts, hreads, hcontinue⟩ := ih (hopen.append_singleton hunfinished)
        rw [List.append_assoc] at hstarts
        rw [List.length_append] at hreads
        refine ⟨P, k + 1, left, hstarts, by simp only [List.length_singleton] at hreads; omega, ?_⟩
        simp only [continue?, hextend, hprogress, hcontinue]
      · refine ⟨hopen.completed line hends, 1, rest, ⟨?_, ?_⟩, ?_, ?_⟩
        · simp [Passage.taken, Open.completed, Closing.lines]
        · intro hclosing
          cases hclosing
        · simp [Passage.reads, Open.completed, Closing.reads]
        · simp [continue?, hextend, hprogress, Passage.text, Open.completed]

/-- Reading an entry takes a passage. -/
lemma exists_passage_of_read (line : Bytes) (rest : List Bytes) :
    ∃ (P : Passage) (left : List Bytes),
      P.Starts (line :: rest) left ∧ read false (line :: rest) = (P.entry, left) := by
  rcases progress_cases line with ⟨hunfinished, hprogress⟩ | ⟨hends, hprogress⟩
  · obtain ⟨P, k, left, hstarts, hreads, hcontinue⟩ :=
      exists_passage_of_continue? (open_singleton hunfinished) rest
    rw [Bytes.joinLines_singleton] at hcontinue
    refine ⟨P, left, hstarts, ?_⟩
    simp [read, hprogress, hcontinue, Passage.entry, hreads]
  · refine ⟨.single line hends, rest, ⟨rfl, ?_⟩, ?_⟩
    · intro hclosing
      cases hclosing
    · simp [read, hprogress, Passage.entry, Passage.single, Passage.reads, Passage.text,
        Closing.reads]

/-! ### Reading all entries -/

/-- The passages make up the lines, in order, and only the last can be ended by the end of the
input. -/
inductive Covers : List Passage → List Bytes → Prop
  | nil : Covers [] []
  | cons {P : Passage} {passages : List Passage} {lines left : List Bytes} :
      P.Starts lines left → Covers passages left → Covers (P :: passages) lines

/-- All attempts to read an entry but the last take passages, which make up the lines. -/
lemma exists_covers (lines : List Bytes) :
    ∃ passages, Covers passages lines ∧
      all false lines = passages.map Passage.entry ++ [⟨0, .ended⟩] := by
  induction hn : lines.length using Nat.strongRecOn generalizing lines with
  | ind n ih =>
    subst hn
    cases lines with
    | nil =>
      refine ⟨[], .nil, ?_⟩
      rw [all]
      rfl
    | cons line rest =>
      obtain ⟨P, left, hstarts, hread⟩ := exists_passage_of_read line rest
      have hshorter : left.length < (line :: rest).length := by
        have := length_read_lt false line rest
        rwa [hread] at this
      obtain ⟨passages, hcovers, hall⟩ := ih left.length hshorter left rfl
      refine ⟨P :: passages, .cons hstarts hcovers, ?_⟩
      rw [all, hread]
      simp only [Passage.entry, List.map_cons, List.cons_append, hall]

lemma Covers.flatMap_taken {passages : List Passage} (h : Covers passages lines) :
    lines = passages.flatMap Passage.taken := by
  induction h with
  | nil => rfl
  | cons hstarts _ ih => rw [hstarts.1, List.flatMap_cons, ← ih]

/-- There is no passage without lines. -/
lemma Covers.eq_nil {passages : List Passage} (h : Covers passages []) : passages = [] := by
  cases h with
  | nil => rfl
  | @cons P _ _ _ hstarts _ =>
    obtain ⟨htaken, -⟩ := List.append_eq_nil_iff.1 hstarts.1.symm
    exact absurd (List.append_eq_nil_iff.1 htaken).1 P.ne_nil

lemma Covers.nothing_after_end {passages : List Passage} (h : Covers passages lines)
    {before after : List Passage} {P : Passage} (hsplit : passages = before ++ P :: after)
    (hclosing : P.closing = .endOfInput) : after = [] := by
  induction h generalizing before with
  | nil => simp at hsplit
  | @cons Q passages lines left hstarts hcovers ih =>
    cases before with
    | nil =>
      obtain ⟨rfl, rfl⟩ := List.cons.inj hsplit
      have hleft := hstarts.2 hclosing
      subst hleft
      exact hcovers.eq_nil
    | cons R before => exact ih (List.cons.inj hsplit).2

/-! ### Asking for lines -/

/-- The text is unfinished whenever a line is asked for, except for the first time. -/
lemma Passage.unfinished_take (P : Passage) {i : Nat} (hpos : 0 < i) (hlt : i < P.reads) :
    Unfinished (Bytes.joinLines (P.lines.take i)) := by
  by_cases hi : i < P.lines.length
  · have htake : P.lines.take i ≠ [] := by
      rw [← List.length_pos_iff, List.length_take]
      omega
    have hdrop : P.lines.drop i ≠ [] := by
      rw [← List.length_pos_iff, List.length_drop]
      omega
    exact P.goesOn _ _ htake hdrop (List.take_append_drop i P.lines).symm
  · rw [List.take_of_length_le (by omega)]
    have hends := P.ends
    unfold Passage.reads at hlt
    cases hclosing : P.closing with
    | complete =>
      rw [hclosing, Closing.reads] at hlt
      omega
    | blank line =>
      rw [hclosing] at hends
      exact hends.2
    | endOfInput =>
      rw [hclosing] at hends
      exact hends

lemma Passage.reads_pos (P : Passage) : 0 < P.reads := by
  have hlength : 0 < P.lines.length := List.length_pos_iff.2 P.ne_nil
  unfold Passage.reads
  omega

lemma Passage.continuations_entry (P : Passage) : P.entry.continuations + 1 = P.reads :=
  Nat.succ_pred_eq_of_pos P.reads_pos

/-- The prompt of an entry is followed by a continuation prompt for each further line. -/
lemma Passage.prompts_entry (settings : Settings) (P : Passage) :
    Session.prompts settings P.entry =
      (List.range P.reads).flatMap fun i =>
        promptAfter settings (Bytes.joinLines (P.lines.take i)) := by
  have hfirst : promptAfter settings (Bytes.joinLines (P.lines.take 0)) = settings.prompt := by
    have hmore : wantsMore [] = false := by decide +kernel
    rw [promptAfter, List.take_zero]
    exact if_neg (Bool.eq_false_iff.1 hmore)
  have hlater : ∀ i ∈ List.range P.entry.continuations,
      promptAfter settings (Bytes.joinLines (P.lines.take (i + 1))) =
        settings.continuationPrompt := by
    intro i hi
    have hlt : i + 1 < P.reads := by
      rw [← P.continuations_entry]
      exact Nat.succ_lt_succ (List.mem_range.1 hi)
    exact if_pos (wantsMore_iff.2 (P.unfinished_take i.succ_pos hlt))
  rw [← P.continuations_entry, List.range_succ_eq_map, List.flatMap_cons, hfirst, List.flatMap_map,
    Session.prompts, List.flatMap_def, List.map_congr_left hlater, List.map_const',
    List.length_range]

/-- Each time a line is asked for a line is taken, except once at the end of the input. -/
lemma Passage.Starts.reads {P : Passage} {left : List Bytes} (h : P.Starts lines left) :
    lines.length ≤ P.reads + left.length ∧
      (P.reads + left.length ≤ lines.length ∨ P.reads ≤ lines.length + 1 ∧ left = []) := by
  obtain ⟨rfl, hleft⟩ := h
  unfold Passage.taken Passage.reads
  cases hclosing : P.closing with
  | complete | blank line =>
    simp only [Closing.lines, Closing.reads, List.length_append, List.length_nil,
      List.length_singleton]
    omega
  | endOfInput =>
    have hnil := hleft hclosing
    subst hnil
    simp [Closing.lines, Closing.reads]

lemma Covers.reads {passages : List Passage} (h : Covers passages lines) :
    lines.length ≤ (passages.map Passage.reads).sum ∧
      (passages.map Passage.reads).sum ≤ lines.length + 1 := by
  induction h with
  | nil => simp
  | @cons P passages lines left hstarts hcovers ih =>
    rw [List.map_cons, List.sum_cons]
    obtain ⟨hleast, hmost | ⟨hmost, rfl⟩⟩ := hstarts.reads
    · omega
    · have hnone := hcovers.eq_nil
      subst hnone
      simp only [List.map_nil, List.sum_nil] at ih ⊢
      omega

end Entry

open Entry in
/-- Reading entries to the end of the input takes the lines in passages, one after the other,
without losing, repeating or reordering any.  Each entry is its passage's text, and each line is
asked for with the prompt that the text read so far calls for.  Reading ends after at most two lines
more have been asked for than there are. -/
theorem entries_partition_lines (settings : Settings) (lines : List Bytes) :
    ∃ passages : List Passage,
      Entry.all false lines = passages.map Passage.entry ++ [⟨0, .ended⟩] ∧
        lines = passages.flatMap Passage.taken ∧
        (∀ before P after, passages = before ++ P :: after → P.closing = .endOfInput →
          after = []) ∧
        (∀ P ∈ passages, Session.prompts settings P.entry =
          (List.range P.reads).flatMap fun i =>
            Passage.promptAfter settings (Bytes.joinLines (P.lines.take i))) ∧
        Session.prompts settings ⟨0, .ended⟩ = settings.prompt ∧
        ((Entry.all false lines).map (·.continuations + 1)).sum ≤ lines.length + 2 := by
  obtain ⟨passages, hcovers, hall⟩ := exists_covers lines
  refine ⟨passages, hall, hcovers.flatMap_taken, ?_, ?_, List.append_nil _, ?_⟩
  · exact fun before P after hsplit hclosing => hcovers.nothing_after_end hsplit hclosing
  · exact fun P _ => P.prompts_entry settings
  · have hreads : passages.map (fun P => P.entry.continuations + 1) =
        passages.map Passage.reads := List.map_congr_left fun P _ => P.continuations_entry
    have hmost := hcovers.reads.2
    rw [hall, List.map_append, List.map_map, List.sum_append]
    simp only [Function.comp_def, hreads, List.map_cons, List.map_nil, List.sum_cons, List.sum_nil]
    omega

end LoxScript
