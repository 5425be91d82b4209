import Mathlib.Data.Set.Card
import LoxScript.Session.Lines
import LoxScript.Proofs.Grammar.InRange

/-!
# The trace is balanced and invisible

The text of a trace can be read back line by line: a line has some tabs, says whether a rule begins
or ends, and names the rule.  Two lines are a pair when the first one begins a rule, the second one
ends the same rule, and what stands between them is made of pairs.  Nothing in these notions knows
how the text was produced.

The trace of every reading is made of pairs, and every line has as many tabs as there are pairs
around it.  This is read off the way in which attempts are laid out on lines.  A line belongs to one
pair only, so the pairs around it can be counted by going through the layout once.
-/

namespace LoxScript

/-- Every rule once. -/
def Rule.all : List Rule :=
  [declaration, varDecl, statement, ifStmt, printStmt, block, exprStmt, expression, assignment,
   equality, comparison, term, factor, unary, primary]

namespace Trace

/-- What a line of a trace tells about its rule. -/
inductive Mark where
  | begins
  | ends
  deriving DecidableEq

/-- The word for what a line tells, with the blank after it. -/
def Mark.text : Mark → Bytes
  | begins => utf8 "BEGIN "
  | ends => utf8 "END "

/-- A line of a trace. -/
structure Line where
  /-- The number of tabs. -/
  depth : Nat
  mark : Mark
  rule : Rule
  deriving DecidableEq

/-- The line as it is written, without the line break. -/
def Line.text (l : Line) : Bytes :=
  List.replicate l.depth 9 ++ l.mark.text ++ l.rule.name

/-- The line that is written as the given text. -/
def Line.read? (text : Bytes) : Option Line := do
  let label := text.dropWhile (· = 9)
  let mark ← [Mark.begins, .ends].find? fun mark => mark.text.isPrefixOf label
  let rule ← Rule.all.find? fun rule => mark.text ++ rule.name = label
  return ⟨(text.takeWhile (· = 9)).length, mark, rule⟩

/-- The lines of a text, if all of them are lines of a trace. -/
def read? (text : Bytes) : Option (List Line) :=
  (Lines.segments text).mapM Line.read?

/-! ### Pairs of lines -/

/-- The line begins a rule and the other one ends it. -/
structure Fits (first last : Line) : Prop where
  begins : first.mark = .begins
  ends : last.mark = .ends
  rule : first.rule = last.rule

/-- Lines that are made of pairs, one after the other and one within the other. -/
inductive Nested : List Line → Prop
  | nil : Nested []
  | pair {first last : Line} {inner rest : List Line} :
      Fits first last → Nested inner → Nested rest → Nested (first :: (inner ++ last :: rest))

/-- The lines at the two indices are a pair. -/
def Pair (lines : List Line) (i j : Nat) : Prop :=
  ∃ before first inner last after, lines = before ++ first :: (inner ++ last :: after) ∧
    before.length = i ∧ i + inner.length + 1 = j ∧ Fits first last ∧ Nested inner

/-- The pairs around the line at an index, each given by its two indices. -/
def around (lines : List Line) (k : Nat) : Set (Nat × Nat) :=
  {p | Pair lines p.1 p.2 ∧ p.1 < k ∧ k < p.2}

/-- Every rule that begins has its end and every end its beginning, and every line is indented by
the number of pairs around it. -/
structure WellBracketed (lines : List Line) : Prop where
  nested : Nested lines
  closed : ∀ i line, lines[i]? = some line → line.mark = .begins → ∃! j, Pair lines i j
  opened : ∀ j line, lines[j]? = some line → line.mark = .ends → ∃ i, Pair lines i j
  depth : ∀ k line, lines[k]? = some line → (line.depth : ℕ∞) = (around lines k).encard

/-- What is made of pairs and comes before an end is determined by the text. -/
lemma Nested.eq_of_append_eq {u v x y : List Line} {e e' : Line} (hu : Nested u) (hv : Nested v)
    (he : e.mark = .ends) (he' : e'.mark = .ends) (h : u ++ e :: x = v ++ e' :: y) : u = v := by
  induction hu generalizing v x y e e' with
  | nil =>
    cases hv with
    | nil => rfl
    | pair hfits =>
      rw [(List.cons.inj h).1, hfits.begins] at he
      cases he
  | @pair first last inner rest hfits _ _ ihinner ihrest =>
    cases hv with
    | nil =>
      rw [← (List.cons.inj h).1, hfits.begins] at he'
      cases he'
    | @pair first' last' inner' rest' hfits' hinner' hrest' =>
      simp only [List.cons_append, List.append_assoc] at h
      obtain ⟨rfl, htail⟩ := List.cons.inj h
      obtain rfl := ihinner hinner' hfits.ends hfits'.ends htail
      obtain ⟨rfl, hafter⟩ := List.cons.inj (List.append_cancel_left htail)
      rw [ihrest hrest' he he' hafter]

section Pairs

variable {lines a b : List Line} {i j : Nat}

/-- A rule that begins has only one end. -/
lemma Pair.right_unique {j' : Nat} (h : Pair lines i j) (h' : Pair lines i j') : j = j' := by
  obtain ⟨before, first, inner, last, after, rfl, hi, rfl, hfits, hinner⟩ := h
  obtain ⟨before', first', inner', last', after', heq, hi', rfl, hfits', hinner'⟩ := h'
  obtain ⟨-, htail⟩ := List.append_inj heq (hi.trans hi'.symm)
  have hsame := hinner.eq_of_append_eq hinner' hfits.ends hfits'.ends (List.cons.inj htail).2
  rw [hsame]

/-- The first line of a pair begins a rule. -/
lemma Pair.getElem?_left (h : Pair lines i j) :
    ∃ line, lines[i]? = some line ∧ line.mark = .begins := by
  obtain ⟨before, first, inner, last, after, rfl, rfl, -, hfits, -⟩ := h
  exact ⟨first, by simp, hfits.begins⟩

lemma Pair.append_left (h : Pair lines i j) (a : List Line) :
    Pair (a ++ lines) (a.length + i) (a.length + j) := by
  obtain ⟨before, first, inner, last, after, rfl, rfl, rfl, hfits, hinner⟩ := h
  exact ⟨a ++ before, first, inner, last, after, by simp, by simp, by omega, hfits, hinner⟩

lemma Pair.append_right (h : Pair lines i j) (b : List Line) : Pair (lines ++ b) i j := by
  obtain ⟨before, first, inner, last, after, rfl, rfl, rfl, hfits, hinner⟩ := h
  exact ⟨before, first, inner, last, after ++ b, by simp, rfl, rfl, hfits, hinner⟩

/-- A pair that begins behind the front of a list is a pair of what comes after the front. -/
lemma Pair.of_append_left (h : Pair (a ++ lines) (a.length + i) j) :
    ∃ j', j = a.length + j' ∧ Pair lines i j' := by
  obtain ⟨before, first, inner, last, after, heq, hi, rfl, hfits, hinner⟩ := h
  obtain ⟨before', rfl⟩ : a <+: before :=
    List.prefix_of_prefix_length_le (List.prefix_append a lines) ⟨_, heq.symm⟩ (by omega)
  rw [List.append_assoc, List.append_cancel_left_eq] at heq
  refine ⟨i + inner.length + 1, by omega, before', first, inner, last, after, heq, ?_, rfl,
    hfits, hinner⟩
  rw [List.length_append] at hi
  omega

end Pairs

/-! ### The pairs of lines that are made of pairs -/

section Layout

variable {first last : Line} {inner rest : List Line}

lemma pair_outer (hfits : Fits first last) (hinner : Nested inner) :
    Pair (first :: (inner ++ last :: rest)) 0 (inner.length + 1) :=
  ⟨[], first, inner, last, rest, rfl, rfl, by omega, hfits, hinner⟩

lemma Pair.within {i j : Nat} (h : Pair inner i j) :
    Pair (first :: (inner ++ last :: rest)) (i + 1) (j + 1) := by
  have hlonger := (h.append_right (last :: rest)).append_left [first]
  rwa [List.length_singleton, Nat.add_comm 1, Nat.add_comm 1] at hlonger

lemma Pair.behind {i j : Nat} (h : Pair rest i j) :
    Pair (first :: (inner ++ last :: rest)) (inner.length + 2 + i) (inner.length + 2 + j) := by
  have hlonger := h.append_left (first :: (inner ++ [last]))
  simpa using hlonger

/-- An index into a pair and what comes after it. -/
lemma index_cases (inner : List Line) (k : Nat) :
    k = 0 ∨ (∃ m < inner.length, k = m + 1) ∨ k = inner.length + 1 ∨
      ∃ m, k = inner.length + 2 + m := by
  rcases Nat.lt_trichotomy k (inner.length + 1) with hk | hk | hk
  · rcases Nat.eq_zero_or_pos k with hzero | hpos
    · exact .inl hzero
    · exact .inr (.inl ⟨k - 1, by omega, by omega⟩)
  · exact .inr (.inr (.inl hk))
  · exact .inr (.inr (.inr ⟨k - (inner.length + 2), by omega⟩))

lemma getElem?_within {m : Nat} (h : m < inner.length) :
    (first :: (inner ++ last :: rest))[m + 1]? = inner[m]? := by
  rw [List.getElem?_cons_succ, List.getElem?_append_left h]

lemma getElem?_last : (first :: (inner ++ last :: rest))[inner.length + 1]? = some last := by
  rw [List.getElem?_cons_succ, List.getElem?_append_right (Nat.le_refl _), Nat.sub_self]
  rfl

lemma getElem?_behind (m : Nat) :
    (first :: (inner ++ last :: rest))[inner.length + 2 + m]? = rest[m]? := by
  have hindex : inner.length + 2 + m = (inner.length + (m + 1)) + 1 := by omega
  rw [hindex, List.getElem?_cons_succ, List.getElem?_append_right (by omega),
    Nat.add_sub_cancel_left, List.getElem?_cons_succ]

/-- Every line that begins a rule has an end, and every end has a beginning. -/
lemma Nested.exists_pair {lines : List Line} (h : Nested lines) {k : Nat} {line : Line}
    (hk : lines[k]? = some line) :
    (line.mark = .begins → ∃ j, Pair lines k j) ∧ (line.mark = .ends → ∃ i, Pair lines i k) := by
  induction h generalizing k with
  | nil => cases hk
  | @pair first last inner rest hfits hinner _ ihinner ihrest =>
    rcases index_cases inner k with rfl | ⟨m, hm, rfl⟩ | rfl | ⟨m, rfl⟩
    · obtain rfl : first = line := Option.some.inj hk
      refine ⟨fun _ => ⟨_, pair_outer hfits hinner⟩, fun hends => ?_⟩
      rw [hfits.begins] at hends
      cases hends
    · rw [getElem?_within hm] at hk
      exact ⟨fun hbegins => ((ihinner hk).1 hbegins).imp' _ fun _ => Pair.within,
        fun hends => ((ihinner hk).2 hends).imp' _ fun _ => Pair.within⟩
    · obtain rfl : last = line := Option.some.inj (getElem?_last.symm.trans hk)
      refine ⟨fun hbegins => ?_, fun _ => ⟨0, pair_outer hfits hinner⟩⟩
      rw [hfits.ends] at hbegins
      cases hbegins
    · rw [getElem?_behind] at hk
      exact ⟨fun hbegins => ((ihrest hk).1 hbegins).imp' _ fun _ => Pair.behind,
        fun hends => ((ihrest hk).2 hends).imp' _ fun _ => Pair.behind⟩

/-- The pairs of a pair and what comes after it are the pair itself, those within it and those
behind it. -/
lemma pair_cases (hfits : Fits first last) (hinner : Nested inner) {i j : Nat}
    (h : Pair (first :: (inner ++ last :: rest)) i j) :
    (i = 0 ∧ j = inner.length + 1) ∨
      (∃ i' j', i = i' + 1 ∧ j = j' + 1 ∧ j' < inner.length ∧ Pair inner i' j') ∨
        ∃ i' j', i = inner.length + 2 + i' ∧ j = inner.length + 2 + j' ∧ Pair rest i' j' := by
  rcases index_cases inner i with rfl | ⟨m, hm, rfl⟩ | rfl | ⟨m, rfl⟩
  · exact .inl ⟨rfl, h.right_unique (pair_outer hfits hinner)⟩
  · -- The line within the pair has its end there, and it has no other.
    obtain ⟨line, hline, hbegins⟩ := h.getElem?_left
    rw [getElem?_within hm] at hline
    obtain ⟨j', hj'⟩ := (hinner.exists_pair hline).1 hbegins
    refine .inr (.inl ⟨m, j', rfl, h.right_unique hj'.within, ?_, hj'⟩)
    obtain ⟨before, f, i', l, after, rfl, rfl, rfl, -, -⟩ := hj'
    simp only [List.length_append, List.length_cons]
    omega
  · obtain ⟨line, hline, hbegins⟩ := h.getElem?_left
    obtain rfl : last = line := Option.some.inj (getElem?_last.symm.trans hline)
    rw [hfits.ends] at hbegins
    cases hbegins
  · have hsplit : first :: (inner ++ last :: rest) = (first :: (inner ++ [last])) ++ rest := by simp
    have hlength : (first :: (inner ++ [last])).length = inner.length + 2 := by simp
    rw [hsplit, ← hlength] at h
    obtain ⟨j', rfl, hj'⟩ := h.of_append_left
    exact .inr (.inr ⟨m, j', rfl, by rw [hlength], hj'⟩)

/-- Around a line within a pair stand the pairs around it there, and the pair itself. -/
lemma around_within (hfits : Fits first last) (hinner : Nested inner) {m : Nat}
    (hm : m < inner.length) :
    around (first :: (inner ++ last :: rest)) (m + 1) =
      insert (0, inner.length + 1) ((fun p => (p.1 + 1, p.2 + 1)) '' around inner m) := by
  ext ⟨i, j⟩
  constructor
  · rintro ⟨hpair, hi, hj⟩
    rcases pair_cases hfits hinner hpair with
      ⟨rfl, rfl⟩ | ⟨i', j', rfl, rfl, -, hpair'⟩ | ⟨i', j', rfl, rfl, -⟩
    · exact .inl rfl
    · exact .inr ⟨(i', j'), ⟨hpair', by simpa using hi, by simpa using hj⟩, rfl⟩
    · dsimp only at hi
      omega
  · rintro (heq | ⟨⟨i', j'⟩, ⟨hpair, hi, hj⟩, heq⟩)
    · cases heq
      exact ⟨pair_outer hfits hinner, Nat.succ_pos m, Nat.succ_lt_succ hm⟩
    · cases heq
      exact ⟨hpair.within, Nat.succ_lt_succ hi, Nat.succ_lt_succ hj⟩

/-- Around a line behind a pair stand the pairs around it there. -/
lemma around_behind (hfits : Fits first last) (hinner : Nested inner) (m : Nat) :
    around (first :: (inner ++ last :: rest)) (inner.length + 2 + m) =
      (fun p => (inner.length + 2 + p.1, inner.length + 2 + p.2)) '' around rest m := by
  ext ⟨i, j⟩
  constructor
  · rintro ⟨hpair, hi, hj⟩
    dsimp only at hi hj
    rcases pair_cases hfits hinner hpair with
      ⟨rfl, rfl⟩ | ⟨i', j', rfl, rfl, hj', -⟩ | ⟨i', j', rfl, rfl, hpair'⟩
    · omega
    · omega
    · exact ⟨(i', j'), ⟨hpair', by dsimp only; omega, by dsimp only; omega⟩, rfl⟩
  · rintro ⟨⟨i', j'⟩, ⟨hpair, hi, hj⟩, heq⟩
    cases heq
    exact ⟨hpair.behind, Nat.add_lt_add_left hi _, Nat.add_lt_add_left hj _⟩

/-- The two lines of a pair have no pair around them. -/
lemma around_edge (hfits : Fits first last) (hinner : Nested inner) {k : Nat}
    (hk : k = 0 ∨ k = inner.length + 1) : around (first :: (inner ++ last :: rest)) k = ∅ := by
  refine Set.eq_empty_iff_forall_notMem.2 ?_
  rintro ⟨i, j⟩ ⟨hpair, hi, hj⟩
  dsimp only at hi hj
  rcases pair_cases hfits hinner hpair with
    ⟨rfl, rfl⟩ | ⟨i', j', rfl, rfl, hj', -⟩ | ⟨i', j', rfl, rfl, -⟩ <;> omega

end Layout

/-! ### How attempts are laid out -/

/-- Lines that lay out attempts which have so many attempts around them. -/
inductive LaidOut : Nat → List Line → Prop
  | nil (depth : Nat) : LaidOut depth []
  | pair {depth : Nat} {inner rest : List Line} (rule : Rule) :
      LaidOut (depth + 1) inner → LaidOut depth rest →
        LaidOut depth (⟨depth, .begins, rule⟩ :: (inner ++ ⟨depth, .ends, rule⟩ :: rest))

namespace LaidOut

variable {d : Nat} {lines : List Line}

lemma nested (h : LaidOut d lines) : Nested lines := by
  induction h with
  | nil => exact .nil
  | pair rule _ _ ihinner ihrest => exact .pair ⟨rfl, rfl, rfl⟩ ihinner ihrest

lemma le_depth (h : LaidOut d lines) : ∀ line ∈ lines, d ≤ line.depth := by
  induction h with
  | nil => simp
  | pair rule _ _ ihinner ihrest =>
    intro line hline
    rcases List.mem_cons.1 hline with rfl | hline
    · exact Nat.le_refl _
    rcases List.mem_append.1 hline with hline | hline
    · exact Nat.le_of_succ_le (ihinner line hline)
    rcases List.mem_cons.1 hline with rfl | hline
    · exact Nat.le_refl _
    · exact ihrest line hline

/-- A line has as many tabs as there are pairs around it, here and further out. -/
lemma depth_eq (h : LaidOut d lines) {k : Nat} {line : Line} (hk : lines[k]? = some line) :
    (line.depth : ℕ∞) = (around lines k).encard + d := by
  induction h generalizing k with
  | nil => cases hk
  | @pair d inner rest rule hinner _ ihinner ihrest =>
    have hfits : Fits ⟨d, .begins, rule⟩ ⟨d, .ends, rule⟩ := ⟨rfl, rfl, rfl⟩
    rcases index_cases inner k with rfl | ⟨m, hm, rfl⟩ | rfl | ⟨m, rfl⟩
    · rw [around_edge hfits hinner.nested (.inl rfl), Set.encard_empty, zero_add]
      rw [← Option.some.inj hk]
    · rw [getElem?_within hm] at hk
      have hinjective : Function.Injective fun p : Nat × Nat => (p.1 + 1, p.2 + 1) := by
        rintro ⟨i, j⟩ ⟨i', j'⟩ heq
        simpa using heq
      have hnew : ((0, inner.length + 1) : Nat × Nat) ∉
          (fun p => (p.1 + 1, p.2 + 1)) '' around inner m := by
        rintro ⟨⟨i, j⟩, -, heq⟩
        cases heq
      rw [around_within hfits hinner.nested hm, Set.encard_insert_of_notMem hnew,
        hinjective.encard_image, ihinner hk, Nat.cast_add, Nat.cast_one, add_assoc, add_comm 1]
    · rw [around_edge hfits hinner.nested (.inr rfl), Set.encard_empty, zero_add]
      rw [← Option.some.inj (getElem?_last.symm.trans hk)]
    · rw [getElem?_behind] at hk
      have hinjective : Function.Injective fun p : Nat × Nat =>
          (inner.length + 2 + p.1, inner.length + 2 + p.2) := by
        rintro ⟨i, j⟩ ⟨i', j'⟩ heq
        simpa using heq
      rw [around_behind hfits hinner.nested, hinjective.encard_image, ihrest hk]

lemma wellBracketed (h : LaidOut 0 lines) : WellBracketed lines where
  nested := h.nested
  closed := by
    intro i line hi hbegins
    obtain ⟨j, hj⟩ := (h.nested.exists_pair hi).1 hbegins
    exact ⟨j, hj, fun j' hj' => hj'.right_unique hj⟩
  opened := fun j line hj => (h.nested.exists_pair hj).2
  depth := by
    intro k line hk
    rw [h.depth_eq hk, Nat.cast_zero, add_zero]

end LaidOut

end Trace

/-! ### The lines of spans -/

namespace Span

open Trace

/-- The rule of an attempt. -/
def rule : Span → Rule
  | .mk rule _ => rule

mutual

/-- The lines of an attempt that has `depth` attempts around it. -/
def lines (depth : Nat) : Span → List Line
  | .mk rule inner =>
    ⟨depth, .begins, rule⟩ :: (linesAll (depth + 1) inner ++ [⟨depth, .ends, rule⟩])

/-- The lines of attempts made one after the other. -/
def linesAll (depth : Nat) : List Span → List Line
  | [] => []
  | s :: rest => lines depth s ++ linesAll depth rest

end

lemma linesAll_cons (depth : Nat) (rule : Rule) (inner rest : List Span) :
    linesAll depth (.mk rule inner :: rest) =
      ⟨depth, .begins, rule⟩ ::
        (linesAll (depth + 1) inner ++ ⟨depth, .ends, rule⟩ :: linesAll depth rest) := by
  simp [linesAll, lines]

/-- The lines are those of the text. -/
lemma renderAll_eq_flatMap (depth : Nat) (spans : List Span) :
    renderAll depth spans = (linesAll depth spans).flatMap fun l => Bytes.line l.text := by
  match spans with
  | [] => rfl
  | .mk rule inner :: rest =>
    rw [renderAll, render, renderAll_eq_flatMap (depth + 1) inner, renderAll_eq_flatMap depth rest,
      linesAll_cons]
    simp [line, Line.text, Mark.text]

lemma laidOut_linesAll (depth : Nat) (spans : List Span) :
    LaidOut depth (linesAll depth spans) := by
  match spans with
  | [] => exact .nil depth
  | .mk rule inner :: rest =>
    rw [linesAll_cons]
    exact .pair rule (laidOut_linesAll (depth + 1) inner) (laidOut_linesAll depth rest)

/-- The lines with the fewest tabs are those of the outermost attempts. -/
lemma rule_of_mem_linesAll {depth : Nat} {rule : Rule} {spans : List Span}
    (h : ∀ span ∈ spans, span.rule = rule) :
    ∀ line ∈ linesAll depth spans, line.depth = depth → line.rule = rule := by
  induction spans with
  | nil => exact nofun
  | cons span rest ih =>
    obtain ⟨first, inner⟩ := span
    obtain ⟨hfirst, hrest⟩ := List.forall_mem_cons.1 h
    intro line hline hdepth
    rw [linesAll_cons] at hline
    rcases List.mem_cons.1 hline with rfl | hline
    · exact hfirst
    rcases List.mem_append.1 hline with hline | hline
    · have hdeeper := (laidOut_linesAll (depth + 1) inner).le_depth line hline
      omega
    rcases List.mem_cons.1 hline with rfl | hline
    · exact hfirst
    · exact ih hrest line hline hdepth

end Span

/-! ### Reading a trace back -/

namespace Trace

/-- No label starts with a tab or has a line break in it. -/
lemma label_facts (mark : Mark) (rule : Rule) :
    (mark.text ++ rule.name).head? ≠ some 9 ∧ Bytes.newline ∉ mark.text ++ rule.name := by
  cases mark <;> cases rule <;> decide

lemma find?_mark (mark : Mark) (rule : Rule) :
    ([Mark.begins, .ends].find? fun m => m.text.isPrefixOf (mark.text ++ rule.name)) =
      some mark := by
  cases mark <;> cases rule <;> rfl

lemma find?_rule (mark : Mark) (rule : Rule) :
    (Rule.all.find? fun r => mark.text ++ r.name = mark.text ++ rule.name) = some rule := by
  cases mark <;> cases rule <;> rfl

lemma Line.newline_notMem_text (l : Line) : Bytes.newline ∉ l.text := by
  rw [Line.text, List.append_assoc, List.mem_append, not_or]
  refine ⟨fun hmem => ?_, (label_facts l.mark l.rule).2⟩
  exact absurd (List.eq_of_mem_replicate hmem) (by decide)

/-- A line is read back from its text. -/
lemma Line.read?_text (l : Line) : Line.read? l.text = some l := by
  obtain ⟨depth, mark, rule⟩ := l
  obtain ⟨c, label, hlabel⟩ : ∃ c label, mark.text ++ rule.name = c :: label :=
    List.exists_cons_of_ne_nil (by cases mark <;> simp [Mark.text, utf8])
  have hc : c ≠ 9 := by
    have hhead := (label_facts mark rule).1
    rw [hlabel] at hhead
    exact fun heq => hhead (by rw [heq]; rfl)
  have htabs : ∀ b ∈ List.replicate depth (9 : UInt8), decide (b = 9) = true :=
    fun b hb => decide_eq_true (List.eq_of_mem_replicate hb)
  have hdrop : (Line.text ⟨depth, mark, rule⟩).dropWhile (· = 9) = mark.text ++ rule.name := by
    rw [Line.text, List.append_assoc, List.dropWhile_append_of_pos htabs, hlabel]
    simp [hc]
  have htake : (Line.text ⟨depth, mark, rule⟩).takeWhile (· = 9) = List.replicate depth 9 := by
    rw [Line.text, List.append_assoc, List.takeWhile_append_of_pos htabs, hlabel]
    simp [hc]
  unfold Line.read?
  rw [hdrop, htake, List.length_replicate]
  dsimp only
  rw [find?_mark, Option.bind_eq_bind, Option.bind_some, find?_rule]
  rfl

/-- A text of lines is cut where the lines end. -/
lemma segments_line_append {text : Bytes} (h : Bytes.newline ∉ text) (rest : Bytes) :
    Lines.segments (Bytes.line text ++ rest) = text :: Lines.segments rest := by
  have hall : ∀ b ∈ text, decide (b ≠ Bytes.newline) = true :=
    fun b hb => decide_eq_true fun heq => h (heq ▸ hb)
  have hsplit : Bytes.line text ++ rest = text ++ Bytes.newline :: rest := by simp [Bytes.line]
  obtain ⟨b, tail, hcons⟩ : ∃ b tail, text ++ Bytes.newline :: rest = b :: tail :=
    List.exists_cons_of_ne_nil (by simp)
  rw [hsplit, hcons, Lines.segments, ← hcons, List.takeWhile_append_of_pos hall,
    List.dropWhile_append_of_pos hall]
  simp

/-- The lines of a text are read back from it. -/
lemma read?_flatMap (lines : List Line) :
    read? (lines.flatMap fun l => Bytes.line l.text) = some lines := by
  induction lines with
  | nil =>
    rw [read?, List.flatMap_nil, Lines.segments]
    rfl
  | cons l lines ih =>
    rw [read?] at ih
    rw [read?, List.flatMap_cons, segments_line_append l.newline_notMem_text, List.mapM_cons,
      Line.read?_text, ih]
    rfl

end Trace

/-! ### The spans of a program -/

namespace Grammar

open LoxScript.Parser

/-- Every rule that the parser tries outermost is the given one. -/
def TriesOnly {α : Type} (rule : Rule) (p : Parser α) : Prop :=
  ∀ ts, ∀ span ∈ (p ts).spans, span.rule = rule

lemma triesOnly_pure {α : Type} {rule : Rule} (a : α) : TriesOnly rule (pure a : Parser α) :=
  fun _ _ hspan => absurd hspan List.not_mem_nil

lemma TriesOnly.bind {α β : Type} {rule : Rule} {p : Parser α} {f : α → Parser β}
    (hp : TriesOnly rule p) (hf : ∀ a, TriesOnly rule (f a)) : TriesOnly rule (p >>= f) := by
  intro ts span hspan
  cases hresult : (p ts).result with
  | error failure =>
    rw [bind_of_error hresult] at hspan
    exact hp ts span hspan
  | ok r =>
    rw [bind_of_ok hresult] at hspan
    rcases List.mem_append.1 hspan with hspan | hspan
    · exact hp ts span hspan
    · exact hf r.1 r.2 span hspan

lemma triesOnly_declaration (mode : Mode) (fuel : Nat) :
    TriesOnly .declaration (declaration mode fuel) := by
  intro ts span hspan
  cases fuel with
  | zero => exact absurd hspan List.not_mem_nil
  | succ fuel =>
    rw [declaration_succ] at hspan
    rw [List.mem_singleton.1 hspan]
    rfl

lemma triesOnly_declarations (mode : Mode) (closing : List Kind) (fuel : Nat) :
    TriesOnly .declaration (declarations mode closing fuel) := by
  induction fuel with
  | zero => exact triesOnly_pure []
  | succ fuel ih =>
    rw [declarations]
    refine TriesOnly.bind (fun _ _ hspan => absurd hspan List.not_mem_nil) fun ts => ?_
    cases ts with
    | nil => exact triesOnly_pure []
    | cons next ts =>
      dsimp only
      split_ifs
      · exact triesOnly_pure []
      · exact (triesOnly_declaration mode fuel).bind fun first =>
          ih.bind fun others => triesOnly_pure _

/-- In front of a token a declaration is tried. -/
lemma spans_declarations_ne_nil (mode : Mode) (fuel : Nat) (t : Token) (ts : List Token) :
    (declarations mode [] (fuel + 2) (t :: ts)).spans ≠ [] := by
  have hfirst : (declaration mode (fuel + 1) (t :: ts)).spans ≠ [] := by
    rw [declaration_succ]
    exact List.cons_ne_nil _ _
  rw [declarations, bind_of_ok result_unread]
  dsimp only
  rw [if_neg List.not_mem_nil]
  cases hresult : (declaration mode (fuel + 1) (t :: ts)).result with
  | error failure =>
    rw [bind_of_error hresult]
    exact List.append_ne_nil_of_right_ne_nil _ hfirst
  | ok r =>
    rw [bind_of_ok hresult]
    exact List.append_ne_nil_of_right_ne_nil _ (List.append_ne_nil_of_left_ne_nil hfirst _)

end Grammar

namespace Cursor

open LoxScript.Grammar Trace

/-- A trace has lines as soon as there is a token to be read. -/
lemma linesAll_trace_ne_nil (mode : Mode) {tokens : List Token} (h : body tokens ≠ []) :
    Span.linesAll 0 (readTokens mode tokens).trace ≠ [] := by
  obtain ⟨t, ts, hbody⟩ := List.exists_cons_of_ne_nil h
  have hspans : (readTokens mode tokens).trace ≠ [] := by
    unfold readTokens program
    dsimp only
    rw [hbody]
    exact spans_declarations_ne_nil mode _ t ts
  obtain ⟨⟨rule, inner⟩, rest, hcons⟩ := List.exists_cons_of_ne_nil hspans
  rw [hcons, Span.linesAll_cons]
  exact List.cons_ne_nil _ _

/-- Tracing is balanced and invisible, for every list of tokens, in either mode.  Carried out with
an index and a counter of the rules around the place, a reading with tracing gives the same program
or the same mistakes as a reading without, which leaves no text.  The text of the trace can be read
as lines: every rule that begins has one end, with the same name and with pairs in between, every
end has a beginning, and each line has as many tabs as there are pairs around it, also when reading
fails.  The lines without tabs are all those of declarations, and there are lines as soon as there
is a token. -/
theorem tracing_is_balanced_and_invisible (mode : Mode) (tokens : List Token) :
    ∃ result text, (∀ fuel, 3 * tokens.length + 6 ≤ fuel →
        read mode true fuel tokens = .ok ⟨result, text⟩ ∧
        read mode false fuel tokens = .ok ⟨result, []⟩) ∧
      result = (readTokens mode tokens).result ∧
      text = traceText (readTokens mode tokens).trace ∧
      ∃ lines, Trace.read? text = some lines ∧ WellBracketed lines ∧
        (∀ line ∈ lines, line.depth = 0 → line.rule = .declaration) ∧
        (body tokens ≠ [] → lines ≠ []) := by
  refine ⟨_, _, fun fuel hfuel => ⟨read_eq_readTokens mode true hfuel,
    read_eq_readTokens mode false hfuel⟩, rfl, rfl, ?_⟩
  rw [if_pos rfl, traceText, Span.renderAll_eq_flatMap]
  refine ⟨_, read?_flatMap _, (Span.laidOut_linesAll 0 _).wellBracketed, ?_⟩
  exact ⟨Span.rule_of_mem_linesAll (triesOnly_declarations mode [] _ _),
    linesAll_trace_ne_nil mode⟩

end Cursor

end LoxScript
