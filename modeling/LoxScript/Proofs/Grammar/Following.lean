import LoxScript.Proofs.Grammar.Cursor
import LoxScript.Proofs.Grammar.Fuel

/-!
# Reading with an index follows reading from a list

The machine that reads with an index does what the parsers on lists of tokens do: where a parser has
the text `ts` in front of it, the index is at the first token of `ts`.  Here is this relation, for
the parts that rules are made of.  It holds the invariant that keeps the index in range: the index
is never behind the first end of input, and a token that comes before it has been read when it is
asked for.

The one place where the invariant is not enough is the start of a recovery.  At the end of the input
it moves over nothing, and still asks for the token before; there is one because the declaration
that is given up began in front of a token.
-/

namespace LoxScript

lemma Span.renderAll_append (depth : Nat) (l l' : List Span) :
    Span.renderAll depth (l ++ l') = Span.renderAll depth l ++ Span.renderAll depth l' := by
  induction l with
  | nil => rfl
  | cons span l ih => simp [Span.renderAll, ih]

namespace Cursor

open LoxScript.Grammar

section Steps

variable {α β : Type} {c : Setup} {s s' : State} {m : Walk α} {k : α → Walk β}

lemma bind_ok {a : α} (h : m c s = .ok a s') : (m >>= k) c s = k a c s' := by
  change Walk.bind m k c s = _
  rw [Walk.bind, h]

lemma bind_failed {e : SyntaxError} (h : m c s = .failed e s') :
    (m >>= k) c s = .failed e s' := by
  change Walk.bind m k c s = _
  rw [Walk.bind, h]

lemma pure_apply (a : α) : (pure a : Walk α) c s = .ok a s := rfl

lemma position_apply : position c s = .ok s.current s := rfl

end Steps

/-! ### Where the index stands -/

/-- An array of tokens in which the first end of input has been found. -/
structure Prepared extends Setup where
  body : List Token
  last : Token
  tokens_eq : ∃ beyond, tokens = body ++ last :: beyond
  kind_body : ∀ t ∈ body, t.kind ≠ .endOfInput
  kind_last : last.kind = .endOfInput

namespace Prepared

variable (d : Prepared)

/-- The index stands in front of the text, and no line has been indented by less than nothing. -/
structure At (s : State) (ts : List Token) : Prop where
  suffix : ts <:+ d.body
  current : s.current + ts.length = d.body.length
  level : 0 ≤ s.level

/-- The state after what a parser does from a state on. -/
def past {α : Type} (s : State) (r : Reply α) : State where
  current := d.body.length - (left r).length
  level := s.level
  trace := s.trace ++ if d.tracing then Span.renderAll s.level.toNat r.spans else []
  errors := s.errors ++ r.overcome.map (.ofFailure d.body.length d.last)

/-- How the machine ends when a parser gives the reply. -/
def outcome {α : Type} (s : State) (r : Reply α) : Outcome α :=
  match r.result with
  | .ok (a, _) => .ok a (d.past s r)
  | .error failure => .failed (.ofFailure d.body.length d.last failure) (d.past s r)

variable {d} {α β : Type} {s : State} {ts : List Token}

lemma outcome_of_ok {r : Reply α} {a : α} {rest : List Token} (h : r.result = .ok (a, rest)) :
    d.outcome s r = .ok a (d.past s r) := by
  rw [outcome, h]

lemma outcome_of_error {r : Reply α} {failure : Failure} (h : r.result = .error failure) :
    d.outcome s r = .failed (.ofFailure d.body.length d.last failure) (d.past s r) := by
  rw [outcome, h]

/-- The index of the first token of a text that is still to be read. -/
lemma At.current_eq (h : d.At s ts) : s.current = d.body.length - ts.length := by
  have := h.current
  omega

lemma current_past {r : Reply α} : (d.past s r).current = d.body.length - (left r).length := rfl

/-- A parser that takes tokens from the front leaves the index in front of what it leaves. -/
lemma At.past (h : d.At s ts) {r : Reply α} (hleft : left r <:+ ts) :
    d.At (d.past s r) (left r) where
  suffix := hleft.trans h.suffix
  current := Nat.sub_add_cancel (hleft.trans h.suffix).length_le
  level := h.level

/-- A reply that neither tried rules nor overcame failures nor took tokens changes nothing. -/
lemma At.past_eq_self (h : d.At s ts) {r : Reply α} (hspans : r.spans = [])
    (hovercome : r.overcome = []) (hleft : left r = ts) : d.past s r = s := by
  have hcurrent := h.current_eq
  obtain ⟨current, level, trace, errors⟩ := s
  dsimp only at hcurrent
  simp [Prepared.past, hspans, hovercome, hleft, hcurrent, Span.renderAll]

end Prepared

/-! ### Single tokens -/

section Tokens

variable {d : Prepared} {s : State} {t : Token} {ts : List Token}

lemma fetch_of_getElem? {c : Setup} {index : Nat} (h : c.tokens[index]? = some t) :
    fetch index c s = .ok t s := by
  simp [fetch, h]

/-- The next token is the first one of the text, or else the first end of input. -/
lemma Prepared.At.peek (h : d.At s ts) : Cursor.peek d.toSetup s = .ok (ts.headD d.last) s := by
  obtain ⟨front, hfront⟩ := h.suffix
  have hcurrent : s.current = front.length := by
    have := h.current
    rw [← hfront, List.length_append] at this
    omega
  obtain ⟨beyond, htokens⟩ := d.tokens_eq
  refine (bind_ok position_apply).trans (fetch_of_getElem? ?_)
  rw [htokens, ← hfront, hcurrent, List.append_assoc, List.getElem?_append_right (Nat.le_refl _)]
  cases ts <;> simp

/-- The token that has just been passed is the one before. -/
lemma previous_of_passed (hsuffix : t :: ts <:+ d.body)
    (hcurrent : s.current + ts.length = d.body.length) : previous d.toSetup s = .ok t s := by
  obtain ⟨front, hfront⟩ := hsuffix
  have hlength : s.current = front.length + 1 := by
    rw [← hfront, List.length_append, List.length_cons] at hcurrent
    omega
  have hindex : (s.current : Int) - 1 = front.length := by omega
  obtain ⟨beyond, htokens⟩ := d.tokens_eq
  refine (bind_ok position_apply).trans ?_
  rw [hindex]
  refine fetch_of_getElem? ?_
  rw [htokens, ← hfront, List.append_assoc, List.getElem?_append_right (Nat.le_refl _)]
  simp

lemma Prepared.At.isAtEnd_nil (h : d.At s []) : isAtEnd d.toSetup s = .ok true s := by
  refine (bind_ok h.peek).trans ?_
  simp [pure_apply, d.kind_last]

lemma Prepared.At.kind_ne (h : d.At s (t :: ts)) : t.kind ≠ .endOfInput :=
  d.kind_body t (h.suffix.mem (List.mem_cons_self ..))

lemma Prepared.At.isAtEnd_cons (h : d.At s (t :: ts)) : isAtEnd d.toSetup s = .ok false s := by
  refine (bind_ok h.peek).trans ?_
  simp [pure_apply, h.kind_ne]

lemma Prepared.At.check (h : d.At s ts) (kind : Kind) :
    Cursor.check kind d.toSetup s = .ok (decide ((ts.headD d.last).kind = kind)) s :=
  bind_ok h.peek

/-- The state after moving past a token. -/
def State.next (s : State) : State := { s with current := s.current + 1 }

lemma State.current_next (s : State) : s.next.current = s.current + 1 := rfl

lemma Prepared.At.next (h : d.At s (t :: ts)) : d.At s.next ts where
  suffix := (List.suffix_cons t ts).trans h.suffix
  current := by
    have := h.current
    rw [List.length_cons] at this
    rw [State.current_next]
    omega
  level := h.level

lemma Prepared.At.advance_cons (h : d.At s (t :: ts)) :
    advance d.toSetup s = .ok t s.next := by
  refine (bind_ok h.isAtEnd_cons).trans ?_
  have hstep : step d.toSetup s = .ok () s.next := rfl
  exact (bind_ok hstep).trans (previous_of_passed h.suffix h.next.current)

/-- At the end of the input nothing is passed, but the token before is asked for all the same. -/
lemma Prepared.At.exists_advance_nil (h : d.At s []) (hbody : d.body ≠ []) :
    ∃ t, advance d.toSetup s = .ok t s := by
  have hlast : [d.body.getLast hbody] <:+ d.body :=
    ⟨d.body.dropLast, List.dropLast_concat_getLast hbody⟩
  exact ⟨_, (bind_ok h.isAtEnd_nil).trans (previous_of_passed hlast h.current)⟩

lemma Prepared.At.moveOver_of_notMem (h : d.At s ts) {kinds : List Kind}
    (hkinds : (ts.headD d.last).kind ∉ kinds) : moveOver kinds d.toSetup s = .ok false s := by
  induction kinds with
  | nil => rfl
  | cons kind kinds ih =>
    obtain ⟨hkind, hkinds⟩ := not_or.1 (mt List.mem_cons.2 hkinds)
    refine (bind_ok (h.check kind)).trans ?_
    rw [decide_eq_false hkind]
    exact ih hkinds

lemma Prepared.At.moveOver_of_mem (h : d.At s (t :: ts)) {kinds : List Kind}
    (hkinds : t.kind ∈ kinds) : moveOver kinds d.toSetup s = .ok true s.next := by
  induction kinds with
  | nil => cases hkinds
  | cons kind kinds ih =>
    refine (bind_ok (h.check kind)).trans ?_
    by_cases hkind : t.kind = kind
    · rw [List.headD_cons, decide_eq_true hkind]
      exact (bind_ok h.advance_cons).trans rfl
    · rw [List.headD_cons, decide_eq_false hkind]
      exact ih ((List.mem_cons.1 hkinds).resolve_left hkind)

end Tokens

/-! ### The same as on lists -/

/-- On texts of at most `n` tokens, the machine does what the parser does. -/
def Follows {α : Type} (d : Prepared) (n : Nat) (m : Walk α) (p : Parser α) : Prop :=
  ∀ ⦃s ts⦄, d.At s ts → ts.length ≤ n → m d.toSetup s = d.outcome s (p ts)

section Sequence

variable {α β : Type} {d : Prepared} {n : Nat} {m : Walk α} {p : Parser α} {k : α → Walk β}
  {f : α → Parser β} {s : State} {ts : List Token}

lemma Follows.mono {l : Nat} (h : Follows d n m p) (hln : l ≤ n) : Follows d l m p :=
  fun _ _ hat hts => h hat (Nat.le_trans hts hln)

lemma follows_pure (a : α) : Follows d n (pure a) (pure a) := by
  intro s ts hat _
  have hresult : ((pure a : Parser α) ts).result = .ok (a, ts) := rfl
  rw [pure_apply, Prepared.outcome_of_ok hresult]
  rw [hat.past_eq_self rfl rfl (left_of_ok hresult)]

lemma follows_failAtPeek (what : Expected) :
    Follows d n (failAtPeek what : Walk α) (Parser.fail what) := by
  intro s ts hat _
  have hresult : (Parser.fail what ts : Reply α).result = .error ⟨.expected what, ts, ts⟩ := rfl
  rw [Prepared.outcome_of_error hresult, hat.past_eq_self rfl rfl (left_of_error hresult)]
  refine (bind_ok hat.peek).trans ((bind_ok position_apply).trans ?_)
  rw [fail, SyntaxError.ofFailure, hat.current_eq]

/-- What a first part does, and a second one from there on, is what both do. -/
lemma Prepared.outcome_bind_of_ok {a : α} {mid : List Token} (h : (p ts).result = .ok (a, mid)) :
    d.outcome s ((p >>= f) ts) = d.outcome (d.past s (p ts)) (f a mid) := by
  have hpast : d.past s ((p >>= f) ts) = d.past (d.past s (p ts)) (f a mid) := by
    rw [Parser.bind_of_ok h, Prepared.past, Prepared.past, Prepared.past]
    cases d.tracing <;> simp [left, Span.renderAll_append]
  rw [Prepared.outcome, Prepared.outcome, hpast, Parser.result_bind_of_ok h]

/-- A part that has failed is the end of the whole. -/
lemma Prepared.outcome_bind_of_error {failure : Failure} (h : (p ts).result = .error failure) :
    d.outcome s ((p >>= f) ts) =
      .failed (.ofFailure d.body.length d.last failure) (d.past s (p ts)) := by
  rw [outcome_of_error (Parser.result_bind_of_error h), Parser.bind_of_error h, past, past,
    left_of_error h]
  rfl

/-- What comes after a part begins where the part has left the index. -/
lemma bind_eq_outcome (hat : d.At s ts) (hm : m d.toSetup s = d.outcome s (p ts))
    (hnarrows : left (p ts) <:+ ts)
    (hk : ∀ a mid s', (p ts).result = .ok (a, mid) → d.At s' mid →
      k a d.toSetup s' = d.outcome s' (f a mid)) :
    (m >>= k) d.toSetup s = d.outcome s ((p >>= f) ts) := by
  cases hresult : (p ts).result with
  | error failure =>
    rw [Prepared.outcome_of_error hresult] at hm
    rw [bind_failed hm, Prepared.outcome_bind_of_error hresult]
  | ok r =>
    obtain ⟨a, mid⟩ := r
    have hafter := hat.past hnarrows
    rw [left_of_ok hresult] at hafter
    rw [Prepared.outcome_of_ok hresult] at hm
    rw [bind_ok hm, Prepared.outcome_bind_of_ok hresult]
    exact hk a mid _ hresult hafter

lemma Follows.bind (hm : Follows d n m p) (hnarrows : Narrows p)
    (hk : ∀ a, Follows d n (k a) (f a)) : Follows d n (m >>= k) (p >>= f) := by
  intro s ts hat hts
  refine bind_eq_outcome hat (hm hat hts) (hnarrows ts) fun a mid s' hresult hat' => hk a hat' ?_
  exact Nat.le_trans (hnarrows.length_le hresult) hts

/-- A reply that only took the next token moves the index by one. -/
lemma Prepared.At.past_eq_next {t : Token} (h : d.At s (t :: ts)) {r : Reply α}
    (hspans : r.spans = []) (hovercome : r.overcome = []) (hleft : left r = ts) :
    d.past s r = s.next := by
  have hcurrent := h.next.current_eq
  obtain ⟨current, level, trace, errors⟩ := s
  rw [State.current_next] at hcurrent
  simp [Prepared.past, State.next, hspans, hovercome, hleft, ← hcurrent, Span.renderAll]

lemma spans_accept? (kinds : List Kind) (ts : List Token) :
    (Parser.accept? kinds ts).spans = [] := by
  unfold Parser.accept?
  split
  · rfl
  · split <;> rfl

lemma spans_expect (kind : Kind) (what : Expected) (ts : List Token) :
    (Parser.expect kind what ts).spans = [] := by
  unfold Parser.expect
  split
  · rfl
  · split <;> rfl

/-- No rule looks for an end of input, so none takes it. -/
lemma follows_accept? {kinds : List Kind} (hkinds : Kind.endOfInput ∉ kinds) :
    Follows d n (accept? kinds) (Parser.accept? kinds) := by
  intro s ts hat _
  by_cases hstarts : Starts kinds ts
  · obtain ⟨t, rest, rfl, hkind⟩ := hstarts.exists_cons
    have hresult : (Parser.accept? kinds (t :: rest)).result = .ok (some t, rest) :=
      Parser.result_accept?_cons hkind
    rw [Prepared.outcome_of_ok hresult, hat.past_eq_next (spans_accept? _ _)
      (Parser.overcome_accept? _) (left_of_ok hresult)]
    refine (bind_ok (hat.moveOver_of_mem hkind)).trans ?_
    exact (bind_ok (previous_of_passed hat.suffix hat.next.current)).trans rfl
  · have hresult := Parser.result_accept?_of_not_starts hstarts
    have hkind : (ts.headD d.last).kind ∉ kinds := by
      cases ts with
      | nil => rwa [List.headD_nil, d.kind_last]
      | cons t ts => rwa [starts_cons] at hstarts
    rw [Prepared.outcome_of_ok hresult, hat.past_eq_self (spans_accept? _ _)
      (Parser.overcome_accept? _) (left_of_ok hresult)]
    exact (bind_ok (hat.moveOver_of_notMem hkind)).trans rfl

lemma follows_expect {kind : Kind} (hkind : Kind.endOfInput ≠ kind) (what : Expected) :
    Follows d n (expect kind what) (Parser.expect kind what) := by
  intro s ts hat hts
  by_cases hstarts : Starts [kind] ts
  · obtain ⟨t, rest, rfl, hmem⟩ := hstarts.exists_cons
    have hsame := List.mem_singleton.1 hmem
    have hresult : (Parser.expect kind what (t :: rest)).result = .ok (t, rest) :=
      Parser.result_expect_cons hsame
    rw [Prepared.outcome_of_ok hresult, hat.past_eq_next (spans_expect _ _ _)
      (Parser.overcome_expect _ _) (left_of_ok hresult)]
    refine (bind_ok (hat.check kind)).trans ?_
    rw [List.headD_cons, decide_eq_true hsame]
    exact hat.advance_cons
  · have hreply : Parser.expect kind what ts = Parser.fail what ts := by
      cases ts with
      | nil => rfl
      | cons t ts =>
        have hother : t.kind ≠ kind := fun h => hstarts (starts_cons.2 (List.mem_singleton.2 h))
        simp only [Parser.expect, hother, if_false]
    have hother : (ts.headD d.last).kind ≠ kind := by
      cases ts with
      | nil => rwa [List.headD_nil, d.kind_last]
      | cons t ts => exact fun h => hstarts (starts_cons.2 (List.mem_singleton.2 h))
    rw [hreply, ← follows_failAtPeek what hat hts]
    refine (bind_ok (hat.check kind)).trans ?_
    rw [decide_eq_false hother]
    rfl

/-- A token that is taken leaves a shorter text. -/
lemma follows_accept?_bind {kinds : List Kind} (hkinds : Kind.endOfInput ∉ kinds)
    {k : Option Token → Walk β} {f : Option Token → Parser β}
    (hnone : Follows d n (k none) (f none))
    (hsome : ∀ t l, l < n → Follows d l (k (some t)) (f (some t))) :
    Follows d n (accept? kinds >>= k) (Parser.accept? kinds >>= f) := by
  intro s ts hat hts
  refine bind_eq_outcome hat (follows_accept? hkinds hat hts) (narrows_accept? kinds ts)
    fun o mid s' hresult hat' => ?_
  by_cases hstarts : Starts kinds ts
  · obtain ⟨t, rest, rfl, hkind⟩ := hstarts.exists_cons
    rw [Parser.result_accept?_cons hkind] at hresult
    cases hresult
    exact hsome t mid.length (Nat.lt_of_succ_le hts) hat' (Nat.le_refl _)
  · rw [Parser.result_accept?_of_not_starts hstarts] at hresult
    cases hresult
    exact hnone hat' hts

lemma follows_expect_bind {kind : Kind} (hkind : Kind.endOfInput ≠ kind) {what : Expected}
    {k : Token → Walk β} {f : Token → Parser β}
    (h : ∀ t l, l < n → Follows d l (k t) (f t)) :
    Follows d n (expect kind what >>= k) (Parser.expect kind what >>= f) := by
  intro s ts hat hts
  refine bind_eq_outcome hat (follows_expect hkind what hat hts) (narrows_expect kind what ts)
    fun t mid s' hresult hat' => ?_
  by_cases hstarts : Starts [kind] ts
  · obtain ⟨u, rest, rfl, hmem⟩ := hstarts.exists_cons
    rw [Parser.result_expect_cons (List.mem_singleton.1 hmem)] at hresult
    cases hresult
    exact h t mid.length (Nat.lt_of_succ_le hts) hat' (Nat.le_refl _)
  · rw [Parser.result_expect_of_not_starts hstarts] at hresult
    cases hresult

end Sequence

/-! ### The trace -/

section Trace

variable {α : Type} {d : Prepared} {n : Nat} {m : Walk α} {p : Parser α} {s : State}
  {ts : List Token}

/-- The state inside a rule that begins. -/
def State.opened (s : State) (rule : Rule) : State where
  current := s.current
  level := s.level + 1
  trace := s.trace ++ Span.line s.level.toNat (utf8 "BEGIN ") rule
  errors := s.errors

lemma printLine_of_pos {c : Setup} (h : 0 ≤ s.level - 1) (mark : Bytes) (rule : Rule) :
    printLine mark rule c s =
      .ok () { s with trace := s.trace ++ Span.line (s.level - 1).toNat mark rule } := by
  rw [printLine, if_neg (Int.not_lt.2 h)]

lemma enter_eq_opened {c : Setup} (h : 0 ≤ s.level) (rule : Rule) :
    enter rule c s = .ok () (s.opened rule) := by
  have hlevel : s.level + 1 - 1 = s.level := by omega
  rw [enter, printLine_of_pos (by rw [hlevel]; exact h)]
  simp only [hlevel]
  rfl

lemma Prepared.At.opened (h : d.At s ts) (rule : Rule) : d.At (s.opened rule) ts where
  suffix := h.suffix
  current := h.current
  level := Int.le_add_one h.level

/-- The end of a rule takes back the indentation of its beginning. -/
lemma Prepared.At.leave (h : d.At s ts) (htracing : d.tracing = true) (rule : Rule) (r : Reply α) :
    Cursor.leave rule d.toSetup (d.past (s.opened rule) r) =
      .ok () (d.past s ⟨[.mk rule r.spans], r.overcome, r.result⟩) := by
  have hlevel : s.level + 1 - 1 = s.level := by omega
  have hdepth : (s.level + 1).toNat = s.level.toNat + 1 := by
    have := h.level
    omega
  have hpos : 0 ≤ (d.past (s.opened rule) r).level - 1 := by
    have := h.level
    simp only [Prepared.past, State.opened]
    omega
  refine (bind_ok (printLine_of_pos hpos _ rule)).trans ?_
  simp only [Prepared.past, State.opened, hlevel, htracing, if_true, hdepth, Span.renderAll,
    Span.render, List.append_assoc, List.append_nil]
  rfl

lemma traced_eq_outcome (rule : Rule) (hat : d.At s ts)
    (h : ∀ s', d.At s' ts → m d.toSetup s' = d.outcome s' (p ts)) :
    traced rule m d.toSetup s = d.outcome s (Parser.traced rule p ts) := by
  unfold Cursor.traced
  cases htracing : d.tracing with
  | false =>
    rw [if_neg Bool.false_ne_true, h s hat]
    simp only [Prepared.outcome, Prepared.past, htracing]
    rfl
  | true =>
    rw [if_pos rfl, bind_ok (enter_eq_opened hat.level rule), ensuring, h _ (hat.opened rule)]
    cases hresult : (p ts).result with
    | error failure =>
      have htraced : (Parser.traced rule p ts).result = .error failure := hresult
      rw [Prepared.outcome_of_error hresult, Prepared.outcome_of_error htraced]
      exact (bind_ok (hat.leave htracing rule _)).trans rfl
    | ok r =>
      have htraced : (Parser.traced rule p ts).result = .ok r := hresult
      rw [Prepared.outcome_of_ok hresult, Prepared.outcome_of_ok htraced]
      exact (bind_ok (hat.leave htracing rule _)).trans rfl

lemma Follows.traced (rule : Rule) (h : Follows d n m p) :
    Follows d n (traced rule m) (Parser.traced rule p) :=
  fun _ _ hat hts => traced_eq_outcome rule hat fun _ hat' => h hat' hts

end Trace

/-! ### Recovery -/

section Recovery

variable {d : Prepared} {s : State} {t : Token} {ts : List Token} {fuel : Nat}

/-- The state with the index moved on to the text. -/
def Prepared.resumed (d : Prepared) (s : State) (ts : List Token) : State :=
  { s with current := d.body.length - ts.length }

lemma Prepared.At.resumed_eq_self (h : d.At s ts) : d.resumed s ts = s := by
  rw [Prepared.resumed, ← h.current_eq]

/-- Skipping begins behind a token, so that there is one to be asked about. -/
lemma skip_of_passed (hpassed : t :: ts <:+ d.body) (hat : d.At s ts) (hfuel : ts.length < fuel) :
    skip fuel d.toSetup s = .ok () (d.resumed s (resync (t :: ts))) := by
  induction ts generalizing t s fuel with
  | nil =>
    obtain ⟨k, rfl⟩ : ∃ k, fuel = k + 1 := ⟨fuel - 1, by omega⟩
    have hresync : resync [t] = [] := by
      simp only [resync]
      split <;> rfl
    rw [hresync, hat.resumed_eq_self]
    exact (bind_ok hat.isAtEnd_nil).trans rfl
  | cons next ts ih =>
    obtain ⟨k, rfl⟩ : ∃ k, fuel = k + 1 := ⟨fuel - 1, by omega⟩
    refine (bind_ok hat.isAtEnd_cons).trans ?_
    refine (bind_ok (previous_of_passed hpassed hat.current)).trans ?_
    rw [resync.eq_def]
    dsimp only
    split_ifs with hsemicolon hstarter
    · rw [hat.resumed_eq_self]
      rfl
    · refine (bind_ok hat.peek).trans ?_
      rw [List.headD_cons, if_pos hstarter, hat.resumed_eq_self]
      rfl
    · refine (bind_ok hat.peek).trans ?_
      rw [List.headD_cons, if_neg hstarter]
      refine (bind_ok hat.advance_cons).trans ?_
      exact ih hat.suffix hat.next (by rw [List.length_cons] at hfuel; omega)

lemma synchronize_eq_resumed (hbody : d.body ≠ []) (hat : d.At s ts) (hfuel : ts.length < fuel) :
    synchronize fuel d.toSetup s = .ok () (d.resumed s (resync ts)) := by
  cases ts with
  | nil =>
    obtain ⟨k, rfl⟩ : ∃ k, fuel = k + 1 := ⟨fuel - 1, by omega⟩
    obtain ⟨t, hadvance⟩ := hat.exists_advance_nil hbody
    refine (bind_ok hadvance).trans ((bind_ok hat.isAtEnd_nil).trans ?_)
    rw [resync, hat.resumed_eq_self]
    rfl
  | cons t ts =>
    refine (bind_ok hat.advance_cons).trans ?_
    exact skip_of_passed hat.suffix hat.next (by rw [List.length_cons] at hfuel; omega)

/-- Before the first token there is nothing that could be asked about. -/
example : synchronize 1 ⟨closed [], .recovering, false⟩ ⟨0, 0, [], []⟩ =
    .fault (.outOfRange (-1)) := rfl

/-- The state with one more mistake noted. -/
def State.noting (s : State) (e : SyntaxError) : State := { s with errors := s.errors ++ [e] }

lemma record_apply {c : Setup} (e : SyntaxError) : record e c s = .ok () (s.noting e) := rfl

lemma Prepared.At.noting (h : d.At s ts) (e : SyntaxError) : d.At (s.noting e) ts :=
  ⟨h.suffix, h.current, h.level⟩

/-- A failure that is overcome is noted, and the index moves on to where reading is resumed. -/
lemma Prepared.resumed_noting_past {α β : Type} {r : Reply α} (failure : Failure) (b : β)
    (ts : List Token) :
    d.resumed ((d.past s r).noting (.ofFailure d.body.length d.last failure)) ts =
      d.past s ⟨r.spans, r.overcome ++ [failure], .ok (b, ts)⟩ := by
  simp [Prepared.resumed, State.noting, Prepared.past, left]

/-- A broken declaration that began in front of a token is skipped alike. -/
lemma recovering_eq_outcome {m : Walk Stmt} {p : Parser Stmt} (hat : d.At s (t :: ts))
    (hm : m d.toSetup s = d.outcome s (p (t :: ts))) (hnarrows : left (p (t :: ts)) <:+ t :: ts)
    (hfuel : (t :: ts).length < fuel) :
    recovering fuel m d.toSetup s = d.outcome s (Grammar.recovering d.mode p (t :: ts)) := by
  have hafter := hat.past hnarrows
  have hbody : d.body ≠ [] := by
    intro hnil
    have hsuffix := hat.suffix
    rw [hnil, List.suffix_nil] at hsuffix
    cases hsuffix
  rw [recovering, hm]
  unfold Grammar.recovering
  rcases hreply : p (t :: ts) with ⟨spans, overcome, failure | ⟨a, rest⟩⟩
  · rw [hreply] at hafter hnarrows
    cases d.mode with
    | failFast => rfl
    | recovering =>
      have hunread : failure.unread.length < fuel :=
        Nat.lt_of_le_of_lt hnarrows.length_le hfuel
      have hnoted := hafter.noting (.ofFailure d.body.length d.last failure)
      have hresumed := synchronize_eq_resumed hbody hnoted hunread
      rw [Prepared.resumed_noting_past failure (none : Option Stmt)] at hresumed
      refine (bind_ok (record_apply _)).trans ?_
      exact (bind_ok hresumed).trans rfl
  · rfl

/-- A part that takes a token moves the index on. -/
lemma progressing_eq_outcome {α : Type} {m : Walk α} {p : Parser α} (hat : d.At s (t :: ts))
    (hm : m d.toSetup s = d.outcome s (p (t :: ts))) (hadvances : Advances p) :
    progressing m d.toSetup s = d.outcome s (p (t :: ts)) := by
  refine (bind_ok position_apply).trans ((bind_ok hat.isAtEnd_cons).trans ?_)
  cases hresult : (p (t :: ts)).result with
  | error failure =>
    rw [Prepared.outcome_of_error hresult] at hm ⊢
    exact bind_failed hm
  | ok r =>
    obtain ⟨a, rest⟩ := r
    rw [Prepared.outcome_of_ok hresult] at hm ⊢
    refine (bind_ok hm).trans ((bind_ok position_apply).trans ?_)
    have hmoved : s.current < (d.past s (p (t :: ts))).current := by
      have hshorter := (hadvances hresult).length_le
      have hcurrent := hat.current
      rw [List.length_cons] at hcurrent
      rw [Prepared.current_past, left_of_ok hresult]
      omega
    rw [decide_eq_false (Nat.not_le.2 hmoved)]
    rfl

end Recovery

end Cursor

end LoxScript
