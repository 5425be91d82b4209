import LoxScript.Proofs.Grammar.Fuel
import LoxScript.Proofs.Grammar.Incomplete

/-!
# What reading knows before it takes a token

Reading looks at one token at a time.  As long as a token has not been taken, nothing behind it
plays a part: another text that goes on with the same token is read in the same way up to there.  If
the other text ends instead, it is read in the same way too, for the end of a text is refused
wherever the token is.

So a mistake that is blamed on a token stays the same whatever follows it, and the tokens before it
are the front of some program.  A wrong target of an assignment is different, for its mistake is
found only behind the token to blame; still no text that goes on with this token is a program.
-/

namespace LoxScript.Grammar

open LoxScript.Parser

/-! ### Answers within the text -/

/-- All that the parser answers with is left of the text. -/
def Within {α : Type} (p : Parser α) : Prop :=
  ∀ ts, (∀ a mid, (p ts).result = .ok (a, mid) → mid <:+ ts) ∧
    ∀ f, (p ts).result = .error f → f.blamed <:+ ts ∧ f.unread <:+ ts

lemma Within.bind {α β : Type} {p : Parser α} {f : α → Parser β} (hp : Within p)
    (hf : ∀ a, Within (f a)) : Within (p >>= f) := by
  intro ts
  constructor
  · intro b rest h
    obtain ⟨a, mid, hmid, hrest⟩ := result_bind_eq_ok.1 h
    exact ((hf a mid).1 b rest hrest).trans ((hp ts).1 a mid hmid)
  · intro failure h
    rcases result_bind_eq_error.1 h with herror | ⟨a, mid, hmid, herror⟩
    · exact (hp ts).2 failure herror
    · have hsuffix := (hp ts).1 a mid hmid
      obtain ⟨hblamed, hunread⟩ := (hf a mid).2 failure herror
      exact ⟨hblamed.trans hsuffix, hunread.trans hsuffix⟩

lemma within_pure {α : Type} (a : α) : Within (pure a : Parser α) := by
  refine fun ts => ⟨?_, nofun⟩
  rintro b mid ⟨⟩
  exact List.suffix_refl ts

lemma within_accept? (kinds : List Kind) : Within (accept? kinds) := by
  intro ts
  constructor
  · intro o mid h
    have hsuffix := narrows_accept? kinds ts
    rwa [left_of_ok h] at hsuffix
  · intro f h
    exact absurd h result_accept?_ne_error

lemma within_expect (kind : Kind) (what : Expected) : Within (expect kind what) := by
  intro ts
  by_cases hstarts : Starts [kind] ts
  · obtain ⟨t, mid, rfl, hkind⟩ := hstarts.exists_cons
    rw [result_expect_cons (List.mem_singleton.1 hkind)]
    constructor
    · rintro a mid' ⟨⟩
      exact List.suffix_cons _ _
    · rintro f ⟨⟩
  · rw [result_expect_of_not_starts hstarts]
    constructor
    · rintro a mid ⟨⟩
    · rintro f ⟨⟩
      exact ⟨List.suffix_refl ts, List.suffix_refl ts⟩

/-! ### Two texts with the same token ahead -/

variable (ends : Prop) (t : Token) (rest tail : List Token)

/-- An answer on a text that goes on with `t :: rest`, and one on a text that goes on with `tail`
instead.  They are the same unless the token was taken.  If `ends` allows it, the second may have
come to the end of its text where the first blames the token. -/
structure Twin {α : Type} (r r' : Except Failure (α × List Token)) : Prop where
  ok : ∀ a v, r = .ok (a, v ++ t :: rest) → r' = .ok (a, v ++ tail)
  expected : ∀ what v, r = .error ⟨.expected what, v ++ t :: rest, v ++ t :: rest⟩ →
    r' = .error ⟨.expected what, v ++ tail, v ++ tail⟩ ∨ ends ∧ v = [] ∧ tail = [] ∧ Spent r'
  target : ∀ unread, r = .error ⟨.invalidTarget, t :: rest, unread⟩ → tail ≠ [] →
    ∃ f, r' = .error f
  retained : ∀ u v, r = .error ⟨.invalidTarget, u ++ t :: rest, v ++ t :: rest⟩ → tail ≠ [] →
    r' = .error ⟨.invalidTarget, u ++ tail, v ++ tail⟩

/-- The parsers answer alike as long as the token is not taken. -/
structure Tracks {α : Type} (p q : Parser α) : Prop where
  within : Within p
  spent : Spent (q []).result
  twin : ∀ w, Twin ends t rest tail (p (w ++ t :: rest)).result (q (w ++ tail)).result

variable {ends t rest tail}

section Twin

variable {α : Type} {r r' : Except Failure (α × List Token)}

lemma twin_ok (a : α) (w : List Token) :
    Twin ends t rest tail (.ok (a, w ++ t :: rest)) (.ok (a, w ++ tail)) := by
  refine ⟨fun b v h => ?_, nofun, nofun, nofun⟩
  obtain ⟨rfl, hv⟩ := Prod.mk.inj (Except.ok.inj h)
  rw [List.append_cancel_right hv]

lemma twin_expected (what : Expected) (w : List Token) :
    Twin (α := α) ends t rest tail (.error ⟨.expected what, w ++ t :: rest, w ++ t :: rest⟩)
      (.error ⟨.expected what, w ++ tail, w ++ tail⟩) := by
  refine ⟨nofun, fun what' v h => .inl ?_, nofun, nofun⟩
  obtain ⟨hwhat, hv, -⟩ := Failure.mk.inj (Except.error.inj h)
  rw [hwhat, List.append_cancel_right hv]

lemma not_append_cons_suffix (v : List Token) : ¬ v ++ t :: rest <:+ rest := by
  intro hsuffix
  have hlength := hsuffix.length_le
  simp only [List.length_append, List.length_cons] at hlength
  omega

/-- Answers that have taken the token have nothing to keep to. -/
lemma Twin.of_suffix (hok : ∀ a mid, r = .ok (a, mid) → mid <:+ rest)
    (herror : ∀ f, r = .error f → f.unread <:+ rest)
    (htarget : ∀ unread, r = .error ⟨.invalidTarget, t :: rest, unread⟩ → tail ≠ [] →
      ∃ f, r' = .error f) : Twin ends t rest tail r r' := by
  refine ⟨fun a v h => ?_, fun what v h => ?_, htarget, fun u v h => ?_⟩
  · exact absurd (hok a _ h) (not_append_cons_suffix v)
  · exact absurd (herror _ h) (not_append_cons_suffix v)
  · exact absurd (herror _ h) (not_append_cons_suffix v)

/-- A parser that has to take the token fails on it, and may come to the end of a text that has
none. -/
lemma Twin.of_spent (hends : ends) (hok : ∀ a mid, r = .ok (a, mid) → mid <:+ rest)
    (herror : ∀ f, r = .error f → f.unread <:+ t :: rest) (hspent : Spent r') :
    Twin ends t rest [] r r' := by
  refine ⟨fun a v h => ?_, fun what v h => .inr ⟨hends, ?_, rfl, hspent⟩,
    fun _ _ hne => absurd rfl hne, fun _ _ _ hne => absurd rfl hne⟩
  · exact absurd (hok a _ h) (not_append_cons_suffix v)
  · have hlength := (herror _ h).length_le
    simp only [List.length_append, List.length_cons] at hlength
    exact List.length_eq_zero_iff.1 (by omega)

lemma Twin.mono (h : Twin False t rest tail r r') : Twin ends t rest tail r r' := by
  refine ⟨h.ok, fun what v hr => .inl ?_, h.target, h.retained⟩
  exact (h.expected what v hr).resolve_right fun hfalse => hfalse.1

end Twin

namespace Tracks

variable {α β : Type} {p q : Parser α} {f g : α → Parser β}

lemma mono (h : Tracks False t rest tail p q) : Tracks ends t rest tail p q :=
  ⟨h.within, h.spent, fun w => (h.twin w).mono⟩

/-- What comes after a part that has not taken the token has it before it. -/
lemma bind (hp : Tracks ends t rest tail p q) (hf : ∀ a, Tracks ends t rest tail (f a) (g a)) :
    Tracks ends t rest tail (p >>= f) (q >>= g) := by
  refine ⟨hp.within.bind fun a => (hf a).within, hp.spent.bind fun a => (hf a).spent,
    fun w => ⟨fun b v h => ?_, fun what v h => ?_, fun unread h htail => ?_,
      fun u v h htail => ?_⟩⟩
  · obtain ⟨a, mid, hmid, hrest⟩ := result_bind_eq_ok.1 h
    have hsuffix := ((hf a).within mid).1 b _ hrest
    obtain ⟨u, rfl⟩ := (List.suffix_append v (t :: rest)).trans hsuffix
    rw [result_bind_of_ok ((hp.twin w).ok a u hmid)]
    exact ((hf a).twin u).ok b v hrest
  · rcases result_bind_eq_error.1 h with herror | ⟨a, mid, hmid, herror⟩
    · rcases (hp.twin w).expected what v herror with hsame | ⟨hends, hv, htail, hspent⟩
      · exact .inl (result_bind_of_error hsame)
      · exact .inr ⟨hends, hv, htail, hspent.bind fun a => (hf a).spent⟩
    · have hsuffix := (((hf a).within mid).2 _ herror).2
      obtain ⟨u, rfl⟩ := (List.suffix_append v (t :: rest)).trans hsuffix
      rw [result_bind_of_ok ((hp.twin w).ok a u hmid)]
      exact ((hf a).twin u).expected what v herror
  · rcases result_bind_eq_error.1 h with herror | ⟨a, mid, hmid, herror⟩
    · obtain ⟨failure, hfailure⟩ := (hp.twin w).target unread herror htail
      exact ⟨failure, result_bind_of_error hfailure⟩
    · obtain ⟨u, rfl⟩ := (((hf a).within mid).2 _ herror).1
      rw [result_bind_of_ok ((hp.twin w).ok a u hmid)]
      exact ((hf a).twin u).target unread herror htail
  · rcases result_bind_eq_error.1 h with herror | ⟨a, mid, hmid, herror⟩
    · exact result_bind_of_error ((hp.twin w).retained u v herror htail)
    · have hsuffix := (((hf a).within mid).2 _ herror).2
      obtain ⟨x, rfl⟩ := (List.suffix_append v (t :: rest)).trans hsuffix
      rw [result_bind_of_ok ((hp.twin w).ok a x hmid)]
      exact ((hf a).twin x).retained u v herror htail

lemma pure (a : α) : Tracks ends t rest tail (Pure.pure a : Parser α) (Pure.pure a) :=
  ⟨within_pure a, spent_ok a, fun w => twin_ok a w⟩

lemma fail (what : Expected) :
    Tracks ends t rest tail (Parser.fail what : Parser α) (Parser.fail what) := by
  refine ⟨fun ts => ⟨nofun, ?_⟩, .inr ⟨_, rfl, rfl⟩, fun w => twin_expected what w⟩
  rintro f ⟨⟩
  exact ⟨List.suffix_refl ts, List.suffix_refl ts⟩

end Tracks

/-! ### Parsers that look at the next token -/

/-- The text ends, or goes on with the token. -/
def Ahead (t : Token) (tail : List Token) : Prop :=
  ∀ u ∈ tail.head?, u = t

lemma ahead_nil (t : Token) : Ahead t [] := by
  intro u hu
  cases hu

lemma ahead_cons (t : Token) (rest : List Token) : Ahead t (t :: rest) := by
  intro u hu
  exact (Option.some.inj hu).symm

lemma Ahead.eq_nil_or_cons (h : Ahead t tail) : tail = [] ∨ ∃ rest', tail = t :: rest' := by
  cases tail with
  | nil => exact .inl rfl
  | cons u rest' => exact .inr ⟨rest', by rw [h u rfl]⟩

/-- What the token is refused for, the text is refused for. -/
lemma Ahead.not_starts (h : Ahead t tail) {kinds : List Kind} (hkind : t.kind ∉ kinds) :
    ¬ Starts kinds tail := by
  rintro ⟨u, hu, hmem⟩
  rw [h u hu] at hmem
  exact hkind hmem

lemma tracks_accept? (htail : Ahead t tail) (kinds : List Kind) :
    Tracks ends t rest tail (accept? kinds) (accept? kinds) := by
  refine ⟨within_accept? kinds, spent_ok none, fun w => ?_⟩
  cases w with
  | nil =>
    rw [List.nil_append, List.nil_append]
    by_cases hkind : t.kind ∈ kinds
    · rw [result_accept?_cons hkind]
      refine Twin.of_suffix ?_ nofun nofun
      rintro a mid ⟨⟩
      exact List.suffix_refl _
    · rw [result_accept?_of_not_starts (mt starts_cons.1 hkind),
        result_accept?_of_not_starts (htail.not_starts hkind)]
      exact twin_ok none []
  | cons u w =>
    rw [List.cons_append, List.cons_append]
    by_cases hkind : u.kind ∈ kinds
    · rw [result_accept?_cons hkind, result_accept?_cons hkind]
      exact twin_ok (some u) w
    · rw [result_accept?_of_not_starts (mt starts_cons.1 hkind),
        result_accept?_of_not_starts (mt starts_cons.1 hkind)]
      exact twin_ok none (u :: w)

lemma tracks_expect (htail : Ahead t tail) (kind : Kind) (what : Expected) :
    Tracks ends t rest tail (expect kind what) (expect kind what) := by
  refine ⟨within_expect kind what, .inr ⟨_, rfl, rfl⟩, fun w => ?_⟩
  cases w with
  | nil =>
    rw [List.nil_append, List.nil_append]
    by_cases hkind : t.kind ∈ [kind]
    · rw [result_expect_cons (List.mem_singleton.1 hkind)]
      refine Twin.of_suffix ?_ nofun nofun
      rintro a mid ⟨⟩
      exact List.suffix_refl _
    · rw [result_expect_of_not_starts (mt starts_cons.1 hkind),
        result_expect_of_not_starts (htail.not_starts hkind)]
      exact twin_expected what []
  | cons u w =>
    rw [List.cons_append, List.cons_append]
    by_cases hkind : u.kind ∈ [kind]
    · rw [result_expect_cons (List.mem_singleton.1 hkind),
        result_expect_cons (List.mem_singleton.1 hkind)]
      exact twin_ok u w
    · rw [result_expect_of_not_starts (mt starts_cons.1 hkind),
        result_expect_of_not_starts (mt starts_cons.1 hkind)]
      exact twin_expected what (u :: w)

/-- Answering alike passes from parts to wholes. -/
lemma sequential_tracks (htail : Ahead t tail) :
    Sequential fun {α} (p q : Parser α) => Tracks ends t rest tail p q where
  pure := Tracks.pure
  bind := Tracks.bind
  traced _ h := ⟨h.within, h.spent, h.twin⟩
  accept? := tracks_accept? htail
  expect := tracks_expect htail
  fail := Tracks.fail

/-! ### Assignments -/

lemma result_afterTarget_of_not_starts {fuel : Nat} {target : Expr} {ts : List Token}
    (h : ¬ Starts [.sign .equal] ts) : (afterTarget fuel target ts).result = .ok (target, ts) := by
  rw [afterTarget, result_bind_of_ok result_unread,
    result_bind_of_ok (result_accept?_of_not_starts h)]
  rfl

/-- The last step of an assignment, when its value has been read: it needs a name for its target. -/
def assignTo (target : Expr) (before : List Token) (value : Expr) : Parser Expr :=
  match target with
  | .name token => pure (.assign token value)
  | _ => failAtTarget before

lemma result_afterTarget_cons {fuel : Nat} {target : Expr} {equal : Token} {ts : List Token}
    (h : equal.kind ∈ [.sign .equal]) :
    (afterTarget fuel target (equal :: ts)).result =
      ((assignment fuel >>= assignTo target (equal :: ts)) ts).result := by
  rw [afterTarget, result_bind_of_ok result_unread, result_bind_of_ok (result_accept?_cons h)]
  rfl

/-- The target is no name, so that nothing can be assigned to it. -/
def IsWrong (target : Expr) : Prop :=
  ∀ before, assignTo target before = fun _ => failAtTarget before

lemma assignTo_cases (target : Expr) :
    (∃ token, ∀ before, assignTo target before = fun value => pure (.assign token value)) ∨
      IsWrong target := by
  cases target with
  | name token => exact .inl ⟨token, fun before => rfl⟩
  | literal | grouping | unary | binary | assign | missing => exact .inr fun before => rfl

section AfterTarget

variable {fuel : Nat} (h : Within (assignment fuel)) {target : Expr} {equal : Token}
  (hequal : equal.kind ∈ [.sign .equal]) {mid : List Token}

include h hequal

/-- An assignment that succeeds leaves a part of what follows its sign. -/
lemma suffix_of_afterTarget_ok {e : Expr} {rest : List Token}
    (hresult : (afterTarget fuel target (equal :: mid)).result = .ok (e, rest)) : rest <:+ mid := by
  rw [result_afterTarget_cons hequal] at hresult
  obtain ⟨value, mid', hvalue, hlast⟩ := result_bind_eq_ok.1 hresult
  rcases assignTo_cases target with ⟨token, hassign⟩ | hwrong
  · rw [hassign] at hlast
    cases hlast
    exact (h mid).1 value rest hvalue
  · rw [hwrong] at hlast
    cases hlast

/-- An assignment that fails blames what follows its sign, or the sign if its target is wrong. -/
lemma suffix_of_afterTarget_error {f : Failure}
    (hresult : (afterTarget fuel target (equal :: mid)).result = .error f) :
    f.unread <:+ mid ∧ (f.blamed <:+ mid ∨ f.blamed = equal :: mid ∧ IsWrong target) := by
  rw [result_afterTarget_cons hequal] at hresult
  rcases result_bind_eq_error.1 hresult with herror | ⟨value, mid', hvalue, hlast⟩
  · obtain ⟨hblamed, hunread⟩ := (h mid).2 f herror
    exact ⟨hunread, .inl hblamed⟩
  · rcases assignTo_cases target with ⟨token, hassign⟩ | hwrong
    · rw [hassign] at hlast
      cases hlast
    · rw [hwrong] at hlast
      cases hlast
      exact ⟨(h mid).1 value mid' hvalue, .inr ⟨rfl, hwrong⟩⟩

omit h in
/-- With a wrong target, an assignment fails whatever its value. -/
lemma exists_error_of_isWrong (hwrong : IsWrong target) (mid : List Token) :
    ∃ f, (afterTarget fuel target (equal :: mid)).result = .error f := by
  rw [result_afterTarget_cons hequal, hwrong]
  cases hvalue : (assignment fuel mid).result with
  | error f => exact ⟨f, result_bind_of_error hvalue⟩
  | ok r => exact ⟨_, result_bind_of_ok hvalue⟩

end AfterTarget

lemma within_afterTarget {fuel : Nat} (h : Within (assignment fuel)) (target : Expr) :
    Within (afterTarget fuel target) := by
  intro ts
  by_cases hstarts : Starts [.sign .equal] ts
  · obtain ⟨equal, mid, rfl, hkind⟩ := hstarts.exists_cons
    have hcons := List.suffix_cons equal mid
    refine ⟨fun e rest hok => (suffix_of_afterTarget_ok h hkind hok).trans hcons,
      fun f herror => ?_⟩
    obtain ⟨hunread, hblamed | ⟨hblamed, -⟩⟩ := suffix_of_afterTarget_error h hkind herror
    · exact ⟨hblamed.trans hcons, hunread.trans hcons⟩
    · exact ⟨hblamed ▸ List.suffix_refl _, hunread.trans hcons⟩
  · rw [result_afterTarget_of_not_starts hstarts]
    exact within_pure target ts

/-- An assignment whose sign is the token ahead has taken it, and no text with the token succeeds if
the target is wrong. -/
lemma twin_afterTarget_nil (htail : Ahead t tail) {fuel : Nat} (h : Within (assignment fuel))
    (target : Expr) :
    Twin ends t rest tail (afterTarget fuel target (t :: rest)).result
      (afterTarget fuel target tail).result := by
  by_cases hkind : t.kind ∈ [.sign .equal]
  · refine Twin.of_suffix (fun e mid hok => suffix_of_afterTarget_ok h hkind hok)
      (fun f herror => (suffix_of_afterTarget_error h hkind herror).1) fun unread herror hne => ?_
    obtain ⟨rest', rfl⟩ := htail.eq_nil_or_cons.resolve_left hne
    obtain ⟨-, hblamed | ⟨-, hwrong⟩⟩ := suffix_of_afterTarget_error h hkind herror
    · exact absurd hblamed (not_append_cons_suffix [])
    · exact exists_error_of_isWrong hkind hwrong rest'
  · rw [result_afterTarget_of_not_starts (mt starts_cons.1 hkind),
      result_afterTarget_of_not_starts (htail.not_starts hkind)]
    exact twin_ok target []

/-- An assignment whose sign comes earlier is read alike up to its last step, and if its target is
wrong, it is not the token ahead that is blamed for it. -/
lemma twin_afterTarget_cons {fuel : Nat}
    (h : Tracks False t rest tail (assignment fuel) (assignment fuel)) (target : Expr)
    {equal : Token} (hequal : equal.kind ∈ [.sign .equal]) (w : List Token) :
    Twin False t rest tail (afterTarget fuel target (equal :: (w ++ t :: rest))).result
      (afterTarget fuel target (equal :: (w ++ tail))).result := by
  rw [result_afterTarget_cons hequal, result_afterTarget_cons hequal]
  rcases assignTo_cases target with ⟨token, hassign⟩ | hwrong
  · rw [hassign, hassign]
    exact (h.bind fun value => Tracks.pure _).twin w
  · rw [hwrong, hwrong]
    refine ⟨fun e v hok => ?_, fun what v herror => .inl ?_, fun unread herror hne => ?_,
      fun u v herror hne => ?_⟩
    · obtain ⟨value, mid, -, hlast⟩ := result_bind_eq_ok.1 hok
      cases hlast
    · rcases result_bind_eq_error.1 herror with hvalue | ⟨value, mid, -, hlast⟩
      · have hsame := ((h.twin w).expected what v hvalue).resolve_right fun hfalse => hfalse.1
        exact result_bind_of_error hsame
      · cases hlast
    · cases hvalue : (assignment fuel (w ++ tail)).result with
      | error f => exact ⟨f, result_bind_of_error hvalue⟩
      | ok r => exact ⟨_, result_bind_of_ok hvalue⟩
    · rcases result_bind_eq_error.1 herror with hvalue | ⟨value, mid, hvalue, hlast⟩
      · exact result_bind_of_error ((h.twin w).retained u v hvalue hne)
      · obtain ⟨-, hu, rfl⟩ := Failure.mk.inj (Except.error.inj hlast)
        obtain rfl : equal :: w = u := List.append_cancel_right hu
        exact result_bind_of_ok ((h.twin w).ok value v hvalue)

lemma tracks_afterTarget (htail : Ahead t tail) {fuel : Nat}
    (h : Tracks False t rest tail (assignment fuel) (assignment fuel)) (target : Expr) :
    Tracks False t rest tail (afterTarget fuel target) (afterTarget fuel target) := by
  refine ⟨within_afterTarget h.within target, ?_, fun w => ?_⟩
  · rw [result_afterTarget_of_not_starts not_starts_nil]
    exact spent_ok target
  · cases w with
    | nil => exact twin_afterTarget_nil htail h.within target
    | cons u w =>
      rw [List.cons_append, List.cons_append]
      by_cases hkind : u.kind ∈ [.sign .equal]
      · exact twin_afterTarget_cons h target hkind w
      · rw [result_afterTarget_of_not_starts (mt starts_cons.1 hkind),
          result_afterTarget_of_not_starts (mt starts_cons.1 hkind)]
        exact twin_ok target (u :: w)

/-- Expressions are read alike up to the token ahead, and so are the two categories they go
through. -/
lemma tracks_expression_assignment_unary (htail : Ahead t tail) (fuel : Nat) :
    Tracks False t rest tail (expression fuel) (expression fuel) ∧
      Tracks False t rest tail (assignment fuel) (assignment fuel) ∧
        Tracks False t rest tail (unary fuel) (unary fuel) := by
  have hsequential : Sequential fun {α} (p q : Parser α) => Tracks False t rest tail p q :=
    sequential_tracks htail
  refine hsequential.phrasal.expression_assignment_unary (fun fuel hunary hassignment => ?_) fuel
  have hequality := hsequential.phrasal.equality hunary fuel
  have hboth := hequality.bind (tracks_afterTarget htail hassignment)
  rw [assignment]
  exact hsequential.traced _ hboth

lemma tracks_expression (htail : Ahead t tail) (fuel : Nat) :
    Tracks False t rest tail (expression fuel) (expression fuel) :=
  (tracks_expression_assignment_unary htail fuel).1

/-! ### Statements -/

/-- An expression with a semicolon, when its first token is known. -/
def startedBy (fuel : Nat) (start : Token) : Parser Stmt := do
  let e ← expression fuel
  let _ ← expect (.sign .semicolon) .semicolonAfterExpression
  pure (.expression start e)

lemma result_expressionStatement (fuel : Nat) (ts : List Token) :
    (expressionStatement fuel ts).result =
      (startedBy fuel (ts.headD (Token.atEnd 1)) ts).result := by
  rw [expressionStatement, result_traced, result_bind_of_ok result_unread]
  rfl

lemma tracks_expressionStatement (htail : Ahead t tail) (fuel : Nat) :
    Tracks True t rest tail (expressionStatement fuel) (expressionStatement fuel) := by
  have hstarted : ∀ start, Tracks True t rest tail (startedBy fuel start) (startedBy fuel start) :=
    fun start => (tracks_expression htail fuel).mono.bind fun e =>
      (tracks_expect htail _ _).bind fun _ => Tracks.pure _
  have hwithin : Within (expressionStatement fuel) := by
    intro ts
    rw [result_expressionStatement]
    exact (hstarted _).within ts
  have hspent : Spent (expressionStatement fuel []).result := by
    rw [result_expressionStatement]
    exact (hstarted _).spent
  refine ⟨hwithin, hspent, fun w => ?_⟩
  cases w with
  | cons u w =>
    rw [result_expressionStatement, result_expressionStatement]
    exact (hstarted u).twin (u :: w)
  | nil =>
    rcases htail.eq_nil_or_cons with rfl | ⟨rest', rfl⟩
    · exact Twin.of_spent trivial (fun s mid hok => advances_expressionStatement fuel hok)
        (fun f herror => ((hwithin _).2 f herror).2) hspent
    · rw [result_expressionStatement, result_expressionStatement]
      exact (hstarted t).twin []

lemma tracks_recovering {p q : Parser Stmt} (h : Tracks ends t rest tail p q) :
    Tracks ends t rest tail (recovering .failFast p) (recovering .failFast q) := by
  refine ⟨fun ts => ⟨fun o mid hok => ?_, fun f herror => ?_⟩, h.spent.recovering,
    fun w => ⟨fun o v hok => ?_, fun what v herror => ?_, fun unread herror hne => ?_,
      fun u v herror hne => ?_⟩⟩
  · obtain ⟨s, rfl, hs⟩ := result_recovering_failFast.1 hok
    exact (h.within ts).1 s mid hs
  · exact (h.within ts).2 f (result_recovering_failFast_eq_error.1 herror)
  · obtain ⟨s, rfl, hs⟩ := result_recovering_failFast.1 hok
    exact result_recovering_failFast.2 ⟨s, rfl, (h.twin w).ok s v hs⟩
  · rw [result_recovering_failFast_eq_error] at herror ⊢
    refine ((h.twin w).expected what v herror).imp_right ?_
    rintro ⟨hends, hv, hnil, hspent⟩
    exact ⟨hends, hv, hnil, hspent.recovering⟩
  · obtain ⟨f, hf⟩ :=
      (h.twin w).target unread (result_recovering_failFast_eq_error.1 herror) hne
    exact ⟨f, result_recovering_failFast_eq_error.2 hf⟩
  · rw [result_recovering_failFast_eq_error] at herror ⊢
    exact (h.twin w).retained u v herror hne

/-- A declaration and then others. -/
def someDeclarations (mode : Mode) (closing : List Kind) (fuel : Nat) : Parser (List Stmt) := do
  let first ← declaration mode fuel
  let others ← declarations mode closing fuel
  pure (first.toList ++ others)

section Declarations

variable {mode : Mode} {closing : List Kind} {fuel : Nat} {next : Token} {ts mid : List Token}

lemma declarations_nil (mode : Mode) (closing : List Kind) (fuel : Nat) :
    declarations mode closing fuel [] = ⟨[], [], .ok ([], [])⟩ := by
  cases fuel with
  | zero => rfl
  | succ fuel => rfl

/-- Where no token of a closing kind comes next, there are more declarations. -/
lemma declarations_cons (h : next.kind ∉ closing) :
    declarations mode closing (fuel + 1) (next :: ts) =
      someDeclarations mode closing fuel (next :: ts) := by
  rw [declarations, bind_of_ok result_unread]
  dsimp only
  rw [if_neg h]
  rfl

lemma result_declarations_cons (h : next.kind ∉ closing) :
    (declarations mode closing (fuel + 1) (next :: ts)).result =
      (someDeclarations mode closing fuel (next :: ts)).result := by
  rw [declarations_cons h]

lemma declarations_of_mem (h : next.kind ∈ closing) :
    declarations mode closing (fuel + 1) (next :: ts) = ⟨[], [], .ok ([], next :: ts)⟩ := by
  rw [declarations, bind_of_ok result_unread]
  dsimp only
  rw [if_pos h]
  rfl

lemma result_declarations_of_mem (h : next.kind ∈ closing) :
    (declarations mode closing (fuel + 1) (next :: ts)).result = .ok ([], next :: ts) := by
  rw [declarations_of_mem h]

/-- What several declarations overcome is what the first one overcomes, and then the others. -/
lemma overcome_someDeclarations {o : Option Stmt}
    (h : (declaration mode fuel ts).result = .ok (o, mid)) :
    (someDeclarations mode closing fuel ts).overcome =
      (declaration mode fuel ts).overcome ++ (declarations mode closing fuel mid).overcome := by
  rw [someDeclarations, bind_of_ok h, overcome_bind_pure]

end Declarations

/-- Where declarations go on with the token ahead, its first declaration has to take it; where the
text ends, there are no more of them. -/
lemma tracks_declarations_succ (htail : Ahead t tail) {closing : List Kind} {fuel : Nat}
    (hfirst : Tracks True t rest tail (declaration .failFast fuel) (declaration .failFast fuel))
    (hothers : Tracks True t rest tail (declarations .failFast closing fuel)
      (declarations .failFast closing fuel)) :
    Tracks True t rest tail (declarations .failFast closing (fuel + 1))
      (declarations .failFast closing (fuel + 1)) := by
  have hsome : Tracks True t rest tail (someDeclarations .failFast closing fuel)
      (someDeclarations .failFast closing fuel) :=
    hfirst.bind fun first => hothers.bind fun others => Tracks.pure _
  have hnil : (declarations .failFast closing (fuel + 1) []).result = .ok ([], []) := rfl
  refine ⟨fun ts => ?_, hnil ▸ spent_ok [], fun w => ?_⟩
  · cases ts with
    | nil =>
      rw [hnil]
      exact within_pure ([] : List Stmt) []
    | cons next ts =>
      by_cases hnext : next.kind ∈ closing
      · rw [result_declarations_of_mem hnext]
        exact within_pure ([] : List Stmt) (next :: ts)
      · rw [result_declarations_cons hnext]
        exact hsome.within (next :: ts)
  · cases w with
    | cons u w =>
      rw [List.cons_append, List.cons_append]
      by_cases hu : u.kind ∈ closing
      · rw [result_declarations_of_mem hu, result_declarations_of_mem hu]
        exact twin_ok [] (u :: w)
      · rw [result_declarations_cons hu, result_declarations_cons hu]
        exact hsome.twin (u :: w)
    | nil =>
      rw [List.nil_append, List.nil_append]
      by_cases ht : t.kind ∈ closing
      · rw [result_declarations_of_mem ht]
        rcases htail.eq_nil_or_cons with rfl | ⟨rest', rfl⟩
        · exact twin_ok [] []
        · rw [result_declarations_of_mem ht]
          exact twin_ok [] []
      · rw [result_declarations_cons ht]
        rcases htail.eq_nil_or_cons with rfl | ⟨rest', rfl⟩
        · refine Twin.of_spent trivial (fun p mid hok => ?_)
            (fun f herror => ((hsome.within _).2 f herror).2) (hnil ▸ spent_ok [])
          obtain ⟨first, mid', hmid', hlater⟩ := result_bind_eq_ok.1 hok
          have hlast := ((hothers.bind fun others => Tracks.pure _).within mid').1 p mid hlater
          exact hlast.trans (advances_declaration .failFast fuel hmid')
        · rw [result_declarations_cons ht]
          exact hsome.twin []

/-- Programs are read alike up to the token ahead. -/
lemma tracks_declarations (htail : Ahead t tail) (closing : List Kind) (fuel : Nat) :
    Tracks True t rest tail (declarations .failFast closing fuel)
      (declarations .failFast closing fuel) :=
  ((sequential_tracks htail).statement_declaration_declarations .failFast .failFast
    (fun fuel => (tracks_expression htail fuel).mono) (tracks_expressionStatement htail)
    tracks_recovering (fun _ _ => tracks_declarations_succ htail) fuel).2.2 closing

/-- Two texts with the same token ahead are read alike, whatever their lengths. -/
lemma twin_program (htail : Ahead t tail) (w : List Token) :
    Twin True t rest tail (program .failFast (w ++ t :: rest)).result
      (program .failFast (w ++ tail)).result := by
  have hfirst : 3 * (w ++ t :: rest).length + 6 ≤
      3 * ((w ++ t :: rest).length + (w ++ tail).length) + 6 := by omega
  have hsecond : 3 * (w ++ tail).length + 6 ≤
      3 * ((w ++ t :: rest).length + (w ++ tail).length) + 6 := by omega
  rw [program_eq_declarations .failFast hfirst, program_eq_declarations .failFast hsecond]
  exact (tracks_declarations htail [] _).twin w

/-! ### The first impossible token -/

lemma kind_ne_of_mem_fill {line : Int} {fillers : List Filler} {t : Token}
    (h : t ∈ fill line fillers) : t.kind ≠ .endOfInput := by
  obtain ⟨x, -, rfl⟩ := List.mem_map.1 h
  cases x <;> exact nofun

/-- A text that is read to its end can be continued until nothing is missing. -/
lemma exists_continuation {w : List Token} (hw : ∀ t ∈ w, t.kind ≠ .endOfInput)
    (h : Spent (program .failFast w).result) :
    ∃ us, (∀ t ∈ us, t.kind ≠ .endOfInput) ∧
      ((∃ p, (readTokens .failFast (w ++ us)).result = .ok p) ∨
        ∃ e, (readTokens .failFast (w ++ us)).result = .error (.first e) ∧
          e.cause = .invalidTarget) := by
  obtain ⟨fillers, hfillers⟩ := exists_fillers_of_spent 1 h
  have hus : ∀ t ∈ fill 1 fillers, t.kind ≠ .endOfInput := fun t ht => kind_ne_of_mem_fill ht
  have hbody : body (w ++ fill 1 fillers) = w ++ fill 1 fillers :=
    body_of_forall_ne (List.forall_mem_append.2 ⟨hw, hus⟩)
  refine ⟨fill 1 fillers, hus, ?_⟩
  rcases hfillers with ⟨p, hp⟩ | ⟨f, hf, hcause⟩
  · refine .inl ⟨p, result_readTokens_failFast_eq_ok.2 ?_⟩
    rw [hbody, hp]
  · refine .inr ⟨_, result_readTokens_failFast_eq_error.2 ⟨f, ?_, rfl⟩, hcause⟩
    rw [hbody, hf]

/-- The failure to read a program is blamed on what is left of it, and unless it is a wrong target,
nothing of that has been read. -/
lemma program_failure {ts : List Token} {f : Failure}
    (h : (program .failFast ts).result = .error f) :
    f.blamed <:+ ts ∧ (f.cause = .invalidTarget ∨ f.blamed = f.unread) := by
  have htracks : Tracks True (Token.atEnd 1) [] [] (declarations .failFast [] (fuelFor ts.length))
      (declarations .failFast [] (fuelFor ts.length)) :=
    tracks_declarations (ahead_nil _) [] _
  have hblames : BlamesNext (declarations .failFast [] (fuelFor ts.length)) :=
    (compositional_blamesNext.statement_declaration_declarations .failFast .failFast
      (fun h ts f hf => h (result_recovering_failFast_eq_error.1 hf)) _).2.2 []
  exact ⟨((htracks.within ts).2 f h).1, hblames h⟩

lemma blamed_eq_unread_of_expected {ts blamed unread : List Token} {what : Expected}
    (h : (program .failFast ts).result = .error ⟨.expected what, blamed, unread⟩) :
    blamed = unread := by
  rcases (program_failure h).2 with hcause | hblamed
  · cases hcause
  · exact hblamed

section Blamed

variable {w rest : List Token} {t : Token}

/-- Once a token is to blame, a text that goes on with it is no program. -/
lemma exists_failure_of_blamed {f : Failure}
    (h : (program .failFast (w ++ t :: rest)).result = .error f) (hblamed : f.blamed = t :: rest)
    (rest' : List Token) : ∃ f', (program .failFast (w ++ t :: rest')).result = .error f' := by
  obtain ⟨cause, blamed, unread⟩ := f
  obtain rfl : blamed = t :: rest := hblamed
  have htwin : Twin True t rest (t :: rest') (program .failFast (w ++ t :: rest)).result
      (program .failFast (w ++ t :: rest')).result := twin_program (ahead_cons t rest') w
  cases cause with
  | invalidTarget => exact htwin.target unread h (List.cons_ne_nil _ _)
  | expected what =>
    obtain rfl : t :: rest = unread := blamed_eq_unread_of_expected h
    rcases htwin.expected what [] h with hsame | ⟨-, -, hnil, -⟩
    · exact ⟨_, hsame⟩
    · cases hnil

/-- A token that is refused is refused whatever follows it. -/
lemma failure_of_expected {what : Expected}
    (h : (program .failFast (w ++ t :: rest)).result =
      .error ⟨.expected what, t :: rest, t :: rest⟩) (rest' : List Token) :
    (program .failFast (w ++ t :: rest')).result =
      .error ⟨.expected what, t :: rest', t :: rest'⟩ := by
  refine ((twin_program (ahead_cons t rest') w).expected what [] h).resolve_right ?_
  rintro ⟨-, -, hnil, -⟩
  cases hnil

/-- The tokens before one that is refused are read to their end. -/
lemma spent_of_expected {what : Expected}
    (h : (program .failFast (w ++ t :: rest)).result =
      .error ⟨.expected what, t :: rest, t :: rest⟩) : Spent (program .failFast w).result := by
  have htwin := (twin_program (ahead_nil t) w).expected what [] h
  rw [List.append_nil] at htwin
  rcases htwin with hsame | ⟨-, -, -, hspent⟩
  · exact .inr ⟨_, hsame, rfl⟩
  · exact hspent

end Blamed

/-- A mistake is found at the first impossible token.  If it is not the end that is to blame, no
program begins with the tokens up to the one to blame.  If something was expected, the tokens before
it can be continued until nothing is missing, and every text that begins with the tokens up to it
has the same mistake. -/
theorem failFast_blames_first_impossible_token (ts : List Token)
    (hts : ∀ t ∈ ts, t.kind ≠ .endOfInput) (r : Rejection)
    (hr : (readTokens .failFast ts).result = .error r) :
    ∃ e, r = .first e ∧ (ts ++ [stop ts])[e.position]? = some e.token ∧
      (e.token.kind ≠ .endOfInput → ∀ us, ts.take (e.position + 1) <+: us →
        ¬ ∃ p, (readTokens .failFast us).result = .ok p) ∧
      ∀ what, e.cause = .expected what →
        (∃ us, (∀ t ∈ us, t.kind ≠ .endOfInput) ∧
          ((∃ p, (readTokens .failFast (ts.take e.position ++ us)).result = .ok p) ∨
            ∃ e', (readTokens .failFast (ts.take e.position ++ us)).result = .error (.first e') ∧
              e'.cause = .invalidTarget)) ∧
        (e.token.kind ≠ .endOfInput → ∀ us, ts.take (e.position + 1) <+: us →
          (readTokens .failFast us).result = .error (.first e)) := by
  obtain ⟨f, hf, rfl⟩ := result_readTokens_failFast_eq_error.1 hr
  rw [body_of_forall_ne hts] at hf ⊢
  refine ⟨_, rfl, ?_⟩
  obtain ⟨⟨w, hw⟩, -⟩ := program_failure hf
  obtain ⟨cause, blamed, unread⟩ := f
  dsimp only at hw
  cases blamed with
  | nil =>
    rw [List.append_nil] at hw
    subst hw
    refine ⟨by simp [SyntaxError.ofFailure], fun hkind => ?_, fun what _ => ⟨?_, fun hkind => ?_⟩⟩
    · exact absurd (kind_stop w) hkind
    · have hposition : w.take (SyntaxError.ofFailure w.length (stop w) ⟨cause, [], unread⟩).position
          = w := List.take_length
      rw [hposition]
      exact exists_continuation hts (.inr ⟨_, hf, rfl⟩)
    · exact absurd (kind_stop w) hkind
  | cons t rest =>
    subst hw
    have htake : (w ++ t :: rest).take (w.length + 1) = w ++ [t] := by
      rw [List.take_length_add_append]
      rfl
    have hfront : ∀ u ∈ w ++ [t], u.kind ≠ .endOfInput :=
      fun u hu => hts u (List.mem_of_mem_take (htake ▸ hu))
    -- A text that begins with the tokens up to the one to blame is read with it ahead.
    have hbody : ∀ us, w ++ [t] <+: us → ∃ rest', body us = w ++ t :: rest' := by
      rintro us ⟨more, rfl⟩
      exact ⟨body more, by rw [body_append_of_forall_ne hfront, List.append_assoc]; rfl⟩
    have hposition : (SyntaxError.ofFailure (w ++ t :: rest).length (stop (w ++ t :: rest))
        ⟨cause, t :: rest, unread⟩).position = w.length := by
      simp [SyntaxError.ofFailure]
    rw [hposition, htake]
    refine ⟨by simp [SyntaxError.ofFailure], fun _ us hus => ?_, fun what hwhat => ⟨?_, ?_⟩⟩
    · rintro ⟨p, hp⟩
      obtain ⟨rest', hrest'⟩ := hbody us hus
      obtain ⟨f', hf'⟩ := exists_failure_of_blamed hf rfl rest'
      rw [result_readTokens_failFast_eq_ok, hrest', hf'] at hp
      cases hp
    · obtain rfl : cause = .expected what := hwhat
      obtain rfl : t :: rest = unread := blamed_eq_unread_of_expected hf
      rw [List.take_left']
      · exact exists_continuation (fun u hu => hfront u (List.mem_append_left _ hu))
          (spent_of_expected hf)
      · rfl
    · intro _ us hus
      obtain rfl : cause = .expected what := hwhat
      obtain rfl : t :: rest = unread := blamed_eq_unread_of_expected hf
      obtain ⟨rest', hrest'⟩ := hbody us hus
      refine result_readTokens_failFast_eq_error.2
        ⟨⟨.expected what, t :: rest', t :: rest'⟩, ?_, ?_⟩
      · rw [hrest']
        exact failure_of_expected hf rest'
      · rw [hrest']
        simp [SyntaxError.ofFailure]

/-- An operator has no right operand in `print (x + ; y`. -/
theorem failFast_blames_first_impossible_token_operand :
    let ts : List Token := [.keyword .printWord, .sign .leftParen, .identifier, .sign .plus,
      .sign .semicolon, .identifier].map fun kind => ⟨kind, utf8 "x", .nil, 1⟩
    let e : SyntaxError := ⟨.expected .expression, ⟨.sign .semicolon, utf8 "x", .nil, 1⟩, 4⟩
    (∀ t ∈ ts, t.kind ≠ .endOfInput) ∧ (readTokens .failFast ts).result = .error (.first e) ∧
      (∀ us, ts.take 5 <+: us → (readTokens .failFast us).result = .error (.first e)) ∧
      ∃ us, (∃ p, (readTokens .failFast (ts.take 4 ++ us)).result = .ok p) ∨
        ∃ e', (readTokens .failFast (ts.take 4 ++ us)).result = .error (.first e') ∧
          e'.cause = .invalidTarget := by
  intro ts e
  have hts : ∀ t ∈ ts, t.kind ≠ .endOfInput := by decide
  have hr : (readTokens .failFast ts).result = .error (.first e) := by rfl
  obtain ⟨e', he', -, -, hexpected⟩ := failFast_blames_first_impossible_token ts hts _ hr
  obtain rfl : e = e' := Rejection.first.inj he'
  obtain ⟨⟨us, -, hus⟩, hsame⟩ := hexpected .expression rfl
  exact ⟨hts, hr, hsame nofun, us, hus⟩

end LoxScript.Grammar
