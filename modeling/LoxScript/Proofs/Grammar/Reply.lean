import LoxScript.Proofs.Grammar.Derivation

/-!
# What the building blocks of parsers answer

One lemma for each way of putting parsers together and each parser that takes a single token, so
that the proofs about the rules of the grammar never open these definitions.
-/

namespace LoxScript

namespace Grammar

variable {kinds : List Kind} {t : Token} {ts : List Token}

@[simp] lemma not_starts_nil : ¬ Starts kinds [] := by
  rintro ⟨t, ht, -⟩
  cases ht

@[simp] lemma starts_cons : Starts kinds (t :: ts) ↔ t.kind ∈ kinds := by
  simp [Starts]

/-- A text that starts with one of the kinds has a first token. -/
lemma Starts.exists_cons (h : Starts kinds ts) : ∃ t mid, ts = t :: mid ∧ t.kind ∈ kinds := by
  obtain ⟨t, ht, hkind⟩ := h
  obtain ⟨mid, rfl⟩ := List.head?_eq_some_iff.1 ht
  exact ⟨t, mid, rfl, hkind⟩

/-- The front of a text that is not empty decides how the whole text starts. -/
lemma starts_append_of_ne_nil {us : List Token} (hts : ts ≠ []) :
    Starts kinds (ts ++ us) ↔ Starts kinds ts := by
  cases ts with
  | nil => exact absurd rfl hts
  | cons t ts => simp

end Grammar

namespace Parser

open Grammar

variable {α β : Type} {p : Parser α} {f : α → Parser β} {ts mid rest : List Token}

/-! ### Parsers in sequence -/

@[simp] lemma result_traced (rule : Rule) : (traced rule p ts).result = (p ts).result := rfl

@[simp] lemma result_unread : (unread ts).result = .ok (ts, ts) := rfl

/-- After a first parser that succeeds, the second one decides; what the first one tried and
overcame comes before what the second one did. -/
lemma bind_of_ok {a : α} (h : (p ts).result = .ok (a, mid)) :
    (p >>= f) ts = ⟨(p ts).spans ++ (f a mid).spans, (p ts).overcome ++ (f a mid).overcome,
      (f a mid).result⟩ := by
  change Parser.bind p f ts = _
  unfold Parser.bind
  rcases hp : p ts with ⟨spans, overcome, result⟩
  rw [hp] at h
  obtain rfl : result = .ok (a, mid) := h
  rfl

/-- A first parser that fails decides alone. -/
lemma bind_of_error {failure : Failure} (h : (p ts).result = .error failure) :
    (p >>= f) ts = ⟨(p ts).spans, (p ts).overcome, .error failure⟩ := by
  change Parser.bind p f ts = _
  unfold Parser.bind
  rcases hp : p ts with ⟨spans, overcome, result⟩
  rw [hp] at h
  obtain rfl : result = .error failure := h
  rfl

lemma result_bind_of_ok {a : α} (h : (p ts).result = .ok (a, mid)) :
    ((p >>= f) ts).result = (f a mid).result := by
  rw [bind_of_ok h]

lemma result_bind_of_error {failure : Failure} (h : (p ts).result = .error failure) :
    ((p >>= f) ts).result = .error failure := by
  rw [bind_of_error h]

/-- What only changes the value overcomes nothing. -/
lemma overcome_bind_pure (g : α → β) :
    ((p >>= fun a => pure (g a)) ts).overcome = (p ts).overcome := by
  cases h : (p ts).result with
  | error failure => rw [bind_of_error h]
  | ok r =>
    rw [bind_of_ok h]
    exact List.append_nil _

/-- What only changes the value leaves the same tokens. -/
lemma result_bind_pure (g : α → β) :
    ((p >>= fun a => pure (g a)) ts).result = (p ts).result.map (Prod.map g id) := by
  cases h : (p ts).result with
  | error failure => rw [result_bind_of_error h]; rfl
  | ok r => rw [result_bind_of_ok h]; rfl

/-- A sequence succeeds when both of its parts do, one after the other. -/
lemma result_bind_eq_ok {b : β} :
    ((p >>= f) ts).result = .ok (b, rest) ↔
      ∃ a mid, (p ts).result = .ok (a, mid) ∧ (f a mid).result = .ok (b, rest) := by
  constructor
  · intro h
    cases hp : (p ts).result with
    | error failure =>
      rw [result_bind_of_error hp] at h
      cases h
    | ok r =>
      obtain ⟨a, mid⟩ := r
      rw [result_bind_of_ok hp] at h
      exact ⟨a, mid, rfl, h⟩
  · rintro ⟨a, mid, hp, hf⟩
    rw [result_bind_of_ok hp, hf]

/-- A sequence fails when its first part does, or the second one after it. -/
lemma result_bind_eq_error {failure : Failure} :
    ((p >>= f) ts).result = .error failure ↔
      (p ts).result = .error failure ∨
        ∃ a mid, (p ts).result = .ok (a, mid) ∧ (f a mid).result = .error failure := by
  constructor
  · intro h
    cases hp : (p ts).result with
    | error failure' =>
      rw [result_bind_of_error hp] at h
      cases h
      exact .inl rfl
    | ok r =>
      obtain ⟨a, mid⟩ := r
      rw [result_bind_of_ok hp] at h
      exact .inr ⟨a, mid, rfl, h⟩
  · rintro (hp | ⟨a, mid, hp, hf⟩)
    · exact result_bind_of_error hp
    · rw [result_bind_of_ok hp, hf]

/-! ### Single tokens -/

/-- A token of one of the kinds is taken. -/
lemma result_accept?_cons {kinds : List Kind} {t : Token} (h : t.kind ∈ kinds) :
    (accept? kinds (t :: ts)).result = .ok (some t, ts) := by
  simp [accept?, h]

/-- A token of another kind is left. -/
lemma result_accept?_of_not_starts {kinds : List Kind} (h : ¬ Starts kinds ts) :
    (accept? kinds ts).result = .ok (none, ts) := by
  cases ts with
  | nil => rfl
  | cons t ts =>
    rw [starts_cons] at h
    simp [accept?, h]

/-- Asking for a token never fails. -/
lemma result_accept?_ne_error {kinds : List Kind} {failure : Failure} :
    (accept? kinds ts).result ≠ .error failure := by
  by_cases hstarts : Starts kinds ts
  · obtain ⟨t, mid, rfl, hkind⟩ := hstarts.exists_cons
    rw [result_accept?_cons hkind]
    exact nofun
  · rw [result_accept?_of_not_starts hstarts]
    exact nofun

@[simp] lemma overcome_accept? (kinds : List Kind) : (accept? kinds ts).overcome = [] := by
  cases ts with
  | nil => rfl
  | cons t ts =>
    simp only [accept?]
    split <;> rfl

/-- What comes after asking for a token depends on whether it is there. -/
lemma result_accept?_bind_eq {kinds : List Kind} {g : Option Token → Parser β}
    {r : Except Failure (β × List Token)} :
    ((accept? kinds >>= g) ts).result = r ↔
      (¬ Starts kinds ts ∧ (g none ts).result = r) ∨
        ∃ t mid, t.kind ∈ kinds ∧ ts = t :: mid ∧ (g (some t) mid).result = r := by
  by_cases h : Starts kinds ts
  · cases ts with
    | nil => exact absurd h not_starts_nil
    | cons t ts =>
      rw [starts_cons] at h
      rw [result_bind_of_ok (result_accept?_cons h), starts_cons]
      constructor
      · intro hg
        exact .inr ⟨t, ts, h, rfl, hg⟩
      · rintro (⟨hn, -⟩ | ⟨u, mid, -, hu, hg⟩)
        · exact absurd h hn
        · obtain ⟨rfl, rfl⟩ := List.cons.inj hu
          exact hg
  · rw [result_bind_of_ok (result_accept?_of_not_starts h)]
    constructor
    · intro hg
      exact .inl ⟨h, hg⟩
    · rintro (⟨-, hg⟩ | ⟨t, mid, ht, rfl, -⟩)
      · exact hg
      · exact absurd (starts_cons.2 ht) h

lemma result_accept?_bind_eq_ok {kinds : List Kind} {g : Option Token → Parser β} {b : β} :
    ((accept? kinds >>= g) ts).result = .ok (b, rest) ↔
      (¬ Starts kinds ts ∧ (g none ts).result = .ok (b, rest)) ∨
        ∃ t mid, t.kind ∈ kinds ∧ ts = t :: mid ∧ (g (some t) mid).result = .ok (b, rest) :=
  result_accept?_bind_eq

/-- A token of the kind that has to come is taken. -/
lemma result_expect_cons {kind : Kind} {what : Expected} {t : Token} (h : t.kind = kind) :
    (expect kind what (t :: ts)).result = .ok (t, ts) := by
  simp [expect, h]

/-- A token of another kind is to blame, or the end of the text. -/
lemma result_expect_of_not_starts {kind : Kind} {what : Expected} (h : ¬ Starts [kind] ts) :
    (expect kind what ts).result = .error ⟨.expected what, ts, ts⟩ := by
  cases ts with
  | nil => rfl
  | cons t ts =>
    have hkind : t.kind ≠ kind := fun heq => h (starts_cons.2 (by simp [heq]))
    simp only [expect, hkind, if_false]
    rfl

/-- A token that has to be there and is not is to blame, with all that follows it. -/
lemma eq_of_result_expect_eq_error {kind : Kind} {what : Expected} {failure : Failure}
    (h : (expect kind what ts).result = .error failure) :
    failure = ⟨.expected what, ts, ts⟩ := by
  by_cases hstarts : Starts [kind] ts
  · obtain ⟨t, mid, rfl, hkind⟩ := hstarts.exists_cons
    rw [result_expect_cons (List.mem_singleton.1 hkind)] at h
    cases h
  · rw [result_expect_of_not_starts hstarts] at h
    exact (Except.error.inj h).symm

@[simp] lemma overcome_expect (kind : Kind) (what : Expected) :
    (expect kind what ts).overcome = [] := by
  cases ts with
  | nil => rfl
  | cons t ts =>
    simp only [expect]
    split <;> rfl

/-- Nothing comes after a token that has to be there and is not. -/
lemma result_expect_bind_eq_ok {kind : Kind} {what : Expected} {g : Token → Parser β} {b : β} :
    ((expect kind what >>= g) ts).result = .ok (b, rest) ↔
      ∃ t mid, t.kind ∈ [kind] ∧ ts = t :: mid ∧ (g t mid).result = .ok (b, rest) := by
  constructor
  · intro h
    obtain ⟨t, mid, ht, hg⟩ := result_bind_eq_ok.1 h
    cases ts with
    | nil => cases ht
    | cons u us =>
      by_cases hu : u.kind = kind
      · rw [result_expect_cons hu] at ht
        cases ht
        exact ⟨_, _, List.mem_singleton.2 hu, rfl, hg⟩
      · simp only [expect, hu, if_false] at ht
        cases ht
  · rintro ⟨t, mid, ht, rfl, hg⟩
    rw [result_bind_of_ok (result_expect_cons (List.mem_singleton.1 ht)), hg]

/-- A token that has to be there and is not is to blame, or the end of the text. -/
lemma result_expect_bind_eq_error {kind : Kind} {what : Expected} {g : Token → Parser β}
    {failure : Failure} :
    ((expect kind what >>= g) ts).result = .error failure ↔
      (¬ Starts [kind] ts ∧ failure = ⟨.expected what, ts, ts⟩) ∨
        ∃ t mid, t.kind ∈ [kind] ∧ ts = t :: mid ∧ (g t mid).result = .error failure := by
  by_cases hstarts : Starts [kind] ts
  · obtain ⟨t, mid, rfl, hkind⟩ := hstarts.exists_cons
    rw [result_bind_of_ok (result_expect_cons (List.mem_singleton.1 hkind)), starts_cons]
    constructor
    · intro hg
      exact .inr ⟨t, mid, hkind, rfl, hg⟩
    · rintro (⟨hn, -⟩ | ⟨u, mid', -, hu, hg⟩)
      · exact absurd hkind hn
      · obtain ⟨rfl, rfl⟩ := List.cons.inj hu
        exact hg
  · rw [result_bind_of_error (result_expect_of_not_starts hstarts)]
    constructor
    · intro h
      cases h
      exact .inl ⟨hstarts, rfl⟩
    · rintro (⟨-, rfl⟩ | ⟨t, mid, ht, rfl, -⟩)
      · rfl
      · exact absurd (starts_cons.2 ht) hstarts

end Parser

end LoxScript
