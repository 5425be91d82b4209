import Mathlib.Tactic.Lemma
import Mathlib.Data.List.Forall2
import LoxScript.Scope

/-!
# Where names are found

A name is found in the nearest scope that binds it.  `Chain.nearest?` is the distance to that scope,
and both lookup and assignment are described through it: they concern the scope at that distance and
no other.

Which names are bound where can be known without the values.  A `Shape` lists the names of each
scope of a chain, and the changes that a run makes to its chain are matched by changes of the shape.
In particular assignments do not change the shape at all.
-/

namespace LoxScript

namespace Scope

lemma lookup_cons (name : Bytes) (v : Value) (rest : List (Bytes × Value)) (x : Bytes) :
    ((name, v) :: rest).lookup x = if x = name then some v else rest.lookup x := by
  rw [List.lookup_cons]
  by_cases hx : x = name
  · rw [if_pos hx, beq_iff_eq.2 hx]
  · rw [if_neg hx, beq_eq_false_iff_ne.2 hx]

lemma lookup_insert (name : Bytes) (v : Value) (bindings : List (Bytes × Value)) (x : Bytes) :
    (insert name v bindings).lookup x = if x = name then some v else bindings.lookup x := by
  induction bindings with
  | nil => exact lookup_cons name v [] x
  | cons first rest ih =>
    obtain ⟨other, w⟩ := first
    unfold insert
    split_ifs <;> by_cases hother : x = other <;> simp_all [lookup_cons]

lemma get?_put (s : Scope) (name : Bytes) (v : Value) (x : Bytes) :
    (s.put name v).get? x = if x = name then some v else s.get? x :=
  lookup_insert name v s.bindings x

lemma has_put (s : Scope) (name : Bytes) (v : Value) (x : Bytes) :
    (s.put name v).has x = true ↔ x = name ∨ s.has x = true := by
  unfold has
  rw [get?_put]
  by_cases hx : x = name <;> simp [hx]

lemma mem_names (s : Scope) (x : Bytes) : x ∈ s.names ↔ s.has x = true := by
  unfold names has get?
  induction s.bindings with
  | nil => simp
  | cons first rest ih =>
    obtain ⟨other, w⟩ := first
    rw [lookup_cons, List.map_cons, List.mem_cons, ih]
    by_cases hx : x = other <;> simp [hx]

end Scope

namespace Chain

/-- How many scopes outwards a name is bound first. -/
def nearest? (c : Chain) (name : Bytes) : Option Nat :=
  c.scopes.findIdx? (·.has name)

variable {c : Chain} {name : Bytes} {d : Nat}

/-- The nearest scope that binds a name binds it, and no scope within it does. -/
lemma nearest?_eq_some_iff :
    c.nearest? name = some d ↔
      ∃ scope, c.scopes[d]? = some scope ∧ scope.has name = true ∧
        ∀ nearer ∈ c.scopes.take d, nearer.has name = false := by
  unfold nearest?
  rw [List.findIdx?_eq_some_iff_getElem]
  constructor
  · rintro ⟨hd, hhas, hnearer⟩
    refine ⟨_, List.getElem?_eq_getElem hd, hhas, fun nearer hmem => ?_⟩
    obtain ⟨i, hi, rfl⟩ := List.getElem_of_mem hmem
    rw [List.length_take] at hi
    rw [List.getElem_take]
    exact Bool.eq_false_iff.2 (hnearer i (by omega))
  · rintro ⟨scope, hscope, hhas, hnearer⟩
    obtain ⟨hd, rfl⟩ := List.getElem?_eq_some_iff.1 hscope
    refine ⟨hd, hhas, fun j hj => Bool.eq_false_iff.1 (hnearer _ ?_)⟩
    exact List.mem_take_iff_getElem.2 ⟨j, by omega, rfl⟩

lemma nearest?_eq_none_iff :
    c.nearest? name = none ↔ ∀ scope ∈ c.scopes, scope.has name = false :=
  List.findIdx?_eq_none_iff

lemma nearest?_root (s : Scope) (name : Bytes) :
    (root s).nearest? name = if s.has name then some 0 else none := by
  unfold nearest? scopes
  rw [List.findIdx?_cons]
  rfl

lemma nearest?_inner (s : Scope) (outer : Chain) (name : Bytes) :
    (inner s outer).nearest? name =
      if s.has name then some 0 else (outer.nearest? name).map (· + 1) :=
  List.findIdx?_cons

/-- The value of a name is that in the nearest scope. -/
lemma get?_eq_nearest? (c : Chain) (name : Bytes) :
    c.get? name = (c.nearest? name).bind fun d => c.scopes[d]?.bind (·.get? name) := by
  induction c with
  | root s =>
    rw [nearest?_root, get?]
    cases hget : s.get? name <;> simp [Scope.has, hget, scopes]
  | inner s outer ih =>
    rw [nearest?_inner, get?, ih]
    cases hget : s.get? name with
    | some v => simp [Scope.has, hget, scopes]
    | none => cases outer.nearest? name <;> simp [Scope.has, hget, scopes]

/-- An assignment changes the nearest scope and leaves all others as they are. -/
lemma assign?_of_nearest? {scope : Scope} (h : c.nearest? name = some d)
    (hscope : c.scopes[d]? = some scope) (v : Value) :
    ∃ c', c.assign? name v = some c' ∧ c'.scopes = c.scopes.set d (scope.put name v) := by
  induction c generalizing d with
  | root s =>
    rw [nearest?_root] at h
    split_ifs at h with hhas
    cases h
    cases hscope
    exact ⟨root (scope.put name v), if_pos hhas, rfl⟩
  | inner s outer ih =>
    rw [nearest?_inner] at h
    split_ifs at h with hhas
    · cases h
      cases hscope
      exact ⟨inner (scope.put name v) outer, if_pos hhas, rfl⟩
    · obtain ⟨e, he, rfl⟩ := Option.map_eq_some_iff.1 h
      obtain ⟨outer', houter', hscopes⟩ := ih he hscope
      refine ⟨inner s outer', ?_, congrArg (s :: ·) hscopes⟩
      rw [assign?, if_neg hhas, houter']
      rfl

/-- There is nothing to assign to when no scope binds the name. -/
lemma assign?_of_nearest?_eq_none (h : c.nearest? name = none) (v : Value) :
    c.assign? name v = none := by
  have hnone := nearest?_eq_none_iff.1 h
  clear h
  induction c with
  | root s =>
    have hs : s.has name = false := hnone s (List.mem_singleton_self s)
    simp [assign?, hs]
  | inner s outer ih =>
    have hs : s.has name = false := hnone s List.mem_cons_self
    have houter := ih fun scope hmem => hnone scope (List.mem_cons_of_mem s hmem)
    simp [assign?, hs, houter]

/-! ### Names after a change -/

@[simp]
lemma get?_enter (c : Chain) (x : Bytes) : c.enter.get? x = c.get? x := rfl

lemma get?_define (c : Chain) (name : Bytes) (v : Value) (x : Bytes) :
    (c.define name v).get? x = if x = name then some v else c.get? x := by
  cases c with
  | root s => exact s.get?_put name v x
  | inner s outer =>
    rw [define, get?, get?, Scope.get?_put]
    by_cases hx : x = name <;> simp [hx]

/-- There is something to assign to exactly when the name has a value. -/
lemma assign?_eq_none_iff {v : Value} : c.assign? name v = none ↔ c.get? name = none := by
  induction c with
  | root s => cases hget : s.get? name <;> simp [assign?, get?, Scope.has, hget]
  | inner s outer ih => cases hget : s.get? name <;> simp [assign?, get?, Scope.has, hget, ih]

/-- After an assignment the name has its new value, and all others have theirs. -/
lemma get?_of_assign? {v : Value} {c' : Chain} (h : c.assign? name v = some c') (x : Bytes) :
    c'.get? x = if x = name then some v else c.get? x := by
  induction c generalizing c' with
  | root s =>
    rw [assign?] at h
    split_ifs at h with hhas
    cases h
    exact s.get?_put name v x
  | inner s outer ih =>
    rw [assign?] at h
    split_ifs at h with hhas
    · cases h
      rw [get?, get?, Scope.get?_put]
      by_cases hx : x = name <;> simp [hx]
    · obtain ⟨outer', houter', rfl⟩ := Option.map_eq_some_iff.1 h
      have hnone : s.get? name = none := by simpa [Scope.has] using hhas
      rw [get?, get?, ih houter']
      by_cases hx : x = name <;> simp [hx, hnone]

end Chain

/-! ### The names of each scope -/

/-- The names bound in each scope of a chain, the innermost first. -/
abbrev Shape := List (List Bytes)

namespace Shape

/-- The shape of a chain. -/
def of (c : Chain) : Shape :=
  c.scopes.map Scope.names

/-- How many scopes outwards the name is bound first. -/
def distance? (stack : Shape) (name : Bytes) : Option Nat :=
  stack.findIdx? (·.contains name)

/-- A name more in the innermost scope. -/
def declare (name : Bytes) (stack : Shape) : Shape :=
  stack.modifyHead (name :: ·)

/-- The shape tells which names the scopes of the chain bind. -/
def Fits (stack : Shape) (c : Chain) : Prop :=
  List.Forall₂ (fun names scope => ∀ x, x ∈ names ↔ scope.has x = true) stack c.scopes

variable {stack : Shape} {c : Chain}

lemma Fits.ne_nil (h : Fits stack c) : stack ≠ [] := by
  rintro rfl
  unfold Fits at h
  cases c <;> cases h

/-- The distance found in the shape is the distance in the chain. -/
lemma Fits.nearest? (h : Fits stack c) (name : Bytes) :
    c.nearest? name = stack.distance? name := by
  unfold Chain.nearest? distance?
  unfold Fits at h
  generalize c.scopes = scopes at h
  induction h with
  | nil => rfl
  | @cons names scope _ _ hfirst _ ih =>
    have hhas : scope.has name = names.contains name := by
      rw [Bool.eq_iff_iff, List.contains_iff_mem]
      exact (hfirst name).symm
    rw [List.findIdx?_cons, List.findIdx?_cons, hhas, ih]

/-- An assignment makes no bindings. -/
lemma Fits.assign? (h : Fits stack c) {name : Bytes} {v : Value} {c' : Chain}
    (hassign : c.assign? name v = some c') : Fits stack c' := by
  cases hnearest : c.nearest? name with
  | none =>
    rw [Chain.assign?_of_nearest?_eq_none hnearest] at hassign
    cases hassign
  | some d =>
    obtain ⟨scope, hscope, hhas, -⟩ := Chain.nearest?_eq_some_iff.1 hnearest
    obtain ⟨c'', hc'', hscopes⟩ := Chain.assign?_of_nearest? hnearest hscope v
    rw [hassign] at hc''
    cases hc''
    unfold Fits at h ⊢
    rw [hscopes]
    rw [List.forall₂_iff_get] at h ⊢
    obtain ⟨hlength, hat⟩ := h
    refine ⟨by rw [hlength, List.length_set], fun i hi hi' x => ?_⟩
    rw [hat i hi (hlength ▸ hi) x]
    simp only [List.get_eq_getElem, List.getElem_set]
    split_ifs with hid
    · subst hid
      obtain ⟨hd, rfl⟩ := List.getElem?_eq_some_iff.1 hscope
      rw [Scope.has_put]
      constructor
      · exact .inr
      · rintro (rfl | hx)
        · exact hhas
        · exact hx
    · rfl

lemma Fits.define (h : Fits stack c) (name : Bytes) (v : Value) :
    Fits (stack.declare name) (c.define name v) := by
  unfold Fits at h ⊢
  cases c <;>
  · obtain ⟨names, outer, hfirst, houter, rfl⟩ := List.forall₂_cons_right_iff.1 h
    refine List.Forall₂.cons (fun x => ?_) houter
    rw [Scope.has_put, List.mem_cons, hfirst x]

lemma Fits.enter (h : Fits stack c) : Fits ([] :: stack) c.enter :=
  List.Forall₂.cons (fun x => by simp [Scope.has, Scope.get?, Scope.empty]) h

/-- The innermost scope can be left as long as the shape has another. -/
lemma Fits.leave {names : List Bytes} (h : Fits (names :: stack) c) (hstack : stack ≠ []) :
    Fits stack c.leave := by
  unfold Fits at h ⊢
  cases c with
  | root s =>
    obtain ⟨-, htail⟩ := List.forall₂_cons.1 h
    cases htail
    exact absurd rfl hstack
  | inner s outer => exact (List.forall₂_cons.1 h).2

end Shape

end LoxScript
