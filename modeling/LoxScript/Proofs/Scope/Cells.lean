import Mathlib.Data.List.Nodup
import LoxScript.Proofs.Scope.Forest

/-!
# Variables as cells

In a forest of scopes a variable is a cell that is seen from many places.  Which cell a name means
is decided on the way outwards from a scope: it is in the first scope on that way that binds the
name.  An assignment writes to the cell, so it is seen from exactly the scopes from which the name
means the same cell.  A declaration makes a cell, or writes to it, and it is seen from the scopes
that come to it before they come to another binding of the name.

Forests are made by a few operations, and in all of them a scope is younger than the one around it.
So every way outwards comes to an end.
-/

namespace LoxScript

namespace Forest

/-! ### The way outwards -/

/-- The scopes from the given one outwards, up to a scope that has nothing around it. -/
inductive Walk (f : Forest) : Nat → List Nat → Prop
  | root {id : Nat} : f.outer? id = none → Walk f id [id]
  | outwards {id o : Nat} {ids : List Nat} :
      f.outer? id = some o → Walk f o ids → Walk f id (id :: ids)

/-- The numbers of the scopes that the way outwards from a scope passes, itself first. -/
def path (f : Forest) (id : Nat) : List Nat :=
  match f.outer? id with
  | some o => if o < id then id :: f.path o else [id]
  | none => [id]

/-- The number of the scope in which a name seen from a scope is bound. -/
def resolve? (f : Forest) (id : Nat) (x : Bytes) : Option Nat :=
  (f.path id).find? fun k => (f.scope k).has x

/-- From the scope `k` one comes to the scope `e` without passing another binding of the name. -/
def Sees (f : Forest) (k e : Nat) (x : Bytes) : Prop :=
  ∃ nearer outer, f.path k = nearer ++ e :: outer ∧ ∀ j ∈ nearer, (f.scope j).has x = false

variable {f : Forest} {id k e : Nat} {x y : Bytes} {v : Value} {s : Scope}

lemma path_eq (f : Forest) (id : Nat) : f.path id = id :: (f.enclosing? id).elim [] f.path := by
  rw [path, enclosing?]
  cases f.outer? id with
  | none => rfl
  | some o => by_cases ho : o < id <;> simp [Option.filter, ho]

/-- The way outwards goes to older scopes. -/
lemma le_of_mem_path {j : Nat} (h : j ∈ f.path id) : j ≤ id := by
  induction id using Nat.strongRecOn with
  | ind id ih =>
    rw [path_eq] at h
    rcases List.mem_cons.1 h with rfl | hlater
    · exact Nat.le_refl _
    · cases ho : f.enclosing? id with
      | none =>
        rw [ho] at hlater
        exact absurd hlater List.not_mem_nil
      | some o =>
        rw [ho] at hlater
        have hlt := (enclosing?_eq_some_iff.1 ho).2
        exact Nat.le_trans (ih o hlt hlater) (Nat.le_of_lt hlt)

/-- No scope is passed twice. -/
lemma nodup_path (f : Forest) (id : Nat) : (f.path id).Nodup := by
  induction id using Nat.strongRecOn with
  | ind id ih =>
    rw [path_eq]
    cases ho : f.enclosing? id with
    | none => exact List.nodup_singleton id
    | some o =>
      have hlt := (enclosing?_eq_some_iff.1 ho).2
      exact List.nodup_cons.2 ⟨fun hmem => Nat.not_lt.2 (le_of_mem_path hmem) hlt, ih o hlt⟩

/-- The chain that starts at a scope has the scopes on the way outwards. -/
lemma scopes_chain (f : Forest) (id : Nat) : (f.chain id).scopes = (f.path id).map f.scope := by
  induction id using Nat.strongRecOn with
  | ind id ih =>
    rw [chain_eq, path_eq]
    cases ho : f.enclosing? id with
    | none => rfl
    | some o => exact congrArg (f.scope id :: ·) (ih o (enclosing?_eq_some_iff.1 ho).2)

/-- Names are looked up along the way outwards. -/
lemma get?_eq_findSome? (f : Forest) (id : Nat) (x : Bytes) :
    f.get? id x = (f.path id).findSome? fun k => (f.scope k).get? x := by
  unfold get?
  induction id using Nat.strongRecOn with
  | ind id ih =>
    rw [chain_eq, path_eq, List.findSome?_cons]
    cases ho : f.enclosing? id with
    | none => cases hget : (f.scope id).get? x <;> simp [Chain.get?, hget]
    | some o =>
      have houter := ih o (enclosing?_eq_some_iff.1 ho).2
      cases hget : (f.scope id).get? x <;> simp [Chain.get?, hget, houter]

/-- A name is bound in the scope in which it is found. -/
lemma has_of_resolve? (h : f.resolve? id x = some k) : (f.scope k).has x = true :=
  List.find?_some (p := fun k => (f.scope k).has x) h

/-- A name has a value exactly when it is bound on the way outwards. -/
lemma isSome_get? (f : Forest) (id : Nat) (x : Bytes) :
    (f.get? id x).isSome = (f.resolve? id x).isSome := by
  rw [get?_eq_findSome?, resolve?, Bool.eq_iff_iff, List.findSome?_isSome_iff, List.find?_isSome]
  rfl

/-- An assignment writes to the scope in which the name is bound. -/
lemma assign?_eq_resolve? (f : Forest) (id : Nat) (x : Bytes) (v : Value) :
    f.assign? id x v = (f.resolve? id x).map fun k => f.update k ((f.scope k).put x v) := by
  unfold resolve?
  induction id using Nat.strongRecOn with
  | ind id ih =>
    rw [assign?_eq, path_eq, List.find?_cons]
    cases hhas : (f.scope id).has x with
    | true => rfl
    | false =>
      rw [if_neg Bool.false_ne_true]
      cases ho : f.enclosing? id with
      | none => rfl
      | some o => exact ih o (enclosing?_eq_some_iff.1 ho).2

/-- A scope that binds a name is seen exactly by the scopes from which the name is found there. -/
lemma sees_iff_resolve? (h : (f.scope e).has x = true) :
    f.Sees k e x ↔ f.resolve? k x = some e := by
  rw [Sees, resolve?, List.find?_eq_some_iff_append]
  simp [h]

/-! ### Writing to a scope -/

lemma path_update : (f.update e s).path id = f.path id := by
  induction id using Nat.strongRecOn with
  | ind id ih =>
    rw [path_eq, path_eq f, enclosing?_update]
    cases ho : f.enclosing? id with
    | none => rfl
    | some o => exact congrArg (id :: ·) (ih o (enclosing?_eq_some_iff.1 ho).2)

lemma get?_scope_update (h : e < f.nodes.length) (j : Nat) (y : Bytes) :
    ((f.update e ((f.scope e).put x v)).scope j).get? y =
      if j = e ∧ y = x then some v else (f.scope j).get? y := by
  by_cases hj : j = e
  · subst hj
    rw [scope_update_self h, Scope.get?_put]
    simp
  · rw [scope_update_of_ne hj, if_neg fun hboth => hj hboth.1]

/-- A write is seen in its own name only. -/
lemma get?_update_of_ne (h : e < f.nodes.length) (hy : y ≠ x) (k : Nat) :
    (f.update e ((f.scope e).put x v)).get? k y = f.get? k y := by
  rw [get?_eq_findSome?, get?_eq_findSome?, path_update]
  congr 1
  funext j
  rw [get?_scope_update h, if_neg fun hboth => hy hboth.2]

/-- A write is not seen on a part of the way that does not pass the scope. -/
lemma findSome?_update_of_notMem (h : e < f.nodes.length) {ids : List Nat} (hids : e ∉ ids) :
    (ids.findSome? fun j => ((f.update e ((f.scope e).put x v)).scope j).get? x) =
      ids.findSome? fun j => (f.scope j).get? x := by
  induction ids with
  | nil => rfl
  | cons j ids ih =>
    rw [List.mem_cons, not_or] at hids
    obtain ⟨hj, hothers⟩ := hids
    rw [List.findSome?_cons, List.findSome?_cons, ih hothers, get?_scope_update h,
      if_neg fun hboth => hj hboth.1.symm]

/-- A write is seen from every scope that comes to it first. -/
lemma get?_update_of_sees (h : e < f.nodes.length) (hsees : f.Sees k e x) :
    (f.update e ((f.scope e).put x v)).get? k x = some v := by
  obtain ⟨nearer, outer, hpath, hnearer⟩ := hsees
  have hfirst : e ∉ nearer := by
    have hnodup := f.nodup_path k
    rw [hpath, List.nodup_middle, List.nodup_cons, List.mem_append] at hnodup
    exact fun hmem => hnodup.1 (.inl hmem)
  have hnone : (nearer.findSome? fun j => (f.scope j).get? x) = none := by
    refine List.findSome?_eq_none_iff.2 fun j hj => ?_
    simpa [Scope.has] using hnearer j hj
  rw [get?_eq_findSome?, path_update, hpath, List.findSome?_append,
    findSome?_update_of_notMem h hfirst, hnone, List.findSome?_cons, get?_scope_update h,
    if_pos ⟨rfl, rfl⟩]
  rfl

/-- A write is not seen from a scope that does not come to it, or comes to another binding first. -/
lemma get?_update_of_not_sees (h : e < f.nodes.length) (hsees : ¬ f.Sees k e x) :
    (f.update e ((f.scope e).put x v)).get? k x = f.get? k x := by
  rw [get?_eq_findSome?, get?_eq_findSome?, path_update]
  by_cases hmem : e ∈ f.path k
  · obtain ⟨nearer, outer, hpath, hfirst⟩ := List.eq_append_cons_of_mem hmem
    obtain ⟨j, hj, hhas⟩ : ∃ j ∈ nearer, (f.scope j).has x = true := by
      by_contra hnone
      refine hsees ⟨nearer, outer, hpath, fun j hj => ?_⟩
      exact Bool.eq_false_iff.2 fun hhas => hnone ⟨j, hj, hhas⟩
    have hstop : (nearer.findSome? fun j => (f.scope j).get? x).isSome = true :=
      List.findSome?_isSome_iff.2 ⟨j, hj, hhas⟩
    obtain ⟨w, hw⟩ := Option.isSome_iff_exists.1 hstop
    rw [hpath, List.findSome?_append, List.findSome?_append, findSome?_update_of_notMem h hfirst,
      hw]
    rfl
  · exact findSome?_update_of_notMem h hmem

/-- After a write, its value is seen in its own name from the scopes that come to it first, and all
else is seen as before. -/
lemma get?_update (h : e < f.nodes.length) (k : Nat) (y : Bytes) :
    (y = x ∧ f.Sees k e x → (f.update e ((f.scope e).put x v)).get? k y = some v) ∧
      (¬ (y = x ∧ f.Sees k e x) → (f.update e ((f.scope e).put x v)).get? k y = f.get? k y) := by
  constructor
  · rintro ⟨rfl, hsees⟩
    exact get?_update_of_sees h hsees
  · intro hother
    by_cases hy : y = x
    · subst hy
      exact get?_update_of_not_sees h fun hsees => hother ⟨rfl, hsees⟩
    · exact get?_update_of_ne h hy k

/-! ### Forests that can be made -/

/-- Every scope is younger than the one around it. -/
def Grounded (f : Forest) : Prop :=
  ∀ ⦃id o : Nat⦄, f.outer? id = some o → o < id

/-- The forests that come from one without scopes by making scopes, within others or not, declaring
names and giving them other values. -/
inductive Reachable : Forest → Prop
  | nothing : Reachable ⟨[]⟩
  | root {f : Forest} : Reachable f → Reachable (f.add none).1
  | enclosed {f : Forest} {o : Nat} :
      Reachable f → o < f.nodes.length → Reachable (f.add (some o)).1
  | define {f : Forest} {id : Nat} (x : Bytes) (v : Value) :
      Reachable f → id < f.nodes.length → Reachable (f.define id x v)
  | assign {f g : Forest} {id : Nat} {x : Bytes} {v : Value} :
      Reachable f → id < f.nodes.length → assign id x v f = .ok () g → Reachable g

lemma Grounded.add (h : f.Grounded) {outer : Option Nat}
    (houter : ∀ o ∈ outer, o < f.nodes.length) : (f.add outer).1.Grounded := by
  intro id o ho
  rcases Nat.lt_trichotomy id f.nodes.length with hlt | rfl | hgt
  · rw [outer?_add_of_lt hlt] at ho
    exact h ho
  · rw [outer?_add_self] at ho
    exact houter o ho
  · have hnone : (f.add outer).1.nodes[id]? = none := by
      rw [List.getElem?_eq_none_iff, length_add]
      exact hgt
    rw [outer?, hnone] at ho
    cases ho

lemma Grounded.update (h : f.Grounded) (k : Nat) (s : Scope) : (f.update k s).Grounded := by
  intro id o ho
  rw [outer?_update] at ho
  exact h ho

lemma assign_eq_ok_iff {g : Forest} : assign id x v f = .ok () g ↔ f.assign? id x v = some g := by
  unfold assign
  cases f.assign? id x v <;> simp

/-- Every operation keeps scopes younger than those around them. -/
lemma Reachable.grounded (h : f.Reachable) : f.Grounded := by
  induction h with
  | nothing => exact nofun
  | root _ ih => exact ih.add (by simp)
  | enclosed _ ho ih => exact ih.add (by simpa using ho)
  | define x v _ _ ih =>
    rw [define_eq_update]
    exact ih.update _ _
  | assign _ _ hassign ih =>
    obtain ⟨k, -, -, rfl⟩ := exists_eq_update_of_assign? (assign_eq_ok_iff.1 hassign)
    exact ih.update _ _

/-- Where scopes are younger than those around them, the way outwards ends at a scope that has
nothing around it. -/
lemma Grounded.walk (h : f.Grounded) (id : Nat) : f.Walk id (f.path id) := by
  induction id using Nat.strongRecOn with
  | ind id ih =>
    rw [path_eq, enclosing?]
    cases ho : f.outer? id with
    | none => exact Walk.root ho
    | some o =>
      have hlt : o < id := h ho
      rw [Option.filter_some_pos (by simpa using hlt)]
      exact Walk.outwards ho (ih o hlt)

/-! ### The law -/

lemma look_eq_ok_iff {w : Value} : look id x f = .ok w f ↔ f.get? id x = some w := by
  unfold look
  cases f.get? id x <;> simp

/-- The law of variables in forests of scopes.  The way outwards from every scope ends.  A name can
be given another value exactly where it has one; where it has none, both fail for that name and
nothing changes.  A new value is seen from exactly the scopes from which the name means the same
binding, and all else is seen as before.  A declaration is seen, in its own name, from exactly the
scopes that come to it before another binding of the name. -/
theorem forest_keeps_cell_law {f : Forest} (hf : f.Reachable) :
    (∀ id < f.nodes.length,
      f.Walk id (f.path id) ∧ (f.chain id).scopes = (f.path id).map f.scope) ∧
    ∀ e < f.nodes.length, ∀ (x : Bytes) (v : Value),
      ((∃ g, assign e x v f = .ok () g) ↔ ∃ w, look e x f = .ok w f) ∧
      ((¬ ∃ w, look e x f = .ok w f) →
        look e x f = .error (.undefined x 0) f ∧ assign e x v f = .error (.undefined x 0) f) ∧
      (∀ g, assign e x v f = .ok () g → ∀ k y,
        (y = x ∧ f.resolve? k x = f.resolve? e x → g.get? k y = some v) ∧
        (¬ (y = x ∧ f.resolve? k x = f.resolve? e x) → g.get? k y = f.get? k y)) ∧
      ∀ k y,
        (y = x ∧ f.Sees k e x → (f.define e x v).get? k y = some v) ∧
        (¬ (y = x ∧ f.Sees k e x) → (f.define e x v).get? k y = f.get? k y) := by
  refine ⟨fun id _ => ⟨hf.grounded.walk id, f.scopes_chain id⟩, fun e he x v => ⟨?_, ?_, ?_, ?_⟩⟩
  · simp only [assign_eq_ok_iff, look_eq_ok_iff, ← Option.isSome_iff_exists, isSome_get?,
      assign?_eq_resolve?, Option.isSome_map]
  · intro hnone
    simp only [look_eq_ok_iff, ← Option.isSome_iff_exists, Option.not_isSome_iff_eq_none] at hnone
    have hresolve : f.resolve? e x = none := by
      rw [← Option.isNone_iff_eq_none, ← Option.not_isSome, ← isSome_get?, hnone]
      rfl
    rw [look, assign, hnone, assign?_eq_resolve?, hresolve]
    exact ⟨rfl, rfl⟩
  · intro g hg k y
    rw [assign_eq_ok_iff, assign?_eq_resolve?] at hg
    obtain ⟨r, hr, rfl⟩ := Option.map_eq_some_iff.1 hg
    have hhas := has_of_resolve? hr
    rw [hr, ← sees_iff_resolve? hhas]
    exact get?_update (lt_length_of_has hhas) k y
  · intro k y
    rw [define_eq_update]
    exact get?_update he k y

/-- Scope 0 binds a name.  Scopes 1 and 2 lie within it, and scope 2 binds the name again.  A new
value given from scope 1 is seen from scope 0, but not from scope 2; a declaration in scope 1 is not
seen from scope 0. -/
theorem forest_keeps_cell_law_shadowed :
    let a := utf8 "a"
    let f := (((fresh.define 0 a .nil).add (some 0)).1.add (some 0)).1.define 2 a (.boolean false)
    f.Reachable ∧ ∃ g, assign 1 a (.boolean true) f = .ok () g ∧
      g.get? 0 a = some (.boolean true) ∧ g.get? 2 a = some (.boolean false) ∧
        (f.define 1 a (.boolean true)).get? 0 a = some .nil := by
  intro a f
  have hroot : Reachable (fresh.define 0 a .nil) := .define a .nil (.root .nothing) (by decide)
  have hfirst := hroot.enclosed (o := 0) (by decide +kernel)
  have hscopes := hfirst.enclosed (o := 0) (by decide +kernel)
  have hf : f.Reachable := hscopes.define a (.boolean false) (by decide +kernel)
  obtain ⟨-, hlaw⟩ := forest_keeps_cell_law hf
  obtain ⟨hsucceeds, -, hseen, hdeclared⟩ := hlaw 1 (by decide +kernel) a (.boolean true)
  obtain ⟨g, hg⟩ := hsucceeds.2 ⟨.nil, look_eq_ok_iff.2 (by decide +kernel)⟩
  refine ⟨hf, g, hg, (hseen g hg 0 a).1 ⟨rfl, by decide +kernel⟩, ?_, ?_⟩
  · rw [(hseen g hg 2 a).2 (by decide +kernel)]
    decide +kernel
  · have hpath : f.path 0 = [0] := by decide +kernel
    have hunseen : ¬ f.Sees 0 1 a := by
      rintro ⟨nearer, outer, hsplit, -⟩
      have hmem : 1 ∈ f.path 0 := hsplit ▸ List.mem_append_right nearer List.mem_cons_self
      rw [hpath] at hmem
      exact absurd hmem (by decide)
    rw [(hdeclared 0 a).2 fun hboth => hunseen hboth.2]
    decide +kernel

end Forest

end LoxScript
