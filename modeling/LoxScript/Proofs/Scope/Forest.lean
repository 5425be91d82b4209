import LoxScript.Scope.Forest
import LoxScript.Proofs.Scope.Lookup

/-!
# Scopes with an identity

In a forest a scope is known by its number, and what is done to it is seen from every scope that it
encloses.  Declaring a name and giving it another value are defined by way of the chain that starts
at a scope; here they are told scope by scope.  A declaration changes the scope it is made in.  An
assignment goes outwards until it finds the name, and changes that scope alone.

The lemmas about chains then say that a forest is seen from each of its scopes just as a chain is.
-/

namespace LoxScript

/-- A scope gets no further name when a name that it has is bound again. -/
lemma Scope.has_put_of_has {s : Scope} {x : Bytes} (h : s.has x = true) (v : Value) (y : Bytes) :
    (s.put x v).has y = s.has y := by
  refine Bool.eq_iff_iff.2 ⟨fun hy => ?_, fun hy => (s.has_put x v y).2 (.inr hy)⟩
  rcases (s.has_put x v y).1 hy with rfl | hy
  · exact h
  · exact hy

namespace Forest

/-- The number of the scope that the walk outwards comes to next. -/
def enclosing? (f : Forest) (id : Nat) : Option Nat :=
  (f.outer? id).filter (· < id)

variable {f : Forest} {id k o : Nat} {x : Bytes} {v : Value} {s : Scope}

lemma enclosing?_eq_some_iff : f.enclosing? id = some o ↔ f.outer? id = some o ∧ o < id := by
  simp [enclosing?, Option.filter_eq_some_iff]

/-- The chain that starts at a scope goes on with the chain of the scope around it. -/
lemma chain_eq (f : Forest) (id : Nat) :
    f.chain id =
      match f.enclosing? id with
      | some o => .inner (f.scope id) (f.chain o)
      | none => .root (f.scope id) := by
  rw [chain, enclosing?]
  cases f.outer? id with
  | none => rfl
  | some o => by_cases ho : o < id <;> simp [Option.filter, ho]

/-! ### One scope is changed -/

@[simp] lemma length_update : (f.update k s).nodes.length = f.nodes.length := by
  simp [update]

lemma getElem?_update (f : Forest) (k : Nat) (s : Scope) (id : Nat) :
    (f.update k s).nodes[id]? =
      f.nodes[id]?.map fun node => if k = id then { node with scope := s } else node :=
  List.getElem?_modify _ _ _ _

@[simp] lemma outer?_update : (f.update k s).outer? id = f.outer? id := by
  rw [outer?, getElem?_update, outer?]
  cases f.nodes[id]? with
  | none => rfl
  | some node => by_cases hk : k = id <;> simp [hk]

@[simp] lemma enclosing?_update : (f.update k s).enclosing? id = f.enclosing? id := by
  rw [enclosing?, outer?_update, enclosing?]

lemma scope_update_self (h : id < f.nodes.length) : (f.update id s).scope id = s := by
  rw [scope, getElem?_update, List.getElem?_eq_getElem h, Option.map_some, if_pos rfl]

lemma scope_update_of_ne (h : id ≠ k) : (f.update k s).scope id = f.scope id := by
  rw [scope, getElem?_update, scope]
  cases f.nodes[id]? with
  | none => rfl
  | some node => simp [h.symm]

/-- Only scopes of the forest have names. -/
lemma lt_length_of_has (h : (f.scope id).has x = true) : id < f.nodes.length := by
  by_contra hlarge
  rw [scope, List.getElem?_eq_none (Nat.not_lt.1 hlarge)] at h
  cases h

lemma update_scope (f : Forest) (id : Nat) : f.update id (f.scope id) = f := by
  suffices hnodes : (f.update id (f.scope id)).nodes = f.nodes from congrArg Forest.mk hnodes
  refine List.ext_getElem? fun k => ?_
  rw [getElem?_update, scope]
  by_cases hk : id = k
  · subst hk
    cases f.nodes[id]? <;> simp
  · cases f.nodes[k]? <;> simp [hk]

/-- The walk outwards goes to older scopes, so it does not come to a younger one. -/
lemma chain_update_of_lt (h : id < k) : (f.update k s).chain id = f.chain id := by
  induction id using Nat.strongRecOn with
  | ind id ih =>
    rw [chain_eq, chain_eq f, enclosing?_update, scope_update_of_ne (Nat.ne_of_lt h)]
    cases ho : f.enclosing? id with
    | none => rfl
    | some o =>
      have hlt := (enclosing?_eq_some_iff.1 ho).2
      dsimp only
      rw [ih o hlt (Nat.lt_trans hlt h)]

/-- Putting a chain back where it starts changes nothing. -/
lemma store_chain (f : Forest) (id : Nat) : f.store id (f.chain id) = f := by
  induction id using Nat.strongRecOn with
  | ind id ih =>
    rw [chain_eq]
    cases ho : f.enclosing? id with
    | none => exact update_scope f id
    | some o =>
      obtain ⟨houter, hlt⟩ := enclosing?_eq_some_iff.1 ho
      dsimp only
      rw [store, houter]
      dsimp only
      rw [update_scope, ih o hlt]

/-! ### Names -/

/-- A declaration changes the scope that it is made in. -/
lemma define_eq_update (f : Forest) (id : Nat) (x : Bytes) (v : Value) :
    f.define id x v = f.update id ((f.scope id).put x v) := by
  rw [define, chain_eq]
  cases ho : f.enclosing? id with
  | none => rfl
  | some o =>
    obtain ⟨houter, hlt⟩ := enclosing?_eq_some_iff.1 ho
    dsimp only [Chain.define]
    rw [store, houter]
    dsimp only
    rw [← chain_update_of_lt hlt, store_chain]

/-- An assignment concerns the scope if that has the name, and else goes outwards. -/
lemma assign?_eq (f : Forest) (id : Nat) (x : Bytes) (v : Value) :
    f.assign? id x v =
      if (f.scope id).has x then some (f.update id ((f.scope id).put x v))
      else (f.enclosing? id).bind fun o => f.assign? o x v := by
  unfold assign?
  rw [chain_eq]
  cases ho : f.enclosing? id with
  | none =>
    dsimp only [Chain.assign?]
    split_ifs <;> rfl
  | some o =>
    obtain ⟨houter, hlt⟩ := enclosing?_eq_some_iff.1 ho
    dsimp only [Chain.assign?]
    split_ifs with hhas
    · rw [Option.map_some, store, houter]
      dsimp only
      rw [← chain_update_of_lt hlt, store_chain]
    · rw [Option.map_map, Option.bind_some]
      congr 1
      funext c
      rw [Function.comp_apply, store, houter]
      dsimp only
      rw [update_scope]

/-- An assignment changes one scope, which has the name already. -/
lemma exists_eq_update_of_assign? {g : Forest} (h : f.assign? id x v = some g) :
    ∃ k ≤ id, (f.scope k).has x = true ∧ g = f.update k ((f.scope k).put x v) := by
  induction id using Nat.strongRecOn with
  | ind id ih =>
    rw [assign?_eq] at h
    split_ifs at h with hhas
    · exact ⟨id, Nat.le_refl _, hhas, (Option.some.inj h).symm⟩
    · obtain ⟨o, ho, hassign⟩ := Option.bind_eq_some_iff.1 h
      have hlt := (enclosing?_eq_some_iff.1 ho).2
      obtain ⟨k, hk, hkhas, hg⟩ := ih o hlt hassign
      exact ⟨k, Nat.le_trans hk (Nat.le_of_lt hlt), hkhas, hg⟩

/-! ### The view from a scope -/

/-- Changing a scope is seen from it in the innermost scope of its chain. -/
lemma chain_update_self (h : id < f.nodes.length) :
    (f.update id s).chain id =
      match f.enclosing? id with
      | some o => .inner s (f.chain o)
      | none => .root s := by
  rw [chain_eq, enclosing?_update, scope_update_self h]
  cases ho : f.enclosing? id with
  | none => rfl
  | some o =>
    dsimp only
    rw [chain_update_of_lt (enclosing?_eq_some_iff.1 ho).2]

lemma chain_define (h : id < f.nodes.length) (x : Bytes) (v : Value) :
    (f.define id x v).chain id = (f.chain id).define x v := by
  rw [define_eq_update, chain_update_self h, chain_eq f]
  cases f.enclosing? id <;> rfl

lemma assign?_chain (f : Forest) (id : Nat) (x : Bytes) (v : Value) :
    (f.chain id).assign? x v = (f.assign? id x v).map (·.chain id) := by
  induction id using Nat.strongRecOn with
  | ind id ih =>
    rw [assign?_eq]
    by_cases hhas : (f.scope id).has x = true
    · rw [if_pos hhas, Option.map_some, chain_update_self (lt_length_of_has hhas), chain_eq]
      cases f.enclosing? id <;> simp [Chain.assign?, hhas]
    · rw [if_neg hhas, chain_eq]
      cases ho : f.enclosing? id with
      | none => simp [Chain.assign?, hhas]
      | some o =>
        have hlt := (enclosing?_eq_some_iff.1 ho).2
        dsimp only [Chain.assign?, Option.bind_some]
        rw [if_neg hhas, ih o hlt, Option.map_map]
        refine Option.map_congr fun g hg => ?_
        -- The scope that is changed lies further out, so this one stays as it is.
        obtain ⟨k, hk, -, rfl⟩ := exists_eq_update_of_assign? hg
        have hne : id ≠ k := by omega
        rw [Function.comp_apply, chain_eq _ id, enclosing?_update, ho, scope_update_of_ne hne]

/-! ### New scopes -/

lemma length_add (f : Forest) (outer : Option Nat) :
    (f.add outer).1.nodes.length = f.nodes.length + 1 := by
  simp [add]

lemma outer?_add_of_lt (h : id < f.nodes.length) (outer : Option Nat) :
    (f.add outer).1.outer? id = f.outer? id := by
  simp [outer?, add, List.getElem?_append_left h]

lemma outer?_add_self (f : Forest) (outer : Option Nat) :
    (f.add outer).1.outer? f.nodes.length = outer := by
  simp [outer?, add]

lemma scope_add_of_lt (h : id < f.nodes.length) (outer : Option Nat) :
    (f.add outer).1.scope id = f.scope id := by
  simp [scope, add, List.getElem?_append_left h]

lemma scope_add_self (f : Forest) (outer : Option Nat) :
    (f.add outer).1.scope f.nodes.length = .empty := by
  simp [scope, add]

/-- A new scope is not seen from those that were there before. -/
lemma chain_add_of_lt (h : id < f.nodes.length) (outer : Option Nat) :
    (f.add outer).1.chain id = f.chain id := by
  induction id using Nat.strongRecOn with
  | ind id ih =>
    have henclosing : (f.add outer).1.enclosing? id = f.enclosing? id := by
      rw [enclosing?, outer?_add_of_lt h, enclosing?]
    rw [chain_eq, chain_eq f, henclosing, scope_add_of_lt h]
    cases ho : f.enclosing? id with
    | none => rfl
    | some o =>
      have hlt := (enclosing?_eq_some_iff.1 ho).2
      dsimp only
      rw [ih o hlt (Nat.lt_trans hlt h)]

/-- From a scope with another one around it, the chain of that one is seen further out. -/
lemma chain_of_outer? (h : f.outer? id = some o) (hlt : o < id) :
    f.chain id = .inner (f.scope id) (f.chain o) := by
  rw [chain_eq, enclosing?_eq_some_iff.2 ⟨h, hlt⟩]

/-- A new scope sees what the scope around it sees. -/
lemma chain_add_self (h : o < f.nodes.length) :
    (f.add (some o)).1.chain f.nodes.length = (f.chain o).enter := by
  rw [chain_of_outer? (outer?_add_self f (some o)) h, scope_add_self, chain_add_of_lt h,
    Chain.enter]

end Forest

end LoxScript
