import Assignability.Proofs.Resolution
import Assignability.Traversal

namespace Assignability

-- A traversal visits what a reference finds one level deeper, dereferencing goes along the same
-- chain in a loop. Both stop at the same schema, with the same scope.

namespace Scope

-- Where following a chain stops: at a schema that is no reference, at a reference that names
-- nobody, or at one that it has passed.
theorem follow_arrives (scope : Scope) (steps : Nat) (passed : List Nat) (s : Schema) :
    ∃ chain u, scope.Passes s chain u ∧
      (u.isReference = false ∧ scope.follow steps passed s = .ok (u, scope) ∨
        ∃ form target, u.shape = .reference form target ∧
          (scope.resolve? target = none ∧
              scope.follow steps passed s = .error (.unresolved target) ∨
            scope.follow steps passed s = .error (.endlessChain target))) := by
  induction steps generalizing passed s with
  | zero =>
    unfold follow
    split
    · rename_i form target shape
      refine ⟨[], s, .here, .inr ⟨form, target, shape, .inr ?_⟩⟩
      split <;> rfl
    · exact ⟨[], s, .here, .inl ⟨by simp [Schema.isReference], rfl⟩⟩
  | succ steps ih =>
    unfold follow
    split
    · rename_i form target shape
      split
      · exact ⟨[], s, .here, .inr ⟨form, target, shape, .inr rfl⟩⟩
      · cases found : scope.resolve? target with
        | none => exact ⟨[], s, .here, .inr ⟨form, target, shape, .inl ⟨found, rfl⟩⟩⟩
        | some next =>
          simp only [push_of_mem (resolve_mem found)]
          obtain ⟨chain, u, passes, stops⟩ := ih (s.mark :: passed) next
          exact ⟨s :: chain, u, .next ((onward_reference shape).trans found) passes, stops⟩
    · exact ⟨[], s, .here, .inl ⟨by simp [Schema.isReference], rfl⟩⟩

end Scope

namespace Traversal

section
variable {α β : Type} (r : Registry) (t : Traversal α β) {scope : Scope} {s n u : Schema}
  {chain : List Schema} (arguments : β)

-- A reference is visited as what it stands for, which is in the scope already.
theorem dispatch_onward (onward : scope.onward? s = some n) (depth : Nat) :
    dispatch r t (visit r t (depth + 1)) s scope arguments =
      dispatch r t (visit r t depth) n scope arguments := by
  cases shape : s.shape with
  | reference form target =>
    rw [Scope.onward_reference shape] at onward
    simp only [dispatch, shape, onward, visit, Scope.push_of_mem (Scope.resolve_mem onward)]
  | _ => simp [Scope.onward?, shape] at onward

-- Each reference that is passed takes one level.
theorem dispatch_passes (passes : scope.Passes s chain u) (depth : Nat) :
    dispatch r t (visit r t (depth + chain.length)) s scope arguments =
      dispatch r t (visit r t depth) u scope arguments := by
  induction passes with
  | here => rfl
  | next onward _ ih =>
    rw [List.length_cons, ← Nat.add_assoc, dispatch_onward r t arguments onward, ih]

theorem visit_passes (passes : (scope.push s).Passes s chain u) (depth : Nat) :
    visit r t (depth + chain.length + 1) s scope arguments =
      dispatch r t (visit r t depth) u (scope.push s) arguments :=
  dispatch_passes r t arguments passes depth

theorem dispatch_unresolved {form : ReferenceForm} {target : Value}
    (shape : u.shape = .reference form target) (nobody : scope.resolve? target = none)
    (go : Schema → Scope → β → Except Fault α) :
    dispatch r t go u scope arguments = .error (.unresolved target) := by
  simp only [dispatch, shape, nobody]

-- A traversal does with a schema what it does with the schema that dereferencing comes to, in the
-- scope that dereferencing gives, and fails where dereferencing finds a reference that names
-- nobody. It has to nest one level deeper for each reference on the way.
theorem visit_dereferences (s : Schema) (scope : Scope) :
    (∀ c after, scope.dereference s = .ok (c, after) →
      ∃ chain, (scope.push s).Passes s chain c ∧ ∀ depth,
        visit r t (depth + chain.length + 1) s scope arguments =
          dispatch r t (visit r t depth) c after arguments) ∧
    ∀ target, scope.dereference s = .error (.unresolved target) →
      ∃ chain u form, (scope.push s).Passes s chain u ∧ u.shape = .reference form target ∧
        (scope.push s).resolve? target = none ∧ ∀ depth,
          visit r t (depth + chain.length + 1) s scope arguments = .error (.unresolved target) := by
  obtain ⟨chain, u, passes, stops⟩ :=
    Scope.follow_arrives (scope.push s) ((scope.push s).length + 2) [] s
  change _ ∧ scope.dereference s = _ ∨ _ at stops
  constructor
  · intro c after reached
    rcases stops with ⟨-, stopped⟩ | ⟨form, target, -, ⟨-, stopped⟩ | stopped⟩
    · cases reached.symm.trans stopped
      exact ⟨chain, passes, visit_passes r t arguments passes⟩
    · cases reached.symm.trans stopped
    · cases reached.symm.trans stopped
  · intro target failed
    rcases stops with ⟨-, stopped⟩ | ⟨form, other, shape, ⟨nobody, stopped⟩ | stopped⟩
    · cases failed.symm.trans stopped
    · cases failed.symm.trans stopped
      refine ⟨chain, u, form, passes, shape, nobody, fun depth => ?_⟩
      rw [visit_passes r t arguments passes]
      exact dispatch_unresolved r t arguments shape nobody _
    · cases failed.symm.trans stopped

end

-- A chain that ends at a schema, and one that no entry answers.
theorem chains_visited :
    (∃ k, ∀ depth, visit [] Path.traversal (depth + k + 1) (Scope.chainFrom "a") Scope.chains
      ["argument"] =
        .ok (.node .string ((Scope.chains ++ [Scope.chainFrom "a"]).map (·.id)) ["argument"]
          [])) ∧
    ∃ k, ∀ depth, visit [] Path.traversal (depth + k + 1) (Scope.chainFrom "d") Scope.chains
      ["argument"] = .error (.unresolved (.text "gone")) := by
  obtain ⟨arrives, -⟩ := visit_dereferences [] Path.traversal ["argument"] (Scope.chainFrom "a")
    Scope.chains
  obtain ⟨-, fails⟩ := visit_dereferences [] Path.traversal ["argument"] (Scope.chainFrom "d")
    Scope.chains
  obtain ⟨chain, -, visited⟩ := arrives _ _ rfl
  obtain ⟨chain', _, _, -, -, -, failed⟩ := fails (.text "gone") rfl
  exact ⟨⟨chain.length, fun depth => (visited depth).trans rfl⟩, chain'.length, failed⟩

end Traversal

end Assignability
