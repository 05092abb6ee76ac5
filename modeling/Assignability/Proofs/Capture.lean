import Assignability.Proofs.Invocations
import Mathlib.Data.List.Nodup

namespace Assignability

open Relation (ReflTransGen)

-- Scopes are only ever added to at their end, so what a reference stands for at a pair, it stands
-- for at every pair below, whatever ids are used again on the way.

namespace Scope

-- No schema is in the scope twice.
def Distinct (scope : Scope) : Prop := (scope.map Schema.mark).Nodup

section
variable {scope longer : Scope} {s n c : Schema} {target : Value}

theorem push_grows (scope : Scope) (s : Schema) : scope <+: scope.push s := by
  rcases push_cases scope s with same | added
  · exact ⟨[], (List.append_nil scope).trans same.symm⟩
  · exact ⟨[s], added.symm⟩

theorem resolve_grows (grown : scope <+: longer) (found : scope.resolve? target = some n) :
    longer.resolve? target = some n := by
  obtain ⟨more, rfl⟩ := grown
  simp only [resolve?, List.find?_append] at found ⊢
  rw [found]
  rfl

theorem Distinct.push (distinct : scope.Distinct) (s : Schema) : (scope.push s).Distinct := by
  unfold Scope.push
  split
  · exact distinct
  · rename_i new
    have apart : ∀ entry ∈ scope, entry.mark ≠ s.mark := by
      intro entry member same
      apply new
      exact Bool.or_eq_true_iff.mpr (.inr (List.any_eq_true.mpr ⟨entry, member, by simp [same]⟩))
    simp only [Distinct, List.map_append, List.map_cons, List.map_nil]
    refine List.nodup_append.mpr ⟨distinct, List.nodup_singleton _, ?_⟩
    intro mark before mark' here same
    obtain ⟨entry, member, rfl⟩ := List.mem_map.mp before
    exact apart entry member (same.trans (List.mem_singleton.mp here))

-- The first schema of a chain is in its scope only because the chain started from it. A chain that
-- comes back to it never ends, so nothing is lost when another entry has taken its place.
theorem resolve_beside (more : Scope) (found : (scope.push n).resolve? target = some c)
    (other : c ≠ n) : ((scope ++ more).push n).resolve? target = some c := by
  have within : scope.resolve? target = some c := by
    rcases push_cases scope n with same | added
    · rwa [same] at found
    · rw [added] at found
      simp only [resolve?, List.find?_append] at found ⊢
      cases inside : scope.find? fun entry => entry.id.equal target with
      | some entry => rwa [inside] at found
      | none =>
        simp only [inside, Option.none_or] at found
        have here : c = n := List.mem_singleton.mp (List.mem_of_find?_eq_some found)
        exact absurd here other
  exact resolve_grows ((List.prefix_append scope more).trans (push_grows _ n)) within

-- The chain that starts from `n`, from some schema of it on.
theorem follow_append {more after : Scope} {steps steps' : Nat} {passed : List Nat}
    (enough : steps ≤ steps') (started : s = n ∨ n.isReference = true ∧ n.mark ∈ passed)
    (reached : (scope.push n).follow steps passed s = .ok (c, after)) :
    ((scope ++ more).push n).follow steps' passed s = .ok (c, (scope ++ more).push n) := by
  induction steps generalizing steps' passed s with
  | zero =>
    unfold follow at reached ⊢
    split at reached
    · split at reached <;> cases reached
    · cases reached
      rfl
  | succ steps ih =>
    obtain ⟨steps', rfl⟩ : ∃ k, steps' = k + 1 := ⟨steps' - 1, by omega⟩
    unfold follow at reached ⊢
    split at reached
    · rename_i form target shape
      have reference : s.isReference = true := by simp [Schema.isReference, shape]
      split at reached
      · cases reached
      · rename_i new
        simp only at reached
        split at reached
        · cases reached
        · rename_i next found
          rw [push_of_mem (resolve_mem found)] at reached
          have begun : n.isReference = true ∧ n.mark ∈ s.mark :: passed := by
            rcases started with rfl | ⟨first, before⟩
            · exact ⟨reference, .head _⟩
            · exact ⟨first, .tail _ before⟩
          have other : next ≠ n := by
            rintro rfl
            unfold follow at reached
            split at reached
            · rw [if_pos (List.contains_iff_mem.mpr begun.2)] at reached
              cases reached
            · simp_all [Schema.isReference]
          have found' := resolve_beside more found other
          have onward := ih (Nat.le_of_succ_le_succ enough) (.inr begun) reached
          simp only [if_neg new, found', push_of_mem (resolve_mem found'), onward]
    · cases reached
      rfl

theorem dereference_append (more : Scope) {after : Scope}
    (reached : scope.dereference s = .ok (c, after)) :
    (scope ++ more).dereference s = .ok (c, (scope ++ more).push s) := by
  have longer : (scope.push s).length ≤ ((scope ++ more).push s).length := by
    cases more with
    | nil => simp
    | cons first rest =>
      have grown := (push_grows (scope ++ first :: rest) s).length_le
      rcases push_cases scope s with same | added
      · rw [same]
        exact Nat.le_trans (by simp) grown
      · rw [added]
        exact Nat.le_trans (by simp) grown
  exact follow_append (Nat.add_le_add_right longer 2) (.inl rfl) reached

end

end Scope

namespace Site

-- From a prepared site to the next one below it: to a child, if there is one to go to, and on to
-- what that stands for.
def Descends (p q : Site) : Prop :=
  ∃ z, p.Moves z ∧ ∃ w w', Engine.prepare z w = (.ok q, w')

def Reaches : Site → Site → Prop := ReflTransGen Descends

section
variable {p q : Site}

theorem prepare_scope_eq {w w' : World} (prepared : Engine.prepare p w = (.ok q, w')) :
    q.scope = p.scope.push p.schema := by
  obtain ⟨⟨t, reached, -⟩, -, -, -⟩ := Engine.prepare_ok prepared
  exact (Scope.dereference_ok reached).1

theorem Moves.scope (moved : p.Moves q) : q.scope = p.scope := by
  cases moved <;> rfl

theorem Descends.scope (down : p.Descends q) : p.scope <+: q.scope := by
  obtain ⟨z, moved, w, w', prepared⟩ := down
  rw [prepare_scope_eq prepared, moved.scope]
  exact Scope.push_grows _ _

theorem Reaches.scope (reaches : p.Reaches q) : p.scope <+: q.scope := by
  induction reaches with
  | refl => exact List.prefix_refl _
  | tail _ down ih => exact ih.trans down.scope

end

end Site

namespace Invocation

-- What a rule made up for one of the pairs below, or a part of it.
def Makes (i : Invocation) (s : Schema) : Prop :=
  ∃ k c, i.Below k ∧ k.comparison? = some c ∧
    s ∈ (Rule.made c.world.supply c.left.schema c.right.schema).parts

def Traces (i : Invocation) (l r q : Site) : Prop :=
  l.Reaches q ∨ r.Reaches q ∨ i.Makes q.schema

-- Where the two sides of a pair below come from: from the two sides of the first pair, be it
-- straight or crossed, unless a rule has made one of them up.
inductive Carries (i : Invocation) (l r : Site) : Site → Site → Prop
  | straight {x y : Site} : l.Reaches x → r.Reaches y → Carries i l r x y
  | crossed {x y : Site} : r.Reaches x → l.Reaches y → Carries i l r x y
  | made {x y : Site} : i.Makes x.schema → i.Traces l r y → Carries i l r x y
  | against {x y : Site} : i.Traces l r x → i.Makes y.schema → Carries i l r x y

section
variable {i j k : Invocation} {l r x y x' y' : Site}

-- There is nothing to follow or to expand in what a rule makes up.
theorem Makes.descends (made : i.Makes x.schema) (down : x.Descends x') : i.Makes x'.schema := by
  obtain ⟨k, c, below, comparison, inside⟩ := made
  obtain ⟨z, moved, w, w', prepared⟩ := down
  have inside' : z.schema ∈ (Rule.made c.world.supply c.left.schema c.right.schema).parts := by
    cases moved with
    | stays => exact inside
    | enters child => exact parts_children inside child
  have plain : z.schema.isReference = false ∧ z.schema.isTemplate = false := by
    rcases Rule.made_parts inside' with ⟨_, shape⟩ | ⟨_, shape⟩ | ⟨_, _, _, shape⟩ <;>
      simp [Schema.isReference, Schema.isTemplate, shape]
  obtain ⟨⟨t, reached, resolved⟩, -, -, -⟩ := Engine.prepare_ok prepared
  rw [Scope.dereference_concrete plain.1] at reached
  obtain ⟨rfl, -⟩ := Prod.mk.inj (Except.ok.inj reached)
  rw [resolved_self plain.2] at resolved
  obtain ⟨same, -⟩ := Prod.mk.inj resolved
  exact ⟨k, c, below, comparison, same ▸ inside'⟩

theorem Traces.descends (traces : i.Traces l r x) (down : x.Descends x') : i.Traces l r x' := by
  rcases traces with onLeft | onRight | made
  · exact .inl (onLeft.tail down)
  · exact .inr (.inl (onRight.tail down))
  · exact .inr (.inr (made.descends down))

theorem Carries.flip (carries : i.Carries l r x y) : i.Carries l r y x := by
  cases carries with
  | straight onLeft onRight => exact .crossed onRight onLeft
  | crossed onLeft onRight => exact .straight onRight onLeft
  | made made traces => exact .against traces made
  | against traces made => exact .made made traces

theorem Carries.right (carries : i.Carries l r x y) : i.Traces l r y := by
  cases carries with
  | straight _ onRight => exact .inr (.inl onRight)
  | crossed _ onRight => exact .inl onRight
  | made _ traces => exact traces
  | against _ made => exact .inr (.inr made)

theorem Carries.descends (carries : i.Carries l r x y) (first : x.Descends x')
    (second : y.Descends y') : i.Carries l r x' y' := by
  cases carries with
  | straight onLeft onRight => exact .straight (onLeft.tail first) (onRight.tail second)
  | crossed onLeft onRight => exact .crossed (onLeft.tail first) (onRight.tail second)
  | made made traces => exact .made (made.descends first) (traces.descends second)
  | against traces made => exact .against (traces.descends first) (made.descends second)

-- From a pair to a pair that it asks for.
theorem Carries.step {c : Comparison} {u v w : World} (below : i.Below k)
    (comparison : k.comparison? = some c) (carries : i.Carries l r c.left c.right)
    (asks : Rule.Asks c.world.supply c.left c.right x y)
    (first : Engine.prepare x u = (.ok x', v)) (second : Engine.prepare y v = (.ok y', w)) :
    i.Carries l r x' y' := by
  have made : x.schema = Rule.made c.world.supply c.left.schema c.right.schema →
      i.Makes x'.schema := by
    intro same
    have here : i.Makes x.schema := ⟨k, c, below, comparison, same ▸ self_mem_parts _⟩
    exact here.descends ⟨x, .stays, _, _, first⟩
  cases asks with
  | onward onLeft onRight _ =>
    exact carries.descends ⟨_, onLeft, _, _, first⟩ ⟨_, onRight, _, _, second⟩
  | swapped onLeft onRight _ =>
    exact carries.flip.descends ⟨_, onRight, _, _, first⟩ ⟨_, onLeft, _, _, second⟩
  | member _ onRight =>
    exact .made (made rfl) (carries.right.descends ⟨_, onRight, _, _, second⟩)
  | item _ onRight =>
    exact .made (made rfl) (carries.right.descends ⟨_, onRight, _, _, second⟩)

theorem Below.carries {u w : World} (below : i.Below j) (pair : i.pair? = some (l, r, u))
    (pair' : j.pair? = some (x, y, w)) : i.Carries l r x y := by
  induction below generalizing x y w with
  | refl =>
    cases pair.symm.trans pair'
    exact .straight .refl .refl
  | @tail k j below steps ih =>
    obtain ⟨c, comparison, asks⟩ := steps.asked
    obtain ⟨-, v, first, second⟩ := pair_prepared pair'
    exact (ih (comparison_pair comparison).1).step below comparison asks first second

theorem pair_scopes {w : World} (pair : i.pair? = some (x, y, w)) :
    x.scope = i.left.scope.push i.left.schema ∧ y.scope = i.right.scope.push i.right.schema := by
  obtain ⟨-, v, first, second⟩ := pair_prepared pair
  exact ⟨Site.prepare_scope_eq first, Site.prepare_scope_eq second⟩

theorem distinct_asks {mark : Nat} (asks : Rule.Asks mark l r x y) (onLeft : l.scope.Distinct)
    (onRight : r.scope.Distinct) : x.scope.Distinct ∧ y.scope.Distinct := by
  cases asks with
  | onward moved moved' _ => exact ⟨moved.scope ▸ onLeft, moved'.scope ▸ onRight⟩
  | swapped moved moved' _ => exact ⟨moved'.scope ▸ onRight, moved.scope ▸ onLeft⟩
  | member _ moved => exact ⟨List.nodup_nil, moved.scope ▸ onRight⟩
  | item _ moved => exact ⟨onLeft, moved.scope ▸ onRight⟩

theorem Below.distinct (below : i.Below j) (onLeft : i.left.scope.Distinct)
    (onRight : i.right.scope.Distinct) : j.left.scope.Distinct ∧ j.right.scope.Distinct := by
  induction below with
  | refl => exact ⟨onLeft, onRight⟩
  | tail _ steps ih =>
    obtain ⟨c, comparison, asks⟩ := steps.asked
    obtain ⟨first, second⟩ := pair_scopes (comparison_pair comparison).1
    exact distinct_asks asks (first ▸ ih.1.push _) (second ▸ ih.2.push _)

-- References are never recaptured. A schema that comes to another in its scope comes to the same
-- one in every longer scope, and scopes only get longer on the way from a pair to those below it.
theorem references_stay_bound :
    (∀ (scope more : Scope) (s c : Schema) (after : Scope), scope.dereference s = .ok (c, after) →
      ∃ after', (scope ++ more).dereference s = .ok (c, after') ∧ scope ++ more <+: after') ∧
    (∀ p q : Site, p.Reaches q → p.scope <+: q.scope ∧
      ∀ target n, p.scope.resolve? target = some n → q.scope.resolve? target = some n) ∧
    ∀ (i j : Invocation) (x y : Site) (w : World), i.Below j → j.pair? = some (x, y, w) →
      (∀ l r u, i.pair? = some (l, r, u) → i.Carries l r x y) ∧
      (i.left.scope.Distinct → i.right.scope.Distinct →
        x.scope.Distinct ∧ y.scope.Distinct) := by
  refine ⟨fun scope more s c after reached => ?_, fun p q reaches => ?_,
    fun i j x y w below pair => ⟨?_, ?_⟩⟩
  · exact ⟨_, Scope.dereference_append more reached, Scope.push_grows _ s⟩
  · exact ⟨reaches.scope, fun _ _ found => Scope.resolve_grows reaches.scope found⟩
  · exact fun l r u first => below.carries first pair
  · intro onLeft onRight
    obtain ⟨left, right⟩ := below.distinct onLeft onRight
    obtain ⟨first, second⟩ := pair_scopes pair
    exact ⟨first ▸ left.push _, second ▸ right.push _⟩

end

-- The id is used again inside a parameter. The reference in there still stands for the outer
-- schema, on either side and after the sides were swapped.
def inner (mark : Nat) : Schema := .mk mark .null false (.reference .ref (.text "node"))

def reusing (mark : Nat) : Schema :=
  .mk mark (.text "node") false (.object [("accept", .mk (mark + 1) .null false
    (.callable .function
      [.mk (mark + 2) (.text "node") false (.object [("next", inner (mark + 3))] .null)]
      (.mk (mark + 4) .null false (.basic .void))))] .null)

def reusingQuery : Invocation := ofQuery 9 (reusing 10) (reusing 20) [] [] {}

theorem reused_id_stays_bound :
    (∃ after,
      Scope.dereference ([reusing 10] ++ [reusing 30]) (inner 13) = .ok (reusing 10, after) ∧
      [reusing 10] ++ [reusing 30] <+: after) ∧
    ∃ j x y w l r u, reusingQuery.Below j ∧ j.pair? = some (x, y, w) ∧
      reusingQuery.pair? = some (l, r, u) ∧ j.left = ⟨inner 23, x.scope, x.scopeMark⟩ ∧
      x.schema = reusing 20 ∧ y.schema = reusing 10 ∧
      (x.scope ++ y.scope).map Schema.mark = [20, 22, 10, 12] ∧
      reusingQuery.Carries l r x y ∧ x.scope.Distinct ∧ y.scope.Distinct := by
  obtain ⟨dereferences, -, below⟩ := references_stay_bound
  have reached : Scope.dereference [reusing 10] (inner 13) = .ok (reusing 10, [reusing 10]) := rfl
  refine ⟨dereferences _ [reusing 30] _ _ _ reached, ?_⟩
  have accept : ∃ i, reusingQuery.Steps i ∧ ∃ k, i.Steps k ∧ ∃ j, k.Steps j ∧
      ∃ x y w, j.pair? = some (x, y, w) ∧ j.left = ⟨inner 23, x.scope, x.scopeMark⟩ ∧
        x.schema = reusing 20 ∧ y.schema = reusing 10 ∧
        (x.scope ++ y.scope).map Schema.mark = [20, 22, 10, 12] :=
    ⟨_, ⟨_, rfl, List.mem_cons_self⟩, _, ⟨_, rfl, List.mem_cons_self⟩,
      _, ⟨_, rfl, List.mem_cons_self⟩, _, _, _, rfl, rfl, rfl, rfl, rfl⟩
  obtain ⟨i, first, k, second, j, third, x, y, w, pair, reference, outer, other, scopes⟩ := accept
  have way : reusingQuery.Below j := ((ReflTransGen.single first).tail second).tail third
  obtain ⟨carries, distinct⟩ := below reusingQuery j x y w way pair
  have start : reusingQuery.pair? =
      some (⟨reusing 10, [reusing 10], _⟩, ⟨reusing 20, [reusing 20], _⟩, _) := rfl
  obtain ⟨left, right⟩ := distinct List.nodup_nil List.nodup_nil
  exact ⟨j, x, y, w, _, _, _, way, pair, start, reference, outer, other, scopes,
    carries _ _ _ start, left, right⟩

end Invocation

end Assignability
