import Assignability.Proofs.Placement
import Assignability.Proofs.Runs

namespace Assignability

-- Nothing is assumed once the outermost pair is done with, so its answer tells whether the pair
-- lies in the fixed point of the rules.

namespace Engine

section
variable {base : World} {pure : base.registry.Pure} {users : Set String} {ledger : Ledger}
  {w : World} {left right : Schema} {leftScope rightScope : Scope}

-- A new query starts in order.
variable (pure) in
theorem InOrder.start (serves : Serves base users w) (sound : ledger.Sound users w.supply) :
    InOrder base pure users ledger (w.setEngine reset) :=
  ⟨⟨serves.anyLeft, serves.cycle, serves.kinds, serves.handlers⟩, sound,
    fun _ none => (List.not_mem_nil none).elim, fun _ _ none => (List.not_mem_nil none).elim,
    fun _ _ none => (List.not_mem_nil none).elim, fun _ _ none => (List.not_mem_nil none).elim⟩

theorem opening_ready (order : InOrder base pure users ledger w)
    (known : ∀ s ∈ left :: right :: (leftScope ++ rightScope), s ∈ ledger.schemas) :
    ∃ after leftMark rightMark v,
      opening left right leftScope rightScope w =
        (⟨left, leftScope, leftMark⟩, ⟨right, rightScope, rightMark⟩, v) ∧
      InOrder base pure users after v ∧ Follows w v ∧
      after.Knows ⟨left, leftScope, leftMark⟩ ∧ after.Knows ⟨right, rightScope, rightMark⟩ := by
  obtain ⟨first, leftMark, supply, grown, sound, same, knowsLeft⟩ :=
    order.sound.site_of leftScope (known left (by simp))
      fun t member => known t (by simp [member])
  have order' := order.supplied grown sound
  obtain ⟨second, rightMark, supply', grown', sound', same', knowsRight⟩ :=
    order'.sound.site_of rightScope (grown.schemas (known right (by simp)))
      fun t member => grown.schemas (known t (by simp [member]))
  refine ⟨second, leftMark, rightMark, { w with supply := supply' }, ?_,
    order.supplied (grown.trans grown') sound', ?_, knowsLeft.later grown', knowsRight⟩
  · simp only [opening, same, same']
  · exact ⟨rfl, rfl, rfl, fun _ member => member, fun a used => ⟨a, Nat.le_refl _, used⟩⟩

-- With no pair active there is nothing to rely on.
variable (pure) in
theorem provisional_idle {u : World} (idle : u.engine.active = []) :
    provisional base pure u = settled base.engine.settings.cycleResult base pure := by
  have nothing : relied base.registry u = ∅ := by
    refine Set.eq_empty_iff_forall_notMem.mpr ?_
    rintro q ⟨p, -, a, depth, -, -, active, -⟩
    rw [idle] at active
    cases active
  rw [provisional, nothing, granted_empty, Set.union_empty, settled]

-- The answer of an outermost query, measured against any world that the run serves.
variable (pure) in
theorem query_settled (serves : Serves base users w) (sound : ledger.Sound users w.supply)
    (known : ∀ s ∈ left :: right :: (leftScope ++ rightScope), s ∈ ledger.schemas)
    (idle : w.engine.active = []) {depth : Nat} {b : Bool}
    (returned : (query (compareSchemas depth left right leftScope rightScope) w).1 = .ok b)
    (leftMark rightMark : Nat) :
    b = base.engine.settings.cycleResult ↔
      (⟨left, leftScope, leftMark⟩, ⟨right, rightScope, rightMark⟩) ∈
        settled base.engine.settings.cycleResult base pure := by
  obtain ⟨after, m, n, v, opened, order, follows, knowsLeft, knowsRight⟩ :=
    opening_ready (InOrder.start pure serves sound) known
  obtain ⟨-, change, answered⟩ := visit_keeps depth after _ _ knowsLeft knowsRight v
    ⟨after, .refl _, order⟩
  have ran : (visit depth ⟨left, leftScope, m⟩ ⟨right, rightScope, n⟩ v).1 = .ok b := by
    simp only [query, idle, List.isEmpty_nil, if_true, compareSchemas_eq, opened] at returned
    exact returned
  have verdict : Verdict base pure _ _ _ b := answered b ran
  have nothing := provisional_idle pure (change.active.trans follows.active)
  -- Scopes are the same whatever their marks.
  have moved : PairsAlike base.registry (⟨left, leftScope, m⟩, ⟨right, rightScope, n⟩)
      (⟨left, leftScope, leftMark⟩, ⟨right, rightScope, rightMark⟩) :=
    ⟨Site.Twin.alike ⟨rfl, .refl _⟩, Site.Twin.alike ⟨rfl, .refl _⟩⟩
  constructor
  · intro favoured
    refine settled_closed pure _ _ moved ?_
    rw [← nothing]
    exact verdict.favoured favoured
  · intro member
    refine Classical.byContradiction fun differs => verdict.other differs ?_
    exact settled_closed pure _ _ ((pairsAlike_equivalence _).symm moved) member

end

-- A world like `w` in which no user kind has a rule: runs that meet no kind with a rule serve it.
def withoutRules (w : World) : World :=
  { w with registry := w.registry.map fun p => (p.1, none) }

theorem withoutRules_handler (w : World) (kind : String) :
    (withoutRules w).registry.handler? kind = none := by
  unfold withoutRules Registry.handler? Registry.get?
  induction w.registry with
  | nil => rfl
  | cons p rest ih =>
    simp only [List.map_cons, List.lookup_cons]
    split
    · rfl
    · exact ih

theorem withoutRules_kinds (w : World) : w.registry.SameKinds (withoutRules w).registry := by
  intro kind
  cases kind with
  | user name => simp [withoutRules, Registry.knows, Registry.has, List.any_map, Function.comp_def]
  | _ => rfl

theorem withoutRules_pure (w : World) : (withoutRules w).registry.Pure := by
  intro kind handler found
  rw [withoutRules_handler] at found
  cases found

theorem serves_withoutRules {w : World} {users : Set String}
    (noRules : ∀ kind ∈ users, w.registry.handler? kind = none) :
    Serves (withoutRules w) users w :=
  ⟨rfl, rfl, withoutRules_kinds w, fun kind member => by rw [noRules kind member,
    withoutRules_handler]⟩

-- Measured against the world it runs in, a query decides the greatest fixed point of the rules if
-- pairs that are being compared are taken to hold, and the least one if they are taken not to.
theorem query_decides_fixedPoint {w : World} (pure : w.registry.Pure) {left right : Schema}
    {leftScope rightScope : Scope}
    (placed : Placed w.supply (left :: right :: (leftScope ++ rightScope)))
    (idle : w.engine.active = []) {depth : Nat} {b : Bool}
    (returned : (query (compareSchemas depth left right leftScope rightScope) w).1 = .ok b)
    (leftMark rightMark : Nat) :
    (w.engine.settings.cycleResult = true → (b = true ↔
      (⟨left, leftScope, leftMark⟩, ⟨right, rightScope, rightMark⟩) ∈ (rules w pure).gfp)) ∧
    (w.engine.settings.cycleResult = false → (b = true ↔
      (⟨left, leftScope, leftMark⟩, ⟨right, rightScope, rightMark⟩) ∈ (rules w pure).lfp)) := by
  obtain ⟨ledger, sound, known⟩ := Ledger.exists_of_placed Set.univ placed
    List.mem_cons_self fun _ _ _ _ => trivial
  have answer := query_settled pure
    ⟨rfl, rfl, fun _ => rfl, fun _ _ => rfl⟩ sound known idle returned leftMark rightMark
  refine ⟨fun cycle => ?_, fun cycle => ?_⟩
  · rw [cycle, settled_true] at answer
    exact answer
  · rw [cycle, settled_false] at answer
    rw [← Set.notMem_compl_iff, ← answer]
    cases b <;> simp

theorem ok_of_toOption {r : Except Fault Bool} {b : Bool} (found : r.toOption = some b) :
    r = .ok b := by
  cases r with
  | error _ => cases found
  | ok _ => exact congrArg Except.ok (Option.some.inj found)

theorem nil_pure : Registry.Pure [] := fun _ _ found => nomatch found

-- A world in which two endless schemas were placed.
def twoEndless (cycleResult : Bool) : World :=
  { supply := 5, engine := { settings := { cycleResult } } }

theorem endless_in_fixedPoint :
    (⟨(Schema.endless.place 3).1, [], 0⟩, ⟨(Schema.endless.place 1).1, [], 0⟩) ∈
      (rules (twoEndless true) nil_pure).gfp ∧
    (⟨(Schema.endless.place 3).1, [], 0⟩, ⟨(Schema.endless.place 1).1, [], 0⟩) ∉
      (rules (twoEndless false) nil_pure).lfp := by
  constructor
  · have answer := @query_decides_fixedPoint (twoEndless true) nil_pure _ _ [] [] endless_placed
      rfl 4 true rfl 0 0
    exact (answer.1 rfl).mp rfl
  · have answer := @query_decides_fixedPoint (twoEndless false) nil_pure _ _ [] [] endless_placed
      rfl 4 false rfl 0 0
    intro member
    cases (answer.2 rfl).mpr member

end Engine

end Assignability
