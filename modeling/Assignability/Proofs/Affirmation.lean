import Assignability.Proofs.Mirroring

namespace Assignability

-- What each round of the rules carries over from pairs to other pairs is carried over by whole
-- queries. Rules never ask for a comparison to fail, so whoever assumes more affirms more.

section
variable {α β : Type} {f : Set α →o Set α} {g : Set β →o Set β} {related : α → β → Prop}
  (round : ∀ pairs others, (∀ p q, related p q → p ∈ pairs → q ∈ others) →
    ∀ p q, related p q → p ∈ f pairs → q ∈ g others) {p : α} {q : β} (same : related p q)
include round same

theorem gfp_carries (member : p ∈ f.gfp) : q ∈ g.gfp := by
  let reached : Set β := {q | ∃ p ∈ f.gfp, related p q}
  have consistent : reached ⊆ g reached := by
    rintro q ⟨p, member, same⟩
    refine round f.gfp reached (fun p q same member => ⟨p, member, same⟩) p q same ?_
    rwa [OrderHom.map_gfp]
  exact OrderHom.le_gfp g consistent ⟨p, member, same⟩

theorem lfp_carries (member : p ∈ f.lfp) : q ∈ g.lfp := by
  let safe : Set α := {p | ∀ q, related p q → q ∈ g.lfp}
  have closed : f safe ⊆ safe := by
    intro p member q same
    rw [← OrderHom.map_lfp]
    exact round safe g.lfp (fun p q same member => member q same) p q same member
  exact OrderHom.lfp_le f closed member q same

end

namespace Engine

-- The pairs that hold.
noncomputable def affirmed (w : World) (pure : w.registry.Pure) : Set (Site × Site) :=
  if w.engine.settings.cycleResult then (rules w pure).gfp else (rules w pure).lfp

section
variable {w w' : World} {pure : w.registry.Pure} {pure' : w'.registry.Pure}

theorem mem_affirmed {b : Bool} {p : Site × Site}
    (answer : b = w.engine.settings.cycleResult ↔
      p ∈ settled w.engine.settings.cycleResult w pure) : b = true ↔ p ∈ affirmed w pure := by
  unfold affirmed
  cases cycle : w.engine.settings.cycleResult with
  | true =>
    rw [cycle, settled_true] at answer
    exact answer
  | false =>
    rw [cycle, settled_false] at answer
    rw [← Set.notMem_compl_iff, if_neg Bool.false_ne_true, ← answer]
    cases b <;> simp

-- What one round carries over, runs carry over that assume no less.
theorem affirmed_carries {related : Site × Site → Site × Site → Prop}
    (round : ∀ pairs others, (∀ p q, related p q → p ∈ pairs → q ∈ others) →
      ∀ p q, related p q → p ∈ rules w pure pairs → q ∈ rules w' pure' others)
    (cycle : w.engine.settings.cycleResult ≤ w'.engine.settings.cycleResult) {p q : Site × Site}
    (same : related p q) (member : p ∈ affirmed w pure) : q ∈ affirmed w' pure' := by
  unfold affirmed at member ⊢
  cases granted : w.engine.settings.cycleResult with
  | true =>
    rw [granted] at cycle
    rw [if_pos granted] at member
    rw [if_pos (Bool.eq_true_of_true_le cycle)]
    exact gfp_carries round same member
  | false =>
    rw [granted, if_neg Bool.false_ne_true] at member
    have least := lfp_carries round same member
    split
    · exact OrderHom.lfp_le_gfp (rules w' pure') least
    · exact least

end

section
variable {w w' : World} {left right : Schema} {leftScope rightScope : Scope}

theorem goal_yields_larger {settings larger : Settings}
    (anyLeft : settings.anyLeftResult ≤ larger.anyLeftResult) {registry : Registry} {mark : Nat}
    {l r : Site} {evidence : Evidence}
    (yields : (Rule.goal settings registry mark l r).Yields evidence true) :
    (Rule.goal larger registry mark l r).Yields evidence true := by
  rw [Rule.goal_eq] at yields ⊢
  by_cases isAny : l.schema.kind = .any
  · simp only [isAny, if_true] at yields ⊢
    split_ifs at yields ⊢
    case neg =>
      rw [Goal.answer_yields] at yields ⊢
      rw [yields] at anyLeft
      exact Bool.eq_true_of_true_le anyLeft
    all_goals exact yields
  · simp only [isAny, if_false] at yields ⊢
    exact yields

-- One round under larger settings.
theorem rules_larger (pure : w.registry.Pure) (pure' : w'.registry.Pure)
    (registry : w'.registry = w.registry)
    (anyLeft : w.engine.settings.anyLeftResult ≤ w'.engine.settings.anyLeftResult)
    (pairs others : Set (Site × Site))
    (carries : ∀ p q, PairsAlike w.registry p q → p ∈ pairs → q ∈ others) (p q : Site × Site)
    (same : PairsAlike w.registry p q) (member : p ∈ rules w pure pairs) :
    q ∈ rules w' pure' others := by
  obtain ⟨l, v, r, u, first, second, yields⟩ := (mem_rules pure).mp member
  have kinds : w'.registry.SameKinds w.registry := fun _ => by rw [registry]
  have after : v.registry.SameKinds w.registry := fun _ => by rw [(prepare_ok first).rest]
  obtain ⟨l', v', first', onLeft⟩ := same.1.prepared (fun _ => rfl) kinds first
  have after' : v'.registry.SameKinds w.registry := fun _ => by
    rw [(prepare_ok first').rest, registry]
  obtain ⟨r', u', second', onRight⟩ := same.2.prepared after after' second
  refine (mem_rules pure').mpr ⟨l', v', r', u', first', second', ?_⟩
  rw [registry]
  refine Goal.yields_transfer (Rule.goal_twin pure _ _ onLeft onRight) ?_
    (goal_yields_larger anyLeft yields)
  exact fun p q alike known => ⟨fun _ => rfl, fun _ => carries p q alike (known.mpr rfl)⟩

-- Assuming more of pairs that are being compared, or of `any` on the left, never denies what was
-- affirmed before, whether finished pairs are remembered or not.
theorem larger_settings_affirm_more (pure : w.registry.Pure) (registry : w'.registry = w.registry)
    (cycle : w.engine.settings.cycleResult ≤ w'.engine.settings.cycleResult)
    (anyLeft : w.engine.settings.anyLeftResult ≤ w'.engine.settings.anyLeftResult)
    (placed : Placed w.supply (left :: right :: (leftScope ++ rightScope)))
    (placed' : Placed w'.supply (left :: right :: (leftScope ++ rightScope)))
    (idle : w.engine.active = []) (idle' : w'.engine.active = []) {depth depth' : Nat} {b : Bool}
    (affirms : (query (compareSchemas depth left right leftScope rightScope) w).1 = .ok true)
    (returned : (query (compareSchemas depth' left right leftScope rightScope) w').1 = .ok b) :
    b = true := by
  have pure' : w'.registry.Pure := registry ▸ pure
  have answer : ∀ {w : World} (pure : w.registry.Pure) {depth b},
      Placed w.supply (left :: right :: (leftScope ++ rightScope)) → w.engine.active = [] →
      (query (compareSchemas depth left right leftScope rightScope) w).1 = .ok b →
      (b = true ↔ (⟨left, leftScope, 0⟩, ⟨right, rightScope, 0⟩) ∈ affirmed w pure) := by
    intro w pure depth b placed idle returned
    obtain ⟨ledger, sound, known⟩ := Ledger.exists_of_placed Set.univ placed
      List.mem_cons_self fun _ _ _ _ => trivial
    exact mem_affirmed (query_settled pure ⟨rfl, rfl, fun _ => rfl, fun _ _ => rfl⟩ sound known
      idle returned 0 0)
  refine (answer pure' placed' idle' returned).mpr ?_
  exact affirmed_carries (rules_larger pure pure' registry anyLeft) cycle
    ((pairsAlike_equivalence w.registry).refl _) ((answer pure placed idle affirms).mp rfl)

end

-- The parameters are recursive, so the answer for pairs that are being compared is asked for, and
-- the results have `any` on the left. Both comparisons also hold through a variant behind.
def selfList : Schema :=
  .mk 0 (.int 1) false (.union [.plain (.array (.plain (.reference .this (.int 1)))),
    .basic .string])

def selfListOrUnknown : Schema :=
  .mk 0 (.int 1) false (.union [.plain (.array (.plain (.reference .this (.int 1)))),
    .plain (.array (.basic .unknown)), .basic .string])

def functionFrom (parameter returns : Schema) : Schema :=
  .plain (.callable .function [parameter] returns)

def anyReturning : Schema := functionFrom selfListOrUnknown (.plain (.array (.basic .any)))

def listReturning : Schema :=
  functionFrom selfList (.plain (.union
    [.plain (.array (.basic .number)), .plain (.array (.basic .any))]))

-- Affirmed with both settings off, and so with both on.
theorem recursive_function_under_larger_settings :
    (query (compareSchemas 6 (anyReturning.place 11).1 (listReturning.place 1).1 [] [])
      { supply := 20, engine :=
        { settings := { cycleResult := false, anyLeftResult := false } } }).1.toOption = some true ∧
    ∀ depth b,
      (query (compareSchemas depth (anyReturning.place 11).1 (listReturning.place 1).1 [] [])
      { supply := 20, engine := { settings := { memoize := false } } }).1 = .ok b → b = true := by
  have placed : Placed 20 [(anyReturning.place 11).1, (listReturning.place 1).1] :=
    @Placed.two 1 listReturning anyReturning (by decide) (by decide)
  have first : (query (compareSchemas 6 (anyReturning.place 11).1 (listReturning.place 1).1 [] [])
      { supply := 20, engine :=
        { settings := { cycleResult := false, anyLeftResult := false } } }).1.toOption =
        some true := by decide +kernel
  refine ⟨first, fun depth b returned => ?_⟩
  refine larger_settings_affirm_more nil_pure ?_ ?_ ?_ placed placed ?_ ?_ (ok_of_toOption first)
    returned
  case refine_2 | refine_3 => decide
  all_goals rfl

end Engine

end Assignability
