import Assignability.Proofs.Decision

namespace Assignability

-- The moments of a run are the worlds at which its comparisons begin and end.

-- The comparisons that the loop over a goal's steps gets to, each with the world it begins in.
inductive Goal.Reaches (go : Bool) (compare : Comparer) :
    List Step → World → Site → Site → World → Prop
  | here {x y : Site} {rest : List Step} {w : World} :
    Reaches go compare (.compare x y :: rest) w x y w
  | holds {rest : List Step} {w v : World} {x y : Site} : Reaches go compare rest w x y v →
    Reaches go compare (.holds go :: rest) w x y v
  | later {l r x y : Site} {rest : List Step} {w u v : World} : compare l r w = (.ok go, u) →
    Reaches go compare rest u x y v → Reaches go compare (.compare l r :: rest) w x y v

-- Scripts that only answer or fail get to none.
def Goal.Calls (compare : Comparer) : Goal → World → Site → Site → World → Prop
  | .all steps => Reaches true compare steps
  | .any steps => Reaches false compare steps
  | _ => fun _ _ _ _ => False

theorem Goal.reaches_ready {account : Account} {go : Bool} {compare : Comparer} {steps : List Step}
    {w v : World} {x y : Site}
    (each : ∀ left right, .compare left right ∈ steps → account.Keeps compare left right)
    (reaches : Reaches go compare steps w x y v) (start : account.ready w) :
    account.ready v ∧ .compare x y ∈ steps := by
  induction reaches with
  | here => exact ⟨start, List.mem_cons_self⟩
  | holds _ ih =>
    obtain ⟨ready, member⟩ := ih (fun l r inside => each l r (List.mem_cons_of_mem _ inside)) start
    exact ⟨ready, List.mem_cons_of_mem _ member⟩
  | later ran _ ih =>
    have kept := (each _ _ List.mem_cons_self _ start).1
    rw [ran] at kept
    obtain ⟨ready, member⟩ := ih (fun l r inside => each l r (List.mem_cons_of_mem _ inside)) kept
    exact ⟨ready, List.mem_cons_of_mem _ member⟩

theorem Goal.calls_ready (account : Account) {compare : Comparer} {g : Goal} {w v : World}
    {x y : Site}
    (each : ∀ left right, .compare left right ∈ g.steps → account.Keeps compare left right)
    (calls : g.Calls compare w x y v) (start : account.ready w) :
    account.ready v ∧ .compare x y ∈ g.steps := by
  cases g with
  | all steps => exact reaches_ready each calls start
  | any steps => exact reaches_ready each calls start
  | consult script => exact calls.elim
  | refuse fault => exact calls.elim

namespace Engine

-- A comparison that another one asks for directly.
def Calls (depth : Nat) (left right : Site) (w : World) (x y : Site) (v : World) : Prop :=
  ∃ l w₁ r w₂, prepare left w = (.ok l, w₁) ∧ prepare right w₁ = (.ok r, w₂) ∧
    w₂.engine.results.lookup (.of l r) = none ∧ w₂.engine.active.lookup (.of l r) = none ∧
    (Rule.goal w₂.engine.settings w₂.registry w₂.supply l r).Calls (visit depth) (entering l r w₂)
      x y v

-- The comparisons within a comparison, itself included.
inductive Within (depth : Nat) (left right : Site) (w : World) : Nat → Site → Site → World → Prop
  | outermost : Within depth left right w depth left right w
  | nested {d : Nat} {x y x' y' : Site} {v v' : World} : Within depth left right w (d + 1) x y v →
    Calls d x y v x' y' v' → Within depth left right w d x' y' v'

-- The worlds at which comparisons within a query begin or end.
def Moment (depth : Nat) (left right : Schema) (leftScope rightScope : Scope) (w v : World) :
    Prop :=
  let (l, r, w) := opening left right leftScope rightScope (w.setEngine reset)
  ∃ d x y u, Within depth l r w d x y u ∧ (v = u ∨ v = (visit d x y u).2)

-- What a new engine that remembers nothing answers.
def uncached (depth : Nat) (left right : Schema) (leftScope rightScope : Scope) (w : World) :
    Except Fault Bool :=
  (queryFresh { w.engine.settings with memoize := false }
    (compareSchemas depth left right leftScope rightScope) w).1

section
variable {base : World} {pure : base.registry.Pure} {users : Set String}

theorem calls_ready {depth : Nat} {left right x y : Site} {w v : World} {start : Ledger}
    (onLeft : start.Knows left) (onRight : start.Knows right)
    (ready : (account base pure users start).ready w) (calls : Calls depth left right w x y v) :
    ∃ next, Ledger.Knows next x ∧ next.Knows y ∧ (account base pure users next).ready v := by
  obtain ⟨ledger, grown, order⟩ := ready
  obtain ⟨l, w₁, r, w₂, first, second, -, -, asked⟩ := calls
  obtain ⟨after, -, order, -, met, -, -⟩ := prepare_both onLeft onRight grown order first second
  obtain ⟨middle, -, entered, known⟩ := entering_ready order met
  obtain ⟨ready, member⟩ := Goal.calls_ready (account base pure users middle)
    (fun x y inside => visit_keeps depth middle x y (known x y inside).1 (known x y inside).2) asked
    ⟨middle, .refl _, entered⟩
  exact ⟨middle, (known x y member).1, (known x y member).2, ready⟩

theorem within_ready {depth d : Nat} {left right x y : Site} {w v : World} {start : Ledger}
    (onLeft : start.Knows left) (onRight : start.Knows right)
    (ready : (account base pure users start).ready w)
    (within : Within depth left right w d x y v) :
    ∃ next, Ledger.Knows next x ∧ next.Knows y ∧ (account base pure users next).ready v := by
  induction within with
  | outermost => exact ⟨start, onLeft, onRight, ready⟩
  | nested _ calls ih =>
    obtain ⟨next, knowsX, knowsY, ready⟩ := ih
    exact calls_ready knowsX knowsY ready calls

-- Worlds are in order at every moment of a query.
variable (pure) in
theorem moment_inOrder {w v : World} {left right : Schema} {leftScope rightScope : Scope}
    {ledger : Ledger} {depth : Nat} (serves : Serves base users w)
    (sound : ledger.Sound users w.supply)
    (known : ∀ s ∈ left :: right :: (leftScope ++ rightScope), s ∈ ledger.schemas)
    (moment : Moment depth left right leftScope rightScope w v) :
    ∃ after, InOrder base pure users after v := by
  obtain ⟨start, m, n, u, opened, order, -, knowsLeft, knowsRight⟩ :=
    opening_ready (InOrder.start pure serves sound) known
  simp only [Moment, opened] at moment
  obtain ⟨d, x, y, u', within, place⟩ := moment
  obtain ⟨next, knowsX, knowsY, ready⟩ :=
    within_ready knowsLeft knowsRight ⟨start, .refl _, order⟩ within
  rcases place with rfl | rfl
  · obtain ⟨after, -, order⟩ := ready
    exact ⟨after, order⟩
  · obtain ⟨⟨after, -, order⟩, -, -⟩ := visit_keeps d next x y knowsX knowsY u' ready
    exact ⟨after, order⟩

-- What an engine that remembers nothing finds out about a pair whose schemas are known.
theorem uncached_settled {w : World} {left right : Schema} {leftScope rightScope : Scope}
    {ledger : Ledger} {depth : Nat} {b : Bool} (serves : Serves base users w)
    (sound : ledger.Sound users w.supply)
    (known : ∀ s ∈ left :: right :: (leftScope ++ rightScope), s ∈ ledger.schemas)
    (returned : uncached depth left right leftScope rightScope w = .ok b)
    (leftMark rightMark : Nat) :
    b = base.engine.settings.cycleResult ↔
      (⟨left, leftScope, leftMark⟩, ⟨right, rightScope, rightMark⟩) ∈
        settled base.engine.settings.cycleResult base pure := by
  let settings := { w.engine.settings with memoize := false }
  let alone : World :=
    { w with engine := { settings }, waiting := some (w.waiting.getD w.engine) }
  have answer : (query (compareSchemas depth left right leftScope rightScope) alone).1 = .ok b := by
    rw [← returned, uncached, queryFresh_outcome]
  exact query_settled pure (w := alone)
    ⟨serves.anyLeft, serves.cycle, serves.kinds, serves.handlers⟩ sound known rfl
    answer leftMark rightMark

end

-- Remembered answers are the answers of an engine that remembers nothing: every entry stands for a
-- pair whose comparison was begun, and agrees with what such an engine answers when asked about
-- that pair at that moment. So does the answer to the query itself.
theorem memo_agrees_uncached {w : World} (pure : w.registry.Pure) {left right : Schema}
    {leftScope rightScope : Scope}
    (placed : Placed w.supply (left :: right :: (leftScope ++ rightScope)))
    (idle : w.engine.active = []) (depth : Nat) :
    (∀ v, Moment depth left right leftScope rightScope w v →
      ∀ key b, (key, b) ∈ v.engine.results →
        (∃ p ∈ v.engine.begun, PairKey.of p.1 p.2 = key) ∧
        ∀ p ∈ v.engine.begun, PairKey.of p.1 p.2 = key → ∀ depth' b',
          uncached depth' p.1.schema p.2.schema p.1.scope p.2.scope v = .ok b' → b' = b) ∧
    ∀ b, (query (compareSchemas depth left right leftScope rightScope) w).1 = .ok b →
      ∀ depth' b', uncached depth' left right leftScope rightScope w = .ok b' → b' = b := by
  obtain ⟨ledger, sound, known⟩ := Ledger.exists_of_placed Set.univ placed
    List.mem_cons_self fun _ _ _ _ => trivial
  have serves : Serves w Set.univ w := ⟨rfl, rfl, fun _ => rfl, fun _ _ => rfl⟩
  have equal : ∀ {b b' : Bool} {P : Prop}, (b = w.engine.settings.cycleResult ↔ P) →
      (b' = w.engine.settings.cycleResult ↔ P) → b' = b := by
    intro b b' P first second
    have both := second.trans first.symm
    cases b <;> cases b' <;> cases cycle : w.engine.settings.cycleResult <;> simp_all
  refine ⟨fun v moment key b entry => ?_, fun b returned depth' b' other => ?_⟩
  · obtain ⟨after, order⟩ := moment_inOrder pure serves sound known moment
    obtain ⟨p, begun, isKey, answer⟩ := order.results key b entry
    refine ⟨⟨p, begun, isKey⟩, fun q begun' isKey' depth' b' other => ?_⟩
    have met := order.begun p begun
    cases order.same met begun' (isKey'.trans isKey.symm)
    refine equal answer (uncached_settled order.serves order.sound (fun s member => ?_) other
      p.1.scopeMark p.2.scopeMark)
    simp only [List.mem_cons, List.mem_append] at member
    rcases member with rfl | rfl | member | member
    · exact met.knowsLeft.schema
    · exact met.knowsRight.schema
    · exact order.sound.entries _ _ met.knowsLeft.scope s member
    · exact order.sound.entries _ _ met.knowsRight.scope s member
  · exact equal (query_settled pure serves sound known idle returned 0 0)
      (uncached_settled serves sound known other 0 0)

-- At the end of this run the outermost pair is remembered.
def afterEndless : World :=
  (visit 4 (.bare (Schema.endless.place 3).1) (.bare (Schema.endless.place 1).1)
    (twoEndless true)).2

theorem endless_remembered :
    (∃ p ∈ afterEndless.engine.begun, (PairKey.of p.1 p.2, true) ∈ afterEndless.engine.results ∧
      uncached 4 p.1.schema p.2.schema p.1.scope p.2.scope afterEndless = .ok true ∧
      ∀ depth b, uncached depth p.1.schema p.2.schema p.1.scope p.2.scope afterEndless = .ok b →
        b = true) ∧
    ∀ depth b, uncached depth (Schema.endless.place 3).1 (Schema.endless.place 1).1 [] []
      (twoEndless true) = .ok b → b = true := by
  have agrees := @memo_agrees_uncached (twoEndless true) nil_pure _ _ [] [] endless_placed rfl 4
  have moment : Moment 4 (Schema.endless.place 3).1 (Schema.endless.place 1).1 [] []
      (twoEndless true) afterEndless := ⟨_, _, _, _, .outermost, .inr rfl⟩
  refine ⟨⟨_, List.mem_cons_self, List.mem_cons_self, rfl, ?_⟩, agrees.2 true rfl⟩
  exact (agrees.1 _ moment _ _ List.mem_cons_self).2 _ List.mem_cons_self rfl

end Engine

end Assignability
