import Assignability.Proofs.Evaluation

namespace Assignability

-- Comparisons get lighter from pair to pair, so without references no pair is met inside itself:
-- nothing is ever assumed, and what is remembered would come out again.

-- More fuel changes no answer.
def Steady (value : Nat → Option Bool) : Prop :=
  ∀ {fuel more : Nat} {b : Bool}, fuel ≤ more → value fuel = some b → value more = some b

-- An outcome at some depth and what comes out by fuel: some fuel suffices for the outcome, and what
-- comes out with fuel for that depth is the outcome.
structure Agrees (depth : Nat) (outcome : Except Fault Bool) (value : Nat → Option Bool) :
    Prop where
  fuelled : ∀ b, outcome = .ok b → ∃ fuel, value fuel = some b
  reached : ∀ b, value depth = some b → outcome = .ok b

section
variable {depth : Nat} {value : Nat → Option Bool} {next : Bool → Nat → Option Bool}
  {outcome : Except Fault Bool}

theorem Agrees.error {fault : Fault} (nothing : value depth = none) :
    Agrees depth (.error fault) value where
  fuelled b returned := by cases returned
  reached b found := by
    rw [nothing] at found
    cases found

theorem Agrees.answer {c : Bool} (always : ∀ fuel, value fuel = some c) :
    Agrees depth (.ok c) value where
  fuelled b returned := by
    cases returned
    exact ⟨0, always 0⟩
  reached b found := congrArg Except.ok (Option.some.inj ((always depth).symm.trans found))

theorem Agrees.stop {fault : Fault} (failed : Agrees depth (.error fault) value) :
    Agrees depth (.error fault) fun fuel => (value fuel).bind (next · fuel) := by
  refine .error ?_
  cases found : value depth with
  | none => rfl
  | some b => cases failed.reached b found

-- Fuel for both suffices for one after the other.
theorem Agrees.andThen {c : Bool} (first : Agrees depth (.ok c) value)
    (rest : Agrees depth outcome (next c)) (steady : Steady value) (steady' : Steady (next c)) :
    Agrees depth outcome fun fuel => (value fuel).bind (next · fuel) where
  fuelled b returned := by
    obtain ⟨fuel, answered⟩ := first.fuelled c rfl
    obtain ⟨more, settled⟩ := rest.fuelled b returned
    refine ⟨max fuel more, ?_⟩
    rw [steady (Nat.le_max_left fuel more) answered, Option.bind_some]
    exact steady' (Nat.le_max_right fuel more) settled
  reached b found := by
    obtain ⟨c', answered, settled⟩ := Option.bind_eq_some_iff.mp found
    cases first.reached c' answered
    exact rest.reached b settled

theorem Agrees.deeper {inner : Nat → Option Bool} (agrees : Agrees depth outcome inner)
    (unfolds : ∀ fuel, value (fuel + 1) = inner fuel) : Agrees (depth + 1) outcome value where
  fuelled b returned := by
    obtain ⟨fuel, found⟩ := agrees.fuelled b returned
    exact ⟨fuel + 1, (unfolds fuel).trans found⟩
  reached b found := agrees.reached b ((unfolds depth).symm.trans found)

end

namespace Goal

section
variable {ready : World → Prop} {compare : Comparer} {depth : Nat}
  {ask : Nat → Site → Site → Option Bool} (steady : ∀ x y, Steady fun fuel => ask fuel x y)
include steady

-- A loop agrees with the value of its steps if its comparisons do.
theorem run_agrees {go : Bool} {steps : List Step}
    (each : ∀ x y, .compare x y ∈ steps → ∀ w, ready w → ready (compare x y w).2 ∧
      Agrees depth (compare x y w).1 fun fuel => ask fuel x y)
    {w : World} (start : ready w) : ready (run go compare steps w).2 ∧
      Agrees depth (run go compare steps w).1 fun fuel => valueOf go (ask fuel) steps := by
  induction steps generalizing w with
  | nil => exact ⟨start, .answer fun _ => rfl⟩
  | cons step rest ih =>
    have later : ∀ {v}, ready v → ready (run go compare rest v).2 ∧
        Agrees depth (run go compare rest v).1 fun fuel => valueOf go (ask fuel) rest :=
      ih fun x y member => each x y (List.mem_cons_of_mem _ member)
    have onward : ∀ c,
        Steady fun fuel => if c = go then valueOf go (ask fuel) rest else some c := by
      intro c fuel more b enough found
      by_cases goes : c = go
      · simp only [goes, if_true] at found ⊢
        exact valueOf_grows (fun x y _ => steady x y enough) found
      · simpa only [goes, if_false] using found
    cases step with
    | holds c =>
      simp only [run, valueOf]
      split
      · exact later start
      · exact ⟨start, .answer fun _ => rfl⟩
    | compare x y =>
      obtain ⟨kept, agrees⟩ := each x y List.mem_cons_self w start
      simp only [run, valueOf]
      cases ran : compare x y w with
      | mk outcome v =>
        rw [ran] at kept agrees
        cases outcome with
        | error fault => exact ⟨kept, agrees.stop⟩
        | ok c =>
          dsimp only
          split
          · rename_i goes
            obtain ⟨last, rested⟩ := later kept
            refine ⟨last, agrees.andThen ?_ (steady x y) (onward c)⟩
            simpa only [goes, if_true] using rested
          · rename_i stops
            refine ⟨kept, agrees.andThen (.answer fun _ => ?_) (steady x y) (onward c)⟩
            rw [if_neg stops]

theorem pursue_agrees {g : Goal} (settled : g.Settled)
    (each : ∀ x y, .compare x y ∈ g.steps → ∀ w, ready w → ready (compare x y w).2 ∧
      Agrees depth (compare x y w).1 fun fuel => ask fuel x y)
    {w : World} (start : ready w) : ready (Engine.pursue compare g w).2 ∧
      Agrees depth (Engine.pursue compare g w).1 fun fuel => g.value (ask fuel) := by
  cases g with
  | all steps =>
    simp only [Engine.pursue, runAll_eq]
    exact run_agrees steady each start
  | any steps =>
    simp only [Engine.pursue, runAny_eq]
    exact run_agrees steady each start
  | consult script =>
    cases script with
    | answer value => exact ⟨start, .answer fun _ => rfl⟩
    | fail fault => exact ⟨start, .error rfl⟩
    | unregister kind next => exact absurd rfl settled
    | compare question next => exact absurd rfl settled
  | refuse fault => exact ⟨start, .error rfl⟩

end

end Goal

namespace Engine

section
variable {base : World} {pure : base.registry.Pure} {users : Set String} {ledger : Ledger}
  {w : World} {left right : Site}

-- What a pair comes to by fuel.
def verdict (base : World) (p : Site × Site) (fuel : Nat) : Option Bool :=
  evaluate base.engine.settings base.registry fuel p.1.schema.erase p.2.schema.erase

-- What is remembered comes out by fuel.
def Recalled (base : World) (w : World) : Prop :=
  ∀ key b, (key, b) ∈ w.engine.results →
    ∃ p ∈ w.engine.begun, .of p.1 p.2 = key ∧ ∃ fuel, verdict base p fuel = some b

-- Every pair that is being compared weighs at least so much.
def Heavier (bound : Nat) (w : World) : Prop :=
  ∀ key depth, (key, depth) ∈ w.engine.active →
    ∃ p ∈ w.engine.begun, .of p.1 p.2 = key ∧ bound ≤ p.1.schema.weight + p.2.schema.weight

theorem verdict_steady (base : World) (p : Site × Site) : Steady (verdict base p) :=
  fun enough found => evaluate_grows enough found

theorem Recalled.kept (recalled : Recalled base w) {v : World}
    (results : v.engine.results = w.engine.results) (begun : v.engine.begun = w.engine.begun) :
    Recalled base v := by
  unfold Recalled
  rw [results, begun]
  exact recalled

theorem Recalled.remember (recalled : Recalled base w) {v : World} {b : Bool}
    (met : (left, right) ∈ w.engine.begun)
    (found : ∃ fuel, verdict base (left, right) fuel = some b)
    (results : v.engine.results = (.of left right, b) :: w.engine.results)
    (begun : v.engine.begun = w.engine.begun) : Recalled base v := by
  intro key c member
  rw [results] at member
  rw [begun]
  rcases List.mem_cons.mp member with here | earlier
  · cases here
    exact ⟨(left, right), met, rfl, found⟩
  · exact recalled key c earlier

theorem Recalled.prepare (recalled : Recalled base w) (site : Site) :
    Recalled base (prepare site w).2 := by
  obtain ⟨supply, -, rest⟩ := prepare_supply site w
  rw [rest]
  exact recalled

theorem Recalled.enter (recalled : Recalled base w) : Recalled base (entering left right w) := by
  intro key b remembered
  obtain ⟨p, begun, rest⟩ := recalled key b remembered
  exact ⟨p, List.mem_cons_of_mem _ begun, rest⟩

theorem Heavier.follows {bound : Nat} (heavier : Heavier bound w) {v : World}
    (follows : Follows w v) : Heavier bound v := by
  intro key depth active
  rw [follows.active] at active
  obtain ⟨p, begun, rest⟩ := heavier key depth active
  exact ⟨p, follows.begun p begun, rest⟩

theorem Heavier.least {bound least : Nat} (heavier : Heavier bound w) (below : least ≤ bound) :
    Heavier least w := by
  intro key depth active
  obtain ⟨p, begun, same, heavy⟩ := heavier key depth active
  exact ⟨p, begun, same, Nat.le_trans below heavy⟩

theorem Heavier.enter {bound : Nat} (heavier : Heavier bound w)
    (lighter : left.schema.weight + right.schema.weight ≤ bound) :
    Heavier (left.schema.weight + right.schema.weight) (entering left right w) := by
  intro key depth active
  rcases List.mem_cons.mp active with here | outer
  · cases here
    exact ⟨(left, right), List.mem_cons_self, rfl, Nat.le_refl _⟩
  · obtain ⟨p, begun, same, heavy⟩ := heavier key depth outer
    exact ⟨p, List.mem_cons_of_mem _ begun, same, Nat.le_trans lighter heavy⟩

-- What comparisons at some depth do: they keep to what they remember, and agree with the verdict.
def Agreeing (base : World) (pure : base.registry.Pure) (users : Set String) (depth : Nat) : Prop :=
  ∀ start x y, Ledger.Knows start x → start.Knows y → x.schema.Concrete → y.schema.Concrete →
    ∀ w, (account base pure users start).ready w → Recalled base w →
      Heavier (x.schema.weight + y.schema.weight + 1) w →
      Recalled base (visit depth x y w).2 ∧ Agrees depth (visit depth x y w).1 (verdict base (x, y))

theorem concrete_asks {mark : Nat} {x y : Site} (onLeft : left.schema.Concrete)
    (onRight : right.schema.Concrete) (asks : Rule.Asks mark left right x y) :
    x.schema.Concrete ∧ y.schema.Concrete := by
  refine asks.keeps (fun whole inside => whole.child inside) ?_ onLeft onRight
  rcases Rule.made_cases mark left.schema right.schema with member | ⟨b, same⟩
  · exact .of_members member
  · rw [same]
    exact .of_basic mark b

theorem verdict_goal (met : Met base.registry ledger (left, right)) (pure : base.registry.Pure)
    (mark fuel : Nat) : verdict base (left, right) (fuel + 1) =
      (Rule.goal base.engine.settings base.registry mark left right).value
        fun x y => verdict base (x, y) fuel :=
  evaluate_goal pure fuel 0 0 ⟨met.readyLeft.known, met.readyRight.known⟩
    (by rw [resolved_self met.readyLeft.expanded]) (by rw [resolved_self met.readyRight.expanded])
    mark

theorem compareNew_agrees {depth : Nat} (agreeing : Agreeing base pure users depth)
    (order : InOrder base pure users ledger w) (recalled : Recalled base w)
    (met : Met base.registry ledger (left, right)) (onLeft : left.schema.Concrete)
    (onRight : right.schema.Concrete)
    (heavier : Heavier (left.schema.weight + right.schema.weight + 1) w) :
    Recalled base (compareNew (visit depth) left right w).2 ∧
      Agrees (depth + 1) (compareNew (visit depth) left right w).1
        (verdict base (left, right)) := by
  obtain ⟨outcome, u, ran, returned, -, -, engine⟩ := compareNew_spec (visit depth) left right w
  obtain ⟨middle, grown, entered, asked⟩ := entering_ready order met
  rw [order.goal_eq met.knowsLeft] at ran asked
  let ready : World → Prop := fun v => (account base pure users middle).ready v ∧
    Recalled base v ∧ Follows (entering left right w) v
  have each : ∀ x y,
      .compare x y ∈ (Rule.goal base.engine.settings base.registry w.supply left right).steps →
      ∀ v, ready v → ready (visit depth x y v).2 ∧
        Agrees depth (visit depth x y v).1 fun fuel => verdict base (x, y) fuel := by
    rintro x y inside v ⟨before, known, follows⟩
    obtain ⟨knowsLeft, knowsRight⟩ := asked x y inside
    obtain ⟨concreteLeft, concreteRight⟩ := concrete_asks onLeft onRight (Rule.goal_asks inside)
    have heavy : Heavier (x.schema.weight + y.schema.weight + 1) v := by
      refine ((heavier.enter (Nat.le_succ _)).follows follows).least ?_
      exact Rule.goal_lighter inside
    obtain ⟨after, moved, -⟩ := visit_keeps depth middle x y knowsLeft knowsRight v before
    obtain ⟨kept, agrees⟩ := agreeing middle x y knowsLeft knowsRight concreteLeft concreteRight v
      before known heavy
    exact ⟨⟨after, kept, follows.trans moved⟩, agrees⟩
  have pursued := Goal.pursue_agrees (fun x y => verdict_steady base (x, y))
    (Rule.goal_settled base.engine.settings pure w.supply left right) each
    (w := entering left right w) ⟨⟨middle, .refl _, entered⟩, recalled.enter, .refl _⟩
  rw [ran] at pursued
  obtain ⟨⟨-, known, follows⟩, agrees⟩ := pursued
  have answer := agrees.deeper (verdict_goal met pure w.supply)
  rw [returned]
  refine ⟨?_, answer⟩
  rcases engine with same | ⟨b, same, -, remembered⟩
  · refine known.kept ?_ ?_ <;> rw [same] <;> rfl
  · refine known.remember (follows.begun _ List.mem_cons_self) (answer.fuelled b same) ?_ ?_ <;>
      rw [remembered] <;> rfl

theorem comparePrepared_agrees {depth : Nat} (agreeing : Agreeing base pure users depth)
    (order : InOrder base pure users ledger w) (recalled : Recalled base w)
    (met : Met base.registry ledger (left, right)) (onLeft : left.schema.Concrete)
    (onRight : right.schema.Concrete)
    (heavier : Heavier (left.schema.weight + right.schema.weight + 1) w) :
    Recalled base (comparePrepared (visit depth) left right w).2 ∧
      Agrees (depth + 1) (comparePrepared (visit depth) left right w).1
        (verdict base (left, right)) := by
  rcases comparePrepared_cases (visit depth) left right w with
    ⟨b, finished, same⟩ | ⟨d, event, active, same⟩ | ⟨-, same⟩
  · rw [same]
    obtain ⟨p, begun, key, fuel, found⟩ := recalled _ _ finished
    rw [order.same met begun key] at found
    refine ⟨recalled, fun c returned => ?_, fun c settled => ?_⟩
    · cases returned
      exact ⟨fuel, found⟩
    · rw [evaluate_unique found settled]
  · -- A pair inside itself would be lighter than it is.
    obtain ⟨p, begun, key, heavy⟩ := heavier _ _ active
    rw [order.same met begun key] at heavy
    exact absurd heavy (Nat.not_succ_le_self _)
  · rw [same]
    exact compareNew_agrees agreeing order recalled met onLeft onRight heavier

-- A pair has the verdict of what it is prepared to.
theorem verdict_prepared {l r : Site} {v u : World} (kinds : w.registry.SameKinds base.registry)
    (pure : base.registry.Pure) (onLeft : left.schema.isReference = false)
    (onRight : right.schema.isReference = false) (first : prepare left w = (.ok l, v))
    (second : prepare right v = (.ok r, u)) (met : Met base.registry ledger (l, r)) :
    verdict base (left, right) = verdict base (l, r) := by
  obtain ⟨knownLeft, mark, resolved⟩ := prepared_resolved onLeft first
  obtain ⟨knownRight, mark', resolved'⟩ := prepared_resolved onRight second
  rw [(prepare_ok first).rest, kinds] at knownRight
  rw [kinds] at knownLeft
  funext fuel
  cases fuel with
  | zero => rfl
  | succ fuel =>
    rw [verdict_goal met pure 0]
    exact evaluate_goal pure fuel mark mark' ⟨knownLeft, knownRight⟩ resolved resolved' 0

theorem prepare_error {fault : Fault} {v : World} (kinds : w.registry.SameKinds base.registry)
    (concrete : left.schema.isReference = false) (failed : prepare left w = (.error fault, v)) :
    base.registry.knows left.schema.kind = false := by
  by_contra known
  rw [Bool.not_eq_false, ← kinds] at known
  obtain ⟨_, _, _, _, ran⟩ := prepare_concrete concrete known
  rw [failed] at ran
  cases ran

-- What cannot be prepared has no verdict.
theorem verdict_unknown {fuel : Nat} (unknown : base.registry.knows left.schema.kind = false ∨
    base.registry.knows right.schema.kind = false) : verdict base (left, right) fuel = none := by
  cases found : verdict base (left, right) fuel with
  | none => rfl
  | some b =>
    have known := known_of_evaluate found
    simp only [erase_kind] at known
    simp [known] at unknown

theorem visit_agrees (depth : Nat) : Agreeing base pure users depth := by
  induction depth with
  | zero =>
    intro start x y _ _ _ _ w _ recalled _
    exact ⟨recalled, .error rfl⟩
  | succ depth ih =>
    intro start x y knowsLeft knowsRight onLeft onRight w ⟨ledger, grown, order⟩ recalled heavier
    have kinds := order.serves.kinds
    rcases visit_cases depth x y w with
      ⟨fault, v, ran, same⟩ | ⟨l, v, fault, u, ran, ran', same⟩ | ⟨l, v, r, u, ran, ran', same⟩
    · have after := recalled.prepare x
      rw [ran] at after
      rw [same]
      exact ⟨after, .error (verdict_unknown (.inl (prepare_error kinds onLeft.self ran)))⟩
    all_goals
      have middle := recalled.prepare x
      rw [ran] at middle
      have after := middle.prepare y
      rw [ran'] at after
      rw [same]
    · have kinds' : v.registry.SameKinds base.registry := by rwa [(prepare_ok ran).rest]
      exact ⟨after, .error (verdict_unknown (.inr (prepare_error kinds' onRight.self ran')))⟩
    · obtain ⟨last, -, order', follows, met, -, -⟩ :=
        prepare_both knowsLeft knowsRight grown order ran ran'
      obtain ⟨-, mark, resolved⟩ := prepared_resolved onLeft.self ran
      obtain ⟨-, mark', resolved'⟩ := prepared_resolved onRight.self ran'
      rw [verdict_prepared kinds pure onLeft.self onRight.self ran ran' met]
      apply comparePrepared_agrees ih order' after met
      · rw [resolved]
        exact onLeft.resolved mark
      · rw [resolved']
        exact onRight.resolved mark'
      · refine (heavier.follows follows).least (Nat.succ_le_succ ?_)
        rw [resolved, resolved']
        exact Nat.add_le_add (resolved_weight_le mark _) (resolved_weight_le mark' _)

end

-- An outermost query agrees with the evaluation of its schemas, whatever its scopes.
theorem query_agrees {base w : World} (pure : base.registry.Pure) {users : Set String}
    {ledger : Ledger} {left right : Schema} {leftScope rightScope : Scope}
    (serves : Serves base users w) (sound : ledger.Sound users w.supply)
    (known : ∀ s ∈ left :: right :: (leftScope ++ rightScope), s ∈ ledger.schemas)
    (idle : w.engine.active = []) (onLeft : left.Concrete) (onRight : right.Concrete)
    (depth : Nat) :
    Agrees depth (query (compareSchemas depth left right leftScope rightScope) w).1
      fun fuel => evaluate base.engine.settings base.registry fuel left.erase right.erase := by
  obtain ⟨after, m, n, v, opened, order, follows, knowsLeft, knowsRight⟩ :=
    opening_ready (InOrder.start pure serves sound) known
  have engine : v.engine = (w.setEngine reset).engine := by
    obtain ⟨_, _, supply, same, -⟩ := opening_eq left right leftScope rightScope (w.setEngine reset)
    cases opened.symm.trans same
    rfl
  have recalled : Recalled base v := by
    intro key b remembered
    rw [engine] at remembered
    cases remembered
  have heavier : Heavier (left.weight + right.weight + 1) v := by
    intro key depth active
    rw [engine] at active
    cases active
  obtain ⟨-, agrees⟩ := visit_agrees depth after ⟨left, leftScope, m⟩ ⟨right, rightScope, n⟩
    knowsLeft knowsRight onLeft onRight v ⟨after, .refl _, order⟩ recalled heavier
  simp only [query, idle, List.isEmpty_nil, if_true, compareSchemas_eq, opened]
  exact agrees

-- The same in a world that differs from another in its memory and its supply only.
theorem query_agrees_alike {base w : World} (pure : base.registry.Pure)
    (registry : w.registry = base.registry)
    (anyLeft : w.engine.settings.anyLeftResult = base.engine.settings.anyLeftResult)
    (cycle : w.engine.settings.cycleResult = base.engine.settings.cycleResult)
    {left right : Schema} {leftScope rightScope : Scope}
    (placed : Placed w.supply (left :: right :: (leftScope ++ rightScope)))
    (idle : w.engine.active = []) (onLeft : left.Concrete) (onRight : right.Concrete)
    (depth : Nat) :
    Agrees depth (query (compareSchemas depth left right leftScope rightScope) w).1
      fun fuel => evaluate base.engine.settings base.registry fuel left.erase right.erase := by
  obtain ⟨ledger, sound, known⟩ := Ledger.exists_of_placed Set.univ placed
    List.mem_cons_self fun _ _ _ _ => trivial
  have serves : Serves base Set.univ w :=
    ⟨anyLeft, cycle, fun _ => by rw [registry], fun _ _ => by rw [registry]⟩
  exact query_agrees pure serves sound known idle onLeft onRight depth

end Engine

end Assignability
