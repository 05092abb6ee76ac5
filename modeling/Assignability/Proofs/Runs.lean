import Assignability.Proofs.FixedPoint
import Assignability.Proofs.Frames
import Assignability.Proofs.Marks

namespace Assignability

-- While pairs are being compared, an answer may rest on the assumed answers of enclosing pairs.
-- What is remembered is settled for good.

namespace Engine

-- Runs are measured against the rules of one world, `base`. Settings and kinds must be the same
-- there; rules of user kinds need only agree for the kinds that occur.
structure Serves (base : World) (users : Set String) (w : World) : Prop where
  anyLeft : w.engine.settings.anyLeftResult = base.engine.settings.anyLeftResult
  cycle : w.engine.settings.cycleResult = base.engine.settings.cycleResult
  kinds : w.registry.SameKinds base.registry
  handlers : ∀ kind ∈ users, w.registry.handler? kind = base.registry.handler? kind

-- Prepared pairs that a ledger knows.
structure Met (registry : Registry) (ledger : Ledger) (p : Site × Site) : Prop where
  knowsLeft : ledger.Knows p.1
  knowsRight : ledger.Knows p.2
  readyLeft : p.1.Ready registry
  readyRight : p.2.Ready registry

theorem Met.later {registry : Registry} {before after : Ledger} {p : Site × Site}
    (met : Met registry before p) (grown : before.Le after) : Met registry after p :=
  { met with knowsLeft := met.knowsLeft.later grown, knowsRight := met.knowsRight.later grown }

structure InOrder (base : World) (pure : base.registry.Pure) (users : Set String) (ledger : Ledger)
    (w : World) : Prop where
  serves : Serves base users w
  sound : ledger.Sound users w.supply
  begun : ∀ p ∈ w.engine.begun, Met base.registry ledger p
  depths : ∀ key depth, (key, depth) ∈ w.engine.active → depth < w.engine.active.length
  active : ∀ key depth, (key, depth) ∈ w.engine.active → ∃ p ∈ w.engine.begun, .of p.1 p.2 = key
  results : ∀ key b, (key, b) ∈ w.engine.results → ∃ p ∈ w.engine.begun, .of p.1 p.2 = key ∧
    (b = base.engine.settings.cycleResult ↔ p ∈ settled base.engine.settings.cycleResult base pure)

theorem Serves.follows {base : World} {users : Set String} {w w' : World}
    (serves : Serves base users w) (follows : Follows w w') : Serves base users w' := by
  obtain ⟨anyLeft, cycle, kinds, handlers⟩ := serves
  rw [← follows.settings] at anyLeft cycle
  rw [← follows.registry] at kinds handlers
  exact ⟨anyLeft, cycle, kinds, handlers⟩

-- The active pairs whose assumed answer may have been used, and all that are like them.
def relied (registry : Registry) (w : World) : Set (Site × Site) :=
  {q | ∃ p ∈ w.engine.begun, ∃ a depth, w.engine.assumed = some a ∧ a ≤ depth ∧
    (.of p.1 p.2, depth) ∈ w.engine.active ∧ PairsAlike registry p q}

theorem relied_closed (registry : Registry) (w : World) :
    Closed (PairsAlike registry) (relied registry w) := by
  rintro q r same ⟨p, begun, a, depth, used, below, active, first⟩
  exact ⟨p, begun, a, depth, used, below, active,
    (pairsAlike_equivalence registry).trans first same⟩

theorem relied_mono (registry : Registry) {w w' : World} (follows : Follows w w') :
    relied registry w ⊆ relied registry w' := by
  rintro q ⟨p, begun, a, depth, used, below, active, same⟩
  obtain ⟨a', shallower, used'⟩ := follows.assumed a used
  exact ⟨p, follows.begun p begun, a', depth, used', Nat.le_trans shallower below,
    follows.active ▸ active, same⟩

section
variable (base : World) (pure : base.registry.Pure)

-- What holds as long as the pairs relied on do.
def provisional (w : World) : Set (Site × Site) :=
  granted (favouring base.engine.settings.cycleResult base pure) (relied base.registry w) ∪
    relied base.registry w

-- The favoured answer may rest on assumptions; the other one never does.
structure Verdict (w : World) (left right : Site) (b : Bool) : Prop where
  favoured : b = base.engine.settings.cycleResult → (left, right) ∈ provisional base pure w
  other : b ≠ base.engine.settings.cycleResult →
    (left, right) ∉ settled base.engine.settings.cycleResult base pure

variable {base} {pure}

theorem provisional_closed (w : World) :
    Closed (PairsAlike base.registry) (provisional base pure w) :=
  (Closed.granted (pairsAlike_equivalence _) (fun _ => favouring_closed pure)
    (relied_closed _ w)).union (relied_closed _ w)

theorem provisional_mono {w w' : World} (follows : Follows w w') :
    provisional base pure w ⊆ provisional base pure w' :=
  Set.union_subset_union (granted_mono _ (relied_mono _ follows)) (relied_mono _ follows)

theorem settled_provisional (w : World) :
    settled base.engine.settings.cycleResult base pure ⊆ provisional base pure w := by
  refine Set.Subset.trans ?_ Set.subset_union_left
  rw [settled, ← granted_empty]
  exact granted_mono _ (Set.empty_subset _)

theorem Verdict.later {w w' : World} {left right : Site} {b : Bool}
    (verdict : Verdict base pure w left right b) (follows : Follows w w') :
    Verdict base pure w' left right b :=
  ⟨fun same => provisional_mono follows (verdict.favoured same), verdict.other⟩

-- A verdict on the prepared pair is one on the pair as it was asked for.
theorem Verdict.congr {w : World} {left right left' right' : Site} {b : Bool}
    (verdict : Verdict base pure w left right b) (onLeft : left'.Alike base.registry left)
    (onRight : right'.Alike base.registry right) : Verdict base pure w left' right' b := by
  refine ⟨fun same => ?_, fun differs member => ?_⟩
  · exact provisional_closed w _ _ ⟨onLeft.symm, onRight.symm⟩ (verdict.favoured same)
  · exact verdict.other differs (settled_closed pure _ _ ⟨onLeft, onRight⟩ member)

-- What a run keeps account of, from the ledger at its start on.
def account (base : World) (pure : base.registry.Pure) (users : Set String) (start : Ledger) :
    Account where
  ready w := ∃ ledger, start.Le ledger ∧ InOrder base pure users ledger w
  moves := Follows
  evidence := Verdict base pure
  refl := .refl
  trans := .trans
  stays follows verdict := verdict.later follows

end

section
variable {base : World} {pure : base.registry.Pure} {users : Set String} {ledger : Ledger}
  {w : World} {left right : Site}

-- Keys tell the pairs that were begun apart.
theorem InOrder.same (order : InOrder base pure users ledger w)
    (met : Met base.registry ledger (left, right)) {p : Site × Site} (begun : p ∈ w.engine.begun)
    (key : PairKey.of p.1 p.2 = .of left right) : p = (left, right) :=
  have known := order.begun p begun
  order.sound.pair known.knowsLeft known.knowsRight met.knowsLeft met.knowsRight key

theorem InOrder.supplied (order : InOrder base pure users ledger w) {after : Ledger}
    (grown : ledger.Le after) {supply : Nat} (sound : after.Sound users supply) :
    InOrder base pure users after { w with supply } :=
  ⟨⟨order.serves.anyLeft, order.serves.cycle, order.serves.kinds, order.serves.handlers⟩, sound,
    fun p member => (order.begun p member).later grown, order.depths, order.active, order.results⟩

theorem InOrder.enter (order : InOrder base pure users ledger w)
    (met : Met base.registry ledger (left, right)) {after : Ledger} (grown : ledger.Le after)
    (sound : after.Sound users (w.supply + Rule.marksUsed)) :
    InOrder base pure users after (entering left right w) := by
  refine ⟨⟨order.serves.anyLeft, order.serves.cycle, order.serves.kinds, order.serves.handlers⟩,
    sound, ?_, ?_, ?_, ?_⟩
  · intro p member
    rcases List.mem_cons.mp member with rfl | member
    · exact met.later grown
    · exact (order.begun p member).later grown
  · intro key depth member
    rcases List.mem_cons.mp member with same | member
    · cases same
      exact Nat.lt_succ_self _
    · exact Nat.lt_succ_of_lt (order.depths key depth member)
  · intro key depth member
    rcases List.mem_cons.mp member with same | member
    · cases same
      exact ⟨(left, right), List.mem_cons_self, rfl⟩
    · obtain ⟨p, begun, same⟩ := order.active key depth member
      exact ⟨p, List.mem_cons_of_mem _ begun, same⟩
  · intro key b member
    obtain ⟨p, begun, same, answer⟩ := order.results key b member
    exact ⟨p, List.mem_cons_of_mem _ begun, same, answer⟩

theorem InOrder.goal_eq (order : InOrder base pure users ledger w) (known : ledger.Knows left) :
    Rule.goal w.engine.settings w.registry w.supply left right =
      Rule.goal base.engine.settings base.registry w.supply left right :=
  Rule.goal_congr _ order.serves.anyLeft fun kind isUser =>
    order.serves.handlers kind (order.sound.kinds _ known.schema kind isUser)

-- The pairs relied on inside a pair are relied on after it, or are like the pair itself.
theorem relied_leave {u v : World}
    (depths : ∀ key depth, (key, depth) ∈ w.engine.active → depth < w.engine.active.length)
    (inside : InOrder base pure users ledger u) (met : Met base.registry ledger (left, right))
    (entered : Follows (entering left right w) u) (begun : v.engine.begun = u.engine.begun)
    (active : v.engine.active = w.engine.active)
    (assumed : v.engine.assumed =
      shallower w.engine.assumed (above w.engine.active.length u.engine.assumed)) :
    relied base.registry u ⊆
      relied base.registry v ∪ {q | PairsAlike base.registry (left, right) q} ∧
    (above w.engine.active.length u.engine.assumed = none →
      relied base.registry u ⊆ {q | PairsAlike base.registry (left, right) q}) := by
  -- Either the pair itself, or an enclosing pair, at a depth above.
  have split : ∀ q ∈ relied base.registry u, PairsAlike base.registry (left, right) q ∨
      ∃ p ∈ u.engine.begun, ∃ a depth, above w.engine.active.length u.engine.assumed = some a ∧
        a ≤ depth ∧ (.of p.1 p.2, depth) ∈ w.engine.active ∧ PairsAlike base.registry p q := by
    rintro q ⟨p, isBegun, a, depth, used, below, isActive, same⟩
    rw [entered.active] at isActive
    rcases List.mem_cons.mp isActive with here | outside
    · rw [inside.same met isBegun (Prod.mk.inj here).1] at same
      exact .inl same
    · have bound := depths _ _ outside
      refine .inr ⟨p, isBegun, a, depth, ?_, below, outside, same⟩
      simp only [used, above]
      rw [if_pos (by omega)]
  refine ⟨fun q member => ?_, fun final q member => ?_⟩
  · rcases split q member with own | ⟨p, isBegun, a, depth, used, below, isActive, same⟩
    · exact .inr own
    · refine .inl ⟨p, begun ▸ isBegun, ?_⟩
      rw [assumed, used]
      cases outer : w.engine.assumed with
      | none => exact ⟨a, depth, rfl, below, active ▸ isActive, same⟩
      | some b => exact ⟨min b a, depth, rfl, by omega, active ▸ isActive, same⟩
  · rcases split q member with own | ⟨p, isBegun, a, depth, used, _⟩
    · exact own
    · rw [final] at used
      cases used

-- The answer of a goal, as an answer of its pair: the favoured one follows from what is relied on.
theorem answer_of_goal {u : World} {mark : Nat} {b : Bool}
    (met : Met base.registry ledger (left, right))
    (yields : (Rule.goal base.engine.settings base.registry mark left right).Yields
      (Verdict base pure u) b) :
    (b = base.engine.settings.cycleResult → (left, right) ∈
      granted (favouring base.engine.settings.cycleResult base pure) (relied base.registry u)) ∧
    (b ≠ base.engine.settings.cycleResult →
      (left, right) ∉ settled base.engine.settings.cycleResult base pure) := by
  refine ⟨fun same => ?_, fun differs => ?_⟩
  · subst same
    rw [← granted_eq]
    exact favouring_of_yields pure met.readyLeft met.readyRight (provisional_closed u) yields
      fun x y _ verdict => verdict.favoured rfl
  · have opposite : b = !base.engine.settings.cycleResult := by
      cases b <;> cases cycle : base.engine.settings.cycleResult <;> simp_all
    subst opposite
    rw [settled, ← OrderHom.map_gfp]
    exact not_favouring_of_yields pure met.readyLeft met.readyRight (settled_closed pure) yields
      fun x y _ verdict => verdict.other differs

-- An answer that relies on the pair itself holds without that.
theorem granted_self {given used : Set (Site × Site)} {favoured : Bool}
    (closed : Closed (PairsAlike base.registry) given)
    (used_of : used ⊆ given ∪ {q | PairsAlike base.registry (left, right) q})
    (follows : (left, right) ∈ granted (favouring favoured base pure) used) :
    (left, right) ∈ granted (favouring favoured base pure) given := by
  have equivalence := pairsAlike_equivalence base.registry
  have ownClosed : Closed (PairsAlike base.registry)
      {q | PairsAlike base.registry (left, right) q} :=
    fun _ _ same first => equivalence.trans first same
  have both := granted_mono (favouring favoured base pure) used_of follows
  refine granted_discharge _ (fun q own => ?_) both
  exact Closed.granted equivalence (fun _ => favouring_closed pure) (closed.union ownClosed) _ _ own
    both

-- Comparers that keep worlds in order, and whose answers are verdicts.
def Keeping (base : World) (pure : base.registry.Pure) (users : Set String) (compare : Comparer) :
    Prop :=
  ∀ start x y, Ledger.Knows start x → start.Knows y →
    (account base pure users start).Keeps compare x y

-- What a comparer keeps of one pair, with a ledger that knows it.
def Kept (base : World) (pure : base.registry.Pure) (users : Set String) (ledger : Ledger)
    (left right : Site) (w : World) (result : Except Fault Bool × World) : Prop :=
  ∃ after, ledger.Le after ∧ InOrder base pure users after result.2 ∧ Follows w result.2 ∧
    ∀ b, result.1 = .ok b → Verdict base pure result.2 left right b

-- With the pair entered, the ledger gets to know what its goal asks for.
theorem entering_ready (order : InOrder base pure users ledger w)
    (met : Met base.registry ledger (left, right)) :
    ∃ middle, ledger.Le middle ∧ InOrder base pure users middle (entering left right w) ∧
      ∀ x y, .compare x y ∈ (Rule.goal w.engine.settings w.registry w.supply left right).steps →
        middle.Knows x ∧ middle.Knows y := by
  obtain ⟨middle, grown, sound, asked⟩ := order.sound.asks met.knowsLeft met.knowsRight
  exact ⟨middle, grown, order.enter met grown sound,
    fun x y inside => asked x y (Rule.goal_asks inside)⟩

theorem pursue_keeps {compare : Comparer} (keeping : Keeping base pure users compare)
    (order : InOrder base pure users ledger w) (met : Met base.registry ledger (left, right))
    {outcome : Except Fault Bool} {u : World}
    (ran : pursue compare (Rule.goal w.engine.settings w.registry w.supply left right)
      (entering left right w) = (outcome, u)) :
    ∃ after, ledger.Le after ∧ InOrder base pure users after u ∧
      Follows (entering left right w) u ∧ ∀ b, outcome = .ok b →
        (Rule.goal base.engine.settings base.registry w.supply left right).Yields
          (Verdict base pure u) b := by
  obtain ⟨middle, grown, entered, asked⟩ := entering_ready order met
  have goal : Rule.goal w.engine.settings w.registry w.supply left right =
      Rule.goal base.engine.settings base.registry w.supply left right :=
    order.goal_eq met.knowsLeft
  rw [goal] at ran asked
  have pursued := pursue_yields (account base pure users middle)
    (Rule.goal_settled base.engine.settings pure w.supply left right)
    (fun x y inside => keeping middle x y (asked x y inside).1 (asked x y inside).2)
    ⟨middle, .refl _, entered⟩
  rw [ran] at pursued
  obtain ⟨⟨after, later, inside⟩, follows, yields⟩ := pursued
  exact ⟨after, grown.trans later, inside, follows, yields⟩

theorem compareNew_keeps {compare : Comparer} (keeping : Keeping base pure users compare)
    (order : InOrder base pure users ledger w) (met : Met base.registry ledger (left, right))
    (new : w.engine.active.lookup (.of left right) = none) :
    Kept base pure users ledger left right w (compareNew compare left right w) := by
  obtain ⟨outcome, u, ran, returned, supply, -, engine⟩ := compareNew_spec compare left right w
  obtain ⟨after, grown, inside, follows, yields⟩ := pursue_keeps keeping order met ran
  have known := met.later grown
  have same := compareNew_follows new ran follows
  generalize compareNew compare left right w = result at returned supply engine same ⊢
  obtain ⟨outcome', v⟩ := result
  simp only at returned supply engine same
  subst returned
  -- Apart from what is remembered, the engine is as it was left.
  obtain ⟨begun, assumed⟩ : v.engine.begun = u.engine.begun ∧ v.engine.assumed =
      shallower w.engine.assumed (above w.engine.active.length u.engine.assumed) := by
    rcases engine with left' | ⟨_, _, _, left'⟩ <;> rw [left'] <;> exact ⟨rfl, rfl⟩
  obtain ⟨stillRelied, discharged⟩ :=
    relied_leave order.depths inside known follows begun same.active assumed
  refine ⟨after, grown, ⟨order.serves.follows same, supply ▸ inside.sound, begun ▸ inside.begun,
    same.active ▸ order.depths, fun key depth member => ?_, fun key b member => ?_⟩, same,
    fun b returned => ?_⟩
  · obtain ⟨p, isBegun, isKey⟩ := order.active key depth (same.active ▸ member)
    exact ⟨p, same.begun p isBegun, isKey⟩
  · rw [begun]
    rcases engine with unchanged | ⟨answer, returned, final, remembered⟩
    · rw [unchanged] at member
      exact inside.results key b member
    · rw [remembered] at member
      rcases List.mem_cons.mp member with here | earlier
      · cases here
        obtain ⟨favoured, other⟩ := answer_of_goal known (yields b returned)
        refine ⟨(left, right), follows.begun _ List.mem_cons_self, rfl, fun equal => ?_,
          fun holds => ?_⟩
        · rw [settled, ← granted_empty]
          refine granted_self (fun _ _ _ none => none) ?_ (favoured equal)
          exact (discharged final).trans Set.subset_union_right
        · exact Classical.byContradiction fun differs => other differs holds
      · exact inside.results key b earlier
  · obtain ⟨favoured, other⟩ := answer_of_goal known (yields b returned)
    exact ⟨fun equal => .inl (granted_self (relied_closed _ v) stillRelied (favoured equal)), other⟩

theorem comparePrepared_keeps {compare : Comparer} (keeping : Keeping base pure users compare)
    (order : InOrder base pure users ledger w) (met : Met base.registry ledger (left, right)) :
    Kept base pure users ledger left right w (comparePrepared compare left right w) := by
  rcases comparePrepared_cases compare left right w with
    ⟨b, finished, same⟩ | ⟨depth, event, isActive, same⟩ | ⟨new, same⟩
  · rw [same]
    refine ⟨ledger, .refl _, order, .refl _, fun b returned => ?_⟩
    cases returned
    obtain ⟨p, begun, key, answer⟩ := order.results _ _ finished
    rw [order.same met begun key] at answer
    exact ⟨fun equal => settled_provisional w (answer.mp equal),
      fun differs => mt answer.mpr differs⟩
  · rw [same]
    obtain ⟨p, begun, key⟩ := order.active _ _ isActive
    rw [order.same met begun key] at begun
    obtain ⟨a, used, below, -⟩ := assume_spec w.engine depth
    have follows := assume_follows w event depth
    refine ⟨ledger, .refl _, ⟨order.serves.follows follows, order.sound, order.begun, order.depths,
      order.active, order.results⟩, follows, fun b returned => ?_⟩
    cases returned
    refine ⟨fun _ => .inr ?_, fun differs => absurd order.serves.cycle differs⟩
    exact ⟨(left, right), begun, a, depth, used, below, isActive,
      (pairsAlike_equivalence base.registry).refl _⟩
  · rw [same]
    exact compareNew_keeps keeping order met new

theorem prepare_keeps {site : Site} (order : InOrder base pure users ledger w)
    (known : ledger.Knows site) :
    ∃ after, ledger.Le after ∧ InOrder base pure users after (prepare site w).2 ∧
      Follows w (prepare site w).2 ∧ ∀ p, (prepare site w).1 = .ok p →
        after.Knows p ∧ p.Ready base.registry ∧ site.Alike base.registry p := by
  obtain ⟨after, grown, sound, prepared⟩ := order.sound.prepare known
  obtain ⟨supply, -, rest⟩ := prepare_supply site w
  refine ⟨after, grown, ?_, prepare_follows rfl, fun p returned => ?_⟩
  · rw [rest] at sound ⊢
    exact order.supplied grown sound
  · have ran : prepare site w = (.ok p, (prepare site w).2) := Prod.ext returned rfl
    exact ⟨prepared p returned, (prepare_ready ran).congr order.serves.kinds,
      .of_prepare ran order.serves.kinds⟩

theorem prepare_both {start : Ledger} {l r : Site} {v u : World} (onLeft : start.Knows left)
    (onRight : start.Knows right) (grown : start.Le ledger)
    (order : InOrder base pure users ledger w) (first : prepare left w = (.ok l, v))
    (second : prepare right v = (.ok r, u)) :
    ∃ after, start.Le after ∧ InOrder base pure users after u ∧ Follows w u ∧
      Met base.registry after (l, r) ∧ left.Alike base.registry l ∧
      right.Alike base.registry r := by
  obtain ⟨middle, growth, order, follows, prepared⟩ := prepare_keeps order (onLeft.later grown)
  rw [first] at order follows prepared
  obtain ⟨knowsLeft, readyLeft, alikeLeft⟩ := prepared l rfl
  obtain ⟨after, growth', order, follows', prepared'⟩ :=
    prepare_keeps order ((onRight.later grown).later growth)
  rw [second] at order follows' prepared'
  obtain ⟨knowsRight, readyRight, alikeRight⟩ := prepared' r rfl
  exact ⟨after, (grown.trans growth).trans growth', order, follows.trans follows',
    ⟨knowsLeft.later growth', knowsRight, readyLeft, readyRight⟩, alikeLeft, alikeRight⟩

-- Every comparison keeps the world in order, however deep it may nest.
theorem visit_keeps (depth : Nat) : Keeping base pure users (visit depth) := by
  induction depth with
  | zero =>
    intro start x y _ _ w ready
    exact ⟨ready, .refl _, fun b returned => by cases returned⟩
  | succ depth ih =>
    intro start left right onLeft onRight w ⟨ledger, grown, order⟩
    rcases visit_cases depth left right w with
      ⟨fault, v, ran, same⟩ | ⟨l, v, fault, u, ran, ran', same⟩ | ⟨l, v, r, u, ran, ran', same⟩
    · obtain ⟨after, growth, order, follows, -⟩ := prepare_keeps order (onLeft.later grown)
      rw [ran] at order follows
      rw [same]
      exact ⟨⟨after, grown.trans growth, order⟩, follows, fun b returned => by cases returned⟩
    · obtain ⟨middle, growth, order, follows, -⟩ := prepare_keeps order (onLeft.later grown)
      rw [ran] at order follows
      obtain ⟨after, growth', order, follows', -⟩ :=
        prepare_keeps order ((onRight.later grown).later growth)
      rw [ran'] at order follows'
      rw [same]
      exact ⟨⟨after, (grown.trans growth).trans growth', order⟩, follows.trans follows',
        fun b returned => by cases returned⟩
    · obtain ⟨middle, growth, order, follows, met, alikeLeft, alikeRight⟩ :=
        prepare_both onLeft onRight grown order ran ran'
      obtain ⟨after, growth', order, follows', verdict⟩ := comparePrepared_keeps ih order met
      rw [same]
      exact ⟨⟨after, growth.trans growth', order⟩, follows.trans follows',
        fun b returned => (verdict b returned).congr alikeLeft alikeRight⟩

end

end Engine

end Assignability
