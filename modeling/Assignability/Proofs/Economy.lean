import Assignability.Proofs.Agreement
import Assignability.Proofs.Invocations
import Mathlib.Data.List.Perm.Subperm

namespace Assignability

-- As long as nothing is assumed, every pair is remembered as soon as it is finished. Without
-- references comparisons get lighter all the way down, and so no pair comes up inside itself.

-- The pair that a line of the trace is about.
def Event.traced? : Event → Option PairKey
  | .compared key _ _ _ => some key
  | _ => none

namespace Comparison

def key (c : Comparison) : PairKey := .of c.left c.right

def sides (c : Comparison) : Site × Site := (c.left, c.right)

-- What becomes of the engine when the pair is left.
section
variable (c : Comparison) {u : World}

theorem leaving_learns (inside : c.entered.engine.Learns u.engine)
    (inactive : c.world.engine.active.lookup c.key = none) (outcome : Except Fault Bool) :
    c.world.engine.Learns (Engine.leaving c.left c.right c.world outcome u).engine := by
  have left := inside.leave inactive
  cases outcome with
  | error fault => exact left
  | ok b =>
    simp only [Engine.leaving]
    split
    · exact left.remember c.key b
    · exact left

theorem leaving_assumed (nothing : u.engine.assumed = none) (outcome : Except Fault Bool) :
    (Engine.leaving c.left c.right c.world outcome u).engine.assumed = c.world.engine.assumed := by
  have left : (u.engine.leave c.key c.world.engine.active.length
      c.world.engine.assumed).assumed = c.world.engine.assumed := by
    simp only [Engine.leave, nothing, Engine.above]
    cases c.world.engine.assumed <;> rfl
  cases outcome with
  | error fault => exact left
  | ok b =>
    simp only [Engine.leaving]
    split <;> exact left

theorem leaving_results (nothing : u.engine.assumed = none)
    (memoize : u.engine.settings.memoize = true) (b : Bool) :
    (Engine.leaving c.left c.right c.world (.ok b) u).engine.results =
      (c.key, b) :: u.engine.results := by
  simp [Engine.leaving, Engine.leave, Engine.above, Engine.remember, nothing, memoize, key]

end

end Comparison

namespace Invocation

-- The comparison comes to a pair that is being compared.
def Reenters (i : Invocation) : Prop :=
  ∃ l r w, i.pair? = some (l, r, w) ∧ .of l r ∈ w.engine.active.map Prod.fst

-- The comparison leaves its pair to the rule of a user kind.
def Consults (i : Invocation) : Prop :=
  ∃ c script, i.comparison? = some c ∧ c.goal = .consult script

def comparisonsWithin : Nat → Invocation → List Comparison
  | 0, _ => []
  | n + 1, i => i.comparison?.elim [] fun c => c :: c.steps.flatMap (comparisonsWithin n)

-- The new pairs of a comparison and of those below it, in the order in which they are begun.
def comparisons (i : Invocation) : List Comparison := i.comparisonsWithin i.depth

end Invocation

-- Lines that were traced on the way from one world to a later one: no two are about the same of
-- these pairs, and every pair has its line if an answer came out while the trace was on.
def Traced (w : World) (keys : List PairKey) (came : Except Fault Bool × World) : Prop :=
  ∃ lines, came.2.log = lines ++ w.log ∧ (lines.filterMap Event.traced?).Subperm keys ∧
    (w.engine.settings.trace = true → ∀ b, came.1 = .ok b →
      (lines.filterMap Event.traced?).Perm keys)

namespace Traced

variable {w v : World} {keys later : List PairKey} {came : Except Fault Bool × World}

theorem append {b : Bool} (first : Traced w keys (.ok b, v)) (second : Traced v later came)
    (settings : v.engine.settings = w.engine.settings) : Traced w (keys ++ later) came := by
  obtain ⟨lines, logged, within, complete⟩ := first
  obtain ⟨lines', logged', within', complete'⟩ := second
  refine ⟨lines' ++ lines, ?_, ?_, fun trace c returned => ?_⟩
  · rw [logged', logged, List.append_assoc]
  · rw [List.filterMap_append]
    exact List.perm_append_comm.subperm_left.mp (within'.append within)
  · rw [List.filterMap_append]
    have all := (complete' (settings ▸ trace) c returned).append (complete trace b rfl)
    exact all.trans List.perm_append_comm

-- The line of a pair comes after those of the pairs inside it.
theorem leaving {c : Comparison} (inside : Traced c.entered keys came)
    (settings : came.2.engine.settings = c.world.engine.settings) :
    Traced c.world (c.key :: keys)
      (came.1, Engine.leaving c.left c.right c.world came.1 came.2) := by
  obtain ⟨lines, logged, within, complete⟩ := inside
  obtain ⟨outcome, u⟩ := came
  cases outcome with
  | error fault => exact ⟨lines, logged, within.cons_right _, fun _ b failed => by cases failed⟩
  | ok b =>
    have same : (u.engine.leave (.of c.left c.right) c.world.engine.active.length
        c.world.engine.assumed).settings = c.world.engine.settings := settings
    cases trace : c.world.engine.settings.trace with
    | false =>
      refine ⟨lines, ?_, within.cons_right _, fun on => ?_⟩
      · simp only [Engine.leaving, same, trace]
        exact logged
      · rw [trace] at on
        cases on
    | true =>
      refine ⟨.compared c.key c.left.schema.kind c.right.schema.kind b :: lines, ?_, ?_, ?_⟩
      · simp only [Engine.leaving, same, trace, if_true, List.cons_append]
        exact congrArg _ logged
      · exact (List.subperm_cons _).mpr within
      · exact fun _ d returned => .cons _ (complete trace b rfl)

end Traced

-- From one world to a later one, with the goals of some new pairs worked through on the way. No two
-- of them are the same, and unless there was a fault all are remembered in the end.
structure Frugal (w : World) (pairs : List Comparison) (came : Except Fault Bool × World) :
    Prop where
  learns : w.engine.Learns came.2.engine
  assumed : came.2.engine.assumed = w.engine.assumed
  begun : came.2.engine.begun = (pairs.map Comparison.sides).reverse ++ w.engine.begun
  new : ∀ key ∈ pairs.map Comparison.key,
    key ∉ w.engine.results.map Prod.fst ∧ key ∉ w.engine.active.map Prod.fst
  distinct : (pairs.map Comparison.key).Nodup
  remembered : ∀ b, came.1 = .ok b → ∀ key ∈ pairs.map Comparison.key,
    key ∈ came.2.engine.results.map Prod.fst
  traced : Traced w (pairs.map Comparison.key) came

namespace Frugal

variable {w v : World} {pairs later : List Comparison} {came : Except Fault Bool × World}

theorem nothing (w : World) (outcome : Except Fault Bool) (supply : Nat) :
    Frugal w [] (outcome, { w with supply }) where
  learns := .refl _
  assumed := rfl
  begun := rfl
  new := List.forall_mem_nil _
  distinct := List.nodup_nil
  remembered _ _ := List.forall_mem_nil _
  traced := ⟨[], rfl, List.Subperm.refl _, fun _ _ _ => List.Perm.refl _⟩

theorem supplied {supply : Nat} (frugal : Frugal { w with supply } pairs came) :
    Frugal w pairs came :=
  ⟨frugal.learns, frugal.assumed, frugal.begun, frugal.new, frugal.distinct, frugal.remembered,
    frugal.traced⟩

-- What the first pairs leave behind keeps the later ones from being among them.
theorem append {b : Bool} (first : Frugal w pairs (.ok b, v)) (second : Frugal v later came) :
    Frugal w (pairs ++ later) came where
  learns := first.learns.trans second.learns
  assumed := second.assumed.trans first.assumed
  begun := by
    rw [second.begun, first.begun, List.map_append, List.reverse_append, List.append_assoc]
  new key member := by
    rw [List.map_append, List.mem_append] at member
    rcases member with early | late
    · exact first.new key early
    · obtain ⟨unfinished, inactive⟩ := second.new key late
      rw [first.learns.active] at inactive
      exact ⟨fun before => unfinished (List.map_subset _ first.learns.results.subset before),
        inactive⟩
  distinct := by
    rw [List.map_append]
    refine List.nodup_append.mpr ⟨first.distinct, second.distinct, fun key early key' late => ?_⟩
    rintro rfl
    exact (second.new key late).1 (first.remembered b rfl key early)
  remembered c returned key member := by
    rw [List.map_append, List.mem_append] at member
    rcases member with early | late
    · exact List.map_subset _ second.learns.results.subset (first.remembered b rfl key early)
    · exact second.remembered c returned key late
  traced := by
    rw [List.map_append]
    exact first.traced.append second.traced first.learns.settings

-- A new pair is active while its goal is worked through, so it does not come up again there. With
-- nothing assumed inside, its answer is final.
theorem leaving {c : Comparison} (inside : Frugal c.entered pairs came)
    (memoize : c.world.engine.settings.memoize = true)
    (unfinished : c.world.engine.results.lookup c.key = none)
    (inactive : c.world.engine.active.lookup c.key = none) :
    Frugal c.world (c :: pairs)
      (came.1, Engine.leaving c.left c.right c.world came.1 came.2) where
  learns := c.leaving_learns inside.learns inactive came.1
  assumed := c.leaving_assumed inside.assumed came.1
  begun := by
    rw [Engine.leaving_begun, inside.begun, List.map_cons, List.reverse_cons, List.append_assoc]
    rfl
  new key member := by
    rcases List.mem_cons.mp member with rfl | deeper
    · exact ⟨lookup_none.mp unfinished, lookup_none.mp inactive⟩
    · obtain ⟨unfinished, inactive⟩ := inside.new key deeper
      exact ⟨unfinished, fun active => inactive (.tail _ active)⟩
  distinct := by
    refine List.nodup_cons.mpr ⟨fun again => ?_, inside.distinct⟩
    exact (inside.new c.key again).2 List.mem_cons_self
  remembered b returned key member := by
    have kept := inside.learns.settings.symm ▸ memoize
    rw [returned, c.leaving_results inside.assumed kept, List.map_cons]
    rcases List.mem_cons.mp member with rfl | deeper
    · exact List.mem_cons_self
    · exact .tail _ (inside.remembered b returned key deeper)
  traced := inside.traced.leaving inside.learns.settings

theorem traced_once (frugal : Frugal w pairs came) :
    ∃ lines, came.2.log = lines ++ w.log ∧ (lines.filterMap Event.traced?).Nodup ∧
      (w.engine.settings.trace = true → ∀ b, came.1 = .ok b →
        (lines.filterMap Event.traced?).Perm (pairs.map Comparison.key)) := by
  obtain ⟨lines, logged, ⟨_, reordered, part⟩, complete⟩ := frugal.traced
  exact ⟨lines, logged, reordered.nodup_iff.mp (frugal.distinct.sublist part), complete⟩

end Frugal

-- A loop over steps is frugal if the comparisons that it gets to are.
theorem Goal.run_frugal (go : Bool) {depth : Nat} {pairs : Invocation → List Comparison}
    {steps : List Step} {w : World}
    (visits : ∀ j ∈ Goal.invocations go depth steps w, Frugal j.world (pairs j) j.outcome) :
    Frugal w ((Goal.invocations go depth steps w).flatMap pairs)
      (Goal.run go (Engine.visit depth) steps w) := by
  induction steps generalizing w with
  | nil => exact .nothing w (.ok go) w.supply
  | cons step rest ih =>
    cases step with
    | holds b =>
      simp only [invocations, run] at visits ⊢
      by_cases goes : b = go
      · simp only [if_pos goes] at visits ⊢
        exact ih visits
      · simp only [if_neg goes]
        exact .nothing w (.ok b) w.supply
    | compare left right =>
      simp only [invocations, run, List.forall_mem_cons, List.flatMap_cons] at visits ⊢
      obtain ⟨first, visits⟩ := visits
      simp only [Invocation.outcome] at first
      cases ran : Engine.visit depth left right w with
      | mk outcome v =>
        rw [ran] at first
        simp only [ran] at visits
        cases outcome with
        | error fault => simpa only [List.flatMap_nil, List.append_nil] using first
        | ok b =>
          by_cases goes : b = go
          · simp only [if_pos goes] at visits ⊢
            exact first.append (ih visits)
          · simpa only [if_neg goes, List.flatMap_nil, List.append_nil] using first

theorem Comparison.pursued_frugal {c : Comparison} {pairs : Invocation → List Comparison}
    (plain : ∀ script, c.goal ≠ .consult script)
    (visits : ∀ j ∈ c.steps, Frugal j.world (pairs j) j.outcome) :
    Frugal c.entered (c.steps.flatMap pairs) c.pursued := by
  unfold steps pursued at *
  cases goal : c.goal with
  | all steps =>
    simp only [goal, Engine.pursue, Goal.runAll_eq] at visits ⊢
    exact Goal.run_frugal true visits
  | any steps =>
    simp only [goal, Engine.pursue, Goal.runAny_eq] at visits ⊢
    exact Goal.run_frugal false visits
  | consult script => exact absurd goal (plain script)
  | refuse fault => exact .nothing c.entered (.error fault) c.entered.supply

namespace Invocation

-- A comparison that comes neither to a new pair nor to one that is being compared takes marks at
-- most.
theorem unchanged {i : Invocation} (settled : i.comparison? = none) (apart : ¬i.Reenters) :
    ∃ supply, i.after = { i.world with supply } := by
  rcases i.pair_course with ⟨supply, -, same⟩ | ⟨depth, l, r, supply, deep, pair, same⟩
  · exact ⟨supply, same⟩
  · have inactive : i.world.engine.active.lookup (.of l r) = none :=
      lookup_none.mpr fun active => apart ⟨l, r, _, pair, active⟩
    simp only [comparison?, pair, inactive, and_true] at settled
    cases finished : i.world.engine.results.lookup (.of l r) with
    | none => simp [finished] at settled
    | some b =>
      refine ⟨supply, ?_⟩
      simp only [after, same, Engine.comparePrepared, finished]

theorem steps_settings {c : Comparison} : ∀ j ∈ c.steps,
    j.world.engine.settings = c.world.engine.settings :=
  @Comparison.steps_hold (fun v => v.engine.settings = c.world.engine.settings) c
    (fun j _ same =>
      (Engine.visit_resumes j.depth j.left j.right j.world).engine.settings.trans same) rfl

theorem frugal (i : Invocation) (memoize : i.world.engine.settings.memoize = true)
    (apart : ∀ j, i.Below j → ¬j.Reenters) (plain : ∀ j, i.Below j → ¬j.Consults) :
    Frugal i.world i.comparisons i.outcome := by
  unfold comparisons
  -- Down the comparisons, by the depth that is left for them.
  induction nested : i.depth generalizing i with
  | zero =>
    obtain ⟨depth, left, right, w⟩ := i
    cases nested
    exact .nothing w (.error .tooDeep) w.supply
  | succ depth ih =>
    simp only [comparisonsWithin]
    cases comparison : i.comparison? with
    | none =>
      obtain ⟨supply, same⟩ := unchanged comparison (apart i .refl)
      have result : i.outcome = (i.outcome.1, { i.world with supply }) := Prod.ext rfl same
      rw [result]
      exact .nothing i.world _ supply
    | some c =>
      obtain ⟨⟨supply, world⟩, outcome⟩ := comparison_course comparison
      obtain ⟨-, deeper, unfinished, inactive⟩ := comparison_pair comparison
      have memoize' : c.world.engine.settings.memoize = true := by rwa [world]
      have visits : ∀ j ∈ c.steps, Frugal j.world (comparisonsWithin depth j) j.outcome := by
        intro j member
        have step : i.Steps j := ⟨c, comparison, member⟩
        have nested' : j.depth = depth := by
          rw [(Comparison.mem_steps member).2]
          omega
        exact ih j (steps_settings j member ▸ memoize') (fun k below => apart k (.head step below))
          (fun k below => plain k (.head step below)) nested'
      have inside := Comparison.pursued_frugal
        (fun script consults => plain i .refl ⟨c, script, comparison, consults⟩) visits
      have whole := inside.leaving memoize' unfinished inactive
      rw [← outcome] at whole
      rw [world] at whole
      exact whole.supplied

section
variable {base : World} {pure : base.registry.Pure} {users : Set String} {i j : Invocation}

-- A comparison in a world in order, of sites that are known there.
def Ready (base : World) (pure : base.registry.Pure) (users : Set String) (i : Invocation) : Prop :=
  ∃ start, Ledger.Knows start i.left ∧ start.Knows i.right ∧
    (Engine.account base pure users start).ready i.world

theorem Ready.pair (ready : i.Ready base pure users) {l r : Site} {w : World}
    (pair : i.pair? = some (l, r, w)) : ∃ ledger, Engine.InOrder base pure users ledger w ∧
      Engine.Met base.registry ledger (l, r) ∧ Engine.Follows i.world w := by
  obtain ⟨start, knowsLeft, knowsRight, ledger, grown, order⟩ := ready
  obtain ⟨-, v, first, second⟩ := pair_prepared pair
  obtain ⟨after, -, order, follows, met, -, -⟩ :=
    Engine.prepare_both knowsLeft knowsRight grown order first second
  exact ⟨after, order, met, follows⟩

theorem Ready.step (ready : i.Ready base pure users) (steps : i.Steps j) :
    ∃ c, i.comparison? = some c ∧ .compare j.left j.right ∈ c.goal.steps ∧
      Engine.Follows c.entered j.world ∧ j.Ready base pure users := by
  obtain ⟨c, comparison, member⟩ := steps
  obtain ⟨ledger, order, met, -⟩ := ready.pair (comparison_pair comparison).1
  obtain ⟨middle, grown, entered, asked⟩ := Engine.entering_ready order met
  have known : ∀ k ∈ c.steps, middle.Knows k.left ∧ middle.Knows k.right := fun k inside =>
    asked k.left k.right (Comparison.mem_steps inside).1
  let holds : World → Prop := fun v =>
    (Engine.account base pure users middle).ready v ∧ Engine.Follows c.entered v
  have visits : ∀ k ∈ c.steps, holds k.world → holds k.after := by
    rintro k inside ⟨before, follows⟩
    obtain ⟨onLeft, onRight⟩ := known k inside
    obtain ⟨after, follows', -⟩ :=
      Engine.visit_keeps k.depth middle k.left k.right onLeft onRight k.world before
    exact ⟨after, follows.trans follows'⟩
  obtain ⟨begun, follows⟩ : holds j.world :=
    Comparison.steps_hold visits ⟨⟨middle, .refl _, entered⟩, .refl _⟩ j member
  obtain ⟨onLeft, onRight⟩ := known j member
  exact ⟨c, comparison, (Comparison.mem_steps member).1, follows, middle, onLeft, onRight, begun⟩

theorem Ready.below (ready : i.Ready base pure users) (below : i.Below j) :
    j.Ready base pure users := by
  induction below with
  | refl => exact ready
  | tail _ steps ih =>
    obtain ⟨-, -, -, -, ready⟩ := ih.step steps
    exact ready

theorem Ready.plain (ready : i.Ready base pure users)
    (noHandlers : ∀ kind, base.registry.handler? kind = none) : ¬i.Consults := by
  rintro ⟨c, script, comparison, consults⟩
  obtain ⟨ledger, order, met, -⟩ := ready.pair (comparison_pair comparison).1
  unfold Comparison.goal at consults
  rw [order.goal_eq met.knowsLeft] at consults
  rcases Rule.goal_cases base.engine.settings base.registry c.world.supply c.left c.right with
    loop | ⟨fault, refused, -⟩ | ⟨kind, handler, -, found, -⟩
  · rw [consults] at loop
    exact loop.elim
  · cases consults.symm.trans refused
  · rw [noHandlers kind] at found
    cases found

-- Reference-free sites that weigh less than every pair which is being compared.
structure Light (i : Invocation) : Prop where
  left : i.left.schema.Concrete
  right : i.right.schema.Concrete
  heavier : Engine.Heavier (i.left.schema.weight + i.right.schema.weight + 1) i.world

theorem Light.pair (light : i.Light) {l r : Site} {w : World} (pair : i.pair? = some (l, r, w))
    (follows : Engine.Follows i.world w) : l.schema.Concrete ∧ r.schema.Concrete ∧
      Engine.Heavier (l.schema.weight + r.schema.weight + 1) w := by
  obtain ⟨-, v, first, second⟩ := pair_prepared pair
  obtain ⟨-, mark, resolved⟩ := Engine.prepared_resolved light.left.self first
  obtain ⟨-, mark', resolved'⟩ := Engine.prepared_resolved light.right.self second
  rw [resolved, resolved']
  refine ⟨light.left.resolved mark, light.right.resolved mark', ?_⟩
  refine (light.heavier.follows follows).least (Nat.succ_le_succ ?_)
  exact Nat.add_le_add (resolved_weight_le mark _) (resolved_weight_le mark' _)

theorem Light.step (ready : i.Ready base pure users) (light : i.Light) (steps : i.Steps j) :
    j.Light := by
  obtain ⟨c, comparison, asked, follows, -⟩ := ready.step steps
  obtain ⟨pair, -, -, -⟩ := comparison_pair comparison
  obtain ⟨-, -, -, prepared⟩ := ready.pair pair
  obtain ⟨onLeft, onRight, heavier⟩ := light.pair pair prepared
  obtain ⟨left, right⟩ := Engine.concrete_asks onLeft onRight (Rule.goal_asks asked)
  refine ⟨left, right, ((heavier.enter (Nat.le_succ _)).follows follows).least ?_⟩
  exact Rule.goal_lighter asked

-- A pair inside itself would be lighter than it is.
theorem Light.apart (ready : i.Ready base pure users) (light : i.Light) : ¬i.Reenters := by
  rintro ⟨l, r, w, pair, active⟩
  obtain ⟨ledger, order, met, follows⟩ := ready.pair pair
  obtain ⟨-, -, heavier⟩ := light.pair pair follows
  obtain ⟨⟨key, depth⟩, entry, same⟩ := List.mem_map.mp active
  obtain ⟨p, begun, isKey, heavy⟩ := heavier key depth entry
  rw [order.same met begun (isKey.trans same)] at heavy
  exact absurd heavy (Nat.not_succ_le_self _)

theorem Light.below (ready : i.Ready base pure users) (light : i.Light) (below : i.Below j) :
    j.Light := by
  induction below with
  | refl => exact light
  | tail earlier steps ih => exact ih.step (ready.below earlier) steps

end

section
variable {w : World} (idle : w.engine.active = []) (depth : Nat) (left right : Schema)
  (leftScope rightScope : Scope)
include idle

theorem ofQuery_world : ∃ supply,
    (ofQuery depth left right leftScope rightScope w).world =
      { w.setEngine Engine.reset with supply } := by
  obtain ⟨_, _, supply, begins⟩ := ofQuery_eq depth left right leftScope rightScope w
  refine ⟨supply, ?_⟩
  simp only [begins, World.opened, idle, List.isEmpty_nil, if_true]

-- Nothing is being compared yet.
theorem ofQuery_light (onLeft : left.Concrete) (onRight : right.Concrete) :
    (ofQuery depth left right leftScope rightScope w).Light := by
  obtain ⟨_, _, supply, begins⟩ := ofQuery_eq depth left right leftScope rightScope w
  simp only [begins, World.opened, idle, List.isEmpty_nil, if_true]
  exact ⟨onLeft, onRight, fun _ _ active => by cases active⟩

-- The world that an outermost query leaves behind has forgotten the query.
theorem ofQuery_query :
    Engine.query (Engine.compareSchemas depth left right leftScope rightScope) w =
      ((ofQuery depth left right leftScope rightScope w).outcome.1,
        (ofQuery depth left right leftScope rightScope w).after.setEngine Engine.reset) := by
  simp only [Engine.query_idle _ idle, after, ofQuery_outcome, World.opened, idle, List.isEmpty_nil,
    if_true]

theorem ofQuery_ready {base : World} (pure : base.registry.Pure) {users : Set String}
    {ledger : Ledger} (serves : Engine.Serves base users w) (sound : ledger.Sound users w.supply)
    (known : ∀ s ∈ left :: right :: (leftScope ++ rightScope), s ∈ ledger.schemas) :
    (ofQuery depth left right leftScope rightScope w).Ready base pure users := by
  obtain ⟨after, m, n, v, opened, order, -, knowsLeft, knowsRight⟩ :=
    Engine.opening_ready (Engine.InOrder.start pure serves sound) known
  simp only [ofQuery, World.opened, idle, List.isEmpty_nil, if_true, opened]
  exact ⟨after, knowsLeft, knowsRight, after, .refl _, order⟩

end

-- Each pair is compared at most once in a query that remembers and that comes to no pair which is
-- being compared: the pairs that are begun have different keys, and so have the lines of the trace,
-- where an answer leaves one for each pair. Queries without references are of this sort.
theorem pairs_compared_once {w : World} {left right : Schema} {leftScope rightScope : Scope}
    (placed : Placed w.supply (left :: right :: (leftScope ++ rightScope)))
    (noHandlers : ∀ t ∈ (left :: right :: (leftScope ++ rightScope)).flatMap Schema.parts,
      ∀ kind, t.kind = .user kind → w.registry.handler? kind = none)
    (idle : w.engine.active = []) (memoize : w.engine.settings.memoize = true) (depth : Nat) :
    let start := ofQuery depth left right leftScope rightScope w
    let query := Engine.query (Engine.compareSchemas depth left right leftScope rightScope) w
    query = (start.outcome.1, start.after.setEngine Engine.reset) ∧
    (left.Concrete → right.Concrete → ∀ i, start.Below i → ¬i.Reenters) ∧
    ((∀ i, start.Below i → ¬i.Reenters) →
      start.after.engine.begun = (start.comparisons.map Comparison.sides).reverse ∧
      (start.comparisons.map Comparison.key).Nodup ∧
      ∃ lines, query.2.log = lines ++ w.log ∧ (lines.filterMap Event.traced?).Nodup ∧
        (w.engine.settings.trace = true → ∀ b, query.1 = .ok b →
          (lines.filterMap Event.traced?).Perm (start.comparisons.map Comparison.key))) := by
  intro start query
  let users : Set String := {kind | w.registry.handler? kind = none}
  obtain ⟨ledger, sound, known⟩ :=
    Ledger.exists_of_placed users placed List.mem_cons_self noHandlers
  have serves : Engine.Serves (Engine.withoutRules w) users w :=
    Engine.serves_withoutRules fun _ free => free
  have ready : start.Ready (Engine.withoutRules w) (Engine.withoutRules_pure w) users :=
    ofQuery_ready idle depth left right leftScope rightScope _ serves sound known
  obtain ⟨supply, world⟩ := ofQuery_world idle depth left right leftScope rightScope
  have ran : query = (start.outcome.1, start.after.setEngine Engine.reset) :=
    ofQuery_query idle depth left right leftScope rightScope
  refine ⟨ran, fun onLeft onRight i below => ?_, fun apart => ?_⟩
  · have light : start.Light :=
      ofQuery_light idle depth left right leftScope rightScope onLeft onRight
    exact (light.below ready below).apart (ready.below below)
  · have plain : ∀ i, start.Below i → ¬i.Consults := fun i below =>
      (ready.below below).plain (Engine.withoutRules_handler w)
    have frugal := start.frugal (by rwa [world]) apart plain
    obtain ⟨lines, logged, different, complete⟩ := frugal.traced_once
    have begun := frugal.begun
    rw [world] at logged begun complete
    rw [ran]
    exact ⟨begun.trans (List.append_nil _), frugal.distinct, lines, logged, different, complete⟩

-- Both properties hold the same schema: the paths double from level to level, the pairs do not.
def doubling : Nat → Schema
  | 0 => .mk 1 .null false (.basic .string)
  | levels + 1 => .mk (levels + 2) .null false
    (.object [("one", doubling levels), ("other", doubling levels)] .null)

theorem doubling_parts {levels : Nat} {s : Schema} (part : s ∈ (doubling levels).parts) :
    ∃ n ≤ levels, s = doubling n := by
  induction levels with
  | zero =>
    simp only [doubling, Schema.parts, Shape.parts, List.mem_singleton] at part
    exact ⟨0, Nat.le_refl _, part⟩
  | succ levels ih =>
    rw [parts_eq] at part
    rcases List.mem_cons.mp part with rfl | deeper
    · exact ⟨levels + 1, Nat.le_refl _, rfl⟩
    · have inside : s ∈ (doubling levels).parts := by
        simpa [doubling, Schema.children, Schema.shape, Value.schema?] using deeper
      obtain ⟨n, fewer, same⟩ := ih inside
      exact ⟨n, Nat.le_succ_of_le fewer, same⟩

theorem doubling_mark (levels : Nat) : (doubling levels).mark = levels + 1 := by
  cases levels <;> rfl

theorem doubling_placed (levels : Nat) :
    Placed (levels + 2) [doubling levels, doubling levels] := by
  have below : ∀ s ∈ [doubling levels, doubling levels].flatMap Schema.parts,
      ∃ n ≤ levels, s = doubling n := by
    intro s member
    obtain ⟨root, listed, part⟩ := List.mem_flatMap.mp member
    have same : root = doubling levels := by simpa using listed
    exact doubling_parts (same ▸ part)
  refine ⟨fun s member => ?_, fun s member t member' marks => ?_⟩
  · obtain ⟨n, fewer, rfl⟩ := below s member
    rw [doubling_mark]
    omega
  · obtain ⟨n, -, rfl⟩ := below s member
    obtain ⟨m, -, rfl⟩ := below t member'
    rw [doubling_mark, doubling_mark] at marks
    rw [Nat.succ_injective marks]

theorem doubling_concrete (levels : Nat) : (doubling levels).Concrete := by
  intro s part
  obtain ⟨n, -, rfl⟩ := doubling_parts part
  cases n <;> rfl

def tracing : World where
  supply := 10
  engine := { settings := { trace := true } }

theorem doubling_compared_once :
    let start := ofQuery 9 (doubling 8) (doubling 8) [] [] tracing
    let query := Engine.query (Engine.compareSchemas 9 (doubling 8) (doubling 8) [] []) tracing
    tracing.engine.active = [] ∧ tracing.engine.settings.memoize = true ∧ query.1 = .ok true ∧
      (∀ i, start.Below i → ¬i.Reenters) ∧ start.comparisons.length = 9 ∧
      (start.comparisons.map Comparison.key).Nodup ∧
      ∃ lines, query.2.log = lines ++ tracing.log ∧ (lines.filterMap Event.traced?).Nodup ∧
        (lines.filterMap Event.traced?).length = 9 := by
  intro start query
  have plain : ∀ t ∈ [doubling 8, doubling 8].flatMap Schema.parts, ∀ kind, t.kind = .user kind →
      tracing.registry.handler? kind = none := fun _ _ _ _ => rfl
  obtain ⟨-, lightens, once⟩ :=
    @pairs_compared_once tracing (doubling 8) (doubling 8) [] [] (doubling_placed 8) plain rfl rfl 9
  have apart := lightens (doubling_concrete 8) (doubling_concrete 8)
  have answer : query.1 = .ok true := by rfl
  have count : start.comparisons.length = 9 := by decide +kernel
  obtain ⟨-, distinct, lines, logged, different, complete⟩ := once apart
  refine ⟨rfl, rfl, answer, apart, count, distinct, lines, logged, different, ?_⟩
  rw [(complete rfl true answer).length_eq, List.length_map, count]

end Invocation

end Assignability
