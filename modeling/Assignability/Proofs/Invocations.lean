import Assignability.Proofs.Reentrance
import Mathlib.Logic.Relation

namespace Assignability

open Relation (ReflTransGen)

-- The steps of a goal are comparisons in the same query; each question of a rule for a user kind is
-- a query of its own. Both are listed in the order in which they begin.

-- A comparison as it is begun.
structure Invocation where
  depth : Nat
  left : Site
  right : Site
  world : World

-- A new pair at the moment before it is entered. Both sides are prepared, and the depth is what is
-- left for the comparisons that it asks for.
structure Comparison where
  depth : Nat
  left : Site
  right : Site
  world : World

namespace Invocation

def outcome (i : Invocation) : Except Fault Bool × World :=
  Engine.visit i.depth i.left i.right i.world

def after (i : Invocation) : World := i.outcome.2

-- Both sides once they are prepared, and the world by then.
def pair? (i : Invocation) : Option (Site × Site × World) :=
  match i.depth, Engine.prepare i.left i.world with
  | _ + 1, (.ok l, w) =>
    match Engine.prepare i.right w with
    | (.ok r, w) => some (l, r, w)
    | _ => none
  | _, _ => none

def comparison? (i : Invocation) : Option Comparison :=
  match i.pair? with
  | none => none
  | some (l, r, w) =>
    if w.engine.results.lookup (.of l r) = none ∧ w.engine.active.lookup (.of l r) = none then
      some ⟨i.depth - 1, l, r, w⟩
    else none

end Invocation

-- The world in which a query begins.
def World.opened (w : World) : World :=
  if w.engine.active.isEmpty then w.setEngine Engine.reset else w

-- The comparison that a query consists of.
def Invocation.ofQuery (depth : Nat) (left right : Schema) (leftScope rightScope : Scope)
    (w : World) : Invocation :=
  let start := Engine.opening left right leftScope rightScope w.opened
  ⟨depth, start.1, start.2.1, start.2.2⟩

-- The steps that the loop over a goal gets to.
def Goal.invocations (go : Bool) (depth : Nat) : List Step → World → List Invocation
  | [], _ => []
  | .holds b :: rest, w => if b = go then invocations go depth rest w else []
  | .compare left right :: rest, w =>
    ⟨depth, left, right, w⟩ ::
      match Engine.visit depth left right w with
      | (.ok b, w) => if b = go then invocations go depth rest w else []
      | _ => []

theorem Goal.mem_invocations {go : Bool} {depth : Nat} {steps : List Step} {w : World}
    {j : Invocation} (member : j ∈ Goal.invocations go depth steps w) :
    .compare j.left j.right ∈ steps ∧ j.depth = depth := by
  induction steps generalizing w with
  | nil => cases member
  | cons step rest ih =>
    cases step with
    | holds b =>
      simp only [invocations] at member
      split at member
      · exact ⟨.tail _ (ih member).1, (ih member).2⟩
      · cases member
    | compare left right =>
      simp only [invocations] at member
      rcases List.mem_cons.mp member with rfl | later
      · exact ⟨.head _, rfl⟩
      · split at later
        · split at later
          · exact ⟨.tail _ (ih later).1, (ih later).2⟩
          · cases later
        · cases later

-- The questions that a script gets to, in their order, each with the world in which it asks.
def Script.questions (ask : Question → Run Bool) : Script → World → List (Question × World)
  | .answer _, _ => []
  | .fail _, _ => []
  | .unregister kind next, w => (next (w.unregister kind).1).questions ask (w.unregister kind).2
  | .compare question next, w =>
    (question, w) :: (next (ask question w).1).questions ask (ask question w).2

namespace Question

-- The world with the engine in place that is to reply.
def world? (question : Question) (w : World) : Option World :=
  match question.engine, w.waiting with
  | .shared, none => some w
  | .shared, some session => some { w with engine := session, waiting := none }
  | .fresh, _ =>
    match Settings.build w.environment [] with
    | .error _ => none
    | .ok settings =>
      some { w with engine := { settings }, waiting := some (w.waiting.getD w.engine) }

-- There is nothing to compare unless both values are schemas.
def invocation? (depth : Nat) (question : Question) (w : World) : Option Invocation :=
  match question.left, question.right, question.world? w with
  | .schema l, .schema r, some v =>
    some (.ofQuery depth l r question.leftScope question.rightScope v)
  | _, _, _ => none

end Question

namespace Comparison

def goal (c : Comparison) : Goal :=
  Rule.goal c.world.engine.settings c.world.registry c.world.supply c.left c.right

def entered (c : Comparison) : World := Engine.entering c.left c.right c.world

-- What the goal comes to, before the pair is left.
def pursued (c : Comparison) : Except Fault Bool × World :=
  Engine.pursue (Engine.visit c.depth) c.goal c.entered

def steps (c : Comparison) : List Invocation :=
  match c.goal with
  | .all steps => Goal.invocations true c.depth steps c.entered
  | .any steps => Goal.invocations false c.depth steps c.entered
  | _ => []

theorem mem_steps {c : Comparison} {j : Invocation} (member : j ∈ c.steps) :
    .compare j.left j.right ∈ c.goal.steps ∧ j.depth = c.depth := by
  unfold steps at member
  cases goal : c.goal with
  | all steps | any steps =>
    simp only [goal] at member
    exact Goal.mem_invocations member
  | consult _ | refuse _ =>
    simp only [goal] at member
    cases member

def questions (c : Comparison) : List (Question × World) :=
  match c.goal with
  | .consult script => script.questions (Engine.ask (Engine.visit c.depth)) c.entered
  | _ => []

def posed (c : Comparison) : List Invocation :=
  c.questions.filterMap fun p => p.1.invocation? c.depth p.2

end Comparison

theorem Engine.prepare_marks {site : Site} {w w' : World} {outcome : Except Fault Site}
    (ran : prepare site w = (outcome, w')) : ∃ supply, w' = { w with supply } := by
  obtain ⟨supply, -, rest⟩ := prepare_supply site w
  rw [ran] at rest
  exact ⟨supply, rest⟩

namespace Invocation

-- The second comparison is a step of the first one,
def Steps (i j : Invocation) : Prop := ∃ c, i.comparison? = some c ∧ j ∈ c.steps

-- or replies to a question of its rule.
def Poses (i j : Invocation) : Prop := ∃ c, i.comparison? = some c ∧ j ∈ c.posed

-- Below a comparison are its steps, their steps and so on; within it is whatever it leads to.
def Below : Invocation → Invocation → Prop := ReflTransGen Steps

def Within : Invocation → Invocation → Prop := ReflTransGen fun i j => i.Steps j ∨ i.Poses j

section
variable {i : Invocation} {c : Comparison}

theorem pair_prepared {l r : Site} {w : World} (pair : i.pair? = some (l, r, w)) :
    0 < i.depth ∧
      ∃ v, Engine.prepare i.left i.world = (.ok l, v) ∧ Engine.prepare i.right v = (.ok r, w) := by
  unfold pair? at pair
  split at pair
  · rename_i depth first
    split at pair
    · rename_i second
      cases pair
      exact ⟨by omega, _, first, second⟩
    · cases pair
  · cases pair

theorem comparison_pair (comparison : i.comparison? = some c) :
    i.pair? = some (c.left, c.right, c.world) ∧ i.depth = c.depth + 1 ∧
      c.world.engine.results.lookup (.of c.left c.right) = none ∧
      c.world.engine.active.lookup (.of c.left c.right) = none := by
  unfold comparison? at comparison
  split at comparison
  · cases comparison
  · rename_i pair
    split at comparison
    · rename_i new
      have deep := (pair_prepared pair).1
      cases comparison
      exact ⟨pair, (Nat.sub_add_cancel deep).symm, new⟩
    · cases comparison

-- A comparison fails while its sides are prepared, or goes on with both.
theorem pair_course (i : Invocation) :
    (∃ supply, i.pair? = none ∧ i.after = { i.world with supply }) ∨
    ∃ depth l r supply, i.depth = depth + 1 ∧ i.pair? = some (l, r, { i.world with supply }) ∧
      i.outcome = Engine.comparePrepared (Engine.visit depth) l r { i.world with supply } := by
  obtain ⟨depth, left, right, w⟩ := i
  cases depth with
  | zero => exact .inl ⟨w.supply, rfl, rfl⟩
  | succ depth =>
    rcases Engine.visit_cases depth left right w with
      ⟨fault, v, ran, same⟩ | ⟨l, v, fault, u, ran, ran', same⟩ | ⟨l, v, r, u, ran, ran', same⟩
    · obtain ⟨supply, rfl⟩ := Engine.prepare_marks ran
      exact .inl ⟨supply, by simp [pair?, ran], by simp [after, outcome, same]⟩
    · obtain ⟨_, rfl⟩ := Engine.prepare_marks ran
      obtain ⟨supply, rfl⟩ := Engine.prepare_marks ran'
      exact .inl ⟨supply, by simp [pair?, ran, ran'], by simp [after, outcome, same]⟩
    · obtain ⟨_, rfl⟩ := Engine.prepare_marks ran
      obtain ⟨supply, rfl⟩ := Engine.prepare_marks ran'
      exact .inr ⟨depth, l, r, supply, rfl, by simp [pair?, ran, ran'], by simp [outcome, same]⟩

-- How a comparison goes: it ends with what is known, it comes to a pair that is being compared, or
-- it works through the goal of a new pair.
theorem course (i : Invocation) :
    (∃ supply, i.comparison? = none ∧ i.after = { i.world with supply }) ∨
    (∃ supply depth key event, i.comparison? = none ∧ (key, depth) ∈ i.world.engine.active ∧
      i.after = ({ i.world with supply }.record event).setEngine (·.assume depth)) ∨
    ∃ c supply, i.comparison? = some c ∧ c.world = { i.world with supply } ∧
      i.outcome = (c.pursued.1, Engine.leaving c.left c.right c.world c.pursued.1 c.pursued.2) := by
  rcases i.pair_course with ⟨supply, pair, same⟩ | ⟨depth, l, r, supply, deep, pair, same⟩
  · exact .inl ⟨supply, by simp [comparison?, pair], same⟩
  · simp only [after, same, comparison?, pair, deep, Engine.comparePrepared]
    cases finished : i.world.engine.results.lookup (.of l r) with
    | some b => exact .inl ⟨supply, by simp, rfl⟩
    | none =>
      cases active : i.world.engine.active.lookup (.of l r) with
      | some d =>
        exact .inr (.inl ⟨supply, d, .of l r, _, by simp, lookup_mem active, rfl⟩)
      | none =>
        refine .inr (.inr ⟨⟨depth, l, r, { i.world with supply }⟩, supply, by simp, rfl, ?_⟩)
        exact Engine.compareNew_eq _ l r _

theorem comparison_course (comparison : i.comparison? = some c) :
    (∃ supply, c.world = { i.world with supply }) ∧
      i.outcome = (c.pursued.1, Engine.leaving c.left c.right c.world c.pursued.1 c.pursued.2) := by
  rcases i.course with
    ⟨_, settled, -⟩ | ⟨_, _, _, _, settled, -⟩ | ⟨_, supply, same, world, outcome⟩
  · cases settled.symm.trans comparison
  · cases settled.symm.trans comparison
  · cases same.symm.trans comparison
    exact ⟨⟨supply, world⟩, outcome⟩

end

-- A step of a comparison is one that the goal of its pair asks for.
theorem Steps.asked {i j : Invocation} (steps : i.Steps j) :
    ∃ c, i.comparison? = some c ∧ Rule.Asks c.world.supply c.left c.right j.left j.right := by
  obtain ⟨c, comparison, member⟩ := steps
  exact ⟨c, comparison, Rule.goal_asks (Comparison.mem_steps member).1⟩

theorem ofQuery_eq (depth : Nat) (left right : Schema) (leftScope rightScope : Scope) (w : World) :
    ∃ leftMark rightMark supply, ofQuery depth left right leftScope rightScope w =
      ⟨depth, ⟨left, leftScope, leftMark⟩, ⟨right, rightScope, rightMark⟩,
        { w.opened with supply }⟩ := by
  obtain ⟨leftMark, rightMark, supply, opened, -⟩ :=
    Engine.opening_eq left right leftScope rightScope w.opened
  exact ⟨leftMark, rightMark, supply, by simp only [ofQuery, opened]⟩

theorem ofQuery_outcome (depth : Nat) (left right : Schema) (leftScope rightScope : Scope)
    (w : World) : (ofQuery depth left right leftScope rightScope w).outcome =
      Engine.compareSchemas depth left right leftScope rightScope w.opened := rfl

end Invocation

theorem Question.invocation_cases {depth : Nat} {question : Question} {w : World} {j : Invocation}
    (begun : question.invocation? depth w = some j) :
    ∃ l r v, question.left = .schema l ∧ question.right = .schema r ∧ question.world? w = some v ∧
      j = .ofQuery depth l r question.leftScope question.rightScope v := by
  unfold invocation? at begun
  split at begun
  · rename_i l r v left right opened
    cases begun
    exact ⟨l, r, v, left, right, opened, rfl⟩
  · cases begun

-- What the comparisons and the questions of a goal keep holds whenever one begins, and in the end.
section
variable {holds : World → Prop}

theorem Goal.run_holds (go : Bool) {depth : Nat} (steps : List Step) {w : World}
    (visits : ∀ j ∈ Goal.invocations go depth steps w, holds j.world → holds j.after)
    (start : holds w) : (∀ j ∈ Goal.invocations go depth steps w, holds j.world) ∧
      holds (Goal.run go (Engine.visit depth) steps w).2 := by
  induction steps generalizing w with
  | nil => exact ⟨List.forall_mem_nil _, start⟩
  | cons step rest ih =>
    cases step with
    | holds b =>
      simp only [invocations, run] at visits ⊢
      by_cases goes : b = go
      · simp only [if_pos goes] at visits ⊢
        exact ih visits start
      · simp only [if_neg goes]
        exact ⟨List.forall_mem_nil _, start⟩
    | compare left right =>
      simp only [invocations, run, List.forall_mem_cons, start, true_and, true_implies] at visits ⊢
      obtain ⟨next, visits⟩ := visits
      simp only [Invocation.after, Invocation.outcome] at next
      cases ran : Engine.visit depth left right w with
      | mk outcome v =>
        rw [ran] at next
        simp only [ran] at visits
        cases outcome with
        | error fault => exact ⟨List.forall_mem_nil _, next⟩
        | ok b =>
          by_cases goes : b = go
          · simp only [if_pos goes] at visits ⊢
            exact ih visits next
          · simp only [if_neg goes]
            exact ⟨List.forall_mem_nil _, next⟩

theorem Comparison.steps_hold {c : Comparison}
    (visits : ∀ j ∈ c.steps, holds j.world → holds j.after) (start : holds c.entered) :
    ∀ j ∈ c.steps, holds j.world := by
  unfold steps at *
  cases goal : c.goal with
  | all steps =>
    simp only [goal] at visits ⊢
    exact (Goal.run_holds true steps visits start).1
  | any steps =>
    simp only [goal] at visits ⊢
    exact (Goal.run_holds false steps visits start).1
  | consult script | refuse fault => exact List.forall_mem_nil _

theorem Script.run_holds {ask : Question → Run Bool}
    (removes : ∀ kind w, holds w → holds (w.unregister kind).2) (script : Script) {w : World}
    (asks : ∀ p ∈ script.questions ask w, holds p.2 → holds (ask p.1 p.2).2) (start : holds w) :
    (∀ p ∈ script.questions ask w, holds p.2) ∧ holds (script.run ask w).2 := by
  induction script generalizing w with
  | answer value => exact ⟨List.forall_mem_nil _, start⟩
  | fail fault => exact ⟨List.forall_mem_nil _, start⟩
  | unregister kind next ih => exact ih _ asks (removes kind w start)
  | compare question next ih =>
    obtain ⟨here, asks⟩ := List.forall_mem_cons.mp asks
    obtain ⟨later, last⟩ := ih _ asks (here start)
    exact ⟨List.forall_mem_cons.mpr ⟨start, later⟩, last⟩

theorem Comparison.run_holds {c : Comparison}
    (visits : ∀ j ∈ c.steps, holds j.world → holds j.after)
    (asks : ∀ p ∈ c.questions, holds p.2 →
      holds (Engine.ask (Engine.visit c.depth) p.1 p.2).2)
    (removes : ∀ kind w, holds w → holds (w.unregister kind).2) (start : holds c.entered) :
    (∀ j ∈ c.steps, holds j.world) ∧ (∀ p ∈ c.questions, holds p.2) ∧ holds c.pursued.2 := by
  unfold steps questions pursued at *
  cases goal : c.goal with
  | all steps =>
    simp only [goal, Engine.pursue, Goal.runAll_eq] at visits ⊢
    obtain ⟨each, last⟩ := Goal.run_holds true steps visits start
    exact ⟨each, List.forall_mem_nil _, last⟩
  | any steps =>
    simp only [goal, Engine.pursue, Goal.runAny_eq] at visits ⊢
    obtain ⟨each, last⟩ := Goal.run_holds false steps visits start
    exact ⟨each, List.forall_mem_nil _, last⟩
  | consult script =>
    simp only [goal] at asks
    obtain ⟨each, last⟩ := script.run_holds removes asks start
    exact ⟨List.forall_mem_nil _, each, last⟩
  | refuse fault => exact ⟨List.forall_mem_nil _, List.forall_mem_nil _, start⟩

end

theorem Engine.query_opened (run : Run Bool) (w : World) : (query run w).1 = (run w.opened).1 ∧
    (query run w).2 =
      if w.engine.active.isEmpty then (run w.opened).2.setEngine reset else (run w.opened).2 := by
  unfold query World.opened
  split <;> exact ⟨rfl, rfl⟩

end Assignability
