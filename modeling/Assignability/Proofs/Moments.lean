import Assignability.Proofs.Bookkeeping

namespace Assignability

open Relation (ReflTransGen)

-- While a query is answered, its engine compares, or waits for another engine, or is set aside and
-- touched by nobody.

namespace Engine

-- From one state of an engine to a later one.
def Grows (e e' : Engine) : Prop := e.results <:+ e'.results

theorem Grows.refl (e : Engine) : e.Grows e := List.suffix_refl _

theorem Grows.trans {a b c : Engine} (first : a.Grows b) (second : b.Grows c) : a.Grows c :=
  List.IsSuffix.trans first second

-- States in between, in the order of time.
structure Rises (a : Engine) (states : List Engine) (b : Engine) : Prop where
  whole : a.Grows b
  after : ∀ e ∈ states, a.Grows e
  before : ∀ e ∈ states, e.Grows b
  ordered : states.Pairwise Grows

section
variable {a b c : Engine} {states later : List Engine}

theorem Rises.nil (grows : a.Grows b) : Rises a [] b :=
  ⟨grows, List.forall_mem_nil _, List.forall_mem_nil _, .nil⟩

theorem Rises.append (first : Rises a states b) (second : Rises b later c) :
    Rises a (states ++ later) c where
  whole := first.whole.trans second.whole
  after := by
    intro e member
    rcases List.mem_append.mp member with early | late
    · exact first.after e early
    · exact first.whole.trans (second.after e late)
  before := by
    intro e member
    rcases List.mem_append.mp member with early | late
    · exact (first.before e early).trans second.whole
    · exact second.before e late
  ordered := by
    refine List.pairwise_append.mpr ⟨first.ordered, second.ordered, fun e early e' late => ?_⟩
    exact (first.before e early).trans (second.after e' late)

theorem Rises.here (e : Engine) : Rises e [e] e where
  whole := .refl e
  after := List.forall_mem_singleton.mpr (.refl e)
  before := List.forall_mem_singleton.mpr (.refl e)
  ordered := List.pairwise_singleton _ _

theorem Rises.enclose (inside : Rises a states b) : Rises a (a :: states ++ [b]) b :=
  (Rises.here a).append (inside.append (.here b))

theorem Rises.of_grows (same : a.Grows b) (rises : Rises b states c) : Rises a states c :=
  (Rises.nil same).append rises

theorem Rises.then_grows (rises : Rises a states b) (same : b.Grows c) : Rises a states c := by
  have both := rises.append (.nil same)
  rwa [List.append_nil] at both

end

end Engine

-- Where an engine is: it answers, or it waits while another one does.
inductive Seat where
  | answering | waiting

namespace Seat

def engine : Seat → World → Engine
  | .answering, w => w.engine
  | .waiting, w => w.waiting.getD w.engine

-- Where the engine is while a question is replied to. An engine that is not the session's is set
-- aside if another one is to reply.
def during (seat : Seat) (question : Question) (w : World) : Option Seat :=
  match seat, question.engine, w.waiting with
  | .answering, .shared, none => some .answering
  | .answering, .fresh, none => some .waiting
  | .answering, _, some _ => none
  | .waiting, .shared, _ => some .answering
  | .waiting, .fresh, _ => some .waiting

-- An engine that waits does so in the midst of a comparison.
def Taken (seat : Seat) (w : World) : Prop :=
  seat = .waiting → ∃ e, w.waiting = some e ∧ e.active ≠ []

-- The comparison that replies to a question, and where the engine is meanwhile.
def posed? (seat : Seat) (depth : Nat) (p : Question × World) : Option (Seat × Invocation) :=
  (seat.during p.1 p.2).bind fun other =>
    (p.1.invocation? depth p.2).map fun j => (other, j)

section
variable {seat other : Seat} {w w' : World}

theorem engine_of_same (seat : Seat) (engine : w'.engine = w.engine)
    (waiting : w'.waiting = w.waiting) : seat.engine w' = seat.engine w := by
  cases seat with
  | answering => exact engine
  | waiting => simp only [Seat.engine, engine, waiting]

theorem engine_orderly (seat : Seat) (orderly : w.Orderly) : (seat.engine w).Orderly := by
  cases seat with
  | answering => exact orderly.engine
  | waiting => exact orderly.session

theorem Taken.resumes (taken : seat.Taken w) (resumes : Engine.Resumes w w') :
    seat.Taken w' ∧ (seat.engine w).Learns (seat.engine w') := by
  cases seat with
  | answering =>
    refine ⟨fun waits => ?_, resumes.engine⟩
    cases waits
  | waiting =>
    obtain ⟨e, waits, busy⟩ := taken rfl
    have stands := resumes.waiting
    rw [waits] at stands
    cases waits' : w'.waiting with
    | none =>
      rw [waits'] at stands
      cases stands
    | some e' =>
      rw [waits'] at stands
      cases stands with
      | some stands =>
        have learned := stands.learns busy
        refine ⟨fun _ => ⟨e', waits', learned.active ▸ busy⟩, ?_⟩
        simpa only [engine, waits, waits', Option.getD_some] using learned

theorem during_cases {question : Question} (moved : seat.during question w = some other) :
    question.engine = .shared ∧ other = .answering ∧ (seat = .answering → w.waiting = none) ∨
      question.engine = .fresh ∧ other = .waiting ∧ (seat = .answering → w.waiting = none) := by
  cases seat <;> cases choice : question.engine <;> cases waits : w.waiting <;>
    simp only [during, choice, waits] at moved <;> cases moved <;> simp

-- The engine is handed over as it is,
theorem hands_over {question : Question} (busy : w.engine.active ≠ []) (taken : seat.Taken w)
    (moved : seat.during question w = some other) (opened : question.world? w = some w') :
    w'.opened = w' ∧ other.Taken w' ∧ other.engine w' = seat.engine w := by
  rcases during_cases moved with ⟨choice, rfl, own⟩ | ⟨choice, rfl, own⟩
  · cases seat with
    | answering =>
      simp only [Question.world?, choice, own rfl, Option.some.injEq] at opened
      subst opened
      exact ⟨by simp only [World.opened, List.isEmpty_iff, busy, if_false], taken, rfl⟩
    | waiting =>
      obtain ⟨e, waits, busy⟩ := taken rfl
      simp only [Question.world?, choice, waits, Option.some.injEq] at opened
      subst opened
      refine ⟨by simp only [World.opened, List.isEmpty_iff, busy, if_false], ?_, ?_⟩
      · intro other
        cases other
      · simp only [engine, waits, Option.getD_some]
  · have session : seat.engine w = w.waiting.getD w.engine := by
      cases seat with
      | answering => simp only [engine, own rfl, Option.getD_none]
      | waiting => rfl
    have busy' : (w.waiting.getD w.engine).active ≠ [] := by
      cases seat with
      | answering => rwa [own rfl]
      | waiting =>
        obtain ⟨e, waits, busy⟩ := taken rfl
        rwa [waits]
    simp only [Question.world?, choice] at opened
    split at opened
    · cases opened
    · cases opened
      exact ⟨rfl, fun _ => ⟨_, rfl, busy'⟩, session.symm⟩

-- and handed back as it has become.
theorem hands_back {question : Question} {compare : Comparer} (busy : w.engine.active ≠ [])
    (taken : seat.Taken w) (moved : seat.during question w = some other)
    (opened : question.world? w = some w')
    (resumes : Engine.Resumes w' (Engine.compareValues compare question w').2) :
    seat.engine (Engine.ask compare question w).2 =
      other.engine (Engine.compareValues compare question w').2 := by
  rcases during_cases moved with ⟨choice, rfl, own⟩ | ⟨choice, rfl, own⟩
  · cases seat with
    | answering =>
      simp only [Question.world?, choice, own rfl, Option.some.injEq] at opened
      subst opened
      simp only [Engine.ask, choice, Engine.queryShared, own rfl, Engine.query_busy _ busy]
    | waiting =>
      obtain ⟨e, waits, busy'⟩ := taken rfl
      simp only [Question.world?, choice, waits, Option.some.injEq] at opened
      have busy : w'.engine.active ≠ [] := opened ▸ busy'
      simp only [Engine.ask, choice, Engine.queryShared, waits, opened, Engine.query_busy _ busy,
        engine, Option.getD_some]
  · simp only [Question.world?, choice] at opened
    split at opened
    · cases opened
    · rename_i settings built
      rw [Option.some.injEq] at opened
      have idle : w'.engine.active = [] := by rw [← opened]
      have start : w'.setEngine Engine.reset = w' := by rw [← opened]; rfl
      have waits : ∃ e, (Engine.compareValues compare question w').2.waiting = some e := by
        have stands := resumes.waiting
        rw [← opened] at stands ⊢
        cases after : (Engine.compareValues compare question _).2.waiting with
        | none =>
          rw [after] at stands
          cases stands
        | some e => exact ⟨e, rfl⟩
      obtain ⟨e, waits⟩ := waits
      simp only [Engine.ask, choice, built, Engine.queryFresh, opened, Engine.query_idle _ idle,
        start]
      cases seat with
      | answering =>
        simp only [own rfl, engine, World.setEngine, waits, Option.getD_some]
      | waiting =>
        obtain ⟨_, before, -⟩ := taken rfl
        simp only [before, engine, World.setEngine, waits, Option.getD_some]

theorem posed_spec {depth : Nat} {question : Question} {j : Invocation}
    (busy : w.engine.active ≠ []) (taken : seat.Taken w)
    (posed : seat.posed? depth (question, w) = some (other, j)) :
    j.depth = depth ∧ other.Taken j.world ∧ other.engine j.world = seat.engine w ∧
      other.engine j.after = seat.engine (Engine.ask (Engine.visit depth) question w).2 := by
  simp only [posed?, Option.bind_eq_some_iff, Option.map_eq_some_iff, Prod.mk.injEq] at posed
  obtain ⟨_, moved, _, begun, rfl, rfl⟩ := posed
  obtain ⟨l, r, v, left, right, opened, rfl⟩ := Question.invocation_cases begun
  obtain ⟨same, taken', handed⟩ := hands_over busy taken moved opened
  have values : Engine.compareValues (Engine.visit depth) question v =
      Engine.compareSchemas depth l r question.leftScope question.rightScope v := by
    simp only [Engine.compareValues, left, right, Engine.compareSchemas]
  have resumes :=
    Engine.compareValues_resumes (Engine.visit_resumes depth) question v
  have back := hands_back busy taken moved opened resumes
  obtain ⟨_, _, supply, start⟩ :=
    Invocation.ofQuery_eq depth l r question.leftScope question.rightScope v
  have outcome := Invocation.ofQuery_outcome depth l r question.leftScope question.rightScope v
  rw [same, ← values] at outcome
  rw [back, Invocation.after, outcome, start, same]
  refine ⟨rfl, ?_, ?_, rfl⟩
  · exact taken'
  · rw [← handed]
    exact engine_of_same _ rfl rfl

end

end Seat

-- What the engine could be seen in within a comparison, in the order of time.
def Comparison.nested (seat : Seat) (c : Comparison) : List (Seat × Invocation) :=
  c.steps.map (fun j => (seat, j)) ++ c.questions.flatMap fun p => (seat.posed? c.depth p).toList

namespace Invocation

def statesWithin : Nat → Seat → Invocation → List Engine
  | 0, seat, i => [seat.engine i.world, seat.engine i.after]
  | n + 1, seat, i =>
    seat.engine i.world ::
      (i.comparison?.elim [] (Comparison.nested seat)).flatMap (fun p => statesWithin n p.1 p.2) ++
        [seat.engine i.after]

def states (seat : Seat) (i : Invocation) : List Engine := i.statesWithin i.depth seat

end Invocation

section
variable {seat : Seat} {w w' : World}

theorem Seat.Taken.grows (taken : seat.Taken w) (resumes : Engine.Resumes w w') :
    (seat.engine w).Grows (seat.engine w') :=
  (taken.resumes resumes).2.results

theorem Goal.run_rises (go : Bool) {depth : Nat} {states : Invocation → List Engine}
    (visits : ∀ x y w, seat.Taken w → Engine.Rises (seat.engine w) (states ⟨depth, x, y, w⟩)
      (seat.engine (Engine.visit depth x y w).2)) (steps : List Step) (taken : seat.Taken w) :
    Engine.Rises (seat.engine w) ((Goal.invocations go depth steps w).flatMap states)
      (seat.engine (Goal.run go (Engine.visit depth) steps w).2) := by
  induction steps generalizing w with
  | nil => exact .nil (.refl _)
  | cons step rest ih =>
    cases step with
    | holds b =>
      simp only [invocations, run]
      split
      · exact ih taken
      · exact .nil (.refl _)
    | compare left right =>
      have first := visits left right w taken
      have next := (taken.resumes (Engine.visit_resumes depth left right w)).1
      simp only [invocations, run, List.flatMap_cons]
      cases ran : Engine.visit depth left right w with
      | mk outcome v =>
        rw [ran] at first next
        cases outcome with
        | error fault => exact first.append (.nil (.refl _))
        | ok b =>
          dsimp only
          split
          · exact first.append (ih next)
          · exact first.append (.nil (.refl _))

theorem Script.run_rises {depth : Nat} {states : Question × World → List Engine}
    (asks : ∀ question w, w.engine.active ≠ [] → seat.Taken w →
      Engine.Rises (seat.engine w) (states (question, w))
        (seat.engine (Engine.ask (Engine.visit depth) question w).2)) (script : Script)
    (busy : w.engine.active ≠ []) (taken : seat.Taken w) :
    Engine.Rises (seat.engine w)
      ((script.questions (Engine.ask (Engine.visit depth)) w).flatMap states)
      (seat.engine (script.run (Engine.ask (Engine.visit depth)) w).2) := by
  induction script generalizing w with
  | answer value => exact .nil (.refl _)
  | fail fault => exact .nil (.refl _)
  | unregister kind next ih =>
    have removed := Engine.unregister_resumes w kind
    exact (ih _ (removed.busy busy) (taken.resumes removed).1).of_grows (taken.grows removed)
  | compare question next ih =>
    have asked := Engine.ask_resumes (Engine.visit_resumes depth) question busy
    simp only [questions, run, List.flatMap_cons]
    exact (asks question w busy taken).append
      (ih _ (asked.busy busy) (taken.resumes asked).1)

end

-- What is seen within a goal, if it is known for the comparisons and the questions of the goal.
theorem Comparison.nested_rises {c : Comparison} {seat : Seat}
    {states : Seat → Invocation → List Engine}
    (each : ∀ seat j, j.depth = c.depth → seat.Taken j.world →
      Engine.Rises (seat.engine j.world) (states seat j) (seat.engine j.after))
    (taken : seat.Taken c.entered) :
    Engine.Rises (seat.engine c.entered) ((c.nested seat).flatMap fun p => states p.1 p.2)
      (seat.engine c.pursued.2) := by
  have visits : ∀ x y w, seat.Taken w → Engine.Rises (seat.engine w)
      (states seat ⟨c.depth, x, y, w⟩) (seat.engine (Engine.visit c.depth x y w).2) :=
    fun x y w begun => each seat ⟨c.depth, x, y, w⟩ rfl begun
  have asks : ∀ question w, w.engine.active ≠ [] → seat.Taken w →
      Engine.Rises (seat.engine w)
        ((seat.posed? c.depth (question, w)).toList.flatMap fun p => states p.1 p.2)
        (seat.engine (Engine.ask (Engine.visit c.depth) question w).2) := by
    intro question w busy begun
    cases posed : seat.posed? c.depth (question, w) with
    | none =>
      exact .nil (begun.grows (Engine.ask_resumes (Engine.visit_resumes c.depth) question busy))
    | some p =>
      obtain ⟨depth, taken, before, after⟩ := Seat.posed_spec busy begun posed
      have inside := each p.1 p.2 depth taken
      rw [before, after] at inside
      simpa only [Option.toList_some, List.flatMap_cons, List.flatMap_nil, List.append_nil]
        using inside
  have busy : c.entered.engine.active ≠ [] := List.cons_ne_nil _ _
  simp only [nested, List.flatMap_append, List.flatMap_map, List.flatMap_assoc]
  unfold Comparison.steps Comparison.questions pursued
  cases c.goal with
  | all steps =>
    simp only [Engine.pursue, Goal.runAll_eq, List.flatMap_nil, List.append_nil]
    exact Goal.run_rises true visits steps taken
  | any steps =>
    simp only [Engine.pursue, Goal.runAny_eq, List.flatMap_nil, List.append_nil]
    exact Goal.run_rises false visits steps taken
  | consult script => exact script.run_rises asks busy taken
  | refuse fault => exact .nil (.refl _)

namespace Invocation

section
variable {i j start : Invocation} {seat : Seat}

theorem entered_grows {c : Comparison} (comparison : i.comparison? = some c)
    (taken : seat.Taken i.world) :
    seat.Taken c.entered ∧ (seat.engine i.world).Grows (seat.engine c.entered) := by
  obtain ⟨⟨supply, world⟩, -⟩ := comparison_course comparison
  unfold Comparison.entered
  rw [world]
  cases seat with
  | answering => exact ⟨taken, .refl _⟩
  | waiting =>
    obtain ⟨e, waits, -⟩ := taken rfl
    refine ⟨taken, ?_⟩
    simp only [Seat.engine, Engine.entering, World.setEngine, waits, Option.getD_some]
    exact .refl e

theorem leaving_grows (l r : Site) (before : World) {w : World} (outcome : Except Fault Bool)
    (taken : seat.Taken w) :
    (seat.engine w).Grows (seat.engine (Engine.leaving l r before outcome w)) := by
  cases seat with
  | answering =>
    cases outcome with
    | error fault => exact .refl _
    | ok b =>
      simp only [Seat.engine, Engine.leaving]
      split
      · exact List.suffix_cons _ _
      · exact .refl _
  | waiting =>
    obtain ⟨e, waits, -⟩ := taken rfl
    simp only [Seat.engine, Engine.leaving_waiting, waits, Option.getD_some]
    exact .refl e

theorem states_rise (seat : Seat) (i : Invocation) (taken : seat.Taken i.world) :
    Engine.Rises (seat.engine i.world) (i.states seat) (seat.engine i.after) := by
  unfold states
  induction nested : i.depth generalizing seat i with
  | zero =>
    have grows := taken.grows (Engine.visit_resumes i.depth i.left i.right i.world)
    exact Engine.Rises.enclose (.nil grows)
  | succ depth ih =>
    simp only [statesWithin]
    apply Engine.Rises.enclose
    cases comparison : i.comparison? with
    | none => exact .nil (taken.grows (Engine.visit_resumes i.depth i.left i.right i.world))
    | some c =>
      obtain ⟨-, outcome⟩ := comparison_course comparison
      obtain ⟨-, deeper, -, -⟩ := comparison_pair comparison
      obtain ⟨begun, entered⟩ := entered_grows comparison taken
      have within : c.depth = depth := by omega
      have inside := Comparison.nested_rises
        (fun other j same begun => ih other j begun (same.trans within)) begun
      have busy : c.entered.engine.active ≠ [] := List.cons_ne_nil _ _
      have resumes := Engine.pursue_resumes (Engine.visit_resumes c.depth) c.goal busy
      have left := leaving_grows c.left c.right c.world c.pursued.1
        (begun.resumes resumes).1
      rw [after, outcome]
      exact (inside.of_grows entered).then_grows left

theorem nested_spec {c : Comparison} {p : Seat × Invocation} (member : p ∈ c.nested seat) :
    p.2.depth = c.depth ∧ (p.2 ∈ c.steps ∨ p.2 ∈ c.posed) := by
  rcases List.mem_append.mp member with stepped | asked
  · obtain ⟨j, step, rfl⟩ := List.mem_map.mp stepped
    exact ⟨(Comparison.mem_steps step).2, .inl step⟩
  · obtain ⟨⟨question, w⟩, reached, posed⟩ := List.mem_flatMap.mp asked
    simp only [Seat.posed?, Option.mem_toList, Option.bind_eq_some_iff,
      Option.map_eq_some_iff] at posed
    obtain ⟨other, -, j, begun, rfl⟩ := posed
    obtain ⟨l, r, v, -, -, -, same⟩ := Question.invocation_cases begun
    refine ⟨same ▸ rfl, .inr ?_⟩
    exact List.mem_filterMap.mpr ⟨(question, w), reached, begun⟩

theorem mem_states {e : Engine} : e ∈ i.states seat ↔
    (e = seat.engine i.world ∨ e = seat.engine i.after) ∨
      ∃ c p, i.comparison? = some c ∧ p ∈ c.nested seat ∧ e ∈ p.2.states p.1 := by
  cases comparison : i.comparison? with
  | none =>
    unfold states
    cases i.depth <;> simp [statesWithin, comparison]
  | some c =>
    obtain ⟨-, deeper, -, -⟩ := comparison_pair comparison
    have inside : e ∈ (c.nested seat).flatMap (fun p => p.2.statesWithin c.depth p.1) ↔
        ∃ p ∈ c.nested seat, e ∈ p.2.states p.1 := by
      rw [List.mem_flatMap]
      refine exists_congr fun p => and_congr_right fun member => ?_
      rw [states, (nested_spec member).1]
    simp only [states, deeper, statesWithin, comparison, Option.elim_some, List.cons_append,
      List.mem_cons, List.mem_append, List.not_mem_nil, or_false, inside, Option.some.injEq]
    constructor
    · rintro (first | ⟨p, member, seen⟩ | last)
      · exact .inl (.inl first)
      · exact .inr ⟨c, p, rfl, member, seen⟩
      · exact .inl (.inr last)
    · rintro ((first | last) | ⟨_, p, rfl, member, seen⟩)
      · exact .inl first
      · exact .inr (.inr last)
      · exact .inr (.inl ⟨p, member, seen⟩)

end

-- A comparison that an engine is seen in, from another one in which it is seen.
def Sees : Seat × Invocation → Seat × Invocation → Prop :=
  ReflTransGen fun p q => ∃ c, p.2.comparison? = some c ∧ q ∈ c.nested p.1

theorem Sees.within {p q : Seat × Invocation} (sees : Sees p q) : p.2.Within q.2 := by
  induction sees with
  | refl => exact .refl
  | tail _ next ih =>
    obtain ⟨c, comparison, member⟩ := next
    refine .tail ih ?_
    exact (nested_spec member).2.imp (fun step => ⟨c, comparison, step⟩)
      (fun asked => ⟨c, comparison, asked⟩)

theorem Sees.mem_states {p q : Seat × Invocation} {e : Engine} (sees : Sees p q)
    (found : e = q.1.engine q.2.world ∨ e = q.1.engine q.2.after) : e ∈ p.2.states p.1 := by
  induction sees using ReflTransGen.head_induction_on with
  | refl => exact Invocation.mem_states.mpr (.inl found)
  | head next _ ih =>
    obtain ⟨c, comparison, member⟩ := next
    exact Invocation.mem_states.mpr (.inr ⟨c, _, comparison, member, ih⟩)

theorem mem_states_iff (i : Invocation) (seat : Seat) (e : Engine) : e ∈ i.states seat ↔
    ∃ p, Sees (seat, i) p ∧ (e = p.1.engine p.2.world ∨ e = p.1.engine p.2.after) := by
  constructor
  · intro member
    induction nested : i.depth using Nat.strongRecOn generalizing seat i with
    | ind n ih =>
      rcases mem_states.mp member with here | ⟨c, p, comparison, below, seen⟩
      · exact ⟨(seat, i), .refl, here⟩
      · obtain ⟨-, deeper, -, -⟩ := comparison_pair comparison
        have shallower : p.2.depth < n := by
          have := (nested_spec below).1
          omega
        obtain ⟨q, sees, found⟩ := ih p.2.depth shallower p.2 p.1 seen rfl
        exact ⟨q, .head ⟨c, comparison, below⟩ sees, found⟩
  · rintro ⟨p, sees, found⟩
    exact sees.mem_states found

-- What one comparison does to the books of both engines, whatever comes out of it.
structure Bookkept (i : Invocation) : Prop where
  entry : i.world.Orderly
  exit : i.after.Orderly
  active : i.after.engine.active = i.world.engine.active
  results : i.world.engine.Keeps i.after.engine
  assumed : ∀ a, i.world.engine.assumed = some a →
    ∃ a', a' ≤ a ∧ i.after.engine.assumed = some a'

theorem bookkept (i : Invocation) (orderly : i.world.Orderly) : i.Bookkept := by
  have exit := i.after_orderly orderly
  have learned := (Engine.visit_resumes i.depth i.left i.right i.world).engine
  exact ⟨orderly, exit, learned.active, exit.engine.keeps learned.results, learned.assumed⟩

-- Within a query every comparison keeps the books, also when it fails and also when it is asked for
-- by a rule: none that an engine has noted is left out. Nothing that the engine of the query has
-- finished is dropped or changed in its course.
theorem query_bookkept {w : World} (idle : w.engine.active = [])
    (session : ∀ e, w.waiting = some e → e.Orderly) (depth : Nat) (left right : Schema)
    (leftScope rightScope : Scope) :
    let start := ofQuery depth left right leftScope rightScope w
    (Engine.query (Engine.compareSchemas depth left right leftScope rightScope) w).1 =
        start.outcome.1 ∧
      (∀ i, start.Within i → i.Accounts i.after ∧ ∀ n l r, Bookkept ⟨n, l, r, i.world⟩) ∧
      (start.states .answering).Pairwise Engine.Keeps ∧
      ∀ e, e ∈ start.states .answering ↔ ∃ p, Sees (.answering, start) p ∧
        (e = p.1.engine p.2.world ∨ e = p.1.engine p.2.after) := by
  intro start
  have opened : w.opened.Orderly := by
    simp only [World.opened, idle, List.isEmpty_nil, if_true]
    exact ⟨Engine.orderly_new _, session⟩
  have orderly : start.world.Orderly := ofQuery_orderly opened depth left right leftScope rightScope
  have seen := mem_states_iff start .answering
  refine ⟨(Engine.query_opened _ w).1, fun i within => ⟨i.accounts_after, ?_⟩, ?_, seen⟩
  · exact fun n l r => bookkept ⟨n, l, r, i.world⟩ (within.orderly orderly)
  · have rises := states_rise .answering start (fun waits => by cases waits)
    refine rises.ordered.imp_of_mem fun {e e'} _ later grows => ?_
    obtain ⟨p, sees, found⟩ := (seen e').mp later
    have books := bookkept p.2 (sees.within.orderly orderly)
    have ordered : e'.Orderly := by
      rcases found with rfl | rfl
      · exact p.1.engine_orderly books.entry
      · exact p.1.engine_orderly books.exit
    exact ordered.keeps grows

-- The outer rule asks a new engine, the middle one the session's engine, which waits meanwhile, and
-- the inner one fails.
def outerKind : Schema :=
  .mk 1 .null false (.user ⟨"outer", rfl⟩
    [("inside", .schema (.mk 2 .null false (.user ⟨"middle", rfl⟩
      [("inside", .schema (.mk 3 .null false (.user ⟨"inner", rfl⟩ [])))])))])

def nestedRules : World where
  registry := [("outer", some (.byField "inside" .fresh)),
    ("middle", some (.byField "inside" .shared)), ("inner", some (.raising "stopped"))]

theorem nested_fault_bookkept :
    let start := ofQuery 5 outerKind outerKind [] [] nestedRules
    nestedRules.engine.active = [] ∧ nestedRules.waiting = none ∧
      start.outcome.1 = .error (.raised "stopped") ∧
      (start.states .answering).map (·.active.length) = [0, 1, 1, 1, 1, 0] ∧
      (start.states .answering).Pairwise Engine.Keeps ∧
      ∃ i j, start.Poses i ∧ i.Poses j ∧ i.world.waiting ≠ none ∧ j.world.waiting = none ∧
        j.outcome.1 = .error (.raised "stopped") ∧ j.Bookkept := by
  intro start
  have session : ∀ e, nestedRules.waiting = some e → e.Orderly := fun _ waits => by cases waits
  obtain ⟨-, books, kept, -⟩ :=
    query_bookkept (w := nestedRules) rfl session 5 outerKind outerKind [] []
  have fails : start.outcome.1 = .error (.raised "stopped") := rfl
  have depths : (start.states .answering).map (·.active.length) = [0, 1, 1, 1, 1, 0] := by
    decide +kernel
  have opened : ∃ i, start.Poses i ∧ i.world.waiting ≠ none ∧ ∃ j, i.Poses j ∧
      j.world.waiting = none ∧ j.outcome.1 = .error (.raised "stopped") :=
    ⟨_, ⟨_, rfl, List.mem_cons_self⟩, Option.some_ne_none _, _, ⟨_, rfl, List.mem_cons_self⟩,
      rfl, rfl⟩
  obtain ⟨i, first, waits, j, second, answers, failed⟩ := opened
  have within : start.Within j := (ReflTransGen.single (.inr first)).tail (.inr second)
  exact ⟨rfl, rfl, fails, depths, kept, i, j, first, second, waits, answers, failed,
    (books j within).2 j.depth j.left j.right⟩

end Invocation

end Assignability
