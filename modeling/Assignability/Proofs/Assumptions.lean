import Assignability.Proofs.Reentrance
import Assignability.Proofs.Runs

namespace Assignability

-- What an engine finds inside a cycle may rest on an answer that was only assumed. If every answer
-- that was assumed is also found, all of them support each other.

-- An assumed answer is borne out by a log in which the same pair is found to have it.
def Event.BorneOutBy (log : List Event) : Event → Prop
  | .cycle key left right assumed => .compared key left right assumed ∈ log
  | _ => True

instance (log : List Event) : (event : Event) → Decidable (event.BorneOutBy log)
  | .cycle key left right assumed =>
    inferInstanceAs (Decidable (.compared key left right assumed ∈ log))
  | .compared _ _ _ _ => .isTrue trivial
  | .registered _ => .isTrue trivial
  | .removed _ => .isTrue trivial

-- A log in which this is so of every answer that was assumed.
def BorneOut (log : List Event) : Prop := ∀ event ∈ log, event.BorneOutBy log

instance (log : List Event) : Decidable (BorneOut log) :=
  inferInstanceAs (Decidable (∀ event ∈ log, event.BorneOutBy log))

namespace Engine

-- An engine that remembers nothing.
structure Forgetful (e : Engine) : Prop where
  memoize : e.settings.memoize = false
  results : e.results = []

-- What a comparison adds to.
structure Advances (w w' : World) : Prop extends Follows w w' where
  supply : w.supply ≤ w'.supply
  log : ∀ event ∈ w.log, event ∈ w'.log
  forgets : Forgetful w.engine → Forgetful w'.engine

theorem Advances.refl (w : World) : Advances w w :=
  ⟨.refl w, Nat.le_refl _, fun _ logged => logged, fun forgetful => forgetful⟩

theorem Advances.trans {u v w : World} (first : Advances u v) (second : Advances v w) :
    Advances u w :=
  ⟨first.toFollows.trans second.toFollows, Nat.le_trans first.supply second.supply,
    fun event logged => second.log event (first.log event logged),
    fun forgetful => second.forgets (first.forgets forgetful)⟩

theorem prepare_advances {site : Site} {w v : World} {outcome : Except Fault Site}
    (ran : prepare site w = (outcome, v)) : Advances w v := by
  have follows := prepare_follows ran
  obtain ⟨supply, more, rest⟩ := prepare_supply site w
  rw [ran] at rest
  cases rest
  exact ⟨follows, more, fun _ logged => logged, fun forgetful => forgetful⟩

theorem leaving_forgetful {left right : Site} {before u : World} {outcome : Except Fault Bool}
    (forgetful : Forgetful u.engine) : Forgetful (leaving left right before outcome u).engine := by
  cases outcome with
  | error fault => exact ⟨forgetful.memoize, forgetful.results⟩
  | ok b =>
    have off : (u.engine.leave (.of left right) before.engine.active.length
      before.engine.assumed).settings.memoize = false := forgetful.memoize
    simp only [leaving, off, Bool.false_and]
    exact ⟨forgetful.memoize, forgetful.results⟩

theorem leaving_log {left right : Site} {before u : World} {outcome : Except Fault Bool}
    {event : Event} (logged : event ∈ u.log) :
    event ∈ (leaving left right before outcome u).log := by
  cases outcome with
  | error fault => exact logged
  | ok b => exact List.mem_append_right _ logged

theorem leaving_traced {left right : Site} {before u : World} {b : Bool}
    (traced : u.engine.settings.trace = true) :
    (leaving left right before (.ok b) u).log =
      .compared (.of left right) left.schema.kind right.schema.kind b :: u.log := by
  have still : (u.engine.leave (.of left right) before.engine.active.length
    before.engine.assumed).settings.trace = true := traced
  simp [leaving, still]

theorem leaving_supply (left right : Site) (before u : World) (outcome : Except Fault Bool) :
    (leaving left right before outcome u).supply = u.supply := by
  cases outcome <;> rfl

section
variable {base : World} {pure : base.registry.Pure} {users : Set String} {ledger : Ledger}
  {w : World} {left right : Site}

variable (base pure users) in
def advancing (start : Ledger) : Account where
  ready := (account base pure users start).ready
  moves := Advances
  evidence _ _ _ _ := True
  refl := .refl
  trans := .trans
  stays _ _ := trivial

-- Comparers that only add to a world in order.
variable (base pure users) in
def Adding (compare : Comparer) : Prop :=
  ∀ start x y, Ledger.Knows start x → start.Knows y →
    (advancing base pure users start).Keeps compare x y

theorem pursue_advances {compare : Comparer} (adding : Adding base pure users compare)
    (order : InOrder base pure users ledger w) (met : Met base.registry ledger (left, right)) :
    Advances (entering left right w) (pursue compare
      (Rule.goal w.engine.settings w.registry w.supply left right) (entering left right w)).2 := by
  obtain ⟨middle, -, entered, asked⟩ := entering_ready order met
  rw [order.goal_eq met.knowsLeft] at asked ⊢
  exact (pursue_yields (advancing base pure users middle)
    (Rule.goal_settled base.engine.settings pure w.supply left right)
    (fun x y inside => adding middle x y (asked x y inside).1 (asked x y inside).2)
    ⟨middle, .refl _, entered⟩).2.1

theorem compareNew_advances {compare : Comparer} (adding : Adding base pure users compare)
    (order : InOrder base pure users ledger w) (met : Met base.registry ledger (left, right))
    (new : w.engine.active.lookup (.of left right) = none) :
    Advances w (compareNew compare left right w).2 := by
  have pursued := pursue_advances adding order met
  refine ⟨compareNew_follows new rfl pursued.toFollows, ?_, ?_, ?_⟩ <;> rw [compareNew_eq]
  · rw [leaving_supply]
    exact Nat.le_trans (Nat.le_add_right _ _) pursued.supply
  · exact fun event logged => leaving_log (pursued.log event logged)
  · exact fun forgetful => leaving_forgetful
      (pursued.forgets ⟨forgetful.memoize, forgetful.results⟩)

theorem visit_advances (depth : Nat) : Adding base pure users (visit depth) := by
  suffices advances : ∀ start x y, Ledger.Knows start x → start.Knows y →
      ∀ w, (account base pure users start).ready w → Advances w (visit depth x y w).2 from
    fun start x y onLeft onRight w ready =>
      ⟨(visit_keeps depth start x y onLeft onRight w ready).1,
        advances start x y onLeft onRight w ready, fun _ _ => trivial⟩
  induction depth with
  | zero => exact fun _ _ _ _ _ w _ => .refl w
  | succ depth ih =>
    intro start left right onLeft onRight w ready
    have adding : Adding base pure users (visit depth) := fun start x y onLeft onRight w ready =>
      ⟨(visit_keeps depth start x y onLeft onRight w ready).1,
        ih start x y onLeft onRight w ready, fun _ _ => trivial⟩
    rcases visit_cases depth left right w with
      ⟨fault, v, ran, same⟩ | ⟨l, v, fault, u, ran, ran', same⟩ | ⟨l, v, r, u, ran, ran', same⟩ <;>
      rw [same]
    · exact prepare_advances ran
    · exact (prepare_advances ran).trans (prepare_advances ran')
    · refine ((prepare_advances ran).trans (prepare_advances ran')).trans ?_
      rcases comparePrepared_cases (visit depth) l r u with
        ⟨b, -, same⟩ | ⟨d, event, -, same⟩ | ⟨new, same⟩ <;> rw [same]
      · exact .refl u
      · exact ⟨assume_follows u event d, Nat.le_refl _,
          fun _ logged => List.mem_cons_of_mem _ logged,
          fun forgetful => ⟨forgetful.memoize, forgetful.results⟩⟩
      · obtain ⟨ledger, grown, order⟩ := ready
        obtain ⟨after, -, order, -, met, -, -⟩ :=
          prepare_both onLeft onRight grown order ran ran'
        exact compareNew_advances adding order met new

theorem run_advances (depth : Nat) (go : Bool) {steps : List Step}
    (order : InOrder base pure users ledger w)
    (known : ∀ x y, .compare x y ∈ steps → ledger.Knows x ∧ ledger.Knows y) :
    Advances w (Goal.run go (visit depth) steps w).2 := by
  have each : ∀ x y, .compare x y ∈ steps →
      (advancing base pure users ledger).Keeps (visit depth) x y :=
    fun x y inside => visit_advances depth ledger x y (known x y inside).1 (known x y inside).2
  exact (Goal.run_yields each ⟨ledger, .refl _, order⟩).2.1

end

-- A pair that such an engine does not compare anew is being compared.
theorem comparePrepared_forgetful (compare : Comparer) (left right : Site) {w : World}
    (forgetful : Forgetful w.engine) :
    (∃ depth, (.of left right, depth) ∈ w.engine.active ∧
      comparePrepared compare left right w =
        (.ok w.engine.settings.cycleResult,
          (w.record (.cycle (.of left right) left.schema.kind right.schema.kind
            w.engine.settings.cycleResult)).setEngine (·.assume depth))) ∨
    (w.engine.active.lookup (.of left right) = none ∧
      comparePrepared compare left right w = compareNew compare left right w) := by
  unfold comparePrepared
  simp only [forgetful.results, List.lookup_nil]
  cases active : w.engine.active.lookup (.of left right) with
  | some depth => exact .inl ⟨depth, lookup_mem active, rfl⟩
  | none => exact .inr ⟨rfl, rfl⟩

-- What the log says of a pair: an answer that was found, or one that was assumed.
def Found (log : List Event) (p : Site × Site) (b : Bool) : Prop :=
  .compared (.of p.1 p.2) p.1.schema.kind p.2.schema.kind b ∈ log

def Supposed (log : List Event) (p : Site × Site) (b : Bool) : Prop :=
  .cycle (.of p.1 p.2) p.1.schema.kind p.2.schema.kind b ∈ log

-- What it says of two sites, by the pair they were prepared as.
def Told (registry : Registry) (w : World) (x y : Site) (b : Bool) : Prop :=
  ∃ p ∈ w.engine.begun, PairsAlike registry p (x, y) ∧ (Found w.log p b ∨ Supposed w.log p b)

section
variable {base : World} {pure : base.registry.Pure} {users : Set String} {ledger : Ledger}
  {w w' : World} {left right : Site}

-- A new pair that comes to an answer is found to have it.
theorem compareNew_found {depth : Nat} {b : Bool} (order : InOrder base pure users ledger w)
    (met : Met base.registry ledger (left, right)) (traced : w.engine.settings.trace = true)
    (returned : (compareNew (visit depth) left right w).1 = .ok b) :
    (left, right) ∈ (compareNew (visit depth) left right w).2.engine.begun ∧
      Found (compareNew (visit depth) left right w).2.log (left, right) b := by
  have moved := pursue_advances (visit_advances depth) order met
  have begun := moved.begun (left, right) List.mem_cons_self
  have still := (congrArg Settings.trace moved.settings).trans traced
  rw [compareNew_eq] at returned ⊢
  dsimp only at returned ⊢
  rw [returned]
  refine ⟨?_, ?_⟩
  · rw [leaving_begun]
    exact begun
  · rw [Found, leaving_traced still]
    exact List.mem_cons_self

theorem Told.later {registry : Registry} {x y : Site} {b : Bool} (told : Told registry w x y b)
    (begun : ∀ p ∈ w.engine.begun, p ∈ w'.engine.begun) (log : ∀ event ∈ w.log, event ∈ w'.log) :
    Told registry w' x y b := by
  obtain ⟨p, isBegun, same, answered⟩ := told
  exact ⟨p, begun p isBegun, same, answered.imp (log _) (log _)⟩

-- Every answer that was found is the answer of the pair's goal, as far as the log says, and one
-- that is not favoured is final.
variable (base pure) in
def Accounted (w : World) : Prop :=
  ∀ key l r b, .compared key l r b ∈ w.log → ∃ p ∈ w.engine.begun, .of p.1 p.2 = key ∧
    (∃ mark, (Rule.goal base.engine.settings base.registry mark p.1 p.2).Yields
      (Told base.registry w) b) ∧
    (b ≠ base.engine.settings.cycleResult → p ∉ settled base.engine.settings.cycleResult base pure)

theorem Accounted.later (accounted : Accounted base pure w)
    (begun : ∀ p ∈ w.engine.begun, p ∈ w'.engine.begun) (log : ∀ event ∈ w.log, event ∈ w'.log)
    (old : ∀ key l r b, .compared key l r b ∈ w'.log → .compared key l r b ∈ w.log) :
    Accounted base pure w' := by
  intro key l r b logged
  obtain ⟨p, isBegun, same, ⟨mark, yields⟩, other⟩ := accounted key l r b (old key l r b logged)
  exact ⟨p, begun p isBegun, same,
    ⟨mark, Goal.yields_mono (fun x y _ told => told.later begun log) yields⟩, other⟩

-- What a run that remembers nothing keeps account of while its log is written.
variable (base pure users) in
structure Recording (start : Ledger) (w : World) : Prop where
  ready : (account base pure users start).ready w
  forgetful : Forgetful w.engine
  traced : w.engine.settings.trace = true
  accounted : Accounted base pure w

variable (base pure users) in
def recording (start : Ledger) : Account where
  ready := Recording base pure users start
  moves := Advances
  evidence := Told base.registry
  refl := .refl
  trans := .trans
  stays advances told := told.later advances.begun advances.log

-- Leaving a pair with an answer adds that answer to the log.
theorem Accounted.leave {u : World} {mark : Nat} {b : Bool} (accounted : Accounted base pure u)
    (traced : u.engine.settings.trace = true) (isBegun : (left, right) ∈ u.engine.begun)
    (yields : (Rule.goal base.engine.settings base.registry mark left right).Yields
      (Told base.registry u) b)
    (other : b ≠ base.engine.settings.cycleResult →
      (left, right) ∉ settled base.engine.settings.cycleResult base pure) :
    Accounted base pure (leaving left right w (.ok b) u) := by
  have log : (leaving left right w (.ok b) u).log =
      .compared (.of left right) left.schema.kind right.schema.kind b :: u.log :=
    leaving_traced traced
  have begun := leaving_begun left right w u (.ok b)
  have told : ∀ x y c, Told base.registry u x y c →
      Told base.registry (leaving left right w (.ok b) u) x y c := fun x y c known =>
    known.later (fun p member => begun ▸ member)
      fun event logged => log ▸ List.mem_cons_of_mem _ logged
  intro key l r answer logged
  rw [log] at logged
  rw [begun]
  rcases List.mem_cons.mp logged with here | earlier
  · cases here
    exact ⟨(left, right), isBegun, rfl,
      ⟨mark, Goal.yields_mono (fun x y _ => told x y b) yields⟩, other⟩
  · obtain ⟨p, member, same, ⟨mark, yields⟩, other⟩ := accounted key l r answer earlier
    exact ⟨p, member, same, ⟨mark, Goal.yields_mono (fun x y _ => told x y answer) yields⟩, other⟩

-- Comparers that put every comparison into the log with its answer, found or assumed.
variable (base pure users) in
def Logging (compare : Comparer) : Prop :=
  ∀ start x y, Ledger.Knows start x → start.Knows y →
    (recording base pure users start).Keeps compare x y

theorem compareNew_records {depth : Nat} (logging : Logging base pure users (visit depth))
    (order : InOrder base pure users ledger w) (met : Met base.registry ledger (left, right))
    (forgetful : Forgetful w.engine) (traced : w.engine.settings.trace = true)
    (accounted : Accounted base pure w) :
    Accounted base pure (compareNew (visit depth) left right w).2 := by
  obtain ⟨middle, grown, entered, asked⟩ := entering_ready order met
  have began : Recording base pure users middle (entering left right w) :=
    ⟨⟨middle, .refl _, entered⟩, ⟨forgetful.memoize, forgetful.results⟩, traced,
      accounted.later (fun p member => List.mem_cons_of_mem _ member) (fun _ logged => logged)
        fun _ _ _ _ logged => logged⟩
  have goal : Rule.goal w.engine.settings w.registry w.supply left right =
      Rule.goal base.engine.settings base.registry w.supply left right :=
    order.goal_eq met.knowsLeft
  rw [goal] at asked
  have pursued := pursue_yields (recording base pure users middle)
    (Rule.goal_settled base.engine.settings pure w.supply left right)
    (fun x y inside => logging middle x y (asked x y inside).1 (asked x y inside).2) began
  rw [compareNew_eq, goal]
  cases ran : pursue (visit depth)
    (Rule.goal base.engine.settings base.registry w.supply left right) (entering left right w) with
  | mk outcome u =>
    rw [ran] at pursued
    obtain ⟨recorded, moved, yields⟩ := pursued
    cases outcome with
    | error fault =>
      exact recorded.accounted.later (fun _ member => member) (fun _ logged => logged)
        fun _ _ _ _ logged => logged
    | ok b =>
      obtain ⟨after, growth, -, -, verdicts⟩ :=
        pursue_keeps (visit_keeps depth) order met (goal ▸ ran)
      exact recorded.accounted.leave recorded.traced (moved.begun _ List.mem_cons_self)
        (yields b rfl) (answer_of_goal (met.later growth) (verdicts b rfl)).2

theorem comparePrepared_records {depth : Nat} (logging : Logging base pure users (visit depth))
    (order : InOrder base pure users ledger w) (met : Met base.registry ledger (left, right))
    (forgetful : Forgetful w.engine) (traced : w.engine.settings.trace = true)
    (accounted : Accounted base pure w) :
    Accounted base pure (comparePrepared (visit depth) left right w).2 ∧
      ∀ b, (comparePrepared (visit depth) left right w).1 = .ok b →
        Told base.registry (comparePrepared (visit depth) left right w).2 left right b := by
  have alike := (pairsAlike_equivalence base.registry).refl (left, right)
  rcases comparePrepared_forgetful (visit depth) left right forgetful with
    ⟨d, active, same⟩ | ⟨new, same⟩ <;> rw [same]
  · obtain ⟨p, begun, key⟩ := order.active _ _ active
    rw [order.same met begun key] at begun
    refine ⟨?_, fun b returned => ?_⟩
    · refine accounted.later (fun _ member => member)
        (fun _ logged => List.mem_cons_of_mem _ logged) fun _ _ _ _ logged => ?_
      exact (List.mem_cons.mp logged).resolve_left (by simp)
    · cases returned
      exact ⟨(left, right), begun, alike, .inr List.mem_cons_self⟩
  · refine ⟨compareNew_records logging order met forgetful traced accounted, fun b returned => ?_⟩
    obtain ⟨begun, found⟩ := compareNew_found order met traced returned
    exact ⟨(left, right), begun, alike, .inl found⟩

theorem visit_records (depth : Nat) : Logging base pure users (visit depth) := by
  induction depth with
  | zero =>
    intro start x y _ _ w recorded
    exact ⟨recorded, .refl _, fun b returned => by cases returned⟩
  | succ depth ih =>
    intro start left right onLeft onRight w recorded
    obtain ⟨kept, advanced, -⟩ :=
      visit_advances (depth + 1) start left right onLeft onRight w recorded.ready
    suffices goes : Accounted base pure (visit (depth + 1) left right w).2 ∧
        ∀ b, (visit (depth + 1) left right w).1 = .ok b →
          Told base.registry (visit (depth + 1) left right w).2 left right b by
      refine ⟨⟨kept, advanced.forgets recorded.forgetful, ?_, goes.1⟩, advanced, goes.2⟩
      exact (congrArg Settings.trace advanced.settings).trans recorded.traced
    -- Preparing changes neither the log nor the pairs that were begun.
    have prepared : ∀ {site v u outcome}, prepare site v = (outcome, u) →
        Accounted base pure v → Accounted base pure u := by
      intro site v u outcome ran accounted
      obtain ⟨supply, -, rest⟩ := prepare_supply site v
      rw [ran] at rest
      cases rest
      exact accounted
    rcases visit_cases depth left right w with
      ⟨fault, v, ran, same⟩ | ⟨l, v, fault, u, ran, ran', same⟩ | ⟨l, v, r, u, ran, ran', same⟩ <;>
      rw [same]
    · exact ⟨prepared ran recorded.accounted, fun b returned => by cases returned⟩
    · exact ⟨prepared ran' (prepared ran recorded.accounted), fun b returned => by cases returned⟩
    · obtain ⟨ledger, grown, order⟩ := recorded.ready
      obtain ⟨after, -, order, follows, met, alikeLeft, alikeRight⟩ :=
        prepare_both onLeft onRight grown order ran ran'
      have both := (prepare_advances ran).trans (prepare_advances ran')
      obtain ⟨accounted, told⟩ := comparePrepared_records ih order met
        (both.forgets recorded.forgetful)
        ((congrArg Settings.trace both.settings).trans recorded.traced)
        (prepared ran' (prepared ran recorded.accounted))
      refine ⟨accounted, fun b returned => ?_⟩
      obtain ⟨p, begun, alike, answered⟩ := told b returned
      exact ⟨p, begun, (pairsAlike_equivalence _).trans alike ⟨alikeLeft.symm, alikeRight.symm⟩,
        answered⟩

-- Pairs that were found to have the favoured answer support each other if all that was assumed of
-- them was found too.
theorem settled_of_found (order : InOrder base pure users ledger w)
    (accounted : Accounted base pure w) (borneOut : BorneOut w.log) {p : Site × Site}
    (begun : p ∈ w.engine.begun)
    (found : Found w.log p base.engine.settings.cycleResult) :
    p ∈ settled base.engine.settings.cycleResult base pure := by
  have equivalence := pairsAlike_equivalence base.registry
  let agreed : Set (Site × Site) := {q | ∃ p ∈ w.engine.begun,
    Found w.log p base.engine.settings.cycleResult ∧ PairsAlike base.registry p q}
  have closed : Closed (PairsAlike base.registry) agreed := by
    rintro q r same ⟨p, begun, found, first⟩
    exact ⟨p, begun, found, equivalence.trans first same⟩
  have supported : agreed ⊆
      favouring base.engine.settings.cycleResult base pure agreed := by
    rintro q ⟨p, begun, found, alike⟩
    have met := order.begun p begun
    obtain ⟨p', begun', key, ⟨mark, yields⟩, -⟩ := accounted _ _ _ _ found
    cases order.same met begun' key
    refine favouring_closed pure closed _ _ alike ?_
    refine favouring_of_yields pure met.readyLeft met.readyRight closed yields ?_
    rintro x y - ⟨p, begun, alike, found | supposed⟩
    · exact ⟨p, begun, found, alike⟩
    · exact ⟨p, begun, borneOut _ supposed, alike⟩
  exact OrderHom.le_gfp _ supported ⟨p, begun, found, equivalence.refl p⟩

-- Every answer in the log is final.
variable (base pure) in
def Final (w : World) : Prop :=
  ∀ p ∈ w.engine.begun, ∀ b, Found w.log p b ∨ Supposed w.log p b →
    (b = base.engine.settings.cycleResult ↔ p ∈ settled base.engine.settings.cycleResult base pure)

theorem Final.earlier (final : Final base pure w')
    (begun : ∀ p ∈ w.engine.begun, p ∈ w'.engine.begun) (log : ∀ event ∈ w.log, event ∈ w'.log) :
    Final base pure w :=
  fun p isBegun b answered => final p (begun p isBegun) b (answered.imp (log _) (log _))

theorem final_of_borneOut (order : InOrder base pure users ledger w)
    (accounted : Accounted base pure w) (borneOut : BorneOut w.log) : Final base pure w := by
  have each : ∀ p ∈ w.engine.begun, ∀ b, Found w.log p b →
      (b = base.engine.settings.cycleResult ↔
        p ∈ settled base.engine.settings.cycleResult base pure) := by
    intro p begun b found
    obtain ⟨p', begun', key, -, other⟩ := accounted _ _ _ _ found
    cases order.same (order.begun p begun) begun' key
    refine ⟨fun favoured => ?_, fun member => Classical.byContradiction fun differs =>
      other differs member⟩
    exact settled_of_found order accounted borneOut begun (favoured ▸ found)
  rintro p begun b (found | supposed)
  · exact each p begun b found
  · exact each p begun b (borneOut _ supposed)

end

end Engine

end Assignability
