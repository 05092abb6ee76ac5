import Assignability.Proofs.Remarking

namespace Assignability

-- Each function of the engine is described once, by what it can lead to.

namespace Engine

-- The world in which the goal of a new pair is worked through.
def entering (left right : Site) (w : World) : World :=
  { w with supply := w.supply + Rule.marksUsed }.setEngine (·.enter left right)

-- What a new pair leaves behind: the pair is no longer active, and may be remembered if its answer
-- is final.
theorem compareNew_spec (compare : Comparer) (left right : Site) (w : World) :
    ∃ outcome u, pursue compare (Rule.goal w.engine.settings w.registry w.supply left right)
        (entering left right w) = (outcome, u) ∧
      (compareNew compare left right w).1 = outcome ∧
      (compareNew compare left right w).2.supply = u.supply ∧
      (compareNew compare left right w).2.registry = u.registry ∧
      ((compareNew compare left right w).2.engine =
          u.engine.leave (.of left right) w.engine.active.length w.engine.assumed ∨
        ∃ b, outcome = .ok b ∧ above w.engine.active.length u.engine.assumed = none ∧
          (compareNew compare left right w).2.engine =
            (u.engine.leave (.of left right) w.engine.active.length w.engine.assumed).remember
              (.of left right) b) := by
  have traced : ∀ (v : World) (event : Event),
      (if v.engine.settings.trace then v.record event else v).supply = v.supply ∧
      (if v.engine.settings.trace then v.record event else v).registry = v.registry ∧
      (if v.engine.settings.trace then v.record event else v).engine = v.engine := by
    intro v event
    split <;> exact ⟨rfl, rfl, rfl⟩
  unfold compareNew entering
  dsimp only
  cases pursue compare (Rule.goal w.engine.settings w.registry w.supply left right)
    ({ w with supply := w.supply + Rule.marksUsed }.setEngine (·.enter left right)) with
  | mk outcome u =>
    refine ⟨outcome, u, rfl, ?_⟩
    cases outcome with
    | error fault => exact ⟨rfl, rfl, rfl, .inl rfl⟩
    | ok b =>
      simp only [traced]
      split
      · rename_i final
        have discharged : above w.engine.active.length u.engine.assumed = none :=
          Option.isNone_iff_eq_none.mp (Bool.and_eq_true_iff.mp final).2
        exact ⟨trivial, rfl, rfl, .inr ⟨b, rfl, discharged, rfl⟩⟩
      · exact ⟨trivial, rfl, rfl, .inl rfl⟩

theorem leave_active {e : Engine} {key : PairKey} {depth : Nat} (outer : Option Nat)
    {before : List (PairKey × Nat)} (entered : e.active = (key, depth) :: before)
    (new : before.lookup key = none) : (e.leave key depth outer).active = before := by
  have kept : before.filter (·.1 != key) = before := by
    rw [List.filter_eq_self]
    intro entry member
    rw [bne_comm]
    exact List.lookup_eq_none_iff.mp new entry member
  simp [leave, entered, kept]

-- A pair is finished, or being compared, or new.
theorem comparePrepared_cases (compare : Comparer) (left right : Site) (w : World) :
    (∃ b, (.of left right, b) ∈ w.engine.results ∧
      comparePrepared compare left right w = (.ok b, w)) ∨
    (∃ depth event, (.of left right, depth) ∈ w.engine.active ∧
      comparePrepared compare left right w =
        (.ok w.engine.settings.cycleResult, (w.record event).setEngine (·.assume depth))) ∨
    (w.engine.active.lookup (.of left right) = none ∧
      comparePrepared compare left right w = compareNew compare left right w) := by
  unfold comparePrepared
  dsimp only
  cases finished : w.engine.results.lookup (.of left right) with
  | some b => exact .inl ⟨b, lookup_mem finished, rfl⟩
  | none =>
    cases active : w.engine.active.lookup (.of left right) with
    | some depth => exact .inr (.inl ⟨depth, _, lookup_mem active, rfl⟩)
    | none => exact .inr (.inr ⟨rfl, rfl⟩)

theorem assume_spec (e : Engine) (depth : Nat) :
    ∃ a, (e.assume depth).assumed = some a ∧ a ≤ depth ∧ ∀ b, e.assumed = some b → a ≤ b := by
  unfold assume
  cases used : e.assumed with
  | none => exact ⟨depth, rfl, Nat.le_refl _, fun b none => by cases none⟩
  | some a =>
    refine ⟨min a depth, rfl, Nat.min_le_right _ _, fun b same => ?_⟩
    cases same
    exact Nat.min_le_left _ _

-- A comparison fails while its sides are prepared, or goes on with both.
theorem visit_cases (depth : Nat) (left right : Site) (w : World) :
    (∃ fault v, prepare left w = (.error fault, v) ∧
      visit (depth + 1) left right w = (.error fault, v)) ∨
    (∃ l v fault u, prepare left w = (.ok l, v) ∧ prepare right v = (.error fault, u) ∧
      visit (depth + 1) left right w = (.error fault, u)) ∨
    (∃ l v r u, prepare left w = (.ok l, v) ∧ prepare right v = (.ok r, u) ∧
      visit (depth + 1) left right w = comparePrepared (visit depth) l r u) := by
  simp only [visit]
  cases first : prepare left w with
  | mk outcome v =>
    cases outcome with
    | error fault => exact .inl ⟨fault, v, rfl, rfl⟩
    | ok l =>
      cases second : prepare right v with
      | mk outcome u =>
        cases outcome with
        | error fault => exact .inr (.inl ⟨l, v, fault, u, rfl, second, by simp only [second]⟩)
        | ok r => exact .inr (.inr ⟨l, v, r, u, rfl, second, by simp only [second]⟩)

-- How the world may change while a comparison is worked through and done with.
structure Follows (w w' : World) : Prop where
  active : w'.engine.active = w.engine.active
  settings : w'.engine.settings = w.engine.settings
  registry : w'.registry = w.registry
  begun : ∀ p ∈ w.engine.begun, p ∈ w'.engine.begun
  assumed : ∀ a, w.engine.assumed = some a → ∃ a', a' ≤ a ∧ w'.engine.assumed = some a'

theorem Follows.refl (w : World) : Follows w w :=
  ⟨rfl, rfl, rfl, fun _ member => member, fun a used => ⟨a, Nat.le_refl _, used⟩⟩

theorem Follows.trans {u v w : World} (first : Follows u v) (second : Follows v w) :
    Follows u w := by
  refine ⟨second.active.trans first.active, second.settings.trans first.settings,
    second.registry.trans first.registry, fun p member => second.begun p (first.begun p member), ?_⟩
  intro a used
  obtain ⟨b, shallower, used⟩ := first.assumed a used
  obtain ⟨c, shallower', used⟩ := second.assumed b used
  exact ⟨c, Nat.le_trans shallower' shallower, used⟩

-- Preparing takes marks and nothing else.
theorem prepare_follows {site : Site} {w v : World} {outcome : Except Fault Site}
    (ran : prepare site w = (outcome, v)) : Follows w v := by
  obtain ⟨supply, -, rest⟩ := prepare_supply site w
  rw [ran] at rest
  cases rest
  exact ⟨rfl, rfl, rfl, fun _ member => member, fun a used => ⟨a, Nat.le_refl _, used⟩⟩

theorem assume_follows (w : World) (event : Event) (depth : Nat) :
    Follows w ((w.record event).setEngine (·.assume depth)) := by
  obtain ⟨a, used, -, shallower⟩ := assume_spec w.engine depth
  exact ⟨rfl, rfl, rfl, fun _ member => member, fun b before => ⟨a, shallower b before, used⟩⟩

-- What is done with a new pair, if it was left as it was entered.
theorem compareNew_follows {compare : Comparer} {left right : Site} {w u : World}
    {outcome : Except Fault Bool} (new : w.engine.active.lookup (.of left right) = none)
    (ran : pursue compare (Rule.goal w.engine.settings w.registry w.supply left right)
      (entering left right w) = (outcome, u))
    (follows : Follows (entering left right w) u) :
    Follows w (compareNew compare left right w).2 := by
  obtain ⟨_, _, same, -, -, registry, engine⟩ := compareNew_spec compare left right w
  cases ran.symm.trans same
  have active := leave_active w.engine.assumed follows.active new
  refine ⟨?_, ?_, registry.trans follows.registry, fun p member => ?_, fun a used => ?_⟩
  · rcases engine with same | ⟨_, _, _, same⟩ <;> rw [same] <;> exact active
  · rcases engine with same | ⟨_, _, _, same⟩ <;> rw [same] <;> exact follows.settings
  · have begun := follows.begun p (List.mem_cons_of_mem _ member)
    rcases engine with same | ⟨_, _, _, same⟩ <;> rw [same] <;> exact begun
  · have assumed : (compareNew compare left right w).2.engine.assumed =
        shallower w.engine.assumed (above w.engine.active.length u.engine.assumed) := by
      rcases engine with same | ⟨_, _, _, same⟩ <;> rw [same] <;> rfl
    rw [assumed, used]
    cases above w.engine.active.length u.engine.assumed with
    | none => exact ⟨a, Nat.le_refl _, rfl⟩
    | some b => exact ⟨min a b, Nat.min_le_left _ _, rfl⟩

-- What every comparison keeps, as long as rules of user kinds only answer or fail.
def frame : Account where
  ready w := w.registry.Pure
  moves := Follows
  evidence _ _ _ _ := True
  refl := .refl
  trans := .trans
  stays _ _ := trivial

theorem Follows.pure {w w' : World} (follows : Follows w w') (pure : w.registry.Pure) :
    w'.registry.Pure :=
  follows.registry ▸ pure

theorem compareNew_frame {compare : Comparer} (keeps : ∀ x y, frame.Keeps compare x y)
    {left right : Site} {w : World} (pure : w.registry.Pure)
    (new : w.engine.active.lookup (.of left right) = none) :
    Follows w (compareNew compare left right w).2 := by
  have pursued := pursue_yields frame (Rule.goal_settled w.engine.settings pure w.supply left right)
    (fun x y _ => keeps x y) (w := entering left right w) pure
  exact compareNew_follows new rfl pursued.2.1

theorem visit_frame (depth : Nat) (left right : Site) : frame.Keeps (visit depth) left right := by
  suffices follows : ∀ w, w.registry.Pure → Follows w (visit depth left right w).2 from
    fun w pure => ⟨(follows w pure).pure pure, follows w pure, fun _ _ => trivial⟩
  induction depth generalizing left right with
  | zero => exact fun w _ => .refl w
  | succ depth ih =>
    intro w pure
    rcases visit_cases depth left right w with
      ⟨fault, v, ran, same⟩ | ⟨l, v, fault, u, ran, ran', same⟩ | ⟨l, v, r, u, ran, ran', same⟩ <;>
      rw [same]
    · exact prepare_follows ran
    · exact (prepare_follows ran).trans (prepare_follows ran')
    · have both := (prepare_follows ran).trans (prepare_follows ran')
      refine both.trans ?_
      rcases comparePrepared_cases (visit depth) l r u with
        ⟨b, -, same⟩ | ⟨d, event, -, same⟩ | ⟨new, same⟩ <;> rw [same]
      · exact .refl u
      · exact assume_follows u event d
      · refine compareNew_frame (fun x y v pure => ?_) (both.pure pure) new
        exact ⟨(ih x y v pure).pure pure, ih x y v pure, fun _ _ => trivial⟩

-- Without rules for user kinds, a fault in a new pair comes from a comparison that it asks for.
theorem compareNew_fault {depth : Nat} {left right : Site} {w : World} {fault : Fault}
    (noHandlers : ∀ kind, w.registry.handler? kind = none) (ready : left.Ready w.registry)
    (failed : (compareNew (visit depth) left right w).1 = .error fault) :
    ∃ x y v, Rule.Asks w.supply left right x y ∧ Follows (entering left right w) v ∧
      (visit depth x y v).1 = .error fault := by
  have pure : w.registry.Pure := fun kind handler found => by simp [noHandlers kind] at found
  obtain ⟨outcome, after, pursued, returned, -⟩ := compareNew_spec (visit depth) left right w
  have origin := pursue_fault frame (Rule.goal_settled w.engine.settings pure w.supply left right)
    (fun x y _ => visit_frame depth x y) (w := entering left right w) pure
    (congrArg Prod.fst (pursued.trans (by rw [← returned, failed])))
  rcases Rule.goal_cases w.engine.settings w.registry w.supply left right with
    loop | ⟨_, _, unprepared⟩ | ⟨kind, handler, -, found, -⟩
  · rcases origin with ⟨x, y, v, asked, -, moved, faulty⟩ | refused | ⟨script, consulted, -⟩
    · exact ⟨x, y, v, Rule.goal_asks asked, moved, faulty⟩
    · rw [refused] at loop
      exact loop.elim
    · rw [consulted] at loop
      exact loop.elim
  · simp [ready.concrete, ready.expanded] at unprepared
  · rw [noHandlers kind] at found
    cases found

-- The sites a query starts from, and the world in which it compares them.
def opening (left right : Schema) (leftScope rightScope : Scope) (w : World) :
    Site × Site × World :=
  let (l, w) := w.site left leftScope
  let (r, w) := w.site right rightScope
  (l, r, w)

theorem compareSchemas_eq (depth : Nat) (left right : Schema) (leftScope rightScope : Scope)
    (w : World) : compareSchemas depth left right leftScope rightScope w =
      let (l, r, w) := opening left right leftScope rightScope w
      visit depth l r w := rfl

theorem queryFresh_outcome (settings : Settings) (run : Run Bool) (w : World) :
    (queryFresh settings run w).1 =
      (query run { w with
        engine := { settings }, waiting := some (w.waiting.getD w.engine) }).1 := by
  unfold queryFresh
  dsimp only
  cases w.waiting <;> rfl

-- A scope gets at most a mark.
theorem opening_eq (left right : Schema) (leftScope rightScope : Scope) (w : World) :
    ∃ leftMark rightMark supply, opening left right leftScope rightScope w =
        (⟨left, leftScope, leftMark⟩, ⟨right, rightScope, rightMark⟩, { w with supply }) ∧
      w.supply ≤ supply ∧ (0 < supply → rightMark < supply) := by
  have site : ∀ (s : Schema) (scope : Scope) (w : World), ∃ mark supply,
      w.site s scope = (⟨s, scope, mark⟩, { w with supply }) ∧ w.supply ≤ supply ∧
        (0 < supply → mark < supply) := by
    intro s scope w
    cases scope with
    | nil => exact ⟨0, w.supply, rfl, Nat.le_refl _, fun positive => positive⟩
    | cons t rest =>
      exact ⟨w.supply, w.supply + 1, rfl, Nat.le_succ _, fun _ => Nat.lt_succ_self _⟩
  obtain ⟨leftMark, supply, first, more, -⟩ := site left leftScope w
  obtain ⟨rightMark, supply', second, more', below⟩ := site right rightScope { w with supply }
  exact ⟨leftMark, rightMark, supply', by simp only [opening, first, second],
    Nat.le_trans more more', below⟩

end Engine

end Assignability
