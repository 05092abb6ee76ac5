import Assignability.Proofs.Decision

namespace Assignability

-- A run favours the answer that it gives to pairs which are being compared. The other answer never
-- rests on an assumption.

theorem Site.Ready.prepared {registry : Registry} {p : Site} (ready : p.Ready registry) :
    p.prepared? registry = some p := by
  simp only [Site.prepared?, Engine.prepare_self (w := { registry }) ready, Except.toOption]

theorem Site.Alike.prepared_twin {registry : Registry} {s t q : Site}
    (same : Site.Alike registry s t) (found : t.prepared? registry = some q) :
    ∃ p, s.prepared? registry = some p ∧ p.Twin q := by
  unfold Site.Alike at same
  rw [found] at same
  cases start : s.prepared? registry with
  | none =>
    rw [start] at same
    cases same
  | some p =>
    rw [start] at same
    cases same with
    | some twins => exact ⟨p, rfl, twins⟩

-- Pairs that are prepared to pairs of `core`, whatever marks are given out, if both sides can be
-- prepared at all.
def Held (registry : Registry) (core : Set (Site × Site)) : Set (Site × Site) :=
  {p | ∀ l r, p.1.prepared? registry = some l → p.2.prepared? registry = some r →
    ∃ q ∈ core, l.Twin q.1 ∧ r.Twin q.2}

theorem held_closed (registry : Registry) (core : Set (Site × Site)) :
    Closed (PairsAlike registry) (Held registry core) := by
  rintro ⟨x, y⟩ ⟨x', y'⟩ ⟨onLeft, onRight⟩ held l' r' first second
  obtain ⟨l, found, twins⟩ := onLeft.prepared_twin first
  obtain ⟨r, found', twins'⟩ := onRight.prepared_twin second
  obtain ⟨q, member, sameLeft, sameRight⟩ := held l r found found'
  exact ⟨q, member, twins.symm.trans sameLeft, twins'.symm.trans sameRight⟩

namespace Engine

-- The goal of each pair comes out as the favoured answer from pairs that are held.
def Consistent (base : World) (core : Set (Site × Site)) : Prop :=
  ∀ p ∈ core, ∃ mark, (Rule.goal base.engine.settings base.registry mark p.1 p.2).Yields
    (fun x y _ => (x, y) ∈ Held base.registry core) base.engine.settings.cycleResult

section
variable {base : World} {pure : base.registry.Pure} {users : Set String} {core : Set (Site × Site)}
  {ledger : Ledger} {w : World} {left right : Site}

theorem Consistent.goal (consistent : Consistent base core) (pure : base.registry.Pure)
    (onLeft : left.Ready base.registry) (onRight : right.Ready base.registry)
    (held : (left, right) ∈ Held base.registry core) (mark : Nat) :
    (Rule.goal base.engine.settings base.registry mark left right).Yields
      (fun x y _ => (x, y) ∈ Held base.registry core) base.engine.settings.cycleResult := by
  obtain ⟨q, member, sameLeft, sameRight⟩ := held left right onLeft.prepared onRight.prepared
  obtain ⟨other, yields⟩ := consistent q member
  exact Goal.yields_transfer (Rule.goal_twin pure other mark sameLeft.symm sameRight.symm)
    (fun p q same inside => held_closed base.registry core p q same inside) yields

-- An answer that is not favoured leaves what is held.
theorem Consistent.answer (consistent : Consistent base core) (pure : base.registry.Pure)
    (met : Met base.registry ledger (left, right)) {mark : Nat} {b : Bool}
    (yields : (Rule.goal base.engine.settings base.registry mark left right).Yields
      (fun x y b => b ≠ base.engine.settings.cycleResult → (x, y) ∉ Held base.registry core) b)
    (differs : b ≠ base.engine.settings.cycleResult) :
    (left, right) ∉ Held base.registry core := by
  intro held
  have favoured := consistent.goal pure met.readyLeft met.readyRight held mark
  have opposite : b = !base.engine.settings.cycleResult := by
    cases b <;> cases cycle : base.engine.settings.cycleResult <;> simp_all
  subst opposite
  obtain ⟨x, y, -, inside, outside⟩ := Goal.yields_conflict favoured yields
  exact outside differs inside

-- What is remembered with the answer that is not favoured is not held.
def Denied (base : World) (core : Set (Site × Site)) (w : World) : Prop :=
  ∀ key b, (key, b) ∈ w.engine.results → b ≠ base.engine.settings.cycleResult →
    ∃ p ∈ w.engine.begun, .of p.1 p.2 = key ∧ p ∉ Held base.registry core

-- The account of a run with what it denies.
def denying (base : World) (pure : base.registry.Pure) (users : Set String)
    (core : Set (Site × Site)) (start : Ledger) : Account where
  ready w := (account base pure users start).ready w ∧ Denied base core w
  moves := Follows
  evidence _ x y b := b ≠ base.engine.settings.cycleResult → (x, y) ∉ Held base.registry core
  refl := .refl
  trans := .trans
  stays _ known := known

theorem Denied.supplied (denied : Denied base core w) {v : World} (same : v.engine = w.engine) :
    Denied base core v := by
  unfold Denied
  rw [same]
  exact denied

theorem Denied.enter (denied : Denied base core w) : Denied base core (entering left right w) := by
  intro key b remembered differs
  obtain ⟨p, begun, rest⟩ := denied key b remembered differs
  exact ⟨p, List.mem_cons_of_mem _ begun, rest⟩

theorem compareNew_denied {depth : Nat} (consistent : Consistent base core)
    (keeps : ∀ start x y, Ledger.Knows start x → start.Knows y →
      (denying base pure users core start).Keeps (visit depth) x y)
    (order : InOrder base pure users ledger w) (denied : Denied base core w)
    (met : Met base.registry ledger (left, right)) :
    Denied base core (compareNew (visit depth) left right w).2 ∧
      ∀ b, (compareNew (visit depth) left right w).1 = .ok b →
        b ≠ base.engine.settings.cycleResult → (left, right) ∉ Held base.registry core := by
  obtain ⟨outcome, u, ran, returned, -, -, engine⟩ := compareNew_spec (visit depth) left right w
  obtain ⟨middle, grown, entered, asked⟩ := entering_ready order met
  rw [order.goal_eq met.knowsLeft] at ran asked
  have pursued := pursue_yields (denying base pure users core middle)
    (Rule.goal_settled base.engine.settings pure w.supply left right)
    (fun x y inside => keeps middle x y (asked x y inside).1 (asked x y inside).2)
    ⟨⟨middle, .refl _, entered⟩, denied.enter⟩
  rw [ran] at pursued
  obtain ⟨⟨-, inside⟩, follows, yields⟩ := pursued
  have answer : ∀ b, outcome = .ok b → b ≠ base.engine.settings.cycleResult →
      (left, right) ∉ Held base.registry core :=
    fun b same differs => consistent.answer pure met (yields b same) differs
  rw [returned]
  refine ⟨?_, answer⟩
  rcases engine with same | ⟨b, same, -, remembered⟩
  · intro key b member differs
    rw [same] at member ⊢
    exact inside key b member differs
  · intro key c member differs
    rw [remembered] at member ⊢
    rcases List.mem_cons.mp member with here | earlier
    · cases here
      exact ⟨(left, right), follows.begun _ List.mem_cons_self, rfl, answer _ same differs⟩
    · exact inside key c earlier differs

theorem comparePrepared_denied {depth : Nat} (consistent : Consistent base core)
    (keeps : ∀ start x y, Ledger.Knows start x → start.Knows y →
      (denying base pure users core start).Keeps (visit depth) x y)
    (order : InOrder base pure users ledger w) (denied : Denied base core w)
    (met : Met base.registry ledger (left, right)) :
    Denied base core (comparePrepared (visit depth) left right w).2 ∧
      ∀ b, (comparePrepared (visit depth) left right w).1 = .ok b →
        b ≠ base.engine.settings.cycleResult → (left, right) ∉ Held base.registry core := by
  rcases comparePrepared_cases (visit depth) left right w with
    ⟨b, finished, same⟩ | ⟨d, event, -, same⟩ | ⟨-, same⟩ <;> rw [same]
  · refine ⟨denied, fun c returned differs => ?_⟩
    cases returned
    obtain ⟨p, begun, key, outside⟩ := denied _ _ finished differs
    rwa [order.same met begun key] at outside
  · refine ⟨denied, fun c returned differs => ?_⟩
    cases returned
    exact absurd order.serves.cycle differs
  · exact compareNew_denied consistent keeps order denied met

-- No comparison denies a pair that is held, however deep it may nest.
theorem visit_denied (consistent : Consistent base core) (depth : Nat) (start : Ledger)
    (x y : Site) (knowsLeft : start.Knows x) (knowsRight : start.Knows y) :
    (denying base pure users core start).Keeps (visit depth) x y := by
  induction depth generalizing start x y with
  | zero =>
    intro w ready
    exact ⟨ready, .refl _, fun b returned => by cases returned⟩
  | succ depth ih =>
    intro w ⟨ready, denied⟩
    obtain ⟨ready', follows, -⟩ := visit_keeps (depth + 1) start x y knowsLeft knowsRight w ready
    obtain ⟨ledger, grown, order⟩ := ready
    suffices kept : Denied base core (visit (depth + 1) x y w).2 ∧
        ∀ b, (visit (depth + 1) x y w).1 = .ok b → b ≠ base.engine.settings.cycleResult →
          (x, y) ∉ Held base.registry core from
      ⟨⟨ready', kept.1⟩, follows, kept.2⟩
    have prepared : ∀ site v, Denied base core v → Denied base core (prepare site v).2 := by
      intro site v before
      obtain ⟨supply, -, rest⟩ := prepare_supply site v
      exact before.supplied (by rw [rest])
    rcases visit_cases depth x y w with
      ⟨fault, v, ran, same⟩ | ⟨l, v, fault, u, ran, ran', same⟩ | ⟨l, v, r, u, ran, ran', same⟩
    · have after := prepared x w denied
      rw [ran] at after
      rw [same]
      exact ⟨after, fun b returned => by cases returned⟩
    all_goals
      have middle := prepared x w denied
      rw [ran] at middle
      have after := prepared y v middle
      rw [ran'] at after
      rw [same]
    · exact ⟨after, fun b returned => by cases returned⟩
    · obtain ⟨last, -, order', -, met, alikeLeft, alikeRight⟩ :=
        prepare_both knowsLeft knowsRight grown order ran ran'
      obtain ⟨kept, answers⟩ := comparePrepared_denied consistent ih order' after met
      refine ⟨kept, fun b returned differs held => answers b returned differs ?_⟩
      exact held_closed base.registry core _ _ ⟨alikeLeft, alikeRight⟩ held

end

-- The answer of an outermost query on a pair that is held.
theorem query_held {base w : World} (pure : base.registry.Pure) {users : Set String}
    {core : Set (Site × Site)} {ledger : Ledger} {left right : Schema}
    {leftScope rightScope : Scope} (consistent : Consistent base core)
    (serves : Serves base users w) (sound : ledger.Sound users w.supply)
    (known : ∀ s ∈ left :: right :: (leftScope ++ rightScope), s ∈ ledger.schemas)
    (idle : w.engine.active = [])
    (held : (⟨left, leftScope, 0⟩, ⟨right, rightScope, 0⟩) ∈ Held base.registry core)
    {depth : Nat} {b : Bool}
    (returned : (query (compareSchemas depth left right leftScope rightScope) w).1 = .ok b) :
    b = base.engine.settings.cycleResult := by
  obtain ⟨after, m, n, v, opened, order, follows, knowsLeft, knowsRight⟩ :=
    opening_ready (InOrder.start pure serves sound) known
  have ran : (visit depth ⟨left, leftScope, m⟩ ⟨right, rightScope, n⟩ v).1 = .ok b := by
    simp only [query, idle, List.isEmpty_nil, if_true, compareSchemas_eq, opened] at returned
    exact returned
  have nothing : Denied base core v := by
    obtain ⟨_, _, supply, same, -⟩ := opening_eq left right leftScope rightScope (w.setEngine reset)
    cases opened.symm.trans same
    exact fun _ _ none => (List.not_mem_nil none).elim
  obtain ⟨-, -, answers⟩ := visit_denied consistent depth after _ _ knowsLeft knowsRight v
    ⟨⟨after, .refl _, order⟩, nothing⟩
  by_contra differs
  -- Scopes are the same whatever their marks.
  have moved : PairsAlike base.registry (⟨left, leftScope, 0⟩, ⟨right, rightScope, 0⟩)
      (⟨left, leftScope, m⟩, ⟨right, rightScope, n⟩) :=
    ⟨Site.Twin.alike ⟨rfl, .refl _⟩, Site.Twin.alike ⟨rfl, .refl _⟩⟩
  exact answers b ran differs (held_closed base.registry core _ _ moved held)

end Engine

end Assignability
