import Assignability.Proofs.Remarking
import Mathlib.Order.FixedPoints
import Mathlib.Order.CompletePartialOrder

namespace Assignability

-- The fixed points of the rules are what runs are measured against. A run knows no more than
-- `granted` while pairs are being compared.

section
variable {α : Type} (f : Set α →o Set α)

def withGiven (given : Set α) : Set α →o Set α where
  toFun pairs := f (pairs ∪ given)
  monotone' _ _ below := f.monotone (Set.union_subset_union_left given below)

-- What follows once the pairs in `given` are taken for granted.
def granted (given : Set α) : Set α := (withGiven f given).gfp

theorem granted_eq (given : Set α) : f (granted f given ∪ given) = granted f given :=
  OrderHom.map_gfp (withGiven f given)

theorem le_granted {given pairs : Set α} (consistent : pairs ⊆ f (pairs ∪ given)) :
    pairs ⊆ granted f given :=
  OrderHom.le_gfp (withGiven f given) consistent

theorem granted_empty : granted f ∅ = f.gfp := by
  apply le_antisymm
  · refine OrderHom.le_gfp _ ?_
    have unfolded := granted_eq f ∅
    rw [Set.union_empty] at unfolded
    exact unfolded.ge
  · refine le_granted f ?_
    rw [Set.union_empty]
    exact (OrderHom.map_gfp f).ge

theorem granted_mono {given more : Set α} (below : given ⊆ more) :
    granted f given ⊆ granted f more := by
  refine le_granted f ?_
  conv_lhs => rw [← granted_eq]
  exact f.monotone (Set.union_subset_union_right _ below)

-- What follows from itself need not be granted.
theorem granted_discharge {given more : Set α} (follows : more ⊆ granted f (given ∪ more)) :
    granted f (given ∪ more) ⊆ granted f given := by
  refine le_granted f ?_
  conv_lhs => rw [← granted_eq]
  refine f.monotone (Set.union_subset Set.subset_union_left (Set.union_subset ?_ ?_))
  · exact Set.subset_union_right
  · exact fun p member => .inl (follows member)

end

section
variable {α : Type} {same : α → α → Prop}

-- Sets that do not tell apart what is the same.
def Closed (same : α → α → Prop) (pairs : Set α) : Prop :=
  ∀ p q, same p q → p ∈ pairs → q ∈ pairs

theorem Closed.union {pairs others : Set α} (first : Closed same pairs)
    (second : Closed same others) :
    Closed same (pairs ∪ others) := by
  intro p q equal member
  rcases member with member | member
  · exact .inl (first p q equal member)
  · exact .inr (second p q equal member)

theorem Closed.compl {pairs : Set α} (symm : ∀ p q, same p q → same q p)
    (closed : Closed same pairs) : Closed same pairsᶜ :=
  fun p q equal outside inside => outside (closed q p (symm p q equal) inside)

theorem Closed.gfp {f : Set α →o Set α} (equivalence : Equivalence same)
    (keeps : ∀ pairs, Closed same pairs → Closed same (f pairs)) : Closed same f.gfp := by
  -- The closure of the fixed point is consistent too.
  let closure : Set α := {q | ∃ p ∈ f.gfp, same p q}
  have closed : Closed same closure := by
    rintro q r equal ⟨p, member, first⟩
    exact ⟨p, member, equivalence.trans first equal⟩
  have above : f.gfp ⊆ closure := fun p member => ⟨p, member, equivalence.refl p⟩
  have consistent : closure ⊆ f closure := by
    rintro q ⟨p, member, equal⟩
    refine keeps closure closed p q equal (f.monotone above ?_)
    rwa [OrderHom.map_gfp]
  intro p q equal member
  exact OrderHom.le_gfp f consistent ⟨p, member, equal⟩

theorem Closed.granted {f : Set α →o Set α} (equivalence : Equivalence same)
    (keeps : ∀ pairs, Closed same pairs → Closed same (f pairs)) {given : Set α}
    (closed : Closed same given) : Closed same (Assignability.granted f given) :=
  Closed.gfp equivalence fun _ member => keeps _ (member.union closed)

end

-- Sites on both sides that are prepared alike.
abbrev PairsAlike (registry : Registry) : Site × Site → Site × Site → Prop :=
  BothSides (Site.Alike registry)

theorem pairsAlike_equivalence (registry : Registry) : Equivalence (PairsAlike registry) where
  refl _ := ⟨.refl _ _, .refl _ _⟩
  symm same := ⟨same.1.symm, same.2.symm⟩
  trans first second := ⟨first.1.trans second.1, first.2.trans second.2⟩

namespace Engine

-- One round of the rules, with comparisons left to `compare`.
def judge (compare : Comparer) (left right : Site) : Run Bool := fun w =>
  match prepare left w with
  | (.error fault, w) => (.error fault, w)
  | (.ok left, w) =>
    match prepare right w with
    | (.error fault, w) => (.error fault, w)
    | (.ok right, w) =>
      pursue compare (Rule.goal w.engine.settings w.registry w.supply left right) w

theorem judge_among {w : World} (pure : w.registry.Pure) {pairs : Set (Site × Site)}
    {left right : Site} :
    (judge (.among pairs) left right w).1 = .ok true ↔
      ∃ l v r u, prepare left w = (.ok l, v) ∧ prepare right v = (.ok r, u) ∧
        (Rule.goal w.engine.settings w.registry u.supply l r).Yields
          (fun x y b => (x, y) ∈ pairs ↔ b = true) true := by
  unfold judge
  obtain ⟨m, -, afterLeft⟩ := prepare_supply left w
  cases first : prepare left w with
  | mk outcome v =>
    rw [first] at afterLeft
    simp only at afterLeft
    subst afterLeft
    cases outcome with
    | error fault => simp
    | ok l =>
      obtain ⟨n, -, afterRight⟩ := prepare_supply right { w with supply := m }
      cases second : prepare right { w with supply := m } with
      | mk outcome u =>
        rw [second] at afterRight
        simp only at afterRight
        subst afterRight
        cases outcome with
        | error fault => simp [second]
        | ok r =>
          simp only [second, pursue_among (Rule.goal_settled _ pure _ l r)]
          constructor
          · exact fun yields => ⟨l, _, r, _, rfl, second, yields⟩
          · rintro ⟨l', v', r', u', same, second', yields⟩
            cases same
            rw [second] at second'
            cases second'
            exact yields

-- The rules on relations: a pair is related when its goal succeeds with comparisons answered by the
-- relation before.
noncomputable def rules (w : World) (pure : w.registry.Pure) :
    Set (Site × Site) →o Set (Site × Site) where
  toFun pairs := {p | (judge (.among pairs) p.1 p.2 w).1 = .ok true}
  monotone' := by
    intro pairs more below p member
    obtain ⟨l, v, r, u, first, second, yields⟩ := (judge_among pure).mp member
    refine (judge_among pure).mpr ⟨l, v, r, u, first, second, Goal.yields_mono ?_ yields⟩
    exact fun x y _ known => ⟨fun _ => rfl, fun _ => below (known.mpr rfl)⟩

section
variable {w : World} (pure : w.registry.Pure) {pairs : Set (Site × Site)}
include pure

theorem mem_rules {p : Site × Site} : p ∈ rules w pure pairs ↔
    ∃ l v r u, prepare p.1 w = (.ok l, v) ∧ prepare p.2 v = (.ok r, u) ∧
      (Rule.goal w.engine.settings w.registry u.supply l r).Yields
        (fun x y b => (x, y) ∈ pairs ↔ b = true) true :=
  judge_among pure

theorem yields_twin {mark mark' : Nat} {l l' r r' : Site}
    (closed : Closed (PairsAlike w.registry) pairs) (onLeft : l.Twin l') (onRight : r.Twin r')
    (yields : (Rule.goal w.engine.settings w.registry mark l r).Yields
      (fun x y b => (x, y) ∈ pairs ↔ b = true) true) :
    (Rule.goal w.engine.settings w.registry mark' l' r').Yields
      (fun x y b => (x, y) ∈ pairs ↔ b = true) true := by
  refine Goal.yields_transfer (Rule.goal_twin pure mark mark' onLeft onRight) ?_ yields
  exact fun p q same known => ⟨fun _ => rfl, fun _ => closed p q same (known.mpr rfl)⟩

theorem rules_closed (closed : Closed (PairsAlike w.registry) pairs) :
    Closed (PairsAlike w.registry) (rules w pure pairs) := by
  intro p q same member
  obtain ⟨l, v, r, u, first, second, yields⟩ := (mem_rules pure).mp member
  have after : ∀ {site p : Site} {v : World}, prepare site w = (.ok p, v) →
      v.registry.SameKinds w.registry := fun prepared kind => by rw [(prepare_ok prepared).rest]
  obtain ⟨l', v', first', onLeft⟩ := same.1.prepared (fun _ => rfl) (fun _ => rfl) first
  obtain ⟨r', u', second', onRight⟩ := same.2.prepared (after first) (after first') second
  exact (mem_rules pure).mpr
    ⟨l', v', r', u', first', second', yields_twin pure closed onLeft onRight yields⟩

-- A prepared pair is judged by its goal, whatever marks its rules give out.
theorem mem_rules_ready {l r : Site} (onLeft : l.Ready w.registry) (onRight : r.Ready w.registry)
    (closed : Closed (PairsAlike w.registry) pairs) (mark : Nat) :
    (l, r) ∈ rules w pure pairs ↔
      (Rule.goal w.engine.settings w.registry mark l r).Yields
        (fun x y b => (x, y) ∈ pairs ↔ b = true) true := by
  rw [mem_rules pure]
  constructor
  · rintro ⟨l', v, r', u, first, second, yields⟩
    rw [prepare_self onLeft] at first
    cases first
    rw [prepare_self onRight] at second
    cases second
    exact yields_twin pure closed (.refl l) (.refl r) yields
  · intro yields
    exact ⟨l, w, r, w, prepare_self onLeft, prepare_self onRight,
      yields_twin pure closed (.refl l) (.refl r) yields⟩

end

-- The answer `favoured` is what an assumption gives. The pairs that have it are a greatest fixed
-- point either way: of the rules themselves, or of what the rules leave out.
noncomputable def favouring (favoured : Bool) (w : World) (pure : w.registry.Pure) :
    Set (Site × Site) →o Set (Site × Site) where
  toFun pairs := if favoured then rules w pure pairs else (rules w pure pairsᶜ)ᶜ
  monotone' := by
    intro pairs more below
    cases favoured with
    | true => exact (rules w pure).monotone below
    | false =>
      have fewer := (rules w pure).monotone (Set.compl_subset_compl.mpr below)
      exact Set.compl_subset_compl.mpr fewer

-- The pairs that have the favoured answer.
noncomputable def settled (favoured : Bool) (w : World) (pure : w.registry.Pure) :
    Set (Site × Site) :=
  (favouring favoured w pure).gfp

section
variable {w : World} (pure : w.registry.Pure)

theorem settled_true : settled true w pure = (rules w pure).gfp := rfl

theorem settled_false : settled false w pure = (rules w pure).lfpᶜ := by
  apply Set.Subset.antisymm
  · rw [Set.subset_compl_comm]
    refine OrderHom.lfp_le _ ?_
    have unfolded := OrderHom.map_gfp (favouring false w pure)
    change (rules w pure (settled false w pure)ᶜ)ᶜ = settled false w pure at unfolded
    rw [← compl_eq_comm.mp unfolded]
  · refine OrderHom.le_gfp _ ?_
    change _ ⊆ (rules w pure (rules w pure).lfpᶜᶜ)ᶜ
    rw [compl_compl, OrderHom.map_lfp]

variable {favoured : Bool} {pairs : Set (Site × Site)}

theorem favouring_closed (closed : Closed (PairsAlike w.registry) pairs) :
    Closed (PairsAlike w.registry) (favouring favoured w pure pairs) := by
  have symm : ∀ p q, PairsAlike w.registry p q → PairsAlike w.registry q p :=
    fun _ _ same => (pairsAlike_equivalence w.registry).symm same
  cases favoured with
  | true => exact rules_closed pure closed
  | false => exact (rules_closed pure (closed.compl symm)).compl symm

theorem settled_closed : Closed (PairsAlike w.registry) (settled favoured w pure) :=
  .gfp (pairsAlike_equivalence w.registry) fun _ => favouring_closed pure

section
variable {l r : Site} {mark : Nat} {evidence : Evidence} (onLeft : l.Ready w.registry)
  (onRight : r.Ready w.registry) (closed : Closed (PairsAlike w.registry) pairs)
include onLeft onRight closed

-- The favoured answer, from comparisons that have it within a relation.
theorem favouring_of_yields
    (yields : (Rule.goal w.engine.settings w.registry mark l r).Yields evidence favoured)
    (within : ∀ x y, .compare x y ∈ (Rule.goal w.engine.settings w.registry mark l r).steps →
      evidence x y favoured → (x, y) ∈ pairs) :
    (l, r) ∈ favouring favoured w pure pairs := by
  have symm : ∀ p q, PairsAlike w.registry p q → PairsAlike w.registry q p :=
    fun _ _ same => (pairsAlike_equivalence w.registry).symm same
  cases favoured with
  | true =>
    refine (mem_rules_ready pure onLeft onRight closed mark).mpr (Goal.yields_mono ?_ yields)
    exact fun x y asked known => ⟨fun _ => rfl, fun _ => within x y asked known⟩
  | false =>
    intro member
    have contrary := (mem_rules_ready pure onLeft onRight (closed.compl symm) mark).mp member
    obtain ⟨x, y, asked, known, outside⟩ := Goal.yields_conflict yields contrary
    exact outside.mpr rfl (within x y asked known)

-- The other answer, from comparisons that have it outside a relation.
theorem not_favouring_of_yields
    (yields : (Rule.goal w.engine.settings w.registry mark l r).Yields evidence (!favoured))
    (outside : ∀ x y, .compare x y ∈ (Rule.goal w.engine.settings w.registry mark l r).steps →
      evidence x y (!favoured) → (x, y) ∉ pairs) :
    (l, r) ∉ favouring favoured w pure pairs := by
  have symm : ∀ p q, PairsAlike w.registry p q → PairsAlike w.registry q p :=
    fun _ _ same => (pairsAlike_equivalence w.registry).symm same
  cases favoured with
  | true =>
    intro member
    have contrary := (mem_rules_ready pure onLeft onRight closed mark).mp member
    obtain ⟨x, y, asked, inside, known⟩ := Goal.yields_conflict contrary yields
    exact outside x y asked known (inside.mpr rfl)
  | false =>
    refine not_not_intro ((mem_rules_ready pure onLeft onRight (closed.compl symm) mark).mpr ?_)
    refine Goal.yields_mono ?_ yields
    exact fun x y asked known => ⟨fun _ => rfl, fun _ => outside x y asked known⟩

end

end

end Engine

end Assignability
