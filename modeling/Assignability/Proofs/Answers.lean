import Assignability.Proofs.Frames

namespace Assignability

namespace Engine

structure Settles (compare : Comparer) (left right : Site) (w : World) : Prop where
  answers : ∃ b, (compare left right w).1 = .ok b
  follows : Follows w (compare left right w).2

-- Worlds that follow the one at the start of a goal.
def since (start : World) : Account where
  ready := Follows start
  moves _ _ := True
  evidence _ _ _ _ := True
  refl _ := trivial
  trans _ _ := trivial
  stays _ _ := trivial

section
variable {compare : Comparer} {left right : Site} {w : World}

theorem compareNew_settles (new : w.engine.active.lookup (.of left right) = none)
    (loop : (Rule.goal w.engine.settings w.registry w.supply left right).Loop)
    (each : ∀ x y v,
      .compare x y ∈ (Rule.goal w.engine.settings w.registry w.supply left right).steps →
      Follows (entering left right w) v → Settles compare x y v) :
    Settles (compareNew compare) left right w := by
  have keeps : ∀ x y,
      .compare x y ∈ (Rule.goal w.engine.settings w.registry w.supply left right).steps →
      (since (entering left right w)).Keeps compare x y :=
    fun x y inside v ready =>
      ⟨ready.trans (each x y v inside ready).follows, trivial, fun _ _ => trivial⟩
  obtain ⟨b, answered⟩ := pursue_answers (since (entering left right w)) loop keeps
    (fun x y v inside ready => (each x y v inside ready).answers) (.refl _)
  have follows : Follows (entering left right w) _ :=
    (pursue_yields (since (entering left right w)) loop.settled keeps (.refl _)).1
  obtain ⟨outcome, u, ran, returned, -⟩ := compareNew_spec compare left right w
  rw [ran] at answered follows
  exact ⟨⟨b, returned.trans answered⟩, compareNew_follows new ran follows⟩

theorem visit_settles {depth : Nat} {l r : Site} {v u : World} (first : prepare left w = (.ok l, v))
    (second : prepare right v = (.ok r, u))
    (loop : (Rule.goal u.engine.settings u.registry u.supply l r).Loop)
    (each : ∀ x y t, u.engine.active.lookup (.of l r) = none →
      .compare x y ∈ (Rule.goal u.engine.settings u.registry u.supply l r).steps →
      Follows (entering l r u) t → Settles (visit depth) x y t) :
    Settles (visit (depth + 1)) left right w := by
  have before := (prepare_follows first).trans (prepare_follows second)
  have same : visit (depth + 1) left right w = comparePrepared (visit depth) l r u := by
    simp only [visit, first, second]
  rcases comparePrepared_cases (visit depth) l r u with
    ⟨b, -, answer⟩ | ⟨d, event, -, answer⟩ | ⟨new, answer⟩
  · exact ⟨⟨b, by rw [same, answer]⟩, by rw [same, answer]; exact before⟩
  · refine ⟨⟨_, by rw [same, answer]⟩, ?_⟩
    rw [same, answer]
    exact before.trans (assume_follows u event d)
  · have settles := compareNew_settles new loop fun x y t => each x y t new
    obtain ⟨b, answered⟩ := settles.answers
    refine ⟨⟨b, by rw [same, answer, answered]⟩, ?_⟩
    rw [same, answer]
    exact before.trans settles.follows

end

end Engine

end Assignability
