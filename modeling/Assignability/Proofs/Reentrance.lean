import Assignability.Proofs.Frames

namespace Assignability

-- The rule of a user kind may ask the engine that consults it, and goes on with the reply even if
-- that is a fault. An engine that is busy only ever learns from this.

-- The questions that a script gets to, each with the world in which it asks.
inductive Script.Reaches (ask : Question → Run Bool) : Script → World → Question → World → Prop
  | here {question : Question} {next : Except Fault Bool → Script} {w : World} :
    Reaches ask (.compare question next) w question w
  | unregistered {kind : String} {next : Bool → Script} {question : Question} {w u : World} :
    Reaches ask (next (w.unregister kind).1) (w.unregister kind).2 question u →
    Reaches ask (.unregister kind next) w question u
  | later {first question : Question} {next : Except Fault Bool → Script} {w u : World} :
    Reaches ask (next (ask first w).1) (ask first w).2 question u →
    Reaches ask (.compare first next) w question u

namespace Engine

-- An engine before and after a comparison, whoever asked for it.
structure Learns (e e' : Engine) : Prop where
  settings : e'.settings = e.settings
  active : e'.active = e.active
  results : e.results <:+ e'.results
  begun : e.begun <:+ e'.begun
  assumed : ∀ a, e.assumed = some a → ∃ a', a' ≤ a ∧ e'.assumed = some a'

theorem Learns.refl (e : Engine) : Learns e e :=
  ⟨rfl, rfl, List.suffix_refl _, List.suffix_refl _, fun a used => ⟨a, Nat.le_refl _, used⟩⟩

theorem Learns.trans {a b c : Engine} (first : Learns a b) (second : Learns b c) : Learns a c := by
  refine ⟨second.settings.trans first.settings, second.active.trans first.active,
    first.results.trans second.results, first.begun.trans second.begun, ?_⟩
  intro d used
  obtain ⟨d', shallower, used⟩ := first.assumed d used
  obtain ⟨d'', shallower', used⟩ := second.assumed d' used
  exact ⟨d'', Nat.le_trans shallower' shallower, used⟩

section
variable {e u : Engine} {left right : Site}

theorem Learns.leave (inside : (e.enter left right).Learns u)
    (new : e.active.lookup (.of left right) = none) :
    e.Learns (u.leave (.of left right) e.active.length e.assumed) := by
  refine ⟨inside.settings, leave_active e.assumed inside.active new, inside.results,
    (List.suffix_cons _ _).trans inside.begun, fun a used => ?_⟩
  simp only [Engine.leave, used]
  cases above e.active.length u.assumed with
  | none => exact ⟨a, Nat.le_refl _, rfl⟩
  | some b => exact ⟨min a b, Nat.min_le_left _ _, rfl⟩

theorem Learns.remember (learned : e.Learns u) (key : PairKey) (b : Bool) :
    e.Learns (u.remember key b) :=
  { learned with results := learned.results.trans (List.suffix_cons _ _) }

theorem learns_assume (e : Engine) (depth : Nat) : e.Learns (e.assume depth) := by
  obtain ⟨a, used, -, shallower⟩ := assume_spec e depth
  exact ⟨rfl, rfl, List.suffix_refl _, List.suffix_refl _, fun b before =>
    ⟨a, shallower b before, used⟩⟩

end

-- An engine that waits while another one answers is left alone, or asked in the midst of a query,
-- or asked when it has nothing to do. Only in the last case does it forget.
inductive Stands (e : Engine) : Engine → Prop
  | alone : Stands e e
  | busy {e' : Engine} : e.active ≠ [] → e.Learns e' → Stands e e'
  | idle : e.active = [] → Stands e e.reset

theorem Stands.learns {e e' : Engine} (stands : e.Stands e') (busy : e.active ≠ []) :
    e.Learns e' := by
  cases stands with
  | alone => exact .refl e
  | busy _ learned => exact learned
  | idle idle => exact absurd idle busy

theorem Stands.trans {a b c : Engine} (first : a.Stands b) (second : b.Stands c) : a.Stands c := by
  cases first with
  | alone => exact second
  | busy busy learned =>
    have still : b.active ≠ [] := learned.active ▸ busy
    exact .busy busy (learned.trans (second.learns still))
  | idle idle =>
    cases second with
    | alone => exact .idle idle
    | busy busy _ => exact absurd rfl busy
    | idle _ => exact .idle idle

-- An engine that was reset stays as it is.
theorem Stands.fresh {settings : Settings} {e : Engine} (stands : Stands { settings } e) :
    e = { settings } := by
  cases stands with
  | alone => rfl
  | busy busy _ => exact absurd rfl busy
  | idle _ => rfl

-- A world before and after a comparison: the engine that answers, and the one that waits.
structure Resumes (w w' : World) : Prop where
  engine : w.engine.Learns w'.engine
  waiting : Option.Rel Stands w.waiting w'.waiting

theorem Resumes.of_same {w w' : World} (engine : w'.engine = w.engine)
    (waiting : w'.waiting = w.waiting) : Resumes w w' := by
  refine ⟨engine ▸ .refl _, ?_⟩
  rw [waiting]
  cases w.waiting with
  | none => exact .none
  | some session => exact .some .alone

theorem Resumes.refl (w : World) : Resumes w w := .of_same rfl rfl

theorem Resumes.trans {u v w : World} (first : Resumes u v) (second : Resumes v w) :
    Resumes u w := by
  have both : ∀ {a b c : Option Engine}, Option.Rel Stands a b → Option.Rel Stands b c →
      Option.Rel Stands a c := by
    intro a b c earlier later
    cases earlier with
    | none => exact later
    | some stands =>
      cases later with
      | some stands' => exact .some (stands.trans stands')
  exact ⟨first.engine.trans second.engine, both first.waiting second.waiting⟩

theorem Resumes.busy {w w' : World} (resumes : Resumes w w') (busy : w.engine.active ≠ []) :
    w'.engine.active ≠ [] :=
  resumes.engine.active ▸ busy

theorem query_idle (run : Run Bool) {w : World} (idle : w.engine.active = []) :
    query run w = ((run (w.setEngine reset)).1, (run (w.setEngine reset)).2.setEngine reset) := by
  simp only [query, idle, List.isEmpty_nil, if_true]

theorem query_busy (run : Run Bool) {w : World} (busy : w.engine.active ≠ []) :
    query run w = run w := by
  simp only [query, List.isEmpty_iff, busy, if_false]

section
variable {run : Run Bool} (resumes : ∀ w, Resumes w (run w).2) {w : World}
include resumes

-- The outermost query of an engine ends with nothing remembered, whatever came of it.
theorem query_forgets (idle : w.engine.active = []) :
    (query run w).2.engine = { settings := w.engine.settings } ∧
      Option.Rel Stands w.waiting (query run w).2.waiting := by
  have kept := resumes (w.setEngine reset)
  rw [query_idle run idle]
  refine ⟨?_, kept.waiting⟩
  simp only [World.setEngine, reset, Engine.mk.injEq, and_self, and_true]
  exact kept.engine.settings

theorem query_stands (w : World) : w.engine.Stands (query run w).2.engine ∧
    Option.Rel Stands w.waiting (query run w).2.waiting := by
  by_cases idle : w.engine.active = []
  · obtain ⟨engine, waiting⟩ := query_forgets resumes idle
    rw [engine]
    exact ⟨.idle idle, waiting⟩
  · rw [query_busy run idle]
    exact ⟨.busy idle (resumes w).engine, (resumes w).waiting⟩

-- The session's engine answers in the midst of a query, its own or that of another engine.
theorem queryShared_resumes (busy : w.engine.active ≠ []) :
    Resumes w (queryShared run w).2 := by
  unfold queryShared
  cases waiting : w.waiting with
  | none =>
    simp only [query_busy run busy]
    exact resumes w
  | some session =>
    obtain ⟨stands, -⟩ := query_stands resumes { w with engine := session, waiting := none }
    refine ⟨.refl _, ?_⟩
    rw [waiting]
    exact .some stands

-- A new engine answers, while the session's engine waits.
theorem queryFresh_stands (settings : Settings) (w : World) :
    ∃ session, (w.waiting.getD w.engine).Stands session ∧
      (w.waiting = none → (queryFresh settings run w).2.engine = session ∧
        (queryFresh settings run w).2.waiting = none) ∧
      (w.waiting ≠ none → (queryFresh settings run w).2.engine = w.engine ∧
        (queryFresh settings run w).2.waiting = some session) := by
  obtain ⟨-, stands⟩ := query_stands resumes
    { w with engine := { settings }, waiting := some (w.waiting.getD w.engine) }
  unfold queryFresh
  dsimp only
  generalize query run
    { w with engine := { settings }, waiting := some (w.waiting.getD w.engine) } = result
    at stands ⊢
  obtain ⟨outcome, after⟩ := result
  cases still : after.waiting with
  | none =>
    rw [still] at stands
    cases stands
  | some session =>
    rw [still] at stands
    cases stands with
    | some stands =>
      refine ⟨session, stands, fun none => ?_, fun some => ?_⟩
      · simp only [none, Option.getD_some, and_self]
      · cases before : w.waiting with
        | none => exact absurd before some
        | some _ => simp only [Option.getD_some, and_self]

theorem queryFresh_resumes (settings : Settings) (busy : w.engine.active ≠ []) :
    Resumes w (queryFresh settings run w).2 := by
  obtain ⟨session, stands, own, other⟩ := queryFresh_stands resumes settings w
  cases waiting : w.waiting with
  | none =>
    obtain ⟨engine, none⟩ := own waiting
    rw [waiting] at stands
    refine ⟨engine ▸ stands.learns busy, ?_⟩
    rw [waiting, none]
    exact .none
  | some before =>
    obtain ⟨engine, some⟩ := other (by simp [waiting])
    rw [waiting] at stands
    refine ⟨engine ▸ .refl _, ?_⟩
    rw [waiting, some]
    exact .some stands

end

theorem prepare_resumes (site : Site) (w : World) : Resumes w (prepare site w).2 := by
  obtain ⟨supply, -, rest⟩ := prepare_supply site w
  rw [rest]
  exact .of_same rfl rfl

theorem site_resumes (w : World) (s : Schema) (scope : Scope) : Resumes w (w.site s scope).2 := by
  unfold World.site
  split <;> exact .of_same rfl rfl

theorem unregister_resumes (w : World) (kind : String) : Resumes w (w.unregister kind).2 := by
  unfold World.unregister
  split <;> exact .of_same rfl rfl

-- The world that a new pair leaves behind, once its goal has come out.
def leaving (left right : Site) (before : World) (outcome : Except Fault Bool) (w : World) :
    World :=
  let e := w.engine.leave (.of left right) before.engine.active.length before.engine.assumed
  let final := (above before.engine.active.length w.engine.assumed).isNone
  match outcome with
  | .error _ => { w with engine := e }
  | .ok b => { w with
      engine := if e.settings.memoize && final then e.remember (.of left right) b else e
      log := (if e.settings.trace then
          [.compared (.of left right) left.schema.kind right.schema.kind b]
        else []) ++ w.log }

theorem compareNew_eq (compare : Comparer) (left right : Site) (w : World) :
    compareNew compare left right w =
      let came := pursue compare (Rule.goal w.engine.settings w.registry w.supply left right)
        (entering left right w)
      (came.1, leaving left right w came.1 came.2) := by
  unfold compareNew entering
  dsimp only
  cases pursue compare (Rule.goal w.engine.settings w.registry w.supply left right)
    ({ w with supply := w.supply + Rule.marksUsed }.setEngine (·.enter left right)) with
  | mk outcome u =>
    cases outcome with
    | error fault => rfl
    | ok b =>
      by_cases kept :
          u.engine.settings.memoize && (above w.engine.active.length u.engine.assumed).isNone <;>
        by_cases traced : u.engine.settings.trace <;>
        simp [leaving, World.setEngine, World.record, Engine.leave, Engine.remember, kept, traced]

theorem leaving_waiting (left right : Site) (before : World) (outcome : Except Fault Bool)
    (w : World) : (leaving left right before outcome w).waiting = w.waiting := by
  cases outcome <;> rfl

theorem leaving_begun (left right : Site) (before u : World) (outcome : Except Fault Bool) :
    (leaving left right before outcome u).engine.begun = u.engine.begun := by
  cases outcome with
  | error fault => rfl
  | ok b =>
    simp only [leaving]
    split <;> rfl

-- Worlds in which comparisons resume.
def resuming : Account where
  ready _ := True
  moves := Resumes
  evidence _ _ _ _ := True
  refl := .refl
  trans := .trans
  stays _ _ := trivial

section
variable {compare : Comparer} (each : ∀ x y w, Resumes w (compare x y w).2)
include each

theorem compareValues_resumes (question : Question) (w : World) :
    Resumes w (compareValues compare question w).2 := by
  unfold compareValues
  split
  · rename_i l r _ _
    apply (site_resumes w l question.leftScope).trans
    exact (site_resumes _ r question.rightScope).trans (each _ _ _)
  · rename_i l _ _
    apply (site_resumes w l question.leftScope).trans
    have prepared := prepare_resumes (w.site l question.leftScope).1 (w.site l question.leftScope).2
    dsimp only
    split <;> rename_i ran <;> rw [ran] at prepared <;> exact prepared
  · exact .refl w

-- Whatever an engine is asked while it consults a rule.
theorem ask_resumes (question : Question) {w : World} (busy : w.engine.active ≠ []) :
    Resumes w (ask compare question w).2 := by
  have values := compareValues_resumes each question
  unfold ask
  split
  · exact queryShared_resumes values busy
  · split
    · exact .refl w
    · exact queryFresh_resumes values _ busy

theorem script_resumes (script : Script) {w : World} (busy : w.engine.active ≠ []) :
    Resumes w (script.run (ask compare) w).2 := by
  induction script generalizing w with
  | answer value => exact .refl w
  | fail fault => exact .refl w
  | unregister kind next ih =>
    have removed := unregister_resumes w kind
    exact removed.trans (ih _ (removed.busy busy))
  | compare question next ih =>
    have asked := ask_resumes each question busy
    exact asked.trans (ih _ (asked.busy busy))

theorem reaches_resumes {script : Script} {w u : World} {question : Question}
    (reaches : script.Reaches (ask compare) w question u) (busy : w.engine.active ≠ []) :
    Resumes w u := by
  induction reaches with
  | here => exact .refl _
  | @unregistered kind next question w u _ ih =>
    have removed := unregister_resumes w kind
    exact removed.trans (ih (removed.busy busy))
  | @later first question next w u _ ih =>
    have asked := ask_resumes each first busy
    exact asked.trans (ih (asked.busy busy))

theorem pursue_resumes (g : Goal) {w : World} (busy : w.engine.active ≠ []) :
    Resumes w (pursue compare g w).2 := by
  have keeps : ∀ x y, resuming.Keeps compare x y :=
    fun x y v _ => ⟨trivial, each x y v, fun _ _ => trivial⟩
  cases g with
  | all steps =>
    simp only [pursue, Goal.runAll_eq]
    exact (Goal.run_yields (fun x y _ => keeps x y) trivial).2.1
  | any steps =>
    simp only [pursue, Goal.runAny_eq]
    exact (Goal.run_yields (fun x y _ => keeps x y) trivial).2.1
  | consult script => exact script_resumes each script busy
  | refuse fault => exact .refl w

theorem compareNew_resumes {left right : Site} {w : World}
    (new : w.engine.active.lookup (.of left right) = none) :
    Resumes w (compareNew compare left right w).2 := by
  have busy : (entering left right w).engine.active ≠ [] := List.cons_ne_nil _ _
  have pursued := pursue_resumes each
    (Rule.goal w.engine.settings w.registry w.supply left right) busy
  obtain ⟨outcome, u, ran, -, -, -, engine⟩ := compareNew_spec compare left right w
  have waiting := leaving_waiting left right w outcome u
  rw [ran] at pursued
  have after := pursued.engine.leave new
  refine ⟨?_, ?_⟩
  · rcases engine with same | ⟨b, -, -, same⟩ <;> rw [same]
    · exact after
    · exact after.remember _ _
  · rw [compareNew_eq]
    simp only [ran, waiting]
    exact pursued.waiting

end

-- However deep a comparison nests and whatever rules it consults, it leaves both engines as it
-- found them, up to what they have learned.
theorem visit_resumes (depth : Nat) (left right : Site) (w : World) :
    Resumes w (visit depth left right w).2 := by
  induction depth generalizing left right w with
  | zero => exact .refl w
  | succ depth ih =>
    have prepared : ∀ {site : Site} {v v' : World} {outcome : Except Fault Site},
        prepare site v = (outcome, v') → Resumes v v' := by
      intro site v v' outcome ran
      have resumes := prepare_resumes site v
      rwa [ran] at resumes
    rcases visit_cases depth left right w with
      ⟨fault, v, ran, same⟩ | ⟨l, v, fault, u, ran, ran', same⟩ | ⟨l, v, r, u, ran, ran', same⟩ <;>
      rw [same]
    · exact prepared ran
    · exact (prepared ran).trans (prepared ran')
    · apply ((prepared ran).trans (prepared ran')).trans
      rcases comparePrepared_cases (visit depth) l r u with
        ⟨b, -, same⟩ | ⟨d, event, -, same⟩ | ⟨new, same⟩ <;> rw [same]
      · exact .refl u
      · exact ⟨learns_assume u.engine d, (Resumes.refl u).waiting⟩
      · exact compareNew_resumes ih new

end Engine

end Assignability
