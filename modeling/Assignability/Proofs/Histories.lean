import Assignability.Proofs.Reentrance

namespace Assignability

-- An engine keeps nothing from one query to the next, and what a comparison does never depends on
-- the log.

-- The same world with a longer past in its log.
def World.below (w : World) (past : List Event) : World := { w with log := w.log ++ past }

namespace World
variable (w : World) (past : List Event)

@[simp] theorem below_supply : (w.below past).supply = w.supply := rfl

@[simp] theorem below_registry : (w.below past).registry = w.registry := rfl

@[simp] theorem below_environment : (w.below past).environment = w.environment := rfl

@[simp] theorem below_engine : (w.below past).engine = w.engine := rfl

@[simp] theorem below_waiting : (w.below past).waiting = w.waiting := rfl

@[simp] theorem setEngine_below (f : Engine → Engine) :
    (w.below past).setEngine f = (w.setEngine f).below past := rfl

@[simp] theorem site_below (s : Schema) (scope : Scope) :
    (w.below past).site s scope = ((w.site s scope).1, (w.site s scope).2.below past) := by
  unfold World.site
  split <;> rfl

@[simp] theorem unregister_below (kind : String) :
    (w.below past).unregister kind =
      ((w.unregister kind).1, (w.unregister kind).2.below past) := by
  by_cases known : w.registry.has kind
  · simp only [World.unregister, below_registry, known, if_true]
    rfl
  · simp only [World.unregister, below_registry, known]
    rfl

end World

-- Runs that add to the log without looking at it.
def Oblivious {α : Type} (run : Run α) : Prop :=
  ∀ w past, run (w.below past) = ((run w).1, (run w).2.below past)

namespace Engine

theorem prepare_oblivious (site : Site) : Oblivious (prepare site) := by
  intro w past
  simp only [prepare_eq, World.below_supply, World.below_registry]
  split
  · rfl
  · split <;> rfl

section
variable {run : Run Bool} (oblivious : Oblivious run)
include oblivious

theorem query_oblivious : Oblivious (query run) := by
  intro w past
  by_cases idle : w.engine.active = []
  · have inner := oblivious (w.setEngine reset) past
    have idle' : (w.below past).engine.active = [] := idle
    rw [query_idle run idle, query_idle run idle', World.setEngine_below, inner]
    rfl
  · have busy : (w.below past).engine.active ≠ [] := idle
    rw [query_busy run idle, query_busy run busy]
    exact oblivious w past

theorem queryShared_oblivious : Oblivious (queryShared run) := by
  intro w past
  simp only [queryShared, World.below_waiting]
  cases w.waiting with
  | none => exact query_oblivious oblivious w past
  | some session =>
    have inner := query_oblivious oblivious { w with engine := session, waiting := none } past
    have start : ({ w.below past with engine := session, waiting := none } : World) =
        { w with engine := session, waiting := none }.below past := rfl
    dsimp only
    rw [start, inner]
    rfl

theorem queryFresh_oblivious (settings : Settings) : Oblivious (queryFresh settings run) := by
  intro w past
  have inner := query_oblivious oblivious
    { w with engine := { settings }, waiting := some (w.waiting.getD w.engine) } past
  have start : ({ w.below past with
        engine := { settings },
        waiting := some ((w.below past).waiting.getD (w.below past).engine) } : World) =
      { w with engine := { settings }, waiting := some (w.waiting.getD w.engine) }.below past := rfl
  unfold queryFresh
  dsimp only
  rw [start, inner, World.below_waiting]
  cases w.waiting <;> rfl

end

section
variable {compare : Comparer} (each : ∀ x y, Oblivious (compare x y))
include each

theorem compareValues_oblivious (question : Question) :
    Oblivious (compareValues compare question) := by
  intro w past
  unfold compareValues
  split
  · simp only [World.site_below]
    exact each _ _ _ past
  · rename_i l _ _
    simp only [World.site_below, prepare_oblivious _ _ past]
    cases prepare (w.site l question.leftScope).1 (w.site l question.leftScope).2 with
    | mk outcome v => cases outcome <;> rfl
  · rfl

theorem ask_oblivious (question : Question) : Oblivious (ask compare question) := by
  intro w past
  have values := compareValues_oblivious each question
  simp only [ask, World.below_environment]
  split
  · exact queryShared_oblivious values w past
  · split
    · rfl
    · exact queryFresh_oblivious values _ w past

theorem script_oblivious (script : Script) : Oblivious (script.run (ask compare)) := by
  induction script with
  | answer value => exact fun w past => rfl
  | fail fault => exact fun w past => rfl
  | unregister kind next ih =>
    intro w past
    simp only [Script.run, World.unregister_below]
    exact ih _ _ past
  | compare question next ih =>
    intro w past
    simp only [Script.run, ask_oblivious each question w past]
    exact ih _ _ past

theorem loop_oblivious (go : Bool) (steps : List Step) :
    Oblivious (Goal.run go compare steps) := by
  induction steps with
  | nil => exact fun w past => rfl
  | cons step rest ih =>
    intro w past
    cases step with
    | holds b =>
      simp only [Goal.run]
      split
      · exact ih w past
      · rfl
    | compare left right =>
      simp only [Goal.run, each left right w past]
      cases compare left right w with
      | mk outcome u =>
        cases outcome with
        | error fault => rfl
        | ok b =>
          dsimp only
          split
          · exact ih u past
          · rfl

theorem pursue_oblivious (g : Goal) : Oblivious (pursue compare g) := by
  cases g with
  | all steps =>
    simp only [pursue, Goal.runAll_eq]
    exact loop_oblivious each true steps
  | any steps =>
    simp only [pursue, Goal.runAny_eq]
    exact loop_oblivious each false steps
  | consult script => exact script_oblivious each script
  | refuse fault => exact fun w past => rfl

omit each in
theorem leaving_below (left right : Site) (before : World) (outcome : Except Fault Bool)
    (w : World) (past : List Event) :
    leaving left right (before.below past) outcome (w.below past) =
      (leaving left right before outcome w).below past := by
  cases outcome with
  | error fault => rfl
  | ok b =>
    simp only [leaving, World.below, List.append_assoc]
    rfl

theorem compareNew_oblivious (left right : Site) :
    Oblivious (compareNew compare left right) := by
  intro w past
  have inner := pursue_oblivious each
    (Rule.goal w.engine.settings w.registry w.supply left right) (entering left right w) past
  have start : entering left right (w.below past) = (entering left right w).below past := rfl
  rw [← start] at inner
  simp only [compareNew_eq, World.below_engine, World.below_registry, World.below_supply]
  rw [inner, leaving_below]

theorem comparePrepared_oblivious (left right : Site) :
    Oblivious (comparePrepared compare left right) := by
  intro w past
  simp only [comparePrepared, World.below_engine]
  split
  · rfl
  · split
    · rfl
    · exact compareNew_oblivious each left right w past

end

theorem visit_oblivious (depth : Nat) (left right : Site) : Oblivious (visit depth left right) := by
  induction depth generalizing left right with
  | zero => exact fun w past => rfl
  | succ depth ih =>
    intro w past
    simp only [visit, prepare_oblivious left w past]
    cases prepare left w with
    | mk outcome v =>
      cases outcome with
      | error fault => rfl
      | ok l =>
        dsimp only
        simp only [prepare_oblivious right v past]
        cases prepare right v with
        | mk outcome u =>
          cases outcome with
          | error fault => rfl
          | ok r => exact comparePrepared_oblivious ih l r u past

theorem compareSchemas_oblivious (depth : Nat) (left right : Schema)
    (leftScope rightScope : Scope) :
    Oblivious (compareSchemas depth left right leftScope rightScope) := by
  intro w past
  simp only [compareSchemas, World.site_below]
  exact visit_oblivious depth _ _ _ past

-- The worlds in which an engine may be asked next, after queries of any kind and with anything but
-- the engine changed in between.
inductive History (settings : Settings) : World → Prop
  | new {w : World} : w.engine = { settings } → w.waiting = none → History settings w
  | changed {v w : World} : History settings v → w.engine = v.engine → w.waiting = v.waiting →
    History settings w
  | asked {v : World} (depth : Nat) (left right : Schema) (leftScope rightScope : Scope) :
    History settings v →
    History settings (queryShared (compareSchemas depth left right leftScope rightScope) v).2
  | elsewhere {v : World} (other : Settings) (depth : Nat) (left right : Schema)
    (leftScope rightScope : Scope) : History settings v →
    History settings
      (queryFresh other (compareSchemas depth left right leftScope rightScope) v).2

theorem compareSchemas_resumes (depth : Nat) (left right : Schema) (leftScope rightScope : Scope)
    (w : World) : Resumes w (compareSchemas depth left right leftScope rightScope w).2 := by
  apply (site_resumes w left leftScope).trans
  exact (site_resumes _ right rightScope).trans (visit_resumes depth _ _ _)

-- Between queries an engine has nothing but its settings.
theorem History.idle {settings : Settings} {w : World} (history : History settings w) :
    w.engine = { settings } ∧ w.waiting = none := by
  induction history with
  | new engine waiting => exact ⟨engine, waiting⟩
  | changed _ engine waiting ih => exact ⟨engine.trans ih.1, waiting.trans ih.2⟩
  | @asked v depth left right leftScope rightScope _ ih =>
    obtain ⟨engine, waiting⟩ := ih
    have idle : v.engine.active = [] := by rw [engine]
    obtain ⟨forgotten, still⟩ :=
      query_forgets (compareSchemas_resumes depth left right leftScope rightScope) idle
    have nobody : ∀ {o : Option Engine}, Option.Rel Stands none o → o = none := by
      intro o rel
      cases rel
      rfl
    rw [waiting] at still
    rw [engine] at forgotten
    simp only [queryShared, waiting]
    exact ⟨forgotten, nobody still⟩
  | @elsewhere v other depth left right leftScope rightScope _ ih =>
    obtain ⟨engine, waiting⟩ := ih
    have resumes := compareSchemas_resumes depth left right leftScope rightScope
    obtain ⟨session, stands, own, -⟩ := queryFresh_stands resumes other v
    obtain ⟨after, none⟩ := own waiting
    rw [waiting, engine] at stands
    exact ⟨after.trans stands.fresh, none⟩

-- Each query of a history comes out as on a new engine, adds the same lines to the log, and leaves
-- nothing behind. Whatever the rules of user kinds ask for on the way, and on whichever engine, the
-- queries that are under way lose nothing.
theorem query_independent_of_history {settings : Settings} {v : World}
    (history : History settings v) (depth : Nat) (left right : Schema)
    (leftScope rightScope : Scope) :
    let run := queryShared (compareSchemas depth left right leftScope rightScope)
    let alone : World := { v with engine := { settings }, waiting := none, log := [] }
    (run v).1 = (run alone).1 ∧ (run v).2.log = (run alone).2.log ++ v.log ∧
      (run v).2.engine = { settings } ∧
      ∀ script question l r w u,
        Script.Reaches (ask (visit depth)) script (entering l r w) question u →
        (entering l r w).engine.Learns u.engine ∧
          u.engine.Learns (ask (visit depth) question u).2.engine ∧
          Option.Rel Stands u.waiting (ask (visit depth) question u).2.waiting := by
  intro run alone
  obtain ⟨engine, waiting⟩ := history.idle
  have same : v = alone.below v.log := by
    cases v
    cases engine
    cases waiting
    rfl
  have ran : run v = ((run alone).1, (run alone).2.below v.log) := by
    rw [same]
    exact queryShared_oblivious
      (compareSchemas_oblivious depth left right leftScope rightScope) alone v.log
  refine ⟨by rw [ran], by rw [ran]; rfl,
    (History.asked depth left right leftScope rightScope history).idle.1, ?_⟩
  intro script question l r w u reaches
  have busy : (entering l r w).engine.active ≠ [] := List.cons_ne_nil _ _
  have before := reaches_resumes (visit_resumes depth) reaches busy
  have asked := ask_resumes (visit_resumes depth) question (before.busy busy)
  exact ⟨before.engine, asked.engine, asked.waiting⟩

-- The rule of the outer kind asks the engine that consults it for a query of its own.
def outerKind : Schema :=
  .mk 1 .null false (.user ⟨"Outer", rfl⟩
    [("content", .schema (.mk 2 .null false (.user ⟨"Inner", rfl⟩ [])))])

def nestedRules (inner : Handler) (log : List Event) : World where
  supply := 3
  registry := [("Outer", some (.byField "content" .shared)), ("Inner", some inner)]
  engine := { settings := { trace := true } }
  log := log

-- The inner rule fails in the midst of a nested query, and is replaced before the next one.
theorem nested_query_after_failure :
    let run := queryShared (compareSchemas 4 outerKind outerKind [] [])
    let failed := run (nestedRules (.raising "stopped") [])
    let next := run (nestedRules (.constant (.bool true)) failed.2.log)
    failed.1.toOption = none ∧ next.1.toOption = some true ∧
      next.1 = (run (nestedRules (.constant (.bool true)) [])).1 ∧
      next.2.log = (run (nestedRules (.constant (.bool true)) [])).2.log ++ failed.2.log ∧
      next.2.log.length = 2 := by
  have first : History { trace := true } (nestedRules (.raising "stopped") []) := .new rfl rfl
  have asked := History.asked 4 outerKind outerKind [] [] first
  have second : History { trace := true } (nestedRules (.constant (.bool true))
      (queryShared (compareSchemas 4 outerKind outerKind [] [])
        (nestedRules (.raising "stopped") [])).2.log) :=
    .changed asked asked.idle.1.symm asked.idle.2.symm
  obtain ⟨outcome, log, -⟩ := query_independent_of_history second 4 outerKind outerKind [] []
  exact ⟨by decide +kernel, by decide +kernel, outcome, log, by decide +kernel⟩

end Engine

end Assignability
