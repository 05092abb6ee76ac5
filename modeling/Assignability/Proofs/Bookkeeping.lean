import Assignability.Proofs.Invocations

namespace Assignability

-- Around each comparison an engine saves what it relies on, enters the pair, and puts everything
-- back, whether an answer or a fault comes out.

namespace Engine

-- Pairs being compared are numbered from 0 on in the order in which they were entered. No pair is
-- listed twice, or both as being compared and as finished, and what is relied on is the depth of a
-- pair that is being compared.
structure Orderly (e : Engine) : Prop where
  depths : e.active.reverse.map Prod.snd = List.range e.active.length
  entered : (e.active.map Prod.fst).Nodup
  finished : (e.results.map Prod.fst).Nodup
  apart : ∀ entry ∈ e.active, e.results.lookup entry.1 = none
  assumed : ∀ a, e.assumed = some a → ∃ key, (key, a) ∈ e.active

-- Finished pairs stay finished, with the answers they have.
def Keeps (e e' : Engine) : Prop :=
  ∀ key b, e.results.lookup key = some b → e'.results.lookup key = some b

theorem Orderly.keeps {e e' : Engine} (orderly : e'.Orderly) (more : e.results <:+ e'.results) :
    e.Keeps e' := by
  intro key b found
  obtain ⟨new, same⟩ := more
  have distinct := orderly.finished
  rw [← same, List.map_append] at distinct
  have absent : new.lookup key = none := by
    rw [lookup_none]
    intro again
    have before : key ∈ e.results.map Prod.fst := List.mem_map_of_mem (lookup_mem found)
    exact (List.nodup_append.mp distinct).2.2 key again key before rfl
  rw [← same, List.lookup_append, absent, found]
  rfl

theorem shallower_cases {a b : Option Nat} {c : Nat} (least : shallower a b = some c) :
    a = some c ∨ b = some c := by
  cases a with
  | none => exact .inr least
  | some a =>
    cases b with
    | none => exact .inl least
    | some b =>
      rcases Nat.le_total a b with less | more
      · exact .inl (Nat.min_eq_left less ▸ least)
      · exact .inr (Nat.min_eq_right more ▸ least)

theorem orderly_new (settings : Settings) : Orderly { settings } where
  depths := rfl
  entered := List.nodup_nil
  finished := List.nodup_nil
  apart := List.forall_mem_nil _
  assumed _ relied := by cases relied

section
variable {e u : Engine} {left right : Site}

theorem Orderly.enter (orderly : e.Orderly) (new : e.active.lookup (.of left right) = none)
    (unfinished : e.results.lookup (.of left right) = none) : (e.enter left right).Orderly where
  depths := by
    have depths := orderly.depths
    simp only [Engine.enter, List.reverse_cons, List.map_append, List.map_cons, List.map_nil,
      List.length_cons, List.range_succ, depths]
  entered := List.nodup_cons.mpr ⟨lookup_none.mp new, orderly.entered⟩
  finished := orderly.finished
  apart := List.forall_mem_cons.mpr ⟨unfinished, orderly.apart⟩
  assumed _ relied := by cases relied

theorem Orderly.assume (orderly : e.Orderly) {key : PairKey} {depth : Nat}
    (active : (key, depth) ∈ e.active) : (e.assume depth).Orderly where
  depths := orderly.depths
  entered := orderly.entered
  finished := orderly.finished
  apart := orderly.apart
  assumed a relied := by
    rcases shallower_cases relied with before | here
    · exact orderly.assumed a before
    · cases here
      exact ⟨key, active⟩

-- Leaving a pair brings back the pairs of before and keeps what was finished since. Of what was
-- relied on inside, the depth of the pair itself is dropped.
theorem Orderly.leave (before : e.Orderly) (inside : u.Orderly)
    (learned : (e.enter left right).Learns u) (new : e.active.lookup (.of left right) = none) :
    (u.leave (.of left right) e.active.length e.assumed).Orderly := by
  have active := (learned.leave new).active
  have within : ∀ entry ∈ e.active, entry ∈ u.active := by
    rw [learned.active]
    exact fun entry member => .tail _ member
  refine ⟨?_, ?_, inside.finished, ?_, fun a relied => ?_⟩
  · rw [active]
    exact before.depths
  · rw [active]
    exact before.entered
  · rw [active]
    exact fun entry member => inside.apart entry (within entry member)
  · rw [active]
    have shallow : ∀ b, above e.active.length u.assumed = some b → ∃ key, (key, b) ∈ e.active := by
      intro b passed
      unfold above at passed
      split at passed
      · rename_i c used
        split at passed
        · rename_i lower
          cases passed
          obtain ⟨key, member⟩ := inside.assumed _ used
          rw [learned.active] at member
          rcases List.mem_cons.mp member with here | outer
          · cases here
            exact absurd lower (Nat.lt_irrefl _)
          · exact ⟨key, outer⟩
        · cases passed
      · cases passed
    rcases shallower_cases relied with outer | passed
    · exact before.assumed a outer
    · exact shallow a passed

theorem Orderly.remember (orderly : e.Orderly) {key : PairKey} (b : Bool)
    (left : e.active.lookup key = none) (unfinished : e.results.lookup key = none) :
    (e.remember key b).Orderly where
  depths := orderly.depths
  entered := orderly.entered
  finished := List.nodup_cons.mpr ⟨lookup_none.mp unfinished, orderly.finished⟩
  apart entry member := by
    have other : entry.1 ≠ key := by
      rintro rfl
      exact lookup_none.mp left (List.mem_map_of_mem member)
    have still := orderly.apart entry member
    rw [lookup_none] at still ⊢
    simp only [Engine.remember, List.map_cons, List.mem_cons, not_or]
    exact ⟨other, still⟩
  assumed := orderly.assumed

end

end Engine

-- The books of the engine that answers, and of the one that waits.
structure World.Orderly (w : World) : Prop where
  engine : w.engine.Orderly
  waiting : ∀ e, w.waiting = some e → e.Orderly

namespace World.Orderly
variable {w v : World}

theorem of_same (orderly : w.Orderly) (engine : v.engine = w.engine)
    (waiting : v.waiting = w.waiting) : v.Orderly :=
  ⟨engine ▸ orderly.engine, waiting ▸ orderly.waiting⟩

-- The session's engine, wherever it is.
theorem session (orderly : w.Orderly) : (w.waiting.getD w.engine).Orderly := by
  cases waits : w.waiting with
  | none => exact orderly.engine
  | some e => exact orderly.waiting e waits

theorem reset (orderly : w.Orderly) : (w.setEngine Engine.reset).Orderly :=
  ⟨Engine.orderly_new _, orderly.waiting⟩

theorem opened (orderly : w.Orderly) : w.opened.Orderly := by
  unfold World.opened
  split
  · exact orderly.reset
  · exact orderly

theorem unregister (orderly : w.Orderly) (kind : String) : (w.unregister kind).2.Orderly := by
  unfold World.unregister
  split
  · exact orderly.of_same rfl rfl
  · exact orderly

theorem site (orderly : w.Orderly) (s : Schema) (scope : Scope) : (w.site s scope).2.Orderly := by
  unfold World.site
  split
  · exact orderly
  · exact orderly.of_same rfl rfl

theorem prepare (orderly : w.Orderly) (p : Site) : (Engine.prepare p w).2.Orderly := by
  obtain ⟨supply, -, rest⟩ := Engine.prepare_supply p w
  rw [rest]
  exact orderly.of_same rfl rfl

section
variable {left right : Site}

theorem entering (orderly : w.Orderly) (new : w.engine.active.lookup (.of left right) = none)
    (unfinished : w.engine.results.lookup (.of left right) = none) :
    (Engine.entering left right w).Orderly :=
  ⟨orderly.engine.enter new unfinished, orderly.waiting⟩

theorem leaving (before : w.Orderly) (inside : v.Orderly)
    (resumes : Engine.Resumes (Engine.entering left right w) v)
    (new : w.engine.active.lookup (.of left right) = none) (outcome : Except Fault Bool) :
    (Engine.leaving left right w outcome v).Orderly := by
  have left' := before.engine.leave inside.engine resumes.engine new
  have waiting := Engine.leaving_waiting left right w outcome v
  refine ⟨?_, fun e waits => inside.waiting e (waiting ▸ waits)⟩
  cases outcome with
  | error fault => exact left'
  | ok b =>
    simp only [Engine.leaving]
    split
    · refine left'.remember b ?_ ?_
      · rw [(resumes.engine.leave new).active]
        exact new
      · have active : ((.of left right, w.engine.active.length) : PairKey × Nat) ∈
            v.engine.active := by
          rw [resumes.engine.active]
          exact .head _
        exact inside.engine.apart _ active
    · exact left'

end

section
variable {run : Run Bool} (keeps : ∀ w : World, w.Orderly → (run w).2.Orderly)
include keeps

theorem query (orderly : w.Orderly) : (Engine.query run w).2.Orderly := by
  have ran := keeps w.opened orderly.opened
  rw [(Engine.query_opened run w).2]
  split
  · exact ran.reset
  · exact ran

theorem queryShared (orderly : w.Orderly) : (Engine.queryShared run w).2.Orderly := by
  unfold Engine.queryShared
  split
  · exact query keeps orderly
  · rename_i session waits
    have start : World.Orderly { w with engine := session, waiting := none } :=
      ⟨orderly.waiting session waits, fun _ nobody => by cases nobody⟩
    have ran := query keeps start
    exact ⟨orderly.engine, fun e same => Option.some.inj same ▸ ran.engine⟩

theorem queryFresh (before : w.Orderly) (settings : Settings) :
    (Engine.queryFresh settings run w).2.Orderly := by
  have start : World.Orderly
      { w with engine := { settings }, waiting := some (w.waiting.getD w.engine) } :=
    ⟨Engine.orderly_new settings, fun e same => Option.some.inj same ▸ before.session⟩
  have ran := query keeps start
  have session : ∀ {after : World}, after.Orderly →
      (after.waiting.getD (w.waiting.getD w.engine)).Orderly := by
    intro after orderly
    cases waits : after.waiting with
    | none => exact before.session
    | some e => exact orderly.waiting e waits
  unfold Engine.queryFresh
  dsimp only
  split
  · exact ⟨session ran, fun _ nobody => by cases nobody⟩
  · exact ⟨before.engine, fun e same => Option.some.inj same ▸ session ran⟩

end

section
variable {compare : Comparer} (each : ∀ x y (w : World), w.Orderly → (compare x y w).2.Orderly)
include each

theorem compareValues (question : Question) (w : World) (orderly : w.Orderly) :
    (Engine.compareValues compare question w).2.Orderly := by
  unfold Engine.compareValues
  split
  · exact each _ _ _ ((orderly.site _ _).site _ _)
  · rename_i l _ _
    have prepared := (orderly.site l question.leftScope).prepare (w.site l question.leftScope).1
    dsimp only
    split <;> rename_i ran <;> rw [ran] at prepared <;> exact prepared
  · exact orderly

theorem ask (question : Question) (orderly : w.Orderly) :
    (Engine.ask compare question w).2.Orderly := by
  have values := compareValues each question
  unfold Engine.ask
  split
  · exact queryShared values orderly
  · split
    · exact orderly
    · exact queryFresh values orderly _

end

end World.Orderly

-- In the midst of a comparison.
structure World.Busy (w : World) : Prop extends w.Orderly where
  busy : w.engine.active ≠ []

theorem Comparison.run_busy {c : Comparison}
    (each : ∀ x y (w : World), w.Orderly → (Engine.visit c.depth x y w).2.Orderly)
    (start : c.entered.Busy) :
    (∀ j ∈ c.steps, j.world.Busy) ∧ (∀ p ∈ c.questions, p.2.Busy) ∧ c.pursued.2.Busy := by
  apply Comparison.run_holds _ _ _ start
  · intro j member begun
    have orderly := each j.left j.right j.world begun.toOrderly
    rw [← (Comparison.mem_steps member).2] at orderly
    have resumes := Engine.visit_resumes j.depth j.left j.right j.world
    exact ⟨orderly, resumes.busy begun.busy⟩
  · intro p _ begun
    have resumes := Engine.ask_resumes (Engine.visit_resumes c.depth) p.1 begun.busy
    exact ⟨begun.toOrderly.ask each p.1, resumes.busy begun.busy⟩
  · intro kind w begun
    have resumes := Engine.unregister_resumes w kind
    exact ⟨begun.toOrderly.unregister kind, resumes.busy begun.busy⟩

namespace Invocation

section
variable {i j start : Invocation} {c : Comparison}

theorem entered_busy (comparison : i.comparison? = some c) (orderly : i.world.Orderly) :
    c.entered.Busy := by
  obtain ⟨-, -, unfinished, new⟩ := comparison_pair comparison
  obtain ⟨⟨supply, world⟩, -⟩ := comparison_course comparison
  have before : c.world.Orderly := by
    rw [world]
    exact orderly.of_same rfl rfl
  exact ⟨before.entering new unfinished, List.cons_ne_nil _ _⟩

-- Every comparison leaves the books in order, whatever comes out of it.
theorem after_orderly (i : Invocation) (orderly : i.world.Orderly) : i.after.Orderly := by
  induction nested : i.depth using Nat.strongRecOn generalizing i with
  | ind n ih =>
    subst nested
    rcases i.course with ⟨supply, -, same⟩ | ⟨supply, depth, key, event, -, active, same⟩ |
      ⟨c, supply, comparison, world, same⟩
    · rw [same]
      exact orderly.of_same rfl rfl
    · rw [same]
      exact ⟨orderly.engine.assume active, orderly.waiting⟩
    · obtain ⟨-, deeper, -, new⟩ := comparison_pair comparison
      have each : ∀ x y (w : World), w.Orderly → (Engine.visit c.depth x y w).2.Orderly :=
        fun x y w begun => ih c.depth (by omega) ⟨c.depth, x, y, w⟩ begun rfl
      have begun := entered_busy comparison orderly
      obtain ⟨-, -, inside⟩ := Comparison.run_busy each begun
      have resumes := Engine.pursue_resumes (Engine.visit_resumes c.depth) c.goal begun.busy
      have before : c.world.Orderly := by
        rw [world]
        exact orderly.of_same rfl rfl
      simp only [after, same]
      exact before.leaving inside.toOrderly resumes new _

theorem world_orderly {question : Question} {w v : World} (orderly : w.Orderly)
    (opened : question.world? w = some v) : v.Orderly := by
  unfold Question.world? at opened
  split at opened
  · cases opened
    exact orderly
  · rename_i session _ waits
    cases opened
    exact ⟨orderly.waiting session waits, fun _ nobody => by cases nobody⟩
  · split at opened
    · cases opened
    · cases opened
      refine ⟨Engine.orderly_new _, fun e same => ?_⟩
      cases same
      exact orderly.session

theorem ofQuery_orderly {w : World} (orderly : w.opened.Orderly) (depth : Nat) (left right : Schema)
    (leftScope rightScope : Scope) :
    (ofQuery depth left right leftScope rightScope w).world.Orderly := by
  obtain ⟨_, _, supply, same⟩ := ofQuery_eq depth left right leftScope rightScope w
  rw [same]
  exact orderly.of_same rfl rfl

theorem Within.orderly (within : start.Within i) (orderly : start.world.Orderly) :
    i.world.Orderly := by
  induction within with
  | refl => exact orderly
  | tail _ next ih =>
    rcases next with ⟨c, comparison, member⟩ | ⟨c, comparison, member⟩
    all_goals
      obtain ⟨steps, questions, -⟩ := Comparison.run_busy
        (fun x y w begun => after_orderly ⟨c.depth, x, y, w⟩ begun) (entered_busy comparison ih)
    · exact (steps _ member).toOrderly
    · obtain ⟨⟨question, w⟩, asked, begun⟩ := List.mem_filterMap.mp member
      obtain ⟨l, r, v, -, -, opened, rfl⟩ := Question.invocation_cases begun
      have begun := world_orderly (questions _ asked).toOrderly opened
      exact ofQuery_orderly begun.opened _ _ _ _ _

end

end Invocation

-- The pairs that either engine has noted as begun.
def World.noted (w : World) : List (Site × Site) :=
  w.engine.begun ++ w.waiting.elim [] Engine.begun

section
variable {w v : World} {p : Site × Site}

theorem World.noted_session (member : p ∈ (w.waiting.getD w.engine).begun) : p ∈ w.noted := by
  cases waits : w.waiting with
  | none =>
    rw [waits] at member
    exact List.mem_append_left _ member
  | some e =>
    rw [waits] at member
    exact List.mem_append_right _ (by rwa [waits])

theorem World.noted_opened (member : p ∈ w.opened.noted) : p ∈ w.noted := by
  unfold World.opened at member
  split at member
  · exact List.mem_append_right _ member
  · exact member

theorem Question.noted_world {question : Question} (opened : question.world? w = some v)
    (member : p ∈ v.noted) : p ∈ w.noted := by
  unfold Question.world? at opened
  split at opened
  · cases opened
    exact member
  · rename_i session _ waits
    cases opened
    have inside : p ∈ session.begun := by simpa [World.noted] using member
    exact List.mem_append_right _ (by rwa [waits])
  · split at opened
    · cases opened
    · cases opened
      exact World.noted_session member

theorem Engine.query_noted {run : Run Bool} (member : p ∈ (query run w).2.noted) :
    p ∈ (run w.opened).2.noted := by
  rw [(query_opened run w).2] at member
  split at member
  · exact List.mem_append_right _ member
  · exact member

theorem Engine.leaving_noted (left right : Site) (before : World) (outcome : Except Fault Bool)
    (w : World) : (leaving left right before outcome w).noted = w.noted := by
  simp only [World.noted, leaving_begun, leaving_waiting]

-- Whatever is noted while a question is replied to is noted by the comparison that replies.
theorem Engine.ask_noted {compare : Comparer} {question : Question}
    (member : p ∈ (ask compare question w).2.noted) :
    p ∈ w.noted ∨ ∃ v, question.world? w = some v ∧
      p ∈ (compareValues compare question v.opened).2.noted := by
  unfold ask at member
  unfold Question.world?
  cases choice : question.engine with
  | shared =>
    simp only [choice] at member
    unfold queryShared at member
    cases waits : w.waiting with
    | none =>
      simp only [waits] at member
      exact .inr ⟨w, rfl, query_noted member⟩
    | some session =>
      simp only [waits] at member
      rcases List.mem_append.mp member with own | other
      · exact .inl (List.mem_append_left _ own)
      · exact .inr ⟨_, rfl, query_noted (List.mem_append_left _ other)⟩
  | fresh =>
    simp only [choice] at member
    cases built : Settings.build w.environment [] with
    | error fault =>
      simp only [built] at member
      exact .inl member
    | ok settings =>
      simp only [built] at member
      have session : ∀ {after : World} {q : Site × Site},
          q ∈ (after.waiting.getD (w.waiting.getD w.engine)).begun →
            q ∈ w.noted ∨ q ∈ after.noted := by
        intro after q inside
        cases waits : after.waiting with
        | none =>
          rw [waits] at inside
          exact .inl (World.noted_session inside)
        | some e =>
          rw [waits] at inside
          exact .inr (List.mem_append_right _ (by rwa [waits]))
      have replied : p ∈ w.noted ∨ p ∈ (query (compareValues compare question) { w with
          engine := { settings }, waiting := some (w.waiting.getD w.engine) }).2.noted := by
        unfold queryFresh at member
        dsimp only at member
        split at member
        · rcases List.mem_append.mp member with inside | nothing
          · exact session inside
          · cases nothing
        · rcases List.mem_append.mp member with own | inside
          · exact .inl (List.mem_append_left _ own)
          · exact session inside
      exact replied.imp_right fun noted => ⟨_, rfl, query_noted noted⟩

end

namespace Invocation

-- The pair of a comparison that the first one leads to.
def Meets (i : Invocation) (p : Site × Site) : Prop :=
  ∃ j c, i.Within j ∧ j.comparison? = some c ∧ p = (c.left, c.right)

section
variable {i j : Invocation} {p : Site × Site}

theorem Meets.earlier (next : i.Steps j ∨ i.Poses j) (meets : j.Meets p) : i.Meets p := by
  obtain ⟨k, c, within, comparison, same⟩ := meets
  exact ⟨k, c, .head next within, comparison, same⟩

-- Questions that lead to no comparison leave nothing behind.
theorem asked_noted {depth : Nat} {question : Question} {w : World}
    (member : p ∈ (Engine.ask (Engine.visit depth) question w).2.noted) :
    p ∈ w.noted ∨ ∃ j, question.invocation? depth w = some j ∧ p ∈ j.after.noted := by
  rcases Engine.ask_noted member with before | ⟨v, opened, noted⟩
  · exact .inl before
  · have earlier : p ∈ v.opened.noted → p ∈ w.noted :=
      fun before => Question.noted_world opened (World.noted_opened before)
    unfold Engine.compareValues at noted
    split at noted
    · rename_i l r left right
      refine .inr ⟨ofQuery depth l r question.leftScope question.rightScope v, ?_, noted⟩
      simp only [Question.invocation?, left, right, opened]
    · rename_i l _ _
      have site : (v.opened.site l question.leftScope).2.noted = v.opened.noted := by
        unfold World.site
        split <;> rfl
      obtain ⟨supply, -, rest⟩ := Engine.prepare_supply (v.opened.site l question.leftScope).1
        (v.opened.site l question.leftScope).2
      have prepared := congrArg World.noted rest
      dsimp only at noted
      refine .inl (earlier ?_)
      rw [← site]
      split at noted <;> rename_i ran <;> rw [ran] at prepared <;> exact prepared ▸ noted
    · exact .inl (earlier noted)

theorem invocation_noted {depth : Nat} {question : Question} {w : World}
    (begun : question.invocation? depth w = some j) :
    j.depth = depth ∧ ∀ p ∈ j.world.noted, p ∈ w.noted := by
  obtain ⟨l, r, v, -, -, opened, rfl⟩ := Question.invocation_cases begun
  obtain ⟨_, _, supply, same⟩ := ofQuery_eq depth l r question.leftScope question.rightScope v
  rw [same]
  exact ⟨rfl, fun p before => Question.noted_world opened (World.noted_opened before)⟩

-- Every pair that is noted was noted before, or is the pair of a comparison that the first one
-- leads to.
def Accounts (i : Invocation) (w : World) : Prop := ∀ p ∈ w.noted, p ∈ i.world.noted ∨ i.Meets p

theorem Accounts.next {w : World} (accounts : i.Accounts w) (next : i.Steps j ∨ i.Poses j)
    (start : ∀ p ∈ j.world.noted, p ∈ w.noted) (inside : j.Accounts j.after) :
    i.Accounts j.after := by
  intro p member
  rcases inside p member with before | meets
  · exact accounts p (start p before)
  · exact .inr (meets.earlier next)

theorem accounts_after (i : Invocation) : i.Accounts i.after := by
  induction nested : i.depth using Nat.strongRecOn generalizing i with
  | ind n ih =>
    subst nested
    rcases i.course with ⟨supply, -, same⟩ | ⟨supply, depth, key, event, -, -, same⟩ |
      ⟨c, supply, comparison, world, same⟩
    · rw [same]
      exact fun p member => .inl member
    · rw [same]
      exact fun p member => .inl member
    · obtain ⟨-, deeper, -, -⟩ := comparison_pair comparison
      have visits : ∀ j ∈ c.steps, i.Accounts j.world → i.Accounts j.after := by
        intro j member accounts
        have shallower : j.depth < i.depth := by
          have := (Comparison.mem_steps member).2
          omega
        exact accounts.next (.inl ⟨c, comparison, member⟩) (fun _ before => before)
          (ih j.depth shallower j rfl)
      have asks : ∀ q ∈ c.questions, i.Accounts q.2 →
          i.Accounts (Engine.ask (Engine.visit c.depth) q.1 q.2).2 := by
        intro q member accounts p noted
        rcases asked_noted noted with before | ⟨j, begun, noted⟩
        · exact accounts p before
        · obtain ⟨depth, start⟩ := invocation_noted begun
          have posed : j ∈ c.posed := List.mem_filterMap.mpr ⟨q, member, begun⟩
          exact accounts.next (.inr ⟨c, comparison, posed⟩) start
            (ih j.depth (by omega) j rfl) p noted
      have removes : ∀ kind w, i.Accounts w → i.Accounts (w.unregister kind).2 := by
        intro kind w accounts
        unfold World.unregister
        split <;> exact accounts
      have entered : i.Accounts c.entered := by
        unfold Comparison.entered
        rw [world]
        intro p member
        rcases List.mem_cons.mp member with rfl | before
        · exact .inr ⟨i, c, .refl, comparison, rfl⟩
        · exact .inl before
      obtain ⟨-, -, last⟩ := Comparison.run_holds visits asks removes entered
      intro p member
      rw [after, same, Engine.leaving_noted] at member
      exact last p member

end

end Invocation

end Assignability
