import Assignability.Engine.Visit
import Mathlib.Data.Set.Basic

namespace Assignability

-- A goal is settled by evidence about its comparisons: all of them, or one that decides.

-- What is known of a comparison's answer.
abbrev Evidence := Site → Site → Bool → Prop

-- Scripts that only answer or fail.
def Script.outcome? : Script → Option (Except Fault Bool)
  | .answer value => some (.ok value.truth)
  | .fail fault => some (.error fault)
  | _ => none

namespace Goal

-- One loop for both kinds of goal: it goes on while steps answer `go`.
def run (go : Bool) (compare : Comparer) : List Step → Run Bool
  | [], w => (.ok go, w)
  | .holds b :: rest, w => if b = go then run go compare rest w else (.ok b, w)
  | .compare left right :: rest, w =>
    match compare left right w with
    | (.ok b, w) => if b = go then run go compare rest w else (.ok b, w)
    | (.error fault, w) => (.error fault, w)

theorem runAll_eq (compare : Comparer) (steps : List Step) :
    runAll compare steps = run true compare steps := by
  induction steps with
  | nil => rfl
  | cons step rest ih =>
    funext w
    cases step with
    | holds b => cases b <;> simp [runAll, run, ih]
    | compare left right =>
      simp only [runAll, run]
      split <;> simp_all
      split <;> simp_all

theorem runAny_eq (compare : Comparer) (steps : List Step) :
    runAny compare steps = run false compare steps := by
  induction steps with
  | nil => rfl
  | cons step rest ih =>
    funext w
    cases step with
    | holds b => cases b <;> simp [runAny, run, ih]
    | compare left right =>
      simp only [runAny, run]
      split <;> simp_all
      split <;> simp_all

end Goal

def Step.Yields (evidence : Evidence) : Step → Bool → Prop
  | .holds b, answer => b = answer
  | .compare left right, answer => evidence left right answer

namespace Goal

def StepsYield (go : Bool) (evidence : Evidence) (steps : List Step) (answer : Bool) : Prop :=
  (answer = go → ∀ step ∈ steps, step.Yields evidence answer) ∧
    (answer ≠ go → ∃ step ∈ steps, step.Yields evidence answer)

-- A script must settle itself: what it asks for is not a matter of evidence.
def Yields (evidence : Evidence) : Goal → Bool → Prop
  | .all steps, answer => StepsYield true evidence steps answer
  | .any steps, answer => StepsYield false evidence steps answer
  | .consult script, answer => script.outcome? = some (.ok answer)
  | .refuse _, _ => False

def steps : Goal → List Step
  | .all steps => steps
  | .any steps => steps
  | _ => []

-- Scripts of the goal neither compare nor change the registry.
def Settled : Goal → Prop
  | .consult script => script.outcome? ≠ none
  | _ => True

-- Goals that are worked through step by step.
def Loop : Goal → Prop
  | .all _ => True
  | .any _ => True
  | _ => False

theorem Loop.settled {g : Goal} (loop : g.Loop) : g.Settled := by
  cases g with
  | all steps | any steps | refuse fault => trivial
  | consult script => exact loop.elim

@[simp] theorem answer_yields {evidence : Evidence} {b answer : Bool} :
    (Goal.answer b).Yields evidence answer ↔ b = answer := by
  cases b <;> cases answer <;> simp [Goal.answer, Yields, StepsYield, Step.Yields]

@[simp] theorem compare_yields {evidence : Evidence} {left right : Site} :
    (Goal.compare left right).Yields evidence true ↔ evidence left right true := by
  simp [Goal.compare, Yields, StepsYield, Step.Yields]

@[simp] theorem all_yields {evidence : Evidence} {steps : List Step} :
    (Goal.all steps).Yields evidence true ↔ ∀ step ∈ steps, step.Yields evidence true := by
  simp [Yields, StepsYield]

@[simp] theorem any_yields {evidence : Evidence} {steps : List Step} :
    (Goal.any steps).Yields evidence true ↔ ∃ step ∈ steps, step.Yields evidence true := by
  simp [Yields, StepsYield]

section
variable {evidence other : Evidence} {answer : Bool}

theorem yields_mono {g : Goal}
    (stronger : ∀ left right, .compare left right ∈ g.steps →
      evidence left right answer → other left right answer)
    (known : g.Yields evidence answer) : g.Yields other answer := by
  have lift : ∀ step ∈ g.steps, step.Yields evidence answer → step.Yields other answer := by
    intro step member yields
    cases step with
    | holds b => exact yields
    | compare left right => exact stronger left right member yields
  cases g with
  | all steps | any steps =>
    refine ⟨fun same step member => lift step member (known.1 same step member), fun differs => ?_⟩
    obtain ⟨step, member, yields⟩ := known.2 differs
    exact ⟨step, member, lift step member yields⟩
  | consult script => exact known
  | refuse fault => exact known

-- Two different answers rest on a comparison about which the evidence differs.
theorem yields_conflict {g : Goal} (one : g.Yields evidence answer)
    (two : g.Yields other (!answer)) :
    ∃ left right, .compare left right ∈ g.steps ∧ evidence left right answer ∧
      other left right (!answer) := by
  have meet : ∀ step ∈ g.steps, step.Yields evidence answer → step.Yields other (!answer) →
      ∃ left right, .compare left right ∈ g.steps ∧ evidence left right answer ∧
        other left right (!answer) := by
    intro step member yields contrary
    cases step with
    | holds b =>
      simp only [Step.Yields] at yields contrary
      cases answer <;> simp_all
    | compare left right => exact ⟨left, right, member, yields, contrary⟩
  have loop : ∀ go steps, g.steps = steps → StepsYield go evidence steps answer →
      StepsYield go other steps (!answer) → ∃ left right, .compare left right ∈ g.steps ∧
        evidence left right answer ∧ other left right (!answer) := by
    intro go steps same first second
    subst same
    by_cases all : answer = go
    · obtain ⟨step, member, contrary⟩ := second.2 (by cases answer <;> simp_all)
      exact meet step member (first.1 all step member) contrary
    · obtain ⟨step, member, yields⟩ := first.2 all
      exact meet step member yields (second.1 (by cases answer <;> simp_all) step member)
  cases g with
  | all steps => exact loop true steps rfl one two
  | any steps => exact loop false steps rfl one two
  | consult script =>
    simp only [Yields] at one two
    rw [one] at two
    cases answer <;> simp at two
  | refuse fault => exact one.elim

end

end Goal

-- What is kept account of while worlds change: which worlds are in order, how one may follow
-- another, and what is known in a world. Evidence from before a change still counts after it.
structure Account where
  ready : World → Prop
  moves : World → World → Prop
  evidence : World → Evidence
  refl : ∀ w, moves w w
  trans : ∀ {u v w}, moves u v → moves v w → moves u w
  stays : ∀ {v w left right b}, moves v w → evidence v left right b → evidence w left right b

def Account.Keeps (account : Account) (compare : Comparer) (left right : Site) : Prop :=
  ∀ w, account.ready w → account.ready (compare left right w).2 ∧
    account.moves w (compare left right w).2 ∧ ∀ b, (compare left right w).1 = .ok b →
      account.evidence (compare left right w).2 left right b

namespace Goal

-- What every comparison of a run keeps, the run keeps, and its answer rests on theirs.
theorem run_yields {account : Account} {go : Bool} {compare : Comparer} {steps : List Step}
    (each : ∀ left right, .compare left right ∈ steps → account.Keeps compare left right)
    {w : World} (start : account.ready w) :
    account.ready (run go compare steps w).2 ∧ account.moves w (run go compare steps w).2 ∧
      ∀ b, (run go compare steps w).1 = .ok b →
        StepsYield go (account.evidence (run go compare steps w).2) steps b := by
  induction steps generalizing w with
  | nil =>
    refine ⟨start, account.refl w, ?_⟩
    intro b returned
    cases returned
    exact ⟨fun _ _ member => absurd member (by simp), fun differs => absurd rfl differs⟩
  | cons step rest ih =>
    have later : ∀ left right, .compare left right ∈ rest → account.Keeps compare left right :=
      fun left right member => each left right (List.mem_cons_of_mem _ member)
    -- Going on after a step that answered `go`: the step joins the others.
    have proceed : ∀ v, account.ready v → account.moves w v → step.Yields (account.evidence v) go →
        account.ready (run go compare rest v).2 ∧ account.moves w (run go compare rest v).2 ∧
          ∀ b, (run go compare rest v).1 = .ok b →
            StepsYield go (account.evidence (run go compare rest v).2) (step :: rest) b := by
      intro v ready moved yields
      obtain ⟨last, change, answers⟩ := ih later ready
      refine ⟨last, account.trans moved change, fun b returned => ?_⟩
      obtain ⟨every, one⟩ := answers b returned
      refine ⟨fun same s member => ?_, fun differs => ?_⟩
      · rcases List.mem_cons.mp member with rfl | member
        · subst same
          cases s with
          | holds _ => exact yields
          | compare _ _ => exact account.stays change yields
        · exact every same s member
      · obtain ⟨s, member, found⟩ := one differs
        exact ⟨s, List.mem_cons_of_mem _ member, found⟩
    cases step with
    | holds b =>
      by_cases same : b = go
      · subst same
        simp only [run, if_true]
        exact proceed w start (account.refl w) rfl
      · simp only [run, same, if_false]
        refine ⟨start, account.refl w, fun answer returned => ?_⟩
        cases returned
        exact ⟨fun equal => absurd equal same, fun _ => ⟨_, List.mem_cons_self, rfl⟩⟩
    | compare left right =>
      obtain ⟨kept, moved, answered⟩ := each left right List.mem_cons_self w start
      cases ran : compare left right w with
      | mk outcome v =>
        simp only [ran] at kept moved answered
        cases outcome with
        | error fault =>
          simp only [run, ran]
          exact ⟨kept, moved, fun b returned => by cases returned⟩
        | ok b =>
          by_cases same : b = go
          · simp only [run, ran, same, if_true]
            subst same
            exact proceed v kept moved (answered _ rfl)
          · simp only [run, ran, same, if_false]
            refine ⟨kept, moved, fun answer returned => ?_⟩
            cases returned
            exact ⟨fun equal => absurd equal same,
              fun _ => ⟨_, List.mem_cons_self, answered _ rfl⟩⟩

end Goal

open Goal in
-- The same for goals: a script that settles itself leaves the world alone.
theorem Engine.pursue_yields (account : Account) {compare : Comparer} {g : Goal}
    (settled : g.Settled)
    (each : ∀ left right, .compare left right ∈ g.steps → account.Keeps compare left right)
    {w : World} (start : account.ready w) :
    account.ready (pursue compare g w).2 ∧ account.moves w (pursue compare g w).2 ∧
      ∀ b, (pursue compare g w).1 = .ok b →
        g.Yields (account.evidence (pursue compare g w).2) b := by
  cases g with
  | all steps =>
    simp only [pursue, runAll_eq]
    exact run_yields each start
  | any steps =>
    simp only [pursue, runAny_eq]
    exact run_yields each start
  | consult script =>
    cases script with
    | answer value =>
      refine ⟨start, account.refl w, fun b returned => ?_⟩
      cases returned
      rfl
    | fail fault => exact ⟨start, account.refl w, fun b returned => by cases returned⟩
    | unregister kind next => exact absurd rfl settled
    | compare question next => exact absurd rfl settled
  | refuse fault => exact ⟨start, account.refl w, fun b returned => by cases returned⟩

-- A fault of a run is the fault of one of its comparisons, in a world that the run got to.
theorem Goal.run_fault {account : Account} {go : Bool} {compare : Comparer} {steps : List Step}
    (each : ∀ left right, .compare left right ∈ steps → account.Keeps compare left right)
    {w : World} (start : account.ready w) {fault : Fault}
    (failed : (run go compare steps w).1 = .error fault) :
    ∃ x y v, .compare x y ∈ steps ∧ account.ready v ∧ account.moves w v ∧
      (compare x y v).1 = .error fault := by
  induction steps generalizing w with
  | nil => cases failed
  | cons step rest ih =>
    have later : ∀ left right, .compare left right ∈ rest → account.Keeps compare left right :=
      fun left right member => each left right (List.mem_cons_of_mem _ member)
    have proceed : ∀ v, account.ready v → account.moves w v →
        (run go compare rest v).1 = .error fault → ∃ x y u, .compare x y ∈ step :: rest ∧
          account.ready u ∧ account.moves w u ∧ (compare x y u).1 = .error fault := by
      intro v ready moved failed
      obtain ⟨x, y, u, member, ready', moved', faulty⟩ := ih later ready failed
      exact ⟨x, y, u, List.mem_cons_of_mem _ member, ready', account.trans moved moved', faulty⟩
    cases step with
    | holds b =>
      simp only [run] at failed
      split at failed
      · exact proceed w start (account.refl w) failed
      · cases failed
    | compare left right =>
      obtain ⟨kept, moved, -⟩ := each left right List.mem_cons_self w start
      cases ran : compare left right w with
      | mk outcome v =>
        simp only [ran] at kept moved
        simp only [run, ran] at failed
        cases outcome with
        | error other =>
          refine ⟨left, right, w, List.mem_cons_self, start, account.refl w, ?_⟩
          rw [ran]
          exact failed
        | ok b =>
          simp only at failed
          split at failed
          · exact proceed v kept moved failed
          · cases failed

-- The same for goals, which may also refuse or consult a script that fails.
theorem Engine.pursue_fault (account : Account) {compare : Comparer} {g : Goal}
    (settled : g.Settled)
    (each : ∀ left right, .compare left right ∈ g.steps → account.Keeps compare left right)
    {w : World} (start : account.ready w) {fault : Fault}
    (failed : (pursue compare g w).1 = .error fault) :
    (∃ x y v, .compare x y ∈ g.steps ∧ account.ready v ∧ account.moves w v ∧
      (compare x y v).1 = .error fault) ∨ g = .refuse fault ∨
    ∃ script, g = .consult script ∧ script.outcome? = some (.error fault) := by
  cases g with
  | all steps =>
    simp only [pursue, Goal.runAll_eq] at failed
    exact .inl (Goal.run_fault each start failed)
  | any steps =>
    simp only [pursue, Goal.runAny_eq] at failed
    exact .inl (Goal.run_fault each start failed)
  | consult script =>
    cases script with
    | answer value => cases failed
    | fail other =>
      cases failed
      exact .inr (.inr ⟨_, rfl, rfl⟩)
    | unregister kind next => exact absurd rfl settled
    | compare question next => exact absurd rfl settled
  | refuse other =>
    cases failed
    exact .inr (.inl rfl)

-- If every comparison comes to an answer, so does a goal that is worked through step by step.
theorem Engine.pursue_answers (account : Account) {compare : Comparer} {g : Goal} (loop : g.Loop)
    (each : ∀ left right, .compare left right ∈ g.steps → account.Keeps compare left right)
    (answers : ∀ left right v, .compare left right ∈ g.steps → account.ready v →
      ∃ b, (compare left right v).1 = .ok b)
    {w : World} (start : account.ready w) : ∃ b, (pursue compare g w).1 = .ok b := by
  cases outcome : (pursue compare g w).1 with
  | ok b => exact ⟨b, rfl⟩
  | error fault =>
    rcases pursue_fault account loop.settled each start outcome with
      ⟨x, y, v, inside, ready, -, faulty⟩ | refused | ⟨script, consulted, -⟩
    · obtain ⟨b, answered⟩ := answers x y v inside ready
      rw [faulty] at answered
      cases answered
    · rw [refused] at loop
      exact loop.elim
    · rw [consulted] at loop
      exact loop.elim

section
open Classical

-- Comparisons that are answered by looking a pair up.
noncomputable def Comparer.among (pairs : Set (Site × Site)) : Comparer := fun left right w =>
  (.ok (decide ((left, right) ∈ pairs)), w)

-- With every comparison answered, a goal that has an answer gives it.
theorem Engine.pursue_among {pairs : Set (Site × Site)} {g : Goal} {w : World} {answer : Bool}
    (settled : g.Settled) :
    (pursue (.among pairs) g w).1 = .ok answer ↔
      g.Yields (fun left right b => (left, right) ∈ pairs ↔ b = true) answer := by
  have forward : ∀ b, (pursue (.among pairs) g w).1 = .ok b →
      g.Yields (fun left right b => (left, right) ∈ pairs ↔ b = true) b := by
    let looking : Account :=
      { ready := fun _ => True
        moves := fun _ _ => True
        evidence := fun _ left right b => (left, right) ∈ pairs ↔ b = true
        refl := fun _ => trivial
        trans := fun _ _ => trivial
        stays := fun _ known => known }
    refine (pursue_yields looking settled (fun left right _ w _ => ?_) trivial).2.2
    refine ⟨trivial, trivial, fun b returned => ?_⟩
    cases returned
    simp [looking]
  refine ⟨forward answer, fun yields => ?_⟩
  have total : ∀ go steps w, ∃ b, (Goal.run go (.among pairs) steps w).1 = .ok b := by
    intro go steps
    induction steps with
    | nil => exact fun w => ⟨go, rfl⟩
    | cons step rest ih =>
      intro w
      cases step with
      | holds b =>
        simp only [Goal.run]
        split
        · exact ih w
        · exact ⟨b, rfl⟩
      | compare left right =>
        simp only [Goal.run, Comparer.among]
        split
        · exact ih w
        · exact ⟨_, rfl⟩
  have answered : ∃ b, (pursue (.among pairs) g w).1 = .ok b := by
    cases g with
    | all steps => simpa only [pursue, Goal.runAll_eq] using total true steps w
    | any steps => simpa only [pursue, Goal.runAny_eq] using total false steps w
    | consult script =>
      cases script with
      | answer value => exact ⟨_, rfl⟩
      | fail fault => simp [Goal.Yields, Script.outcome?] at yields
      | unregister kind next => exact absurd rfl settled
      | compare question next => exact absurd rfl settled
    | refuse fault => exact yields.elim
  obtain ⟨b, returned⟩ := answered
  by_cases same : b = answer
  · rw [returned, same]
  · have opposite : b = !answer := by cases b <;> cases answer <;> simp_all
    subst opposite
    obtain ⟨left, right, _, one, two⟩ := Goal.yields_conflict yields (forward _ returned)
    cases answer <;> simp_all

end

section
variable {related : Site × Site → Site × Site → Prop}

def Step.Matches (related : Site × Site → Site × Site → Prop) : Step → Step → Prop
  | .holds b, .holds c => b = c
  | .compare left right, .compare left' right' => related (left, right) (left', right')
  | _, _ => False

-- Neither the order of the steps nor how often one occurs matters.
structure StepsMatch (related : Site × Site → Site × Site → Prop) (steps steps' : List Step) :
    Prop where
  forth : ∀ step ∈ steps, ∃ step' ∈ steps', step.Matches related step'
  back : ∀ step' ∈ steps', ∃ step ∈ steps, step.Matches related step'

inductive Goal.Matches (related : Site × Site → Site × Site → Prop) : Goal → Goal → Prop
  | all {steps steps' : List Step} : StepsMatch related steps steps' →
    Matches related (.all steps) (.all steps')
  | any {steps steps' : List Step} : StepsMatch related steps steps' →
    Matches related (.any steps) (.any steps')
  | consult {script script' : Script} : script.outcome? = script'.outcome? →
    Matches related (.consult script) (.consult script')
  | refuse {fault fault' : Fault} : Matches related (.refuse fault) (.refuse fault')

theorem Goal.answer_matches (b : Bool) : Goal.Matches related (.answer b) (.answer b) := by
  refine .all ⟨?_, ?_⟩ <;> simp [Step.Matches]

theorem Goal.compare_matches {left right left' right' : Site}
    (same : related (left, right) (left', right')) :
    Goal.Matches related (.compare left right) (.compare left' right') := by
  refine .all ⟨?_, ?_⟩ <;> simpa [Step.Matches] using same

-- Goals that match come out alike, as far as evidence carries over between related pairs.
theorem Goal.yields_transfer {evidence other : Evidence} {answer : Bool} {g g' : Goal}
    (matching : g.Matches related g')
    (carries : ∀ p q, related p q → evidence p.1 p.2 answer → other q.1 q.2 answer)
    (known : g.Yields evidence answer) : g'.Yields other answer := by
  have carry : ∀ step step' : Step, step.Matches related step' → step.Yields evidence answer →
      step'.Yields other answer := by
    intro step step' same yields
    cases step with
    | holds b =>
      cases step' with
      | holds c =>
        cases same
        exact yields
      | compare left right => exact same.elim
    | compare left right =>
      cases step' with
      | holds c => exact same.elim
      | compare left' right' => exact carries _ _ same yields
  have loop : ∀ go steps steps', StepsMatch related steps steps' →
      StepsYield go evidence steps answer → StepsYield go other steps' answer := by
    intro go steps steps' ⟨forth, back⟩ ⟨every, one⟩
    refine ⟨fun same step' member => ?_, fun differs => ?_⟩
    · obtain ⟨step, found, matched⟩ := back step' member
      exact carry step step' matched (every same step found)
    · obtain ⟨step, found, yields⟩ := one differs
      obtain ⟨step', member, matched⟩ := forth step found
      exact ⟨step', member, carry step step' matched yields⟩
  cases matching with
  | all steps => exact loop _ _ _ steps known
  | any steps => exact loop _ _ _ steps known
  | consult same => exact same.symm.trans known
  | refuse => exact known

end

end Assignability
