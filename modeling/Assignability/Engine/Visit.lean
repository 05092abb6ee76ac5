import Assignability.Engine.World
import Assignability.Template

namespace Assignability

-- A finished answer that used the assumed answer of an enclosing pair is not remembered.

abbrev Comparer := Site → Site → Run Bool

namespace Goal

-- Stops at the first step that fails.
def runAll (compare : Comparer) : List Step → Run Bool
  | [], w => (.ok true, w)
  | .holds b :: rest, w => if b then runAll compare rest w else (.ok false, w)
  | .compare left right :: rest, w =>
    match compare left right w with
    | (.ok true, w) => runAll compare rest w
    | other => other

-- Stops at the first step that succeeds.
def runAny (compare : Comparer) : List Step → Run Bool
  | [], w => (.ok false, w)
  | .holds b :: rest, w => if b then (.ok true, w) else runAny compare rest w
  | .compare left right :: rest, w =>
    match compare left right w with
    | (.ok false, w) => runAny compare rest w
    | other => other

end Goal

def Script.run (ask : Question → Run Bool) : Script → Run Bool
  | .answer value, w => (.ok value.truth, w)
  | .fail fault, w => (.error fault, w)
  | .unregister kind next, w =>
    let (removed, w) := w.unregister kind
    (next removed).run ask w
  | .compare question next, w =>
    let (reply, w) := ask question w
    (next reply).run ask w

namespace Engine

-- The scope keeps its identity when nothing was added.
def prepare (site : Site) : Run Site := fun w =>
  match site.scope.dereference site.schema with
  | .error fault => (.error fault, w)
  | .ok (s, scope) =>
    let (scopeMark, w) :=
      if scope.length = site.scope.length then (site.scopeMark, w) else w.fresh
    let (s, w) := match s.shape with
      | .template parts => w.place (Template.resolve parts)
      | _ => (s, w)
    match w.registry.ensureKnown s with
    | .error fault => (.error fault, w)
    | .ok _ => (.ok ⟨s, scope, scopeMark⟩, w)

-- The outermost query of an engine starts and ends with nothing remembered; a query asked while the
-- engine is busy shares what it remembers.
def query (run : Run Bool) : Run Bool := fun w =>
  if w.engine.active.isEmpty then
    let (outcome, w) := run (w.setEngine reset)
    (outcome, w.setEngine reset)
  else run w

-- The session's engine waits meanwhile.
def queryFresh (settings : Settings) (run : Run Bool) : Run Bool := fun w =>
  let session := w.waiting.getD w.engine
  let (outcome, after) := query run { w with engine := { settings }, waiting := some session }
  let session := after.waiting.getD session
  match w.waiting with
  | none => (outcome, { after with engine := session, waiting := none })
  | some _ => (outcome, { after with engine := w.engine, waiting := some session })

def queryShared (run : Run Bool) : Run Bool := fun w =>
  match w.waiting with
  | none => query run w
  | some session =>
    let (outcome, after) := query run { w with engine := session, waiting := none }
    (outcome, { after with engine := w.engine, waiting := some after.engine })

-- A value that is no schema cannot be prepared.
def compareValues (compare : Comparer) (question : Question) : Run Bool := fun w =>
  match question.left, question.right with
  | .schema l, .schema r =>
    let (l, w) := w.site l question.leftScope
    let (r, w) := w.site r question.rightScope
    compare l r w
  | .schema l, _ =>
    let (l, w) := w.site l question.leftScope
    match prepare l w with
    | (.error fault, w) => (.error fault, w)
    | (.ok _, w) => (.error .noAttribute, w)
  | _, _ => (.error .noAttribute, w)

def ask (compare : Comparer) (question : Question) : Run Bool := fun w =>
  match question.engine with
  | .shared => queryShared (compareValues compare question) w
  | .fresh =>
    match Settings.build w.environment [] with
    | .error fault => (.error fault, w)
    | .ok settings => queryFresh settings (compareValues compare question) w

def pursue (compare : Comparer) : Goal → Run Bool
  | .all steps => Goal.runAll compare steps
  | .any steps => Goal.runAny compare steps
  | .consult script => script.run (ask compare)
  | .refuse fault => fun w => (.error fault, w)

def enter (e : Engine) (left right : Site) : Engine :=
  { e with
    active := (.of left right, e.active.length) :: e.active
    assumed := none
    begun := (left, right) :: e.begun }

def above (depth : Nat) : Option Nat → Option Nat
  | some a => if a < depth then some a else none
  | none => none

-- Assumptions on the pair itself end here, shallower ones pass on.
def leave (e : Engine) (key : PairKey) (depth : Nat) (outer : Option Nat) : Engine :=
  { e with
    active := e.active.filter (·.1 != key)
    assumed := shallower outer (above depth e.assumed) }

def remember (e : Engine) (key : PairKey) (result : Bool) : Engine :=
  { e with results := (key, result) :: e.results }

def assume (e : Engine) (depth : Nat) : Engine :=
  { e with assumed := shallower e.assumed (some depth) }

def compareNew (compare : Comparer) (left right : Site) : Run Bool := fun w =>
  let key := PairKey.of left right
  let depth := w.engine.active.length
  let outer := w.engine.assumed
  let goal := Rule.goal w.engine.settings w.registry w.supply left right
  let entered := { w with supply := w.supply + Rule.marksUsed }.setEngine (·.enter left right)
  let (outcome, w) := pursue compare goal entered
  let final := (above depth w.engine.assumed).isNone
  let w := w.setEngine (·.leave key depth outer)
  match outcome with
  | .error fault => (.error fault, w)
  | .ok result =>
    let w := if w.engine.settings.memoize && final then w.setEngine (·.remember key result) else w
    let w := if w.engine.settings.trace then
        w.record (.compared key left.schema.kind right.schema.kind result)
      else w
    (.ok result, w)

def comparePrepared (compare : Comparer) (left right : Site) : Run Bool := fun w =>
  let key := PairKey.of left right
  match w.engine.results.lookup key with
  | some result => (.ok result, w)
  | none =>
    match w.engine.active.lookup key with
    | some depth =>
      let assumed := w.engine.settings.cycleResult
      let w := w.record (.cycle key left.schema.kind right.schema.kind assumed)
      (.ok assumed, w.setEngine (·.assume depth))
    | none => compareNew compare left right w

def visit : (depth : Nat) → Comparer
  | 0, _, _, w => (.error .tooDeep, w)
  | depth + 1, left, right, w =>
    match prepare left w with
    | (.error fault, w) => (.error fault, w)
    | (.ok left, w) =>
      match prepare right w with
      | (.error fault, w) => (.error fault, w)
      | (.ok right, w) => comparePrepared (visit depth) left right w

def compareSchemas (depth : Nat) (left right : Schema) (leftScope rightScope : Scope) : Run Bool :=
  fun w =>
    let (left, w) := w.site left leftScope
    let (right, w) := w.site right rightScope
    visit depth left right w

end Engine

end Assignability
