import Assignability.Proofs.Answers
import Assignability.Proofs.Termination
import Mathlib.Logic.Relation
import Mathlib.Order.Filter.AtTopBot.Basic
import Mathlib.Order.Filter.Finite
import Mathlib.Order.WellFounded

namespace Assignability

open Relation (ReflTransGen)

-- The items of a string are strings again, made anew each time, so no pair of a string and a record
-- that is indexed by numbers is ever met twice.

def Schema.isTextual (s : Schema) : Bool :=
  match s.shape with
  | .basic .string => true
  | .literal (.text _) => true
  | _ => false

-- Strings, and the numbers that their lengths are.
def Schema.isStringOrNumber (s : Schema) : Bool :=
  match s.shape with
  | .basic .number => true
  | _ => s.isTextual

def Schema.variants (s : Schema) : List Schema :=
  match s.shape with
  | .union variants => variants
  | .intersect variants => variants
  | _ => []

theorem variant_child {s v : Schema} (member : v ∈ s.variants) : v ∈ s.children := by
  unfold Schema.variants at member
  split at member
  · rename_i shape
    simpa [Schema.children, shape] using member
  · rename_i shape
    simpa [Schema.children, shape] using member
  · cases member

theorem variants_head {s v : Schema} (head : s.variants.head? = some v) :
    ∃ rest, s.shape = .union (v :: rest) ∨ s.shape = .intersect (v :: rest) := by
  unfold Schema.variants at head
  split at head
  · rename_i shape
    obtain ⟨rest, rfl⟩ := List.head?_eq_some_iff.mp head
    exact ⟨rest, .inl shape⟩
  · rename_i shape
    obtain ⟨rest, rfl⟩ := List.head?_eq_some_iff.mp head
    exact ⟨rest, .inr shape⟩
  · cases head

theorem textual_cases {s : Schema} (textual : s.isTextual = true) :
    s.shape = .basic .string ∨ ∃ text, s.shape = .literal (.text text) := by
  unfold Schema.isTextual at textual
  split at textual
  · exact .inl (by assumption)
  · exact .inr ⟨_, by assumption⟩
  · cases textual

theorem stringOrNumber_cases {s : Schema} (plain : s.isStringOrNumber = true) :
    s.shape = .basic .number ∨ s.isTextual = true := by
  unfold Schema.isStringOrNumber at plain
  split at plain
  · exact .inl (by assumption)
  · exact .inr plain

theorem stringOrNumber_shape {s : Schema} (plain : s.isStringOrNumber = true) :
    s.shape = .basic .number ∨ s.shape = .basic .string ∨
      ∃ text, s.shape = .literal (.text text) :=
  (stringOrNumber_cases plain).imp_right textual_cases

theorem stringOrNumber_of_textual {s : Schema} (textual : s.isTextual = true) :
    s.isStringOrNumber = true := by
  unfold Schema.isStringOrNumber
  split
  · rfl
  · exact textual

namespace Rule

-- What a string or a number asks: of variants the same, of the only property `length` a number, and
-- of the values of a record indexed by numbers another string.
inductive TextAsks (mark : Nat) (l r : Site) : Site → Site → Prop
  | variant {v : Schema} : v ∈ r.schema.variants → TextAsks mark l r l (r.to v)
  | length {s : Schema} {additional : Value} : l.schema.isTextual = true →
    r.schema.shape = .object [("length", s)] additional →
    TextAsks mark l r (.bare (lengthMember mark)) (r.to s)
  | item {key value : Schema} : l.schema.isTextual = true → r.schema.shape = .record key value →
    key.isNumericKey = true → TextAsks mark l r (l.to (marked mark (.basic .string))) (r.to value)

section
variable {settings : Settings} {registry : Registry} {mark : Nat} {l r x y : Site}

theorem TextAsks.onVariant (asks : TextAsks mark l r x y)
    (noObject : ∀ properties additional, r.schema.shape ≠ .object properties additional)
    (noRecord : ∀ key value, r.schema.shape ≠ .record key value) :
    x = l ∧ ∃ v ∈ r.schema.variants, y = r.to v := by
  cases asks with
  | variant member => exact ⟨rfl, _, member, rfl⟩
  | length _ shape => exact absurd shape (noObject _ _)
  | item _ shape _ => exact absurd shape (noRecord _ _)

theorem goal_union (plain : l.schema.isStringOrNumber = true) {variants : List Schema}
    (shape : r.schema.shape = .union variants) : goal settings registry mark l r =
      .any (variants.map fun v => .compare l (r.to v)) := by
  rcases stringOrNumber_shape plain with own | own | ⟨text, own⟩ <;> simp [goal, own, shape]

theorem goal_intersect (plain : l.schema.isStringOrNumber = true) {variants : List Schema}
    (shape : r.schema.shape = .intersect variants) : goal settings registry mark l r =
      .all (variants.map fun v => .compare l (r.to v)) := by
  rcases stringOrNumber_shape plain with own | own | ⟨text, own⟩ <;> simp [goal, own, shape]

theorem goal_record (textual : l.schema.isTextual = true) {key value : Schema}
    (shape : r.schema.shape = .record key value) : goal settings registry mark l r =
      if key.isNumericKey then .compare (l.to (marked mark (.basic .string))) (r.to value)
      else .answer false := by
  rcases textual_cases textual with string | ⟨text, literal⟩
  · simp [goal, string, shape, byKind, primitive, recordRight]
  · simp [goal, literal, shape, byKind, Rule.literal, recordRight]

theorem goal_object (textual : l.schema.isTextual = true) {properties : List (String × Schema)}
    {additional : Value} (shape : r.schema.shape = .object properties additional) :
    goal settings registry mark l r = hasOnly properties r "length" (lengthMember mark) := by
  rcases textual_cases textual with string | ⟨text, literal⟩
  · simp [goal, string, shape, byKind, primitive, objectRight]
  · simp [goal, literal, shape, byKind, Rule.literal, objectRight]

theorem goal_textAsks (plain : l.schema.isStringOrNumber = true)
    (asked : .compare x y ∈ (goal settings registry mark l r).steps) : TextAsks mark l r x y := by
  cases shape : r.schema.shape with
  | union variants =>
    rw [goal_union plain shape] at asked
    obtain ⟨v, member, same⟩ := List.mem_map.mp asked
    cases same
    exact .variant (by simpa [Schema.variants, shape] using member)
  | intersect variants =>
    rw [goal_intersect plain shape] at asked
    obtain ⟨v, member, same⟩ := List.mem_map.mp asked
    cases same
    exact .variant (by simpa [Schema.variants, shape] using member)
  | object properties additional =>
    rcases stringOrNumber_cases plain with number | textual
    · simp [goal, number, shape, Goal.steps, Goal.answer, byKind, primitive, objectRight] at asked
    · rw [goal_object textual shape] at asked
      unfold hasOnly at asked
      split at asked
      · simp [Goal.answer, Goal.steps] at asked
      · split at asked
        · rename_i same
          simp only [Goal.compare, Goal.steps, List.mem_singleton, Step.compare.injEq] at asked
          obtain ⟨rfl, rfl⟩ := asked
          rw [beq_iff_eq.mp same] at shape
          exact .length textual shape
        · simp [Goal.answer, Goal.steps] at asked
      · simp [Goal.answer, Goal.steps] at asked
  | record key value =>
    rcases stringOrNumber_cases plain with number | textual
    · simp [goal, number, shape, Goal.steps, Goal.answer, byKind, primitive, recordRight] at asked
    · rw [goal_record textual shape] at asked
      split at asked
      · rename_i numeric
        simp only [Goal.compare, Goal.steps, List.mem_singleton, Step.compare.injEq] at asked
        obtain ⟨rfl, rfl⟩ := asked
        exact .item textual shape numeric
      · simp [Goal.answer, Goal.steps] at asked
  | basic b =>
    rcases stringOrNumber_shape plain with own | own | ⟨text, own⟩ <;> cases b <;>
      simp [goal, own, shape, Goal.steps, Goal.answer, byKind, primitive, Rule.literal] at asked
  | _ =>
    rcases stringOrNumber_shape plain with own | own | ⟨text, own⟩ <;>
      simp [goal, own, shape, Goal.steps, Goal.answer, byKind, primitive, Rule.literal] at asked

theorem plain_loop (plain : l.schema.isStringOrNumber = true) :
    (goal settings registry mark l r).Loop := by
  have own := stringOrNumber_shape plain
  rcases goal_cases settings registry mark l r with loop | ⟨_, _, unprepared⟩ | ⟨kind, _, isUser, _⟩
  · exact loop
  · rcases own with own | own | ⟨text, own⟩ <;>
      simp [Schema.isTemplate, Schema.isReference, own] at unprepared
  · rcases own with own | own | ⟨text, own⟩ <;>
      simp [Schema.kind, own, Shape.kind, Basic.kind] at isUser

end

end Rule

-- A schema in its scope, whatever their identity.
abbrev Place := Schema × Scope

namespace Place

-- A variant of the union or intersection that a place comes to.
def Variant (p q : Place) : Prop :=
  ∃ t, p.2.dereference p.1 = .ok (t, q.2) ∧ q.1 ∈ t.variants

-- The one that is tried first.
def First (p q : Place) : Prop :=
  ∃ t, p.2.dereference p.1 = .ok (t, q.2) ∧ t.variants.head? = some q.1

-- The values of the record indexed by numbers that a place comes to.
def Item (p q : Place) : Prop :=
  ∃ t key, p.2.dereference p.1 = .ok (t, q.2) ∧ t.shape = .record key q.1 ∧ key.isNumericKey = true

-- The property `length` of the object that a place comes to, if it has no other.
def Length (p q : Place) : Prop :=
  ∃ t additional, p.2.dereference p.1 = .ok (t, q.2) ∧
    t.shape = .object [("length", q.1)] additional

-- The next record indexed by numbers, through any choice of variants, and without a choice.
def Next (p q : Place) : Prop := ∃ r, ReflTransGen Variant p r ∧ Item r q

def FirstNext (p q : Place) : Prop := ∃ r, ReflTransGen First p r ∧ Item r q

-- What is looked at when a string is compared.
def Looks (p q : Place) : Prop := Variant p q ∨ Item p q ∨ Length p q

def Resolves (registry : Registry) (p : Place) : Prop :=
  ∃ t scope, p.2.dereference p.1 = .ok (t, scope) ∧ registry.knows t.kind = true

-- Everything that is looked at from here on is found, and among the ground.
structure Sound (ground : List Schema) (registry : Registry) (p : Place) : Prop where
  schema : p.1 ∈ ground
  scope : ∀ e ∈ p.2, e ∈ ground
  resolves : ∀ q, ReflTransGen Looks p q → q.Resolves registry

-- Records indexed by numbers follow one another forever, without a choice.
def Endless (p : Place) : Prop := ∃ f : Nat → Place, f 0 = p ∧ ∀ n, FirstNext (f n) (f (n + 1))

-- How many variants it is to the next of them.
def Ahead : Nat → Place → Prop
  | 0, p => ∃ q, Item p q ∧ Endless q
  | n + 1, p => ∃ q, First p q ∧ Ahead n q

section
variable {ground : List Schema} {registry : Registry} {p q : Place}

theorem reached_unique {t t' : Schema} {scope scope' : Scope}
    (reached : p.2.dereference p.1 = .ok (t, scope))
    (reached' : p.2.dereference p.1 = .ok (t', scope')) : t = t' ∧ scope = scope' :=
  Prod.mk.inj (Except.ok.inj (reached.symm.trans reached'))

theorem Length.unique {r : Place} (one : Length p q) (other : Length p r) : q = r := by
  obtain ⟨t, _, reached, shape⟩ := one
  obtain ⟨t', _, reached', shape'⟩ := other
  obtain ⟨rfl, scope⟩ := reached_unique reached reached'
  simp only [shape, Shape.object.injEq, List.cons.injEq, Prod.mk.injEq, true_and,
    and_true] at shape'
  exact Prod.ext shape'.1 scope

theorem Item.unique {r : Place} (one : Item p q) (other : Item p r) : q = r := by
  obtain ⟨t, _, reached, shape, -⟩ := one
  obtain ⟨t', _, reached', shape', -⟩ := other
  obtain ⟨rfl, scope⟩ := reached_unique reached reached'
  refine Prod.ext ?_ scope
  rw [shape] at shape'
  injection shape'

theorem First.unique {r : Place} (one : First p q) (other : First p r) : q = r := by
  obtain ⟨t, reached, head⟩ := one
  obtain ⟨t', reached', head'⟩ := other
  obtain ⟨rfl, scope⟩ := reached_unique reached reached'
  exact Prod.ext (Option.some.inj (head.symm.trans head')) scope

theorem Item.not_first {r : Place} (item : Item p q) (first : First p r) : False := by
  obtain ⟨t, _, reached, shape, -⟩ := item
  obtain ⟨t', reached', head⟩ := first
  obtain ⟨rfl, -⟩ := reached_unique reached reached'
  simp [Schema.variants, shape] at head

theorem eq_of_no_variants {t : Schema} {scope : Scope}
    (reached : p.2.dereference p.1 = .ok (t, scope)) (none : t.variants = [])
    (path : ReflTransGen Variant p q) : q = p := by
  rcases path.cases_head with rfl | ⟨r, ⟨t', reached', member⟩, -⟩
  · rfl
  · obtain ⟨rfl, -⟩ := reached_unique reached reached'
    rw [none] at member
    cases member

theorem Looks.child (looks : Looks p q) :
    ∃ t, p.2.dereference p.1 = .ok (t, q.2) ∧ q.1 ∈ t.children := by
  rcases looks with ⟨t, reached, member⟩ | ⟨t, key, reached, shape, -⟩ |
    ⟨t, additional, reached, shape⟩
  · exact ⟨t, reached, variant_child member⟩
  · exact ⟨t, reached, by simp [Schema.children, shape]⟩
  · exact ⟨t, reached, by simp [Schema.children, shape]⟩

theorem Sound.looks (closed : ∀ s ∈ ground, ∀ c ∈ s.children, c ∈ ground)
    (sound : Sound ground registry p) (looks : Looks p q) : Sound ground registry q := by
  obtain ⟨t, reached, child⟩ := looks.child
  obtain ⟨target, entries⟩ := Scope.dereference_among sound.schema sound.scope reached
  exact ⟨closed t target _ child, entries, fun r path => sound.resolves r (.head looks path)⟩

theorem Endless.ahead (endless : Endless p) : ∃ n, Ahead n p := by
  obtain ⟨f, start, next⟩ := endless
  obtain ⟨r, path, item⟩ := start ▸ next 0
  have after : Endless (f 1) := ⟨fun n => f (n + 1), rfl, fun n => next (n + 1)⟩
  clear start
  induction path using ReflTransGen.head_induction_on with
  | refl => exact ⟨0, f 1, item, after⟩
  | head first _ ih =>
    obtain ⟨n, ahead⟩ := ih
    exact ⟨n + 1, _, first, ahead⟩

theorem Ahead.unique {m n : Nat} (one : Ahead m p) (other : Ahead n p) : m = n := by
  induction m generalizing n p with
  | zero =>
    obtain ⟨q, item, -⟩ := one
    cases n with
    | zero => rfl
    | succ n =>
      obtain ⟨r, first, -⟩ := other
      exact (item.not_first first).elim
  | succ m ih =>
    obtain ⟨q, first, ahead⟩ := one
    cases n with
    | zero =>
      obtain ⟨r, item, -⟩ := other
      exact (item.not_first first).elim
    | succ n =>
      obtain ⟨r, first', ahead'⟩ := other
      rw [first.unique first'] at ahead
      rw [ih ahead ahead']

-- A place leads on exactly as what it comes to does.
theorem Ahead.prepared {n : Nat} {t : Schema} {scope : Scope} (ahead : Ahead n p)
    (reached : p.2.dereference p.1 = .ok (t, scope))
    (again : scope.dereference t = .ok (t, scope)) : Ahead n (t, scope) := by
  cases n with
  | zero =>
    obtain ⟨q, ⟨t', key, reached', item⟩, endless⟩ := ahead
    obtain ⟨rfl, rfl⟩ := reached_unique reached reached'
    exact ⟨q, ⟨t, key, again, item⟩, endless⟩
  | succ n =>
    obtain ⟨q, ⟨t', reached', head⟩, rest⟩ := ahead
    obtain ⟨rfl, rfl⟩ := reached_unique reached reached'
    exact ⟨q, ⟨t, again, head⟩, rest⟩

end

end Place

namespace Engine

open Rule (TextAsks)

theorem plain_concrete {s : Schema} (plain : s.isStringOrNumber = true) :
    s.isReference = false ∧ s.isTemplate = false ∧
      ∀ registry : Registry, registry.knows s.kind = true := by
  rcases stringOrNumber_shape plain with own | own | ⟨text, own⟩ <;>
    simp [Schema.isReference, Schema.isTemplate, Schema.kind, own, Shape.kind, Basic.kind,
      Registry.knows]

-- Strings and numbers only enter their scope.
theorem prepare_plain {site : Site} (plain : site.schema.isStringOrNumber = true) (w : World) :
    ∃ l v, prepare site w = (.ok l, v) ∧ l.schema = site.schema ∧ l.Ready w.registry := by
  obtain ⟨concrete, expanded, known⟩ := plain_concrete plain
  obtain ⟨scopeMark, mark, supply, ran⟩ :=
    @prepare_reached site w _ _ (Scope.dereference_concrete concrete) (known _)
  exact ⟨_, _, ran, by rw [resolved_self expanded], prepare_ready ran⟩

section
variable {registry : Registry} {left right : Site} {w : World}

-- Against something that takes nothing apart, the answer comes at once.
theorem inert_settles (plain : left.schema.isStringOrNumber = true) (depth : Nat)
    (inert : (∃ b, right.schema.shape = .basic b) ∨ ∃ s, right.schema.shape = .literal s) :
    Settles (visit (depth + 1)) left right w := by
  have concrete : right.schema.isReference = false ∧ right.schema.isTemplate = false ∧
      ∀ registry : Registry, registry.knows right.schema.kind = true := by
    rcases inert with ⟨b, shape⟩ | ⟨s, shape⟩
    · cases b <;> simp [Schema.isReference, Schema.isTemplate, Schema.kind, shape, Shape.kind,
        Basic.kind, Registry.knows]
    · simp [Schema.isReference, Schema.isTemplate, Schema.kind, shape, Shape.kind, Registry.knows]
  obtain ⟨l, v, first, same, -⟩ := prepare_plain plain w
  obtain ⟨scopeMark, mark, supply, second⟩ :=
    @prepare_reached right v _ _ (Scope.dereference_concrete concrete.1) (concrete.2.2 _)
  rw [resolved_self concrete.2.1] at second
  have plain' : l.schema.isStringOrNumber = true := same ▸ plain
  refine visit_settles first second (Rule.plain_loop plain') fun x y u _ asked _ => ?_
  obtain ⟨-, v, member, -⟩ := (Rule.goal_textAsks plain' asked).onVariant
    (by rcases inert with ⟨b, shape⟩ | ⟨s, shape⟩ <;> simp [shape])
    (by rcases inert with ⟨b, shape⟩ | ⟨s, shape⟩ <;> simp [shape])
  rcases inert with ⟨b, shape⟩ | ⟨s, shape⟩ <;> simp [Schema.variants, shape] at member

-- An expanded template is a string, a literal, or a union of literals.
theorem expanded_variants {t : Schema} {parts : List Part} (shape : t.shape = .template parts)
    (mark : Nat) : (∀ v ∈ (t.resolved mark).1.variants, ∃ s, v.shape = .literal s) ∧
      (∀ properties additional, (t.resolved mark).1.shape ≠ .object properties additional) ∧
      ∀ key value, (t.resolved mark).1.shape ≠ .record key value := by
  rw [resolved_template shape]
  rcases Template.place_resolve mark parts with ⟨made, -⟩ | ⟨_, made, _⟩ | ⟨strings, made, _⟩ <;>
    rw [made]
  · exact ⟨fun v member => (nomatch member), fun _ _ => nofun, fun _ _ => nofun⟩
  · exact ⟨fun v member => (nomatch member), fun _ _ => nofun, fun _ _ => nofun⟩
  · refine ⟨fun v member => ?_, fun _ _ => nofun, fun _ _ => nofun⟩
    obtain ⟨i, text, -, -, same⟩ := Template.mem_numbered member
    exact ⟨.text text, by rw [same]; rfl⟩

theorem template_settles (plain : left.schema.isStringOrNumber = true) (depth : Nat) {t : Schema}
    {scope : Scope} (reached : right.scope.dereference right.schema = .ok (t, scope))
    {parts : List Part} (shape : t.shape = .template parts) :
    Settles (visit (depth + 2)) left right w := by
  have known : ∀ registry : Registry, registry.knows t.kind = true := by
    simp [Schema.kind, shape, Shape.kind, Registry.knows]
  obtain ⟨l, v, first, same, -⟩ := prepare_plain plain w
  obtain ⟨scopeMark, mark, supply, second⟩ := prepare_reached reached (known v.registry)
  have plain' : l.schema.isStringOrNumber = true := same ▸ plain
  refine visit_settles first second (Rule.plain_loop plain') fun x y u _ asked _ => ?_
  obtain ⟨literals, noObject, noRecord⟩ := expanded_variants shape mark
  obtain ⟨rfl, v, member, rfl⟩ :=
    (Rule.goal_textAsks plain' asked).onVariant noObject noRecord
  exact inert_settles plain' depth (.inr (literals v member))

end

-- Comparisons of these left sides with a place, in any world with this registry.
def SettlesAt (registry : Registry) (lefts : Schema → Prop) (p : Place) (depth : Nat) : Prop :=
  ∀ left right w, lefts left.schema → right.schema = p.1 → right.scope = p.2 →
    w.registry = registry → Settles (visit depth) left right w

-- Those whose measure is small. A left side that is prepared stays as it is.
def Shallow (ground : List Schema) (registry : Registry) (k : Nat) (left right : Site) (w : World) :
    Prop :=
  ∃ m n, (m = 0 → left.Ready registry) ∧ Ranked ground right n ∧
    deepest ground (left, right) (m + n) w.engine.active < k

theorem exists_bound {α : Type} {xs : List α} {holds : α → Nat → Prop}
    (each : ∀ x ∈ xs, ∃ bound, ∀ n, bound ≤ n → holds x n) :
    ∃ bound, ∀ n, bound ≤ n → ∀ x ∈ xs, holds x n := by
  have all : ∀ᶠ n in Filter.atTop, ∀ x ∈ {x | x ∈ xs}, holds x n :=
    (Filter.eventually_all_finite xs.finite_toSet).mpr fun x member =>
      Filter.eventually_atTop.mpr (each x member)
  exact Filter.eventually_atTop.mp all

theorem exists_bound_of_unique {α : Type} {found : α → Prop} {holds : α → Nat → Prop}
    (unique : ∀ x y, found x → found y → x = y)
    (each : ∀ x, found x → ∃ bound, ∀ n, bound ≤ n → holds x n) :
    ∃ bound, ∀ n, bound ≤ n → ∀ x, found x → holds x n := by
  by_cases some : ∃ x, found x
  · obtain ⟨x, isFound⟩ := some
    obtain ⟨bound, settles⟩ := each x isFound
    refine ⟨bound, fun n deep y other => ?_⟩
    rw [unique y x other isFound]
    exact settles n deep
  · exact ⟨0, fun _ _ x isFound => absurd ⟨x, isFound⟩ some⟩

-- How deep comparisons with sites of the ground can nest while the left side stays.
theorem shallow_ground {ground : List Schema} {registry : Registry} {left right : Site}
    (member : right.schema ∈ ground) (entries : ∀ e ∈ right.scope, e ∈ ground) (w : World) :
    Shallow ground registry ((Schema.weightOfAll ground + 2 + ground.length) *
      (keyBound ground + 1) + keyBound ground + 1) left right w := by
  refine ⟨1, _, fun none => (nomatch none), .met member entries, ?_⟩
  have bound := room_le ground right.scope
  exact Nat.lt_succ_of_le (deepest_le _ _ (by omega))

section
variable {ground : List Schema} (closed : ∀ s ∈ ground, ∀ c ∈ s.children, c ∈ ground)
  {registry : Registry}
include closed

-- Going on to a variant uses up a key.
theorem shallow_variant {left right l r : Site} {w v u : World} {k : Nat} {variant : Schema}
    (first : prepare left w = (.ok l, v)) (ready : l.Ready registry)
    (second : prepare right v = (.ok r, u)) (same : w.registry = registry)
    (new : u.engine.active.lookup (.of l r) = none) (member : variant ∈ r.schema.variants)
    (within : Shallow ground registry (k + 1) left right w) {after : World}
    (active : after.engine.active = (entering l r u).engine.active) :
    Shallow ground registry k l (r.to variant) after := by
  obtain ⟨m, n, isReady, ranked, less⟩ := within
  obtain ⟨n', ranked', descends⟩ := prepare_descends ranked second
  obtain ⟨n'', ranked'', descends'⟩ :=
    moves_descends closed ranked' (.enters (variant_child member))
  have stays : Descends ground left m l 0 := by
    rcases Nat.eq_zero_or_pos m with rfl | positive
    · have unchanged := prepare_self (same ▸ isReady rfl)
      cases unchanged.symm.trans first
      exact .refl _ _
    · exact .inl positive
  refine ⟨0, n'', fun _ => ready, ranked'', ?_⟩
  have smaller := deepest_lt u.engine.active.length (stays.pair descends)
    ((Descends.refl l 0).pair descends') new
  have before : u.engine.active = w.engine.active :=
    ((prepare_follows first).trans (prepare_follows second)).active
  rw [← before] at less
  rw [active]
  exact Nat.lt_of_lt_of_le smaller (Nat.le_of_lt_succ less)

-- Between one record and the next the left side stays the same, and going on from variant to
-- variant uses up keys.
theorem stage_settles {lefts : Schema → Prop}
    (plain : ∀ s, lefts s → s.isStringOrNumber = true) {good : Place → Prop}
    (resolves : ∀ p, good p → p.Resolves registry)
    (onward : ∀ p q, good p → Place.Variant p q → good q)
    (leaf : ∀ p, good p → ∃ bound, ∀ depth, bound ≤ depth → ∀ mark l r x y w, lefts l.schema →
      p.2.dereference p.1 = .ok (r.schema, r.scope) → r.schema.variants = [] →
      TextAsks mark l r x y → w.registry = registry → Settles (visit depth) x y w) (k : Nat) :
    ∀ p, good p → ∃ bound, ∀ depth, bound ≤ depth → ∀ left right w, lefts left.schema →
      right.schema = p.1 → right.scope = p.2 → w.registry = registry →
      Shallow ground registry k left right w → Settles (visit depth) left right w := by
  induction k with
  | zero =>
    refine fun p _ => ⟨0, fun depth _ left right w _ _ _ _ within => ?_⟩
    obtain ⟨m, n, -, -, less⟩ := within
    exact absurd less (Nat.not_lt_zero _)
  | succ k ih =>
    intro p holds
    obtain ⟨t, scope, reached, known⟩ := resolves p holds
    rcases template_cases t with ⟨parts, shape⟩ | expanded
    · refine ⟨2, fun depth deep left right w onLeft here inScope same _ => ?_⟩
      obtain ⟨depth, rfl⟩ := Nat.exists_eq_add_of_le' deep
      exact template_settles (plain _ onLeft) depth (by rw [here, inScope, reached]) shape
    · obtain ⟨bound, variants⟩ := exists_bound fun v (member : v ∈ t.variants) =>
        ih (v, scope) (onward p (v, scope) holds ⟨t, reached, member⟩)
      obtain ⟨bound', leaves⟩ := leaf p holds
      refine ⟨max bound bound' + 1,
        fun depth deep left right w onLeft here inScope same within => ?_⟩
      obtain ⟨depth, rfl⟩ := Nat.exists_eq_add_of_le' (Nat.le_trans (Nat.le_add_left 1 _) deep)
      have deepVariants : bound ≤ depth := by omega
      have deepLeaves : bound' ≤ depth := by omega
      obtain ⟨l, v, first, sameLeft, ready⟩ := prepare_plain (plain _ onLeft) w
      have onLeft' : lefts l.schema := sameLeft ▸ onLeft
      have before := prepare_follows first
      obtain ⟨scopeMark, mark, supply, second⟩ := @prepare_reached right v t scope
        (by rw [here, inScope, reached]) (by rw [before.registry, same]; exact known)
      rw [resolved_self expanded] at second
      have both := before.trans (prepare_follows second)
      refine visit_settles first second (Rule.plain_loop (plain _ onLeft')) ?_
      intro x y u new asked follows
      have inOrder : u.registry = registry := follows.registry.trans (both.registry.trans same)
      cases Rule.goal_textAsks (plain _ onLeft') asked with
      | @variant variant member =>
        exact variants depth deepVariants variant member l _ u onLeft' rfl rfl inOrder
          (shallow_variant closed first (same ▸ ready) second same new member within follows.active)
      | length textual shape =>
        exact leaves depth deepLeaves _ l _ _ _ u onLeft' reached
          (by simp only [Schema.variants, shape]) (.length textual shape) inOrder
      | item textual shape numeric =>
        exact leaves depth deepLeaves _ l _ _ _ u onLeft' reached
          (by simp only [Schema.variants, shape]) (.item textual shape numeric) inOrder

-- From a place among the ground, the whole stage.
theorem place_settles {lefts : Schema → Prop} (plain : ∀ s, lefts s → s.isStringOrNumber = true)
    {p : Place} (sound : p.Sound ground registry)
    (leaf : ∀ q, ReflTransGen Place.Variant p q → q.Sound ground registry → ∃ bound, ∀ depth,
      bound ≤ depth → ∀ mark l r x y w, lefts l.schema →
      q.2.dereference q.1 = .ok (r.schema, r.scope) → r.schema.variants = [] →
      TextAsks mark l r x y → w.registry = registry → Settles (visit depth) x y w) :
    ∃ bound, ∀ depth, bound ≤ depth → SettlesAt registry lefts p depth := by
  obtain ⟨bound, settles⟩ := @stage_settles ground closed registry lefts plain
    (fun q => ReflTransGen Place.Variant p q ∧ q.Sound ground registry)
    (fun q good => good.2.resolves q .refl)
    (fun q r good variant => ⟨good.1.tail variant, good.2.looks closed (.inl variant)⟩)
    (fun q good => leaf q good.1 good.2) _ p ⟨.refl, sound⟩
  refine ⟨bound, fun depth deep left right w onLeft here inScope same => ?_⟩
  exact settles depth deep left right w onLeft here inScope same
    (shallow_ground (here ▸ sound.schema) (inScope ▸ sound.scope) w)

theorem number_settles {p : Place} (sound : p.Sound ground registry) : ∃ bound, ∀ depth,
    bound ≤ depth → SettlesAt registry (fun s => s.shape = .basic .number) p depth := by
  have plain : ∀ s : Schema, s.shape = .basic .number → s.isStringOrNumber = true := by
    intro s number
    simp [Schema.isStringOrNumber, number]
  refine place_settles closed plain sound fun q _ _ => ⟨0, ?_⟩
  intro depth _ mark l r x y w number _ none asks _
  cases asks with
  | variant member =>
    rw [none] at member
    cases member
  | length textual _ => simp [Schema.isTextual, number] at textual
  | item textual _ _ => simp [Schema.isTextual, number] at textual

-- If records indexed by numbers do not follow one another forever, strings come to an answer.
theorem text_settles {p : Place} (ends : Acc (fun q p => Place.Next p q) p)
    (sound : p.Sound ground registry) : ∃ bound, ∀ depth, bound ≤ depth →
      SettlesAt registry (fun s => s.isTextual = true) p depth := by
  induction ends with
  | intro p _ ih =>
    refine place_settles closed (fun _ => stringOrNumber_of_textual) sound fun q path good => ?_
    -- The only other comparison is with the length or with the values, by what the place comes to.
    obtain ⟨bound, lengths⟩ := exists_bound_of_unique (fun _ _ => Place.Length.unique)
      fun s (length : Place.Length q s) =>
        number_settles closed (good.looks closed (.inr (.inr length)))
    obtain ⟨bound', items⟩ := exists_bound_of_unique (fun _ _ => Place.Item.unique)
      fun s (item : Place.Item q s) =>
        ih s ⟨q, path, item⟩ (good.looks closed (.inr (.inl item)))
    refine ⟨max bound bound', fun depth deep mark l r x y w textual reached none asks same => ?_⟩
    cases asks with
    | variant member =>
      rw [none] at member
      cases member
    | @length s additional _ shape =>
      exact lengths depth (by omega) (s, r.scope) ⟨r.schema, additional, reached, shape⟩ _ _ w rfl
        rfl rfl same
    | @item key value _ shape numeric =>
      exact items depth (by omega) (value, r.scope) ⟨r.schema, key, reached, shape, numeric⟩ _ _ w
        rfl rfl rfl same

end

-- A string on its way from one record to the next. Pairs being compared that have this string on
-- the left lie further back, and those in the same scope are told apart by their schemas.
structure Chasing (ground : List Schema) (left right : Site) (n : Nat) (w : World) : Prop where
  textual : left.schema.isTextual = true
  ahead : Place.Ahead n (right.schema, right.scope)
  schema : right.schema ∈ ground
  scope : ∀ e ∈ right.scope, e ∈ ground
  leftMark : left.schema.mark < w.supply
  scopeMark : right.scopeMark < w.supply
  nothing : w.engine.results = []
  active : ∀ e ∈ w.engine.active, e.1.left < w.supply
  behind : ∀ e ∈ w.engine.active, e.1.left = left.schema.mark → ∃ t ∈ ground, ∃ scope k,
    e.1.right = t.mark ∧ n < k ∧ Place.Ahead k (t, scope) ∧ e.1.rightScope < w.supply ∧
    (e.1.rightScope = right.scopeMark → scope = right.scope)

-- What leads on is a record, a union or an intersection.
theorem ahead_reached {n : Nat} {p : Place} (ahead : Place.Ahead n p) (registry : Registry) :
    ∃ t scope, p.2.dereference p.1 = .ok (t, scope) ∧ registry.knows t.kind = true ∧
      t.isTemplate = false := by
  cases n with
  | zero =>
    obtain ⟨q, ⟨t, key, reached, shape, -⟩, -⟩ := ahead
    refine ⟨t, q.2, reached, ?_⟩
    simp [Schema.kind, Schema.isTemplate, shape, Shape.kind, Registry.knows]
  | succ n =>
    obtain ⟨q, ⟨t, reached, head⟩, -⟩ := ahead
    refine ⟨t, q.2, reached, ?_⟩
    obtain ⟨rest, shape | shape⟩ := variants_head head <;>
      simp [Schema.kind, Schema.isTemplate, shape, Shape.kind, Registry.knows]

namespace Chasing

section
variable {ground : List Schema} {left right l r : Site} {n : Nat} {w v u : World}

-- Preparing keeps all of it: a scope that grows gets a mark that no pair has yet.
theorem prepared (chasing : Chasing ground left right n w) :
    ∃ l v r u, prepare left w = (.ok l, v) ∧ prepare right v = (.ok r, u) ∧
      r.Ready u.registry ∧ Chasing ground l r n u := by
  obtain ⟨l, v, first, sameLeft, -⟩ := prepare_plain (stringOrNumber_of_textual chasing.textual) w
  obtain ⟨t, scope, reached, known, expanded⟩ := ahead_reached chasing.ahead v.registry
  obtain ⟨scopeMark, mark, supply, second⟩ := prepare_reached reached known
  rw [resolved_self expanded] at second
  obtain ⟨supply', more, rest⟩ := prepare_supply left w
  rw [first] at rest
  subst rest
  have ready := prepare_ready second
  obtain ⟨target, entries⟩ := Scope.dereference_among chasing.schema chasing.scope reached
  have again : scope.dereference t = .ok (t, scope) := by
    rw [Scope.dereference_concrete ready.concrete, ready.entered]
  have grown : w.supply ≤ supply := by
    rcases prepare_scope second with ⟨-, -, more'⟩ | ⟨-, more'⟩ <;> simp only at more' <;> omega
  refine ⟨l, _, _, _, first, second, ready, sameLeft ▸ chasing.textual,
    chasing.ahead.prepared reached again, target, entries, ?_, ?_, chasing.nothing,
    fun e member => Nat.lt_of_lt_of_le (chasing.active e member) grown, ?_⟩
  · rw [sameLeft]
    exact Nat.lt_of_lt_of_le chasing.leftMark grown
  · rcases prepare_scope second with ⟨-, same, -⟩ | ⟨same, more'⟩
    · rw [same]
      exact Nat.lt_of_lt_of_le chasing.scopeMark grown
    · rw [same]
      exact more'
  · intro e member same
    obtain ⟨s, inside, scope', k, isRight, less, further, below, here⟩ :=
      chasing.behind e member (sameLeft ▸ same)
    refine ⟨s, inside, scope', k, isRight, less, further, Nat.lt_of_lt_of_le below grown,
      fun isScope => ?_⟩
    rcases prepare_scope second with ⟨stays, sameMark, -⟩ | ⟨isNew, -⟩
    · exact (here (isScope.trans sameMark)).trans stays.symm
    · simp only at isNew isScope
      omega

-- A pair on the way is not being compared yet.
theorem new (apart : ∀ s ∈ ground, ∀ t ∈ ground, s.mark = t.mark → s = t)
    (chasing : Chasing ground l r n u) : ∀ e ∈ u.engine.active, e.1 ≠ .of l r := by
  intro e member same
  obtain ⟨t, inside, scope, k, isRight, less, further, -, here⟩ :=
    chasing.behind e member (by rw [same]; rfl)
  have schema : t = r.schema := by
    refine apart t inside _ chasing.schema ?_
    rw [← isRight, same]
    rfl
  have inScope := here (by rw [same]; rfl)
  rw [schema, inScope] at further
  exact absurd (chasing.ahead.unique further) (Nat.ne_of_lt less)

theorem entering_below (chasing : Chasing ground l r n u) :
    ∀ e ∈ (entering l r u).engine.active, e.1.left < (entering l r u).supply := by
  intro e member
  rcases List.mem_cons.mp member with rfl | earlier
  · exact Nat.lt_add_right _ chasing.leftMark
  · exact Nat.lt_add_right _ (chasing.active e earlier)

-- The first variant is next, with this pair behind it.
theorem first (closed : ∀ s ∈ ground, ∀ c ∈ s.children, c ∈ ground) (ready : r.Ready u.registry)
    (chasing : Chasing ground l r (n + 1) u) : ∃ s rest, (r.schema.shape = .union (s :: rest) ∨
      r.schema.shape = .intersect (s :: rest)) ∧ Chasing ground l (r.to s) n (entering l r u) := by
  obtain ⟨⟨s, scope⟩, ⟨t, reached, head⟩, ahead⟩ := chasing.ahead
  rw [Scope.dereference_concrete ready.concrete, ready.entered] at reached
  obtain ⟨rfl, rfl⟩ := Prod.mk.inj (Except.ok.inj reached)
  obtain ⟨rest, shape⟩ := variants_head head
  have child := variant_child (List.mem_of_mem_head? head)
  refine ⟨s, rest, shape, chasing.textual, ahead, closed _ chasing.schema _ child, chasing.scope,
    Nat.lt_add_right _ chasing.leftMark, Nat.lt_add_right _ chasing.scopeMark, chasing.nothing,
    chasing.entering_below, fun e member same => ?_⟩
  rcases List.mem_cons.mp member with rfl | earlier
  · exact ⟨r.schema, chasing.schema, r.scope, n + 1, rfl, Nat.lt_succ_self n, chasing.ahead,
      Nat.lt_add_right _ chasing.scopeMark, fun _ => rfl⟩
  · obtain ⟨t, inside, scope, k, isRight, less, further, below, here⟩ :=
      chasing.behind e earlier same
    exact ⟨t, inside, scope, k, isRight, Nat.lt_of_succ_lt less, further,
      Nat.lt_add_right _ below, here⟩

-- At a record the string is a new one, that no pair has on its left.
theorem item (closed : ∀ s ∈ ground, ∀ c ∈ s.children, c ∈ ground) (ready : r.Ready u.registry)
    (chasing : Chasing ground l r 0 u) : ∃ key value m, r.schema.shape = .record key value ∧
      key.isNumericKey = true ∧ Chasing ground (l.to (Rule.marked u.supply (.basic .string)))
        (r.to value) m (entering l r u) := by
  obtain ⟨⟨value, scope⟩, ⟨t, key, reached, shape, numeric⟩, endless⟩ := chasing.ahead
  rw [Scope.dereference_concrete ready.concrete, ready.entered] at reached
  obtain ⟨rfl, rfl⟩ := Prod.mk.inj (Except.ok.inj reached)
  obtain ⟨m, ahead⟩ := endless.ahead
  have child : value ∈ r.schema.children := by simp [Schema.children, shape]
  have free : (Rule.marked u.supply (.basic .string)).mark < (entering l r u).supply :=
    Nat.lt_add_of_pos_right (by decide)
  refine ⟨key, value, m, shape, numeric, rfl, ahead, closed _ chasing.schema _ child, chasing.scope,
    free, Nat.lt_add_right _ chasing.scopeMark, chasing.nothing, chasing.entering_below,
    fun e member same => ?_⟩
  have below : e.1.left < u.supply := by
    rcases List.mem_cons.mp member with rfl | earlier
    · exact chasing.leftMark
    · exact chasing.active e earlier
  exact absurd same (Nat.ne_of_lt below)

end

end Chasing

-- A goal fails as its first comparison does.
theorem pursue_first {compare : Comparer} {x y : Site} {rest : List Step} {w : World}
    {fault : Fault} (failed : (compare x y w).1 = .error fault) :
    (pursue compare (.all (.compare x y :: rest)) w).1 = .error fault ∧
      (pursue compare (.any (.compare x y :: rest)) w).1 = .error fault := by
  cases outcome : compare x y w with
  | mk result after =>
    rw [outcome] at failed
    simp only at failed
    subst failed
    simp only [pursue, Goal.runAll, Goal.runAny, outcome, and_self]

-- A string that follows records without end never comes to an answer.
theorem chase_fails {ground : List Schema}
    (closed : ∀ s ∈ ground, ∀ c ∈ s.children, c ∈ ground)
    (apart : ∀ s ∈ ground, ∀ t ∈ ground, s.mark = t.mark → s = t) {left right : Site} {n : Nat}
    {w : World} (chasing : Chasing ground left right n w) (depth : Nat) :
    (visit depth left right w).1 = .error .tooDeep := by
  induction depth generalizing left right n w with
  | zero => rfl
  | succ depth ih =>
    obtain ⟨l, v, r, u, first, second, ready, chasing⟩ := chasing.prepared
    have same : visit (depth + 1) left right w = comparePrepared (visit depth) l r u := by
      simp only [visit, first, second]
    rcases comparePrepared_cases (visit depth) l r u with
      ⟨b, finished, -⟩ | ⟨d, event, member, -⟩ | ⟨-, answer⟩
    · rw [chasing.nothing] at finished
      cases finished
    · exact absurd rfl (chasing.new apart _ member)
    · obtain ⟨outcome, after, ran, returned, -⟩ := compareNew_spec (visit depth) l r u
      rw [same, answer, returned]
      have plain := stringOrNumber_of_textual chasing.textual
      cases n with
      | zero =>
        obtain ⟨key, value, m, shape, numeric, next⟩ := chasing.item closed ready
        rw [Rule.goal_record chasing.textual shape, if_pos numeric] at ran
        exact (congrArg Prod.fst ran).symm.trans (pursue_first (ih next)).1
      | succ n =>
        obtain ⟨s, rest, shape | shape, next⟩ := chasing.first closed ready
        · rw [Rule.goal_union plain shape] at ran
          exact (congrArg Prod.fst ran).symm.trans (pursue_first (ih next)).2
        · rw [Rule.goal_intersect plain shape] at ran
          exact (congrArg Prod.fst ran).symm.trans (pursue_first (ih next)).1

section
variable {left right : Schema} {leftScope scope : Scope} {w : World}

theorem query_of_visit (idle : w.engine.active = []) (depth : Nat) :
    ∃ leftMark rightMark v, v.registry = w.registry ∧ v.engine = reset w.engine ∧
      w.supply ≤ v.supply ∧ (0 < v.supply → rightMark < v.supply) ∧
      (query (compareSchemas depth left right leftScope scope) w).1 =
        (visit depth ⟨left, leftScope, leftMark⟩ ⟨right, scope, rightMark⟩ v).1 := by
  obtain ⟨leftMark, rightMark, supply, opened, more, below⟩ :=
    opening_eq left right leftScope scope (w.setEngine reset)
  refine ⟨leftMark, rightMark, { w.setEngine reset with supply }, rfl, rfl, more, below, ?_⟩
  simp only [query, idle, List.isEmpty_nil, if_true, compareSchemas_eq, opened]

theorem query_answers_text (textual : left.isTextual = true) (idle : w.engine.active = [])
    (ends : Acc (fun q p => Place.Next p q) (right, scope))
    (resolves : ∀ p, ReflTransGen Place.Looks (right, scope) p → p.Resolves w.registry) :
    ∃ bound, ∀ depth, bound ≤ depth →
      ∃ b, (query (compareSchemas depth left right leftScope scope) w).1 = .ok b := by
  let ground := (right :: scope).flatMap Schema.parts
  have closed : ∀ s ∈ ground, ∀ c ∈ s.children, c ∈ ground := by
    intro s member c child
    obtain ⟨root, isRoot, part⟩ := List.mem_flatMap.mp member
    exact List.mem_flatMap.mpr ⟨root, isRoot, parts_children part child⟩
  have inside : ∀ s ∈ right :: scope, s ∈ ground :=
    fun s member => List.mem_flatMap.mpr ⟨s, member, self_mem_parts s⟩
  have sound : Place.Sound ground w.registry (right, scope) :=
    ⟨inside _ List.mem_cons_self, fun e entry => inside e (List.mem_cons_of_mem _ entry), resolves⟩
  obtain ⟨bound, settles⟩ := text_settles closed ends sound
  refine ⟨bound, fun depth deep => ?_⟩
  obtain ⟨leftMark, rightMark, v, registry, -, -, -, same⟩ :=
    @query_of_visit left right leftScope scope w idle depth
  rw [same]
  exact (settles depth deep ⟨left, leftScope, leftMark⟩ ⟨right, scope, rightMark⟩ v textual rfl rfl
    registry).answers

theorem query_endless (textual : left.isTextual = true)
    (placed : Placed w.supply (left :: right :: (leftScope ++ scope)))
    (idle : w.engine.active = []) (endless : Place.Endless (right, scope)) (depth : Nat) :
    (query (compareSchemas depth left right leftScope scope) w).1 = .error .tooDeep := by
  obtain ⟨leftMark, rightMark, v, -, engine, more, below, same⟩ :=
    @query_of_visit left right leftScope scope w idle depth
  have inside : ∀ s ∈ left :: right :: (leftScope ++ scope),
      s ∈ (left :: right :: (leftScope ++ scope)).flatMap Schema.parts :=
    fun s member => List.mem_flatMap.mpr ⟨s, member, self_mem_parts s⟩
  have marked := Nat.lt_of_lt_of_le (placed.below left (inside left List.mem_cons_self)) more
  obtain ⟨n, ahead⟩ := endless.ahead
  have chasing : Chasing ((left :: right :: (leftScope ++ scope)).flatMap Schema.parts)
      ⟨left, leftScope, leftMark⟩ ⟨right, scope, rightMark⟩ n v := by
    refine ⟨textual, ahead, inside right (by simp), fun e entry => inside e (by simp [entry]),
      marked, below (Nat.zero_lt_of_lt marked), by rw [engine]; rfl, ?_, ?_⟩
    · intro e member
      simp [engine, reset] at member
    · intro e member
      simp [engine, reset] at member
  rw [same]
  exact chase_fails placed.coherent.children placed.apart chasing depth

end

-- Strings against records that are indexed by numbers. If no such record leads to another one
-- without end, whatever variants are chosen, there is an answer; if they do without a choice, there
-- is none, however deep comparisons may nest.
theorem query_text_records {left right : Schema} {leftScope scope : Scope}
    (textual : left.isTextual = true) {w : World}
    (placed : Placed w.supply (left :: right :: (leftScope ++ scope)))
    (idle : w.engine.active = []) :
    ((∀ p, ReflTransGen Place.Looks (right, scope) p → p.Resolves w.registry) →
      (¬ ∃ f : Nat → Place, f 0 = (right, scope) ∧ ∀ n, Place.Next (f n) (f (n + 1))) →
      ∃ bound, ∀ depth, bound ≤ depth →
        ∃ b, (query (compareSchemas depth left right leftScope scope) w).1 = .ok b) ∧
    ((∃ f : Nat → Place, f 0 = (right, scope) ∧ ∀ n, Place.FirstNext (f n) (f (n + 1))) →
      ∀ depth,
        (query (compareSchemas depth left right leftScope scope) w).1 = .error .tooDeep) := by
  refine ⟨fun resolves ends => ?_, fun endless depth => ?_⟩
  · have acc : Acc (fun q p => Place.Next p q) (right, scope) := by
      by_contra unbounded
      exact ends (not_acc_iff_exists_descending_chain.mp unbounded)
    exact query_answers_text textual idle acc resolves
  · exact query_endless textual placed idle endless depth

-- From a place that comes to a record, only the values are looked at; from one that comes to an
-- array, nothing.
theorem looks_record {p q : Place} {r key value : Schema} {scope : Scope}
    (reached : p.2.dereference p.1 = .ok (r, scope)) (shape : r.shape = .record key value)
    (looks : Place.Looks p q) : q = (value, scope) := by
  rcases looks with ⟨t, reached', member⟩ | ⟨t, _, reached', shape', -⟩ |
    ⟨t, _, reached', shape'⟩ <;> obtain ⟨rfl, same⟩ := Place.reached_unique reached reached'
  · simp [Schema.variants, shape] at member
  · rw [shape] at shape'
    injection shape' with _ same'
    exact Prod.ext same'.symm same.symm
  · rw [shape] at shape'
    cases shape'

theorem looks_array {p q : Place} {r items : Schema} {scope : Scope}
    (reached : p.2.dereference p.1 = .ok (r, scope)) (shape : r.shape = .array items) :
    ¬ Place.Looks p q := by
  rintro (⟨t, reached', member⟩ | ⟨t, _, reached', shape', -⟩ | ⟨t, _, reached', shape'⟩) <;>
    obtain ⟨rfl, -⟩ := Place.reached_unique reached reached'
  · simp [Schema.variants, shape] at member
  · simp [shape] at shape'
  · simp [shape] at shape'

theorem next_looks {p q : Place} {r : Schema} {scope : Scope}
    (reached : p.2.dereference p.1 = .ok (r, scope)) (none : r.variants = [])
    (next : Place.Next p q) : Place.Looks p q := by
  obtain ⟨last, path, item⟩ := next
  rw [Place.eq_of_no_variants reached none path] at item
  exact .inr (.inl item)

-- Records indexed by numbers, to whose values `back` refers from inside.
def indexed (value : Schema) : Schema :=
  .mk 0 (.text "r") false (.record (.basic .number) value)

def back : Schema := .plain (.reference .this (.text "r"))

def string : Schema := .basic .string

-- Values that are arrays of such records, and values that are such records or else strings.
theorem string_indexed :
    (∃ bound, ∀ depth, bound ≤ depth → ∃ b, (query (compareSchemas depth (string.place 5).1
      ((indexed (.plain (.array back))).place 1).1 [] []) { supply := 6 }).1 = .ok b) ∧
    ∀ depth, (query (compareSchemas depth (string.place 6).1
      ((indexed (.plain (.union [back, string]))).place 1).1 [] []) { supply := 7 }).1 =
        .error .tooDeep := by
  constructor
  · have placed : Placed 6 [(string.place 5).1, ((indexed (.plain (.array back))).place 1).1] :=
      @Placed.two 1 (indexed (.plain (.array back))) string (by decide) (by decide)
    refine (query_text_records rfl placed rfl).1 ?_ ?_
    · intro p path
      rcases path.cases_head with rfl | ⟨q, looks, path⟩
      · exact ⟨_, _, rfl, rfl⟩
      · rw [looks_record rfl rfl looks] at path
        rcases path.cases_head with rfl | ⟨_, looks, _⟩
        · exact ⟨_, _, rfl, rfl⟩
        · exact absurd looks (looks_array rfl rfl)
    · rintro ⟨f, start, next⟩
      have first := next_looks rfl rfl (start ▸ next 0)
      have second := next_looks rfl rfl (looks_record rfl rfl first ▸ next 1)
      exact looks_array rfl rfl second
  · have placed : Placed 7 [(string.place 6).1,
        ((indexed (.plain (.union [back, string]))).place 1).1] :=
      @Placed.two 1 (indexed (.plain (.union [back, string]))) string (by decide) (by decide)
    let r := ((indexed (.plain (.union [back, string]))).place 1).1
    let choice : Schema := .mk 3 .null false (.union [(back.place 4).1, (string.place 5).1])
    refine (query_text_records rfl placed rfl).2
      ⟨fun n => n.casesOn (r, []) fun _ => (choice, [r]), rfl, fun n => ?_⟩
    cases n with
    | zero => exact ⟨_, .refl, r, _, rfl, rfl, rfl⟩
    | succ n => exact ⟨((back.place 4).1, [r]), .single ⟨choice, rfl, rfl⟩, r, _, rfl, rfl, rfl⟩

-- With values that are such records themselves, everything that is looked at is found, and there is
-- no answer.
theorem string_indexed_back :
    (∀ p, ReflTransGen Place.Looks (((indexed back).place 1).1, []) p → p.Resolves []) ∧
    ∀ depth, (query (compareSchemas depth (string.place 4).1 ((indexed back).place 1).1 [] [])
      { supply := 5 }).1 = .error .tooDeep := by
  let r := ((indexed back).place 1).1
  constructor
  · intro p path
    have here : p = (r, []) ∨ p = ((back.place 3).1, [r]) := by
      induction path with
      | refl => exact .inl rfl
      | tail _ looks ih =>
        rcases ih with rfl | rfl
        · exact .inr (looks_record rfl rfl looks)
        · exact .inr (@looks_record ((back.place 3).1, [r]) _ r _ _ [r] rfl rfl looks)
    rcases here with rfl | rfl
    · exact ⟨_, _, rfl, rfl⟩
    · exact ⟨r, [r], rfl, rfl⟩
  · have placed : Placed 5 [(string.place 4).1, r] :=
      @Placed.two 1 (indexed back) string (by decide) (by decide)
    refine query_endless rfl placed rfl
      ⟨fun n => n.casesOn (r, []) fun _ => ((back.place 3).1, [r]), rfl, fun n => ?_⟩
    cases n with
    | zero => exact ⟨_, .refl, r, _, rfl, rfl, rfl⟩
    | succ n => exact ⟨_, .refl, r, _, rfl, rfl, rfl⟩

end Engine

end Assignability
