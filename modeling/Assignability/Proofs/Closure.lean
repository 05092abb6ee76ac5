import Assignability.Proofs.Faults
import Assignability.Proofs.ScopeAgreement
import Mathlib.Data.Finite.Prod
import Mathlib.Data.Set.Finite.List

namespace Assignability

open Relation (ReflTransGen)

-- A reference is resolved in the scope that has come together on the way to it. What every scope of
-- a query keeps is that all its entries are closed in it.

-- Down from a schema to something inside it, with all that is passed, both ends included.
inductive Schema.Path : Schema → List Schema → Schema → Prop
  | here {s : Schema} : Path s [s] s
  | down {s c t : Schema} {path : List Schema} : c ∈ s.children → Path c path t →
    Path s (s :: path) t

theorem Schema.target_shape {s : Schema} {target : Value} (refers : s.target? = some target) :
    ∃ form, s.shape = .reference form target := by
  unfold Schema.target? at refers
  cases shape : s.shape with
  | reference form other =>
    simp only [shape, Option.some.injEq] at refers
    exact ⟨form, by rw [refers]⟩
  | _ => simp [shape] at refers

theorem Schema.target_of_reference {s : Schema} (isReference : s.isReference = true) :
    ∃ target, s.target? = some target := by
  unfold Schema.isReference at isReference
  cases shape : s.shape with
  | reference form target => exact ⟨target, by simp [Schema.target?, shape]⟩
  | _ => simp [shape] at isReference

def Kind.userName? : Kind → Option String
  | .user name => some name
  | _ => none

theorem Value.same_of_equal {v w : Value} (equal : v.equal w = true) : v.same w = true := by
  unfold Value.equal at equal
  split at equal
  · cases equal
  · exact equal

-- Nothing equals both no value and some value.
theorem Value.isNull_of_equal {v w target : Value} (first : v.equal target = true)
    (second : w.equal target = true) (absent : v.isNull = true) : w.isNull = true := by
  replace first := Value.same_of_equal first
  replace second := Value.same_of_equal second
  cases v <;> cases absent
  cases target <;> simp only [Value.same, Bool.false_eq_true] at first
  cases w with
  | null => rfl
  | _ => simp [Value.same] at second

namespace Scope

-- Some entry has this id.
def Offers (scope : Scope) (target : Value) : Prop :=
  ∃ e ∈ scope, e.id.isNull = false ∧ e.id.equal target = true

def Closes (scope : Scope) (s : Schema) : Prop :=
  ∀ path t target, s.Path path t → t.target? = some target → (scope ++ path).Offers target

section
variable {scope other : Scope} {s c : Schema} {target : Value}

theorem Offers.mono (offers : scope.Offers target)
    (sub : ∀ e ∈ scope, e.id.isNull = false → e ∈ other) : other.Offers target := by
  obtain ⟨e, entry, present, same⟩ := offers
  exact ⟨e, sub e entry present, present, same⟩

-- The entry that is found has an id as well, though it may be another one.
theorem Offers.resolves (offers : scope.Offers target) :
    ∃ n, scope.resolve? target = some n ∧ n.id.isNull = false := by
  obtain ⟨e, entry, present, same⟩ := offers
  cases found : scope.resolve? target with
  | none => exact absurd same (List.find?_eq_none.mp found e entry)
  | some n =>
    refine ⟨n, rfl, Bool.eq_false_iff.mpr fun absent => ?_⟩
    unfold resolve? at found
    have equal := List.find?_some found
    rw [Value.isNull_of_equal equal same absent] at present
    cases present

theorem closes_iff : scope.Closes s ↔
    (∀ target, s.target? = some target → (scope ++ [s]).Offers target) ∧
      ∀ c ∈ s.children, (scope ++ [s]).Closes c := by
  constructor
  · intro closes
    refine ⟨fun target => closes [s] s target .here, fun c child path t target inside refers => ?_⟩
    have offers := closes (s :: path) t target (.down child inside) refers
    rwa [List.append_assoc, List.singleton_append]
  · rintro ⟨here, below⟩ path t target inside refers
    cases inside with
    | here => exact here target refers
    | down child inside =>
      have offers := below _ child _ t target inside refers
      rwa [List.append_assoc, List.singleton_append] at offers

theorem Closes.mono (closes : scope.Closes s)
    (sub : ∀ e ∈ scope, e.id.isNull = false → e ∈ other) : other.Closes s := by
  intro path t target inside refers
  refine (closes path t target inside refers).mono fun e entry present => ?_
  rcases List.mem_append.mp entry with earlier | passed
  · exact List.mem_append_left _ (sub e earlier present)
  · exact List.mem_append_right _ passed

-- Children need nothing but the scope, once a schema that has an id is in it.
theorem Closes.child (closes : scope.Closes s) (held : s.id.isNull = false → s ∈ scope)
    (child : c ∈ s.children) : scope.Closes c := by
  refine ((closes_iff.mp closes).2 c child).mono fun e entry present => ?_
  rcases List.mem_append.mp entry with earlier | same
  · exact earlier
  · cases List.mem_singleton.mp same
    exact held present

theorem Closes.offers (closes : scope.Closes s) (refers : s.target? = some target)
    (absent : s.id.isNull = true) : scope.Offers target := by
  refine ((closes_iff.mp closes).1 target refers).mono fun e entry present => ?_
  rcases List.mem_append.mp entry with earlier | same
  · exact earlier
  · cases List.mem_singleton.mp same
    rw [absent] at present
    cases present

theorem mem_push_self (apart : ∀ e ∈ scope, e.mark = s.mark → e = s)
    (present : s.id.isNull = false) : s ∈ scope.push s := by
  cases held : scope.holds s with
  | true =>
    obtain ⟨e, entry, marks⟩ := List.any_eq_true.mp held
    cases apart e entry (beq_iff_eq.mp marks)
    rwa [push_of_mem entry]
  | false => simp [push, present, held]

theorem push_sub : ∀ e ∈ scope, e.id.isNull = false → e ∈ scope.push s := by
  intro e entry _
  rcases push_cases scope s with same | added
  · rwa [same]
  · rw [added]
    exact List.mem_append_left _ entry

end

-- The same, computed: down to a depth that no path exceeds.
def closesWithin : Nat → Scope → Schema → Bool
  | 0, _, _ => false
  | n + 1, scope, s =>
    (s.target?.all fun target =>
      (scope ++ [s]).any fun e => !e.id.isNull && e.id.equal target) &&
    s.children.all (closesWithin n (scope ++ [s]))

theorem closesWithin_iff {n : Nat} {scope : Scope} {s : Schema} (deep : s.weight ≤ n) :
    scope.closesWithin n s = true ↔ scope.Closes s := by
  induction n generalizing scope s with
  | zero => exact absurd deep (Nat.not_le_of_lt (weight_pos s))
  | succ n ih =>
    have below : (∀ c ∈ s.children, closesWithin n (scope ++ [s]) c = true) ↔
        ∀ c ∈ s.children, (scope ++ [s]).Closes c :=
      forall₂_congr fun c child =>
        ih (Nat.le_of_lt_succ (Nat.lt_of_lt_of_le (child_weight child) deep))
    have here : ∀ target, ((scope ++ [s]).any fun e => !e.id.isNull && e.id.equal target) = true ↔
        (scope ++ [s]).Offers target := by
      intro target
      simp only [List.any_eq_true, Bool.and_eq_true, Bool.not_eq_true', Offers]
    rw [closes_iff, ← below, closesWithin, Bool.and_eq_true, List.all_eq_true]
    simp only [Option.all_eq_true, here]

instance (scope : Scope) (s : Schema) : Decidable (scope.Closes s) :=
  decidable_of_iff _ (closesWithin_iff (Nat.le_refl s.weight))

end Scope

theorem Registry.knows_of_get {registry : Registry} {name : String} {handler : Option Handler}
    (found : registry.get? name = some handler) : registry.knows (.user name) = true :=
  List.any_eq_true.mpr ⟨_, lookup_mem found, beq_self_eq_true _⟩

-- Items of strings are strings, and items of byte arrays are numbers.
theorem Rule.made_item (mark : Nat) (left : Schema) {right : Schema}
    (indexed : isNumericRecord right = true) :
    (made mark left right).isTextual = true ∨ (made mark left right).shape = .basic .number := by
  unfold isNumericRecord at indexed
  cases shape : right.shape with
  | record key value =>
    unfold made
    rw [shape]
    split
    · exact .inr rfl
    · exact .inl rfl
    all_goals simp_all
  | _ => simp [shape] at indexed

namespace Place

-- Everything at a place is closed in its scope.
structure Closed (ground : List Schema) (p : Place) : Prop where
  within : p.1 ∈ ground ∧ ∀ e ∈ p.2, e ∈ ground
  entries : ∀ e ∈ p.2, p.2.Closes e
  schema : p.2.Closes p.1

section
variable {ground : List Schema} {supply : Nat} (coherent : Coherent {s | s ∈ ground} supply)
  {p q : Place} (closed : p.Closed ground)
include coherent closed

-- A reference leads to a schema with an id, which is no reference: chains have one link.
theorem Closed.dereference (unnamed : ∀ s ∈ ground, s.isReference = true → s.id.isNull = true) :
    ∃ t scope, p.2.dereference p.1 = .ok (t, scope) := by
  cases isReference : p.1.isReference with
  | false => exact ⟨_, _, Scope.dereference_concrete isReference⟩
  | true =>
    have absent := unnamed p.1 closed.within.1 isReference
    obtain ⟨target, refers⟩ := Schema.target_of_reference isReference
    obtain ⟨form, shape⟩ := Schema.target_shape refers
    obtain ⟨n, found, present⟩ := (closed.schema.offers refers absent).resolves
    have concrete : n.isReference = false := by
      cases again : n.isReference with
      | false => rfl
      | true =>
        rw [unnamed n (closed.within.2 n (Scope.resolve_mem found)) again] at present
        cases present
    have inside : ∀ u ∈ p.1 :: p.2, u ∈ ground := List.forall_mem_cons.mpr closed.within
    refine ⟨n, _, (Scope.dereference_iff fun _ u listed v listed' =>
      coherent.apart u (inside u listed) v (inside v listed')).mpr
      ⟨rfl, [p.1], .next shape ?_ (.here concrete)⟩⟩
    rwa [Scope.push_of_null absent]

-- Coming to a schema enters it into the scope, which is all that its children need.
theorem Closed.reaches (reaches : Reaches p q) : q.Closed ground := by
  obtain ⟨t, reached, lies⟩ := reaches
  obtain ⟨target, within⟩ := Scope.dereference_among closed.within.1 closed.within.2 reached
  obtain ⟨scope, -, among⟩ := Scope.dereference_ok reached
  have entries : ∀ e ∈ q.2, q.2.Closes e := by
    rw [scope]
    intro e entry
    rcases Scope.mem_push entry with earlier | rfl
    · exact (closed.entries e earlier).mono Scope.push_sub
    · exact closed.schema.mono Scope.push_sub
  have closes : q.2.Closes t ∧ (t.id.isNull = false → t ∈ q.2) := by
    rcases among with rfl | entry
    · rw [scope]
      refine ⟨closed.schema.mono Scope.push_sub, fun present => Scope.mem_push_self ?_ present⟩
      exact fun e entry => coherent.apart e (closed.within.2 e entry) p.1 closed.within.1
    · rw [← scope] at entry
      exact ⟨entries t entry, fun _ => entry⟩
  rcases lies with same | child
  · exact ⟨⟨same ▸ target, within⟩, entries, same ▸ closes.1⟩
  · exact ⟨⟨coherent.children t target _ child, within⟩, entries, closes.1.child closes.2 child⟩

end

-- Lists of a bounded length over a list of schemas.
theorem finite_scopes (ground : List Schema) (n : Nat) :
    {scope : Scope | scope.length ≤ n ∧ ∀ e ∈ scope, e ∈ ground}.Finite := by
  have : Finite {s // s ∈ ground} := ground.finite_toSet
  refine ((List.finite_length_le {s // s ∈ ground} n).image (List.map Subtype.val)).subset ?_
  rintro scope ⟨short, entries⟩
  exact ⟨scope.attachWith _ entries, by simpa using short, by simp⟩

-- A scope grows only by what is not in it yet.
theorem room_reaches {ground : List Schema} {p q : Place} (member : p.1 ∈ ground)
    (reaches : Reaches p q) :
    q.2.length + Engine.room ground q.2 ≤ p.2.length + Engine.room ground p.2 := by
  obtain ⟨t, reached, -⟩ := reaches
  rw [(Scope.dereference_ok reached).1]
  by_cases same : p.2.push p.1 = p.2
  · rw [same]
  · have less := Engine.room_push member same
    rw [(Scope.push_cases p.2 p.1).resolve_left same] at less ⊢
    rw [List.length_append, List.length_singleton]
    omega

-- A query comes to finitely many places.
theorem met_finite {ground : List Schema} (closed : ∀ s ∈ ground, ∀ c ∈ s.children, c ∈ ground)
    {roots : List Place} (start : ∀ root ∈ roots, root.1 ∈ ground ∧ ∀ e ∈ root.2, e ∈ ground) :
    {p | Met roots p}.Finite := by
  obtain ⟨longest, short⟩ := Engine.exists_bound fun root (_ : root ∈ roots) =>
    ⟨root.2.length, fun n long => long⟩
  let Fits (p : Place) := p.2.length + Engine.room ground p.2 ≤ longest + ground.length
  have fits : ∀ root ∈ roots, Fits root := fun root isRoot =>
    Nat.add_le_add (short longest (Nat.le_refl _) root isRoot) (Engine.room_le _ _)
  have stays : ∀ p q, Met roots p → Fits p → Reaches p q → Fits q := fun p q met fits reaches =>
    Nat.le_trans (room_reaches (met.among closed start).1 reaches) fits
  refine (ground.finite_toSet.prod (finite_scopes ground (longest + ground.length))).subset ?_
  intro p met
  obtain ⟨schema, scope⟩ := met.among closed start
  exact ⟨schema, Nat.le_trans (Nat.le_add_right _ _) (met.invariant fits stays), scope⟩

end Place

namespace Engine

-- Nothing but the items of strings takes more depth than the measure says.
theorem come_settles {roots : List Place} {ground : List Schema} {registry : Registry} {bound : Nat}
    (closed : ∀ s ∈ ground, ∀ c ∈ s.children, c ∈ ground)
    (noRule : ∀ p : Site, p.Come roots → ∀ kind, p.schema.kind = .user kind →
      registry.handler? kind = none)
    (prepares : ∀ p : Site, p.Come roots → ∀ w : World, w.registry = registry →
      ∃ q v, prepare p w = (.ok q, v))
    (items : ∀ depth, bound ≤ depth → ∀ p : Place, p.Met roots →
      SettlesAt registry (fun s => s.isTextual = true) p depth ∧
        SettlesAt registry (fun s => s.shape = .basic .number) p depth)
    {depth : Nat} {x y : Site} {w : World} {m n : Nat} (comeX : x.Come roots) (comeY : y.Come roots)
    (rankedX : Ranked ground x m) (rankedY : Ranked ground y n) (same : w.registry = registry)
    (deep : deepest ground (x, y) (m + n) w.engine.active + bound < depth) :
    Settles (visit depth) x y w := by
  induction depth generalizing x y w m n with
  | zero => exact absurd deep (Nat.not_lt_zero _)
  | succ depth ih =>
    obtain ⟨l, v, first⟩ := prepares x comeX w same
    obtain ⟨r, u, second⟩ := prepares y comeY v ((prepare_follows first).registry.trans same)
    obtain ⟨both, ⟨comeL, readyL⟩, comeR, readyR⟩ := come_pair comeX comeY first second
    have here : u.registry = registry := both.registry.trans same
    refine visit_settles first second (goal_loop readyL (here ▸ noRule l comeL)) ?_
    intro x' y' t new asked later
    have asks := Rule.goal_asks asked
    obtain ⟨comeX', comeY'⟩ := comeL.asks readyL readyR comeR asks
    have after : t.registry = registry := later.registry.trans here
    obtain ⟨m', rankedL, descendsL⟩ := prepare_descends rankedX first
    obtain ⟨n', rankedR, descendsR⟩ := prepare_descends rankedY second
    rcases asks_descends_or_item closed rankedL rankedR asks with
      ⟨mx, ny, rankedX', rankedY', descends⟩ | ⟨indexed, moves, rfl⟩
    · refine ih comeX' comeY' rankedX' rankedY' after ?_
      have less := deepest_lt u.engine.active.length (descendsL.pair descendsR) descends new
      rw [← both.active] at deep
      rw [later.active]
      exact Nat.lt_of_lt_of_le (Nat.add_lt_add_right less bound) (Nat.le_of_lt_succ deep)
    · have met : Place.Met roots (r.schema, r.scope) := by
        rcases comeR with met | madeUp
        · exact met
        · rw [madeUp.notIndexed _ (self_mem_parts _)] at indexed
          cases indexed
      have enough : bound ≤ depth := by omega
      obtain ⟨texts, numbers⟩ := items depth enough _ (Site.Come.met_moves readyR met moves)
      rcases Rule.made_item u.supply l.schema indexed with textual | number
      · exact texts _ y' t textual rfl rfl after
      · exact numbers _ y' t number rfl rfl after

-- Both schemas and all entries are closed, references have no id of their own, and every user kind
-- is registered, without a rule.
structure WellScoped (registry : Registry) (supply : Nat) (left right : Schema)
    (leftScope rightScope : Scope) : Prop where
  placed : Placed supply (left :: right :: (leftScope ++ rightScope))
  onLeft : leftScope.Closes left
  onRight : rightScope.Closes right
  leftEntries : ∀ e ∈ leftScope, leftScope.Closes e
  rightEntries : ∀ e ∈ rightScope, rightScope.Closes e
  unnamed : ∀ s ∈ reachable left right leftScope rightScope, s.isReference = true →
    s.id.isNull = true
  registered : ∀ s ∈ reachable left right leftScope rightScope, ∀ name, s.kind = .user name →
    registry.get? name = some none

section
variable (left right : Schema) (leftScope rightScope : Scope)

theorem reachable_closed : ∀ s ∈ reachable left right leftScope rightScope, ∀ c ∈ s.children,
    c ∈ reachable left right leftScope rightScope := by
  intro s member c child
  obtain ⟨root, isRoot, part⟩ := List.mem_flatMap.mp member
  exact List.mem_flatMap.mpr ⟨root, isRoot, parts_children part child⟩

theorem roots_reachable : ∀ root ∈ roots left right leftScope rightScope,
    root.1 ∈ reachable left right leftScope rightScope ∧
      ∀ e ∈ root.2, e ∈ reachable left right leftScope rightScope := by
  have inside : ∀ s ∈ left :: right :: (leftScope ++ rightScope),
      s ∈ reachable left right leftScope rightScope :=
    fun s member => List.mem_flatMap.mpr ⟨s, member, self_mem_parts s⟩
  intro root isRoot
  simp only [roots, List.mem_cons, List.not_mem_nil, or_false] at isRoot
  rcases isRoot with rfl | rfl
  · exact ⟨inside _ (by simp), fun e entry => inside e (by simp [entry])⟩
  · exact ⟨inside _ (by simp), fun e entry => inside e (by simp [entry])⟩

end

-- The measure that a query starts with.
theorem roots_ranked (left right : Schema) (leftScope rightScope : Scope)
    (leftMark rightMark : Nat) (w : World) :
    ∃ m n, Ranked (reachable left right leftScope rightScope) ⟨left, leftScope, leftMark⟩ m ∧
      Ranked (reachable left right leftScope rightScope) ⟨right, rightScope, rightMark⟩ n ∧
      deepest (reachable left right leftScope rightScope) (⟨left, leftScope, leftMark⟩,
        ⟨right, rightScope, rightMark⟩) (m + n) w.engine.active <
        depthBound left right leftScope rightScope := by
  have within := roots_reachable left right leftScope rightScope
  simp only [roots, List.forall_mem_cons] at within
  obtain ⟨onLeft, onRight, -⟩ := within
  refine ⟨_, _, .met onLeft.1 onLeft.2, .met onRight.1 onRight.2,
    Nat.lt_succ_of_le (deepest_le _ _ ?_)⟩
  have leftRoom := room_le (reachable left right leftScope rightScope) leftScope
  have rightRoom := room_le (reachable left right leftScope rightScope) rightScope
  simp only
  omega

-- User kinds at the sites of a query are those of its schemas and entries.
theorem come_user {left right : Schema} {leftScope rightScope : Scope} {names : String → Prop}
    (named : ∀ s ∈ reachable left right leftScope rightScope, ∀ name, s.kind = .user name →
      names name) {p : Site} (come : p.Come (roots left right leftScope rightScope)) {t : Schema}
    {scope : Scope} (reached : p.scope.dereference p.schema = .ok (t, scope)) {name : String}
    (own : t.kind = .user name) : names name := by
  rcases come with met | madeUp
  · obtain ⟨schema, entries⟩ := met.among (reachable_closed left right leftScope rightScope)
      (roots_reachable left right leftScope rightScope)
    exact named t (Scope.dereference_among schema entries reached).1 name own
  · rw [Scope.dereference_concrete madeUp.anonymous.concrete] at reached
    obtain ⟨rfl, -⟩ := Prod.mk.inj (Except.ok.inj reached)
    exact absurd own (madeUp.notUser _ (self_mem_parts _) name)

-- The names of user kinds among some schemas.
def userKinds (ground : List Schema) : List String :=
  ground.filterMap (Kind.userName? ∘ Schema.kind)

theorem forall_userKinds {ground : List Schema} {holds : String → Prop}
    (all : ∀ name ∈ userKinds ground, holds name) :
    ∀ s ∈ ground, ∀ name, s.kind = .user name → holds name := by
  intro s member name own
  refine all name (List.mem_filterMap.mpr ⟨s, member, ?_⟩)
  rw [Function.comp_apply, own]
  rfl

namespace WellScoped

section
variable {registry : Registry} {supply : Nat} {left right : Schema} {leftScope rightScope : Scope}
  (wellScoped : WellScoped registry supply left right leftScope rightScope)
include wellScoped

theorem met_closed {p : Place} (met : p.Met (roots left right leftScope rightScope)) :
    p.Closed (reachable left right leftScope rightScope) := by
  refine met.invariant (fun root isRoot => ?_)
    fun p q _ closed reaches => closed.reaches wellScoped.placed.coherent reaches
  have within := roots_reachable left right leftScope rightScope root isRoot
  simp only [roots, List.mem_cons, List.not_mem_nil, or_false] at isRoot
  rcases isRoot with rfl | rfl
  · exact ⟨within, wellScoped.leftEntries, wellScoped.onLeft⟩
  · exact ⟨within, wellScoped.rightEntries, wellScoped.onRight⟩

-- What a place comes to is found, and its kind is known.
theorem come_resolves {p : Site} (come : p.Come (roots left right leftScope rightScope)) :
    Place.Resolves registry (p.schema, p.scope) := by
  have reached : ∃ t scope, p.scope.dereference p.schema = .ok (t, scope) := by
    rcases come with met | madeUp
    · exact (wellScoped.met_closed met).dereference wellScoped.placed.coherent wellScoped.unnamed
    · exact ⟨_, _, Scope.dereference_concrete madeUp.anonymous.concrete⟩
  obtain ⟨t, scope, reached⟩ := reached
  refine ⟨t, scope, reached, ?_⟩
  cases own : t.kind with
  | user name =>
    exact Registry.knows_of_get (come_user wellScoped.registered come reached own)
  | _ => rfl

theorem come_noRule (p : Site) (come : p.Come (roots left right leftScope rightScope))
    (kind : String) (own : p.schema.kind = .user kind) : registry.handler? kind = none := by
  have concrete : p.schema.isReference = false := by
    unfold Schema.kind at own
    cases shape : p.schema.shape with
    | reference form target =>
      rw [shape] at own
      cases form <;> cases own
    | _ => simp [Schema.isReference, shape]
  have registered := come_user wellScoped.registered come (Scope.dereference_concrete concrete) own
  simp only [Registry.handler?, registered, Option.join_some]

theorem come_prepares (p : Site) (come : p.Come (roots left right leftScope rightScope)) (w : World)
    (same : w.registry = registry) : ∃ q v, prepare p w = (.ok q, v) := by
  obtain ⟨t, scope, reached, known⟩ := wellScoped.come_resolves come
  obtain ⟨scopeMark, mark, supply, prepared⟩ := prepare_reached reached (same ▸ known)
  exact ⟨_, _, prepared⟩

-- Sites of such a query can always be prepared, so only the depth can be missing.
theorem visit_tooDeep {depth leftMark rightMark : Nat} {v : World} {fault : Fault}
    (same : v.registry = registry)
    (failed : (visit depth ⟨left, leftScope, leftMark⟩ ⟨right, rightScope, rightMark⟩ v).1 =
      .error fault) : fault = .tooDeep := by
  obtain ⟨comeL, comeR⟩ := roots_come left right leftScope rightScope leftMark rightMark
  obtain ⟨d, x, y, u, comeX, comeY, same, falls⟩ :=
    (visit_fault wellScoped.come_noRule comeL comeR same).2 fault failed
  rcases falls with ⟨-, stopped⟩ | ⟨t, broken⟩ | ⟨l, t, t', ran, broken⟩
  · exact stopped
  · obtain ⟨q, _, prepared⟩ := wellScoped.come_prepares x comeX u same
    rw [broken] at prepared
    cases prepared
  · have after := (prepare_follows ran).registry.trans same
    obtain ⟨q, _, prepared⟩ := wellScoped.come_prepares y comeY t after
    rw [broken] at prepared
    cases prepared

theorem met_sound {p : Place} (met : p.Met (roots left right leftScope rightScope)) :
    p.Sound (reachable left right leftScope rightScope) registry := by
  obtain ⟨schema, entries⟩ := (wellScoped.met_closed met).within
  refine ⟨schema, entries, fun q path => ?_⟩
  exact wellScoped.come_resolves (p := ⟨q.1, q.2, 0⟩) (.inl (met.looks path))

-- One depth at which strings and numbers come to an answer at every place.
theorem items_settle (ends : ¬ ∃ f : Nat → Place,
      (f 0).Met (roots left right leftScope rightScope) ∧ ∀ n, Place.Next (f n) (f (n + 1))) :
    ∃ bound, ∀ depth, bound ≤ depth → ∀ p : Place,
      p.Met (roots left right leftScope rightScope) →
      SettlesAt registry (fun s => s.isTextual = true) p depth ∧
        SettlesAt registry (fun s => s.shape = .basic .number) p depth := by
  have closed := reachable_closed left right leftScope rightScope
  have finite := Place.met_finite closed (roots_reachable left right leftScope rightScope)
  have each : ∀ p ∈ finite.toFinset.toList, ∃ bound, ∀ depth, bound ≤ depth →
      SettlesAt registry (fun s => s.isTextual = true) p depth ∧
        SettlesAt registry (fun s => s.shape = .basic .number) p depth := by
    intro p listed
    have met : p.Met (roots left right leftScope rightScope) := by simpa using listed
    have sound := wellScoped.met_sound met
    have acc : Acc (fun q p => Place.Next p q) p := by
      by_contra unbounded
      obtain ⟨f, start, next⟩ := not_acc_iff_exists_descending_chain.mp unbounded
      exact ends ⟨f, start ▸ met, next⟩
    obtain ⟨bound, texts⟩ := text_settles closed acc sound
    obtain ⟨bound', numbers⟩ := number_settles closed sound
    exact ⟨max bound bound', fun depth deep =>
      ⟨texts depth (by omega), numbers depth (by omega)⟩⟩
  obtain ⟨bound, settles⟩ := exists_bound each
  exact ⟨bound, fun depth deep p met => settles depth deep p (by simpa using met)⟩

end

end WellScoped

-- A query whose references all name something in sight never comes upon anything that it cannot
-- deal with: it has an answer, or has not come to its end at the depth allowed. As long as records
-- indexed by numbers do not follow one another forever, there is a depth from which on it has one.
theorem wellScoped_answers {left right : Schema} {leftScope rightScope : Scope} {w : World}
    (wellScoped : WellScoped w.registry w.supply left right leftScope rightScope) :
    (∀ depth, (∃ b, (query (compareSchemas depth left right leftScope rightScope) w).1 = .ok b) ∨
      (query (compareSchemas depth left right leftScope rightScope) w).1 = .error .tooDeep) ∧
    ((¬ ∃ f : Nat → Place, (f 0).Met [(left, leftScope), (right, rightScope)] ∧
        ∀ n, Place.Next (f n) (f (n + 1))) →
      ∃ bound, ∀ depth, bound ≤ depth →
        ∃ b, (query (compareSchemas depth left right leftScope rightScope) w).1 = .ok b) := by
  constructor
  · intro depth
    obtain ⟨leftMark, rightMark, v, same, returned⟩ :=
      query_visits depth left right leftScope rightScope w
    rw [returned]
    cases outcome : (visit depth ⟨left, leftScope, leftMark⟩ ⟨right, rightScope, rightMark⟩
      v).1 with
    | ok b => exact .inl ⟨b, rfl⟩
    | error fault =>
      rw [wellScoped.visit_tooDeep same outcome]
      exact .inr rfl
  · intro ends
    obtain ⟨bound, items⟩ := wellScoped.items_settle ends
    refine ⟨depthBound left right leftScope rightScope + bound, fun depth deep => ?_⟩
    obtain ⟨leftMark, rightMark, v, same, returned⟩ :=
      query_visits depth left right leftScope rightScope w
    rw [returned]
    obtain ⟨comeL, comeR⟩ := roots_come left right leftScope rightScope leftMark rightMark
    obtain ⟨m, n, rankedL, rankedR, less⟩ := roots_ranked left right leftScope rightScope leftMark
      rightMark v
    exact (come_settles (reachable_closed left right leftScope rightScope) wellScoped.come_noRule
      wellScoped.come_prepares items comeL comeR rankedL rankedR same (by omega)).answers

-- Records indexed by numbers that hold strings or numbers only.
theorem no_succession {roots : List Place} {ground : List Schema}
    (closed : ∀ s ∈ ground, ∀ c ∈ s.children, c ∈ ground)
    (start : ∀ root ∈ roots, root.1 ∈ ground ∧ ∀ e ∈ root.2, e ∈ ground)
    (flat : ∀ t ∈ ground, Rule.isNumericRecord t = true →
      ∀ c ∈ t.children, c.isStringOrNumber = true) :
    ¬ ∃ f : Nat → Place, (f 0).Met roots ∧ ∀ n, Place.Next (f n) (f (n + 1)) := by
  rintro ⟨f, met, next⟩
  have plain : (f 1).1.isStringOrNumber = true := by
    obtain ⟨r, path, t, key, reached, shape, numeric⟩ := next 0
    have later : r.Met roots :=
      met.looks (ReflTransGen.mono (fun _ _ variant => .inl variant) _ _ path)
    obtain ⟨schema, scope⟩ := later.among closed start
    exact flat t (Scope.dereference_among schema scope reached).1
      (by simp [Rule.isNumericRecord, shape, numeric]) _ (by simp [Schema.children, shape])
  obtain ⟨r, path, t, key, reached, shape, -⟩ := next 1
  have here : (f 1).2.dereference (f 1).1 = .ok ((f 1).1, (f 1).2.push (f 1).1) :=
    Scope.dereference_concrete (plain_concrete plain).1
  have none : (f 1).1.variants = [] := by
    rcases stringOrNumber_shape plain with own | own | ⟨text, own⟩ <;>
      simp [Schema.variants, own]
  rw [Place.eq_of_no_variants here none path] at reached
  obtain ⟨rfl, -⟩ := Place.reached_unique reached here
  rcases stringOrNumber_shape plain with own | own | ⟨text, own⟩ <;> simp [own] at shape

-- Entries that refer to each other, with a user kind and a numeric record that holds no records.
def paired : Schema :=
  .mk 0 (.text "one") false (.object
    [("indexed", .plain (.record (.basic .number) (.basic .string))),
      ("next", .plain (.reference .this (.text "one"))),
      ("first", .plain (.reference .ref (.text "other")))] .null)

def partner : Schema :=
  .mk 0 (.text "other") false (.object
    [("price", .plain (.user ⟨"Unit", rfl⟩ [])), ("place", .plain (.reference .ref (.text "one")))]
    .null)

def toPaired : Schema := .plain (.reference .ref (.text "one"))

-- Everything refers to something in scope, on either side in another order.
theorem mutual_references_answer :
    ∃ bound, ∀ depth, bound ≤ depth →
      ∃ b, (query (compareSchemas depth (toPaired.place 20).1 (toPaired.place 19).1
        [(paired.place 13).1, (partner.place 10).1] [(partner.place 7).1, (paired.place 1).1])
        { supply := 21, registry := [("Unit", none)] }).1 = .ok b := by
  have placed : Placed 21 [(toPaired.place 20).1, (toPaired.place 19).1, (paired.place 13).1,
      (partner.place 10).1, (partner.place 7).1, (paired.place 1).1] :=
    ((((@Placed.two 1 paired partner (by decide) (by decide)).placeNew partner (by decide)).placeNew
      paired (by decide)).placeNew toPaired (by decide)).placeNew toPaired (by decide)
  have kinds : ∀ name ∈ userKinds (reachable (toPaired.place 20).1 (toPaired.place 19).1
      [(paired.place 13).1, (partner.place 10).1] [(partner.place 7).1, (paired.place 1).1]),
      name = "Unit" := by decide
  refine (wellScoped_answers ⟨placed, by decide, by decide, by decide, by decide, by decide,
    forall_userKinds fun name listed => ?_⟩).2 ?_
  · rw [kinds name listed]
    rfl
  · exact no_succession (reachable_closed _ _ _ _) (roots_reachable _ _ _ _) (by decide)

def textLiteral : Schema := .plain (.literal (.text "ab"))

-- Values that are such records again or else strings: everything refers to something in scope, and
-- there is no answer at any depth.
theorem record_in_record_never_answers :
    WellScoped [] 7 (textLiteral.place 6).1
      ((indexed (.plain (.union [back, string]))).place 1).1 [] [] ∧
    ∀ depth, (query (compareSchemas depth (textLiteral.place 6).1
      ((indexed (.plain (.union [back, string]))).place 1).1 [] []) { supply := 7 }).1 =
        .error .tooDeep := by
  have placed : Placed 7 [(textLiteral.place 6).1,
      ((indexed (.plain (.union [back, string]))).place 1).1] :=
    @Placed.two 1 (indexed (.plain (.union [back, string]))) textLiteral (by decide) (by decide)
  refine ⟨⟨placed, by decide, by decide, by decide, by decide, by decide,
    forall_userKinds fun name listed => absurd listed List.not_mem_nil⟩, ?_⟩
  let r := ((indexed (.plain (.union [back, string]))).place 1).1
  let choice : Schema := .mk 3 .null false (.union [(back.place 4).1, (string.place 5).1])
  refine query_endless rfl placed rfl
    ⟨fun n => n.casesOn (r, []) fun _ => (choice, [r]), rfl, fun n => ?_⟩
  cases n with
  | zero => exact ⟨_, .refl, r, _, rfl, rfl, rfl⟩
  | succ n => exact ⟨((back.place 4).1, [r]), .single ⟨choice, rfl, rfl⟩, r, _, rfl, rfl, rfl⟩

end Engine

end Assignability
