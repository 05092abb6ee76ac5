import Assignability.Proofs.Data
import Assignability.Proofs.Narrowing

namespace Assignability

-- If neither side is an object, one thing extends another by what both are made of, part by part.
-- An object is extended by other things through at most one member.

theorem same_iff {x y : Binary64} :
    x.same y = true ↔ (∃ k, x = .nan k ∧ y = .nan k) ∨ x.compare? y = some .eq := by
  cases x with
  | nan k =>
    cases y with
    | nan j =>
      simp only [Binary64.same, Binary64.compare?, beq_iff_eq, reduceCtorEq, or_false]
      refine ⟨fun same => ⟨j, congrArg _ same, rfl⟩, ?_⟩
      rintro ⟨i, first, second⟩
      cases first
      cases second
      rfl
    | _ => simp [Binary64.same, Binary64.compare?]
  | _ => simp [Binary64.same]

theorem same_trans {x y z : Binary64} (first : x.same y = true) (second : y.same z = true) :
    x.same z = true := by
  rw [same_iff] at first second ⊢
  rcases first with ⟨k, rfl, rfl⟩ | first
  · rcases second with ⟨k', same, rfl⟩ | second
    · exact .inl ⟨k', same, rfl⟩
    · simp [Binary64.compare?] at second
  · refine .inr ?_
    rcases compare_eq_iff.mp first with ⟨a, rfl, rfl⟩ | ⟨a, m, e, b, n, f, rfl, rfl, amount⟩ <;>
      rcases second with ⟨k, differs, -⟩ | second
    · cases differs
    · exact second
    · cases differs
    · cases z <;> simp_all [Binary64.compare?]

theorem Scalar.sameLiteral_trans {x y z : Scalar} (first : x.sameLiteral y = true)
    (second : y.sameLiteral z = true) : x.sameLiteral z = true := by
  cases x <;> cases y <;> cases z <;> simp_all [Scalar.sameLiteral]
  exact same_trans first second

theorem Scalar.sameLiteral_traits {x y : Scalar} (same : x.sameLiteral y = true) :
    x.isText = y.isText ∧ x.isNumber = y.isNumber ∧ x.isWhole = y.isWhole ∧
      x.isBool = y.isBool := by
  cases x <;> cases y <;>
    simp_all [Scalar.sameLiteral, Scalar.isText, Scalar.isNumber, Scalar.isWhole, Scalar.isBool]
  rcases same_iff.mp same with ⟨k, rfl, rfl⟩ | equal
  · rfl
  · rw [compare_eq_toInt equal]

-- Which kinds without content a literal is one of.
def Scalar.isOf (value : Scalar) : Basic → Bool
  | .string => value.isText
  | .number => value.isNumber
  | .integer => value.isWhole
  | .boolean => value.isBool
  | _ => false

section
variable {α β γ : Type} {xs : List α} {ys : List β} {zs : List γ}

theorem zip_partner {x : α} (member : x ∈ xs) (fits : xs.length ≤ ys.length) :
    ∃ y, (x, y) ∈ xs.zip ys := by
  induction xs generalizing ys with
  | nil => cases member
  | cons head rest ih =>
    cases ys with
    | nil => simp at fits
    | cons other others =>
      rcases List.mem_cons.mp member with rfl | later
      · exact ⟨other, List.mem_cons_self⟩
      · obtain ⟨y, found⟩ := ih later (Nat.le_of_succ_le_succ fits)
        exact ⟨y, List.mem_cons_of_mem _ found⟩

theorem zip_through {x : α} {z : γ} (member : (x, z) ∈ xs.zip zs) (fits : xs.length ≤ ys.length) :
    ∃ y, (x, y) ∈ xs.zip ys ∧ (y, z) ∈ ys.zip zs := by
  induction xs generalizing ys zs with
  | nil => cases member
  | cons head rest ih =>
    cases ys with
    | nil => simp at fits
    | cons other others =>
      cases zs with
      | nil => simp at member
      | cons last more =>
        rcases List.mem_cons.mp member with same | later
        · cases same
          exact ⟨other, List.mem_cons_self, List.mem_cons_self⟩
        · obtain ⟨y, first, second⟩ := ih later (Nat.le_of_succ_le_succ fits)
          exact ⟨y, List.mem_cons_of_mem _ first, List.mem_cons_of_mem _ second⟩

end

namespace Rule

-- Which objects something that is no object extends: none, those without properties, or also those
-- whose one property is what this member extends.
inductive Only where
  | nothing
  | empty
  | member (name : String) (m : Schema)

def Only.goal (properties : List (String × Schema)) (right : Site) : Only → Goal
  | .nothing => .answer false
  | .empty => .answer properties.isEmpty
  | .member name m => hasOnly properties right name m

def only (mark : Nat) : Shape → Only
  | .basic .string => .member "length" (lengthMember mark)
  | .basic .uint8Array => .member "length" (lengthMember mark)
  | .basic .symbol => .member "description" (descriptionMember mark)
  | .basic .number => .empty
  | .basic .integer => .empty
  | .basic .boolean => .empty
  | .basic .bigint => .empty
  | .basic .date => .empty
  | .literal (.text _) => .member "length" (lengthMember mark)
  | .literal _ => .empty
  | .callable .function _ _ => .member "length" (lengthMember mark)
  | .callable .constructor _ _ => .empty
  | .promise _ => .member "then" (thenMember mark)
  | .array _ => .member "length" (lengthMember mark)
  | .tuple _ => .member "length" (lengthMember mark)
  | _ => .nothing

-- What is left for the rules by kind once unions and intersections are taken apart.
structure Apart (registry : Registry) (s : Schema) : Prop where
  tame : s.Tame registry
  plain : s.isTemplate = false
  notUnion : s.united? = none
  notIntersect : s.intersected? = none
  notAny : s.kind ≠ .any

def isObject (s : Schema) : Bool :=
  match s.shape with
  | .object _ _ => true
  | _ => false

section
variable {registry : Registry} {mark : Nat} {left right : Site}
  (noHandlers : ∀ kind, registry.handler? kind = none)

omit noHandlers in
theorem only_member {s : Schema} {name : String} {m : Schema}
    (found : only mark s.shape = .member name m) : m ∈ members mark ∧ m.weight < s.weight := by
  have lighter := weight_of_shape (rfl : s.shape = s.shape)
  cases shape : s.shape with
  | basic b =>
    rw [shape] at found lighter
    cases b <;> simp only [only, reduceCtorEq, Only.member.injEq] at found <;>
      obtain ⟨-, rfl⟩ := found <;> simp [members, lighter, Shape.weight]
  | literal value =>
    rw [shape] at found lighter
    cases value <;> simp only [only, reduceCtorEq, Only.member.injEq] at found
    obtain ⟨-, rfl⟩ := found
    simp [members, lighter, Shape.weight]
  | callable form parameters returns =>
    rw [shape] at found lighter
    have positive := weight_pos returns
    cases form <;> simp only [only, reduceCtorEq, Only.member.injEq] at found
    obtain ⟨-, rfl⟩ := found
    simp only [members, List.mem_cons, true_or, true_and, lighter, Shape.weight,
      lengthMember_weight]
    omega
  | promise item =>
    rw [shape] at found lighter
    have positive := weight_pos item
    simp only [only, Only.member.injEq] at found
    obtain ⟨-, rfl⟩ := found
    simp only [members, List.mem_cons, true_or, or_true, true_and, lighter, Shape.weight,
      thenMember_weight]
    omega
  | array items =>
    rw [shape] at found lighter
    have positive := weight_pos items
    simp only [only, Only.member.injEq] at found
    obtain ⟨-, rfl⟩ := found
    simp only [members, List.mem_cons, true_or, true_and, lighter, Shape.weight,
      lengthMember_weight]
    omega
  | tuple items =>
    rw [shape] at found lighter
    simp only [only, Only.member.injEq] at found
    obtain ⟨-, rfl⟩ := found
    simp only [members, List.mem_cons, true_or, true_and, lighter, Shape.weight,
      lengthMember_weight]
    omega
  | _ => simp [only, shape] at found

include noHandlers

theorem byKind_object {properties : List (String × Schema)} {additional : Value}
    (apart : Apart registry left.schema) (notObject : isObject left.schema = false)
    (shape : right.schema.shape = .object properties additional) :
    byKind registry mark left right = (only mark left.schema.shape).goal properties right := by
  have allowed := apart.tame.shape
  have notAny := apart.notAny
  have notNever := apart.tame.not_never
  cases leftShape : left.schema.shape with
  | basic b =>
    cases b <;> simp_all [byKind, primitive, objectRight, only, Only.goal, Schema.kind, Shape.kind,
      Basic.kind]
  | literal value =>
    cases value <;> simp [byKind, literal, objectRight, leftShape, shape, only, Only.goal]
  | callable form parameters returns =>
    cases form <;> simp [byKind, callable, objectRight, leftShape, shape, only, Only.goal]
  | promise item => simp [byKind, promise, objectRight, leftShape, shape, only, Only.goal]
  | array items => simp [byKind, array, leftShape, shape, only, Only.goal]
  | tuple items => simp [byKind, tuple, leftShape, shape, only, Only.goal]
  | object _ _ => simp [isObject, leftShape] at notObject
  | record _ _ => simp [leftShape, Shape.tame] at allowed
  | user kind fields =>
    have differs : (right.schema.kind == .user kind) = false := by
      simp [Schema.kind, shape, Shape.kind]
    simp [byKind, user, leftShape, noHandlers, only, Only.goal, differs]
  | template _ => simpa [Schema.isTemplate, leftShape] using apart.plain
  | union _ => simpa [Schema.united?, leftShape] using apart.notUnion
  | intersect _ => simpa [Schema.intersected?, leftShape] using apart.notIntersect
  | reference _ _ => simp [leftShape, Shape.tame] at allowed

end

-- How one thing extends another if neither is an object.
inductive Agrees (below : Schema → Schema → Prop) : Shape → Shape → Prop
  | basic {x y : Basic} : x ≠ .unknown → (accepted x).contains y = true →
    Agrees below (.basic x) (.basic y)
  | literal {x y : Scalar} : x.sameLiteral y = true → Agrees below (.literal x) (.literal y)
  | ofKind {x : Scalar} {y : Basic} : x.isOf y = true → Agrees below (.literal x) (.basic y)
  | callable {form : CallForm} {ours theirs : List Schema} {returns result : Schema} :
    ours.length ≤ theirs.length → (∀ p q, (p, q) ∈ ours.zip theirs → below q p) →
    below returns result → Agrees below (.callable form ours returns) (.callable form theirs result)
  | promise {s t : Schema} : below s t → Agrees below (.promise s) (.promise t)
  | array {s t : Schema} : below s t → Agrees below (.array s) (.array t)
  | tuple {ours theirs : List Schema} : ours.length = theirs.length →
    (∀ s t, (s, t) ∈ ours.zip theirs → below s t) → Agrees below (.tuple ours) (.tuple theirs)
  | items {ours : List Schema} {t : Schema} : (∀ s ∈ ours, below s t) →
    Agrees below (.tuple ours) (.array t)
  | user {kind : UserKind} {fields others : List (String × Value)} :
    Agrees below (.user kind fields) (.user kind others)

section
variable {registry : Registry} {mark : Nat} {left right : Site} {below : Schema → Schema → Prop}
  (noHandlers : ∀ kind, registry.handler? kind = none)

theorem literal_agrees {value : Scalar} (tame : right.schema.Tame registry)
    (notObject : isObject right.schema = false)
    (yields : (literal mark left right value).Yields (fun x y _ => below x.schema y.schema) true) :
    Agrees below (.literal value) right.schema.shape := by
  have allowed := tame.shape
  cases shape : right.schema.shape with
  | literal other =>
    simp only [literal, shape, Goal.answer_yields] at yields
    exact .literal yields
  | basic b =>
    refine .ofKind ?_
    cases b <;> simp_all [literal, Scalar.isOf]
  | object _ _ => simp [isObject, shape] at notObject
  | record _ _ => simp [shape, Shape.tame] at allowed
  | _ => simp [literal, shape] at yields

theorem primitive_agrees {b : Basic} (notUnknown : b ≠ .unknown)
    (tame : right.schema.Tame registry) (notObject : isObject right.schema = false)
    (yields : (primitive mark left right b).Yields (fun x y _ => below x.schema y.schema) true) :
    Agrees below (.basic b) right.schema.shape := by
  have allowed := tame.shape
  cases shape : right.schema.shape with
  | basic other =>
    simp only [primitive, shape, Goal.answer_yields] at yields
    exact .basic notUnknown yields
  | object _ _ => simp [isObject, shape] at notObject
  | record _ _ => simp [shape, Shape.tame] at allowed
  | _ => simp [primitive, shape] at yields

theorem callable_agrees {form : CallForm} {ours : List Schema} {returns : Schema}
    (notObject : isObject right.schema = false)
    (yields : (callable mark left right form ours returns).Yields
      (fun x y _ => below x.schema y.schema) true) :
    Agrees below (.callable form ours returns) right.schema.shape := by
  cases shape : right.schema.shape with
  | callable other theirs result =>
    simp only [callable, shape] at yields
    split at yields
    · rename_i fits
      obtain ⟨rfl, fits⟩ := fits
      simp only [Goal.all_yields, List.mem_append, List.mem_map, List.mem_singleton] at yields
      refine .callable fits (fun p q member => ?_) (yields _ (.inr rfl))
      exact yields _ (.inl ⟨(p, q), member, rfl⟩)
    · simp at yields
  | object _ _ => simp [isObject, shape] at notObject
  | _ => simp [callable, shape] at yields

theorem tuple_agrees {ours : List Schema} (tame : right.schema.Tame registry)
    (notObject : isObject right.schema = false)
    (yields : (tuple mark left right ours).Yields (fun x y _ => below x.schema y.schema) true) :
    Agrees below (.tuple ours) right.schema.shape := by
  have allowed := tame.shape
  cases shape : right.schema.shape with
  | tuple theirs =>
    simp only [tuple, shape] at yields
    split at yields
    · rename_i fits
      rw [Goal.all_yields] at yields
      exact .tuple fits fun s t member => yields _ (List.mem_map.mpr ⟨(s, t), member, rfl⟩)
    · simp at yields
  | array other =>
    simp only [tuple, shape, Goal.all_yields] at yields
    exact .items fun s member => yields _ (List.mem_map_of_mem member)
  | object _ _ => simp [isObject, shape] at notObject
  | record _ _ => simp [shape, Shape.tame] at allowed
  | _ => simp [tuple, shape] at yields

theorem user_agrees {kind : UserKind} {fields : List (String × Value)}
    (same : right.schema.kind = .user kind) :
    Agrees below (.user kind fields) right.schema.shape := by
  unfold Schema.kind at same
  cases shape : right.schema.shape with
  | user other others =>
    rw [shape, Shape.kind, Kind.user.injEq] at same
    cases UserKind.ext same
    exact .user
  | basic b => cases b <;> simp [shape, Shape.kind, Basic.kind] at same
  | callable form _ _ => cases form <;> simp [shape, Shape.kind, CallForm.kind] at same
  | reference form _ => cases form <;> simp [shape, Shape.kind, ReferenceForm.kind] at same
  | _ => simp [shape, Shape.kind] at same

include noHandlers

theorem byKind_agrees (leftTame : left.schema.Tame registry) (tame : right.schema.Tame registry)
    (notObject : isObject right.schema = false)
    (yields : (byKind registry mark left right).Yields (fun x y _ => below x.schema y.schema)
      true) :
    Agrees below left.schema.shape right.schema.shape := by
  have allowed := tame.shape
  cases shape : left.schema.shape with
  | basic b =>
    cases b <;> simp only [byKind, shape] at yields
    case unknown => simp at yields
    case any | never => exact yields.elim
    all_goals exact primitive_agrees (by decide) tame notObject yields
  | literal value =>
    simp only [byKind, shape] at yields
    exact literal_agrees tame notObject yields
  | callable form parameters returns =>
    simp only [byKind, shape] at yields
    exact callable_agrees notObject yields
  | promise item =>
    cases rightShape : right.schema.shape with
    | promise other =>
      simp only [byKind, shape, promise, rightShape, Goal.compare_yields] at yields
      exact .promise yields
    | object _ _ => simp [isObject, rightShape] at notObject
    | _ => simp [byKind, shape, promise, rightShape] at yields
  | array items =>
    cases rightShape : right.schema.shape with
    | array other =>
      simp only [byKind, shape, array, rightShape, Goal.compare_yields] at yields
      exact .array yields
    | object _ _ => simp [isObject, rightShape] at notObject
    | record _ _ => simp [rightShape, Shape.tame] at allowed
    | _ => simp [byKind, shape, array, rightShape] at yields
  | tuple items =>
    simp only [byKind, shape] at yields
    exact tuple_agrees tame notObject yields
  | object properties additional =>
    cases rightShape : right.schema.shape with
    | object _ _ => simp [isObject, rightShape] at notObject
    | record _ _ => simp [rightShape, Shape.tame] at allowed
    | _ => simp [byKind, shape, object, rightShape] at yields
  | record _ _ => simpa [shape, Shape.tame] using leftTame.shape
  | user kind fields =>
    simp only [byKind, shape, user, noHandlers, Goal.answer_yields, beq_iff_eq] at yields
    exact user_agrees yields
  | template _ | union _ | intersect _ | reference _ _ =>
    simp only [byKind, shape] at yields
    exact yields.elim

theorem agrees_byKind (apart : Apart registry left.schema)
    (agrees : Agrees below left.schema.shape right.schema.shape) :
    (byKind registry mark left right).Yields (fun x y _ => below x.schema y.schema) true := by
  have notAny : left.schema.shape ≠ .basic .any := mt kind_basic.mpr apart.notAny
  have notNever : left.schema.shape ≠ .basic .never := mt kind_basic.mpr apart.tame.not_never
  unfold byKind
  have rightKind : right.schema.kind = right.schema.shape.kind := rfl
  generalize leftShape : left.schema.shape = shape at agrees notAny notNever
  generalize rightShape : right.schema.shape = shape' at agrees rightKind
  cases agrees with
  | @basic x y notUnknown listed => cases x <;> simp_all [primitive]
  | literal same => simp [literal, rightShape, same]
  | @ofKind x y holds => cases y <;> simp_all [literal, Scalar.isOf]
  | callable fits parameters returns =>
    simp only [callable, rightShape, fits, and_self, if_true, Goal.all_yields, List.mem_append,
      List.mem_map, List.mem_singleton]
    rintro step (⟨⟨p, q⟩, member, rfl⟩ | rfl)
    · exact parameters p q member
    · exact returns
  | promise item => simpa [promise, rightShape, Site.to] using item
  | array item => simpa [array, rightShape, Site.to] using item
  | tuple fits each =>
    simp only [tuple, rightShape, fits, if_true, Goal.all_yields, List.mem_map]
    rintro step ⟨⟨s, t⟩, member, rfl⟩
    exact each s t member
  | items each =>
    simp only [tuple, rightShape, Goal.all_yields, List.mem_map]
    rintro step ⟨s, member, rfl⟩
    exact each s member
  | user => simp [user, noHandlers, rightKind, Shape.kind]

end

-- What extends something that is no object has the same member.
theorem Agrees.only_eq {below : Schema → Schema → Prop} {shape shape' : Shape}
    (agrees : Agrees below shape shape') (mark : Nat) : only mark shape = only mark shape' := by
  cases agrees with
  | @basic x y notUnknown listed => cases x <;> cases y <;> simp_all [accepted, only]
  | @literal x y same => cases x <;> cases y <;> simp_all [Scalar.sameLiteral, only]
  | @ofKind x y holds =>
    cases x <;> cases y <;> simp_all [Scalar.isOf, only, Scalar.isText, Scalar.isNumber,
      Scalar.isWhole, Scalar.isBool]
  | @callable form _ _ _ _ fits parameters returns => cases form <;> rfl
  | _ => rfl

theorem accepted_trans {x y z : Basic} (first : (accepted x).contains y = true)
    (second : (accepted y).contains z = true) : (accepted x).contains z = true := by
  cases x <;> cases y <;> simp_all [accepted]

theorem isOf_accepted {value : Scalar} {x y : Basic} (holds : value.isOf x = true)
    (listed : (accepted x).contains y = true) : value.isOf y = true := by
  cases x <;> cases y <;> simp_all [Scalar.isOf, accepted]
  -- Whole numbers are numbers.
  cases value <;> simp_all [Scalar.isWhole, Scalar.isNumber]

theorem isOf_sameLiteral {value other : Scalar} (same : value.sameLiteral other = true)
    (b : Basic) : value.isOf b = other.isOf b := by
  obtain ⟨text, number, whole, bool⟩ := Scalar.sameLiteral_traits same
  cases b <;> simp [Scalar.isOf, text, number, whole, bool]

-- Whatever composes on the parts composes on the whole; parameters compose the other way round.
theorem Agrees.trans {below : Schema → Schema → Prop} {a b c : Schema}
    (onward : ∀ x ∈ a.children, ∀ y ∈ b.children, ∀ z ∈ c.children,
      below x y → below y z → below x z)
    (backward : ∀ x ∈ a.children, ∀ y ∈ b.children, ∀ z ∈ c.children,
      below z y → below y x → below z x)
    (first : Agrees below a.shape b.shape) (second : Agrees below b.shape c.shape) :
    Agrees below a.shape c.shape := by
  obtain ⟨_, _, _, a⟩ := a
  obtain ⟨_, _, _, b⟩ := b
  obtain ⟨_, _, _, c⟩ := c
  simp only [Schema.shape] at first second ⊢
  simp only [Schema.children, Schema.shape] at onward backward
  cases first with
  | basic notUnknown listed =>
    cases second with
    | basic _ listed' => exact .basic notUnknown (accepted_trans listed listed')
  | literal same =>
    cases second with
    | literal same' => exact .literal (Scalar.sameLiteral_trans same same')
    | ofKind holds => exact .ofKind ((isOf_sameLiteral same _).trans holds)
  | ofKind holds =>
    cases second with
    | basic _ listed => exact .ofKind (isOf_accepted holds listed)
  | callable fits parameters returns =>
    cases second with
    | callable fits' parameters' returns' =>
      refine .callable (Nat.le_trans fits fits') (fun p r member => ?_) ?_
      · obtain ⟨q, inFirst, inSecond⟩ := zip_through member fits
        refine backward p ?_ q ?_ r ?_ (parameters' q r inSecond) (parameters p q inFirst)
        · exact List.mem_append_left _ (List.of_mem_zip inFirst).1
        · exact List.mem_append_left _ (List.of_mem_zip inFirst).2
        · exact List.mem_append_left _ (List.of_mem_zip inSecond).2
      · exact onward _ (by simp) _ (by simp) _ (by simp) returns returns'
  | promise item =>
    cases second with
    | promise item' => exact .promise (onward _ (by simp) _ (by simp) _ (by simp) item item')
  | array item =>
    cases second with
    | array item' => exact .array (onward _ (by simp) _ (by simp) _ (by simp) item item')
  | tuple fits each =>
    cases second with
    | tuple fits' each' =>
      refine .tuple (fits.trans fits') fun s u member => ?_
      obtain ⟨t, inFirst, inSecond⟩ := zip_through member (Nat.le_of_eq fits)
      exact onward s (List.of_mem_zip inFirst).1 t (List.of_mem_zip inFirst).2 u
        (List.of_mem_zip inSecond).2 (each s t inFirst) (each' t u inSecond)
    | items each' =>
      refine .items fun s member => ?_
      obtain ⟨t, inFirst⟩ := zip_partner member (Nat.le_of_eq fits)
      have inside := (List.of_mem_zip inFirst).2
      exact onward s member t inside _ (by simp) (each s t inFirst) (each' t inside)
  | items each =>
    cases second with
    | array item =>
      exact .items fun s member => onward s member _ (by simp) _ (by simp) (each s member) item
  | user =>
    cases second with
    | user => exact .user

theorem isObject_iff {s : Schema} :
    isObject s = true ↔ ∃ properties additional, s.shape = .object properties additional := by
  unfold isObject
  split <;> simp_all

theorem Agrees.notObject {below : Schema → Schema → Prop} {s t : Schema}
    (agrees : Agrees below s.shape t.shape) : isObject s = false ∧ isObject t = false := by
  unfold isObject
  generalize s.shape = shape, t.shape = shape' at agrees ⊢
  cases agrees <;> exact ⟨rfl, rfl⟩

section
variable {registry : Registry} {left right : Site} {below : Schema → Schema → Prop}
  {ours theirs : List (String × Schema)} {policy additional : Value}

theorem tame_property {s : Schema} (tame : s.Tame registry)
    (shape : s.shape = .object theirs additional) {p : String × Schema} (member : p ∈ theirs) :
    p.2.optional = false := by
  have allowed := tame.shape
  simp only [shape, Shape.tame, Bool.and_eq_true, List.all_eq_true] at allowed
  simpa using allowed.1 p member

theorem object_yields (leftTame : left.schema.Tame registry)
    (rightTame : right.schema.Tame registry)
    (leftShape : left.schema.shape = .object ours policy)
    (rightShape : right.schema.shape = .object theirs additional) :
    (byKind registry 0 left right).Yields (fun x y _ => below x.schema y.schema) true ↔
      ∀ q ∈ theirs, ∃ s, ours.lookup q.1 = some s ∧ below s q.2 := by
  have undeclared : ∀ steps, additionalStep additional steps = [] := by
    have allowed := rightTame.shape
    simp only [rightShape, Shape.tame, Bool.and_eq_true] at allowed
    intro steps
    cases additional <;> simp_all [additionalStep, Value.schema?]
  simp only [byKind, Rule.object, leftShape, rightShape]
  rw [objectObject_eq, undeclared, List.append_nil, Goal.all_yields]
  simp only [List.mem_flatMap, forall_exists_index, and_imp]
  constructor
  · intro each q member
    cases found : ours.lookup q.1 with
    | none =>
      have absent := each (.holds q.2.optional) q member (by simp [found, propertySteps])
      simp [Step.Yields, tame_property rightTame rightShape member] at absent
    | some s =>
      refine ⟨s, rfl, ?_⟩
      exact each (.compare (left.to s) (right.to q.2)) q member
        (by simp [found, propertySteps, property])
  · intro each step q member asked
    obtain ⟨s, found, holds⟩ := each q member
    simp only [found, propertySteps, property, List.mem_cons, List.not_mem_nil, or_false] at asked
    rcases asked with rfl | rfl
    · exact holds
    · have required := tame_property leftTame leftShape (lookup_mem found)
      simp only at required
      simp [Step.Yields, Site.to, required]

-- Against an object that has no more properties, the member of something else still does.
theorem only_trans {middle : Site} {only : Only} (distinct : (theirs.map Prod.fst).Nodup)
    (chain : ∀ name m, only = .member name m → ∀ s ∈ ours, ∀ t ∈ theirs,
      below m s.2 → below s.2 t.2 → below m t.2)
    (each : ∀ q ∈ theirs, ∃ s, ours.lookup q.1 = some s ∧ below s q.2)
    (yields : (only.goal ours middle).Yields (fun x y _ => below x.schema y.schema) true) :
    (only.goal theirs right).Yields (fun x y _ => below x.schema y.schema) true := by
  have none : ours = [] → theirs = [] := by
    rintro rfl
    rw [List.eq_nil_iff_forall_not_mem]
    intro q member
    obtain ⟨s, found, -⟩ := each q member
    cases found
  have single : ∀ {one s}, ours = [(one, s)] → ∀ q ∈ theirs, q.1 = one ∧ below s q.2 := by
    rintro one s rfl q member
    obtain ⟨t, found, holds⟩ := each q member
    have entry := lookup_mem found
    cases List.mem_singleton.mp entry
    exact ⟨rfl, holds⟩
  cases only with
  | nothing => exact yields
  | empty =>
    simp only [Only.goal, Goal.answer_yields, List.isEmpty_iff] at yields ⊢
    exact none yields
  | member name m =>
    simp only [Only.goal] at yields ⊢
    rcases theirs with _ | ⟨q, rest⟩
    · simp [hasOnly]
    rcases ours with _ | ⟨⟨one, s⟩, _ | _⟩
    · exact absurd (none rfl) (by simp)
    · rcases rest with _ | ⟨r, _⟩
      · obtain ⟨other, u⟩ := q
        obtain ⟨rfl, holds⟩ := single rfl (other, u) List.mem_cons_self
        simp only [hasOnly] at yields ⊢
        split
        · rename_i isName
          rw [if_pos isName, Goal.compare_yields] at yields
          rw [Goal.compare_yields]
          exact chain name m rfl _ List.mem_cons_self _ List.mem_cons_self yields holds
        · rename_i differs
          rw [if_neg differs] at yields
          exact yields
      · have same := (single rfl q List.mem_cons_self).1
        have same' := (single rfl r (List.mem_cons_of_mem _ List.mem_cons_self)).1
        simp [same, same'] at distinct
    · simp [hasOnly] at yields

end

-- The rules by kind, through a schema in the middle.
theorem byKind_trans {registry : Registry} (noHandlers : ∀ kind, registry.handler? kind = none)
    {below : Schema → Schema → Prop} {a b c : Schema} (onLeft : Apart registry a)
    (between : Apart registry b) (onRight : c.Tame registry)
    (onward : ∀ x ∈ a.children, ∀ y ∈ b.children, ∀ z ∈ c.children,
      below x y → below y z → below x z)
    (backward : ∀ x ∈ a.children, ∀ y ∈ b.children, ∀ z ∈ c.children,
      below z y → below y x → below z x)
    (member : ∀ m ∈ members 0, m.weight < a.weight → ∀ y ∈ b.children, ∀ z ∈ c.children,
      below m y → below y z → below m z)
    (first : (byKind registry 0 (.bare a) (.bare b)).Yields (fun x y _ => below x.schema y.schema)
      true)
    (second : (byKind registry 0 (.bare b) (.bare c)).Yields (fun x y _ => below x.schema y.schema)
      true) :
    (byKind registry 0 (.bare a) (.bare c)).Yields (fun x y _ => below x.schema y.schema) true := by
  cases target : isObject c with
  | false =>
    have later := byKind_agrees noHandlers between.tame onRight target second
    have earlier := byKind_agrees noHandlers onLeft.tame between.tame later.notObject.1 first
    exact agrees_byKind noHandlers onLeft (earlier.trans onward backward later)
  | true =>
    obtain ⟨theirs, additional, rightShape⟩ := isObject_iff.mp target
    cases through : isObject b with
    | false =>
      have agrees := byKind_agrees noHandlers onLeft.tame between.tame through first
      rw [byKind_object noHandlers between through rightShape] at second
      rw [byKind_object noHandlers onLeft agrees.notObject.1 rightShape]
      rw [agrees.only_eq]
      exact second
    | true =>
      obtain ⟨middle, policy, shape⟩ := isObject_iff.mp through
      have inMiddle : ∀ p ∈ middle, p.2 ∈ b.children := fun p inside => property_child shape inside
      have inRight : ∀ p ∈ theirs, p.2 ∈ c.children :=
        fun p inside => property_child rightShape inside
      rw [object_yields between.tame onRight shape rightShape] at second
      cases source : isObject a with
      | false =>
        rw [byKind_object noHandlers onLeft source shape] at first
        rw [byKind_object noHandlers onLeft source rightShape]
        have distinct : (theirs.map Prod.fst).Nodup := by
          simpa [Schema.propertyNames, rightShape] using onRight.named
        refine only_trans distinct (fun name m found s inside t inside' => ?_) second first
        obtain ⟨isMember, lighter⟩ := only_member found
        exact member m isMember lighter s.2 (inMiddle s inside) t.2 (inRight t inside')
      | true =>
        obtain ⟨ours, _, leftShape⟩ := isObject_iff.mp source
        have inLeft : ∀ p ∈ ours, p.2 ∈ a.children :=
          fun p inside => property_child leftShape inside
        rw [object_yields onLeft.tame between.tame leftShape shape] at first
        rw [object_yields onLeft.tame onRight leftShape rightShape]
        intro q inside
        obtain ⟨t, found, holds⟩ := second q inside
        obtain ⟨s, found', holds'⟩ := first (q.1, t) (lookup_mem found)
        exact ⟨s, found', onward s (inLeft _ (lookup_mem found')) t (inMiddle _ (lookup_mem found))
          q.2 (inRight q inside) holds' holds⟩

end Rule

end Assignability
