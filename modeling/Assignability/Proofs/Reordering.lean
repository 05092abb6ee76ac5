import Assignability.Proofs.Mirroring
import Mathlib.Data.List.Perm.Basic

namespace Assignability

-- Which pairs are met first, and where a cycle is noticed, depends on the order of variants and
-- properties; what a query answers does not.

inductive Part.Permuted (like : Schema → Schema → Prop) : Part → Part → Prop
  | text (s : String) : Permuted like (.text s) (.text s)
  | schema {s t : Schema} : like s t → Permuted like (.schema s) (.schema t)

inductive Schema.SameName (like : Schema → Schema → Prop) :
    String × Schema → String × Schema → Prop
  | intro (name : String) {s t : Schema} : like s t → SameName like (name, s) (name, t)

-- One level of a schema, with what is inside related by `like`. Ids and targets are labels, not
-- schemas to be compared. Policies that are no schemas and fields of user kinds are never looked
-- at.
inductive Shape.Permuted (like : Schema → Schema → Prop) : Shape → Shape → Prop
  | basic (b : Basic) : Permuted like (.basic b) (.basic b)
  | literal (value : Scalar) : Permuted like (.literal value) (.literal value)
  | callable (form : CallForm) {ours theirs : List Schema} {returns result : Schema} :
    List.Forall₂ like ours theirs → like returns result →
    Permuted like (.callable form ours returns) (.callable form theirs result)
  | promise {s t : Schema} : like s t → Permuted like (.promise s) (.promise t)
  | template {parts others : List Part} : List.Forall₂ (Part.Permuted like) parts others →
    Permuted like (.template parts) (.template others)
  | array {s t : Schema} : like s t → Permuted like (.array s) (.array t)
  | tuple {ours theirs : List Schema} : List.Forall₂ like ours theirs →
    Permuted like (.tuple ours) (.tuple theirs)
  | object {ours between theirs : List (String × Schema)} {additional other : Value} :
    List.Forall₂ (Schema.SameName like) ours between → between.Perm theirs →
    Option.Rel like additional.schema? other.schema? →
    Permuted like (.object ours additional) (.object theirs other)
  | record {key key' value value' : Schema} : like key key' → like value value' →
    Permuted like (.record key value) (.record key' value')
  | union {ours between theirs : List Schema} : List.Forall₂ like ours between →
    between.Perm theirs → Permuted like (.union ours) (.union theirs)
  | intersect {ours between theirs : List Schema} : List.Forall₂ like ours between →
    between.Perm theirs → Permuted like (.intersect ours) (.intersect theirs)
  | reference (form : ReferenceForm) {target other : Value} : target.erase = other.erase →
    Permuted like (.reference form target) (.reference form other)
  | user (kind : UserKind) (fields others : List (String × Value)) :
    Permuted like (.user kind fields) (.user kind others)

-- The same schema up to the order of variants and properties, and up to marks.
inductive Schema.Reorders : Schema → Schema → Prop
  | intro {s t : Schema} : s.id.erase = t.id.erase → s.optional = t.optional →
    Shape.Permuted Reorders s.shape t.shape → Reorders s t

section
variable {like : Schema → Schema → Prop}

theorem VariantsLike.perm {ours between theirs : List Schema}
    (variants : VariantsLike like ours between) (perm : between.Perm theirs) :
    VariantsLike like ours theirs := by
  refine ⟨fun s member => ?_, fun t member => variants.back t (perm.mem_iff.mpr member)⟩
  obtain ⟨t, found, same⟩ := variants.forth s member
  exact ⟨t, perm.mem_iff.mp found, same⟩

theorem lookup_perm {β : Type} {entries others : List (String × β)} (perm : entries.Perm others)
    (distinct : (entries.map Prod.fst).Nodup) (name : String) :
    entries.lookup name = others.lookup name := by
  have distinct' : (others.map Prod.fst).Nodup := (perm.map Prod.fst).nodup_iff.mp distinct
  apply Option.ext
  intro value
  constructor
  · exact fun found => lookup_of_nodup distinct' (perm.mem_iff.mp (lookup_mem found))
  · exact fun found => lookup_of_nodup distinct (perm.mem_iff.mpr (lookup_mem found))

theorem PropertiesLike.perm {ours between theirs : List (String × Schema)}
    (properties : PropertiesLike like ours between) (perm : between.Perm theirs)
    (distinct : (between.map Prod.fst).Nodup) : PropertiesLike like ours theirs where
  count := properties.count.trans perm.length_eq
  forth p member := by
    obtain ⟨q, found, same⟩ := properties.forth p member
    exact ⟨q, perm.mem_iff.mp found, same⟩
  back q member := properties.back q (perm.mem_iff.mpr member)
  named name := by
    rw [← lookup_perm perm distinct]
    exact properties.named name

theorem Schema.SameName.entries {p q : String × Schema} (same : Schema.SameName like p q) :
    p.1 = q.1 ∧ like p.2 q.2 := by
  cases same with
  | intro name related => exact ⟨rfl, related⟩

theorem sameName_names {ours between : List (String × Schema)}
    (pairs : List.Forall₂ (Schema.SameName like) ours between) :
    ours.map Prod.fst = between.map Prod.fst := by
  induction pairs with
  | nil => rfl
  | cons first _ ih => rw [List.map_cons, List.map_cons, first.entries.1, ih]

-- Where names differ, properties correspond by their names.
theorem Shape.Permuted.shapeLike {s t : Schema} (permuted : Shape.Permuted like s.shape t.shape)
    (keys : ∀ a b, like a b → a.isNumericKey = b.isNumericKey)
    (distinct : s.propertyNames.Nodup) : Shape.Like like s.shape t.shape := by
  obtain ⟨_, _, _, shape⟩ := s
  obtain ⟨_, _, _, shape'⟩ := t
  simp only [Schema.shape] at permuted ⊢
  cases permuted with
  | basic b => exact .basic b
  | literal value => exact .literal value
  | callable form parameters returns => exact .callable form parameters returns
  | promise item => exact .promise item
  | template parts => exact .template _ _
  | array items => exact .array items
  | tuple items => exact .tuple items
  | object pairs perm extra =>
    simp only [Schema.propertyNames, Schema.shape] at distinct
    rw [sameName_names pairs] at distinct
    have named := PropertiesLike.of_forall₂ (pairs.imp fun _ _ => Schema.SameName.entries)
    exact .object (named.perm perm distinct) extra
  | record key value => exact .record (keys _ _ key) value
  | union variants perm => exact .union ((VariantsLike.of_forall₂ variants).perm perm)
  | intersect variants perm => exact .intersect ((VariantsLike.of_forall₂ variants).perm perm)
  | reference form targets => exact .reference form _ _
  | user kind fields others => exact .user kind _ _

end

namespace Template

theorem mem_addNew {x : String} {known strings : List String} :
    x ∈ addNew known strings ↔ x ∈ known ∨ x ∈ strings := by
  induction strings generalizing known with
  | nil => simp [addNew]
  | cons s rest ih =>
    rw [addNew, ih]
    split
    · rename_i held
      have inside : s ∈ known := by simpa using held
      constructor
      · rintro (earlier | later)
        · exact .inl earlier
        · exact .inr (List.mem_cons_of_mem _ later)
      · rintro (earlier | listed)
        · exact .inl earlier
        · rcases List.mem_cons.mp listed with rfl | later
          · exact .inl inside
          · exact .inr later
    · simp [or_assoc]

theorem addNew_nodup {known : List String} (distinct : known.Nodup) (strings : List String) :
    (addNew known strings).Nodup := by
  induction strings generalizing known with
  | nil => exact distinct
  | cons s rest ih =>
    rw [addNew]
    split
    · exact ih distinct
    · rename_i absent
      refine ih (List.nodup_append.mpr ⟨distinct, List.nodup_singleton s, ?_⟩)
      intro a earlier b single same
      rw [List.mem_singleton.mp single] at same
      exact absent (by simpa [← same] using earlier)

-- Variants stand for the strings of any of them, each of them once.
theorem expandVariants_some {known strings : List String} {variants : List Schema}
    (expanded : expandVariants known variants = some strings) :
    (known.Nodup → strings.Nodup) ∧ (∀ v ∈ variants, expand v ≠ none) ∧
      ∀ x, x ∈ strings ↔ x ∈ known ∨ ∃ v ∈ variants, x ∈ (expand v).getD [] := by
  induction variants generalizing known with
  | nil =>
    cases expanded
    simp
  | cons v vs ih =>
    rw [expandVariants] at expanded
    cases here : expand v with
    | none => simp [here] at expanded
    | some new =>
      simp only [here] at expanded
      obtain ⟨distinct, finite, members⟩ := ih expanded
      refine ⟨fun before => distinct (addNew_nodup before new), ?_, fun x => ?_⟩
      · intro u listed
        rcases List.mem_cons.mp listed with rfl | later
        · simp [here]
        · exact finite u later
      · simp [members x, mem_addNew, here, or_assoc]

theorem expandVariants_none {known : List String} {variants : List Schema}
    (unbounded : expandVariants known variants = none) : ∃ v ∈ variants, expand v = none := by
  induction variants generalizing known with
  | nil => cases unbounded
  | cons v vs ih =>
    rw [expandVariants] at unbounded
    cases here : expand v with
    | none => exact ⟨v, List.mem_cons_self, here⟩
    | some new =>
      simp only [here] at unbounded
      obtain ⟨u, later, none⟩ := ih unbounded
      exact ⟨u, List.mem_cons_of_mem _ later, none⟩

-- Schemas that stand for the same strings.
def ExpandAlike (s t : Schema) : Prop := Option.Rel List.Perm (expand s) (expand t)

theorem ExpandAlike.strings {s t : Schema} (alike : ExpandAlike s t) :
    expand s = none ∧ expand t = none ∨
      ∃ xs ys, expand s = some xs ∧ expand t = some ys ∧ xs.Perm ys := by
  unfold ExpandAlike at alike
  generalize expand s = ours, expand t = theirs at alike ⊢
  cases alike with
  | none => exact .inl ⟨rfl, rfl⟩
  | some perm => exact .inr ⟨_, _, rfl, rfl, perm⟩

theorem ExpandAlike.none_iff {s t : Schema} (alike : ExpandAlike s t) :
    expand s = none ↔ expand t = none := by
  rcases alike.strings with ⟨ours, theirs⟩ | ⟨xs, ys, ours, theirs, -⟩ <;> simp [ours, theirs]

theorem ExpandAlike.mem_iff {s t : Schema} (alike : ExpandAlike s t) (x : String) :
    x ∈ (expand s).getD [] ↔ x ∈ (expand t).getD [] := by
  rcases alike.strings with ⟨ours, theirs⟩ | ⟨xs, ys, ours, theirs, perm⟩
  · rw [ours, theirs]
  · rw [ours, theirs]
    exact perm.mem_iff

theorem expandVariants_alike {ours theirs : List Schema}
    (variants : VariantsLike ExpandAlike ours theirs) :
    Option.Rel List.Perm (expandVariants [] ours) (expandVariants [] theirs) := by
  cases first : expandVariants [] ours with
  | none =>
    obtain ⟨v, listed, unbounded⟩ := expandVariants_none first
    obtain ⟨u, listed', alike⟩ := variants.forth v listed
    cases second : expandVariants [] theirs with
    | none => exact .none
    | some strings =>
      exact absurd (alike.none_iff.mp unbounded) ((expandVariants_some second).2.1 u listed')
  | some strings =>
    obtain ⟨distinct, finite, members⟩ := expandVariants_some first
    cases second : expandVariants [] theirs with
    | none =>
      obtain ⟨u, listed, unbounded⟩ := expandVariants_none second
      obtain ⟨v, listed', alike⟩ := variants.back u listed
      exact absurd (alike.none_iff.mpr unbounded) (finite v listed')
    | some others =>
      obtain ⟨distinct', -, members'⟩ := expandVariants_some second
      refine .some ((List.perm_ext_iff_of_nodup (distinct List.nodup_nil)
        (distinct' List.nodup_nil)).mpr fun x => ?_)
      rw [members, members']
      simp only [List.not_mem_nil, false_or]
      constructor
      · rintro ⟨v, listed, inside⟩
        obtain ⟨u, listed', alike⟩ := variants.forth v listed
        exact ⟨u, listed', (alike.mem_iff x).mp inside⟩
      · rintro ⟨u, listed, inside⟩
        obtain ⟨v, listed', alike⟩ := variants.back u listed
        exact ⟨v, listed', (alike.mem_iff x).mpr inside⟩

theorem joinAll_perm {heads heads' tails tails' : List String} (first : heads.Perm heads')
    (second : tails.Perm tails') : (joinAll heads tails).Perm (joinAll heads' tails') :=
  first.flatMap fun head _ => second.map fun tail => head ++ tail

theorem map_joinAll_perm {heads heads' : List String} {tails tails' : Option (List String)}
    (first : heads.Perm heads') (second : Option.Rel List.Perm tails tails') :
    Option.Rel List.Perm (tails.map (joinAll heads)) (tails'.map (joinAll heads')) := by
  cases second with
  | none => exact .none
  | some perm => exact .some (joinAll_perm first perm)

mutual

theorem expand_reorders : ∀ (s : Schema) {t : Schema}, s.Reorders t → ExpandAlike s t
  | .mk _ _ _ shape, t, reorders => by
    obtain ⟨_, _, _, shape'⟩ := t
    cases reorders with
    | intro _ _ permuted =>
      unfold ExpandAlike
      rw [expand, expand]
      exact expandShape_reorders shape permuted

theorem expandShape_reorders : ∀ (shape : Shape) {other : Shape},
    shape.Permuted Schema.Reorders other →
    Option.Rel List.Perm (expandShape shape) (expandShape other)
  | .union variants, _, permuted => by
    cases permuted with
    | union pairs perm =>
      have variants := VariantsLike.of_forall₂ (expandAll_reorders variants pairs)
      rw [expandShape, expandShape]
      exact expandVariants_alike (variants.perm perm)
  | .template parts, _, permuted => by
    cases permuted with
    | template pairs =>
      rw [expandShape, expandShape]
      exact expandParts_reorders parts pairs
  | .basic b, _, permuted => by
    cases permuted
    cases b with
    | boolean => exact .some (.refl _)
    | _ => exact .none
  | .literal value, _, permuted => by
    cases permuted
    exact .some (.refl _)
  | .callable _ _ _, _, permuted | .promise _, _, permuted | .array _, _, permuted
  | .tuple _, _, permuted | .object _ _, _, permuted | .record _ _, _, permuted
  | .intersect _, _, permuted | .reference _ _, _, permuted | .user _ _, _, permuted => by
    cases permuted
    exact .none

theorem expandAll_reorders : ∀ (ours : List Schema) {theirs : List Schema},
    List.Forall₂ Schema.Reorders ours theirs → List.Forall₂ ExpandAlike ours theirs
  | [], _, pairs => by
    cases pairs
    exact .nil
  | s :: rest, _, pairs => by
    cases pairs with
    | cons first pairs => exact .cons (expand_reorders s first) (expandAll_reorders rest pairs)

theorem expandParts_reorders : ∀ (ours : List Part) {theirs : List Part},
    List.Forall₂ (Part.Permuted Schema.Reorders) ours theirs →
    Option.Rel List.Perm (expandParts ours) (expandParts theirs)
  | [], _, pairs => by
    cases pairs
    exact .some (.refl _)
  | .text s :: rest, _, pairs => by
    cases pairs with
    | cons first pairs =>
      cases first
      rw [expandParts, expandParts]
      exact map_joinAll_perm (.refl _) (expandParts_reorders rest pairs)
  | .schema v :: rest, _, pairs => by
    cases pairs with
    | cons first pairs =>
      cases first with
      | schema same =>
        have later := expandParts_reorders rest pairs
        rw [expandParts, expandParts]
        rcases (expand_reorders v same).strings with
          ⟨ours, theirs⟩ | ⟨xs, ys, ours, theirs, perm⟩
        · rw [ours, theirs]
          exact .none
        · rw [ours, theirs]
          exact map_joinAll_perm perm later

end

theorem place_unbounded {parts : List Part} (expanded : expandParts parts = none) (mark : Nat) :
    ((resolve parts).place mark).1 = Rule.marked mark (.basic .string) := by
  unfold resolve
  rw [expanded]
  rfl

theorem place_single {parts : List Part} {s : String} (expanded : expandParts parts = some [s])
    (mark : Nat) : ((resolve parts).place mark).1 = Rule.marked mark (.literal (.text s)) := by
  unfold resolve
  rw [expanded]
  rfl

theorem place_several {parts : List Part} {strings : List String}
    (expanded : expandParts parts = some strings) (several : strings.length ≠ 1) (mark : Nat) :
    ((resolve parts).place mark).1 = Rule.marked mark (.union (numbered (mark + 1) strings)) := by
  rcases place_resolve mark parts with ⟨-, none⟩ | ⟨s, -, single⟩ | ⟨others, same, found⟩
  · rw [none] at expanded
    cases expanded
  · rw [single] at expanded
    cases expanded
    exact absurd rfl several
  · rw [found] at expanded
    cases expanded
    rw [same]

-- A literal for a string, with whatever mark.
def Spells (text : String) (s : Schema) : Prop :=
  ∃ mark, s = Rule.marked mark (.literal (.text text))

theorem numbered_spells (mark : Nat) (strings : List String) :
    List.Forall₂ Spells strings (numbered mark strings) := by
  induction strings generalizing mark with
  | nil => exact .nil
  | cons s rest ih => exact .cons ⟨mark, rfl⟩ (ih (mark + 1))

theorem reorders_spelled {strings : List String} {literals : List Schema}
    (spelled : List.Forall₂ Spells strings literals) (mark : Nat) :
    List.Forall₂ Schema.Reorders (numbered mark strings) literals := by
  induction spelled generalizing mark with
  | nil => exact .nil
  | cons first _ ih =>
    obtain ⟨other, rfl⟩ := first
    exact .cons (.intro rfl rfl (.literal _)) (ih (mark + 1))

-- What templates stand for is reordered with them.
theorem resolve_reorders {parts parts' : List Part}
    (pairs : List.Forall₂ (Part.Permuted Schema.Reorders) parts parts') (mark mark' : Nat) :
    ((resolve parts).place mark).1.Reorders ((resolve parts').place mark').1 := by
  have strings := expandParts_reorders parts pairs
  cases ours : expandParts parts <;> cases theirs : expandParts parts' <;>
    rw [ours, theirs] at strings <;> cases strings
  case none.none.none =>
    rw [place_unbounded ours, place_unbounded theirs]
    exact .intro rfl rfl (.basic .string)
  case some.some.some xs ys perm =>
    by_cases single : xs.length = 1
    · obtain ⟨s, rfl⟩ := List.length_eq_one_iff.mp single
      cases List.singleton_perm.mp perm
      rw [place_single ours, place_single theirs]
      exact .intro rfl rfl (.literal _)
    · rw [place_several ours single, place_several theirs (perm.length_eq ▸ single)]
      obtain ⟨between, spelled, order⟩ :=
        List.perm_comp_forall₂ perm (numbered_spells (mark' + 1) ys)
      exact .intro rfl rfl (.union (reorders_spelled spelled _) order)

end Template

theorem Schema.Reorders.permuted {s t : Schema} (reorders : s.Reorders t) :
    Shape.Permuted Schema.Reorders s.shape t.shape := by
  cases reorders with
  | intro _ _ permuted => exact permuted

theorem Schema.Reorders.isNumericKey {s t : Schema} (reorders : s.Reorders t) :
    s.isNumericKey = t.isNumericKey := by
  have permuted := reorders.permuted
  unfold Schema.isNumericKey
  generalize s.shape = shape, t.shape = shape' at permuted ⊢
  cases permuted <;> rfl

-- Every object inside has properties of different names.
def Schema.Named (s : Schema) : Prop := ∀ t ∈ s.parts, t.propertyNames.Nodup

instance (s : Schema) : Decidable s.Named :=
  inferInstanceAs (Decidable (∀ t ∈ s.parts, t.propertyNames.Nodup))

theorem Schema.Named.child {s c : Schema} (named : s.Named) (member : c ∈ s.children) : c.Named :=
  fun t part => named t (child_parts member part)

theorem Schema.Named.basic (mark : Nat) (b : Basic) : (Rule.marked mark (.basic b)).Named := by
  intro t part
  cases List.mem_singleton.mp part
  exact List.nodup_nil

theorem Schema.Named.member {mark : Nat} {m : Schema} (member : m ∈ Rule.members mark) :
    m.Named := by
  intro t part
  rcases Rule.members_parts member part with ⟨_, made⟩ | ⟨_, made⟩ | ⟨_, _, _, made⟩ <;>
    simp [Schema.propertyNames, made]

theorem Schema.Named.resolved {s : Schema} {parts : List Part} (shape : s.shape = .template parts)
    (mark : Nat) : (s.resolved mark).1.Named := by
  intro t part
  rcases resolved_parts mark shape part with made | ⟨_, made⟩ | ⟨_, made⟩ <;>
    simp [Schema.propertyNames, made]

theorem reorders_basic (mark mark' : Nat) (b : Basic) :
    (Rule.marked mark (.basic b)).Reorders (Rule.marked mark' (.basic b)) :=
  .intro rfl rfl (.basic b)

-- Reordered schemas mirror each other.
theorem reorders_mirroring : Mirroring (fun _ => True) fun s t => s.Reorders t ∧ s.Named where
  id same := by
    cases same.1 with
    | intro ids _ _ => exact ids
  optional same := by
    cases same.1 with
    | intro _ optional _ => exact optional
  shape := by
    rintro s t ⟨reorders, named⟩
    have alike := reorders.permuted.shapeLike (fun _ _ keys => keys.isNumericKey)
      (named s (self_mem_parts s))
    exact alike.refine fun a inside _ _ same => ⟨same, named.child inside⟩
  target := by
    intro s t form form' target target' same shape shape'
    have permuted := same.1.permuted
    rw [shape, shape'] at permuted
    cases permuted with
    | reference _ targets => exact ⟨trivial, targets⟩
  expanded := by
    intro s t parts parts' same shape shape' mark mark'
    have permuted := same.1.permuted
    rw [shape, shape'] at permuted
    cases permuted with
    | template pairs =>
      refine ⟨?_, .resolved shape mark⟩
      rw [resolved_template shape, resolved_template shape']
      exact Template.resolve_reorders pairs mark mark'
  basic mark mark' b := ⟨reorders_basic mark mark' b, .basic mark b⟩
  members mark mark' := by
    have named : ∀ m ∈ Rule.members mark, m.Named := fun m => .member
    simp only [Rule.members, List.forall_mem_cons] at named
    obtain ⟨length, description, andThen, -⟩ := named
    refine .cons ⟨reorders_basic mark mark' .number, length⟩ (.cons ⟨?_, description⟩
      (.cons ⟨?_, andThen⟩ .nil))
    · have variants := List.Forall₂.cons (reorders_basic (mark + 1) (mark' + 1) .string)
        (.cons (reorders_basic (mark + 2) (mark' + 2) .undefined) .nil)
      exact .intro rfl rfl (.union variants (.refl _))
    · have any := reorders_basic (mark + 1) (mark' + 1) .any
      exact .intro rfl rfl
        (.callable .function (.cons any .nil) (reorders_basic (mark + 2) (mark' + 2) .any))

namespace Engine

-- Permuting variants and properties anywhere, in the schemas and in the entries of their scopes,
-- leaves the answer as it is.
theorem reordered_answer_alike {w w' : World} {left right left' right' : Schema}
    {leftScope rightScope leftScope' rightScope' : Scope} {b b' : Bool}
    (one : Answered w left right leftScope rightScope b)
    (two : Answered w' left' right' leftScope' rightScope' b')
    (anyLeft : w'.engine.settings.anyLeftResult = w.engine.settings.anyLeftResult)
    (cycle : w'.engine.settings.cycleResult = w.engine.settings.cycleResult)
    (kinds : w'.registry.SameKinds w.registry)
    (named : ∀ s ∈ left :: right :: (leftScope ++ rightScope), s.Named)
    (onLeft : left.Reorders left') (onRight : right.Reorders right')
    (leftScopes : List.Forall₂ Schema.Reorders leftScope leftScope')
    (rightScopes : List.Forall₂ Schema.Reorders rightScope rightScope') : b = b' := by
  refine one.mirrors reorders_mirroring two anyLeft cycle kinds ⟨onLeft, named left (by simp)⟩
    ⟨onRight, named right (by simp)⟩ ?_ ?_
  · exact forall₂_refine leftScopes fun s entry _ _ same => ⟨same, named s (by simp [entry])⟩
  · exact forall₂_refine rightScopes fun s entry _ _ same => ⟨same, named s (by simp [entry])⟩

-- Variants, properties and the union inside a template, and the same the other way round. The cycle
-- is met in another order.
def selfUnion : Schema :=
  .mk 0 (.int 1) false (.union
    [.plain (.array (.plain (.reference .this (.int 1)))),
      .plain (.object
        [("size", .plain (.template [.text "no", .schema (.plain (.union
            [.plain (.literal (.text "1")), .plain (.literal (.text "2"))]))])),
          ("rest", .plain (.reference .ref (.int 2)))] .null)])

def selfUnionTurned : Schema :=
  .mk 0 (.int 1) false (.union
    [.plain (.object
        [("rest", .plain (.reference .ref (.int 2))),
          ("size", .plain (.template [.text "no", .schema (.plain (.union
            [.plain (.literal (.text "2")), .plain (.literal (.text "1"))]))]))] .null),
      .plain (.array (.plain (.reference .this (.int 1))))])

def meet : Schema :=
  .mk 0 (.int 2) false (.intersect [.plain (.reference .ref (.int 1)), .basic .string])

def meetTurned : Schema :=
  .mk 0 (.int 2) false (.intersect [.basic .string, .plain (.reference .ref (.int 1))])

theorem selfUnion_reorders (m n : Nat) :
    (selfUnion.place (m + 1)).1.Reorders (selfUnionTurned.place (n + 1)).1 := by
  refine .intro rfl rfl (.union (.cons ?_ (.cons ?_ .nil)) (.swap _ _ _))
  · exact .intro rfl rfl (.array (.intro rfl rfl (.reference .this rfl)))
  · refine .intro rfl rfl (.object (.cons (.intro "size" ?_) (.cons (.intro "rest" ?_) .nil))
      (.swap _ _ _) .none)
    · refine .intro rfl rfl (.template (.cons (.text "no") (.cons (.schema ?_) .nil)))
      refine .intro rfl rfl (.union (.cons ?_ (.cons ?_ .nil)) (.swap _ _ _))
      · exact .intro rfl rfl (.literal _)
      · exact .intro rfl rfl (.literal _)
    · exact .intro rfl rfl (.reference .ref rfl)

theorem meet_reorders (m n : Nat) :
    (meet.place (m + 1)).1.Reorders (meetTurned.place (n + 1)).1 := by
  refine .intro rfl rfl (.intersect (.cons ?_ (.cons ?_ .nil)) (.swap _ _ _))
  · exact .intro rfl rfl (.reference .ref rfl)
  · exact .intro rfl rfl (.basic _)

theorem selfUnion_turned :
    (query (compareSchemas 9 (selfUnion.place 16).1 (selfUnion.place 7).1 [(meet.place 4).1]
      [(meet.place 1).1]) { supply := 25 }).1.toOption = some true ∧
    ∀ depth b, (query (compareSchemas depth (selfUnionTurned.place 16).1 (selfUnionTurned.place 7).1
      [(meetTurned.place 4).1] [(meetTurned.place 1).1]) { supply := 25 }).1 = .ok b →
      b = true := by
  have placed : Placed 25 [(selfUnion.place 16).1, (selfUnion.place 7).1, (meet.place 4).1,
      (meet.place 1).1] :=
    ((@Placed.two 1 meet meet (by decide) (by decide)).placeNew selfUnion (by decide)).placeNew
      selfUnion (by decide)
  have turned : Placed 25 [(selfUnionTurned.place 16).1, (selfUnionTurned.place 7).1,
      (meetTurned.place 4).1, (meetTurned.place 1).1] :=
    ((@Placed.two 1 meetTurned meetTurned (by decide) (by decide)).placeNew selfUnionTurned
      (by decide)).placeNew selfUnionTurned (by decide)
  have first : (query (compareSchemas 9 (selfUnion.place 16).1 (selfUnion.place 7).1
      [(meet.place 4).1] [(meet.place 1).1]) { supply := 25 }).1.toOption = some true := by
    decide +kernel
  refine ⟨first, fun depth b returned => ?_⟩
  have one : Answered { supply := 25 } (selfUnion.place 16).1 (selfUnion.place 7).1
      [(meet.place 4).1] [(meet.place 1).1] true :=
    ⟨placed, fun _ _ _ _ => rfl, rfl, 9, ok_of_toOption first⟩
  have two : Answered { supply := 25 } (selfUnionTurned.place 16).1 (selfUnionTurned.place 7).1
      [(meetTurned.place 4).1] [(meetTurned.place 1).1] b :=
    ⟨turned, fun _ _ _ _ => rfl, rfl, depth, returned⟩
  have named : ∀ s ∈ [(selfUnion.place 16).1, (selfUnion.place 7).1, (meet.place 4).1,
      (meet.place 1).1], s.Named := by decide +kernel
  exact (reordered_answer_alike one two rfl rfl (fun _ => rfl) named (selfUnion_reorders 15 15)
    (selfUnion_reorders 6 6) (.cons (meet_reorders 3 3) .nil) (.cons (meet_reorders 0 0) .nil)).symm

end Engine

end Assignability
