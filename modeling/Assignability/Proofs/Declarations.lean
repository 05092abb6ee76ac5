import Assignability.Catalog
import Assignability.Proofs.Likeness

namespace Assignability

-- A field that is given its default, or left to it, makes no difference.

theorem UserKind.ofName_name (kind : UserKind) : Kind.ofName? kind.name = none := by
  have foreign := kind.foreign
  rwa [Kind.isBuiltinName, Option.isSome_eq_false_iff, Option.isNone_iff_eq_none] at foreign

-- A built-in kind is the one that its name stands for, and user kinds have other names.
theorem Shape.ofName_kind (shape : Shape) :
    Kind.ofName? shape.kind.name = some shape.kind ∨
      Kind.ofName? shape.kind.name = none ∧ shape.kind = .user shape.kind.name := by
  cases shape with
  | basic b => exact .inl (by cases b <;> rfl)
  | callable form => exact .inl (by cases form <;> rfl)
  | reference form => exact .inl (by cases form <;> rfl)
  | user kind => exact .inr ⟨kind.ofName_name, rfl⟩
  | _ => exact .inl rfl

-- So to ask for a kind by its name is to ask how a schema is built.
theorem Schema.kind_eq_iff_name (s t : Schema) : s.kind = t.kind ↔ s.kind.name = t.kind.name := by
  refine ⟨congrArg Kind.name, fun same => ?_⟩
  rcases s.shape.ofName_kind with known | ⟨unknown, own⟩ <;>
    rcases t.shape.ofName_kind with known' | ⟨unknown', own'⟩
  · exact Option.some.inj (known.symm.trans ((congrArg Kind.ofName? same).trans known'))
  · cases known.symm.trans ((congrArg Kind.ofName? same).trans unknown')
  · cases unknown.symm.trans ((congrArg Kind.ofName? same).trans known')
  · exact own.trans ((congrArg Kind.user same).trans own'.symm)

namespace Catalog

-- Catalogs that come about by declaring one class after another.
inductive Declared : Catalog → Prop
  | nil : Declared []
  | declare {c after : Catalog} {className kind : String} {kind? : Option String}
      {fields : List Field} (before : Declared c)
      (done : c.declare className kind? fields = .ok (after, kind)) : Declared after

theorem areNames_spec {names : List String} (all : areNames names = true) :
    names.Nodup ∧ ∀ name ∈ names, Text.isName name = true := by
  induction names with
  | nil => exact ⟨.nil, fun _ member => nomatch member⟩
  | cons name rest ih =>
    simp only [areNames, Bool.and_eq_true, Bool.not_eq_true', List.contains_eq_mem,
      decide_eq_false_iff_not] at all
    obtain ⟨⟨isName, absent⟩, others⟩ := all
    obtain ⟨distinct, areNames⟩ := ih others
    exact ⟨List.nodup_cons.mpr ⟨absent, distinct⟩, List.forall_mem_cons.mpr ⟨isName, areNames⟩⟩

-- A declaration adds one class behind the others. Its kind was free, and its fields have names.
theorem declare_spec {c after : Catalog} {className kind : String} {kind? : Option String}
    {fields : List Field} (done : c.declare className kind? fields = .ok (after, kind)) :
    ∃ own, after = c ++ [⟨className, kind, own⟩] ∧ Kind.ofName? kind = none ∧
      (own.map Prod.fst).Nodup ∧ ∀ name ∈ own.map Prod.fst, Text.isName name = true := by
  unfold Catalog.declare at done
  simp only at done
  split at done
  · cases done
  split at done
  · cases done
  split at done
  · cases done
  rename_i named
  split at done
  · cases done
  rename_i trimmed
  split at done
  · cases done
  rename_i free
  cases done
  have same : ((arrange fields).map fun f => Text.trimEnd f.1) = (arrange fields).map Prod.fst := by
    refine List.map_congr_left fun f member => ?_
    simp only [List.any_eq_true, not_exists, not_and, bne_iff_ne, ne_eq, not_not] at trimmed
    exact trimmed f member
  rw [same] at named
  obtain ⟨distinct, areNames⟩ := areNames_spec (by simpa using named)
  refine ⟨_, rfl, ?_, ?_, ?_⟩
  · unfold qualified? at free
    split at free
    · cases free
    · assumption
  · exact (List.filter_sublist.map Prod.fst).nodup distinct
  · exact fun name member => areNames name ((List.filter_sublist.map Prod.fst).subset member)

-- What holds of every class that was declared. The id of a document is no name.
structure Proper (d : Declaration) : Prop where
  distinct : (d.fields.map Prod.fst).Nodup
  noId : "$id" ∉ d.fields.map Prod.fst

theorem Declared.proper {c : Catalog} (declared : c.Declared) : ∀ d ∈ c, Proper d := by
  induction declared with
  | nil => exact fun _ member => nomatch member
  | declare before done ih =>
    obtain ⟨own, rfl, -, distinct, areNames⟩ := declare_spec done
    intro d member
    rcases List.mem_append.mp member with earlier | last
    · exact ih d earlier
    · cases List.mem_singleton.mp last
      exact ⟨distinct, fun isId => absurd (areNames _ isId) (by decide)⟩

theorem find?_spec {c : Catalog} {kind : String} {d : Declaration} (found : c.find? kind = some d) :
    d ∈ c ∧ d.kind = kind :=
  ⟨List.mem_of_find?_eq_some found, by simpa using List.find?_some found⟩

end Catalog

namespace Declaration

theorem complete_names {given fields : List (String × Value)} {declared : List (String × Fallback)}
    (done : complete given declared = .ok fields) :
    fields.map Prod.fst = declared.map Prod.fst := by
  induction declared generalizing fields with
  | nil =>
    cases done
    rfl
  | cons f rest ih =>
    have step : ∀ v, (complete given rest).map ((f.1, v) :: ·) = .ok fields →
        fields.map Prod.fst = f.1 :: rest.map Prod.fst := by
      intro v made
      cases others : complete given rest with
      | error fault =>
        rw [others] at made
        cases made
      | ok values =>
        rw [others] at made
        cases made
        rw [List.map_cons, ih others]
    unfold complete at done
    split at done
    · exact step _ done
    · exact step _ done
    · cases done

-- A field holds what was given for it, else its default.
theorem complete_values {given fields : List (String × Value)} {declared : List (String × Fallback)}
    (done : complete given declared = .ok fields) :
    ∀ f ∈ fields, given.lookup f.1 = some f.2 ∨
      given.lookup f.1 = none ∧ (f.1, Fallback.value f.2) ∈ declared := by
  induction declared generalizing fields with
  | nil =>
    cases done
    exact fun _ member => nomatch member
  | cons g rest ih =>
    obtain ⟨name, fallback⟩ := g
    have step : ∀ v, (complete given rest).map ((name, v) :: ·) = .ok fields →
        (given.lookup name = some v ∨ given.lookup name = none ∧ fallback = .value v) →
        ∀ f ∈ fields, given.lookup f.1 = some f.2 ∨
          given.lookup f.1 = none ∧ (f.1, Fallback.value f.2) ∈ (name, fallback) :: rest := by
      intro v made source
      cases others : complete given rest with
      | error fault =>
        rw [others] at made
        cases made
      | ok values =>
        rw [others] at made
        cases made
        refine List.forall_mem_cons.mpr ⟨?_, fun f member => ?_⟩
        · rcases source with found | ⟨absent, rfl⟩
          · exact .inl found
          · exact .inr ⟨absent, List.mem_cons_self⟩
        · rcases ih others f member with found | ⟨absent, inside⟩
          · exact .inl found
          · exact .inr ⟨absent, List.mem_cons_of_mem _ inside⟩
    unfold complete at done
    split at done
    · rename_i found
      exact step _ done (.inl found)
    · rename_i absent
      exact step _ done (.inr ⟨absent, rfl⟩)
    · cases done

-- A schema is of the kind of its class, unless a field of its own holds another one.
theorem kindOf_name {d : Declaration} {fields : List (String × Value)} {kind : UserKind}
    (own : d.kindOf? fields = some kind)
    (named : ∀ v, (fields.lookup "kind").or (fields.lookup "_kind") = some v → v = .text d.kind) :
    kind.name = d.kind := by
  have known : UserKind.ofName? d.kind = some kind := by
    unfold kindOf? at own
    cases field : (fields.lookup "kind").or (fields.lookup "_kind") with
    | none => rwa [field] at own
    | some v => rwa [field, named v field] at own
  unfold UserKind.ofName? at known
  split at known
  · cases known
    rfl
  · cases known

-- A class that makes a schema declares nothing computed, and the fields of the schema say its kind.
theorem shape_ok {d : Declaration} {given : List (String × Value)} {shape : Shape}
    (made : d.shape given = .ok shape) :
    d.fields.any (isComputed ·.2) = false ∧ ∃ kind fields, complete given d.fields = .ok fields ∧
      d.kindOf? fields = some kind ∧ shape = .user kind fields := by
  unfold Declaration.shape at made
  split at made
  · cases made
  split at made
  · cases made
  rename_i settable
  cases done : complete given d.fields with
  | error fault =>
    rw [done] at made
    cases made
  | ok fields =>
    rw [done] at made
    cases own : d.kindOf? fields with
    | none =>
      simp only [bind, Except.bind, own] at made
      cases made
    | some kind =>
      simp only [bind, Except.bind, own] at made
      cases made
      exact ⟨by simpa using settable, kind, fields, rfl, own, rfl⟩

theorem shape_spec {d : Declaration} {given fields : List (String × Value)} {kind : UserKind}
    (made : d.shape given = .ok (.user kind fields)) :
    fields.map Prod.fst = d.fields.map Prod.fst ∧ d.fields.any (isComputed ·.2) = false ∧
      d.kindOf? fields = some kind := by
  obtain ⟨settable, _, values, done, own, same⟩ := shape_ok made
  cases same
  exact ⟨complete_names done, settable, own⟩

theorem complete_of_given {given fields : List (String × Value)}
    {declared : List (String × Fallback)} (names : fields.map Prod.fst = declared.map Prod.fst)
    (each : ∀ f ∈ fields, ∀ g ∈ declared, f.1 = g.1 →
      given.lookup f.1 = some f.2 ∨ given.lookup f.1 = none ∧ g.2 = .value f.2) :
    complete given declared = .ok fields := by
  induction declared generalizing fields with
  | nil =>
    cases List.map_eq_nil_iff.mp names
    rfl
  | cons g rest ih =>
    obtain ⟨name, fallback⟩ := g
    obtain ⟨⟨_, v⟩, others, rfl, rfl, behind⟩ := List.map_eq_cons_iff.mp names
    have made := ih behind fun f member g member' =>
      each f (List.mem_cons_of_mem _ member) g (List.mem_cons_of_mem _ member')
    rcases each _ List.mem_cons_self _ List.mem_cons_self rfl with found | ⟨absent, default⟩
    · simp only [complete, found, made, Except.map]
    · simp only at default
      simp only [complete, absent, default, made, Except.map]

-- A class makes a schema of its fields, all given or some left to their defaults.
theorem shape_of_given {d : Declaration} {given fields : List (String × Value)} {kind : UserKind}
    (names : fields.map Prod.fst = d.fields.map Prod.fst)
    (settable : d.fields.any (isComputed ·.2) = false) (own : d.kindOf? fields = some kind)
    (known : given.map Prod.fst ⊆ fields.map Prod.fst)
    (each : ∀ f ∈ fields, ∀ g ∈ d.fields, f.1 = g.1 →
      given.lookup f.1 = some f.2 ∨ given.lookup f.1 = none ∧ g.2 = .value f.2) :
    d.shape given = .ok (.user kind fields) := by
  have accepted : d.accepts given = true := by
    simp only [accepts, Bool.and_eq_true, List.all_eq_true, List.any_eq_true, Bool.or_eq_true,
      Bool.not_eq_true', beq_iff_eq]
    constructor
    · intro a member
      obtain ⟨g, inside, same⟩ := List.mem_map.mp
        (names ▸ known (List.mem_map_of_mem member))
      exact ⟨g, inside, same⟩
    · intro g inside
      obtain ⟨f, member, same⟩ := List.mem_map.mp (names.symm ▸ List.mem_map_of_mem inside)
      rcases each f member g inside same with found | ⟨-, default⟩
      · exact .inr (by rw [← same, found]; rfl)
      · exact .inl (by rw [default]; rfl)
  simp only [shape, accepted, settable, Bool.not_true, Bool.false_eq_true, if_false,
    complete_of_given names each, bind, Except.bind, own]
  rfl

end Declaration

end Assignability
