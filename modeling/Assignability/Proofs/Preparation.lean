import Assignability.Proofs.Parts

namespace Assignability

-- A chain of references never leaves the scope it starts in, so preparing a site adds at most the
-- schema it starts from.

namespace Scope

section
variable {scope : Scope} {s t : Schema}

theorem push_of_mem (member : s ∈ scope) : scope.push s = scope := by
  have held : scope.holds s = true := List.any_eq_true.mpr ⟨s, member, beq_self_eq_true _⟩
  simp [push, held]

theorem push_of_null (absent : s.id.isNull = true) : scope.push s = scope := by
  simp [push, absent]

theorem push_cases (scope : Scope) (s : Schema) :
    scope.push s = scope ∨ scope.push s = scope ++ [s] := by
  unfold push
  split
  · exact .inl rfl
  · exact .inr rfl

theorem push_push (scope : Scope) (s : Schema) : (scope.push s).push s = scope.push s := by
  rcases push_cases scope s with same | added
  · rw [same, same]
  · rw [added]
    exact push_of_mem (by simp)

theorem push_length : (scope.push s).length = scope.length ↔ scope.push s = scope := by
  rcases push_cases scope s with same | added <;> simp_all

theorem mem_push (member : t ∈ scope.push s) : t ∈ scope ∨ t = s := by
  rcases push_cases scope s with same | added
  · exact .inl (same ▸ member)
  · rw [added] at member
    simpa using member

theorem resolve_mem {target : Value} (found : scope.resolve? target = some t) : t ∈ scope :=
  List.mem_of_find?_eq_some found

theorem follow_ok {steps : Nat} {passed : List Nat} {after : Scope}
    (reached : scope.follow steps passed s = .ok (t, after)) :
    after = scope ∧ t.isReference = false ∧ (t = s ∨ t ∈ scope) := by
  induction steps generalizing passed s with
  | zero =>
    unfold follow at reached
    split at reached
    · split at reached <;> cases reached
    · cases reached
      exact ⟨rfl, by simp [Schema.isReference], .inl rfl⟩
  | succ steps ih =>
    unfold follow at reached
    split at reached
    · split at reached
      · cases reached
      · simp only at reached
        split at reached
        · cases reached
        · rename_i next found
          have member := resolve_mem found
          rw [push_of_mem member] at reached
          obtain ⟨same, concrete, inside⟩ := ih reached
          refine ⟨same, concrete, .inr ?_⟩
          rcases inside with rfl | inside
          · exact member
          · exact inside
    · cases reached
      exact ⟨rfl, by simp [Schema.isReference], .inl rfl⟩

-- Chains end in a target that is not there, or in themselves.
theorem follow_fault {steps : Nat} {passed : List Nat} {fault : Fault}
    (failed : scope.follow steps passed s = .error fault) :
    ∃ target, fault = .unresolved target ∨ fault = .endlessChain target := by
  induction steps generalizing scope passed s with
  | zero =>
    unfold follow at failed
    split at failed
    · split at failed <;> cases failed <;> exact ⟨_, .inr rfl⟩
    · cases failed
  | succ steps ih =>
    unfold follow at failed
    split at failed
    · split at failed
      · cases failed
        exact ⟨_, .inr rfl⟩
      · simp only at failed
        split at failed
        · cases failed
          exact ⟨_, .inl rfl⟩
        · exact ih failed
    · cases failed

theorem dereference_ok {after : Scope} (reached : scope.dereference s = .ok (t, after)) :
    after = scope.push s ∧ t.isReference = false ∧ (t = s ∨ t ∈ scope.push s) :=
  follow_ok reached

-- What a schema comes to lies where the schema and its scope lie.
theorem dereference_among {ground : List Schema} {after : Scope} (member : s ∈ ground)
    (entries : ∀ e ∈ scope, e ∈ ground) (reached : scope.dereference s = .ok (t, after)) :
    t ∈ ground ∧ ∀ e ∈ after, e ∈ ground := by
  obtain ⟨rfl, -, inside⟩ := dereference_ok reached
  have entries' : ∀ e ∈ scope.push s, e ∈ ground := by
    intro e entry
    rcases mem_push entry with earlier | rfl
    · exact entries e earlier
    · exact member
  refine ⟨?_, entries'⟩
  rcases inside with rfl | entry
  · exact member
  · exact entries' t entry

theorem dereference_concrete (concrete : s.isReference = false) :
    scope.dereference s = .ok (s, scope.push s) := by
  unfold dereference follow
  cases shape : s.shape with
  | reference form target => simp [Schema.isReference, shape] at concrete
  | _ => rfl

end

end Scope

-- What a schema stands for, and the supply of marks after it was made.
def Schema.resolved (mark : Nat) (s : Schema) : Schema × Nat :=
  match s.shape with
  | .template parts => (Template.resolve parts).place mark
  | _ => (s, mark)

def Schema.isTemplate (s : Schema) : Bool :=
  match s.shape with
  | .template _ => true
  | _ => false

theorem template_cases (s : Schema) :
    (∃ parts, s.shape = .template parts) ∨ s.isTemplate = false := by
  cases shape : s.shape with
  | template parts => exact .inl ⟨parts, rfl⟩
  | _ => simp [Schema.isTemplate, shape]

theorem resolved_self {s : Schema} (expanded : s.isTemplate = false) (mark : Nat) :
    s.resolved mark = (s, mark) := by
  unfold Schema.resolved
  cases shape : s.shape with
  | template parts => simp [Schema.isTemplate, shape] at expanded
  | _ => rfl

theorem resolved_template {s : Schema} {parts : List Part} (shape : s.shape = .template parts)
    (mark : Nat) : s.resolved mark = (Template.resolve parts).place mark := by
  simp [Schema.resolved, shape]

theorem resolved_supply (mark : Nat) (s : Schema) : mark ≤ (s.resolved mark).2 := by
  rcases template_cases s with ⟨parts, shape⟩ | expanded
  · rw [resolved_template shape]
    rcases Template.place_resolve mark parts with ⟨same, -⟩ | ⟨_, same, _⟩ | ⟨strings, same, _⟩ <;>
      simp only [same] <;> omega
  · simp [resolved_self expanded]

theorem resolved_weight (mark : Nat) {s : Schema} {parts : List Part}
    (shape : s.shape = .template parts) : (s.resolved mark).1.weight < s.weight := by
  rw [resolved_template shape, weight_of_shape shape]
  rcases Template.place_resolve mark parts with
    ⟨same, -⟩ | ⟨text, same, -⟩ | ⟨strings, same, expanded⟩ <;>
    simp only [same, Rule.marked, Schema.weight, Shape.weight]
  · omega
  · omega
  · rw [Template.numbered_weight, expanded]
    simp only [Option.getD_some]
    omega

theorem resolved_weight_le (mark : Nat) (s : Schema) : (s.resolved mark).1.weight ≤ s.weight := by
  rcases template_cases s with ⟨parts, shape⟩ | expanded
  · exact Nat.le_of_lt (resolved_weight mark shape)
  · exact Nat.le_of_eq (by rw [resolved_self expanded])

theorem resolved_parts (mark : Nat) {s t : Schema} {parts : List Part}
    (shape : s.shape = .template parts) (member : t ∈ (s.resolved mark).1.parts) :
    t.shape = .basic .string ∨ (∃ text, t.shape = .literal (.text text)) ∨
      ∃ variants, t.shape = .union variants := by
  rw [resolved_template shape] at member
  rcases Template.place_resolve mark parts with ⟨same, -⟩ | ⟨text, same, -⟩ | ⟨strings, same, -⟩ <;>
    rw [same, parts_eq] at member <;> rcases List.mem_cons.mp member with rfl | member
  · exact .inl rfl
  · cases member
  · exact .inr (.inl ⟨text, rfl⟩)
  · cases member
  · exact .inr (.inr ⟨_, rfl⟩)
  · obtain ⟨literal, inside, part⟩ := List.mem_flatMap.mp member
    obtain ⟨_, text, -, -, rfl⟩ := Template.mem_numbered inside
    cases List.mem_singleton.mp part
    exact .inr (.inl ⟨text, rfl⟩)

-- What a schema stands for has parts of the schema itself, or was expanded from a template.
theorem resolved_part (mark : Nat) {s t : Schema} (member : t ∈ (s.resolved mark).1.parts) :
    t ∈ s.parts ∨ t.shape = .basic .string ∨ (∃ text, t.shape = .literal (.text text)) ∨
      ∃ variants, t.shape = .union variants := by
  rcases template_cases s with ⟨parts, shape⟩ | expanded
  · exact .inr (resolved_parts mark shape member)
  · rw [resolved_self expanded] at member
    exact .inl member

-- Prepared sites: their schema is in their scope if it has an id, and there is nothing left to
-- follow or to expand.
structure Site.Ready (registry : Registry) (p : Site) : Prop where
  entered : p.scope.push p.schema = p.scope
  concrete : p.schema.isReference = false
  expanded : p.schema.isTemplate = false
  known : registry.knows p.schema.kind = true

theorem resolved_ready (mark : Nat) {s : Schema} (concrete : s.isReference = false) :
    (s.resolved mark).1.isReference = false ∧ (s.resolved mark).1.isTemplate = false ∧
      ((s.resolved mark).1 = s ∨ (s.resolved mark).1.id = .null) := by
  rcases template_cases s with ⟨parts, shape⟩ | expanded
  · rw [resolved_template shape]
    rcases Template.place_resolve mark parts with ⟨same, -⟩ | ⟨_, same, _⟩ | ⟨strings, same, _⟩ <;>
      rw [same] <;> exact ⟨rfl, rfl, .inr rfl⟩
  · rw [resolved_self expanded]
    exact ⟨concrete, expanded, .inl rfl⟩

theorem resolved_known {registry : Registry} {s : Schema} (known : registry.knows s.kind = true)
    (mark : Nat) : registry.knows (s.resolved mark).1.kind = true := by
  rcases template_cases s with ⟨parts, shape⟩ | expanded
  · rcases resolved_parts mark shape (self_mem_parts _) with made | ⟨_, made⟩ | ⟨_, made⟩ <;>
      simp [Schema.kind, made, Shape.kind, Basic.kind, Registry.knows]
  · rwa [resolved_self expanded]

theorem known_of_resolved {registry : Registry} {s : Schema} {mark : Nat}
    (known : registry.knows (s.resolved mark).1.kind = true) : registry.knows s.kind = true := by
  rcases template_cases s with ⟨parts, shape⟩ | expanded
  · simp [Schema.kind, shape, Shape.kind, Registry.knows]
  · rwa [resolved_self expanded] at known

namespace Engine

-- The marks that preparing takes: one for a scope that grew, then those of an expanded template.
def scopeMarks (site : Site) (mark : Nat) : Nat × Nat :=
  if (site.scope.push site.schema).length = site.scope.length then (site.scopeMark, mark)
  else (mark, mark + 1)

theorem scopeMarks_le (site : Site) (mark : Nat) : mark ≤ (scopeMarks site mark).2 := by
  unfold scopeMarks
  split
  · exact Nat.le_refl _
  · exact Nat.le_succ _

structure Prepares (site : Site) (w : World) (p : Site) (w' : World) : Prop where
  reached : ∃ t, site.scope.dereference site.schema = .ok (t, p.scope) ∧
    t.resolved (scopeMarks site w.supply).2 = (p.schema, w'.supply)
  scopeMark : p.scopeMark = (scopeMarks site w.supply).1
  known : w.registry.knows p.schema.kind = true
  rest : w' = { w with supply := w'.supply }

theorem prepare_eq (site : Site) (w : World) :
    prepare site w = match site.scope.dereference site.schema with
      | .error fault => (.error fault, w)
      | .ok (t, scope) =>
        let marks := scopeMarks site w.supply
        let made := t.resolved marks.2
        match w.registry.ensureKnown made.1 with
        | .error fault => (.error fault, { w with supply := made.2 })
        | .ok _ => (.ok ⟨made.1, scope, marks.1⟩, { w with supply := made.2 }) := by
  unfold prepare
  cases reached : site.scope.dereference site.schema with
  | error fault => rfl
  | ok result =>
    obtain ⟨t, scope⟩ := result
    obtain ⟨rfl, -, -⟩ := Scope.dereference_ok reached
    unfold scopeMarks
    by_cases same : (site.scope.push site.schema).length = site.scope.length <;>
      simp only [same, if_true, if_false, World.fresh, Schema.resolved] <;>
      cases t.shape <;> rfl

theorem prepare_ok {site p : Site} {w w' : World} (prepared : prepare site w = (.ok p, w')) :
    Prepares site w p w' := by
  rw [prepare_eq] at prepared
  cases reached : site.scope.dereference site.schema with
  | error fault => simp [reached] at prepared
  | ok result =>
    obtain ⟨t, scope⟩ := result
    simp only [reached, Registry.ensureKnown] at prepared
    split at prepared
    · cases prepared
    · rename_i known
      split at known
      · cases prepared
        exact ⟨⟨t, reached, rfl⟩, rfl, by assumption, rfl⟩
      · cases known

-- Preparing changes nothing but the supply of marks, also when it fails.
theorem prepare_supply (site : Site) (w : World) :
    ∃ supply, w.supply ≤ supply ∧ (prepare site w).2 = { w with supply } := by
  rw [prepare_eq]
  split
  · exact ⟨w.supply, Nat.le_refl _, rfl⟩
  · rename_i t scope _
    have marks := scopeMarks_le site w.supply
    have more := resolved_supply (scopeMarks site w.supply).2 t
    simp only
    split <;> exact ⟨_, Nat.le_trans marks more, rfl⟩

-- A scope that stays keeps its mark, and one that grows gets the mark that is free.
theorem prepare_scope {site p : Site} {w w' : World} (prepared : prepare site w = (.ok p, w')) :
    p.scope = site.scope ∧ p.scopeMark = site.scopeMark ∧ w.supply ≤ w'.supply ∨
      p.scopeMark = w.supply ∧ w.supply < w'.supply := by
  obtain ⟨⟨t, reached, made⟩, scopeMark, -, -⟩ := prepare_ok prepared
  have more := resolved_supply (scopeMarks site w.supply).2 t
  rw [made] at more
  rw [(Scope.dereference_ok reached).1]
  unfold scopeMarks at scopeMark more
  split at scopeMark
  · rename_i same
    rw [if_pos same] at more
    exact .inl ⟨Scope.push_length.mp same, scopeMark, more⟩
  · rename_i grown
    rw [if_neg grown] at more
    exact .inr ⟨scopeMark, more⟩

-- Preparing fails at a reference that leads nowhere, or at a kind that is not known.
theorem prepare_fault {site : Site} {w v : World} {fault : Fault}
    (failed : prepare site w = (.error fault, v)) :
    (∃ target, site.scope.dereference site.schema = .error fault ∧
      (fault = .unresolved target ∨ fault = .endlessChain target)) ∨
    ∃ t scope, site.scope.dereference site.schema = .ok (t, scope) ∧
      w.registry.knows t.kind = false ∧ fault = .unknownKind (.text t.kind.name) := by
  rw [prepare_eq] at failed
  cases reached : site.scope.dereference site.schema with
  | error other =>
    simp only [reached] at failed
    cases failed
    obtain ⟨target, leads⟩ := Scope.follow_fault reached
    exact .inl ⟨target, rfl, leads⟩
  | ok result =>
    obtain ⟨t, scope⟩ := result
    simp only [reached, Registry.ensureKnown] at failed
    split at failed
    · rename_i unknown
      split at unknown
      · cases unknown
      · rename_i other
        -- Only a kind of the user's own can be unknown, and such a schema is no template.
        have plain : t.isTemplate = false := by
          rcases template_cases t with ⟨parts, shape⟩ | plain
          · have known : w.registry.knows t.kind = true := by
              simp [Schema.kind, shape, Shape.kind, Registry.knows]
            exact absurd (resolved_known known _) other
          · exact plain
        rw [resolved_self plain] at other unknown failed
        cases unknown
        cases failed
        exact .inr ⟨t, scope, rfl, by simpa using other, rfl⟩
    · cases failed

theorem prepare_finishes {site : Site} {w v : World} {fault : Fault}
    (failed : prepare site w = (.error fault, v)) : fault ≠ .tooDeep := by
  rcases prepare_fault failed with ⟨target, -, same | same⟩ | ⟨t, -, -, -, same⟩
  all_goals
    rw [same]
    rintro ⟨⟩

theorem prepare_ready {site p : Site} {w w' : World} (prepared : prepare site w = (.ok p, w')) :
    p.Ready w.registry := by
  obtain ⟨⟨t, reached, made⟩, -, known, -⟩ := prepare_ok prepared
  obtain ⟨scope, concrete, inside⟩ := Scope.dereference_ok reached
  obtain ⟨isConcrete, expanded, same⟩ := resolved_ready (scopeMarks site w.supply).2 concrete
  simp only [made] at isConcrete expanded same
  refine ⟨?_, isConcrete, expanded, known⟩
  rcases same with same | absent
  · rw [same, scope]
    rcases inside with rfl | member
    · exact Scope.push_push _ _
    · exact Scope.push_of_mem member
  · exact Scope.push_of_null (by rw [absent]; rfl)

-- What a site comes to is prepared if its kind is known.
theorem prepare_reached {site : Site} {w : World} {t : Schema} {scope : Scope}
    (reached : site.scope.dereference site.schema = .ok (t, scope))
    (known : w.registry.knows t.kind = true) :
    ∃ scopeMark mark supply, prepare site w =
      (.ok ⟨(t.resolved mark).1, scope, scopeMark⟩, { w with supply }) := by
  rw [prepare_eq, reached]
  simp only [Registry.ensureKnown, resolved_known known, if_true]
  exact ⟨_, _, _, rfl⟩

theorem prepare_self {p : Site} {w : World} (ready : p.Ready w.registry) :
    prepare p w = (.ok p, w) := by
  rw [prepare_eq, Scope.dereference_concrete ready.concrete]
  simp only [scopeMarks, ready.entered, if_true, resolved_self ready.expanded,
    Registry.ensureKnown, ready.known]

end Engine

end Assignability
