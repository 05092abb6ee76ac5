import Assignability.Proofs.Remarking
import Mathlib.Data.List.Nodup
import Mathlib.Data.List.Perm.Subperm

namespace Assignability

-- A chain that comes to an end passes no reference twice, so following it finds the end whatever
-- the marks are: they only serve to notice chains that have none.

theorem eraseEntries_eq (entries : List (Value × Value)) :
    Value.eraseEntries entries = entries.map fun p => (p.1.erase, p.2.erase) := by
  induction entries with
  | nil => rfl
  | cons p rest ih => simp [Value.eraseEntries, ih]

theorem lookup_erase (properties : List (String × Schema)) (name : String) :
    (Schema.eraseProperties properties).lookup name =
      (properties.lookup name).map Schema.erase := by
  induction properties with
  | nil => rfl
  | cons p rest ih =>
    obtain ⟨other, s⟩ := p
    cases here : name == other <;> simp [Schema.eraseProperties, List.lookup_cons, here, ih]

mutual

theorem Value.same_erase : ∀ v w : Value, v.erase.same w.erase = v.same w
  | .null, w => by cases w <;> simp [Value.erase, Value.same]
  | .scalar a, w => by cases w <;> simp [Value.erase, Value.same]
  | .list xs, w => by cases w <;> simp [Value.erase, Value.same, Value.sameAll_erase xs]
  | .tuple xs, w => by cases w <;> simp [Value.erase, Value.same, Value.sameAll_erase xs]
  | .table xs, w => by
    cases w <;> simp [Value.erase, Value.same, Value.sameEntries_erase xs, eraseEntries_eq]
  | .schema s, w => by cases w <;> simp [Value.erase, Value.same, Schema.same_erase s]

theorem Value.sameAll_erase : ∀ vs ws : List Value,
    Value.sameAll (Value.eraseAll vs) (Value.eraseAll ws) = Value.sameAll vs ws
  | [], ws => by cases ws <;> simp [Value.eraseAll, Value.sameAll]
  | v :: vs, ws => by
    cases ws <;> simp [Value.eraseAll, Value.sameAll, Value.same_erase v, Value.sameAll_erase vs]

theorem Value.sameEntries_erase : ∀ ps qs : List (Value × Value),
    Value.sameEntries (ps.map fun p => (p.1.erase, p.2.erase))
      (qs.map fun p => (p.1.erase, p.2.erase)) = Value.sameEntries ps qs
  | [], qs => by simp [Value.sameEntries]
  | (k, v) :: rest, qs => by
    have keys : ∀ other : Value, k.erase.same other.erase = k.same other := Value.same_erase k
    simp only [List.map_cons, Value.sameEntries, List.find?_map, Function.comp_def, keys,
      Value.sameEntries_erase rest qs]
    cases qs.find? fun q => k.same q.1 with
    | none => rfl
    | some q => simp [Value.same_erase v]

theorem Schema.same_erase : ∀ s t : Schema, s.erase.same t.erase = s.same t
  | .mk _ id optional shape, t => by
    cases t
    simp [Schema.erase, Schema.same, Value.same_erase id, Shape.same_erase shape]

theorem Schema.sameAll_erase : ∀ ss ts : List Schema,
    Schema.sameAll (Schema.eraseAll ss) (Schema.eraseAll ts) = Schema.sameAll ss ts
  | [], ts => by cases ts <;> simp [Schema.eraseAll, Schema.sameAll]
  | s :: ss, ts => by
    cases ts <;>
      simp [Schema.eraseAll, Schema.sameAll, Schema.same_erase s, Schema.sameAll_erase ss]

theorem Part.sameAll_erase : ∀ ps qs : List Part,
    Part.sameAll (Part.eraseAll ps) (Part.eraseAll qs) = Part.sameAll ps qs
  | [], qs => by
    cases qs with
    | nil => rfl
    | cons q rest => cases q <;> simp [Part.eraseAll, Part.sameAll]
  | .text a :: ps, qs => by
    cases qs with
    | nil => simp [Part.eraseAll, Part.sameAll]
    | cons q rest => cases q <;> simp [Part.eraseAll, Part.sameAll, Part.sameAll_erase ps]
  | .schema s :: ps, qs => by
    cases qs with
    | nil => simp [Part.eraseAll, Part.sameAll]
    | cons q rest =>
      cases q <;>
        simp [Part.eraseAll, Part.sameAll, Schema.same_erase s, Part.sameAll_erase ps]

theorem Schema.sameProperties_erase : ∀ ps qs : List (String × Schema),
    Schema.sameProperties (Schema.eraseProperties ps) (Schema.eraseProperties qs) =
      Schema.sameProperties ps qs
  | [], qs => by simp [Schema.eraseProperties, Schema.sameProperties]
  | (name, s) :: rest, qs => by
    rw [Schema.eraseProperties, Schema.sameProperties, Schema.sameProperties, lookup_erase,
      Schema.sameProperties_erase rest]
    cases qs.lookup name with
    | none => rfl
    | some t => simp [Schema.same_erase s]

theorem Value.sameFields_erase : ∀ ps qs : List (String × Value),
    Value.sameFields (Value.eraseFields ps) (Value.eraseFields qs) = Value.sameFields ps qs
  | [], qs => by cases qs <;> simp [Value.eraseFields, Value.sameFields]
  | (name, v) :: rest, qs => by
    cases qs <;>
      simp [Value.eraseFields, Value.sameFields, Value.same_erase v, Value.sameFields_erase rest]

theorem Shape.same_erase : ∀ a b : Shape, a.erase.same b.erase = a.same b
  | .basic a, b => by cases b <;> simp [Shape.erase, Shape.same]
  | .literal a, b => by cases b <;> simp [Shape.erase, Shape.same]
  | .callable form ps r, b => by
    cases b <;> simp [Shape.erase, Shape.same, Schema.sameAll_erase ps, Schema.same_erase r]
  | .promise s, b => by cases b <;> simp [Shape.erase, Shape.same, Schema.same_erase s]
  | .template ps, b => by cases b <;> simp [Shape.erase, Shape.same, Part.sameAll_erase ps]
  | .array s, b => by cases b <;> simp [Shape.erase, Shape.same, Schema.same_erase s]
  | .tuple xs, b => by cases b <;> simp [Shape.erase, Shape.same, Schema.sameAll_erase xs]
  | .object ps a, b => by
    have count : ∀ properties : List (String × Schema),
        (Schema.eraseProperties properties).length = properties.length := by
      simp [eraseProperties_eq]
    cases b <;>
      simp [Shape.erase, Shape.same, Schema.sameProperties_erase ps, Value.same_erase a, count]
  | .record k v, b => by
    cases b <;> simp [Shape.erase, Shape.same, Schema.same_erase k, Schema.same_erase v]
  | .union xs, b => by cases b <;> simp [Shape.erase, Shape.same, Schema.sameAll_erase xs]
  | .intersect xs, b => by cases b <;> simp [Shape.erase, Shape.same, Schema.sameAll_erase xs]
  | .reference form a, b => by cases b <;> simp [Shape.erase, Shape.same, Value.same_erase a]
  | .user kind xs, b => by cases b <;> simp [Shape.erase, Shape.same, Value.sameFields_erase xs]

end

theorem Value.equal_erase (v w : Value) : v.erase.equal w.erase = v.equal w := by
  cases v with
  | scalar a =>
    have alone := Value.same_erase (.scalar a) w
    simp only [Value.erase] at alone
    cases a with
    | real x => cases x <;> simp only [Value.erase, Value.equal, alone]
    | _ => simp only [Value.erase, Value.equal, alone]
  | _ => exact Value.same_erase _ w

-- Values that differ in marks only are equal to the same values.
theorem Value.equal_congr {v v' w w' : Value} (first : v.erase = v'.erase)
    (second : w.erase = w'.erase) : v.equal w = v'.equal w' := by
  rw [← Value.equal_erase, first, second, Value.equal_erase]

theorem Value.isNull_congr {v v' : Value} (same : v.erase = v'.erase) : v.isNull = v'.isNull := by
  cases v <;> cases v' <;> simp_all [Value.erase, Value.isNull]

namespace Scope

-- Following references from the first schema passes those in the list and ends at the second one.
inductive Leads (scope : Scope) : Schema → List Schema → Schema → Prop
  | here {s : Schema} : s.isReference = false → Leads scope s [] s
  | next {s n t : Schema} {form : ReferenceForm} {target : Value} {chain : List Schema} :
    s.shape = .reference form target → scope.resolve? target = some n → Leads scope n chain t →
    Leads scope s (s :: chain) t

section
variable {scope : Scope} {s t u : Schema} {chain : List Schema}

theorem not_reference {form : ReferenceForm} {target : Value}
    (shape : s.shape = .reference form target) : s.isReference ≠ false := by
  simp [Schema.isReference, shape]

theorem Leads.unique {chain' : List Schema} {t' : Schema} (one : Leads scope s chain t)
    (two : Leads scope s chain' t') : chain = chain' ∧ t = t' := by
  induction one generalizing chain' with
  | here concrete =>
    cases two with
    | here _ => exact ⟨rfl, rfl⟩
    | next shape _ _ => exact absurd concrete (not_reference shape)
  | next shape found _ ih =>
    cases two with
    | here concrete => exact absurd concrete (not_reference shape)
    | next shape' found' rest =>
      cases shape.symm.trans shape'
      cases found.symm.trans found'
      obtain ⟨rfl, rfl⟩ := ih rest
      exact ⟨rfl, rfl⟩

theorem Leads.suffix (leads : Leads scope s chain t) (passed : u ∈ chain) :
    ∃ later, Leads scope u later t ∧ later.length ≤ chain.length := by
  induction leads with
  | here _ => cases passed
  | next shape found rest ih =>
    rcases List.mem_cons.mp passed with rfl | passed
    · exact ⟨_, .next shape found rest, Nat.le_refl _⟩
    · obtain ⟨later, leads, short⟩ := ih passed
      exact ⟨later, leads, Nat.le_succ_of_le short⟩

-- A reference that is passed again would lead on just as before, without end.
theorem Leads.nodup (leads : Leads scope s chain t) : chain.Nodup := by
  induction leads with
  | here _ => exact List.nodup_nil
  | @next s n t form target chain shape found rest ih =>
    refine List.nodup_cons.mpr ⟨fun again => ?_, ih⟩
    obtain ⟨later, leads, short⟩ := rest.suffix again
    obtain ⟨same, -⟩ := leads.unique (.next shape found rest)
    rw [same] at short
    exact absurd short (Nat.not_succ_le_self _)

theorem Leads.inside (leads : Leads scope s chain t) (passed : u ∈ chain) : u ∈ s :: scope := by
  induction leads with
  | here _ => cases passed
  | @next s n t form target chain _ found _ ih =>
    rcases List.mem_cons.mp passed with rfl | passed
    · exact List.mem_cons_self
    · rcases List.mem_cons.mp (ih passed) with rfl | entry
      · exact List.mem_cons_of_mem _ (resolve_mem found)
      · exact List.mem_cons_of_mem _ entry

theorem Leads.length_le (leads : Leads scope s chain t) : chain.length ≤ scope.length + 1 :=
  (leads.nodup.subperm fun _ passed => leads.inside passed).length_le

theorem leads_of_follow {steps : Nat} {passed : List Nat} {after : Scope}
    (reached : scope.follow steps passed s = .ok (t, after)) :
    ∃ chain, Leads scope s chain t := by
  induction steps generalizing passed s with
  | zero =>
    unfold follow at reached
    split at reached
    · split at reached <;> cases reached
    · cases reached
      exact ⟨[], .here (by simp [Schema.isReference])⟩
  | succ steps ih =>
    unfold follow at reached
    split at reached
    · rename_i form target shape
      split at reached
      · cases reached
      · simp only at reached
        split at reached
        · cases reached
        · rename_i next found
          rw [push_of_mem (resolve_mem found)] at reached
          obtain ⟨chain, leads⟩ := ih reached
          exact ⟨s :: chain, .next shape found leads⟩
    · cases reached
      exact ⟨[], .here (by simp [Schema.isReference])⟩

theorem Leads.follow (leads : Leads scope s chain t) {steps : Nat} {passed : List Nat}
    (enough : chain.length ≤ steps) (apart : (chain.map Schema.mark).Nodup)
    (fresh : ∀ u ∈ chain, u.mark ∉ passed) : scope.follow steps passed s = .ok (t, scope) := by
  induction leads generalizing steps passed with
  | @here s concrete =>
    unfold Scope.follow
    cases shape : s.shape with
    | reference form target => exact absurd concrete (not_reference shape)
    | _ => rfl
  | @next s n t form target chain shape found rest ih =>
    obtain ⟨first, apart⟩ := List.nodup_cons.mp apart
    cases steps with
    | zero => cases enough
    | succ steps =>
      have unseen : passed.contains s.mark = false := by
        simpa using fresh s List.mem_cons_self
      unfold Scope.follow
      simp only [shape, unseen, found, push_of_mem (resolve_mem found), Bool.false_eq_true,
        if_false]
      refine ih (Nat.le_of_succ_le_succ enough) apart fun u inside => ?_
      rw [List.mem_cons, not_or]
      refine ⟨fun same => first ?_, fresh u (List.mem_cons_of_mem _ inside)⟩
      exact List.mem_map.mpr ⟨u, inside, same⟩

-- Where marks tell the schema and the entries of its scope apart, references are followed to the
-- end of their chain.
theorem dereference_iff (apart : s.isReference = true → ∀ u ∈ s :: scope, ∀ v ∈ s :: scope,
      u.mark = v.mark → u = v) {after : Scope} :
    scope.dereference s = .ok (t, after) ↔
      after = scope.push s ∧ ∃ chain, (scope.push s).Leads s chain t := by
  constructor
  · intro reached
    exact ⟨(dereference_ok reached).1, leads_of_follow reached⟩
  · rintro ⟨rfl, chain, leads⟩
    cases isReference : s.isReference with
    | false =>
      obtain ⟨-, rfl⟩ := leads.unique (.here isReference)
      exact dereference_concrete isReference
    | true =>
      have among : ∀ u ∈ chain, u ∈ s :: scope := by
        intro u passed
        rcases List.mem_cons.mp (leads.inside passed) with rfl | entry
        · exact List.mem_cons_self
        · rcases mem_push entry with earlier | rfl
          · exact List.mem_cons_of_mem _ earlier
          · exact List.mem_cons_self
      have marks : (chain.map Schema.mark).Nodup :=
        List.Nodup.map_on (fun u inside v inside' same =>
          apart isReference u (among u inside) v (among v inside') same) leads.nodup
      exact leads.follow (Nat.le_succ_of_le leads.length_le) marks fun _ _ => List.not_mem_nil

-- What a schema with an id answers as an entry of a scope.
def answer? (s : Schema) (target : Value) : Option Schema :=
  if s.id.isNull = false ∧ s.id.equal target = true then some s else none

-- A schema is asked after everything that was there before it.
theorem resolve_push (apart : s.id.isNull = false → ∀ e ∈ scope, e.mark = s.mark → e = s)
    (target : Value) :
    (scope.push s).resolve? target = (scope.resolve? target).or (answer? s target) := by
  cases absent : s.id.isNull with
  | true => simp [push_of_null absent, answer?, absent]
  | false =>
    cases held : scope.holds s with
    | true =>
      obtain ⟨e, entry, marks⟩ := List.any_eq_true.mp held
      cases apart absent e entry (beq_iff_eq.mp marks)
      rw [push_of_mem entry]
      cases found : scope.resolve? target with
      | some n => rfl
      | none =>
        have differs := List.find?_eq_none.mp found s entry
        simp [answer?, differs]
    | false =>
      simp only [push, absent, held, Bool.or_self, Bool.false_eq_true, if_false, resolve?,
        List.find?_append]
      cases equal : s.id.equal target <;> simp [answer?, absent, equal]

end

end Scope

end Assignability
