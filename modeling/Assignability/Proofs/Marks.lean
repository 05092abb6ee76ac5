import Assignability.Proofs.Remarking

namespace Assignability

-- Pairs are recognised by marks alone. A ledger is sound when no mark in it stands for two schemas
-- or scopes and the supply lies above all.

-- Schemas among which marks tell any two apart, all below the supply.
structure Placed (supply : Nat) (roots : List Schema) : Prop where
  below : ∀ s ∈ roots.flatMap Schema.parts, s.mark < supply
  apart : ∀ s ∈ roots.flatMap Schema.parts, ∀ t ∈ roots.flatMap Schema.parts,
    s.mark = t.mark → s = t

-- The same of a set that holds the children of its schemas.
structure Coherent (schemas : Set Schema) (supply : Nat) : Prop where
  children : ∀ s ∈ schemas, ∀ c ∈ s.children, c ∈ schemas
  apart : ∀ s ∈ schemas, ∀ t ∈ schemas, s.mark = t.mark → s = t
  below : ∀ s ∈ schemas, s.mark < supply

theorem Coherent.parts {schemas : Set Schema} {supply : Nat} (coherent : Coherent schemas supply)
    {s t : Schema} (member : s ∈ schemas) (inside : t ∈ s.parts) : t ∈ schemas := by
  -- Down the schema, by its weight.
  induction weight : s.weight using Nat.strongRecOn generalizing s with
  | ind n ih =>
    subst weight
    rw [parts_eq] at inside
    rcases List.mem_cons.mp inside with rfl | deeper
    · exact member
    · obtain ⟨c, child, inside⟩ := List.mem_flatMap.mp deeper
      exact ih c.weight (child_weight child) (coherent.children s member c child) inside rfl

theorem Placed.coherent {supply : Nat} {roots : List Schema} (placed : Placed supply roots) :
    Coherent {s | s ∈ roots.flatMap Schema.parts} supply := by
  refine ⟨fun t member c child => ?_, placed.apart, placed.below⟩
  obtain ⟨root, isRoot, part⟩ := List.mem_flatMap.mp member
  exact List.mem_flatMap.mpr ⟨root, isRoot, parts_children part child⟩

theorem Coherent.placed {schemas : Set Schema} {supply : Nat} (coherent : Coherent schemas supply)
    {roots : List Schema} (known : ∀ s ∈ roots, s ∈ schemas) : Placed supply roots := by
  have inside : ∀ t ∈ roots.flatMap Schema.parts, t ∈ schemas := by
    intro t member
    obtain ⟨root, isRoot, part⟩ := List.mem_flatMap.mp member
    exact coherent.parts (known root isRoot) part
  exact ⟨fun s member => coherent.below s (inside s member),
    fun s member t member' => coherent.apart s (inside s member) t (inside t member')⟩

theorem Placed.subset {supply : Nat} {roots more : List Schema} (placed : Placed supply more)
    (sub : roots ⊆ more) : Placed supply roots :=
  placed.coherent.placed fun s member => List.mem_flatMap.mpr ⟨s, sub member, self_mem_parts s⟩

theorem Coherent.widen {schemas : Set Schema} {supply : Nat} (coherent : Coherent schemas supply)
    {supply' : Nat} (more : supply ≤ supply') : Coherent schemas supply' :=
  { coherent with below := fun s member => Nat.lt_of_lt_of_le (coherent.below s member) more }

structure Ledger where
  schemas : Set Schema
  scopes : Set (Nat × Scope)

namespace Ledger

structure Le (before after : Ledger) : Prop where
  schemas : before.schemas ⊆ after.schemas
  scopes : before.scopes ⊆ after.scopes

theorem Le.refl (ledger : Ledger) : Le ledger ledger := ⟨subset_rfl, subset_rfl⟩

theorem Le.trans {a b c : Ledger} (first : Le a b) (second : Le b c) : Le a c :=
  ⟨first.schemas.trans second.schemas, first.scopes.trans second.scopes⟩

-- `users` are the user kinds that schemas of the ledger may have.
structure Sound (users : Set String) (ledger : Ledger) (supply : Nat) : Prop extends
    Coherent ledger.schemas supply where
  kinds : ∀ s ∈ ledger.schemas, ∀ kind, s.kind = .user kind → kind ∈ users
  bare : (0, []) ∈ ledger.scopes
  entries : ∀ m scope, (m, scope) ∈ ledger.scopes → ∀ s ∈ scope, s ∈ ledger.schemas
  scopesApart : ∀ m scope other, (m, scope) ∈ ledger.scopes → (m, other) ∈ ledger.scopes →
    scope = other
  scopesBelow : ∀ m scope, (m, scope) ∈ ledger.scopes → m < supply

structure Knows (ledger : Ledger) (site : Site) : Prop where
  schema : site.schema ∈ ledger.schemas
  scope : (site.scopeMark, site.scope) ∈ ledger.scopes

theorem Knows.later {before after : Ledger} {site : Site} (known : Knows before site)
    (grown : Le before after) : Knows after site :=
  ⟨grown.schemas known.schema, grown.scopes known.scope⟩

end Ledger

-- Schemas made up with marks from `first` on, below `last`.
structure Made (first last : Nat) (new : List Schema) : Prop where
  children : ∀ s ∈ new, ∀ c ∈ s.children, c ∈ new
  apart : ∀ s ∈ new, ∀ t ∈ new, s.mark = t.mark → s = t
  between : ∀ s ∈ new, first ≤ s.mark ∧ s.mark < last
  builtin : ∀ s ∈ new, ∀ kind, s.kind ≠ .user kind

theorem made_numbered (mark : Nat) (strings : List String) :
    Made mark (mark + strings.length) (Template.numbered mark strings) := by
  refine ⟨?_, ?_, ?_, ?_⟩
  · intro s member c child
    obtain ⟨i, text, -, -, rfl⟩ := Template.mem_numbered member
    cases child
  · intro s member t member' same
    obtain ⟨i, text, -, found, rfl⟩ := Template.mem_numbered member
    obtain ⟨j, text', -, found', rfl⟩ := Template.mem_numbered member'
    have index : i = j := by simpa [Rule.marked, Schema.mark] using same
    subst index
    cases found.symm.trans found'
    rfl
  · intro s member
    obtain ⟨i, text, bound, -, rfl⟩ := Template.mem_numbered member
    simp only [Rule.marked, Schema.mark]
    omega
  · intro s member kind
    obtain ⟨i, text, -, -, rfl⟩ := Template.mem_numbered member
    simp [Rule.marked, Schema.kind, Schema.shape, Shape.kind]

-- One schema on top of others that are its children.
theorem Made.cons {first last : Nat} {shape : Shape} {new : List Schema}
    (later : Made (first + 1) last new) (bound : first < last)
    (children : ∀ c ∈ (Rule.marked first shape).children, c ∈ new)
    (builtin : ∀ kind, shape.kind ≠ .user kind) :
    Made first last (Rule.marked first shape :: new) := by
  have above : ∀ s ∈ new, s.mark ≠ first := fun s member => by
    have := (later.between s member).1
    omega
  refine ⟨?_, ?_, ?_, ?_⟩
  · intro s member c child
    rcases List.mem_cons.mp member with rfl | member
    · exact List.mem_cons_of_mem _ (children c child)
    · exact List.mem_cons_of_mem _ (later.children s member c child)
  · intro s member t member' same
    rcases List.mem_cons.mp member with rfl | member <;>
      rcases List.mem_cons.mp member' with rfl | member'
    · rfl
    · exact absurd same.symm (above t member')
    · exact absurd same (above s member)
    · exact later.apart s member t member' same
  · intro s member
    rcases List.mem_cons.mp member with rfl | member
    · exact ⟨Nat.le_refl _, bound⟩
    · have := later.between s member
      omega
  · intro s member kind
    rcases List.mem_cons.mp member with rfl | member
    · exact builtin kind
    · exact later.builtin s member kind

theorem Made.nil (first last : Nat) : Made first last [] :=
  ⟨by simp, by simp, by simp, by simp⟩

theorem Made.widen {first last last' : Nat} {new : List Schema} (made : Made first last new)
    (bound : last ≤ last') : Made first last' new :=
  ⟨made.children, made.apart,
    fun s member => ⟨(made.between s member).1, Nat.lt_of_lt_of_le (made.between s member).2 bound⟩,
    made.builtin⟩

theorem made_resolve (mark : Nat) (parts : List Part) :
    ∃ new, Made mark ((Template.resolve parts).place mark).2 new ∧
      ((Template.resolve parts).place mark).1 ∈ new := by
  rcases Template.place_resolve mark parts with ⟨same, -⟩ | ⟨text, same, -⟩ | ⟨strings, same, -⟩
  · rw [same]
    refine ⟨_, (Made.nil (mark + 1) (mark + 1)).cons (by omega) ?_ ?_, List.mem_cons_self⟩ <;>
      simp [Rule.marked, Schema.children, Schema.shape, Shape.kind, Basic.kind]
  · rw [same]
    refine ⟨_, (Made.nil (mark + 1) (mark + 1)).cons (by omega) ?_ ?_, List.mem_cons_self⟩ <;>
      simp [Rule.marked, Schema.children, Schema.shape, Shape.kind]
  · rw [same]
    refine ⟨_, (made_numbered (mark + 1) strings).cons (by omega) ?_ ?_, List.mem_cons_self⟩ <;>
      simp [Rule.marked, Schema.children, Schema.shape, Shape.kind]

theorem made_made (mark : Nat) (left right : Schema) :
    ∃ new, Made mark (mark + Rule.marksUsed) new ∧ Rule.made mark left right ∈ new := by
  have leaf : ∀ (m : Nat) (b : Basic), Made m (m + 1) [Rule.marked m (.basic b)] := by
    intro m b
    refine (Made.nil (m + 1) (m + 1)).cons (by omega) ?_ ?_
    · simp [Rule.marked, Schema.children, Schema.shape]
    · cases b <;> simp [Shape.kind, Basic.kind]
  have two : ∀ (a b : Basic), Made (mark + 1) (mark + 3)
      [Rule.marked (mark + 1) (.basic a), Rule.marked (mark + 2) (.basic b)] := by
    intro a b
    refine (leaf (mark + 2) b).cons (by omega) ?_ ?_
    · simp [Rule.marked, Schema.children, Schema.shape]
    · cases a <;> simp [Shape.kind, Basic.kind]
  rcases Rule.made_cases mark left right with member | ⟨b, same⟩
  · simp only [Rule.members, List.mem_cons, List.not_mem_nil, or_false] at member
    rcases member with same | same | same <;> rw [same]
    · exact ⟨_, (leaf mark .number).widen (by simp [Rule.marksUsed]), List.mem_cons_self⟩
    · refine ⟨_, (two .string .undefined).cons (by omega) ?_ ?_, List.mem_cons_self⟩ <;>
        simp [Rule.marked, Schema.children, Schema.shape, Shape.kind]
    · refine ⟨_, (two .any .any).cons (by omega) ?_ ?_, List.mem_cons_self⟩ <;>
        simp [Rule.marked, Schema.children, Schema.shape, Shape.kind, CallForm.kind]
  · rw [same]
    exact ⟨_, (leaf mark b).widen (by simp [Rule.marksUsed]), List.mem_cons_self⟩

namespace Ledger

section
variable {users : Set String} {ledger : Ledger} {supply : Nat}

theorem Sound.widen (sound : Sound users ledger supply) {supply' : Nat} (more : supply ≤ supply') :
    Sound users ledger supply' :=
  { sound with
    toCoherent := sound.toCoherent.widen more
    scopesBelow := fun m scope member =>
      Nat.lt_of_lt_of_le (sound.scopesBelow m scope member) more }

def add (ledger : Ledger) (new : List Schema) : Ledger :=
  { ledger with schemas := ledger.schemas ∪ {s | s ∈ new} }

theorem le_add (ledger : Ledger) (new : List Schema) : Le ledger (ledger.add new) :=
  ⟨Set.subset_union_left, subset_rfl⟩

theorem Sound.add (sound : Sound users ledger supply) {last : Nat} {new : List Schema}
    (made : Made supply last new) (more : supply ≤ last) : Sound users (ledger.add new) last := by
  have distinct : ∀ s ∈ ledger.schemas, ∀ t ∈ new, s.mark ≠ t.mark := fun s member t member' => by
    have := sound.below s member
    have := (made.between t member').1
    omega
  refine ⟨⟨?_, ?_, ?_⟩, ?_, sound.bare, ?_, sound.scopesApart, ?_⟩
  · intro s member c child
    rcases member with member | member
    · exact .inl (sound.children s member c child)
    · exact .inr (made.children s member c child)
  · intro s member t member' same
    rcases member with member | member <;> rcases member' with member' | member'
    · exact sound.apart s member t member' same
    · exact absurd same (distinct s member t member')
    · exact absurd same.symm (distinct t member' s member)
    · exact made.apart s member t member' same
  · intro s member
    rcases member with member | member
    · exact Nat.lt_of_lt_of_le (sound.below s member) more
    · exact (made.between s member).2
  · intro s member kind isUser
    rcases member with member | member
    · exact sound.kinds s member kind isUser
    · exact absurd isUser (made.builtin s member kind)
  · exact fun m scope member s inside => .inl (sound.entries m scope member s inside)
  · exact fun m scope member => Nat.lt_of_lt_of_le (sound.scopesBelow m scope member) more

def enter (ledger : Ledger) (mark : Nat) (scope : Scope) : Ledger :=
  { ledger with scopes := ledger.scopes ∪ {(mark, scope)} }

theorem le_enter (ledger : Ledger) (mark : Nat) (scope : Scope) :
    Le ledger (ledger.enter mark scope) :=
  ⟨subset_rfl, Set.subset_union_left⟩

theorem Sound.enter (sound : Sound users ledger supply) {scope : Scope}
    (entries : ∀ s ∈ scope, s ∈ ledger.schemas) :
    Sound users (ledger.enter supply scope) (supply + 1) := by
  have wider := sound.widen (Nat.le_succ supply)
  refine ⟨wider.toCoherent, sound.kinds, .inl sound.bare, ?_, ?_, ?_⟩
  · intro m other member s inside
    rcases member with member | member
    · exact sound.entries m other member s inside
    · cases member
      exact entries s inside
  · intro m a b first second
    have fresh : ∀ scope, (supply, scope) ∉ ledger.scopes := fun scope member =>
      absurd (sound.scopesBelow supply scope member) (Nat.lt_irrefl _)
    rcases first with first | first <;> rcases second with second | second
    · exact sound.scopesApart m a b first second
    · cases second
      exact absurd first (fresh a)
    · cases first
      exact absurd second (fresh b)
    · cases first
      cases second
      rfl
  · intro m other member
    rcases member with member | member
    · exact wider.scopesBelow m other member
    · cases member
      exact Nat.lt_succ_self _

theorem Sound.site (sound : Sound users ledger supply) {p q : Site} (first : Knows ledger p)
    (second : Knows ledger q) (schemas : p.schema.mark = q.schema.mark)
    (scopes : p.scopeMark = q.scopeMark) : p = q := by
  obtain ⟨s, scope, mark⟩ := p
  obtain ⟨t, other, mark'⟩ := q
  cases scopes
  cases sound.apart s first.schema t second.schema schemas
  cases sound.scopesApart mark scope other first.scope second.scope
  rfl

-- Pairs that are known are told apart by their keys.
theorem Sound.pair (sound : Sound users ledger supply) {left right left' right' : Site}
    (onLeft : Knows ledger left) (onRight : Knows ledger right) (onLeft' : Knows ledger left')
    (onRight' : Knows ledger right') (same : PairKey.of left right = PairKey.of left' right') :
    (left, right) = (left', right') := by
  simp only [PairKey.of, PairKey.mk.injEq] at same
  obtain ⟨leftMarks, rightMarks, leftScopes, rightScopes⟩ := same
  rw [sound.site onLeft onLeft' leftMarks leftScopes,
    sound.site onRight onRight' rightMarks rightScopes]

theorem Sound.prepare {w : World} (sound : Sound users ledger w.supply) {site : Site}
    (known : Knows ledger site) :
    ∃ after, Le ledger after ∧ Sound users after (Engine.prepare site w).2.supply ∧
      ∀ p, (Engine.prepare site w).1 = .ok p → Knows after p := by
  cases ran : Engine.prepare site w with
  | mk outcome w' =>
    cases outcome with
    | error fault =>
      obtain ⟨supply, more, rest⟩ := Engine.prepare_supply site w
      rw [ran] at rest
      refine ⟨ledger, .refl _, ?_, fun p returned => by cases returned⟩
      simp only at rest
      subst rest
      exact sound.widen more
    | ok p =>
      obtain ⟨⟨t, reached, resolved⟩, mark, -, -⟩ := Engine.prepare_ok ran
      obtain ⟨scope, -, inside⟩ := Scope.dereference_ok reached
      have entries : ∀ s ∈ site.scope.push site.schema, s ∈ ledger.schemas := by
        intro s member
        rcases Scope.mem_push member with member | rfl
        · exact sound.entries _ _ known.scope s member
        · exact known.schema
      have target : t ∈ ledger.schemas := by
        rcases inside with rfl | member
        · exact known.schema
        · exact entries t member
      -- First the scope, which may have got a mark, then what the schema stands for.
      obtain ⟨middle, grown, sound', place⟩ : ∃ middle, Le ledger middle ∧
          Sound users middle (Engine.scopeMarks site w.supply).2 ∧
          (p.scopeMark, p.scope) ∈ middle.scopes := by
        rw [mark, scope]
        unfold Engine.scopeMarks
        split
        · rename_i same
          rw [Scope.push_length.mp same]
          exact ⟨ledger, .refl _, sound, known.scope⟩
        · exact ⟨_, le_enter _ _ _, sound.enter entries, .inr rfl⟩
      have intended : ∀ after, Le middle after → p.schema ∈ after.schemas → Knows after p :=
        fun after later member => ⟨member, later.scopes place⟩
      rcases template_cases t with ⟨parts, shape⟩ | expanded
      · rw [resolved_template shape] at resolved
        obtain ⟨new, made, member⟩ := made_resolve (Engine.scopeMarks site w.supply).2 parts
        have more := resolved_supply (Engine.scopeMarks site w.supply).2 t
        rw [resolved_template shape] at more
        rw [resolved] at made member more
        refine ⟨middle.add new, grown.trans (le_add _ _), sound'.add made more, ?_⟩
        intro q returned
        cases returned
        exact intended _ (le_add _ _) (.inr member)
      · rw [resolved_self expanded] at resolved
        obtain ⟨same, supply⟩ := Prod.mk.inj resolved
        refine ⟨middle, grown, supply ▸ sound', ?_⟩
        intro q returned
        cases returned
        exact intended _ (.refl _) (same ▸ grown.schemas target)

theorem Knows.moves (sound : Sound users ledger supply) {site x : Site} (known : Knows ledger site)
    (moves : site.Moves x) : Knows ledger x := by
  cases moves with
  | stays => exact known
  | enters child => exact ⟨sound.children _ known.schema _ child, known.scope⟩

-- What the goal of a known pair asks for is known once the schema it may make up is.
theorem Sound.asks (sound : Sound users ledger supply) {left right : Site}
    (onLeft : Knows ledger left) (onRight : Knows ledger right) :
    ∃ after, Le ledger after ∧ Sound users after (supply + Rule.marksUsed) ∧
      ∀ x y, Rule.Asks supply left right x y → Knows after x ∧ Knows after y := by
  obtain ⟨new, made, member⟩ := made_made supply left.schema right.schema
  have grown := le_add ledger new
  have sound' := sound.add made (Nat.le_add_right _ _)
  refine ⟨ledger.add new, grown, sound', fun x y asks => ?_⟩
  have left' := onLeft.later grown
  have right' := onRight.later grown
  cases asks with
  | onward first second _ => exact ⟨left'.moves sound' first, right'.moves sound' second⟩
  | swapped first second _ => exact ⟨right'.moves sound' second, left'.moves sound' first⟩
  | member _ second => exact ⟨⟨.inr member, sound'.bare⟩, right'.moves sound' second⟩
  | item _ second => exact ⟨⟨.inr member, left'.scope⟩, right'.moves sound' second⟩

end

-- Schemas that are placed start a ledger.
theorem exists_of_placed (users : Set String) {supply : Nat} {roots : List Schema} {s : Schema}
    (placed : Placed supply roots) (one : s ∈ roots)
    (kinds : ∀ t ∈ roots.flatMap Schema.parts, ∀ kind, t.kind = .user kind → kind ∈ users) :
    ∃ ledger, Sound users ledger supply ∧ ∀ t ∈ roots, t ∈ ledger.schemas := by
  have inside : ∀ t ∈ roots, t ∈ roots.flatMap Schema.parts :=
    fun t member => List.mem_flatMap.mpr ⟨t, member, self_mem_parts t⟩
  have positive : 0 < supply := Nat.zero_lt_of_lt (placed.below s (inside s one))
  refine ⟨⟨{t | t ∈ roots.flatMap Schema.parts}, {(0, [])}⟩,
    ⟨placed.coherent, kinds, rfl, ?_, ?_, ?_⟩, inside⟩
  · intro m scope member t entry
    cases member
    cases entry
  · intro m scope other first second
    cases first
    cases second
    rfl
  · intro m scope member
    cases member
    exact positive

theorem Sound.site_of {users : Set String} {ledger : Ledger} {w : World}
    (sound : Sound users ledger w.supply) {s : Schema} (scope : Scope) (known : s ∈ ledger.schemas)
    (entries : ∀ t ∈ scope, t ∈ ledger.schemas) :
    ∃ after mark supply, Le ledger after ∧ Sound users after supply ∧
      w.site s scope = (⟨s, scope, mark⟩, { w with supply }) ∧ Knows after ⟨s, scope, mark⟩ := by
  cases scope with
  | nil => exact ⟨ledger, 0, w.supply, .refl _, sound, rfl, known, sound.bare⟩
  | cons t rest =>
    exact ⟨_, w.supply, w.supply + 1, le_enter _ _ _, sound.enter entries, rfl, known, .inr rfl⟩

end Ledger

end Assignability
