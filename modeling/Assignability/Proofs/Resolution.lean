import Assignability.Proofs.Chains

namespace Assignability

-- The loop that follows a chain resolves each reference once, so it ends in time, at a schema that
-- is no reference, a reference that names nobody, or one that was passed before.

namespace Scope

-- What a reference stands for.
def onward? (scope : Scope) (s : Schema) : Option Schema :=
  match s.shape with
  | .reference _ target => scope.resolve? target
  | _ => none

-- From the first schema a chain passes the references in the list and comes to the second one.
inductive Passes (scope : Scope) : Schema → List Schema → Schema → Prop
  | here {s : Schema} : Passes scope s [] s
  | next {s n t : Schema} {chain : List Schema} : scope.onward? s = some n →
    Passes scope n chain t → Passes scope s (s :: chain) t

-- The loop from a schema on, with the marks of the references it has passed: how many it still
-- resolves, and how it ends.
inductive Walks : Scope → List Nat → Schema → Nat → Except Fault (Schema × Scope) → Prop
  | reached {scope : Scope} {passed : List Nat} {s : Schema} : s.isReference = false →
    Walks scope passed s 0 (.ok (s, scope))
  | again {scope : Scope} {passed : List Nat} {s : Schema} {form : ReferenceForm} {target : Value} :
    s.shape = .reference form target → s.mark ∈ passed →
    Walks scope passed s 0 (.error (.endlessChain target))
  | missing {scope : Scope} {passed : List Nat} {s : Schema} {form : ReferenceForm}
    {target : Value} : s.shape = .reference form target → s.mark ∉ passed →
    scope.resolve? target = none → Walks scope passed s 1 (.error (.unresolved target))
  | next {scope : Scope} {passed : List Nat} {s t : Schema} {form : ReferenceForm} {target : Value}
    {count : Nat} {outcome : Except Fault (Schema × Scope)} : s.shape = .reference form target →
    s.mark ∉ passed → scope.resolve? target = some t →
    Walks (scope.push t) (s.mark :: passed) t count outcome →
    Walks scope passed s (count + 1) outcome

section
variable {scope : Scope} {s t u n : Schema} {chain : List Schema}

theorem onward_reference {form : ReferenceForm} {target : Value}
    (shape : s.shape = .reference form target) : scope.onward? s = scope.resolve? target := by
  simp [onward?, shape]

theorem onward_mem (onward : scope.onward? s = some n) : n ∈ scope := by
  unfold onward? at onward
  split at onward
  · exact resolve_mem onward
  · cases onward

theorem onward_concrete (concrete : s.isReference = false) : scope.onward? s = none := by
  cases shape : s.shape with
  | reference form target => exact absurd concrete (not_reference shape)
  | _ => simp [onward?, shape]

theorem Passes.of_end (passes : scope.Passes s chain t) (ends : scope.onward? s = none) :
    chain = [] ∧ s = t := by
  cases passes with
  | here => exact ⟨rfl, rfl⟩
  | next onward _ =>
    rw [ends] at onward
    cases onward

-- Of two stretches of a chain one is the beginning of the other.
theorem Passes.compare {chain' : List Schema} (one : scope.Passes s chain t)
    (two : scope.Passes s chain' u) :
    (∃ rest, chain' = chain ++ rest ∧ scope.Passes t rest u) ∨
      ∃ rest, chain = chain' ++ rest ∧ scope.Passes u rest t := by
  induction one generalizing chain' with
  | here => exact .inl ⟨chain', rfl, two⟩
  | next onward later ih =>
    cases two with
    | here => exact .inr ⟨_, rfl, .next onward later⟩
    | next onward' later' =>
      cases onward.symm.trans onward'
      rcases ih later' with ⟨rest, rfl, onto⟩ | ⟨rest, rfl, onto⟩
      · exact .inl ⟨rest, rfl, onto⟩
      · exact .inr ⟨rest, rfl, onto⟩

-- A chain that ends goes on, from whatever it comes to, to the same end.
theorem Passes.split {chain' : List Schema} (passes : scope.Passes s chain t)
    (ends : scope.onward? t = none) (other : scope.Passes s chain' u) :
    ∃ rest, chain = chain' ++ rest ∧ scope.Passes u rest t := by
  rcases passes.compare other with ⟨rest, rfl, onto⟩ | before
  · obtain ⟨rfl, rfl⟩ := onto.of_end ends
    exact ⟨[], by simp, .here⟩
  · exact before

theorem Passes.upto (passes : scope.Passes s chain t) (passed : u ∈ chain) :
    ∃ before after, chain = before ++ after ∧ after ≠ [] ∧ scope.Passes s before u ∧
      scope.Passes u after t := by
  induction passes with
  | here => cases passed
  | @next s n t chain onward later ih =>
    rcases List.mem_cons.mp passed with rfl | passed
    · exact ⟨[], u :: chain, rfl, List.cons_ne_nil _ _, .here, .next onward later⟩
    · obtain ⟨before, after, rfl, more, first, second⟩ := ih passed
      exact ⟨s :: before, after, rfl, more, .next onward first, second⟩

-- If it came to something a second time, it would go round forever.
theorem Passes.not_mem (passes : scope.Passes s chain t) (ends : scope.onward? t = none)
    {chain' : List Schema} (other : scope.Passes s chain' u) : u ∉ chain' := by
  intro again
  obtain ⟨before, after, rfl, more, first, -⟩ := other.upto again
  obtain ⟨rest, same, onto⟩ := passes.split ends other
  obtain ⟨rest', same', onto'⟩ := passes.split ends first
  obtain ⟨left, longer, -⟩ := onto.split ends onto'
  have lengths := congrArg List.length (same.symm.trans same')
  simp only [longer, List.length_append] at lengths
  exact more (List.eq_nil_of_length_eq_zero (by omega))

-- A loop without bound takes no more steps than there are marks it can pass.
theorem Walks.count_le {passed ground : List Nat} {count : Nat}
    {outcome : Except Fault (Schema × Scope)} (walks : Walks scope passed s count outcome)
    (here : s.mark ∈ ground) (entries : ∀ e ∈ scope, e.mark ∈ ground) (apart : passed.Nodup)
    (among : passed ⊆ ground) : passed.length + count ≤ ground.length := by
  have room : ∀ {m : Nat} {passed : List Nat}, m ∈ ground → m ∉ passed → passed.Nodup →
      passed ⊆ ground → passed.length + 1 ≤ ground.length := by
    intro m passed inside new apart among
    exact ((List.nodup_cons.mpr ⟨new, apart⟩).subperm
      (List.cons_subset.mpr ⟨inside, among⟩)).length_le
  induction walks with
  | reached _ => exact (apart.subperm among).length_le
  | again _ _ => exact (apart.subperm among).length_le
  | missing _ new _ => exact room here new apart among
  | next _ new found _ ih =>
    rw [push_of_mem (resolve_mem found)] at ih
    have later := ih (entries _ (resolve_mem found)) entries (List.nodup_cons.mpr ⟨new, apart⟩)
      (List.cons_subset.mpr ⟨here, among⟩)
    simp only [List.length_cons] at later
    omega

-- With a step for every mark that is left, the bound decides nothing.
theorem follow_walks {steps : Nat} {passed ground : List Nat} (here : s.mark ∈ ground)
    (entries : ∀ e ∈ scope, e.mark ∈ ground) (apart : passed.Nodup) (among : passed ⊆ ground)
    (enough : ground.length ≤ passed.length + steps) :
    ∃ count, Walks scope passed s count (scope.follow steps passed s) := by
  induction steps generalizing passed s with
  | zero =>
    unfold follow
    split
    · rename_i form target shape
      have seen : s.mark ∈ passed := by
        refine Classical.byContradiction fun new => ?_
        have longer := ((List.nodup_cons.mpr ⟨new, apart⟩).subperm
          (List.cons_subset.mpr ⟨here, among⟩)).length_le
        simp only [List.length_cons] at longer
        omega
      rw [if_pos (List.contains_iff_mem.mpr seen)]
      exact ⟨0, .again shape seen⟩
    · rename_i concrete
      exact ⟨0, .reached (by simp [Schema.isReference])⟩
  | succ steps ih =>
    unfold follow
    split
    · rename_i form target shape
      split
      · rename_i seen
        exact ⟨0, .again shape (List.contains_iff_mem.mp seen)⟩
      · rename_i new
        rw [List.contains_iff_mem] at new
        simp only
        split
        · rename_i nobody
          exact ⟨1, .missing shape new nobody⟩
        · rename_i next found
          have same := push_of_mem (resolve_mem found)
          rw [same]
          obtain ⟨count, walks⟩ := ih (s := next) (entries _ (resolve_mem found))
            (List.nodup_cons.mpr ⟨new, apart⟩) (List.cons_subset.mpr ⟨here, among⟩)
            (by simp only [List.length_cons]; omega)
          exact ⟨count + 1, .next shape new found (same.symm ▸ walks)⟩
    · exact ⟨0, .reached (by simp [Schema.isReference])⟩

-- How a loop can end, in terms of the chain.
inductive Ending (scope : Scope) (s : Schema) : Except Fault (Schema × Scope) → Prop
  | reached {chain : List Schema} {t : Schema} : scope.Passes s chain t →
    t.isReference = false → Ending scope s (.ok (t, scope))
  | missing {chain : List Schema} {t : Schema} {form : ReferenceForm} {target : Value} :
    scope.Passes s chain t → t.shape = .reference form target → scope.resolve? target = none →
    Ending scope s (.error (.unresolved target))
  | again {chain : List Schema} {t : Schema} {form : ReferenceForm} {target : Value} :
    scope.Passes s chain t → chain.Nodup → t ∈ chain → t.shape = .reference form target →
    Ending scope s (.error (.endlessChain target))

theorem Passes.snoc (passes : scope.Passes s chain t) (onward : scope.onward? t = some n) :
    scope.Passes s (chain ++ [t]) n := by
  induction passes with
  | here => exact .next onward .here
  | next first _ ih => exact .next first (ih onward)

theorem Passes.inside (passes : scope.Passes s chain t) : t :: chain ⊆ s :: scope := by
  induction passes with
  | here => simp
  | next onward _ ih =>
    intro u member
    simp only [List.mem_cons] at member
    rcases member with rfl | rfl | later
    · rcases List.mem_cons.mp (ih List.mem_cons_self) with rfl | entry
      · exact List.mem_cons_of_mem _ (onward_mem onward)
      · exact List.mem_cons_of_mem _ entry
    · exact List.mem_cons_self
    · rcases List.mem_cons.mp (ih (List.mem_cons_of_mem _ later)) with rfl | entry
      · exact List.mem_cons_of_mem _ (onward_mem onward)
      · exact List.mem_cons_of_mem _ entry

-- The first reference that is passed twice is one and the same, however far one looks.
theorem Passes.first_again {chain' : List Schema} (one : scope.Passes s chain t)
    (two : scope.Passes s chain' u) (apart : chain.Nodup) (apart' : chain'.Nodup)
    (again : t ∈ chain) (again' : u ∈ chain') : t = u := by
  have first : ∀ {a b : Schema} {before rest : List Schema}, a ∈ before →
      scope.Passes a rest b → (before ++ rest).Nodup → a = b := by
    intro a b before rest seen onto apart
    cases onto with
    | here => rfl
    | next _ _ => exact absurd rfl ((List.nodup_append.mp apart).2.2 a seen a List.mem_cons_self)
  rcases one.compare two with ⟨rest, rfl, onto⟩ | ⟨rest, rfl, onto⟩
  · exact first again onto apart'
  · exact (first again' onto apart).symm

-- The loop ends where the chain does, or at the first reference that it passes twice.
theorem Walks.ends {passed : List Nat} {count : Nat} {outcome : Except Fault (Schema × Scope)}
    (walks : Walks scope passed t count outcome) (before : scope.Passes s chain t)
    (marks : ∀ m, m ∈ passed ↔ ∃ u ∈ chain, u.mark = m)
    (apart : ∀ u ∈ s :: scope, ∀ v ∈ s :: scope, u.mark = v.mark → u = v)
    (nodup : chain.Nodup) : Ending scope s outcome := by
  induction walks generalizing chain with
  | reached concrete => exact .reached before concrete
  | again shape seen =>
    obtain ⟨u, inside, same⟩ := (marks _).mp seen
    have here := before.inside
    rw [apart u (here (List.mem_cons_of_mem _ inside)) _ (here List.mem_cons_self) same] at inside
    exact .again before nodup inside shape
  | missing shape _ nobody => exact .missing before shape nobody
  | @next scope passed t n form target count outcome shape new found _ ih =>
    rw [push_of_mem (resolve_mem found)] at ih
    have fresh : t ∉ chain := fun inside => new ((marks _).mpr ⟨t, inside, rfl⟩)
    refine ih (before.snoc ((onward_reference shape).trans found)) (fun m => ?_) apart ?_
    · simp only [List.mem_cons, List.mem_append, List.not_mem_nil, or_false, marks]
      constructor
      · rintro (rfl | ⟨u, inside, same⟩)
        · exact ⟨t, .inr rfl, rfl⟩
        · exact ⟨u, .inl inside, same⟩
      · rintro ⟨u, inside | rfl, same⟩
        · exact .inr ⟨u, inside, same⟩
        · exact .inl same.symm
    · exact nodup.append (List.nodup_singleton t) (by simpa using fresh)

-- There is only one way in which it can end.
theorem Ending.unique {one two : Except Fault (Schema × Scope)} (first : Ending scope s one)
    (second : Ending scope s two) : one = two := by
  have missed : ∀ {t : Schema} {form : ReferenceForm} {target : Value},
      t.shape = .reference form target → scope.resolve? target = none → scope.onward? t = none :=
    fun shape nobody => (onward_reference shape).trans nobody
  have same : ∀ {chain chain' : List Schema} {t u : Schema}, scope.Passes s chain t →
      scope.onward? t = none → scope.Passes s chain' u → scope.onward? u = none → u = t := by
    intro chain chain' t u passes ends other ends'
    obtain ⟨rest, -, onto⟩ := passes.split ends other
    exact (onto.of_end ends').2
  cases first with
  | reached passes concrete =>
    cases second with
    | reached passes' concrete' =>
      cases same passes (onward_concrete concrete) passes' (onward_concrete concrete')
      rfl
    | missing passes' shape' nobody' =>
      cases same passes (onward_concrete concrete) passes' (missed shape' nobody')
      exact absurd concrete (not_reference shape')
    | again passes' _ inside _ =>
      exact absurd inside (passes.not_mem (onward_concrete concrete) passes')
  | missing passes shape nobody =>
    cases second with
    | reached passes' concrete' =>
      cases same passes (missed shape nobody) passes' (onward_concrete concrete')
      exact absurd concrete' (not_reference shape)
    | missing passes' shape' nobody' =>
      cases same passes (missed shape nobody) passes' (missed shape' nobody')
      cases shape.symm.trans shape'
      rfl
    | again passes' _ inside _ =>
      exact absurd inside (passes.not_mem (missed shape nobody) passes')
  | again passes nodup inside shape =>
    cases second with
    | reached passes' concrete' =>
      exact absurd inside (passes'.not_mem (onward_concrete concrete') passes)
    | missing passes' shape' nobody' =>
      exact absurd inside (passes'.not_mem (missed shape' nobody') passes)
    | again passes' nodup' inside' shape' =>
      cases passes.first_again passes' nodup nodup' inside inside'
      cases shape.symm.trans shape'
      rfl

-- What dereferencing does, in full. The loop behind it resolves at most one reference more than the
-- scope has entries, and leaves the scope as it was when the schema entered. It comes to the schema
-- at the end of the chain, fails at the reference that names nobody, or gives up at the first one
-- that is passed twice.
theorem dereference_as_chain
    (apart : ∀ u ∈ s :: scope, ∀ v ∈ s :: scope, u.mark = v.mark → u = v) :
    (∃ count ≤ scope.length + 1, Walks (scope.push s) [] s count (scope.dereference s)) ∧
    (∀ t after, scope.dereference s = .ok (t, after) ↔ after = scope.push s ∧
      t.isReference = false ∧ ∃ chain, (scope.push s).Passes s chain t) ∧
    (∀ target, scope.dereference s = .error (.unresolved target) ↔ ∃ chain t form,
      (scope.push s).Passes s chain t ∧ t.shape = .reference form target ∧
        (scope.push s).resolve? target = none) ∧
    (∀ target, scope.dereference s = .error (.endlessChain target) ↔ ∃ chain t form,
      (scope.push s).Passes s chain t ∧ chain.Nodup ∧ t ∈ chain ∧
        t.shape = .reference form target) ∧
    ((∃ target, scope.dereference s = .error (.endlessChain target)) ↔ ∃ chain t,
      (scope.push s).Passes s chain t ∧ t ∈ chain) := by
  have entries : s :: scope.push s ⊆ s :: scope := by
    intro e member
    rcases List.mem_cons.mp member with rfl | entry
    · exact List.mem_cons_self
    · rcases mem_push entry with earlier | rfl
      · exact List.mem_cons_of_mem _ earlier
      · exact List.mem_cons_self
  have marks : ∀ e ∈ scope.push s, e.mark ∈ (s :: scope).map Schema.mark :=
    fun e entry => List.mem_map_of_mem (entries (List.mem_cons_of_mem _ entry))
  have here : s.mark ∈ (s :: scope).map Schema.mark := List.mem_map_of_mem List.mem_cons_self
  have longer : scope.length ≤ (scope.push s).length := by
    rcases push_cases scope s with same | added <;> simp [*]
  obtain ⟨count, walks⟩ : ∃ count, Walks (scope.push s) [] s count (scope.dereference s) :=
    follow_walks here marks List.nodup_nil (List.nil_subset _)
      (by simp only [List.length_map, List.length_cons, List.length_nil]; omega)
  have bound := walks.count_le here marks List.nodup_nil (List.nil_subset _)
  have ending : Ending (scope.push s) s (scope.dereference s) :=
    walks.ends .here (by simp) (fun u first v second => apart u (entries first) v (entries second))
      List.nodup_nil
  refine ⟨⟨count, by simpa using bound, walks⟩, ?_, ?_, ?_, ?_⟩
  · intro t after
    constructor
    · intro reached
      rw [reached] at ending
      cases ending with
      | reached passes concrete => exact ⟨rfl, concrete, _, passes⟩
    · rintro ⟨rfl, concrete, chain, passes⟩
      exact ending.unique (.reached passes concrete)
  · intro target
    constructor
    · intro failed
      rw [failed] at ending
      cases ending with
      | missing passes shape nobody => exact ⟨_, _, _, passes, shape, nobody⟩
    · rintro ⟨chain, t, form, passes, shape, nobody⟩
      exact ending.unique (.missing passes shape nobody)
  · intro target
    constructor
    · intro failed
      rw [failed] at ending
      cases ending with
      | again passes nodup inside shape => exact ⟨_, _, _, passes, nodup, inside, shape⟩
    · rintro ⟨chain, t, form, passes, nodup, inside, shape⟩
      exact ending.unique (.again passes nodup inside shape)
  · constructor
    · rintro ⟨target, failed⟩
      rw [failed] at ending
      cases ending with
      | again passes _ inside _ => exact ⟨_, _, passes, inside⟩
    · rintro ⟨chain, t, passes, inside⟩
      generalize scope.dereference s = outcome at ending
      cases ending with
      | reached passes' concrete =>
        exact absurd inside (passes'.not_mem (onward_concrete concrete) passes)
      | missing passes' shape nobody =>
        exact absurd inside (passes'.not_mem ((onward_reference shape).trans nobody) passes)
      | again _ _ _ _ => exact ⟨_, rfl⟩

end

-- Two references to an id that two entries have, a reference to itself, and one that no entry
-- answers.
def chains : Scope :=
  [.mk 1 (.text "a") false (.reference .ref (.text "b")),
    .mk 2 (.text "b") false (.reference .this (.text "c")),
    .mk 3 (.text "c") false (.basic .string),
    .mk 4 (.text "c") false (.basic .number),
    .mk 5 (.text "loop") false (.reference .ref (.text "loop")),
    .mk 6 (.text "d") false (.reference .ref (.text "gone"))]

-- A reference with an id of its own, which an entry before it has too.
def chainFrom (target : String) : Schema :=
  .mk 7 (.text "a") false (.reference .ref (.text target))

theorem chains_followed :
    chains.dereference (chainFrom "a") =
      .ok (.mk 3 (.text "c") false (.basic .string), chains ++ [chainFrom "a"]) ∧
    chains.dereference (chainFrom "d") = .error (.unresolved (.text "gone")) ∧
    chains.dereference (chainFrom "loop") = .error (.endlessChain (.text "loop")) := by
  have apart : ∀ target, ∀ u ∈ chainFrom target :: chains, ∀ v ∈ chainFrom target :: chains,
      u.mark = v.mark → u = v := by
    intro target u first v second same
    have nodup : ((chainFrom target :: chains).map Schema.mark).Nodup :=
      show [7, 1, 2, 3, 4, 5, 6].Nodup by decide
    exact List.inj_on_of_nodup_map nodup first second same
  refine ⟨?_, ?_, ?_⟩
  · obtain ⟨-, reached, -⟩ := dereference_as_chain (apart "a")
    exact (reached _ _).mpr ⟨rfl, rfl, _, .next rfl (.next rfl (.next rfl .here))⟩
  · obtain ⟨-, -, unresolved, -⟩ := dereference_as_chain (apart "d")
    exact (unresolved _).mpr ⟨_, _, _, .next rfl .here, rfl, rfl⟩
  · obtain ⟨-, -, -, endless, -⟩ := dereference_as_chain (apart "loop")
    refine (endless _).mpr ⟨_, _, _, .next rfl (.next rfl .here), ?_, ?_, rfl⟩
    · simp [chainFrom]
    · simp

end Scope

end Assignability
