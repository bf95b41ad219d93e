/-
  Verdicts — which lists of stages can be planned, and what is said of the others.

  **Specification** — the conditions of `Proofs.Plan.Dependency`, in the order in which they are checked.

  **Program** — `plan`, made of `firstRepeated`, `resolveAll`, `planOrder` and `firstConflict`.

  **The crux** — `Plan.Describes p specs`: numbers, order and ancestors of the plan `p` say of the stages
  what their declarations say.  Everything that is known of an accepted plan goes through it.
-/
import Wheelwright.Proofs.Plan.Ancestors

namespace Wheelwright

/-! ## Plans that describe their stages

  What there is to know of an accepted plan.  It is proved once, where the plan is made, and taken apart by the other
  modules. -/

namespace Plan

/-- Predecessors are numbers of stages, each once, and the order holds every stage, greedily. -/
structure WellFormed (p : Plan) : Prop where
  /-- Each stage has a row of predecessors. -/
  length : p.predecessors.length = p.names.length
  /-- None of them is listed twice. -/
  nodup : ∀ i, (predsOf p.predecessors i).Nodup
  /-- All of them are stages. -/
  lt : ∀ i j, j ∈ predsOf p.predecessors i → j < p.names.length
  /-- The order is greedy. -/
  greedy : Greedy p.names.length (Edge p.predecessors) p.order
  /-- It lists every stage. -/
  complete : p.order.length = p.names.length

/-- The plan says of the stages what their declarations say. -/
structure Describes (p : Plan) (specs : List StageSpec) : Prop extends p.WellFormed where
  /-- The names are those declared. -/
  names_eq : p.names = specs.map (·.name)
  /-- The edges are the declared predecessors. -/
  edge_eq : Edge p.predecessors = Precedes specs
  /-- The ancestors are all that a stage depends on. -/
  mem_ancestors : ∀ i j, j ∈ p.ancestors.getD i [] ↔ DependsOn specs i j

namespace WellFormed

variable {p : Plan} (h : p.WellFormed)
include h

/-- The order of a plan is one of all its stages. -/
theorem order_perm : p.order.Perm (List.range p.names.length) := h.greedy.perm_range h.complete

/-- It lists every stage. -/
theorem mem_order {i : Nat} : i ∈ p.order ↔ i < p.names.length := by
  rw [h.order_perm.mem_iff, List.mem_range]

end WellFormed

/-- The names of all stages in turn are the names of the plan. -/
theorem map_nameOf_range (p : Plan) : (List.range p.names.length).map p.nameOf = p.names := by
  refine List.ext_getElem (by simp) fun i hi _ => ?_
  simp only [List.getElem_map, List.getElem_range, nameOf]
  exact List.getD_eq_getElem _ _ (by simpa using hi)

namespace Describes

variable {p : Plan} {specs : List StageSpec} (h : p.Describes specs)
include h

/-- There are as many names as stages. -/
theorem names_length : p.names.length = specs.length := by rw [h.names_eq, List.length_map]

/-- Stages are unrelated in the plan exactly if none depends on the other. -/
theorem unrelated_iff (i j : Nat) : p.unrelated i j = true ↔ Unrelated specs i j := by
  rw [Plan.unrelated, Bool.and_eq_true, Bool.not_eq_true', Bool.not_eq_true', Unrelated]
  simp only [List.contains_eq_mem, decide_eq_false_iff_not, h.mem_ancestors]

/-- The name of a stage is the declared one. -/
theorem nameOf_eq {i : Nat} {s : StageSpec} (hs : specs[i]? = some s) : p.nameOf i = s.name := by
  rw [nameOf, List.getD_eq_getElem?_getD, h.names_eq, List.getElem?_map, hs]
  rfl

/-- In the order of the plan the names are those declared. -/
theorem orderedNames_perm : p.orderedNames.Perm (specs.map (·.name)) := by
  have := h.order_perm.map p.nameOf
  rwa [p.map_nameOf_range, h.names_eq] at this

/-- They are the names of the stages in that order. -/
theorem orderedNames_eq :
    p.orderedNames.map some = p.order.map fun i => specs[i]?.map (·.name) := by
  rw [orderedNames, List.map_map]
  refine List.map_congr_left fun i hi => ?_
  have hlt : i < specs.length := h.names_length ▸ h.mem_order.mp hi
  rw [Function.comp_apply, h.nameOf_eq (List.getElem?_eq_getElem hlt), List.getElem?_eq_getElem hlt]
  rfl

/-- The place of a stage in the order and the stage at a place are inverse to each other. -/
theorem position?_eq_some_iff (hu : NamesUnique specs) (name : String) (k : Nat) :
    p.position? name = some k ↔ p.orderedNames[k]? = some name := by
  have hnd := h.greedy.nodup
  rw [position?, Option.bind_eq_some_iff, orderedNames, List.getElem?_map, Option.map_eq_some_iff]
  -- a name has one stage, and a stage has one place
  simp only [index?, h.names_eq, idxOf?_names hu]
  constructor
  · rintro ⟨i, ⟨t, ht, rfl⟩, hk⟩
    obtain ⟨hlt, hki, -⟩ := List.idxOf?_eq_some_iff.mp hk
    exact ⟨i, by rw [List.getElem?_eq_getElem hlt, hki], h.nameOf_eq ht⟩
  · rintro ⟨i, hk, rfl⟩
    have hi : i < specs.length := h.names_length ▸ h.mem_order.mp (List.mem_of_getElem? hk)
    have hs := List.getElem?_eq_getElem hi
    refine ⟨i, ⟨specs[i], hs, (h.nameOf_eq hs).symm⟩, List.idxOf?_eq_some_iff.mpr ?_⟩
    obtain ⟨hlt, hki⟩ := List.getElem?_eq_some_iff.mp hk
    refine ⟨hlt, hki, fun m hm heq => ?_⟩
    have := List.nodup_iff_getElem?_ne_getElem?.mp hnd m k hm hlt
    rw [hk, List.getElem?_eq_getElem (by omega), heq] at this
    exact this rfl

end Describes

end Plan

/-! ## The order

  The order exists exactly if there is no cycle among the declared predecessors, and then numbers, order and ancestors
  describe the stages. -/

section Order

variable {specs : List StageSpec} {preds : List (List Nat)}

/-- The edges of a resolved table are the declared predecessors. -/
theorem Resolves.edge_eq (hr : Resolves specs preds) : Edge preds = Precedes specs := by
  funext j i
  exact propext (hr.mem_iff i j)

/-- They lead to stages only. -/
theorem Resolves.lt (hr : Resolves specs preds) (i j : Nat) (hj : j ∈ predsOf preds i) :
    j < preds.length := by
  obtain ⟨s, t, -, ht, -⟩ := (hr.mem_iff i j).mp hj
  rw [hr.length]
  exact (List.getElem?_eq_some_iff.mp ht).1

/-- A plan whose stages have an order describes them, and has no cycle. -/
theorem describes_of_planOrder (hr : Resolves specs preds) {p : Plan}
    (h : planOrder (specs.map (·.name)) preds = .ok p) : p.Describes specs ∧ Acyclic specs := by
  rw [planOrder] at h
  dsimp only at h
  split at h
  · rename_i hlen
    cases h
    -- what the queue has placed is greedy, and it is complete exactly without a cycle
    have hg := (arranging_arrange hr.nodup preds.length [] _ Arranging.start).1.greedy
    have hnames : (specs.map (·.name)).length = preds.length := by rw [List.length_map, hr.length]
    have hac := (arrange_length_iff hr.nodup hr.lt).mp hlen
    rw [hr.edge_eq] at hac
    refine ⟨⟨⟨hnames.symm, hr.nodup, ?_, ?_, ?_⟩, rfl, hr.edge_eq, fun i j => ?_⟩, hac⟩
    · rw [hnames]; exact hr.lt
    · rw [hnames]; exact hg
    · rw [hnames]; exact hlen
    · rw [mem_collectAncestors hg hlen, hr.edge_eq]
      exact Iff.rfl
  · cases h

/-- An incomplete order is reported as a cycle. -/
theorem planOrder_error (hr : Resolves specs preds) {names : List String} {e : PlanError}
    (h : planOrder names preds = .error e) :
    ¬ Acyclic specs ∧ ∃ cycle, e = .cyclicDependency cycle := by
  rw [planOrder] at h
  dsimp only at h
  split at h
  · cases h
  · rename_i hlen
    cases h
    refine ⟨fun hac => hlen ?_, _, rfl⟩
    refine arrange_complete hr.nodup hr.lt ?_
    rw [hr.edge_eq]
    exact hac

end Order

/-! ## Conflicts

  Two stages that do not depend on each other are searched for targets that overlap, and the search is made for all
  pairs of them. -/

/-- A path starts with another exactly if its components do. -/
theorem startsWith_iff (a b : Path) : b.startsWith a = true ↔ a.components <+: b.components := by
  rw [Path.startsWith, List.isPrefixOf_iff_prefix]

/-- Two paths do not overlap exactly if neither contains the other. -/
theorem overlapping?_eq_none_iff (a b : Path) : overlapping? a b = none ↔
    ¬ (a.components <+: b.components ∨ b.components <+: a.components) := by
  rw [← startsWith_iff, ← startsWith_iff, overlapping?]
  split
  · rename_i h; simp [h]
  · rename_i h
    split
    · rename_i h'; simp [h']
    · rename_i h'; simp [h, h']

/-- Two stages do not clash exactly if none of their targets overlap. -/
theorem firstOverlap_eq_none_iff (s t : StageSpec) :
    firstOverlap s.targets t.targets = none ↔ ¬ TargetsOverlap s t := by
  rw [firstOverlap, List.findSome?_eq_none_iff]
  simp only [List.findSome?_eq_none_iff, overlapping?_eq_none_iff, TargetsOverlap]
  constructor
  · rintro h ⟨a, ha, b, hb, hab⟩
    exact h a ha b hb hab
  · intro h a ha b hb hab
    exact h ⟨a, ha, b, hb, hab⟩

/-- Overlapping is symmetric. -/
theorem TargetsOverlap.symm {s t : StageSpec} (h : TargetsOverlap s t) : TargetsOverlap t s := by
  obtain ⟨a, ha, b, hb, hab⟩ := h
  exact ⟨b, hb, a, ha, hab.symm⟩

namespace Plan

variable {p : Plan}

/-- A stage clashes with none of a list if not with the first and not with the others. -/
theorem conflictWith_cons_eq_none_iff (i : Nat) (first t : StageSpec) (j : Nat)
    (rest : List StageSpec) : p.conflictWith i first j (t :: rest) = none ↔
      (p.unrelated i j = true → ¬ TargetsOverlap first t) ∧
        p.conflictWith i first (j + 1) rest = none := by
  rw [conflictWith]
  by_cases hu : p.unrelated i j = true
  · rw [if_pos hu]
    have hov := firstOverlap_eq_none_iff first t
    cases h : firstOverlap first.targets t.targets with
    | some path =>
      rw [h] at hov
      exact iff_of_false (by simp) fun hc => absurd (hov.mpr (hc.1 hu)) (by simp)
    | none => exact ⟨fun hc => ⟨fun _ => hov.mp h, hc⟩, fun hc => hc.2⟩
  · rw [if_neg hu]
    exact ⟨fun hc => ⟨fun h => absurd h hu, hc⟩, fun hc => hc.2⟩

theorem conflictWith_eq_none_iff (i : Nat) (first : StageSpec) :
    ∀ (rest : List StageSpec) (j : Nat), p.conflictWith i first j rest = none ↔
      ∀ k t, rest[k]? = some t → p.unrelated i (j + k) = true → ¬ TargetsOverlap first t := by
  intro rest
  induction rest with
  | nil => intro j; simp [conflictWith]
  | cons t rest ih =>
    intro j
    -- the first of the list, and the others one place further on
    rw [conflictWith_cons_eq_none_iff, ih]
    constructor
    · rintro ⟨hfirst, hrest⟩ k u hk hu
      cases k with
      | zero => cases hk; exact hfirst hu
      | succ k =>
        refine hrest k u hk ?_
        rwa [show j + 1 + k = j + (k + 1) from by omega]
    · intro h
      refine ⟨fun hu => h 0 t rfl hu, fun k u hk hu => h (k + 1) u hk ?_⟩
      rwa [show j + (k + 1) = j + 1 + k from by omega]

/-- A conflict of a stage is one with the first stage that it has one with. -/
theorem conflictWith_eq_some {i : Nat} {first : StageSpec} {e : PlanError} :
    ∀ {rest : List StageSpec} {j : Nat}, p.conflictWith i first j rest = some e →
      ∃ k t path, e = .resourceConflict first.name t.name path ∧ rest[k]? = some t ∧
        p.unrelated i (j + k) = true ∧ firstOverlap first.targets t.targets = some path ∧
        ∀ k' t', rest[k']? = some t' → p.unrelated i (j + k') = true → TargetsOverlap first t' → k ≤ k' := by
  intro rest
  induction rest with
  | nil => intro j h; simp [conflictWith] at h
  | cons t rest ih =>
    intro j h
    rw [conflictWith] at h
    split at h
    · rename_i path hfound
      obtain ⟨hu, hpath⟩ : p.unrelated i j = true ∧ firstOverlap first.targets t.targets = some path := by
        -- the clash is with the first of the list, or further on
        by_cases hu : p.unrelated i j = true
        · exact ⟨hu, by rwa [if_pos hu] at hfound⟩
        · rw [if_neg hu] at hfound; cases hfound
      exact ⟨0, t, path, (Option.some.inj h).symm, rfl, hu, hpath, fun k' _ _ _ _ => Nat.zero_le k'⟩
    · rename_i hnone
      obtain ⟨k, u, path, he, hk, hu, hpath, hleast⟩ := ih h
      refine ⟨k + 1, u, path, he, hk, by rwa [show j + (k + 1) = j + 1 + k from by omega], hpath, ?_⟩
      intro k' t' hk' hu' hov
      cases k' with
      | zero =>
        cases hk'
        rw [if_pos (show p.unrelated i j = true from hu')] at hnone
        exact absurd hov ((firstOverlap_eq_none_iff first t).mp hnone)
      | succ k' =>
        rw [show j + (k' + 1) = j + 1 + k' from by omega] at hu'
        exact Nat.succ_le_succ (hleast k' t' hk' hu' hov)

/-- There is no clash exactly if no two unrelated stages overlap. -/
theorem firstConflict_eq_none_iff : ∀ (specs : List StageSpec) (i : Nat),
    p.firstConflict i specs = none ↔ ∀ a b s t, a < b → specs[a]? = some s → specs[b]? = some t →
      p.unrelated (i + a) (i + b) = true → ¬ TargetsOverlap s t := by
  intro specs
  induction specs with
  | nil => intro i; simp [firstConflict]
  | cons first rest ih =>
    intro i
    have hcons : p.firstConflict i (first :: rest) = none ↔
        p.conflictWith i first (i + 1) rest = none ∧ p.firstConflict (i + 1) rest = none := by
      rw [firstConflict]
      cases p.conflictWith i first (i + 1) rest <;> simp
    -- the first stage with one of the others, or two of the others
    rw [hcons, ih, conflictWith_eq_none_iff]
    constructor
    · rintro ⟨hfirst, hrest⟩ a b s t hab ha hb hu
      cases b with
      | zero => omega
      | succ b =>
        cases a with
        | zero =>
          cases ha
          refine hfirst b t hb ?_
          rwa [show i + 1 + b = i + (b + 1) from by omega]
        | succ a =>
          refine hrest a b s t (by omega) ha hb ?_
          rwa [show i + 1 + a = i + (a + 1) from by omega, show i + 1 + b = i + (b + 1) from by omega]
    · intro h
      refine ⟨fun k t hk hu => ?_, fun a b s t hab ha hb hu => ?_⟩
      · refine h 0 (k + 1) first t (by omega) rfl hk ?_
        rwa [show i + (k + 1) = i + 1 + k from by omega]
      · refine h (a + 1) (b + 1) s t (by omega) ha hb ?_
        rwa [show i + (a + 1) = i + 1 + a from by omega, show i + (b + 1) = i + 1 + b from by omega]

/-- The conflict that is found is the first one by the earlier of the two stages, and then by the later one. -/
theorem firstConflict_eq_some {e : PlanError} :
    ∀ {specs : List StageSpec} {i : Nat}, p.firstConflict i specs = some e →
      ∃ a b s t path, e = .resourceConflict s.name t.name path ∧ a < b ∧ specs[a]? = some s ∧ specs[b]? = some t ∧
        p.unrelated (i + a) (i + b) = true ∧ firstOverlap s.targets t.targets = some path ∧
        ∀ a' b' s' t', a' < b' → specs[a']? = some s' → specs[b']? = some t' →
          p.unrelated (i + a') (i + b') = true → TargetsOverlap s' t' → a < a' ∨ a = a' ∧ b ≤ b' := by
  intro specs
  induction specs with
  | nil => intro i h; simp [firstConflict] at h
  | cons first rest ih =>
    intro i h
    rw [firstConflict] at h
    split at h
    · rename_i e' he
      cases h
      obtain ⟨k, t, path, he, hk, hu, hpath, hleast⟩ := conflictWith_eq_some he
      refine ⟨0, k + 1, first, t, path, he, Nat.succ_pos k, rfl, hk, ?_, hpath, ?_⟩
      · rwa [show i + (k + 1) = i + 1 + k from by omega]
      -- a clash of the first stage comes before all others
      · intro a' b' s' t' hlt ha' hb' hu' hov
        cases a' with
        | succ a' => exact Or.inl (Nat.succ_pos a')
        | zero =>
          obtain ⟨b', rfl⟩ : ∃ m, b' = m + 1 := ⟨b' - 1, by omega⟩
          cases ha'
          rw [Nat.add_zero, show i + (b' + 1) = i + 1 + b' from by omega] at hu'
          exact Or.inr ⟨rfl, by have := hleast b' t' hb' hu' hov; omega⟩
    · rename_i hnone
      obtain ⟨a, b, s, t, path, he, hlt, ha, hb, hu, hpath, hleast⟩ := ih h
      have hshift (n : Nat) : i + (n + 1) = i + 1 + n := by omega
      refine ⟨a + 1, b + 1, s, t, path, he, by omega, ha, hb, ?_, hpath, ?_⟩
      · rwa [hshift a, hshift b]
      · intro a' b' s' t' hlt' ha' hb' hu' hov
        obtain ⟨b', rfl⟩ : ∃ m, b' = m + 1 := ⟨b' - 1, by omega⟩
        cases a' with
        | zero =>
          cases ha'
          rw [Nat.add_zero, hshift b'] at hu'
          exact absurd hov ((conflictWith_eq_none_iff i first rest (i + 1)).mp hnone b' t' hb' hu')
        | succ a' =>
          rw [hshift a', hshift b'] at hu'
          have := hleast a' b' s' t' (by omega) ha' hb' hu' hov
          omega

/-- There is no conflict exactly if independent stages write to different places. -/
theorem Describes.firstConflict_eq_none_iff {specs : List StageSpec} (h : p.Describes specs) :
    p.firstConflict 0 specs = none ↔ TargetsApart specs := by
  rw [Plan.firstConflict_eq_none_iff]
  simp only [Nat.zero_add, h.unrelated_iff]
  constructor
  · intro hall i j s t hij hs ht hu
    -- only pairs in the order of declaration are looked at
    rcases Nat.lt_or_gt_of_ne hij with hlt | hlt
    · exact hall i j s t hlt hs ht hu
    · exact fun hov => hall j i t s hlt ht hs ⟨hu.2, hu.1⟩ hov.symm
  · intro hapart a b s t hab hs ht hu
    exact hapart a b s t (by omega) hs ht hu

end Plan

/-! ## The verdict

  The conditions are checked one after another.  A list of stages fails exactly one of them first, and the fault is
  told of the first place where it fails. -/

/-- `s` is the first stage whose name was declared before. -/
def FirstRepeat (specs : List StageSpec) (s : StageSpec) : Prop :=
  ∃ before after, specs = before ++ s :: after ∧ (before.map (·.name)).Nodup ∧
    s.name ∈ before.map (·.name)

/-- `pred` is the first predecessor that its stage cannot have, and `s` the first stage with one. -/
def FirstOffence (specs : List StageSpec) (s : StageSpec) (pred : String) : Prop :=
  ∃ before after early late, specs = before ++ s :: after ∧ s.predecessors = early ++ pred :: late ∧
    (∀ t ∈ before, ∀ q ∈ t.predecessors, q ≠ t.name ∧ q ∈ specs.map (·.name)) ∧
    (∀ q ∈ early, q ≠ s.name ∧ q ∈ specs.map (·.name)) ∧
    (pred = s.name ∨ pred ∉ specs.map (·.name))

section Verdict

variable {specs : List StageSpec}

/-- No name repeats exactly if the names are distinct. -/
theorem firstRepeated_names_eq_none_iff :
    firstRepeated [] (specs.map (·.name)) = none ↔ NamesUnique specs := by
  rw [firstRepeated_eq_none_iff, NamesUnique]
  simp

/-- A name that repeats is that of the first stage that repeats one. -/
theorem firstRepeat_of_firstRepeated {name : String}
    (h : firstRepeated [] (specs.map (·.name)) = some name) :
    ∃ s, FirstRepeat specs s ∧ s.name = name := by
  obtain ⟨before, after, heq, hnd, -, hmem⟩ := firstRepeated_eq_some h
  obtain ⟨front, back, rfl, rfl, hback⟩ := List.map_eq_append_iff.mp heq
  obtain ⟨s, rest, rfl, rfl, rfl⟩ := List.map_eq_cons_iff.mp hback
  exact ⟨s, ⟨front, rest, rfl, hnd, hmem.resolve_right List.not_mem_nil⟩, rfl⟩

/-- A list that cannot be resolved has a first offence. -/
theorem firstOffence_of_resolveAll {e : PlanError}
    (h : resolveAll (specs.map (·.name)) specs = .error e) :
    ∃ s pred, FirstOffence specs s pred ∧ e = offence s.name pred := by
  obtain ⟨before, s, after, heq, hbefore, hs⟩ := resolveAll_error h
  obtain ⟨early, pred, late, hps, hearly, hbad, he⟩ := resolvePredecessors_error hs
  exact ⟨s, pred, ⟨before, after, early, late, heq, hps, hbefore, hearly, hbad⟩, he⟩

/-- With names and predecessors in order, planning is laying the stages out and looking for a conflict. -/
theorem plan_eq (hne : specs ≠ []) (hu : NamesUnique specs) {preds : List (List Nat)}
    (hres : resolveAll (specs.map (·.name)) specs = .ok preds) :
    plan specs =
      match planOrder (specs.map (·.name)) preds with
      | .error e => .error e
      | .ok p =>
        match p.firstConflict 0 specs with
        | some e => .error e
        | none => .ok p := by
  rw [plan, if_neg (by simpa using hne)]
  cases horder : planOrder (specs.map (·.name)) preds with
  | error e => simp only [firstRepeated_names_eq_none_iff.mpr hu, hres, horder]
  | ok p =>
    cases hconflict : p.firstConflict 0 specs <;>
      simp only [firstRepeated_names_eq_none_iff.mpr hu, hres, horder, hconflict]

/-- The outcome of planning as a chain of checks. -/
theorem plan_cases (hne : specs ≠ []) :
    (¬ NamesUnique specs ∧ ∃ s, FirstRepeat specs s ∧ plan specs = .error (.duplicateStage s.name)) ∨
    (NamesUnique specs ∧
      ((¬ PredecessorsDeclared specs ∧
        ∃ s pred, FirstOffence specs s pred ∧ plan specs = .error (offence s.name pred)) ∨
      (PredecessorsDeclared specs ∧
        ((¬ Acyclic specs ∧ ∃ cycle, plan specs = .error (.cyclicDependency cycle)) ∨
        (Acyclic specs ∧ ((¬ TargetsApart specs ∧
          ∃ first second path, plan specs = .error (.resourceConflict first second path)) ∨
          (TargetsApart specs ∧ ∃ p, plan specs = .ok p ∧ p.Describes specs))))))) := by
  rw [plan, if_neg (by simpa using hne)]
  dsimp only
  -- the checks in the order in which they are made; each one past says that its condition holds
  cases hrep : firstRepeated [] (specs.map (·.name)) with
  | some name =>
    obtain ⟨s, hs, rfl⟩ := firstRepeat_of_firstRepeated hrep
    refine Or.inl ⟨fun hu => ?_, s, hs, rfl⟩
    rw [firstRepeated_names_eq_none_iff.mpr hu] at hrep
    cases hrep
  | none =>
    have hu := firstRepeated_names_eq_none_iff.mp hrep
    refine Or.inr ⟨hu, ?_⟩
    cases hres : resolveAll (specs.map (·.name)) specs with
    | error e =>
      obtain ⟨s, pred, hs, rfl⟩ := firstOffence_of_resolveAll hres
      refine Or.inl ⟨fun hd => ?_, s, pred, hs, rfl⟩
      obtain ⟨preds, hok⟩ := (resolveAll_isOk_iff specs).mpr hd
      rw [hok] at hres
      cases hres
    | ok preds =>
      have hr := resolves_of_resolveAll hu hres
      refine Or.inr ⟨(resolveAll_isOk_iff specs).mp ⟨preds, hres⟩, ?_⟩
      dsimp only
      cases hord : planOrder (specs.map (·.name)) preds with
      | error e =>
        obtain ⟨hcyc, cycle, rfl⟩ := planOrder_error hr hord
        exact Or.inl ⟨hcyc, cycle, rfl⟩
      | ok p =>
        obtain ⟨hp, hac⟩ := describes_of_planOrder hr hord
        refine Or.inr ⟨hac, ?_⟩
        dsimp only
        cases hcon : p.firstConflict 0 specs with
        | some e =>
          obtain ⟨_, _, s, t, path, rfl, -⟩ := Plan.firstConflict_eq_some hcon
          refine Or.inl ⟨fun hapart => ?_, s.name, t.name, path, rfl⟩
          rw [hp.firstConflict_eq_none_iff.mpr hapart] at hcon
          cases hcon
        | none => exact Or.inr ⟨hp.firstConflict_eq_none_iff.mp hcon, p, rfl, hp⟩

/-- **An accepted plan describes its stages**, and all conditions hold of them. -/
theorem describes_of_plan {p : Plan} (h : plan specs = .ok p) :
    p.Describes specs ∧ NamesUnique specs ∧ PredecessorsDeclared specs ∧ Acyclic specs ∧
      TargetsApart specs := by
  have hne : specs ≠ [] := by
    rintro rfl
    cases h
  rcases plan_cases hne with ⟨-, s, -, he⟩ | ⟨hu, ⟨-, s, pred, -, he⟩ | ⟨hd, ⟨-, cycle, he⟩ |
    ⟨hac, ⟨-, first, second, path, he⟩ | ⟨hapart, q, hq, hdesc⟩⟩⟩⟩
  · rw [h] at he; cases he
  · rw [h] at he; cases he
  · rw [h] at he; cases he
  · rw [h] at he; cases he
  · rw [h] at hq
    cases hq
    exact ⟨hdesc, hu, hd, hac, hapart⟩

/-- **Planning succeeds exactly on the lists of stages that meet all conditions**; otherwise the first
    condition that fails is reported, at the first place where it fails.  The order of a plan holds every
    stage once, and each is the first declared one that could be next; places and stages of the order
    determine each other. -/
theorem plan_verdict (specs : List StageSpec) :
    ((∃ p, plan specs = .ok p) ↔ specs ≠ [] ∧ NamesUnique specs ∧ PredecessorsDeclared specs ∧
      Acyclic specs ∧ TargetsApart specs) ∧
    (specs = [] → plan specs = .error .emptyPipeline) ∧
    (specs ≠ [] → ¬ NamesUnique specs →
      ∃ s, FirstRepeat specs s ∧ plan specs = .error (.duplicateStage s.name)) ∧
    (specs ≠ [] → NamesUnique specs → ¬ PredecessorsDeclared specs →
      ∃ s pred, FirstOffence specs s pred ∧ plan specs = .error (offence s.name pred)) ∧
    (specs ≠ [] → NamesUnique specs → PredecessorsDeclared specs → ¬ Acyclic specs →
      ∃ cycle, plan specs = .error (.cyclicDependency cycle)) ∧
    (specs ≠ [] → NamesUnique specs → PredecessorsDeclared specs → Acyclic specs →
      ¬ TargetsApart specs →
      ∃ first second path, plan specs = .error (.resourceConflict first second path)) ∧
    ∀ p, plan specs = .ok p →
      p.order.Perm (List.range specs.length) ∧
      Greedy specs.length (Precedes specs) p.order ∧
      p.orderedNames.map some = p.order.map (fun i => specs[i]?.map (·.name)) ∧
      p.orderedNames.Perm (specs.map (·.name)) ∧
      ∀ name k, p.position? name = some k ↔ p.orderedNames[k]? = some name := by
  refine ⟨⟨?_, ?_⟩, ?_, ?_, ?_, ?_, ?_, ?_⟩
  · rintro ⟨p, hp⟩
    refine ⟨?_, (describes_of_plan hp).2⟩
    rintro rfl
    cases hp
  · rintro ⟨hne, hu, hd, hac, hapart⟩
    -- only the last of the cases is left
    rcases plan_cases hne with ⟨h, -⟩ | ⟨-, ⟨h, -⟩ | ⟨-, ⟨h, -⟩ | ⟨-, ⟨h, -⟩ | ⟨-, p, hp, -⟩⟩⟩⟩
    · exact absurd hu h
    · exact absurd hd h
    · exact absurd hac h
    · exact absurd hapart h
    · exact ⟨p, hp⟩
  · rintro rfl
    rfl
  · intro hne hu
    rcases plan_cases hne with ⟨-, h⟩ | ⟨h, -⟩
    · exact h
    · exact absurd h hu
  · intro hne hu hd
    rcases plan_cases hne with ⟨h, -⟩ | ⟨-, ⟨-, h⟩ | ⟨h, -⟩⟩
    · exact absurd hu h
    · exact h
    · exact absurd h hd
  · intro hne hu hd hac
    rcases plan_cases hne with ⟨h, -⟩ | ⟨-, ⟨h, -⟩ | ⟨-, ⟨-, h⟩ | ⟨h, -⟩⟩⟩
    · exact absurd hu h
    · exact absurd hd h
    · exact h
    · exact absurd h hac
  · intro hne hu hd hac hapart
    rcases plan_cases hne with ⟨h, -⟩ | ⟨-, ⟨h, -⟩ | ⟨-, ⟨h, -⟩ | ⟨-, ⟨-, h⟩ | ⟨h, -⟩⟩⟩⟩
    · exact absurd hu h
    · exact absurd hd h
    · exact absurd hac h
    · exact h
    · exact absurd h hapart
  · intro p hp
    obtain ⟨hdesc, hu, -⟩ := describes_of_plan hp
    have hperm := hdesc.order_perm
    have hgreedy := hdesc.greedy
    rw [hdesc.names_length] at hperm hgreedy
    rw [hdesc.edge_eq] at hgreedy
    exact ⟨hperm, hgreedy, hdesc.orderedNames_eq, hdesc.orderedNames_perm,
      hdesc.position?_eq_some_iff hu⟩

end Verdict

end Wheelwright
