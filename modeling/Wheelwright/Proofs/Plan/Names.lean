/-
  Names — a plan answers by name what the declarations say by name.

  **Specification** — `NamedBefore specs a b`: the stage called `b` names `a` among its predecessors.  A path of such
  edges is a chain of names, and no number of a stage occurs in it.

  **Program** — `dependsOn`, `canRunConcurrently`, `predecessorNames` and `dependentNames` look names up, go by the
  numbers of the plan and give names back.

  **The crux** — in an accepted list every name of a predecessor is the name of one stage, so each step of a path by
  name is a step by number and the other way round (`dependsOn_iff_named`).
-/
import Wheelwright.Proofs.Plan.Verdict

namespace Wheelwright

variable {specs : List StageSpec} {a b : String} {i j : Nat} {s t : StageSpec}

/-! ## Dependencies by name

  A path by names goes from predecessor to predecessor.  In a list of stages with distinct names, such a path is one
  by numbers. -/

/-- The stage called `b` names `a` among its predecessors. -/
def NamedBefore (specs : List StageSpec) (a b : String) : Prop :=
  ∃ s ∈ specs, s.name = b ∧ a ∈ s.predecessors

/-- There is a path from the stage called `a` to the one called `b`, from predecessor to predecessor. -/
def NamedPath (specs : List StageSpec) (a b : String) : Prop := Relation.TransGen (NamedBefore specs) b a

/-- A name stands at one place. -/
theorem NamesUnique.getElem?_inj (hu : NamesUnique specs) (hs : specs[i]? = some s) (ht : specs[j]? = some t)
    (hname : s.name = t.name) : i = j := by
  have hi : (specs.map (·.name)).idxOf? s.name = some i := (idxOf?_names hu).mpr ⟨s, hs, rfl⟩
  have hj : (specs.map (·.name)).idxOf? s.name = some j := (idxOf?_names hu).mpr ⟨t, ht, hname.symm⟩
  exact Option.some.inj (hi.symm.trans hj)

/-- Stages that precede each other by number do so by name. -/
theorem Precedes.named (h : Precedes specs j i) (hs : specs[i]? = some s) (ht : specs[j]? = some t) :
    NamedBefore specs t.name s.name := by
  obtain ⟨s', t', hs', ht', hmem⟩ := h
  obtain rfl := Option.some.inj (hs.symm.trans hs')
  obtain rfl := Option.some.inj (ht.symm.trans ht')
  exact ⟨s, List.mem_of_getElem? hs, rfl, hmem⟩

/-- What a name comes after is the name of a stage that precedes. -/
theorem NamedBefore.precedes (hu : NamesUnique specs) (hd : PredecessorsDeclared specs)
    (h : NamedBefore specs a s.name) (hs : specs[i]? = some s) :
    ∃ j t, specs[j]? = some t ∧ t.name = a ∧ Precedes specs j i := by
  obtain ⟨s', hmem, hname, ha⟩ := h
  obtain ⟨t, ht, rfl⟩ := List.mem_map.mp (hd s' hmem a ha).2
  obtain ⟨j, hj⟩ := List.mem_iff_getElem?.mp ht
  obtain ⟨i', hi'⟩ := List.mem_iff_getElem?.mp hmem
  obtain rfl := hu.getElem?_inj hi' hs hname
  exact ⟨j, t, hj, rfl, s', t, hi', hj, ha⟩

/-- Only declared names are on a path. -/
theorem NamedPath.mem_names (hd : PredecessorsDeclared specs) (h : NamedPath specs a b) :
    a ∈ specs.map (·.name) ∧ b ∈ specs.map (·.name) := by
  have hright {x y : String} (hxy : NamedBefore specs x y) : y ∈ specs.map (·.name) := by
    obtain ⟨s, hs, rfl, -⟩ := hxy
    exact List.mem_map_of_mem hs
  have hleft {x y : String} (hxy : NamedBefore specs x y) : x ∈ specs.map (·.name) := by
    obtain ⟨s, hs, -, hx⟩ := hxy
    exact (hd s hs x hx).2
  obtain ⟨y, hby, -⟩ := Relation.TransGen.head'_iff.mp h
  obtain ⟨x, -, hxa⟩ := Relation.TransGen.tail'_iff.mp h
  exact ⟨hright hxa, hleft hby⟩

/-- **Waiting by number is a path by name.** -/
theorem dependsOn_iff_named (hu : NamesUnique specs) (hd : PredecessorsDeclared specs) (hs : specs[i]? = some s)
    (ht : specs[j]? = some t) : DependsOn specs i j ↔ NamedPath specs s.name t.name := by
  constructor
  · intro h
    -- along the path, from the stage that is waited for
    induction h generalizing s with
    | single hji => exact Relation.TransGen.single (hji.named hs ht)
    | tail _ hmi ih =>
      obtain ⟨s', m, hs', hm, -⟩ := id hmi
      exact (ih hm).tail (hmi.named hs hm)
  · intro h
    unfold NamedPath at h
    generalize hb : s.name = b at h
    induction h generalizing i s with
    | single hab =>
      subst hb
      obtain ⟨j', t', ht', hname, hprec⟩ := hab.precedes hu hd hs
      obtain rfl := hu.getElem?_inj ht' ht hname
      exact Relation.TransGen.single hprec
    | tail _ hab ih =>
      subst hb
      obtain ⟨m, u, hm, rfl, hprec⟩ := hab.precedes hu hd hs
      exact (ih hm rfl).tail hprec

/-! ## Answers of a plan

  What a plan answers is asked for by names and computed by numbers.  Names that were not declared have no number, and
  each answer says what becomes of them. -/

namespace Plan

variable {p : Plan}

namespace Describes

variable (h : p.Describes specs) (hu : NamesUnique specs)
include h hu

/-- A name has the number of the stage that was declared under it. -/
theorem index?_eq_some_iff : p.index? a = some i ↔ ∃ s, specs[i]? = some s ∧ s.name = a := by
  rw [index?, h.names_eq, idxOf?_names hu]

omit hu in
/-- A name that was not declared has none. -/
theorem index?_eq_none_iff : p.index? a = none ↔ a ∉ specs.map (·.name) := by
  rw [index?, h.names_eq, List.idxOf?_eq_none_iff]

omit hu in
/-- Two declared names are both found. -/
theorem exists_index? (ha : a ∈ specs.map (·.name)) (hb : b ∈ specs.map (·.name)) :
    ∃ i j, p.index? a = some i ∧ p.index? b = some j := by
  have hfound {x : String} (hx : x ∈ specs.map (·.name)) : ∃ i, p.index? x = some i :=
    Option.ne_none_iff_exists'.mp fun hnone => h.index?_eq_none_iff.mp hnone hx
  obtain ⟨i, hi⟩ := hfound ha
  obtain ⟨j, hj⟩ := hfound hb
  exact ⟨i, j, hi, hj⟩

/-- One stage depends on another exactly if there is a path from it to the other. -/
theorem dependsOn_iff (hd : PredecessorsDeclared specs) : p.dependsOn a b = true ↔ NamedPath specs a b := by
  unfold dependsOn
  split
  · rename_i i j hi hj
    obtain ⟨s, hs, rfl⟩ := (h.index?_eq_some_iff hu).mp hi
    obtain ⟨t, ht, rfl⟩ := (h.index?_eq_some_iff hu).mp hj
    rw [List.contains_iff_mem, h.mem_ancestors, dependsOn_iff_named hu hd hs ht]
  · rename_i hnone
    refine iff_of_false Bool.false_ne_true fun hpath => ?_
    -- both ends of a path are declared
    obtain ⟨ha, hb⟩ := hpath.mem_names hd
    obtain ⟨i, j, hi, hj⟩ := h.exists_index? ha hb
    exact hnone i j hi hj

/-- Two stages may run at the same time exactly if they are two and there is no path between them. -/
theorem canRunConcurrently_iff (hd : PredecessorsDeclared specs) : p.canRunConcurrently a b = true ↔
    a ∈ specs.map (·.name) ∧ b ∈ specs.map (·.name) ∧ a ≠ b ∧ ¬ NamedPath specs a b ∧ ¬ NamedPath specs b a := by
  -- both names are declared, or one of them has no number
  unfold canRunConcurrently
  split
  · rename_i i j hi hj
    obtain ⟨s, hs, rfl⟩ := (h.index?_eq_some_iff hu).mp hi
    obtain ⟨t, ht, rfl⟩ := (h.index?_eq_some_iff hu).mp hj
    have hne : i ≠ j ↔ s.name ≠ t.name := by
      refine not_congr ⟨?_, hu.getElem?_inj hs ht⟩
      rintro rfl
      rw [Option.some.inj (hs.symm.trans ht)]
    rw [Bool.and_eq_true, bne_iff_ne, h.unrelated_iff, Unrelated, dependsOn_iff_named hu hd hs ht,
      dependsOn_iff_named hu hd ht hs, hne]
    have hs' := List.mem_map_of_mem (f := (·.name)) (List.mem_of_getElem? hs)
    have ht' := List.mem_map_of_mem (f := (·.name)) (List.mem_of_getElem? ht)
    exact ⟨fun hall => ⟨hs', ht', hall⟩, fun hall => hall.2.2⟩
  · rename_i hnone
    refine iff_of_false Bool.false_ne_true ?_
    rintro ⟨ha, hb, -⟩
    obtain ⟨i, j, hi, hj⟩ := h.exists_index? ha hb
    exact hnone i j hi hj

/-- The names of a stage's predecessors are those that it declares. -/
theorem mem_predecessorNames_iff (hd : PredecessorsDeclared specs) :
    a ∈ p.predecessorNames b ↔ NamedBefore specs a b := by
  -- an undeclared name has no predecessors
  unfold predecessorNames
  split
  · rename_i hnone
    refine iff_of_false List.not_mem_nil fun ⟨s, hs, hname, _⟩ => ?_
    exact h.index?_eq_none_iff.mp hnone (hname ▸ List.mem_map_of_mem hs)
  · rename_i i hi
    obtain ⟨s, hs, rfl⟩ := (h.index?_eq_some_iff hu).mp hi
    rw [List.mem_map]
    constructor
    · rintro ⟨j, hj, rfl⟩
      have hprec : Precedes specs j i := h.edge_eq ▸ hj
      obtain ⟨s', t, hs', ht, -⟩ := id hprec
      rw [h.nameOf_eq ht]
      exact hprec.named hs ht
    · intro hab
      obtain ⟨j, t, ht, rfl, hprec⟩ := hab.precedes hu hd hs
      rw [← h.edge_eq] at hprec
      exact ⟨j, hprec, h.nameOf_eq ht⟩

/-- The names of a stage's dependents are those of the stages that declare it. -/
theorem mem_dependentNames_iff (hd : PredecessorsDeclared specs) :
    b ∈ p.dependentNames a ↔ NamedBefore specs a b := by
  -- nor has it dependents
  unfold dependentNames
  split
  · rename_i hnone
    refine iff_of_false List.not_mem_nil fun ⟨s, hs, _, ha⟩ => ?_
    exact h.index?_eq_none_iff.mp hnone (hd s hs a ha).2
  · rename_i j hj
    obtain ⟨t, ht, rfl⟩ := (h.index?_eq_some_iff hu).mp hj
    rw [List.mem_map]
    constructor
    · rintro ⟨i, hi, rfl⟩
      have hprec : Precedes specs j i := h.edge_eq ▸ mem_dependentsIn.mp hi
      obtain ⟨s, t', hs, ht', -⟩ := id hprec
      rw [h.nameOf_eq hs]
      exact hprec.named hs ht
    · intro hab
      obtain ⟨s, hmem, rfl, hpred⟩ := id hab
      obtain ⟨i, hs⟩ := List.mem_iff_getElem?.mp hmem
      obtain ⟨j', t', ht', hname, hprec⟩ := hab.precedes hu hd hs
      obtain rfl := hu.getElem?_inj ht' ht hname
      rw [← h.edge_eq] at hprec
      exact ⟨i, mem_dependentsIn.mpr hprec, h.nameOf_eq hs⟩

omit hu in
/-- Dependents are listed in the order of declaration. -/
theorem dependentNames_sublist : (p.dependentNames a).Sublist (specs.map (·.name)) := by
  unfold dependentNames
  split
  · exact List.nil_sublist _
  · rename_i i _
    -- they are picked from all stages, and these have all names
    rw [← h.names_eq, ← p.map_nameOf_range, ← h.length]
    exact List.Sublist.map _ List.filter_sublist

/-- What a stage depends on stands before it in the order. -/
theorem position?_lt (hd : PredecessorsDeclared specs) (hdep : p.dependsOn a b = true) :
    ∃ k l, p.position? b = some k ∧ p.position? a = some l ∧ k < l := by
  have hpath := (h.dependsOn_iff hu hd).mp hdep
  obtain ⟨ha, hb⟩ := hpath.mem_names hd
  obtain ⟨s, hs, rfl⟩ := List.mem_map.mp ha
  obtain ⟨t, ht, rfl⟩ := List.mem_map.mp hb
  obtain ⟨i, hi⟩ := List.mem_iff_getElem?.mp hs
  obtain ⟨j, hj⟩ := List.mem_iff_getElem?.mp ht
  have htrans : Relation.TransGen (Edge p.predecessors) j i := by
    rw [h.edge_eq]
    exact (dependsOn_iff_named hu hd hi hj).mpr hpath
  have himem : i ∈ p.order := h.mem_order.mpr (h.names_length ▸ (List.getElem?_eq_some_iff.mp hi).1)
  obtain ⟨hjmem, hlt⟩ := h.greedy.transGen_mem htrans himem
  -- a stage of the plan has a place in the order
  have hplace {m : Nat} {u : StageSpec} (hm : specs[m]? = some u) (hmem : m ∈ p.order) :
      p.position? u.name = some (p.order.idxOf m) := by
    rw [h.position?_eq_some_iff hu, orderedNames, List.getElem?_map, List.getElem?_idxOf hmem, Option.map_some,
      h.nameOf_eq hm]
  exact ⟨_, _, hplace hj hjmem, hplace hi himem, hlt⟩

end Describes

end Plan

/-- What the plan `p` answers about names, in terms of the declarations that it was made from. -/
structure Plan.Answers (p : Plan) (specs : List StageSpec) : Prop where
  /-- A stage depends on another exactly if there is a path of declared predecessors from it to the other. -/
  dependsOn_iff (a b : String) : p.dependsOn a b = true ↔
    a ∈ specs.map (·.name) ∧ b ∈ specs.map (·.name) ∧ NamedPath specs a b
  /-- No stage depends on itself. -/
  irrefl (a : String) : p.dependsOn a a = false
  /-- Dependence is transitive. -/
  trans (a b c : String) : p.dependsOn a b = true → p.dependsOn b c = true → p.dependsOn a c = true
  /-- The order of the plan keeps to the dependencies. -/
  position_lt (a b : String) : p.dependsOn a b = true →
    ∃ k l, p.position? b = some k ∧ p.position? a = some l ∧ k < l
  /-- Running at the same time is symmetric. -/
  concurrently_symm (a b : String) : p.canRunConcurrently a b = p.canRunConcurrently b a
  /-- Two stages can run at the same time exactly if they are different, declared and without a path between them. -/
  concurrently_iff (a b : String) : p.canRunConcurrently a b = true ↔
    a ∈ specs.map (·.name) ∧ b ∈ specs.map (·.name) ∧ a ≠ b ∧ ¬ NamedPath specs a b ∧ ¬ NamedPath specs b a
  /-- Predecessors are those that were declared. -/
  predecessors_iff (a b : String) : a ∈ p.predecessorNames b ↔ NamedBefore specs a b
  /-- Dependents are the inverse of predecessors. -/
  dependents_iff (a b : String) : b ∈ p.dependentNames a ↔ a ∈ p.predecessorNames b
  /-- Each dependent is listed once, in the order of declaration. -/
  dependents_listed (a : String) :
    (p.dependentNames a).Nodup ∧ (p.dependentNames a).Sublist (specs.map (·.name))

/-- **The answers of a plan are those of the declarations**, for all names, whether stages are called so or not. -/
theorem plan_answers {p : Plan} (h : plan specs = .ok p) : p.Answers specs := by
  obtain ⟨hdesc, hu, hd, -⟩ := describes_of_plan h
  have hdep (a b : String) := hdesc.dependsOn_iff hu hd (a := a) (b := b)
  have hcon (a b : String) := hdesc.canRunConcurrently_iff hu hd (a := a) (b := b)
  constructor
  case dependsOn_iff =>
    intro a b
    rw [hdep]
    exact ⟨fun hpath => ⟨(hpath.mem_names hd).1, (hpath.mem_names hd).2, hpath⟩, fun hall => hall.2.2⟩
  case irrefl =>
    intro a
    rw [Bool.eq_false_iff]
    intro haa
    -- it would stand before itself
    obtain ⟨k, l, hk, hl, hlt⟩ := hdesc.position?_lt hu hd haa
    rw [Option.some.inj (hk.symm.trans hl)] at hlt
    exact Nat.lt_irrefl _ hlt
  case trans =>
    intro a b c hab hbc
    exact (hdep a c).mpr (Relation.TransGen.trans ((hdep b c).mp hbc) ((hdep a b).mp hab))
  case position_lt => exact fun a b => hdesc.position?_lt hu hd
  case concurrently_symm =>
    intro a b
    rw [Bool.eq_iff_iff, hcon, hcon]
    constructor <;> exact fun ⟨ha, hb, hne, hab, hba⟩ => ⟨hb, ha, hne.symm, hba, hab⟩
  case concurrently_iff => exact hcon
  case predecessors_iff => exact fun a b => hdesc.mem_predecessorNames_iff hu hd
  case dependents_iff =>
    intro a b
    rw [hdesc.mem_dependentNames_iff hu hd, hdesc.mem_predecessorNames_iff hu hd]
  case dependents_listed =>
    intro a
    have hsub := hdesc.dependentNames_sublist (a := a)
    exact ⟨hsub.nodup hu, hsub⟩

/-- A report on a check and a build, which both need what was fetched; the last stage stands alone. -/
def meshed : List StageSpec :=
  [{ name := "report", predecessors := ["check", "build"] }, { name := "check", predecessors := ["fetch"] },
    { name := "build", predecessors := ["fetch"] }, { name := "fetch" }, { name := "docs" }]

/-- The plan of the meshed stages. -/
def meshedPlan : Plan :=
  { names := ["report", "check", "build", "fetch", "docs"], predecessors := [[1, 2], [3], [3], [], []]
    order := [3, 1, 2, 0, 4], ancestors := [[1, 3, 2], [3], [3], [], []] }

/-- In it the report depends on the fetching by way of the stages between them. -/
theorem plan_answers_meshed : plan meshed = .ok meshedPlan ∧
    meshedPlan.dependsOn "report" "fetch" = true ∧ NamedPath meshed "report" "fetch" ∧
    (∃ k l, meshedPlan.position? "fetch" = some k ∧ meshedPlan.position? "report" = some l ∧ k < l) ∧
    meshedPlan.canRunConcurrently "check" "build" = true ∧ ¬ NamedPath meshed "check" "build" ∧
    meshedPlan.dependentNames "fetch" = ["check", "build"] ∧ "fetch" ∈ meshedPlan.predecessorNames "build" := by
  have hplan : plan meshed = .ok meshedPlan := rfl
  have h := plan_answers hplan
  have hreport : meshedPlan.dependsOn "report" "fetch" = true := by decide
  have hbeside : meshedPlan.canRunConcurrently "check" "build" = true := by decide
  have hfetch : meshedPlan.dependentNames "fetch" = ["check", "build"] := by decide
  refine ⟨hplan, hreport, ((h.dependsOn_iff _ _).mp hreport).2.2, h.position_lt _ _ hreport, hbeside,
    ((h.concurrently_iff _ _).mp hbeside).2.2.2.1, hfetch, (h.dependents_iff _ _).mp ?_⟩
  rw [hfetch]
  decide

end Wheelwright
