/-
  Dependencies — what stages wait for, as they declare it and as they are numbered.

  **Specification** — `Precedes specs j i` reads the declarations alone: stage `i` names stage `j` among
  its predecessors.  `DependsOn` is its transitive closure, and the conditions on an acceptable list of
  stages (`NamesUnique`, `PredecessorsDeclared`, `Acyclic`, `TargetsApart`) are stated over these two.

  **Program** — `firstRepeated` and `resolveAll` check names and turn them into numbers.  The lemmas here
  say of each what it accepts, what it gives, and which fault it reports.
-/
import Mathlib.Data.List.GetD
import Mathlib.Data.List.Nodup
import Mathlib.Logic.Relation
import Wheelwright.Plan

namespace Wheelwright

/-! ## Declared dependencies

  Told by declarations alone, without the numbers that the program gives to stages. -/

/-- Stage `j` is a declared predecessor of stage `i`; stages go by their place in the declaration. -/
def Precedes (specs : List StageSpec) (j i : Nat) : Prop :=
  ∃ s t, specs[i]? = some s ∧ specs[j]? = some t ∧ t.name ∈ s.predecessors

/-- Stage `i` waits for stage `j`, directly or not. -/
def DependsOn (specs : List StageSpec) (i j : Nat) : Prop := Relation.TransGen (Precedes specs) j i

/-- Neither of two stages waits for the other. -/
def Unrelated (specs : List StageSpec) (i j : Nat) : Prop :=
  ¬ DependsOn specs i j ∧ ¬ DependsOn specs j i

/-- A place of one stage is equal to, inside or around a place of the other. -/
def TargetsOverlap (s t : StageSpec) : Prop :=
  ∃ a ∈ s.targets, ∃ b ∈ t.targets, a.components <+: b.components ∨ b.components <+: a.components

/-! ## Conditions on a list of stages

  The four conditions that a list of stages has to meet, each of which the planner checks in its own way. -/

/-- No name is declared twice. -/
def NamesUnique (specs : List StageSpec) : Prop := (specs.map (·.name)).Nodup

/-- Every predecessor is a declared stage other than the stage that names it. -/
def PredecessorsDeclared (specs : List StageSpec) : Prop :=
  ∀ s ∈ specs, ∀ pred ∈ s.predecessors, pred ≠ s.name ∧ pred ∈ specs.map (·.name)

/-- No stage waits for itself. -/
def Acyclic (specs : List StageSpec) : Prop := ∀ i, ¬ DependsOn specs i i

/-- Two stages between which there is no dependency do not write to the same place. -/
def TargetsApart (specs : List StageSpec) : Prop :=
  ∀ i j s t, i ≠ j → specs[i]? = some s → specs[j]? = some t → Unrelated specs i j →
    ¬ TargetsOverlap s t

/-! ## Repeated names

  The first name that is there twice, found by going over the names with a list of those that were seen. -/

/-- Nothing repeats exactly if the names are distinct and new. -/
theorem firstRepeated_eq_none_iff (names : List String) :
    ∀ seen : List String, firstRepeated seen names = none ↔
      names.Nodup ∧ ∀ name ∈ names, name ∉ seen := by
  induction names with
  | nil => intro seen; simp [firstRepeated]
  | cons name rest ih =>
    intro seen
    rw [firstRepeated]
    by_cases h : name ∈ seen
    · simp [h]
    · rw [if_neg (by simpa using h), ih, List.nodup_cons]
      -- the first name is new to the others as well
      constructor
      · rintro ⟨hnd, hfresh⟩
        refine ⟨⟨fun hm => hfresh name hm (List.mem_cons_self ..), hnd⟩, fun n hn => ?_⟩
        rcases List.mem_cons.mp hn with rfl | hn
        · exact h
        · exact fun hs => hfresh n hn (List.mem_cons_of_mem _ hs)
      · rintro ⟨⟨hnm, hnd⟩, hfresh⟩
        refine ⟨hnd, fun n hn hs => ?_⟩
        rcases List.mem_cons.mp hs with rfl | hs
        · exact hnm hn
        · exact hfresh n (List.mem_cons_of_mem _ hn) hs

/-- A name that is reported is the first one that occurred before. -/
theorem firstRepeated_eq_some {names : List String} {name : String} :
    ∀ {seen : List String}, firstRepeated seen names = some name →
      ∃ before after, names = before ++ name :: after ∧ before.Nodup ∧
        (∀ n ∈ before, n ∉ seen) ∧ (name ∈ before ∨ name ∈ seen) := by
  induction names with
  | nil => intro seen h; simp [firstRepeated] at h
  | cons first rest ih =>
    intro seen h
    rw [firstRepeated] at h
    -- either the first name is the repetition, or it lies further on
    by_cases hs : first ∈ seen
    · rw [if_pos (by simpa using hs)] at h
      obtain rfl : first = name := by simpa using h
      exact ⟨[], rest, rfl, List.nodup_nil, by simp, Or.inr hs⟩
    · rw [if_neg (by simpa using hs)] at h
      obtain ⟨before, after, rfl, hnd, hfresh, hmem⟩ := ih h
      refine ⟨first :: before, after, rfl, List.nodup_cons.mpr ⟨?_, hnd⟩, ?_, ?_⟩
      · exact fun hm => hfresh first hm (List.mem_cons_self ..)
      · intro n hn
        rcases List.mem_cons.mp hn with rfl | hn
        · exact hs
        · exact fun h' => hfresh n hn (List.mem_cons_of_mem _ h')
      · rcases hmem with hm | hm
        · exact Or.inl (List.mem_cons_of_mem _ hm)
        · rcases List.mem_cons.mp hm with rfl | hm
          · exact Or.inl (List.mem_cons_self ..)
          · exact Or.inr hm

/-! ## Predecessors by number

  Names of predecessors are looked up one by one, and one that the stage cannot have stops the lookup.  So the result
  is a list of numbers or the first offence. -/

/-- What is reported of a predecessor that a stage cannot have. -/
def offence (stage pred : String) : PlanError :=
  if pred = stage then .selfDependency stage else .unknownPredecessor stage pred

/-- What is added is there, and so is what was. -/
theorem mem_addNew {α : Type} [BEq α] [LawfulBEq α] {items : List α} {a b : α} :
    b ∈ addNew items a ↔ b ∈ items ∨ b = a := by
  unfold addNew
  split
  · rename_i h
    constructor
    · exact Or.inl
    · rintro (hb | rfl)
      · exact hb
      · simpa using h
  · simp

/-- Adding keeps a list distinct. -/
theorem nodup_addNew {α : Type} [BEq α] [LawfulBEq α] {items : List α} (h : items.Nodup) (a : α) :
    (addNew items a).Nodup := by
  unfold addNew
  split
  · exact h
  · rename_i hc
    exact List.nodup_append_comm.mpr (List.nodup_cons.mpr ⟨by simpa using hc, h⟩)

/-- Accepted predecessors are declared ones other than the stage; their numbers come once each. -/
theorem resolvePredecessors_ok {names : List String} {stage : String} :
    ∀ {ps : List String} {found preds : List Nat},
      resolvePredecessors names stage found ps = .ok preds →
      (∀ pred ∈ ps, pred ≠ stage ∧ pred ∈ names) ∧ (found.Nodup → preds.Nodup) ∧
      ∀ j, j ∈ preds ↔ j ∈ found ∨ ∃ pred ∈ ps, names.idxOf? pred = some j := by
  intro ps
  -- by the declared names: each is found among the stages, or the search ends there
  induction ps with
  | nil =>
    intro found preds h
    obtain rfl : found = preds := by simpa [resolvePredecessors] using h
    exact ⟨by simp, id, by simp⟩
  | cons pred rest ih =>
    intro found preds h
    rw [resolvePredecessors] at h
    split at h
    · cases h
    · rename_i hne
      split at h
      · cases h
      · rename_i p hp
        obtain ⟨hall, hnd, hmem⟩ := ih h
        refine ⟨?_, fun hf => hnd (nodup_addNew hf p), fun j => ?_⟩
        · intro q hq
          rcases List.mem_cons.mp hq with rfl | hq
          · exact ⟨hne, List.isSome_idxOf?.mp (by rw [hp]; rfl)⟩
          · exact hall q hq
        · rw [hmem j, mem_addNew]
          simp only [List.mem_cons, exists_eq_or_imp, hp, Option.some.injEq]
          constructor
          · rintro ((h1 | rfl) | h1)
            · exact Or.inl h1
            · exact Or.inr (Or.inl rfl)
            · exact Or.inr (Or.inr h1)
          · rintro (h1 | rfl | h1)
            · exact Or.inl (Or.inl h1)
            · exact Or.inl (Or.inr rfl)
            · exact Or.inr h1

/-- The first predecessor that a stage cannot have is reported. -/
theorem resolvePredecessors_error {names : List String} {stage : String} {e : PlanError} :
    ∀ {ps : List String} {found : List Nat}, resolvePredecessors names stage found ps = .error e →
      ∃ early pred late, ps = early ++ pred :: late ∧
        (∀ q ∈ early, q ≠ stage ∧ q ∈ names) ∧ (pred = stage ∨ pred ∉ names) ∧
        e = offence stage pred := by
  intro ps
  -- on the predecessors, as they are resolved one by one
  induction ps with
  | nil => intro found h; simp [resolvePredecessors] at h
  | cons pred rest ih =>
    intro found h
    rw [resolvePredecessors] at h
    split at h
    · rename_i heq
      cases h
      exact ⟨[], pred, rest, rfl, by simp, Or.inl heq, by rw [offence, if_pos heq]⟩
    · rename_i hne
      split at h
      · rename_i hnone
        cases h
        exact ⟨[], pred, rest, rfl, by simp, Or.inr (List.idxOf?_eq_none_iff.mp hnone),
          by rw [offence, if_neg hne]⟩
      · rename_i p hp
        obtain ⟨early, q, late, rfl, hearly, hq, he⟩ := ih h
        refine ⟨pred :: early, q, late, rfl, ?_, hq, he⟩
        intro r hr
        rcases List.mem_cons.mp hr with rfl | hr
        · exact ⟨hne, List.isSome_idxOf?.mp (by rw [hp]; rfl)⟩
        · exact hearly r hr

/-- Predecessors are resolved stage by stage. -/
theorem resolveAll_ok {names : List String} :
    ∀ {specs : List StageSpec} {preds : List (List Nat)}, resolveAll names specs = .ok preds →
      List.Forall₂ (fun s ps => resolvePredecessors names s.name [] s.predecessors = .ok ps)
        specs preds := by
  intro specs
  induction specs with
  | nil =>
    intro preds h
    obtain rfl : [] = preds := by simpa [resolveAll] using h
    exact List.Forall₂.nil
  | cons s rest ih =>
    intro preds h
    rw [resolveAll] at h
    split at h
    · cases h
    · rename_i ps hps
      split at h
      · cases h
      · rename_i more hmore
        cases h
        exact List.Forall₂.cons hps (ih hmore)

/-- The first stage with a fault is reported. -/
theorem resolveAll_error {names : List String} {e : PlanError} :
    ∀ {specs : List StageSpec}, resolveAll names specs = .error e →
      ∃ before s after, specs = before ++ s :: after ∧
        (∀ t ∈ before, ∀ q ∈ t.predecessors, q ≠ t.name ∧ q ∈ names) ∧
        resolvePredecessors names s.name [] s.predecessors = .error e := by
  intro specs
  induction specs with
  | nil => intro h; simp [resolveAll] at h
  | cons s rest ih =>
    intro h
    rw [resolveAll] at h
    split at h
    · rename_i hs
      cases h
      exact ⟨[], s, rest, rfl, by simp, hs⟩
    · rename_i ps hps
      split at h
      · rename_i hrest
        cases h
        obtain ⟨before, t, after, rfl, hbefore, ht⟩ := ih hrest
        -- the stages before the offending one had theirs resolved
        refine ⟨s :: before, t, after, rfl, ?_, ht⟩
        intro u hu
        rcases List.mem_cons.mp hu with rfl | hu
        · exact (resolvePredecessors_ok hps).1
        · exact hbefore u hu
      · cases h

/-! ## The two sides agree

  With distinct names, a name has one number, and the edges by number are the declared ones. -/

/-- `preds` holds for each stage the numbers of its declared predecessors, each once. -/
structure Resolves (specs : List StageSpec) (preds : List (List Nat)) : Prop where
  /-- The table has the length of the declaration. -/
  length : preds.length = specs.length
  /-- No predecessor is listed twice. -/
  nodup : ∀ i, (predsOf preds i).Nodup
  /-- Each is one that was declared. -/
  mem_iff : ∀ i j, j ∈ predsOf preds i ↔ Precedes specs j i

/-- With distinct names, a name stands for one stage. -/
theorem idxOf?_names {specs : List StageSpec} (hu : NamesUnique specs) {name : String} {j : Nat} :
    (specs.map (·.name)).idxOf? name = some j ↔ ∃ t, specs[j]? = some t ∧ t.name = name := by
  rw [List.idxOf?_eq_some_iff]
  constructor
  · rintro ⟨hj, hname, -⟩
    rw [List.length_map] at hj
    exact ⟨specs[j], List.getElem?_eq_getElem hj, by simpa using hname⟩
  · rintro ⟨t, ht, rfl⟩
    obtain ⟨hj, rfl⟩ := List.getElem?_eq_some_iff.mp ht
    refine ⟨by simpa using hj, by simp, fun k hk heq => ?_⟩
    -- an earlier stage of that name would be a second one
    have hne : (specs.map (·.name))[k]? ≠ (specs.map (·.name))[j]? :=
      List.nodup_iff_getElem?_ne_getElem?.mp hu k j hk (by simpa using hj)
    refine hne ?_
    rw [List.getElem?_eq_getElem (by simp; omega), heq]
    simp [hj]

/-- The predecessors of a list of stages are resolved exactly as declared. -/
theorem resolves_of_resolveAll {specs : List StageSpec} {preds : List (List Nat)}
    (hu : NamesUnique specs) (h : resolveAll (specs.map (·.name)) specs = .ok preds) :
    Resolves specs preds := by
  have hall := resolveAll_ok h
  have hlen : preds.length = specs.length := hall.length_eq.symm
  -- the row of a stage is what its own names were resolved to
  have hget : ∀ i s, specs[i]? = some s →
      resolvePredecessors (specs.map (·.name)) s.name [] s.predecessors = .ok (predsOf preds i) := by
    intro i s hs
    obtain ⟨hi, rfl⟩ := List.getElem?_eq_some_iff.mp hs
    have := hall.get hi (by omega)
    rw [predsOf, List.getD_eq_getElem _ _ (by omega)]
    exact this
  have hout : ∀ i, specs[i]? = none → predsOf preds i = [] := by
    intro i hi
    rw [List.getElem?_eq_none_iff] at hi
    rw [predsOf, List.getD_eq_default _ _ (by omega)]
  refine ⟨hlen, fun i => ?_, fun i j => ?_⟩
  · cases hs : specs[i]? with
    | none => rw [hout i hs]; exact List.nodup_nil
    | some s => exact (resolvePredecessors_ok (hget i s hs)).2.1 List.nodup_nil
  · cases hs : specs[i]? with
    | none => rw [hout i hs]; simp [Precedes, hs]
    | some s =>
      rw [(resolvePredecessors_ok (hget i s hs)).2.2 j]
      simp only [List.not_mem_nil, false_or, idxOf?_names hu, Precedes, hs, Option.some.injEq]
      constructor
      · rintro ⟨pred, hp, t, ht, rfl⟩
        exact ⟨s, t, rfl, ht, hp⟩
      · rintro ⟨s', t, rfl, ht, hp⟩
        exact ⟨t.name, hp, t, ht, rfl⟩

/-- Predecessors can be resolved exactly if all of them are declared. -/
theorem resolveAll_isOk_iff (specs : List StageSpec) :
    (∃ preds, resolveAll (specs.map (·.name)) specs = .ok preds) ↔ PredecessorsDeclared specs := by
  constructor
  · rintro ⟨preds, h⟩ s hs
    obtain ⟨i, hi, rfl⟩ := List.mem_iff_getElem.mp hs
    have hall := resolveAll_ok h
    exact (resolvePredecessors_ok (hall.get hi (hall.length_eq ▸ hi))).1
  · intro hd
    cases h : resolveAll (specs.map (·.name)) specs with
    | ok preds => exact ⟨preds, rfl⟩
    | error e =>
      obtain ⟨before, s, after, hspecs, -, hs⟩ := resolveAll_error h
      obtain ⟨early, pred, late, hps, -, hbad, -⟩ := resolvePredecessors_error hs
      have hgood := hd s (by rw [hspecs]; simp) pred (by rw [hps]; simp)
      rcases hbad with h1 | h1
      · exact absurd h1 hgood.1
      · exact absurd hgood.2 h1

end Wheelwright
