/-
  Conflicts — stages that could write to one place at the same time.

  **Specification** — `Clashes specs x s t a b`: at the site `x` of the declaration stand two stages without a path between
  them, and a target of each, and one of the two targets is equal to or around the other.  Sites are in dictionary order:
  by the stage declared earlier, the stage declared later, the target of the first and the target of the second.

  **Program** — `firstConflict`, `conflictWith`, `firstOverlap` and `overlapping?` look through stages and targets, each
  for the first hit.

  **The crux** — a search in a search stops at the least pair of indices (`firstOverlap_eq_some`), and two such searches at
  the least site.  What is searched are components, so another spelling of the targets leads to the same site.
-/
import Mathlib.Order.Defs.LinearOrder
import Wheelwright.Proofs.Path.Spelling
import Wheelwright.Proofs.Plan.Verdict

namespace Wheelwright

variable {specs specs' : List StageSpec} {s t s' t' : StageSpec} {a b a' b' path : Path}

/-! ## Searches

  A search stops at the first hit, and two searches that match item by item stop at the same place. -/

section Search

variable {α β γ : Type} {f : α → Option β}

/-- A search ends at the first index with a hit. -/
theorem findSome?_eq_some_first {items : List α} {found : β} (h : items.findSome? f = some found) :
    ∃ k x, items[k]? = some x ∧ f x = some found ∧
      ∀ (k' : Nat) (x' : α), items[k']? = some x' → f x' ≠ none → k ≤ k' := by
  obtain ⟨front, x, back, rfl, hx, hfront⟩ := List.findSome?_eq_some_iff.mp h
  refine ⟨front.length, x, by simp, hx, fun k' x' hk' hx' => ?_⟩
  by_contra hlt
  rw [List.getElem?_append_left (Nat.lt_of_not_le hlt)] at hk'
  exact hx' (hfront x' (List.mem_of_getElem? hk'))

/-- Searches in lists that match find what matches. -/
theorem findSome?_rel {δ : Type} {g : γ → Option δ} {R : α → γ → Prop} {S : β → δ → Prop} {xs : List α} {ys : List γ}
    (h : List.Forall₂ R xs ys) (hfg : ∀ x y, R x y → Option.Rel S (f x) (g y)) :
    Option.Rel S (xs.findSome? f) (ys.findSome? g) := by
  induction h with
  | nil => exact Option.Rel.none
  | @cons x y xs ys hxy _ ih =>
    rw [List.findSome?_cons, List.findSome?_cons]
    have hrel := hfg x y hxy
    generalize f x = found at hrel
    generalize g y = found' at hrel
    cases hrel with
    | some hfound => exact Option.Rel.some hfound
    | none => exact ih

end Search

/-! ## Overlaps

  Of two stages the targets are searched in order, those of the first on the outside.  The hit is the least pair of
  places with an overlap. -/

/-- The path of the two that contains the other; the first of them if they name the same. -/
def IsOuter (a b path : Path) : Prop :=
  a.components <+: b.components ∧ path = a ∨
    ¬ a.components <+: b.components ∧ b.components <+: a.components ∧ path = b

/-- The path that is reported is the outer one of the two. -/
theorem overlapping?_eq_some (h : overlapping? a b = some path) : IsOuter a b path := by
  unfold overlapping? at h
  split at h
  · rename_i hab
    exact Or.inl ⟨(startsWith_iff a b).mp hab, (Option.some.inj h).symm⟩
  · rename_i hab
    split at h
    · rename_i hba
      exact Or.inr ⟨fun hpre => hab ((startsWith_iff a b).mpr hpre), (startsWith_iff b a).mp hba, (Option.some.inj h).symm⟩
    · cases h

/-- **The overlap that is found is the first one** by the place of the target on the left, then on the right. -/
theorem firstOverlap_eq_some {as bs : List Path} (h : firstOverlap as bs = some path) :
    ∃ k l a b, as[k]? = some a ∧ bs[l]? = some b ∧ IsOuter a b path ∧
      ∀ (k' l' : Nat) (a' b' : Path), as[k']? = some a' → bs[l']? = some b' →
        a'.components <+: b'.components ∨ b'.components <+: a'.components → k < k' ∨ k = k' ∧ l ≤ l' := by
  obtain ⟨k, a, hk, hfound, hleast⟩ := findSome?_eq_some_first h
  obtain ⟨l, b, hl, hab, hleast'⟩ := findSome?_eq_some_first hfound
  refine ⟨k, l, a, b, hk, hl, overlapping?_eq_some hab, fun k' l' a' b' hk' hl' hov => ?_⟩
  have hhit : overlapping? a' b' ≠ none := fun hnone => (overlapping?_eq_none_iff a' b').mp hnone hov
  have hkk' : k ≤ k' := hleast k' a' hk' fun hnone => hhit (List.findSome?_eq_none_iff.mp hnone b' (List.mem_of_getElem? hl'))
  rcases Nat.lt_or_eq_of_le hkk' with hlt | rfl
  · exact Or.inl hlt
  · obtain rfl := Option.some.inj (hk.symm.trans hk')
    exact Or.inr ⟨rfl, hleast' l' b' hl' hhit⟩

/-! ## Sites

  A site says where in the declaration two overlapping targets stand, and the search through the plan ends at the
  least one. -/

/-- Where two targets stand: the stages that declare them, the earlier one first, and the place of each among the targets
    of its stage. -/
structure Site where
  /-- The numbers of the two stages. -/
  first : Nat
  second : Nat
  /-- The numbers of their targets. -/
  left : Nat
  right : Nat

/-- Sites are in dictionary order. -/
instance : LE Site where
  le x y := x.first < y.first ∨ x.first = y.first ∧ (x.second < y.second ∨ x.second = y.second ∧
    (x.left < y.left ∨ x.left = y.left ∧ x.right ≤ y.right))

/-- At the site `x` stand the targets `a` of stage `s` and `b` of stage `t`, which must not both be written to. -/
structure Clashes (specs : List StageSpec) (x : Site) (s t : StageSpec) (a b : Path) : Prop where
  /-- Two stages in the order of declaration. -/
  lt : x.first < x.second
  first : specs[x.first]? = some s
  second : specs[x.second]? = some t
  /-- Neither of them waits for the other. -/
  unrelated : Unrelated specs x.first x.second
  /-- Each of them has such a target. -/
  left : s.targets[x.left]? = some a
  right : t.targets[x.right]? = some b
  /-- One of the targets contains the other. -/
  overlap : a.components <+: b.components ∨ b.components <+: a.components

/-- The targets of such stages overlap. -/
theorem Clashes.targetsOverlap {x : Site} (h : Clashes specs x s t a b) : TargetsOverlap s t :=
  ⟨a, List.mem_of_getElem? h.left, b, List.mem_of_getElem? h.right, h.overlap⟩

/-- **The conflict of a plan is the first clash of its declaration.** -/
theorem Plan.Describes.firstConflict_eq_some {p : Plan} (h : p.Describes specs) {e : PlanError}
    (hconflict : p.firstConflict 0 specs = some e) :
    ∃ x s t a b path, e = .resourceConflict s.name t.name path ∧ Clashes specs x s t a b ∧ IsOuter a b path ∧
      ∀ x' s' t' a' b', Clashes specs x' s' t' a' b' → x ≤ x' := by
  obtain ⟨i, j, s, t, path, rfl, hlt, hs, ht, hu, hpath, hleast⟩ := Plan.firstConflict_eq_some hconflict
  simp only [Nat.zero_add, h.unrelated_iff] at hu hleast
  obtain ⟨k, l, a, b, hk, hl, houter, hleast'⟩ := firstOverlap_eq_some hpath
  have hov : a.components <+: b.components ∨ b.components <+: a.components :=
    houter.imp (fun h => h.1) fun h => h.2.1
  -- the search goes pair by pair, and stops at the first
  refine ⟨⟨i, j, k, l⟩, s, t, a, b, path, rfl, ⟨hlt, hs, ht, hu, hk, hl, hov⟩, houter, ?_⟩
  intro x' s' t' a' b' hclash
  have hpair := hleast _ _ _ _ hclash.lt hclash.first hclash.second hclash.unrelated hclash.targetsOverlap
  rcases hpair with hfirst | ⟨hfirst, hsecond⟩
  · exact Or.inl hfirst
  · refine Or.inr ⟨hfirst, ?_⟩
    rcases Nat.lt_or_eq_of_le hsecond with hsecond | hsecond
    · exact Or.inl hsecond
    · refine Or.inr ⟨hsecond, ?_⟩
      -- the stages are the same, so the targets decide
      obtain rfl := Option.some.inj (hs.symm.trans (hfirst ▸ hclash.first))
      obtain rfl := Option.some.inj (ht.symm.trans (hsecond ▸ hclash.second))
      rcases hleast' _ _ _ _ hclash.left hclash.right hclash.overlap with hleft | ⟨hleft, hright⟩
      · exact Or.inl hleft
      · exact Or.inr ⟨hleft, hright⟩

/-! ## Other spellings

  Two spellings of a path have the same components, and nothing else of a path is searched.  So all that is found is
  the same, and the paths in the report are spelled as they were declared. -/

/-- The same stage with its targets in another spelling. -/
structure StageSpec.Respelled (s s' : StageSpec) : Prop where
  name : s.name = s'.name
  predecessors : s.predecessors = s'.predecessors
  key : s.key = s'.key
  targets : List.Forall₂ Path.Respelled s.targets s'.targets

/-- The same fault, a path that it names maybe in another spelling. -/
inductive SameFault : PlanError → PlanError → Prop where
  | refl (e : PlanError) : SameFault e e
  | conflict {first second : String} {p q : Path} (h : p.Respelled q) :
    SameFault (.resourceConflict first second p) (.resourceConflict first second q)

/-- The same plan, or the same fault. -/
inductive SameVerdict : Except PlanError Plan → Except PlanError Plan → Prop where
  | plan (p : Plan) : SameVerdict (.ok p) (.ok p)
  | fault {e e' : PlanError} (h : SameFault e e') : SameVerdict (.error e) (.error e')

/-- Overlaps do not depend on the spelling. -/
theorem overlapping?_rel (ha : a.Respelled a') (hb : b.Respelled b') :
    Option.Rel Path.Respelled (overlapping? a b) (overlapping? a' b') := by
  have hab : b.startsWith a = b'.startsWith a' := by
    rw [Path.startsWith, Path.startsWith, ha.same, hb.same]
  have hba : a.startsWith b = a'.startsWith b' := by
    rw [Path.startsWith, Path.startsWith, ha.same, hb.same]
  unfold overlapping?
  rw [hab, hba]
  split
  · exact Option.Rel.some ha
  · split
    · exact Option.Rel.some hb
    · exact Option.Rel.none

/-- Nor does the first of them. -/
theorem firstOverlap_rel (hs : s.Respelled s') (ht : t.Respelled t') :
    Option.Rel Path.Respelled (firstOverlap s.targets t.targets) (firstOverlap s'.targets t'.targets) :=
  findSome?_rel hs.targets fun _ _ ha => findSome?_rel ht.targets fun _ _ hb => overlapping?_rel ha hb

/-- Nor does the first clash with a stage. -/
theorem Plan.conflictWith_rel (p : Plan) (i : Nat) (hs : s.Respelled s') {rest rest' : List StageSpec}
    (h : List.Forall₂ StageSpec.Respelled rest rest') :
    ∀ j, Option.Rel SameFault (p.conflictWith i s j rest) (p.conflictWith i s' j rest') := by
  -- the same stages are compared, and the same pairs of targets overlap
  induction h with
  | nil => exact fun _ => Option.Rel.none
  | cons ht _ ih =>
    intro j
    rw [conflictWith, conflictWith]
    by_cases hu : p.unrelated i j = true
    · rw [if_pos hu, if_pos hu]
      have hrel := firstOverlap_rel hs ht
      generalize firstOverlap s.targets _ = found at hrel
      generalize firstOverlap s'.targets _ = found' at hrel
      cases hrel with
      | some hpath =>
        dsimp only
        rw [hs.name, ht.name]
        exact Option.Rel.some (.conflict hpath)
      | none => exact ih (j + 1)
    · rw [if_neg hu, if_neg hu]
      exact ih (j + 1)

/-- Nor does the first clash at all. -/
theorem Plan.firstConflict_rel (p : Plan) (h : List.Forall₂ StageSpec.Respelled specs specs') :
    ∀ i, Option.Rel SameFault (p.firstConflict i specs) (p.firstConflict i specs') := by
  induction h with
  | nil => exact fun _ => Option.Rel.none
  | @cons s s' rest rest' hs hrest ih =>
    intro i
    rw [firstConflict, firstConflict]
    have hrel := p.conflictWith_rel i hs hrest (i + 1)
    generalize p.conflictWith i s (i + 1) rest = found at hrel
    generalize p.conflictWith i s' (i + 1) rest' = found' at hrel
    cases hrel with
    | some he => exact Option.Rel.some he
    | none => exact ih (i + 1)

/-- Predecessors are resolved by name, so the spelling of targets does not matter. -/
theorem resolveAll_congr (names : List String) (h : List.Forall₂ StageSpec.Respelled specs specs') :
    resolveAll names specs = resolveAll names specs' := by
  induction h with
  | nil => rfl
  | cons hs _ ih => rw [resolveAll, resolveAll, hs.name, hs.predecessors, ih]

/-- **Planning does not see how targets are spelled.** -/
theorem sameVerdict_of_respelled (h : List.Forall₂ StageSpec.Respelled specs specs') :
    SameVerdict (plan specs) (plan specs') := by
  -- names, predecessors and order are the same; only the path of a clash may differ in its spelling
  have hnames : specs.map (·.name) = specs'.map (·.name) := by
    induction h with
    | nil => rfl
    | cons hs _ ih => rw [List.map_cons, List.map_cons, hs.name, ih]
  have hempty : specs.isEmpty = specs'.isEmpty := by cases h <;> rfl
  rw [plan, plan, hnames, hempty]
  dsimp only
  rw [resolveAll_congr _ h]
  split
  · exact .fault (.refl _)
  · cases firstRepeated [] (specs'.map (·.name)) with
    | some name => exact .fault (.refl _)
    | none =>
      cases resolveAll (specs'.map (·.name)) specs' with
      | error e => exact .fault (.refl e)
      | ok preds =>
        dsimp only
        cases planOrder (specs'.map (·.name)) preds with
        | error e => exact .fault (.refl e)
        | ok p =>
          have hrel := p.firstConflict_rel h 0
          dsimp only
          generalize p.firstConflict 0 specs = found at hrel
          generalize p.firstConflict 0 specs' = found' at hrel
          cases hrel with
          | some he => exact .fault he
          | none => exact .plan p

/-! ## The verdict on a declaration

  Conflicts are the last of the checks, so a list of stages that passes the others has a plan or a first clash. -/

/-- A declaration that can be laid out has a plan, and only a conflict stands in its way. -/
theorem plan_of_acyclic (hne : specs ≠ []) (hu : NamesUnique specs) (hd : PredecessorsDeclared specs)
    (hac : Acyclic specs) : ∃ p : Plan, p.Describes specs ∧
      plan specs =
        match p.firstConflict 0 specs with
        | some e => .error e
        | none => .ok p := by
  obtain ⟨preds, hres⟩ := (resolveAll_isOk_iff specs).mpr hd
  have hr := resolves_of_resolveAll hu hres
  rw [plan_eq hne hu hres]
  cases horder : planOrder (specs.map (·.name)) preds with
  | error e => exact absurd hac (planOrder_error hr horder).1
  | ok p => exact ⟨p, (describes_of_planOrder hr horder).1, rfl⟩

section Acyclic

variable (hu : NamesUnique specs) (hd : PredecessorsDeclared specs) (hac : Acyclic specs)
include hu hd hac

/-- A conflict that is reported is the first clash. -/
theorem clash_of_conflict {first second : String} (h : plan specs = .error (.resourceConflict first second path)) :
    ∃ x s t a b, Clashes specs x s t a b ∧ (∀ x' s' t' a' b', Clashes specs x' s' t' a' b' → x ≤ x') ∧
      first = s.name ∧ second = t.name ∧ IsOuter a b path := by
  have hne : specs ≠ [] := by rintro rfl; cases h
  obtain ⟨p, hdesc, hplan⟩ := plan_of_acyclic hne hu hd hac
  rw [h] at hplan
  cases hconflict : p.firstConflict 0 specs with
  | none => rw [hconflict] at hplan; cases hplan
  | some e =>
    rw [hconflict] at hplan
    obtain ⟨x, s, t, a, b, path, rfl, hclash, houter, hleast⟩ := hdesc.firstConflict_eq_some hconflict
    cases hplan
    exact ⟨x, s, t, a, b, hclash, hleast, rfl, rfl, houter⟩

/-- Two stages that overlap and do not wait for each other make planning fail with a conflict. -/
theorem conflict_of_overlap {i j : Nat} (hij : i ≠ j) (hs : specs[i]? = some s) (ht : specs[j]? = some t)
    (hun : Unrelated specs i j) (hov : TargetsOverlap s t) :
    ∃ first second path, plan specs = .error (.resourceConflict first second path) := by
  have hne : specs ≠ [] := List.ne_nil_of_mem (List.mem_of_getElem? hs)
  obtain ⟨p, hdesc, hplan⟩ := plan_of_acyclic hne hu hd hac
  cases hconflict : p.firstConflict 0 specs with
  | none => exact absurd hov (hdesc.firstConflict_eq_none_iff.mp hconflict i j s t hij hs ht hun)
  | some e =>
    rw [hconflict] at hplan
    obtain ⟨x, s, t, a, b, path, rfl, -⟩ := hdesc.firstConflict_eq_some hconflict
    exact ⟨_, _, _, hplan⟩

end Acyclic

/-- **Two stages that could write to one place at the same time are reported, and only such.**  The report is about the
    first two targets of this kind, by the stage declared earlier, the stage declared later and the places of the targets,
    and names the containing one of them as declared.  Other spellings of the targets change nothing but the spelling of
    the path that is named. -/
theorem plan_reports_first_clash (hu : NamesUnique specs) (hd : PredecessorsDeclared specs) (hac : Acyclic specs) :
    ((∃ first second path, plan specs = .error (.resourceConflict first second path)) ↔
      ∃ i j s t, i ≠ j ∧ specs[i]? = some s ∧ specs[j]? = some t ∧ Unrelated specs i j ∧ TargetsOverlap s t) ∧
    (∀ first second path, plan specs = .error (.resourceConflict first second path) →
      ∃ x s t a b, Clashes specs x s t a b ∧ (∀ x' s' t' a' b', Clashes specs x' s' t' a' b' → x ≤ x') ∧
        first = s.name ∧ second = t.name ∧ IsOuter a b path) ∧
    ∀ specs', List.Forall₂ StageSpec.Respelled specs specs' → SameVerdict (plan specs) (plan specs') := by
  refine ⟨⟨?_, ?_⟩, fun _ _ _ h => clash_of_conflict hu hd hac h, fun _ h => sameVerdict_of_respelled h⟩
  · rintro ⟨first, second, path, h⟩
    obtain ⟨x, s, t, a, b, hclash, -⟩ := clash_of_conflict hu hd hac h
    exact ⟨_, _, s, t, Nat.ne_of_lt hclash.lt, hclash.first, hclash.second, hclash.unrelated, hclash.targetsOverlap⟩
  · rintro ⟨i, j, s, t, hij, hs, ht, hun, hov⟩
    exact conflict_of_overlap hu hd hac hij hs ht hun hov

/-- A build that is cleaned up after a check, and wheels that are put into its place beside it. -/
def sharing (dist wheels : Path) : List StageSpec :=
  [{ name := "build", targets := [dist] }, { name := "check", predecessors := ["build"] },
    { name := "clean", predecessors := ["check"], targets := [dist] },
    { name := "wheel", targets := [⟨"/p/.venv"⟩, wheels] }]

/-- Stages with nested targets, of which neither waits for the other. -/
def rivals : List StageSpec := sharing ⟨"/p/dist"⟩ ⟨"/p/dist/wheels"⟩

/-- The same stages with their targets spelled in another way. -/
def rivalsRespelled : List StageSpec := sharing ⟨"/p//dist/"⟩ ⟨"/p/./dist/wheels"⟩

/-- Their clash is reported with the containing path, however the targets are spelled. -/
theorem plan_reports_first_clash_rivals :
    NamesUnique rivals ∧ PredecessorsDeclared rivals ∧ Acyclic rivals ∧
    List.Forall₂ StageSpec.Respelled rivals rivalsRespelled ∧
    plan rivals = .error (.resourceConflict "build" "wheel" ⟨"/p/dist"⟩) ∧
    (∃ x s t a b, Clashes rivals x s t a b ∧ "build" = s.name ∧ "wheel" = t.name ∧ IsOuter a b ⟨"/p/dist"⟩) ∧
    SameVerdict (plan rivals) (plan rivalsRespelled) := by
  have hu : NamesUnique rivals := by unfold NamesUnique; decide
  have hd : PredecessorsDeclared rivals := by unfold PredecessorsDeclared; decide
  have hres : resolveAll (rivals.map (·.name)) rivals = .ok [[], [0], [1], []] := rfl
  have hr := resolves_of_resolveAll hu hres
  have hac : Acyclic rivals := by
    have := (arrange_length_iff hr.nodup hr.lt).mp rfl
    rwa [hr.edge_eq] at this
  have hplan : plan rivals = .error (.resourceConflict "build" "wheel" ⟨"/p/dist"⟩) := rfl
  -- a slash doubled, one at the end, and a dot
  have hdist : Path.Respelled ⟨"/p/dist"⟩ ⟨"/p//dist/"⟩ :=
    .trans _ _ _ (.rel _ _ (.slash "/p" "dist")) (.rel _ _ (.close "/p//dist" (by decide)))
  have hwheels : Path.Respelled ⟨"/p/dist/wheels"⟩ ⟨"/p/./dist/wheels"⟩ := .rel _ _ (.dot "/p" "dist/wheels")
  have hrespelled : List.Forall₂ StageSpec.Respelled rivals rivalsRespelled :=
    .cons ⟨rfl, rfl, rfl, .cons hdist .nil⟩ (.cons ⟨rfl, rfl, rfl, .nil⟩ (.cons ⟨rfl, rfl, rfl, .cons hdist .nil⟩
      (.cons ⟨rfl, rfl, rfl, .cons (.refl _) (.cons hwheels .nil)⟩ .nil)))
  obtain ⟨-, hfirst, hsame⟩ := plan_reports_first_clash hu hd hac
  obtain ⟨x, s, t, a, b, hclash, -, hs, ht, houter⟩ := hfirst _ _ _ hplan
  exact ⟨hu, hd, hac, hrespelled, hplan, ⟨x, s, t, a, b, hclash, hs, ht, houter⟩, hsame _ hrespelled⟩

end Wheelwright
