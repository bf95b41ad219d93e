/-
  Neighbours — targets that keep their records in one store.

  **Specification** — targets of different project files keep no record under the same key.  A clean that is answered
  with its result has taken the records of all stages of its target from the store, and has left every other record as
  it was; unless another project file is spelled as the target's is, then `#`, then anything: of the target of that
  file no record is left either.

  **Program** — a key is the project file, a `#` and the name of a stage; a clean forgets by how a key starts.

  **The crux** — no name of a stage has a `#` in it, so the last one in a key shows where the project file ends.  A
  clean goes by the first one that follows its own project file, and a path may have a `#` in it
  (`clean_forgets_neighbour`).
-/
import Wheelwright.Proofs.Target.Cleaning

namespace Wheelwright

/-! ## Keys

  A key is cut at its last mark, since names have none.  A clean looks at the start of a key, and there the first mark
  counts; so the two may differ where a path has a mark in it. -/

/-- Lists that are cut at their last mark are cut at the same place. -/
theorem cut_inj {α : Type} {mark : α} {before before' after after' : List α} (h : mark ∉ after) (h' : mark ∉ after')
    (heq : before ++ mark :: after = before' ++ mark :: after') : before = before' ∧ after = after' := by
  rcases List.append_eq_append_iff.mp heq with ⟨more, rfl, hmore⟩ | ⟨more, rfl, hmore⟩ <;>
    cases more with
    | nil =>
      obtain ⟨-, rfl⟩ := List.cons.inj hmore
      exact ⟨by rw [List.append_nil], rfl⟩
    | cons first rest =>
      obtain ⟨-, rfl⟩ := List.cons.inj hmore
      simp at h h'

variable {p q : Path} {a b : String}

/-- A key is the path, a mark, and the name. -/
theorem toList_storeKey (p : Path) (a : String) : (storeKey p a).toList = p.text.toList ++ '#' :: a.toList := by
  simp [storeKey]

/-- **A key tells the project file and the stage**, whose name has no mark in it. -/
theorem storeKey_inj_of_notMem (ha : '#' ∉ a.toList) (hb : '#' ∉ b.toList) (h : storeKey p a = storeKey q b) :
    p = q ∧ a = b := by
  have hlists := congrArg String.toList h
  rw [toList_storeKey, toList_storeKey] at hlists
  obtain ⟨htext, hname⟩ := cut_inj ha hb hlists
  obtain ⟨text⟩ := p
  obtain ⟨text'⟩ := q
  exact ⟨congrArg Path.mk (String.toList_inj.mp htext), String.toList_inj.mp hname⟩

/-- **Which keys a clean forgets**: those of the same project file, and those of a project file that goes on with a
    mark where the other one ends. -/
theorem start_prefix_storeKey_iff (hb : '#' ∉ b.toList) : (storeKey p "").toList <+: (storeKey q b).toList ↔
    p = q ∨ (storeKey p "").toList <+: q.text.toList := by
  constructor
  -- the mark at the end of the first path is the one of the second key, or it lies inside the second path
  · rintro ⟨rest, hrest⟩
    rw [toList_storeKey, toList_storeKey q] at hrest
    rcases List.append_eq_append_iff.mp hrest with ⟨more, htext, -⟩ | ⟨more, htext, hmore⟩
    · exact Or.inr ⟨more, by rw [toList_storeKey, htext]⟩
    · cases more with
      | nil => exact Or.inr ⟨[], by rw [toList_storeKey, htext, List.append_nil, List.append_nil]⟩
      | cons first after =>
        obtain ⟨rfl, hafter⟩ := List.cons.inj hmore
        have hnot : '#' ∉ after := fun hmem => hb (hafter ▸ List.mem_append_left rest hmem)
        obtain ⟨hsame, -⟩ := cut_inj List.not_mem_nil hnot htext
        obtain ⟨text⟩ := p
        obtain ⟨text'⟩ := q
        exact Or.inl (congrArg Path.mk (String.toList_inj.mp hsame))
  · rintro (rfl | ⟨more, hmore⟩)
    · exact storeKey_prefix p b
    · rw [toList_storeKey q, ← hmore]
      exact ⟨more ++ '#' :: b.toList, (List.append_assoc ..).symm⟩

/-- Stage names have no mark in them. -/
theorem TargetStages.notMem_of_mem_names {stage : String} (h : stage ∈ names) : '#' ∉ stage.toList := by
  revert stage
  decide

namespace BuildTarget

/-- The keys of the records of a target's stages. -/
def keys (t : BuildTarget) : List String :=
  t.bodies.filterMap fun
    | .backend s => s.staleness.map (·.key)
    | .clean _ | .fixed _ => none

variable {file other : Path} {v v' : TargetServices} {t t' : BuildTarget} {key : String}

/-- The keys of a target are those of its stages. -/
theorem Guarded.mem_keys (hg : t.Guarded file v) :
    key ∈ t.keys ↔ ∃ stage ∈ TargetStages.names, key = storeKey file stage := by
  have hnames (i : Nat) : t.pipeline.plan.nameOf i = TargetStages.names.getD i "" := by rw [Plan.nameOf, hg.names]
  constructor
  -- the number of the body is that of the name
  · intro hkey
    obtain ⟨body, hbody, hmem⟩ := List.mem_filterMap.mp hkey
    obtain ⟨i, hi, rfl⟩ := List.mem_iff_getElem.mp hbody
    have hlt : i < TargetStages.names.length := hg.length ▸ hi
    obtain ⟨s, check, hs, -, hcheck, -, hsame⟩ := hg.stage i hlt
    rw [Option.some.inj ((List.getElem?_eq_getElem hi).symm.trans hs)] at hmem
    dsimp only at hmem
    rw [hcheck] at hmem
    rw [← Option.some.inj hmem]
    refine ⟨_, List.getElem_mem hlt, hsame.trans ?_⟩
    rw [hnames, List.getD_eq_getElem _ _ hlt]
  · rintro ⟨stage, hstage, rfl⟩
    obtain ⟨i, hi, rfl⟩ := List.mem_iff_getElem.mp hstage
    obtain ⟨s, check, hs, -, hcheck, -, hsame⟩ := hg.stage i hi
    refine List.mem_filterMap.mpr ⟨_, List.mem_of_getElem? hs, ?_⟩
    dsimp only
    rw [hcheck, Option.map_some, hsame, hnames, List.getD_eq_getElem _ _ hi]

/-- **Targets of different project files have no key in common.** -/
theorem Guarded.disjoint (hg : t.Guarded file v) (hg' : t'.Guarded other v') (hfiles : file ≠ other) :
    ∀ key ∈ t.keys, key ∉ t'.keys := by
  intro key hkey hkey'
  obtain ⟨stage, hstage, rfl⟩ := hg.mem_keys.mp hkey
  obtain ⟨stage', hstage', hsame⟩ := hg'.mem_keys.mp hkey'
  exact hfiles (storeKey_inj_of_notMem (TargetStages.notMem_of_mem_names hstage)
    (TargetStages.notMem_of_mem_names hstage') hsame).1

end BuildTarget

/-! ## What a clean leaves in the stores

  A clean is a call that is served by itself, so between its beginning and its answer no other call writes to the
  store. -/

namespace FingerprintStore

variable {stores : List FingerprintStore} {n m : Nat} {start key : String}

/-- The stores without the records of one of them whose keys start so. -/
def cleared (stores : List FingerprintStore) (n : Nat) (start : String) : List FingerprintStore :=
  stores.set n { stores.getD n {} with records := (stores.getD n {}).records.withoutStart start }

/-- After a clean the keys that begin so have no record. -/
theorem load_cleared (hn : n < stores.length) : ((cleared stores n start).getD n {}).load key =
    if start.toList <+: key.toList then none else (stores.getD n {}).load key := by
  have hset : (cleared stores n start).getD n {} =
      { stores.getD n {} with records := (stores.getD n {}).records.withoutStart start } := by
    rw [cleared, List.getD_eq_getElem?_getD, List.getElem?_set_self hn, Option.getD_some]
  rw [hset, load, RecordTable.lookup_withoutStart, load]

end FingerprintStore

namespace TargetSession

open FingerprintStore (cleared load_cleared)

variable {s s' u w : TargetSession} {t : BuildTarget} {e : Turn} {n : Nat} {file : Path} {v : TargetServices}
  {during : List Turn}

/-- A clean is answered with its result and has cleared its store, or with an error and has changed none. -/
theorem stores_afterClean (w : Rehearsal) (t : BuildTarget) (r : StageResult) :
    ((afterClean w t r).2 = .cleaned r ∧
        (afterClean w t r).1.stores = cleared w.stores t.services.store t.storeStart) ∨
      ∃ e, (afterClean w t r).2 = .failed e ∧ (afterClean w t r).1.stores = w.stores := by
  have hanswer : (afterClean w t r).2 =
      cleanAnswer r ((w.store t.services.store).forget t.storeStart w.tree).2.2 := rfl
  have hstores : (afterClean w t r).1.stores =
      w.stores.set t.services.store ((w.store t.services.store).forget t.storeStart w.tree).1 := rfl
  -- the records are gone, or the clean has failed and nothing has changed
  rcases FingerprintStore.forget_cases (w.store t.services.store) t.storeStart w.tree with
    ⟨count, hok, hstore⟩ | ⟨error, herror, hstore⟩
  · refine Or.inl ⟨?_, ?_⟩
    · rw [hanswer, hok]
      rfl
    · rw [hstores, hstore]
      rfl
  · refine Or.inr ⟨error, ?_, ?_⟩
    · rw [hanswer, herror]
      rfl
    · rw [hstores, hstore]
      exact FingerprintStore.set_getD _ _

/-- How far a clean has come that was the next call after `u`. -/
inductive Cleans (file : Path) (v : TargetServices) (u : TargetSession) (n : Nat) (s : TargetSession) : Prop
  /-- It goes on. -/
  | underway (hserved : s.served = some (n, .clean)) (hanswers : s.answers = u.answers)
      (hstores : s.world.stores = u.world.stores)
  /-- It has its result, and the records are gone. -/
  | answered {r : StageResult} (hserved : s.served = none)
      (hanswers : s.answers = u.answers ++ [(n, CallAnswer.cleaned r)])
      (hstores : s.world.stores = cleared u.world.stores v.store (storeKey file ""))
  /-- It has an error, and the records are there. -/
  | refused {e : BuildError} (hserved : s.served = none)
      (hanswers : s.answers = u.answers ++ [(n, CallAnswer.failed e)])
      (hstores : s.world.stores = u.world.stores)

namespace Cleans

/-- What matters is who is served, the answers and the stores. -/
theorem congr (h : Cleans file v u n s) (hserved : s'.served = s.served) (hanswers : s'.answers = s.answers)
    (hstores : s'.world.stores = s.world.stores) : Cleans file v u n s' := by
  cases h with
  | underway hs ha hw => exact .underway (hserved.trans hs) (hanswers.trans ha) (hstores.trans hw)
  | answered hs ha hw => exact .answered (hserved.trans hs) (hanswers.trans ha) (hstores.trans hw)
  | refused hs ha hw => exact .refused (hserved.trans hs) (hanswers.trans ha) (hstores.trans hw)

/-- A clean that is answered with its result has cleared the store. -/
theorem stores_of_cleaned {r : StageResult} (h : Cleans file v u n s)
    (hcleaned : s.answers = u.answers ++ [(n, .cleaned r)]) :
    s.world.stores = cleared u.world.stores v.store (storeKey file "") := by
  cases h with
  | underway _ hsame =>
    rw [hsame] at hcleaned
    simp at hcleaned
  | answered _ _ hstores => exact hstores
  | refused _ hfailed =>
    rw [hfailed] at hcleaned
    simp at hcleaned

/-- No build is served. -/
theorem served_cases (h : Cleans file v u n s) : s.served = none ∨ s.served = some (n, .clean) := by
  cases h with
  | underway hserved => exact Or.inr hserved
  | answered hserved | refused hserved => exact Or.inl hserved

/-- A clean that is asked for finds nobody served. -/
theorem served_of_call (h : Takes u t (.call n .clean) s) : u.served = none := by
  cases h <;> assumption

/-- The call comes in. -/
theorem of_call (h : Takes u t (.call n .clean) s) : Cleans file v u n s := by
  cases h with
  | refused hserved | noClean hserved => exact .refused hserved rfl rfl
  | cleans => exact .underway rfl rfl rfl

/-- **Every turn until the next call.** -/
theorem takes (h : Cleans file v u n s) (hm : Minds file v s t) (hturn : Takes s t e s')
    (hcall : ∀ m c, e ≠ .call m c) : Cleans file v u n s' := by
  have hrests : Rests file v s := hm.rests (h.served_cases.imp_right fun hserved => ⟨n, hserved⟩)
  have hkept {limit : Option Nat} {w : Rehearsal} (hstep : s.world.step limit = some w) :
      w.stores = s.world.stores := (hrests.aside.step hrests.waits hstep).stores
  cases hturn with
  -- the turn is no call, so it ends the clean or leaves all as it is
  | refused | fails | starts | noClean | cleans => exact absurd rfl (hcall _ _)
  | invalidates | cancels | closes | edits => exact h.congr rfl rfl rfl
  | steps hstep => exact h.congr rfl rfl (hkept hstep)
  | built hstep hserved => exact absurd hserved (hrests.served _)
  | @cleaned limit w m r hstep hserved hr =>
    rcases h.served_cases with hnone | hclean
    · rw [hserved] at hnone
      cases hnone
    obtain rfl : m = n := congrArg Prod.fst (Option.some.inj (hserved.symm.trans hclean))
    -- it was under way, for nothing is served after it was answered
    cases h with
    | answered hnone | refused hnone =>
      rw [hserved] at hnone
      cases hnone
    | underway _ hanswers hstores =>
      rcases stores_afterClean w t r with ⟨hanswer, hcleared⟩ | ⟨error, hanswer, hsame⟩
      · refine .answered (r := r) rfl ?_ ?_
        · rw [hanswer, hanswers]
        · rw [hcleared, hkept hstep, hstores, hm.guarded.services, BuildTarget.storeStart, hm.guarded.path]
      · refine .refused (e := error) rfl ?_ ?_
        · rw [hanswer, hanswers]
        · rw [hsame, hkept hstep, hstores]

/-- Turns that are no calls go on so. -/
theorem follow (h : Cleans file v u n s) (hm : Minds file v s t) (hcalls : ∀ m c, .call m c ∉ during)
    (hturns : s.takeTurns during = some w) : Cleans file v u n w := by
  induction during generalizing s t with
  | nil =>
    cases hturns
    exact h
  | cons e rest ih =>
    obtain ⟨next, hturn, hrest⟩ := takeTurns_cons.mp hturns
    have htakes := takes_of_takeTurn hm.target hm.line hturn
    obtain ⟨t', hm'⟩ := hm.takes htakes
    have hnext := h.takes hm htakes fun m c heq => hcalls m c (heq ▸ List.mem_cons_self)
    exact ih hnext hm' (fun m c hmem => hcalls m c (List.mem_cons_of_mem _ hmem)) hrest

end Cleans

/-! ## The main result

  For two targets of different files, and what becomes of the records of both. -/

/-- **A clean forgets the records of its own target.**  Two targets of different project files share a store, with any
    records in it.  They have no key in common.  When a clean of the one is answered with its result, after any turns
    that this target has taken and whatever happens to it meanwhile, no record of its stages is left; and each record
    of the other target's stages is as it was, unless the other project file goes on with `#` where the first one ends:
    then these are forgotten as well. -/
theorem clean_forgets_own {c c' : TargetConfig} {file other : Path} {v v' : TargetServices} {tree tree' : FileTree}
    {h h' h'' : HostGraph} {t₀ t' : BuildTarget} {before : List Turn} {r : StageResult}
    (hcreate : BuildTarget.create c file v tree h = .ok (t₀, s.host))
    (hother : BuildTarget.create c' other v' tree' h' = .ok (t', h'')) (hfiles : file ≠ other)
    (hshared : v'.store = v.store) (hnew : Unasked s t₀) (hstore : v.store < s.world.stores.length)
    (hbefore : s.takeTurns before = some u) (htarget : u.target = some t)
    (hclean : u.takeTurns (.call n .clean :: during) = some w) (hcalls : ∀ m c, .call m c ∉ during)
    (hanswers : w.answers = u.answers ++ [(n, .cleaned r)]) :
    (∀ key ∈ t.keys, key ∉ t'.keys) ∧ (∀ key ∈ t.keys, (w.world.store v.store).load key = none) ∧
      ∀ key ∈ t'.keys, (w.world.store v'.store).load key =
        if (storeKey file "").toList <+: other.text.toList then none else (u.world.store v'.store).load key := by
  have hg := BuildTarget.guarded_of_create hcreate
  have hg' := BuildTarget.guarded_of_create hother
  obtain ⟨t₁, hm⟩ := exists_of_takeTurns (fun hm => ⟨hm.target, hm.line⟩) Minds.takes (hnew.minds hg hstore) hbefore
  obtain rfl : t₁ = t := Option.some.inj (hm.target.symm.trans htarget)
  -- the call, and what becomes of it
  obtain ⟨s₁, hcall, hrest⟩ := takeTurns_cons.mp hclean
  have htakes := takes_of_takeTurn hm.target hm.line hcall
  obtain ⟨t₂, hm₁⟩ := hm.takes htakes
  have hcleans : Cleans file v u n w := (Cleans.of_call htakes).follow hm₁ hcalls hrest
  have hcleared := hcleans.stores_of_cleaned hanswers
  have hload (key : String) : (w.world.store v.store).load key =
      if (storeKey file "").toList <+: key.toList then none else (u.world.store v.store).load key := by
    rw [Rehearsal.store, hcleared]
    exact load_cleared (hm.rests (Or.inl (Cleans.served_of_call htakes))).store
  refine ⟨hm.guarded.disjoint hg' hfiles, fun key hkey => ?_, fun key hkey => ?_⟩
  · obtain ⟨stage, -, rfl⟩ := hm.guarded.mem_keys.mp hkey
    have hstart := storeKey_prefix file stage
    rw [hload, if_pos hstart]
  · obtain ⟨stage, hstage, rfl⟩ := hg'.mem_keys.mp hkey
    have hstart := start_prefix_storeKey_iff (p := file) (q := other) (TargetStages.notMem_of_mem_names hstage)
    rw [hshared, hload]
    by_cases hcontinues : (storeKey file "").toList <+: other.text.toList
    · rw [if_pos hcontinues, if_pos (hstart.mpr (Or.inr hcontinues))]
    · rw [if_neg hcontinues, if_neg fun hprefix => (hstart.mp hprefix).elim hfiles hcontinues]

/-! ## Three project files side by side

  Three files in one directory, one of them with a mark in its name. -/

/-- Three project files, one of which is spelled as another one, a mark, and more. -/
def abreast : FileTree where
  entries := ["pyproject.toml", "pyproject.toml#old", "copy.toml"].map fun name =>
    ([name], .file (Utf8.encode "[build-system]\nbuild-backend = \"pdm.backend\"\n") .plain)

/-- A new target of one of them, with the store of number zero. -/
def madeOf (file : Path) : Except BuildError (BuildTarget × HostGraph) :=
  BuildTarget.create { projectFile := file } file ⟨.standard, .standard, 0⟩ abreast {}

/-- The keys of what is recorded of them. -/
def recordedKeys : List String := ["/copy.toml#build", "/pyproject.toml#build", "/pyproject.toml#old#build"]

/-- A store with a record for each of them. -/
def recorded : FingerprintStore where
  records := recordedKeys.map fun key => (key, default)

/-- A new session of the first one's target, with that store. -/
def abreastSession (t : BuildTarget × HostGraph) : TargetSession where
  target := some t.1
  host := t.2
  world := { tree := abreast, today := ⟨0, 0, 0⟩, stores := [recorded] }

/-- Steps are no calls. -/
theorem call_notMem_steps (m k : Nat) (c : TargetCall) : .call m c ∉ steps k := by
  intro hmem
  cases List.eq_of_mem_replicate hmem

/-- In this session the clean has taken the first one's record and that of the path that begins like it. -/
theorem left_abreast : ((madeOf ⟨"/pyproject.toml"⟩).toOption.bind fun t =>
    ((abreastSession t).takeTurns (.call 0 .clean :: steps 2)).map fun w => (w.answers.map fun a => (a.1, fate a.2),
      recordedKeys.map fun key => ((w.world.store 0).load key).isSome)) =
    some ([(0, .cleaned)], [true, false, false]) := by
  decide +kernel

/-- The other two have targets as well. -/
theorem exists_madeOf (name : String) (h : name ∈ ["/copy.toml", "/pyproject.toml#old"]) :
    ∃ t, madeOf ⟨name⟩ = .ok t := by
  have hall : ∀ name ∈ ["/copy.toml", "/pyproject.toml#old"], (madeOf ⟨name⟩).toOption.isSome = true := by
    decide +kernel
  obtain ⟨t, ht⟩ := Option.isSome_iff_exists.mp (hall name h)
  exact ⟨t, eq_ok_of_toOption ht⟩

/-- The first one's target is cleaned. -/
theorem exists_cleaned : ∃ t w r, madeOf ⟨"/pyproject.toml"⟩ = .ok t ∧
    (abreastSession t).takeTurns (.call 0 .clean :: steps 2) = some w ∧ w.answers = [(0, .cleaned r)] ∧
    recordedKeys.map (fun key => ((w.world.store 0).load key).isSome) = [true, false, false] := by
  obtain ⟨t, ht, hseen⟩ := Option.bind_eq_some_iff.mp left_abreast
  obtain ⟨w, hw, hseen⟩ := Option.map_eq_some_iff.mp hseen
  obtain ⟨hfates, hloads⟩ := Prod.mk.inj hseen
  obtain ⟨⟨n, answer⟩, hanswers, hfate⟩ := List.map_eq_singleton_iff.mp hfates
  obtain ⟨rfl, hfate⟩ := Prod.mk.inj hfate
  obtain ⟨r, rfl⟩ := exists_of_fate_cleaned hfate
  exact ⟨t, w, r, eq_ok_of_toOption ht, hw, hanswers, hloads⟩

/-- Here the record of the copy is still there. -/
theorem clean_forgets_own_abreast : ∃ t t' w, madeOf ⟨"/pyproject.toml"⟩ = .ok t ∧ madeOf ⟨"/copy.toml"⟩ = .ok t' ∧
    (abreastSession t).takeTurns (.call 0 .clean :: steps 2) = some w ∧
    (∀ key ∈ t.1.keys, (w.world.store 0).load key = none) ∧
    ∀ key ∈ t'.1.keys, (w.world.store 0).load key = recorded.load key := by
  obtain ⟨t, w, r, ht, hw, hanswers, -⟩ := exists_cleaned
  obtain ⟨t', ht'⟩ := exists_madeOf "/copy.toml" (by decide)
  have hnew : Unasked (abreastSession t) t.1 :=
    ⟨rfl, rfl, rfl, rfl, rfl, fun _ htask => absurd htask List.not_mem_nil, rfl⟩
  have hbefore : (abreastSession t).takeTurns [] = some (abreastSession t) := rfl
  have hcalls (m : Nat) (c : TargetCall) : .call m c ∉ steps 2 := call_notMem_steps m 2 c
  obtain ⟨-, hown, hothers⟩ := clean_forgets_own (s := abreastSession t) ht ht' (by decide) rfl hnew Nat.zero_lt_one
    hbefore rfl hw hcalls hanswers
  exact ⟨t, t', w, ht, ht', hw, hown, fun key hkey => (hothers key hkey).trans (if_neg (by decide))⟩

/-- **A neighbour's records may be forgotten too**: a clean of the target of `/pyproject.toml` takes the record of a
    stage of the target of `/pyproject.toml#old` from the store. -/
theorem clean_forgets_neighbour : ∃ t t' w r key, madeOf ⟨"/pyproject.toml"⟩ = .ok t ∧
    madeOf ⟨"/pyproject.toml#old"⟩ = .ok t' ∧
    (abreastSession t).takeTurns (.call 0 .clean :: steps 2) = some w ∧ w.answers = [(0, .cleaned r)] ∧
    key ∈ t'.1.keys ∧ (recorded.load key).isSome = true ∧ (w.world.store 0).load key = none := by
  obtain ⟨t, w, r, ht, hw, hanswers, hloads⟩ := exists_cleaned
  obtain ⟨t', ht'⟩ := exists_madeOf "/pyproject.toml#old" (by decide)
  have hkey : "/pyproject.toml#old#build" ∈ t'.1.keys :=
    (BuildTarget.guarded_of_create ht').mem_keys.mpr ⟨"build", by decide, by decide⟩
  simp only [recordedKeys, List.map_cons, List.cons.injEq, Option.isSome_eq_false_iff,
    Option.isNone_iff_eq_none] at hloads
  exact ⟨t, t', w, r, _, ht, ht', hw, hanswers, hkey, by decide, hloads.2.2.1⟩

end TargetSession

end Wheelwright
