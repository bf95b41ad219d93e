/-
  Sharing a state file — several stores opened on the same place.

  **Specification** — any number of instances of a store are opened on one state file, at any time, and calls are made on
  them in any order (`Shared.follow`).  The map of each instance is the one that it was opened with, changed by its own
  calls; and the state file is opened as the map of the instance that has written it last (`Sound.follow`).

  **Program** — an instance reads the state file when it is opened and never again: every change rewrites the whole file
  from the instance's own records.

  **The crux** — so an instance knows the changes of others only up to the moment when it was opened.  If every call is
  made on an instance that is `current` — it has been opened since the last write, or has made it — the file holds what
  all calls, one after the other, make of the first map.  Otherwise a record may be lost, and one that was forgotten may
  come back (`lost_and_returned`).
-/
import Wheelwright.Proofs.Store.Persistence

namespace Wheelwright.FingerprintStore

open FileTree Course

/-- The call rewrites the state file: nothing is written if there is nothing to forget. -/
def writes (s : FingerprintStore) : Call → Bool
  | .record .. => true
  | .forget start => s.records.length - (s.records.withoutStart start).length ≠ 0

/-! ## Instances

  Instances with the files that they share.  The books beside each of them, with what it was opened with and which
  calls were made on it, are read by no function of the program. -/

/-- An instance of a store, the map that it was opened with, and the calls that were made on it. -/
structure Instance where
  /-- Its store, with the records that it knows. -/
  store : FingerprintStore
  /-- What it could load when it was opened. -/
  opened : String → Option FingerprintRecord
  /-- The calls that were made on it. -/
  calls : List Call := []

/-- An instance whose map is what its own calls have made of the one it was opened with. -/
structure Instance.Sound (p : Path) (i : Instance) : Prop where
  /-- All instances have the same state file. -/
  stateFile : i.store.stateFile = some p
  records : i.store.records.IsTable
  /-- An instance loads what its own calls make of what it was opened with. -/
  loads : i.store.load = applied i.opened i.calls

/-- The files, and the instances that were opened on the state file. -/
structure Shared where
  /-- The files. -/
  tree : FileTree
  /-- The instances by their numbers. -/
  instances : List Instance := []
  /-- The instance that has written the state file last. -/
  writer : Option Nat := none
  /-- The instances that have been opened since, and the one that has written. -/
  current : List Nat := []
  /-- All calls, in their order. -/
  calls : List Call := []
  /-- The calls that were made on an instance which did not know the last write. -/
  outdated : List Call := []

namespace Shared

/-- Another instance is opened, or a call is made on one of them. -/
inductive Event where
  /-- Another instance is opened. -/
  | opens
  /-- A call on an instance, which succeeds. -/
  | calls (who : Nat) (call : Call)

variable {p : Path} {s s' disk : FingerprintStore} {t t' : FileTree} {c c' : Shared} {call : Call} {who : Nat} {i : Instance}
  {m : String → Option FingerprintRecord}

/-- The state after an instance was opened. -/
def opening (c : Shared) (s : FingerprintStore) : Shared :=
  { c with
    instances := c.instances ++ [{ store := s, opened := s.load }]
    current := c.current ++ [c.instances.length] }

/-- The state after a call on an instance has left a store and a tree. -/
def calling (c : Shared) (who : Nat) (i : Instance) (call : Call) (s : FingerprintStore) (t : FileTree) : Shared :=
  { tree := t
    instances := c.instances.set who { i with store := s, calls := i.calls ++ [call] }
    writer := if i.store.writes call then some who else c.writer
    current := if i.store.writes call then [who] else c.current
    calls := c.calls ++ [call]
    outdated := if who ∈ c.current then c.outdated else c.outdated ++ [call] }

/-- What comes of an event, if it succeeds. -/
def happen (p : Path) (c : Shared) : Event → Option Shared
  | .opens =>
    match openFile p c.tree with
    | .ok s => some (c.opening s)
    | .error _ => none
  | .calls who call => do
    let i ← c.instances[who]?
    match i.store.perform .steps c.tree call with
    | (s, t, none) => some (c.calling who i call s t)
    | (_, _, some _) => none

/-- What comes of events that all succeed. -/
def follow (p : Path) (c : Shared) (events : List Event) : Option Shared := events.foldlM (happen p) c

/-! ## One call

  One call changes one instance and maybe the file, and the other instances do not hear of it. -/

/-- What a call on an instance leaves: it holds the changed records, and so does the state file if the call writes. -/
theorem perform_spec (hfile : s.stateFile = some p) (hrecords : s.records.IsTable) (hkept : Kept p disk t)
    (h : s.perform .steps t call = (s', t', none)) :
    s' = { s with records := call.change s.records } ∧
      (s.writes call = true ∧ Kept p s' t' ∨ s.writes call = false ∧ s' = s ∧ t' = t) := by
  -- a write of records in place of those of the store
  have hwritten {records : RecordTable} (htable : records.IsTable)
      (hreplace : s.replaceBy .steps records t = (s', t', none)) : s' = { s with records } ∧ Kept p s' t' := by
    rw [replaceBy, hfile] at hreplace
    dsimp only at hreplace
    rcases htaken : Writer.steps p records t with ⟨u, _ | e⟩
    · rw [htaken] at hreplace
      cases hreplace
      obtain ⟨hfits, hopen⟩ := hkept.fits.written hkept.opened htable htaken
      exact ⟨by rw [hfile], hfits, hopen⟩
    · rw [htaken] at hreplace
      cases hreplace
  have htable := call.isTable_change hrecords
  -- a call to forget writes only if there is something to forget
  cases call with
  | record key fingerprint now =>
    obtain ⟨hs, hkept'⟩ := hwritten htable h
    exact ⟨hs, Or.inl ⟨rfl, hkept'⟩⟩
  | forget start =>
    rw [FingerprintStore.perform] at h
    split at h
    · rename_i hlength
      cases h
      refine ⟨?_, Or.inr ⟨decide_eq_false (not_not.mpr hlength), rfl, rfl⟩⟩
      rw [Call.change, withoutStart_eq_of_length hlength]
    · rename_i hlength
      obtain ⟨hs, hkept'⟩ := hwritten htable h
      exact ⟨hs, Or.inl ⟨decide_eq_true hlength, hkept'⟩⟩

/-! ## Histories

  The file holds the map of its last writer.  If no write has been made by an instance that did not know the file's
  content, that is what all the calls make of the first map. -/

/-- The state file is opened as `disk`: the map of the instance that has written it last, and what all calls have made
    of the first map if each was made on a current instance. -/
structure Sound (p : Path) (m : String → Option FingerprintRecord) (disk : FingerprintStore) (c : Shared) : Prop where
  /-- The state file is opened as this store. -/
  kept : Kept p disk c.tree
  instances : ∀ i ∈ c.instances, i.Sound p
  /-- Before the first write the file is as it was found. -/
  unwritten : c.writer = none → disk.load = m
  /-- After it the file holds what its last writer knows. -/
  written : ∀ who, c.writer = some who → ∃ i, c.instances[who]? = some i ∧ disk.load = i.store.load
  /-- All instances that are current know what the file holds. -/
  current : ∀ who ∈ c.current, ∃ i, c.instances[who]? = some i ∧ disk.load = i.store.load
  /-- If none was outdated, all calls together have made the file. -/
  applied : c.outdated = [] → disk.load = Course.applied m c.calls

/-- With no instances, the file is as it was found. -/
theorem Sound.start (hfits : Fits p t) (hopen : openFile p t = .ok s) : Sound p s.load s { tree := t } :=
  ⟨⟨hfits, hopen⟩, nofun, fun _ => rfl, nofun, nofun, fun _ => rfl⟩

/-- Another instance can always be opened. -/
theorem Sound.opens (h : Sound p m disk c) : ∃ c', c.happen p .opens = some c' ∧ Sound p m disk c' := by
  obtain ⟨hfile, htable⟩ := stateFile_of_openFile h.kept.opened
  -- the instances that were there keep their numbers
  have hkeep {who : Nat} {i : Instance} (hi : c.instances[who]? = some i) :
      (c.opening disk).instances[who]? = some i := by
    rw [opening, List.getElem?_append_left (List.getElem?_eq_some_iff.mp hi).1]
    exact hi
  refine ⟨c.opening disk, by rw [happen, h.kept.opened], h.kept, fun i hi => ?_, h.unwritten, fun who hwho => ?_,
    fun who hwho => ?_, h.applied⟩
  · rcases List.mem_append.mp hi with hi | hi
    · exact h.instances i hi
    · rw [List.mem_singleton.mp hi]
      exact ⟨hfile, htable, rfl⟩
  · obtain ⟨i, hi, hload⟩ := h.written who hwho
    exact ⟨i, hkeep hi, hload⟩
  · rcases List.mem_append.mp hwho with hwho | hwho
    · obtain ⟨i, hi, hload⟩ := h.current who hwho
      exact ⟨i, hkeep hi, hload⟩
    · rw [List.mem_singleton.mp hwho]
      exact ⟨_, List.getElem?_concat_length, rfl⟩

/-- The instance that was called. -/
theorem getElem?_calling (hi : c.instances[who]? = some i) : (c.calling who i call s t).instances[who]? =
    some { i with store := s, calls := i.calls ++ [call] } := by
  rw [calling, List.getElem?_set_self (List.getElem?_eq_some_iff.mp hi).1]

/-- A call that changes no store leaves every instance its own. -/
theorem exists_calling (hi : c.instances[who]? = some i) {who' : Nat} {j : Instance}
    (hj : c.instances[who']? = some j) :
    ∃ k, (c.calling who i call i.store c.tree).instances[who']? = some k ∧ k.store = j.store := by
  by_cases hwho : who = who'
  · subst hwho
    obtain rfl : i = j := Option.some.inj (hi.symm.trans hj)
    exact ⟨_, getElem?_calling hi, rfl⟩
  · refine ⟨j, ?_, rfl⟩
    rw [calling, List.getElem?_set_ne hwho]
    exact hj

/-- An instance loads after a call what the call makes of what it loaded before. -/
theorem load_of_change (hs : s = { i.store with records := call.change i.store.records }) :
    s.load = call.apply i.store.load := by
  rw [hs]
  exact call.lookup_change i.store.records

/-- After a call all instances are as they should be. -/
theorem Sound.instances_calling (h : Sound p m disk c) (hi : c.instances[who]? = some i)
    (hs : s = { i.store with records := call.change i.store.records }) :
    ∀ j ∈ (c.calling who i call s t).instances, j.Sound p := by
  intro j hj
  rcases List.mem_or_eq_of_mem_set hj with hj | rfl
  · exact h.instances j hj
  · have hsound := h.instances i (List.mem_of_getElem? hi)
    refine ⟨by rw [hs]; exact hsound.stateFile, by rw [hs]; exact call.isTable_change hsound.records, ?_⟩
    rw [load_of_change hs, hsound.loads]
    exact (List.foldl_concat ..).symm

/-- What all calls make of the first map, if this one was made on a current instance. -/
theorem Sound.applied_calling (h : Sound p m disk c) (hi : c.instances[who]? = some i)
    (hs : s = { i.store with records := call.change i.store.records })
    (houtdated : (c.calling who i call s t).outdated = []) :
    s.load = Course.applied m (c.calls ++ [call]) ∧ disk.load = i.store.load := by
  -- an instance that is not current would leave something behind
  have hcurrent : who ∈ c.current := by
    by_contra hnot
    rw [calling, if_neg hnot] at houtdated
    exact List.append_ne_nil_of_right_ne_nil _ (List.cons_ne_nil _ _) houtdated
  rw [calling, if_pos hcurrent] at houtdated
  obtain ⟨j, hj, hdisk⟩ := h.current who hcurrent
  obtain rfl : i = j := Option.some.inj (hi.symm.trans hj)
  refine ⟨?_, hdisk⟩
  rw [load_of_change hs, ← hdisk, h.applied houtdated]
  exact (List.foldl_concat ..).symm

/-- A call that succeeds leaves a state file that is opened as before, or as the store of the instance. -/
theorem Sound.calls (h : Sound p m disk c) (hi : c.instances[who]? = some i)
    (hperform : i.store.perform .steps c.tree call = (s, t, none)) :
    ∃ disk', Sound p m disk' (c.calling who i call s t) := by
  have hsound := h.instances i (List.mem_of_getElem? hi)
  obtain ⟨hs, hcases⟩ := perform_spec hsound.stateFile hsound.records h.kept hperform
  have hinstances := h.instances_calling (t := t) hi hs
  -- a call that writes makes its instance the only current one; any other changes nothing
  rcases hcases with ⟨hwrites, hkept⟩ | ⟨hwrites, rfl, rfl⟩
  · have hwriter : (c.calling who i call s t).writer = some who := if_pos hwrites
    have hcurrent : (c.calling who i call s t).current = [who] := if_pos hwrites
    refine ⟨s, hkept, hinstances, fun hnone => ?_, fun who' hwho => ?_, fun who' hwho => ?_,
      fun hout => (h.applied_calling hi hs hout).1⟩
    · rw [hwriter] at hnone
      cases hnone
    · rw [hwriter] at hwho
      cases hwho
      exact ⟨_, getElem?_calling hi, rfl⟩
    · rw [hcurrent] at hwho
      rw [List.mem_singleton.mp hwho]
      exact ⟨_, getElem?_calling hi, rfl⟩
  · have hwriter : (c.calling who i call i.store c.tree).writer = c.writer := if_neg (by rw [hwrites]; nofun)
    have hcurrent : (c.calling who i call i.store c.tree).current = c.current := if_neg (by rw [hwrites]; nofun)
    refine ⟨disk, h.kept, hinstances, fun hnone => h.unwritten (hwriter ▸ hnone), fun who' hwho => ?_,
      fun who' hwho => ?_, fun hout => ?_⟩
    · obtain ⟨j, hj, hdisk⟩ := h.written who' (hwriter ▸ hwho)
      obtain ⟨k, hk, hstore⟩ := exists_calling hi hj
      exact ⟨k, hk, by rw [hstore, hdisk]⟩
    · obtain ⟨j, hj, hdisk⟩ := h.current who' (hcurrent ▸ hwho)
      obtain ⟨k, hk, hstore⟩ := exists_calling hi hj
      exact ⟨k, hk, by rw [hstore, hdisk]⟩
    · obtain ⟨happlied, hdisk⟩ := h.applied_calling hi hs hout
      exact hdisk.trans happlied

/-- An event leaves the instances and the file in this relation. -/
theorem Sound.happen {e : Event} (h : Sound p m disk c) (he : c.happen p e = some c') : ∃ disk', Sound p m disk' c' := by
  -- another instance is opened, or one that there is makes a call
  cases e with
  | opens =>
    obtain ⟨next, hnext, hsound⟩ := h.opens
    rw [hnext] at he
    cases he
    exact ⟨disk, hsound⟩
  | calls who call =>
    rw [Shared.happen] at he
    obtain ⟨i, hi, he⟩ := Option.bind_eq_some_iff.mp he
    split at he
    · rename_i s t hperform
      cases he
      exact h.calls hi hperform
    · cases he

/-- Any number of events does. -/
theorem Sound.follow {events : List Event} (h : Sound p m disk c) (hfollow : c.follow p events = some c') :
    ∃ disk', Sound p m disk' c' := by
  induction events generalizing c disk with
  | nil =>
    cases hfollow
    exact ⟨disk, h⟩
  | cons e rest ih =>
    rw [Shared.follow, List.foldlM_cons] at hfollow
    obtain ⟨next, hnext, hrest⟩ := Option.bind_eq_some_iff.mp hfollow
    obtain ⟨disk', hsound⟩ := h.happen hnext
    exact ih hsound hrest

/-- **A shared state file is reopened as the map of its last writer**: of any events that succeed, each instance has the
    map that it was opened with, changed by its own calls; the state file is opened with that of the instance that has
    written it last, or with the first one; and this is the first map changed by all calls in their order, if each of
    them was made on an instance that had been opened since the last write or had made it. -/
theorem reopened_of_follow {events : List Event} (hfits : Fits p t) (hopen : openFile p t = .ok s)
    (h : follow p { tree := t } events = some c) :
    ∃ disk, openFile p c.tree = .ok disk ∧ (∀ i ∈ c.instances, i.store.load = applied i.opened i.calls) ∧
      (c.writer = none → disk.load = s.load) ∧
      (∀ who, c.writer = some who → ∃ i, c.instances[who]? = some i ∧ disk.load = applied i.opened i.calls) ∧
      (c.outdated = [] → disk.load = applied s.load c.calls) := by
  obtain ⟨disk, hsound⟩ := (Sound.start hfits hopen).follow h
  refine ⟨disk, hsound.kept.opened, fun i hi => (hsound.instances i hi).loads, hsound.unwritten, fun who hwho => ?_,
    hsound.applied⟩
  obtain ⟨i, hi, hload⟩ := hsound.written who hwho
  exact ⟨i, hi, hload.trans (hsound.instances i (List.mem_of_getElem? hi)).loads⟩

/-- Two instances, of which one has nothing to forget before the other writes. -/
def inTurn : List Event :=
  [.opens, .opens, .calls 1 (.forget "k"), .calls 0 (.record "k" "f" noon), .calls 0 (.record "l" "g" noon),
    .calls 0 (.forget "k")]

/-- Without a file the store is empty. -/
theorem openFile_empty : openFile ⟨"s.json"⟩ {} = .ok { stateFile := some ⟨"s.json"⟩ } :=
  openFile_missing (by decide +kernel)

/-- Here all calls have been made in turn, and the second forget has been carried out. -/
theorem reopened_inTurn : ∃ c disk, follow ⟨"s.json"⟩ { tree := {} } inTurn = some c ∧
    openFile ⟨"s.json"⟩ c.tree = .ok disk ∧ c.outdated = [] ∧ disk.load "k" = none ∧
    disk.load "l" = some ⟨"g", noon⟩ := by
  have heval : (follow ⟨"s.json"⟩ { tree := {} } inTurn).map (fun c => (c.outdated.length, applied (fun _ => none) c.calls "k",
      applied (fun _ => none) c.calls "l")) = some (0, none, some ⟨"g", noon⟩) := by decide +kernel
  obtain ⟨c, hfollow, hc⟩ := Option.map_eq_some_iff.mp heval
  obtain ⟨houtdated, hk, hl⟩ : c.outdated.length = 0 ∧ applied (fun _ => none) c.calls "k" = none ∧
      applied (fun _ => none) c.calls "l" = some ⟨"g", noon⟩ := by
    simpa only [Prod.mk.injEq] using hc
  obtain ⟨disk, hdisk, -, -, -, happlied⟩ := reopened_of_follow fits_empty openFile_empty hfollow
  have hload := happlied (List.length_eq_zero_iff.mp houtdated)
  exact ⟨c, disk, hfollow, hdisk, List.length_eq_zero_iff.mp houtdated, (congrFun hload "k").trans hk,
    (congrFun hload "l").trans hl⟩

/-! ## Calls on instances that are not current

  And if one has, a record may get lost and a forgotten one may return. -/

/-- The first instance records a key, and then the second one another. -/
def raced : List Event := [.opens, .opens, .calls 0 (.record "k" "f" noon), .calls 1 (.record "l" "g" noon)]

/-- Both instances record a key, the first one forgets it, and then the second one records another. -/
def returned : List Event :=
  [.opens, .opens, .calls 0 (.record "k" "f" noon), .calls 1 (.record "k" "f" noon), .calls 0 (.forget "k"),
    .calls 1 (.record "l" "g" noon)]

/-- What the last writer holds under a key is what the state file is opened with. -/
theorem load_of_writer {events : List Event} {key : String} {found all : Option FingerprintRecord} (hfits : Fits p t)
    (hopen : openFile p t = .ok s)
    (h : ((follow p { tree := t } events).bind fun c => c.writer.bind fun who => c.instances[who]?.map fun i =>
      (i.store.load key, applied s.load c.calls key)) = some (found, all)) :
    ∃ c disk, follow p { tree := t } events = some c ∧ openFile p c.tree = .ok disk ∧ disk.load key = found ∧
      applied s.load c.calls key = all := by
  obtain ⟨c, hfollow, hc⟩ := Option.bind_eq_some_iff.mp h
  obtain ⟨who, hwho, hinstance⟩ := Option.bind_eq_some_iff.mp hc
  obtain ⟨i, hi, heval⟩ := Option.map_eq_some_iff.mp hinstance
  obtain ⟨disk, hsound⟩ := (Sound.start hfits hopen).follow hfollow
  obtain ⟨j, hj, hload⟩ := hsound.written who hwho
  obtain rfl : i = j := Option.some.inj (hi.symm.trans hj)
  exact ⟨c, disk, hfollow, hsound.kept.opened, (congrFun hload key).trans (congrArg Prod.fst heval),
    congrArg Prod.snd heval⟩

/-- **A record is lost, and one that was forgotten comes back**, when calls are made on an instance that does not know
    the last write: the state file is reopened without the one and with the other, whatever all calls would make of it. -/
theorem lost_and_returned :
    (∃ c disk, follow ⟨"s.json"⟩ { tree := {} } raced = some c ∧ openFile ⟨"s.json"⟩ c.tree = .ok disk ∧
      disk.load "k" = none ∧ applied (fun _ => none) c.calls "k" = some ⟨"f", noon⟩) ∧
    ∃ c disk, follow ⟨"s.json"⟩ { tree := {} } returned = some c ∧ openFile ⟨"s.json"⟩ c.tree = .ok disk ∧
      disk.load "k" = some ⟨"f", noon⟩ ∧ applied (fun _ => none) c.calls "k" = none :=
  ⟨load_of_writer fits_empty openFile_empty (by decide +kernel),
    load_of_writer fits_empty openFile_empty (by decide +kernel)⟩

end Shared

end Wheelwright.FingerprintStore
