/-
  Admission — who is still served once a target is closed.

  **Specification** — after a call that closes has returned, a call to build or to clean that had not been let in yet
  returns that the target is closed; so does a build that was waiting for its turn.  No clean begins or forgets
  anything but one that was at work by then, or one that was waiting.

  **Program** — a call asks whether the target is open when it comes in.  A build asks once more when it is served, a
  clean does not (`cleans_after_closing`).

  **The crux** — from the state in which it is closed on, whoever waits has waited then, and whoever is served was
  served or waiting then (`Entitled`).
-/
import Wheelwright.Proofs.Target.Cleaning
import Wheelwright.Proofs.Target.Closing

namespace Wheelwright

/-- The call neither builds nor cleans. -/
def ClientCall.isAside : ClientCall → Bool
  | .asks _ | .waits _ | .served | .returned _ => false
  | .invalidates _ | .cancels _ _ | .cancelled _ _ | .closes | .unregisters | .closed _ => true

/-- The call has closed the target, or found it closed. -/
def ClientCall.isClosing : ClientCall → Bool
  | .unregisters | .closed _ => true
  | _ => false

/-- A build has found the target open for the second time. -/
def Service.isBuilding : Service → Bool
  | .admitted _ | .cleans => false
  | _ => true

namespace Clients

variable {s s' u : Clients} {e : Event} {i j time : Nat} {c : ClientCall} {v : Service} {kind : TargetCall}
  {error : Option BuildError}

/-! ## What a step does to the calls

  A call that is not served goes on by itself, and the one that is served goes on under the run lock.  The two
  relations say what each of them needs and leaves, up to the flag of the target. -/

/-- How a call goes on that is not served. -/
inductive Proceeds (s : Clients) (i : Nat) (u : Clients) : ClientCall → Prop
  /-- A call that finds the target closed returns. -/
  | refused {kind : TargetCall} (hclosed : s.target.closed = true)
      (hcalls : u.calls = s.calls.set i (.returned (some .closed))) (hserved : u.served = s.served) :
      Proceeds s i u (.asks kind)
  /-- A call that finds it open waits for its turn. -/
  | queued {kind : TargetCall} (hopen : s.target.closed = false) (hcalls : u.calls = s.calls.set i (.waits kind))
      (hserved : u.served = s.served) : Proceeds s i u (.asks kind)
  /-- A call that waits is let in when nobody else is. -/
  | admitted {kind : TargetCall} (hfree : s.served = none) (hcalls : u.calls = s.calls.set i .served)
      (hserved : u.served = some (i, .admitted kind)) : Proceeds s i u (.waits kind)
  /-- A call of another kind goes on by itself. -/
  | aside {c c' : ClientCall} (hc : c.isAside = true) (hc' : c'.isAside = true)
      (hclosing : c'.isClosing = true → u.target.closed = true ∨ c.isClosing = true)
      (hcalls : u.calls = s.calls.set i c') (hserved : u.served = s.served) : Proceeds s i u c

/-- Every call that goes on does so in one of these ways. -/
theorem proceeds (hp : s.proceed i c = some u) : Proceeds s i u c := by
  -- the kind of the call says where the code goes on, and its tests which way
  cases c with
  | asks kind =>
    rw [proceed] at hp
    split at hp <;> cases hp
    · rename_i hclosed
      exact .refused hclosed rfl rfl
    · rename_i hopen
      exact .queued (Bool.not_eq_true _ ▸ hopen) rfl rfl
  | waits kind =>
    rw [proceed] at hp
    split at hp <;> cases hp
    rename_i hfree
    exact .admitted (Option.not_isSome_iff_eq_none.mp hfree) rfl rfl
  | closes =>
    rw [proceed] at hp
    split at hp <;> cases hp
    · rename_i hclosed
      exact .aside rfl rfl (fun _ => Or.inl hclosed) rfl rfl
    · exact .aside rfl rfl (fun _ => Or.inl rfl) rfl rfl
  | cancels reason stored =>
    rw [proceed] at hp
    split at hp <;> cases hp
    exact .aside rfl rfl (fun h => by cases h) rfl rfl
  | unregisters =>
    rw [proceed] at hp
    split at hp <;> cases hp
    exact .aside rfl rfl (fun _ => Or.inr rfl) rfl rfl
  | invalidates reason =>
    cases hp
    exact .aside rfl rfl (fun h => by cases h) rfl rfl
  | served | returned _ | cancelled _ _ | closed _ => cases hp

/-- How the call goes on that is served. -/
inductive GoesOn (s : Clients) (i : Nat) (u : Clients) : Service → Prop
  /-- A build that was let in may still find the target closed. -/
  | refused (hclosed : s.target.closed = true) (hcalls : u.calls = s.calls.set i (.returned (some .closed)))
      (hserved : u.served = none) : GoesOn s i u (.admitted .build)
  /-- A build that finds it open begins. -/
  | opened {v : Service} (hopen : s.target.closed = false) (hv : v.isBuilding = true) (hcalls : u.calls = s.calls)
      (hserved : u.served = some (i, v)) : GoesOn s i u (.admitted .build)
  /-- A clean begins without looking again. -/
  | begins (hcalls : u.calls = s.calls) (hserved : u.served = some (i, .cleans)) : GoesOn s i u (.admitted .clean)
  /-- A build goes on as a build. -/
  | builds {v v' : Service} (hv : v.isBuilding = true) (hv' : v'.isBuilding = true) (hcalls : u.calls = s.calls)
      (hserved : u.served = some (i, v')) : GoesOn s i u v
  /-- Anything else that is served may return. -/
  | leaves {v : Service} {error : Option BuildError} (hv : v ≠ .admitted .build)
      (hcalls : u.calls = s.calls.set i (.returned error)) (hserved : u.served = none) : GoesOn s i u v

/-- Every service goes on in one of these ways. -/
theorem goesOn (s : Clients) (i : Nat) (v : Service) : GoesOn s i (s.serve i v) v := by
  -- on the stage that the service is at: its steps in their order
  cases v with
  | admitted kind =>
    cases kind with
    | build =>
      rw [serve]
      split
      · rename_i hclosed
        exact .refused hclosed rfl rfl
      · rename_i hopen
        exact .opened (v := .opened s.forest.create.2) (Bool.not_eq_true _ ▸ hopen) rfl rfl rfl
    | clean =>
      rw [serve]
      split
      · exact .leaves (by simp) rfl rfl
      · exact .begins rfl rfl
  | opened token =>
    rw [serve]
    split
    · exact .leaves (by simp) rfl rfl
    · exact .builds rfl rfl rfl rfl
  | plans token began =>
    rw [serve]
    split <;> exact .builds rfl rfl rfl rfl
  | locked token project =>
    have hv : (s.afterFlag token project).isBuilding = true := by
      rcases s.afterFlag_cases token project with hplans | hready
      · rw [hplans]
        rfl
      · rw [hready]
        rfl
    exact .builds rfl hv rfl rfl
  | loaded | planned | ready | armed => exact .builds rfl rfl rfl rfl
  | refused e => exact .leaves (by simp) rfl rfl
  | runs token => exact .leaves (by simp) rfl rfl
  | cleans => exact .leaves (by simp) rfl rfl

/-! ## Who is served, and who has closed

  Who holds the run lock is known to the call itself, and a call that has closed the target has left the flag set. -/

/-- The call that holds the run lock says so. -/
def Seated (s : Clients) : Prop := ∀ i v, s.served = some (i, v) → s.calls[i]? = some .served

/-- The calls after one of them was changed. -/
theorem getElem?_set_of_calls {l : List ClientCall} {c c' : ClientCall} (h : l[i]? = some c) :
    (l.set i c')[j]? = if i = j then some c' else l[j]? := by
  rw [List.getElem?_set]
  obtain ⟨hlt, -⟩ := List.getElem?_eq_some_iff.mp h
  rw [if_pos hlt]

/-- A step leaves it so. -/
theorem Seated.step (h : Seated s) (hstep : s.step e = some s') : Seated s' := by
  -- a call is made, a call goes on, or the one that is served does
  refine holds_of_step (P := Seated) hstep ?_ ?_ ?_ fun _ _ _ => h
  · intro d j v hserved
    have hold := h j v hserved
    exact (List.getElem?_append_left (List.getElem?_eq_some_iff.mp hold).1).trans hold
  · intro i c u hcall hp j v hserved
    -- the call that goes on is not the one that is served
    have hother (hne : c ≠ .served) (hold : s.served = some (j, v)) : i ≠ j := by
      rintro rfl
      exact hne (Option.some.inj (hcall.symm.trans (h i v hold)))
    have hset {c' : ClientCall} (hcalls : u.calls = s.calls.set i c') (hsame : u.served = s.served)
        (hne : c ≠ .served) : u.calls[j]? = some .served := by
      have hold : s.served = some (j, v) := hsame ▸ hserved
      rw [hcalls, getElem?_set_of_calls hcall, if_neg (hother hne hold)]
      exact h j v hold
    cases proceeds hp with
    | refused _ hcalls hsame | queued _ hcalls hsame => exact hset hcalls hsame (by simp)
    | aside hc _ _ hcalls hsame => exact hset hcalls hsame (by rintro rfl; cases hc)
    | admitted _ hcalls hnew =>
      obtain ⟨rfl, -⟩ := Prod.mk.inj (Option.some.inj (hnew.symm.trans hserved))
      show u.calls[i]? = some .served
      rw [hcalls, getElem?_set_of_calls hcall, if_pos rfl]
  · intro i v hserved j v' hserved'
    have hgoes := goesOn s i v
    show (s.serve i v).calls[j]? = some .served
    have hstays {w : Service} (hcalls : (s.serve i v).calls = s.calls) (hnew : (s.serve i v).served = some (i, w)) :
        (s.serve i v).calls[j]? = some .served := by
      obtain ⟨rfl, -⟩ := Prod.mk.inj (Option.some.inj (hnew.symm.trans hserved'))
      rw [hcalls]
      exact h i v hserved
    have hleft (hnone : (s.serve i v).served = none) : (s.serve i v).calls[j]? = some .served := by
      rw [show (s.serve i v).served = some (j, v') from hserved'] at hnone
      cases hnone
    generalize hu : s.serve i v = u at hgoes hstays hleft ⊢
    cases hgoes with
    | refused _ _ hnone | leaves _ _ hnone => exact hleft hnone
    | opened _ _ hcalls hnew | begins hcalls hnew | builds _ _ hcalls hnew => exact hstays hcalls hnew

/-- A call that has closed the target, or has set the flag, has left it closed. -/
def Sealed (s : Clients) : Prop := ∀ c ∈ s.calls, c.isClosing = true → s.target.closed = true

/-- A step leaves the target closed for whoever has closed it. -/
theorem Sealed.step (h : Sealed s) (hstep : s.step e = some s') : Sealed s' := by
  refine holds_of_step (P := Sealed) hstep ?_ ?_ ?_ fun _ _ _ => h
  · intro d c hmem hclosing
    rcases List.mem_append.mp hmem with hold | hnew
    · exact h c hold hclosing
    · rw [List.mem_singleton.mp hnew] at hclosing
      cases d <;> cases hclosing
  · intro i c u hcall hp d hmem hclosing
    show u.target.closed = true
    have hset {c' : ClientCall} (hcalls : u.calls = s.calls.set i c')
        -- of the other calls it was known, and the one that has gone on has seen the flag itself
        (hc' : c'.isClosing = true → u.target.closed = true) : u.target.closed = true := by
      rcases List.mem_or_eq_of_mem_set (hcalls ▸ hmem) with hold | rfl
      · exact closed_proceed hp (h d hold hclosing)
      · exact hc' hclosing
    cases proceeds hp with
    | refused _ hcalls | queued _ hcalls | admitted _ hcalls => exact hset hcalls fun hc' => by cases hc'
    | aside _ _ hflag hcalls =>
      exact hset hcalls fun hc' => (hflag hc').elim id fun hold =>
        closed_proceed hp (h c (List.mem_of_getElem? hcall) hold)
  · intro i v _ c hmem hclosing
    show (s.serve i v).target.closed = true
    rw [closed_serve]
    rcases mem_calls_serve hmem with hold | ⟨error, rfl⟩
    · exact h c hold hclosing
    · cases hclosing

/-! ## After closing

  The state in which the target is closed is kept as a point of reference.  Whoever is served later was served or
  waiting then, so nobody is let in afterwards. -/

/-- The call has been let in, and nothing was done for it yet. -/
def InLine (s : Clients) (i : Nat) (kind : TargetCall) : Prop :=
  s.calls[i]? = some (.waits kind) ∨ s.served = some (i, .admitted kind)

/-- What gave a call that is served the right to be, when the target was closed. -/
def Entitled (u : Clients) (i : Nat) : Service → Prop
  | .admitted kind => u.InLine i kind
  | .cleans => u.InLine i .clean ∨ u.served = some (i, .cleans)
  | _ => ∃ v, v.isBuilding = true ∧ u.served = some (i, v)

/-- Who is at building is entitled if he was at building before. -/
theorem entitled_of_isBuilding (hv : v.isBuilding = true) :
    u.Entitled i v ↔ ∃ v, v.isBuilding = true ∧ u.served = some (i, v) := by
  cases v with
  | admitted | cleans => cases hv
  | _ => rfl

/-- What is left of the calls on a target since it was closed in the state `u`. -/
structure Shuttered (u s : Clients) : Prop where
  /-- The target stays closed. -/
  closed : s.target.closed = true
  /-- Who is served was entitled to it when the target was closed. -/
  served : ∀ i v, s.served = some (i, v) → u.Entitled i v
  /-- Who waits has waited since then. -/
  waits : ∀ (i : Nat) (kind : TargetCall), s.calls[i]? = some (.waits kind) → u.calls[i]? = some (.waits kind)
  /-- Who returns anything else was served before, or has waited to clean. -/
  returned : ∀ (i : Nat) (error : Option BuildError), s.calls[i]? = some (.returned error) → error = some .closed ∨
    u.calls[i]? = some (.returned error) ∨ ∃ v, v ≠ .admitted .build ∧ u.Entitled i v

namespace Shuttered

/-- This holds when the target was just closed. -/
theorem refl (hclosed : u.target.closed = true) : Shuttered u u where
  closed := hclosed
  served i v hserved := by
    cases v with
    | admitted kind => exact Or.inr hserved
    | cleans => exact Or.inr hserved
    | _ => exact ⟨_, rfl, hserved⟩
  waits _ _ h := h
  returned _ _ h := Or.inr (Or.inl h)

/-- A call has come to another point, where it neither waits nor returns but that the target is closed. -/
theorem withCall (h : Shuttered u s) (hclosed : s'.target.closed = true)
    (hserved : ∀ i v, s'.served = some (i, v) → u.Entitled i v) (hcall : s.calls[i]? = some c) {c' : ClientCall}
    (hcalls : s'.calls = s.calls.set i c') (hwaits : ∀ kind, c' ≠ .waits kind)
    (hreturned : ∀ error, c' = .returned error → error = some .closed ∨ ∃ v, v ≠ .admitted .build ∧ u.Entitled i v) :
    Shuttered u s' where
  closed := hclosed
  served := hserved
  -- only the one call has changed, and it neither waits nor has been admitted
  waits j kind hj := by
    rw [hcalls, getElem?_set_of_calls hcall] at hj
    split at hj
    · exact absurd (Option.some.inj hj) (hwaits kind)
    · exact h.waits j kind hj
  returned j error hj := by
    rw [hcalls, getElem?_set_of_calls hcall] at hj
    split at hj
    · rename_i heq
      exact heq ▸ (hreturned error (Option.some.inj hj)).imp_right Or.inr
    · exact h.returned j error hj

/-- The time does not matter. -/
theorem tick (h : Shuttered u s) : Shuttered u s.tick := ⟨h.closed, h.served, h.waits, h.returned⟩

/-- A new call is at its beginning. -/
theorem call (h : Shuttered u s) (d : Demand) : Shuttered u { s with calls := s.calls ++ [d.call] } := by
  have hnew {j : Nat} {c : ClientCall} (hj : (s.calls ++ [d.call])[j]? = some c) :
      -- a call that is new stands behind all the others
      s.calls[j]? = some c ∨ c = d.call := by
    rcases Nat.lt_or_ge j s.calls.length with hlt | hge
    · exact Or.inl ((List.getElem?_append_left hlt).symm.trans hj)
    · rw [List.getElem?_append_right hge] at hj
      exact Or.inr (List.mem_singleton.mp (List.mem_of_getElem? hj))
  refine ⟨h.closed, h.served, fun j kind hj => ?_, fun j error hj => ?_⟩
  · rcases hnew hj with hold | hdemand
    · exact h.waits j kind hold
    · cases d <;> cases hdemand
  · rcases hnew hj with hold | hdemand
    · exact h.returned j error hold
    · cases d <;> cases hdemand

/-- A call that goes on keeps to this. -/
theorem proceed (h : Shuttered u s) (hcall : s.calls[i]? = some c) (hp : s.proceed i c = some s') :
    Shuttered u s' := by
  have hclosed := closed_proceed hp h.closed
  cases proceeds hp with
  | refused _ hcalls hserved =>
    refine h.withCall hclosed (hserved ▸ h.served) hcall hcalls (by simp) fun error heq => ?_
    cases heq
    exact Or.inl rfl
  -- nobody comes to wait any more, as the target is closed
  | queued hopen =>
    rw [h.closed] at hopen
    cases hopen
  | admitted _ hcalls hserved =>
    refine h.withCall hclosed (fun j w hw => ?_) hcall hcalls (by simp) (by simp)
    rw [hserved] at hw
    cases hw
    exact Or.inl (h.waits i _ hcall)
  | aside _ hc' _ hcalls hserved =>
    refine h.withCall hclosed (hserved ▸ h.served) hcall hcalls ?_ ?_ <;>
      · rintro x rfl
        cases hc'

/-- Whoever is served keeps to this. -/
theorem serve (h : Shuttered u s) (hseated : Seated s) (hserved : s.served = some (i, v)) :
    Shuttered u (s.serve i v) := by
  have hclosed : (s.serve i v).target.closed = true := closed_serve.trans h.closed
  have hentitled := h.served i v hserved
  -- the call goes on, or it returns
  have hstays {w : Service} (hcalls : (s.serve i v).calls = s.calls) (hnew : (s.serve i v).served = some (i, w))
      (hw : u.Entitled i w) : Shuttered u (s.serve i v) := by
    refine ⟨hclosed, fun j x hx => ?_, ?_, ?_⟩
    · rw [hnew] at hx
      cases hx
      exact hw
    · rw [hcalls]
      exact h.waits
    · rw [hcalls]
      exact h.returned
  have hleaves {error : Option BuildError} (hcalls : (s.serve i v).calls = s.calls.set i (.returned error))
      (hnone : (s.serve i v).served = none)
      (herror : error = some .closed ∨ ∃ v, v ≠ .admitted .build ∧ u.Entitled i v) : Shuttered u (s.serve i v) := by
    refine h.withCall hclosed (fun j x hx => ?_) (hseated i v hserved) hcalls (by simp) fun error' heq => ?_
    · rw [hnone] at hx
      cases hx
    · cases heq
      exact herror
  have hgoes := goesOn s i v
  generalize s.serve i v = s' at *
  cases hgoes with
  -- only a build that was in before the target was closed goes on as one
  | refused _ hcalls hnone => exact hleaves hcalls hnone (Or.inl rfl)
  | opened hopen =>
    rw [h.closed] at hopen
    cases hopen
  | begins hcalls hnew => exact hstays hcalls hnew (Or.inl hentitled)
  | builds hv hv' hcalls hnew =>
    exact hstays hcalls hnew ((entitled_of_isBuilding hv').mpr ((entitled_of_isBuilding hv).mp hentitled))
  | leaves hv hcalls hnone => exact hleaves hcalls hnone (Or.inr ⟨v, hv, hentitled⟩)

/-- **Every step after the target was closed.** -/
theorem step (h : Shuttered u s) (hseated : Seated s) (hstep : s.step e = some s') : Shuttered u s' :=
  holds_of_step hstep (fun d => (h.call d).tick) (fun hcall hp => (h.proceed hcall hp).tick)
    (fun hserved => (h.serve hseated hserved).tick) fun _ _ _ => ⟨h.closed, h.served, h.waits, h.returned⟩

end Shuttered

/-! ## The main result

  By cases on where a call stood when the target was closed.  A build that waited finds it closed at its second look;
  for a clean there is no second look. -/

section Main

variable {config : TargetConfig} {file : Path} {services : TargetServices}

/-- Who was neither waiting nor served is not served later. -/
theorem not_entitled (hseated : Seated u) (hwaits : ∀ kind, u.calls[j]? ≠ some (.waits kind))
    (hserved : u.calls[j]? ≠ some .served) : ¬ u.Entitled j v := by
  have hnot (v : Service) : u.served ≠ some (j, v) := fun h => hserved (hseated j v h)
  have hline (kind : TargetCall) : ¬ u.InLine j kind := fun h => h.elim (hwaits kind) (hnot _)
  intro h
  cases v with
  | admitted kind => exact hline kind h
  | cleans => exact h.elim (hline _) (hnot _)
  | _ =>
    obtain ⟨v, -, hv⟩ := h
    exact hnot v hv

/-- Who was waiting to build is let in, and no further. -/
theorem eq_admitted_of_entitled (hseated : Seated u) (hwaits : u.calls[j]? = some (.waits .build))
    (h : u.Entitled j v) : v = .admitted .build := by
  -- what is served is not the build, for that one still waits
  have hnot (v : Service) : u.served ≠ some (j, v) := by
    intro hserved
    have hsame := hwaits.symm.trans (hseated j v hserved)
    cases hsame
  have hline {kind : TargetCall} (hin : u.InLine j kind) : kind = .build := by
    have hsame := hwaits.symm.trans (hin.resolve_right (hnot _))
    cases hsame
    rfl
  cases v with
  | admitted kind => rw [hline h]
  | cleans => cases hline (h.resolve_right (hnot _))
  | _ =>
    obtain ⟨v, -, hv⟩ := h
    exact absurd hv (hnot v)

/-- A call that finds the target closed returns by its next step. -/
theorem turned_away (hclosed : s.target.closed = true) (hj : s.calls[j]? = some (.asks kind)) :
    ∃ s', s.step (.go j) = some s' ∧ s'.calls[j]? = some (.returned (some .closed)) := by
  obtain ⟨hlt, -⟩ := List.getElem?_eq_some_iff.mp hj
  refine ⟨(s.withCall j (.returned (some .closed))).tick, ?_, List.getElem?_set_self hlt⟩
  rw [Clients.step, act, hj, Option.bind_some, Clients.proceed, if_pos hclosed]
  rfl

/-- A build that has waited finds it closed as well, once it has the run lock. -/
theorem turned_away_in_turn (hclosed : s.target.closed = true) (hj : s.calls[j]? = some (.waits .build))
    (hfree : s.served = none) :
    ∃ s', s.follow [.go j, .serve] = some s' ∧ s'.calls[j]? = some (.returned (some .closed)) := by
  obtain ⟨hlt, -⟩ := List.getElem?_eq_some_iff.mp hj
  let s₁ := ((s.withCall j .served).withService j (.admitted .build)).tick
  have hgo : s.step (.go j) = some s₁ := by
    rw [Clients.step, act, hj, Option.bind_some, Clients.proceed, hfree]
    rfl
  refine ⟨_, follow_cons.mpr ⟨s₁, hgo, follow_cons.mpr ⟨_, step_serve rfl, rfl⟩⟩, ?_⟩
  show (s₁.serve j (.admitted .build)).calls[j]? = _
  rw [Clients.serve, if_pos (show s₁.target.closed = true from hclosed)]
  refine List.getElem?_set_self (?_ : j < (s.calls.set j .served).length)
  rw [List.length_set]
  exact hlt

/-- **A closed target turns calls away,** but for a clean that was waiting.  Let a call that closes have returned, among
    any calls.  From then on no clean is at work but one that was at work then or was let in before.  A call to build
    or to clean that had not been let in is not served; when it returns, it is since the target is closed, and it does
    so by its next step.  A build that was waiting gets no further than its turn, and returns the same when the run lock
    is free. -/
theorem closed_turns_calls_away {tree : FileTree} {host : HostGraph} {forest : Forest} {s₀ : Clients}
    {before after : List Event} (hopen : open? config file services tree host forest = .ok s₀)
    (hbefore : s₀.follow before = some u) (hreturned : u.calls[i]? = some (.closed time))
    (hafter : u.follow after = some s) :
    (∀ j, s.served = some (j, .cleans) → u.served = some (j, .cleans) ∨ u.InLine j .clean) ∧
      (∀ j, (u.calls[j]? = none ∨ ∃ kind, u.calls[j]? = some (.asks kind)) → (∀ v, s.served ≠ some (j, v)) ∧
        ∀ error, s.calls[j]? = some (.returned error) → error = some .closed) ∧
      (∀ j, u.calls[j]? = some (.waits .build) → (∀ v, s.served = some (j, v) → v = .admitted .build) ∧
        ∀ error, s.calls[j]? = some (.returned error) → error = some .closed) ∧
      (∀ j kind, s.calls[j]? = some (.asks kind) →
        ∃ s', s.step (.go j) = some s' ∧ s'.calls[j]? = some (.returned (some .closed))) ∧
      ∀ j, s.calls[j]? = some (.waits .build) → s.served = none →
        ∃ s', s.follow [.go j, .serve] = some s' ∧ s'.calls[j]? = some (.returned (some .closed)) := by
  have hempty : s₀.calls = [] ∧ s₀.served = none := by
    obtain ⟨next, -, rfl⟩ := exists_of_open hopen
    exact ⟨rfl, rfl⟩
  have hseated : Seated u := by
    refine holds_of_follow Seated.step (fun j v hserved => ?_) hbefore
    rw [hempty.2] at hserved
    cases hserved
  have hsealed : Sealed u := by
    refine holds_of_follow Sealed.step (fun c hmem => ?_) hbefore
    rw [hempty.1] at hmem
    cases hmem
  have hclosed : u.target.closed = true := hsealed _ (List.mem_of_getElem? hreturned) rfl
  -- the two invariants are carried from the closing call to the end
  have hfinal : Shuttered u s ∧ Seated s :=
    holds_of_follow (P := fun s => Shuttered u s ∧ Seated s) (fun h hstep => ⟨h.1.step h.2 hstep, h.2.step hstep⟩)
      ⟨.refl hclosed, hseated⟩ hafter
  obtain ⟨h, -⟩ := hfinal
  refine ⟨fun j hj => (h.served j _ hj).symm, fun j hj => ?_, fun j hj => ?_, fun j kind hj => ?_, fun j hj hfree => ?_⟩
  · have hnot (v : Service) : ¬ u.Entitled j v := by
      rcases hj with hnone | ⟨kind, hasks⟩ <;> refine not_entitled hseated ?_ ?_ <;> simp [*]
    refine ⟨fun v hv => hnot v (h.served j v hv), fun error herror => ?_⟩
    rcases h.returned j error herror with heq | hold | ⟨v, -, hv⟩
    · exact heq
    · rcases hj with hnone | ⟨kind, hasks⟩ <;> simp [*] at hold
    · exact absurd hv (hnot v)
  · have hbuild {v : Service} (hv : u.Entitled j v) : v = .admitted .build := eq_admitted_of_entitled hseated hj hv
    refine ⟨fun v hv => hbuild (h.served j v hv), fun error herror => ?_⟩
    rcases h.returned j error herror with heq | hold | ⟨v, hne, hv⟩
    · exact heq
    · have hsame := hj.symm.trans hold
      cases hsame
    · exact absurd (hbuild hv) hne
  · exact turned_away h.closed hj
  · exact turned_away_in_turn h.closed hj hfree

end Main

/-! ## A build and a clean that come too late

  The target is closed while one build is at work and another one waits. -/

/-- A build is at work and another one waits when a third call closes the target. -/
def closing : List Event :=
  [.call (.serve .build), .go 0, .go 0, .serve, .serve, .serve, .serve, .serve,
    .call (.serve .build), .go 1, .call .close, .go 2, .go 2]

/-- The first build ends, the second one is let in, and a clean comes in. -/
def afterwards : List Event := [.serve, .serve, .go 1, .serve, .call (.serve .clean), .go 3]

/-- When the call has closed the target, and whether it has returned to build or clean. -/
def ending : ClientCall → Option Nat × Bool
  | .closed time => (some time, false)
  | .returned _ => (none, true)
  | _ => (none, false)

/-- Who has ended like this has closed the target. -/
theorem exists_of_ending (h : ending c = (some time, false)) : c = .closed time := by
  cases c <;> cases h
  rfl

/-- Who has ended like that has returned from a build or a clean. -/
theorem exists_of_ending_returned (h : ending c = (none, true)) : ∃ error, c = .returned error := by
  cases c <;> cases h
  exact ⟨_, rfl⟩

/-- The closing call returns at that time, and the late one returns as well. -/
theorem endings_closing : (reached closing).bind (fun u => (u.follow afterwards).map fun s =>
    (u.calls.length, u.calls[2]?.map ending, s.calls[3]?.map ending)) =
    some (3, some (some 13, false), some (none, true)) := by
  decide +kernel

/-- Here a clean that comes later is turned away. -/
theorem closed_turns_calls_away_closing : ∃ s₀ u s, plainStart = .ok s₀ ∧ s₀.follow closing = some u ∧
    u.follow afterwards = some s ∧ u.calls[2]? = some (ClientCall.closed 13) ∧
    (∀ j, s.served = some (j, .cleans) → u.served = some (j, .cleans) ∨ u.InLine j .clean) ∧
    s.calls[3]? = some (ClientCall.returned (some .closed)) := by
  obtain ⟨u, hreached, hseen⟩ := Option.bind_eq_some_iff.mp endings_closing
  obtain ⟨s, hafter, hseen⟩ := Option.map_eq_some_iff.mp hseen
  obtain ⟨s₀, hopen, hbefore⟩ := exists_of_reached hreached
  obtain ⟨hlength, hseen⟩ := Prod.mk.inj hseen
  obtain ⟨hclosing, hlate⟩ := Prod.mk.inj hseen
  obtain ⟨c, hc, hending⟩ := Option.map_eq_some_iff.mp hclosing
  obtain rfl := exists_of_ending hending
  obtain ⟨d, hd, hending'⟩ := Option.map_eq_some_iff.mp hlate
  obtain ⟨error, rfl⟩ := exists_of_ending_returned hending'
  have hnone : u.calls[3]? = none := List.getElem?_eq_none (Nat.le_of_eq hlength)
  obtain ⟨hcleans, hturned, -⟩ := closed_turns_calls_away hopen hbefore hc hafter
  obtain rfl := (hturned 3 (Or.inl hnone)).2 error hd
  exact ⟨s₀, u, s, hopen, hbefore, hafter, hc, hcleans, hd⟩

end Clients

/-! ## A clean that was waiting

  And while a clean waits.  It holds the run lock at last, and empties the build directory of a closed target. -/

namespace TargetSession

/-- A build is at work and a clean waits when the target is closed; something is in the build directory, and a stage has
    its record. -/
def closedWhileWaiting : Option TargetSession :=
  newTarget.toOption.bind fun t =>
    ((opened { records := [("/pyproject.toml#build", default)] } t).takeTurns
      [.edit (beside built), .call 0 .build]).bind fun s => (s.call 1 .clean).takeTurns [.close]

/-- What can be seen of a session: whether its target is closed, who was answered and how, what is in the build
    directory, and whether the stage has its record. -/
structure Standing where
  /-- Whether the target is closed. -/
  closed : Option Bool
  /-- The calls that were answered, and how. -/
  answered : List (Nat × Fate)
  /-- The files in the build directory. -/
  leftovers : List String
  /-- Whether the stage has a record. -/
  recorded : Bool
  deriving DecidableEq

/-- What can be seen of this session. -/
def standing (s : TargetSession) : Standing where
  closed := s.target.map (·.closed)
  answered := s.answers.map fun a => (a.1, fate a.2)
  leftovers := s.leftovers
  recorded := ((s.world.store 0).load "/pyproject.toml#build").isSome

/-- When the target was closed nobody had been answered; in the end both were, and the directory is empty. -/
theorem standing_closedWhileWaiting : (closedWhileWaiting.bind fun u => (u.takeTurns (steps 4)).map fun w =>
    (u.standing, w.standing)) =
    some (⟨some true, [], ["demo.whl"], true⟩, ⟨some true, [(0, .built), (1, .cleaned)], [], false⟩) := by
  decide +kernel

/-- **A clean that was waiting cleans a closed target**: after the target was closed it empties the build directory,
    forgets the record, and returns its result. -/
theorem cleans_after_closing : ∃ u w first r, closedWhileWaiting = some u ∧ u.target.map (·.closed) = some true ∧
    u.leftovers = ["demo.whl"] ∧ ((u.world.store 0).load "/pyproject.toml#build").isSome = true ∧
    u.takeTurns (steps 4) = some w ∧ w.leftovers = [] ∧ (w.world.store 0).load "/pyproject.toml#build" = none ∧
    w.answers = [(0, first), (1, .cleaned r)] := by
  obtain ⟨u, hu, hseen⟩ := Option.bind_eq_some_iff.mp standing_closedWhileWaiting
  obtain ⟨w, hw, hseen⟩ := Option.map_eq_some_iff.mp hseen
  simp only [standing, Prod.mk.injEq, Standing.mk.injEq] at hseen
  obtain ⟨⟨hclosed, -, hfull, hrecord⟩, -, hfates, hempty, hforgotten⟩ := hseen
  obtain ⟨⟨_, first⟩, rest, hanswers, hfirst, hrest⟩ := List.map_eq_cons_iff.mp hfates
  obtain ⟨⟨_, second⟩, rfl, hsecond⟩ := List.map_eq_singleton_iff.mp hrest
  obtain ⟨rfl, -⟩ := Prod.mk.inj hfirst
  obtain ⟨rfl, hfate⟩ := Prod.mk.inj hsecond
  obtain ⟨r, rfl⟩ := exists_of_fate_cleaned hfate
  rw [Option.isSome_eq_false_iff, Option.isNone_iff_eq_none] at hforgotten
  exact ⟨u, w, first, r, hu, hclosed, hfull, hrecord, hw, hempty, hforgotten, hanswers⟩

end TargetSession

end Wheelwright
