/-
  Inside — paths that are joined to a root and stay there.

  **Specification** — a path is read component by component, and each component leads from one place to the next (`step`).
  It is inside a root (`Inside`) if it starts with the components of the root, and from there on every place that it comes
  to is the place of the root or lies below it.

  **The crux** — what is joined to a root adds components of its own and nothing else (`exists_components_join`).  If none
  of them is a root or leads up, each adds its name to the place or leaves it (`prefix_foldl_step`).
-/
import Wheelwright.Project
import Wheelwright.Proofs.Path.Children

namespace Wheelwright

namespace Path

variable {p root other : Path} {c : Component} {here there cs seen : List Component}

/-! ## Places

  A component moves the place that a path has come to.  Only two kinds of components can lead out of a root: another
  root, and the way up. -/

/-- Where a component leads.  From a name `..` leads back, from the root nowhere else, and from anywhere else to a place
    that has no name here. -/
def step (here : List Component) : Component → List Component
  | .root => [.root]
  | .current => here
  | .parent =>
    match here.getLast? with
    | some (.normal _) => here.dropLast
    | some .root => here
    | _ => here ++ [.parent]
  | .normal name => here ++ [.normal name]

/-- Where components lead, one after the other. -/
def place (cs : List Component) : List Component := cs.foldl step []

/-- The path starts at `root`, component by component, and as it is read on from there it never leaves it. -/
structure Inside (root p : Path) : Prop where
  /-- The path begins with the root. -/
  starts : p.startsWith root = true
  /-- Wherever it has come to, it is not above the root. -/
  stays : ∀ seen, root.components <+: seen → seen <+: p.components → place root.components <+: place seen

/-- The component is no root and does not lead up. -/
def Keeps (c : Component) : Prop := c ≠ .root ∧ c ≠ .parent

/-- A component that keeps to its place leads no further up. -/
theorem prefix_step (h : Keeps c) : here <+: step here c := by
  cases c with
  | root => exact absurd rfl h.1
  | parent => exact absurd rfl h.2
  | current => exact List.prefix_refl _
  | normal name => exact List.prefix_append _ _

/-- Names and dots lead nowhere but down. -/
theorem prefix_foldl_step (h : ∀ c ∈ cs, Keeps c) : here <+: cs.foldl step here := by
  induction cs generalizing here with
  | nil => exact List.prefix_refl _
  | cons c rest ih =>
    exact (prefix_step (h c List.mem_cons_self)).trans (ih fun c hc => h c (List.mem_cons_of_mem _ hc))

/-! ## Joining

  What is joined to a root brings neither of the two, as the reader of the project refuses both. -/

/-- An absolute path has the root as a component. -/
theorem root_mem_components (h : p.isAbsolute = true) : Component.root ∈ p.components := by
  have htext : p.text ≠ "" := fun heq => by
    rw [isAbsolute, heq] at h
    exact absurd h (by decide)
  obtain ⟨rest, hpieces⟩ := List.head?_eq_some_iff.mp ((isAbsolute_iff htext).mp h)
  rw [components_of_pieces hpieces fun _ => ne_nil_of_piecesOf hpieces htext]
  exact List.mem_append_left _ (List.mem_singleton_self _)

/-- A piece of a path that stands for something stands for a component of it. -/
theorem mem_components_of_piece (h : c ∈ (piecesOf '/' p.text).filterMap ofPiece) : c ∈ p.components := by
  by_cases htext : p.text = ""
  · rw [htext] at h
    cases h
  · obtain ⟨first, rest, hpieces⟩ := List.exists_cons_of_ne_nil (piecesOf_ne_nil p.text)
    rw [components_of_pieces hpieces fun hfirst => ne_nil_of_piecesOf (hfirst ▸ hpieces) htext]
    obtain ⟨piece, hpiece, hc⟩ := List.mem_filterMap.mp h
    rw [hpieces] at hpiece
    -- the first piece counts apart, as it says how the path begins
    rcases List.mem_cons.mp hpiece with rfl | hrest
    · have hidle : isIdlePiece piece = false := by
        rw [ofPiece] at hc
        split at hc
        · cases hc
        · rwa [← Bool.not_eq_true]
      rw [isIdlePiece, Bool.or_eq_false_iff, decide_eq_false_iff_not, decide_eq_false_iff_not] at hidle
      refine List.mem_append_left _ ?_
      rw [firstComponent, if_neg hidle.1, if_neg hidle.2, hc]
      exact List.mem_singleton_self c
    · exact List.mem_append_right _ (List.mem_filterMap.mpr ⟨piece, hrest, hc⟩)

/-- What is joined to a path adds components of its own. -/
theorem exists_components_join (h : other.isAbsolute = false) :
    ∃ added, (p.join other).components = p.components ++ added ∧ ∀ c ∈ added, c ∈ other.components := by
  by_cases hp : p.text = ""
  · exact ⟨other.components, by rw [join_of_empty h hp, components_of_empty hp, List.nil_append], fun _ => id⟩
  · exact ⟨_, components_join h hp, fun _ => mem_components_of_piece⟩

/-- **A path that has no root and leads up nowhere stays inside whatever it is joined to.** -/
theorem inside_join (h : ∀ c ∈ other.components, Keeps c) (root : Path) : Inside root (root.join other) := by
  have hrelative : other.isAbsolute = false := by
    rw [← Bool.not_eq_true]
    exact fun habsolute => (h _ (root_mem_components habsolute)).1 rfl
  obtain ⟨added, hadded, hown⟩ := exists_components_join (p := root) hrelative
  refine ⟨?_, fun seen hroot hseen => ?_⟩
  · rw [startsWith, List.isPrefixOf_iff_prefix, hadded]
    exact List.prefix_append _ _
  · obtain ⟨some, rfl⟩ := hroot
    rw [hadded, List.prefix_append_right_inj] at hseen
    rw [place, place, List.foldl_append]
    exact prefix_foldl_step fun c hc => h c (hown c (hseen.subset hc))

end Path

/-- A path leaves no root exactly if none of its components goes up. -/
theorem Project.leavesRoot_eq_false_iff {p : Path} : leavesRoot p = false ↔ ∀ c ∈ p.components, Path.Keeps c := by
  rw [leavesRoot, List.any_eq_false]
  refine forall₂_congr fun c _ => ?_
  rw [Bool.or_eq_true, decide_eq_true_eq, decide_eq_true_eq, not_or]
  exact and_comm

end Wheelwright
