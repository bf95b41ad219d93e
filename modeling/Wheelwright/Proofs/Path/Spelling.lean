/-
  Spellings — a path can be written in many ways.

  **Specification** — `Respelled p q`: the text of `q` is that of `p` with slashes repeated, inner dots put between slashes
  or a slash put at the end, any number of times and in both directions.

  **The crux** — each of these changes puts one idle piece among the pieces of the path, behind the first one, and an idle
  piece there stands for no component (`components_of_idle`); so respelled paths have the same components.
-/
import Mathlib.Logic.Relation
import Wheelwright.Proofs.Path.Children

namespace Wheelwright

namespace Path

variable {p q : Path}

/-- One change of a spelling: a slash is doubled, a dot is put between slashes, or a slash is put at the end. -/
inductive Respells : Path → Path → Prop where
  /-- A slash that is doubled. -/
  | slash (front back : String) : Respells ⟨front ++ ("/" ++ back)⟩ ⟨front ++ ("/" ++ ("/" ++ back))⟩
  /-- A dot between slashes. -/
  | dot (front back : String) : Respells ⟨front ++ ("/" ++ back)⟩ ⟨front ++ ("/" ++ ("." ++ ("/" ++ back)))⟩
  /-- A slash at the end. -/
  | close (front : String) (h : front ≠ "") : Respells ⟨front⟩ ⟨front ++ "/"⟩

/-- One path is the other in another spelling. -/
def Respelled : Path → Path → Prop := Relation.EqvGen Respells

/-- An idle piece behind the first one stands for nothing. -/
theorem components_of_idle {first idle : String} {front back : List String}
    (hp : piecesOf '/' p.text = first :: (front ++ back)) (hq : piecesOf '/' q.text = first :: (front ++ idle :: back))
    (hidle : isIdlePiece idle = true) (hne : first = "" → front ++ back ≠ []) : p.components = q.components := by
  have hnone : ofPiece idle = none := by rw [ofPiece, if_pos hidle]
  rw [components_of_pieces hp hne,
    components_of_pieces hq fun _ => List.append_ne_nil_of_right_ne_nil _ (List.cons_ne_nil _ _), List.filterMap_append,
    List.filterMap_append, List.filterMap_cons_none hnone]

/-- An idle piece between two slashes can as well be left out with one of them. -/
theorem same_of_idle (front back : String) {idle : String} (hpieces : piecesOf '/' idle = [idle])
    (hidle : isIdlePiece idle = true) :
    Same ⟨front ++ ("/" ++ back)⟩ ⟨front ++ ("/" ++ (idle ++ ("/" ++ back)))⟩ := by
  obtain ⟨first, rest, hfront⟩ := List.exists_cons_of_ne_nil (piecesOf_ne_nil front)
  have hp : piecesOf '/' (front ++ ("/" ++ back)) = first :: (rest ++ piecesOf '/' back) := by
    rw [piecesOf_append_slash, hfront, List.cons_append]
  have hq : piecesOf '/' (front ++ ("/" ++ (idle ++ ("/" ++ back)))) = first :: (rest ++ idle :: piecesOf '/' back) := by
    rw [piecesOf_append_slash, piecesOf_append_slash, hfront, hpieces, List.cons_append, List.singleton_append]
  exact components_of_idle hp hq hidle fun _ => List.append_ne_nil_of_right_ne_nil _ (piecesOf_ne_nil back)

/-- A path that is spelled in another way is the same path. -/
theorem Respells.same (h : Respells p q) : p.Same q := by
  cases h with
  | slash front back =>
    have := same_of_idle front back (show piecesOf '/' "" = [""] from rfl) rfl
    rwa [String.empty_append] at this
  | dot front back => exact same_of_idle front back rfl rfl
  | close front hne =>
    obtain ⟨first, rest, hfront⟩ := List.exists_cons_of_ne_nil (piecesOf_ne_nil front)
    have hp : piecesOf '/' front = first :: (rest ++ []) := by rw [hfront, List.append_nil]
    have hq : piecesOf '/' (front ++ "/") = first :: (rest ++ [""]) := by
      rw [← String.append_empty (s := "/"), piecesOf_append_slash, hfront, List.cons_append]
      rfl
    refine components_of_idle hp hq rfl fun hfirst => ?_
    rw [List.append_nil]
    exact ne_nil_of_piecesOf (hfirst ▸ hfront) hne

/-- **Respelled paths name the same.** -/
theorem Respelled.same (h : Respelled p q) : p.Same q := by
  induction h with
  | rel _ _ h => exact h.same
  | refl => exact rfl
  | symm _ _ _ ih => exact ih.symm
  | trans _ _ _ _ _ ih ih' => exact ih.trans ih'

end Path

end Wheelwright
