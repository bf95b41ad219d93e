/-
  Readings — what has been read of a process stays as it is.

  **Specification** — the output of a process is looked at again and again while the process is supervised: when a deadline
  is over, when it is asked to end, when it is gone and its children still hold the pipes.  The lines that had ended at one
  of these moments are the beginning of those that have ended at any later one (`Ordered.lines_prefix`).  And all that a
  process wrote before it ended by itself is read, whatever becomes of its children (`Timely.mem_written`).

  **Program** — a course lists what is written, and what is written later than the process is gone is left out unless a
  child wrote it.  So what is read at two moments are two parts of one list, and neither need be a beginning of it.

  **The crux** — the order of the times.  What is left out at one moment and not at a later one is a child's and later
  than all that is there; so nothing comes between (`written_prefix`).  And a reader that goes on only adds to its lines.
-/
import Wheelwright.Process.Course

namespace Wheelwright

namespace Course

variable {c : Course} {gone last later : Nat} {chunks more : List Chunk}

/-- What a course tells it tells in the order of time. -/
structure Ordered (c : Course) : Prop where
  /-- Chunks come in the order of their times. -/
  chunks : c.chunks.Pairwise fun a b => a.time ≤ b.time
  /-- So do changes to files. -/
  changes : c.changes.Pairwise fun a b => a.1 ≤ b.1

/-! ## What is written

  The times of a course are in order.  So what is left out of an earlier look, and is in a later one, stands behind
  all that the earlier one has. -/

/-- What is kept by one test and not by a narrower one comes after all that this keeps, if nothing behind an entry that
    it leaves out is kept. -/
theorem filter_prefix_filter {α : Type} {p q : α → Bool} {l : List α} (himp : ∀ a ∈ l, p a = true → q a = true)
    (hrest : l.Pairwise fun a b => q a = true → p a = false → p b = false) : l.filter p <+: l.filter q := by
  induction l with
  -- either nothing has been left out yet, or nothing behind is kept
  | nil => exact List.nil_prefix
  | cons a rest ih =>
    obtain ⟨hnone, hrest⟩ := List.pairwise_cons.mp hrest
    have htail := ih (fun b hb => himp b (List.mem_cons_of_mem _ hb)) hrest
    cases hp : p a with
    | true =>
      rw [List.filter_cons_of_pos hp, List.filter_cons_of_pos (himp a List.mem_cons_self hp)]
      exact (List.prefix_cons_inj a).mpr htail
    | false =>
      rw [List.filter_cons_of_neg (Bool.eq_false_iff.mp hp)]
      cases hq : q a with
      | false =>
        rw [List.filter_cons_of_neg (Bool.eq_false_iff.mp hq)]
        exact htail
      | true =>
        -- the first one that is left out: nothing behind it is kept
        rw [List.filter_eq_nil_iff.mpr fun b hb => Bool.eq_false_iff.mp (hnone b hb hq hp)]
        exact List.nil_prefix

/-- **What is written until a moment comes before what is written after it.** -/
theorem Ordered.written_prefix (h : c.Ordered) (hgone : gone ≤ last) (hlast : last ≤ later) :
    c.written gone last <+: c.written gone later := by
  -- both keep the same chunks of the process; of its children the later look keeps more
  refine filter_prefix_filter (fun k _ hk => ?_) (h.chunks.imp fun {a b} hle hlater hearly => ?_)
  · rw [decide_eq_true_eq] at hk ⊢
    cases hdetached : k.detached with
    | true =>
      rw [hdetached] at hk
      exact Nat.le_trans hk hlast
    | false =>
      rw [hdetached] at hk
      exact hk
  · rw [decide_eq_true_eq] at hlater
    rw [decide_eq_false_iff_not] at hearly ⊢
    cases hdetached : a.detached with
    | true =>
      -- a child wrote it after the earlier moment, and nothing of that time or later is there yet
      rw [hdetached] at hearly
      have hlt : last < a.time := Nat.lt_of_not_le hearly
      split
      · omega
      · omega
    | false =>
      rw [hdetached] at hlater hearly
      exact absurd hlater hearly

/-! ## What is read

  A reader that takes more has more lines, and the ones it had are at their beginning. -/

/-- A reader that takes more has the lines that it had, and those that ended since. -/
theorem Reading.lines_take (r : Reading) (k : Chunk) : r.lines <:+ (r.take k).lines := by
  have hfold (ended : List Bytes) (lines : List (Nat × OutputLine)) :
      lines <:+ ended.foldl (fun lines l => (k.time, LineReader.decode k.stream l) :: lines) lines := by
    induction ended generalizing lines with
    | nil => exact List.suffix_refl _
    | cons l rest ih => exact (List.suffix_cons _ _).trans (ih _)
  rw [take]
  dsimp only
  split
  · exact hfold _ _
  · exact hfold _ _

/-- What comes later adds to the lines that were read. -/
theorem lines_reading (chunks more : List Chunk) : (reading chunks).lines <:+ (reading (chunks ++ more)).lines := by
  rw [reading, reading, List.foldl_append]
  generalize chunks.foldl Reading.take {} = r
  induction more generalizing r with
  | nil => exact List.suffix_refl _
  | cons k rest ih => exact (r.lines_take k).trans (ih _)

/-- The lines of a process that is gone at `gone` that had ended when it was read up to `last`. -/
def linesEnded (c : Course) (gone last : Nat) : List OutputLine :=
  c.lines ++ (reading (c.written gone last)).lines.reverse.map (·.2)

/-- All lines that ended are read. -/
theorem linesEnded_prefix_linesRead (c : Course) (gone last : Nat) : c.linesEnded gone last <+: c.linesRead gone last :=
  List.prefix_append _ _

/-- **What has been read of a process stays as it is.** -/
theorem Ordered.lines_prefix (h : c.Ordered) (hgone : gone ≤ last) (hlast : last ≤ later) :
    c.linesEnded gone last <+: c.linesRead gone later := by
  obtain ⟨more, hmore⟩ := h.written_prefix hgone hlast
  refine List.IsPrefix.trans ?_ (c.linesEnded_prefix_linesRead gone later)
  refine (List.prefix_append_right_inj _).mpr (List.IsPrefix.map _ (List.reverse_prefix.mpr ?_))
  rw [← hmore]
  exact lines_reading _ _

/-- Scripts write nothing but the lines that are there from the start. -/
theorem ordered_ofScript (s : ProcessScript) : (ofScript s).Ordered := ⟨.nil, .nil⟩

/-! ## What is never lost

  What a process writes itself it writes before it ends, and no look that is made after that leaves it out. -/

/-- A course tells of the process's own output until the process ends; what is written later is its children's. -/
def Timely (c : Course) : Prop := ∀ k ∈ c.chunks, k.detached = false → ∀ e, c.ending = some e → k.time ≤ e.1

/-- **Of a process that ends by itself all that it wrote is read**, however soon the readers give up its children. -/
theorem Timely.mem_written (h : c.Timely) {e : Nat × Option Int} (he : c.ending = some e) {k : Chunk} (hk : k ∈ c.chunks)
    (hown : k.detached = false) (last : Nat) : k ∈ c.written e.1 last := by
  refine List.mem_filter.mpr ⟨hk, decide_eq_true_eq.mpr ?_⟩
  rw [hown]
  exact h k hk hown e he

/-- And of all that is ever written its readers have the beginning. -/
theorem Timely.written_prefix_chunks (h : c.Timely) (hordered : c.Ordered) {e : Nat × Option Int}
    (he : c.ending = some e) (hlast : e.1 ≤ last) : c.written e.1 last <+: c.chunks := by
  have hall : c.chunks.filter (fun _ => true) = c.chunks := List.filter_eq_self.mpr fun _ _ => rfl
  have hbehind : ∀ a ∈ c.chunks, ∀ b ∈ c.chunks, a.time ≤ b.time → (true = true) →
      decide (a.time ≤ if a.detached then last else e.1) = false →
      decide (b.time ≤ if b.detached then last else e.1) = false := by
    intro a ha b hb hle _ hleft
    rw [decide_eq_false_iff_not] at hleft ⊢
    -- what is left out is a child's and later than the last look, so nothing behind it is the process's own
    have hlate : last < a.time := by
      cases hdetached : a.detached with
      | true =>
        rw [hdetached] at hleft
        exact Nat.lt_of_not_le hleft
      | false =>
        rw [hdetached] at hleft
        exact absurd (h a ha hdetached e he) hleft
    split
    · omega
    · omega
  have hrest := hordered.chunks.imp_of_mem fun {a b} ha hb hle => hbehind a ha b hb hle
  exact hall ▸ filter_prefix_filter (fun _ _ _ => rfl) hrest

end Course

end Wheelwright
