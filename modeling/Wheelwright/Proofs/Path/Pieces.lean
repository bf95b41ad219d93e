/-
  Pieces of paths — how a path, its parent and its neighbours are spelled.

  **Specification** — the pieces of a path are a lead (nothing, a root or a dot) and pieces without slashes.  A path that
  is spelled from a lead and pieces has just these pieces (`piecesOf_spell`), so the parents of a path are spelled by the
  first of its pieces (`exists_of_mem_ancestors`), and a path with another file name by the same pieces before the last
  (`withExtension_eq`).
-/
import Mathlib.Data.List.Induction
import Mathlib.Data.List.TakeWhile
import Wheelwright.FileTree.Operations

namespace Wheelwright

variable {sep : Char} {cs : List Char} {s piece : String} {pieces : List String}

/-! ## Cutting and joining

  The program cuts a text at a character, as the library's splitting does; from that the pieces and the text give each
  other back. -/

/-- Cutting at a character is what the library calls splitting on it. -/
theorem splitAtChar_eq_splitOn (sep : Char) (cs : List Char) : splitAtChar sep cs = cs.splitOn sep := by
  induction cs with
  | nil => rfl
  | cons c rest ih =>
    rw [splitAtChar, ih, List.splitOn, List.splitOn, List.splitOnP_cons_eq_if_modifyHead]
    by_cases hc : c = sep
    · rw [if_pos hc, if_pos (beq_iff_eq.mpr hc)]
    · rw [if_neg hc, if_neg fun heq => hc (beq_iff_eq.mp heq)]
      obtain ⟨first, more, hsplit⟩ := List.exists_cons_of_ne_nil (List.splitOnP_ne_nil (· == sep) rest)
      rw [hsplit]
      rfl

/-- No piece holds the character it was cut at. -/
theorem notMem_of_mem_splitAtChar {piece : List Char} (h : piece ∈ splitAtChar sep cs) : sep ∉ piece := by
  -- by the text: each character ends a piece or is added to the first one
  induction cs generalizing piece with
  | nil =>
    rw [List.mem_singleton.mp h]
    exact List.not_mem_nil
  | cons c rest ih =>
    rw [splitAtChar] at h
    split at h
    · rcases List.mem_cons.mp h with rfl | h
      · exact List.not_mem_nil
      · exact ih h
    · rename_i hc
      split at h
      · rw [List.mem_singleton.mp h]
        exact fun hmem => hc (List.mem_singleton.mp hmem).symm
      · rename_i first more hsplit
        rw [hsplit] at ih
        rcases List.mem_cons.mp h with rfl | h
        · intro hmem
          rcases List.mem_cons.mp hmem with heq | hmem
          · exact hc heq.symm
          · exact ih List.mem_cons_self hmem
        · exact ih (List.mem_cons_of_mem _ h)

/-- What a piece holds was in the text. -/
theorem mem_of_mem_splitAtChar {piece : List Char} {c : Char} (h : piece ∈ splitAtChar sep cs) (hc : c ∈ piece) :
    c ∈ cs := by
  induction cs generalizing piece with
  | nil =>
    rw [List.mem_singleton.mp h] at hc
    cases hc
  | cons first rest ih =>
    rw [splitAtChar] at h
    split at h
    · rcases List.mem_cons.mp h with rfl | h
      · cases hc
      · exact List.mem_cons_of_mem _ (ih h hc)
    · split at h
      · rw [List.mem_singleton.mp h] at hc
        rw [List.mem_singleton.mp hc]
        exact List.mem_cons_self
      · rename_i next more hsplit
        rcases List.mem_cons.mp h with rfl | h
        · exact (List.mem_cons.mp hc).elim (fun heq => heq ▸ List.mem_cons_self) fun hnext =>
            List.mem_cons_of_mem _ (ih (hsplit ▸ List.mem_cons_self) hnext)
        · exact List.mem_cons_of_mem _ (ih (hsplit ▸ List.mem_cons_of_mem _ h) hc)

/-- The pieces of a text, by the library's splitting. -/
theorem piecesOf_eq (sep : Char) (s : String) : piecesOf sep s = (s.toList.splitOn sep).map String.ofList := by
  rw [piecesOf, splitAtChar_eq_splitOn]

/-- No piece of a text holds the separator. -/
theorem notMem_of_mem_piecesOf (h : piece ∈ piecesOf sep s) : sep ∉ piece.toList := by
  obtain ⟨cs, hcs, rfl⟩ := List.mem_map.mp h
  rw [String.toList_ofList]
  exact notMem_of_mem_splitAtChar hcs

/-- What a piece holds was in the text that was cut. -/
theorem mem_of_mem_piecesOf {c : Char} (h : piece ∈ piecesOf sep s) (hc : c ∈ piece.toList) : c ∈ s.toList := by
  obtain ⟨cs, hcs, rfl⟩ := List.mem_map.mp h
  rw [String.toList_ofList] at hc
  exact mem_of_mem_splitAtChar hcs hc

/-- Joined pieces are cut where they were joined. -/
theorem piecesOf_intercalate (hne : pieces ≠ []) (h : ∀ piece ∈ pieces, '/' ∉ piece.toList) :
    piecesOf '/' ("/".intercalate pieces) = pieces := by
  have hsplit : (['/'].intercalate (pieces.map String.toList)).splitOn '/' = pieces.map String.toList := by
    refine List.splitOn_intercalate '/' (fun cs hcs => ?_) fun hnil => hne (List.map_eq_nil_iff.mp hnil)
    obtain ⟨piece, hpiece, rfl⟩ := List.mem_map.mp hcs
    exact h piece hpiece
  rw [piecesOf_eq, String.toList_intercalate, show "/".toList = ['/'] from rfl, hsplit, List.map_map]
  exact (List.map_congr_left fun piece _ => String.ofList_toList).trans (List.map_id' _)

/-- Cut pieces are joined to what was cut. -/
theorem toList_intercalate_piecesOf (sep : Char) (s : String) :
    [sep].intercalate ((piecesOf sep s).map String.toList) = s.toList := by
  have hsplit : (piecesOf sep s).map String.toList = s.toList.splitOn sep := by
    rw [piecesOf_eq, List.map_map]
    exact (List.map_congr_left fun cs _ => String.toList_ofList).trans (List.map_id' _)
  rw [hsplit, List.intercalate_splitOn]

/-- Only an empty text has one empty piece and no other. -/
theorem ne_nil_of_piecesOf {rest : List String} (hpieces : piecesOf sep s = "" :: rest) (hs : s ≠ "") : rest ≠ [] := by
  rintro rfl
  have hjoined := toList_intercalate_piecesOf sep s
  rw [hpieces] at hjoined
  exact hs (String.toList_injective hjoined.symm)

/-- A text that starts with a piece and a slash. -/
theorem piecesOf_append_slash (a b : String) : piecesOf '/' (a ++ ("/" ++ b)) = piecesOf '/' a ++ piecesOf '/' b := by
  rw [piecesOf_eq, piecesOf_eq, piecesOf_eq, String.toList_append, String.toList_append,
    show "/".toList = ['/'] from rfl,
    List.singleton_append, List.splitOn, List.splitOnP_append_cons _ _ (by exact beq_self_eq_true _), List.map_append]
  rfl

/-! ## Leads

  A path begins with nothing, with a root, or with a dot, and each of them spells its first piece in its own way. -/

namespace Path

variable {p : Path} {first : Option Component} {front : List String} {name : String}

/-- The piece that spells a lead. -/
def leadPieces : Option Component → List String
  | some .root => [""]
  | some .current => ["."]
  | _ => []

/-- A lead, and pieces without slashes that may follow it: without a lead, the first of them is a name or leads up. -/
structure IsLead (first : Option Component) (pieces : List String) : Prop where
  /-- A path begins at the root, with a dot, or with a name. -/
  lead : first = some .root ∨ first = some .current ∨ first = none ∧ ∀ piece ∈ pieces.head?, isIdlePiece piece = false
  /-- No piece holds a slash. -/
  slash : ∀ piece ∈ pieces, '/' ∉ piece.toList

/-- Fewer pieces have the same lead. -/
theorem IsLead.of_start {fewer : List String} (h : IsLead first pieces) (hfewer : fewer <+: pieces) :
    IsLead first fewer := by
  refine ⟨h.lead.imp_right (Or.imp_right fun ⟨hnone, hhead⟩ => ⟨hnone, fun piece hpiece => ?_⟩),
    fun piece hpiece => h.slash piece (hfewer.subset hpiece)⟩
  obtain ⟨rest, rfl⟩ := hfewer
  cases fewer with
  | nil => cases hpiece
  | cons first more => exact hhead piece hpiece

/-- A path is spelled by its lead and its pieces. -/
theorem lead_spec (h : p.lead = (first, pieces)) :
    IsLead first pieces ∧ (p.text ≠ "" → piecesOf '/' p.text = leadPieces first ++ pieces) := by
  have hslash : ∀ piece ∈ piecesOf '/' p.text, '/' ∉ piece.toList := fun piece hpiece => notMem_of_mem_piecesOf hpiece
  -- by the first piece: empty, a dot, or a name
  unfold lead at h
  split at h
  · rename_i hnil
    cases h
    exact ⟨⟨Or.inr (Or.inr ⟨rfl, fun _ hpiece => by cases hpiece⟩), fun _ hpiece => by cases hpiece⟩, fun _ => hnil⟩
  · rename_i head rest hpieces
    rw [hpieces] at hslash
    have hrest : ∀ piece ∈ rest, '/' ∉ piece.toList := fun piece hpiece => hslash piece (List.mem_cons_of_mem _ hpiece)
    split at h
    · rename_i hempty
      by_cases hnil : rest = []
      · subst hnil
        cases h
        refine ⟨⟨Or.inr (Or.inr ⟨rfl, fun _ hpiece => by cases hpiece⟩), hrest⟩, fun hne => ?_⟩
        rw [hempty] at hpieces
        exact absurd rfl (ne_nil_of_piecesOf hpieces hne)
      · rw [List.isEmpty_eq_false_iff.mpr hnil, if_neg Bool.false_ne_true] at h
        cases h
        refine ⟨⟨Or.inl rfl, hrest⟩, fun _ => ?_⟩
        rw [hpieces, hempty]
        rfl
    · rename_i hempty
      split at h
      · rename_i hdot
        cases h
        refine ⟨⟨Or.inr (Or.inl rfl), hrest⟩, fun _ => ?_⟩
        rw [hpieces, hdot]
        rfl
      · rename_i hdot
        cases h
        refine ⟨⟨Or.inr (Or.inr ⟨rfl, fun piece hpiece => ?_⟩), hslash⟩, fun _ => hpieces⟩
        cases hpiece
        simp only [isIdlePiece, hempty, hdot, decide_false, Bool.or_self]

/-- **The pieces of a spelled path are those that it is spelled by.** -/
theorem piecesOf_spell (h : IsLead first pieces) (hne : pieces ≠ []) :
    piecesOf '/' (spell first pieces) = leadPieces first ++ pieces := by
  have hbody := piecesOf_intercalate hne h.slash
  rcases h.lead with rfl | rfl | ⟨rfl, -⟩
  · show piecesOf '/' ("/" ++ "/".intercalate pieces) = [""] ++ pieces
    rw [← String.empty_append (s := "/" ++ "/".intercalate pieces), piecesOf_append_slash, hbody]
    rfl
  · show piecesOf '/' (if pieces.isEmpty then "." else "./" ++ "/".intercalate pieces) = ["."] ++ pieces
    rw [List.isEmpty_eq_false_iff.mpr hne, if_neg Bool.false_ne_true, show "./" = "." ++ "/" from rfl,
      String.append_assoc, piecesOf_append_slash, hbody]
    rfl
  · exact hbody

/-- The lead of a spelled path. -/
theorem lead_spell (h : IsLead first pieces) (hne : pieces ≠ []) : lead ⟨spell first pieces⟩ = (first, pieces) := by
  unfold lead
  rw [piecesOf_spell h hne]
  rcases h.lead with rfl | rfl | ⟨rfl, hhead⟩
  · show ((if pieces.isEmpty then none else some Component.root), pieces) = _
    rw [List.isEmpty_eq_false_iff.mpr hne, if_neg Bool.false_ne_true]
  · rfl
  · obtain ⟨head, rest, rfl⟩ := List.exists_cons_of_ne_nil hne
    have hidle := hhead head rfl
    rw [isIdlePiece, Bool.or_eq_false_iff, decide_eq_false_iff_not, decide_eq_false_iff_not] at hidle
    show (if head = "" then _ else if head = "." then _ else (none, head :: rest)) = _
    rw [if_neg hidle.1, if_neg hidle.2]

/-! ## Idle ends

  Idle pieces at the end of a path are dropped before its parent or its file name is looked for. -/

/-- Pieces that do not end in an idle one. -/
def Trimmed (pieces : List String) : Prop := ∀ piece ∈ pieces.getLast?, isIdlePiece piece = false

/-- Only idle pieces are dropped from the end. -/
theorem exists_dropIdleEnd (pieces : List String) :
    ∃ idles, pieces = dropIdleEnd pieces ++ idles ∧ ∀ piece ∈ idles, isIdlePiece piece = true := by
  refine ⟨(pieces.reverse.takeWhile isIdlePiece).reverse, ?_, fun piece hpiece => ?_⟩
  · rw [dropIdleEnd, ← List.reverse_append, List.takeWhile_append_dropWhile, List.reverse_reverse]
  · exact List.mem_takeWhile_imp (List.mem_reverse.mp hpiece)

/-- What is left ends in none. -/
theorem trimmed_dropIdleEnd (pieces : List String) : Trimmed (dropIdleEnd pieces) := by
  intro piece hpiece
  have hhead := List.head?_dropWhile_not isIdlePiece pieces.reverse
  rw [dropIdleEnd, List.getLast?_reverse] at hpiece
  rw [hpiece] at hhead
  exact hhead

/-- A name at the end is not dropped. -/
theorem dropIdleEnd_concat (h : isIdlePiece name = false) : dropIdleEnd (front ++ [name]) = front ++ [name] := by
  rw [dropIdleEnd, List.reverse_append, List.reverse_singleton, List.singleton_append, List.dropWhile_cons, h,
    if_neg Bool.false_ne_true, List.reverse_cons, List.reverse_reverse]

/-- Idle pieces behind a name are. -/
theorem dropIdleEnd_append_idles {idles : List String} (hidles : ∀ piece ∈ idles, isIdlePiece piece = true)
    (h : isIdlePiece name = false) : dropIdleEnd (front ++ name :: idles) = front ++ [name] := by
  have hreverse : (front ++ name :: idles).reverse = idles.reverse ++ (front ++ [name]).reverse := by
    rw [List.append_cons, List.reverse_append]
  rw [dropIdleEnd, hreverse,
    List.dropWhile_append_of_pos fun piece hpiece => hidles piece (List.mem_reverse.mp hpiece)]
  exact dropIdleEnd_concat h

/-- No idle pieces stand behind pieces that end in another one. -/
theorem idles_eq_nil {before idles : List String} (hidles : ∀ piece ∈ idles, isIdlePiece piece = true)
    (h : isIdlePiece name = false) (heq : front ++ idles = before ++ [name]) : idles = [] := by
  obtain rfl | ⟨idles, last, rfl⟩ := List.eq_nil_or_concat idles
  · rfl
  · rw [List.concat_eq_append] at hidles heq
    rw [← List.append_assoc] at heq
    have hlast := hidles last (List.mem_append_right _ List.mem_cons_self)
    rw [List.singleton_inj.mp (List.append_inj' heq rfl).2, h] at hlast
    cases hlast

/-- What is left are the first of the pieces. -/
theorem dropIdleEnd_starts (pieces : List String) : dropIdleEnd pieces <+: pieces := by
  obtain ⟨idles, hidles, -⟩ := exists_dropIdleEnd pieces
  exact ⟨idles, hidles.symm⟩

/-! ## Parents

  The parent of a path is spelled by its pieces without the last one, and so on up to the lead. -/

/-- The parent of a path is spelled by all its pieces but the last. -/
theorem parent?_eq (hlead : p.lead = (first, pieces)) (hpieces : dropIdleEnd pieces = front ++ [name]) :
    p.parent? = some ⟨spell first (dropIdleEnd front)⟩ := by
  unfold parent?
  rw [hlead]
  dsimp only
  rw [hpieces, List.reverse_append]
  show some (Path.mk (spell first (dropIdleEnd front.reverse.reverse))) = _
  rw [List.reverse_reverse]

/-- A path without names has no parent but the empty one. -/
theorem parent_of_nil (hlead : p.lead = (first, pieces)) (hnil : dropIdleEnd pieces = []) :
    p.parent?.getD ⟨""⟩ = ⟨""⟩ := by
  unfold parent?
  rw [hlead]
  dsimp only
  rw [hnil]
  dsimp only [List.reverse_nil]
  split <;> rfl

/-- The parents of a path are spelled by the first of its pieces. -/
theorem exists_of_mem_ancestors {q : Path} {count : Nat} (h : IsLead first pieces) (htrimmed : Trimmed pieces)
    (hq : q ∈ FileTree.ancestors count ⟨spell first pieces⟩) :
    ∃ fewer, fewer <+: pieces ∧ Trimmed fewer ∧ q = ⟨spell first fewer⟩ ∧ q.text ≠ "" := by
  induction count generalizing pieces with
  | zero => cases hq
  | succ count ih =>
    -- each step upwards drops the last piece and the idle ones before it
    rw [FileTree.ancestors] at hq
    split at hq
    · cases hq
    · rename_i hne
      cases pieces using List.reverseRecOn with
      | nil =>
        have hself : q = ⟨spell first []⟩ := by
          rcases h.lead with rfl | rfl | ⟨rfl, -⟩
          · exact List.mem_singleton.mp hq
          · cases count with
            | zero => exact List.mem_singleton.mp hq
            | succ count => exact List.mem_singleton.mp hq
          · exact absurd rfl hne
        exact ⟨[], List.prefix_refl _, htrimmed, hself, hself ▸ hne⟩
      | append_singleton front name =>
        have hname : isIdlePiece name = false := htrimmed name (by rw [List.getLast?_concat]; rfl)
        have hlead := lead_spell h (List.append_ne_nil_of_right_ne_nil front (List.cons_ne_nil name []))
        rw [parent?_eq hlead (dropIdleEnd_concat hname)] at hq
        rcases List.mem_cons.mp hq with rfl | hq
        · exact ⟨front ++ [name], List.prefix_refl _, htrimmed, rfl, hne⟩
        · have hprefix : dropIdleEnd front <+: front ++ [name] :=
            (dropIdleEnd_starts front).trans (List.prefix_append _ _)
          obtain ⟨fewer, hfewer, hspelled⟩ := ih (h.of_start hprefix) (trimmed_dropIdleEnd front) hq
          exact ⟨fewer, hfewer.trans hprefix, hspelled⟩

/-! ## File names

  The file name is the last piece that is not idle, unless it leads up.  Changing the extension changes this piece and
  drops the idle ones behind it. -/

/-- An idle piece is no component. -/
theorem ofPiece_of_idle (h : isIdlePiece piece = true) : ofPiece piece = none := if_pos h

/-- Any piece but the way up is a name, if it is not idle. -/
theorem ofPiece_of_name (h : isIdlePiece piece = false) (hup : piece ≠ "..") :
    ofPiece piece = some (.normal piece) := by
  rw [ofPiece, h, if_neg Bool.false_ne_true, if_neg hup]

/-- The last component of a path is that of the last piece which is not idle. -/
theorem getLast?_components {idles : List String} {c : Component} (hlead : p.lead = (first, front ++ piece :: idles))
    (hidles : ∀ piece ∈ idles, isIdlePiece piece = true) (hpiece : ofPiece piece = some c) :
    p.components.getLast? = some c := by
  have hnone : idles.filterMap ofPiece = [] :=
    List.filterMap_eq_nil_iff.mpr fun piece hmem => ofPiece_of_idle (hidles piece hmem)
  rw [components, hlead]
  dsimp only
  rw [List.filterMap_append, List.filterMap_cons, hpiece, hnone, ← List.append_assoc, List.getLast?_concat]

/-- **The pieces of a path with a file name**: the name is followed by idle pieces only. -/
theorem exists_of_fileName? (h : p.fileName? = some name) : ∃ first front idles,
    p.lead = (first, front ++ name :: idles) ∧ (∀ piece ∈ idles, isIdlePiece piece = true) ∧
      isIdlePiece name = false ∧ name ≠ ".." := by
  obtain ⟨first, pieces, hlead⟩ : ∃ first pieces, p.lead = (first, pieces) := ⟨_, _, rfl⟩
  obtain ⟨idles, hpieces, hidles⟩ := exists_dropIdleEnd pieces
  have htrimmed := trimmed_dropIdleEnd pieces
  -- the last component is the name, so the last piece that is not idle is that name
  have hlast : p.components.getLast? = some (.normal name) := by
    unfold fileName? at h
    split at h
    · rename_i other hother
      cases h
      exact hother
    · cases h
  obtain hnil | ⟨front, last, hkept⟩ := List.eq_nil_or_concat (dropIdleEnd pieces)
  · -- there is nothing but the lead
    have hnone : pieces.filterMap ofPiece = [] := by
      rw [hpieces, hnil]
      exact List.filterMap_eq_nil_iff.mpr fun piece hmem => ofPiece_of_idle (hidles piece hmem)
    rw [components, hlead] at hlast
    dsimp only at hlast
    rw [hnone, List.append_nil] at hlast
    rcases (lead_spec hlead).1.lead with rfl | rfl | ⟨rfl, -⟩ <;> cases hlast
  · rw [List.concat_eq_append] at hkept
    have hidle : isIdlePiece last = false := htrimmed last (by rw [hkept, List.getLast?_concat]; rfl)
    rw [hkept, List.append_assoc, List.singleton_append] at hpieces
    rw [hpieces] at hlead
    by_cases hup : last = ".."
    · have hparent : ofPiece last = some .parent := by
        rw [ofPiece, hidle, if_neg Bool.false_ne_true, if_pos hup]
      rw [getLast?_components hlead hidles hparent] at hlast
      cases hlast
    · rw [getLast?_components hlead hidles (ofPiece_of_name hidle hup)] at hlast
      cases hlast
      exact ⟨first, front, idles, hlead, hidles, hidle, hup⟩

/-- The last piece of a path without a file name is idle or leads up. -/
theorem exists_last_of_fileName? (h : p.fileName? = none) (hne : p.text ≠ "") :
    ∃ before last, piecesOf '/' p.text = before ++ [last] ∧ (isIdlePiece last = true ∨ last = "..") := by
  obtain ⟨first, pieces, hlead⟩ : ∃ first pieces, p.lead = (first, pieces) := ⟨_, _, rfl⟩
  have hpieces := (lead_spec hlead).2 hne
  obtain rfl | ⟨front, last, hconcat⟩ := List.eq_nil_or_concat pieces
  -- without any piece behind the lead, the last is idle
  · rcases (lead_spec hlead).1.lead with rfl | rfl | ⟨rfl, -⟩
    · exact ⟨[], "", hpieces, Or.inl rfl⟩
    · exact ⟨[], ".", hpieces, Or.inl rfl⟩
    · have hjoined := toList_intercalate_piecesOf '/' p.text
      rw [hpieces] at hjoined
      exact absurd (String.toList_injective hjoined.symm) hne
  · rw [List.concat_eq_append] at hconcat
    subst hconcat
    refine ⟨leadPieces first ++ front, last, by rw [hpieces, List.append_assoc], ?_⟩
    by_cases hidle : isIdlePiece last = true
    · exact Or.inl hidle
    · rw [Bool.not_eq_true] at hidle
      refine Or.inr (Decidable.byContradiction fun hup => ?_)
      have hlast := getLast?_components hlead (fun _ hmem => absurd hmem List.not_mem_nil) (ofPiece_of_name hidle hup)
      rw [fileName?, hlast] at h
      cases h

/-- An extension is put behind the stem of the last name. -/
theorem withExtension_eq {idles : List String} {extension : String} (h : p.fileName? = some name)
    (hlead : p.lead = (first, front ++ name :: idles)) (hidles : ∀ piece ∈ idles, isIdlePiece piece = true)
    (hname : isIdlePiece name = false) :
    p.withExtension extension = ⟨spell first (front ++ [stemOf name ++ "." ++ extension])⟩ := by
  rw [withExtension, h, hlead]
  dsimp only
  rw [dropIdleEnd_append_idles hidles hname, List.dropLast_concat]

/-! ## Stems

  A name is cut at its last dot, except where the name begins with that. -/

/-- A part put at the end stands behind one separator more. -/
theorem intercalate_concat {α : Type} (sep : α) (last : List α) : ∀ {pieces : List (List α)}, pieces ≠ [] →
    [sep].intercalate (pieces ++ [last]) = [sep].intercalate pieces ++ sep :: last
  | [], h => absurd rfl h
  | [piece], _ => by
    rw [List.singleton_append, List.intercalate_cons_cons, List.intercalate_singleton, List.intercalate_singleton,
      List.append_assoc]
    rfl
  | piece :: next :: more, _ => by
    rw [List.cons_append, List.cons_append, List.intercalate_cons_cons, List.intercalate_cons_cons,
      ← List.cons_append, intercalate_concat sep last (List.cons_ne_nil next more), ← List.append_assoc]

/-- A name is its stem, or its stem with a dot and an extension. -/
theorem stemOf_spec (name : String) : stemOf name = name ∨ ∃ extension : String,
    '.' ∉ extension.toList ∧ name.toList = (stemOf name).toList ++ '.' :: extension.toList := by
  unfold stemOf
  -- a name without a dot, or with the only one at its head, is its own stem
  split
  · rename_i last before more hreverse
    dsimp only
    split
    · exact Or.inl rfl
    · have hpieces : piecesOf '.' name = (before :: more).reverse ++ [last] := by
        rw [← List.reverse_cons, ← hreverse, List.reverse_reverse]
      have hne : (before :: more).reverse.map String.toList ≠ [] := by simp
      refine Or.inr ⟨last, notMem_of_mem_piecesOf (s := name) ?_, ?_⟩
      · rw [hpieces]
        exact List.mem_append_right _ List.mem_cons_self
      · rw [← toList_intercalate_piecesOf '.' name, hpieces, List.map_append, List.map_singleton,
          intercalate_concat _ _ hne, String.toList_intercalate]
        rfl
  · exact Or.inl rfl

/-- A stem with two extensions is another name. -/
theorem stemOf_append_ne (name : String) : stemOf name ++ "." ++ "json.tmp" ≠ name := by
  intro heq
  have hchars := congrArg String.toList heq
  rw [String.toList_append, String.toList_append, List.append_assoc] at hchars
  rcases stemOf_spec name with hstem | ⟨extension, hdot, hname⟩
  · rw [hstem] at hchars
    exact absurd (List.append_right_eq_self.mp hchars) (by decide)
  · rw [hname] at hchars
    have htail := (List.cons.inj (List.append_cancel_left hchars)).2
    exact hdot (htail ▸ by decide)

/-! ## Spellings

  Which piece the path begins with says whether it is absolute, and which one it ends with says whether it ends in a
  slash. -/

/-- A path starts at the root if its first piece is empty. -/
theorem isAbsolute_iff (h : p.text ≠ "") : p.isAbsolute = true ↔ (piecesOf '/' p.text).head? = some "" := by
  -- the path begins with a slash exactly if the first of its pieces is empty
  have hne : p.text.toList ≠ [] := fun hnil => h (String.toList_injective hnil)
  rw [isAbsolute, String.startsWith_string_iff, piecesOf]
  obtain ⟨c, rest, hcs⟩ := List.exists_cons_of_ne_nil hne
  rw [hcs, splitAtChar]
  by_cases hc : c = '/'
  · rw [if_pos hc, hc]
    exact ⟨fun _ => rfl, fun _ => ⟨rest, rfl⟩⟩
  · rw [if_neg hc]
    refine ⟨fun hprefix => absurd (List.cons_prefix_cons.mp hprefix).1.symm hc, fun hhead => ?_⟩
    have hempty {cs : List Char} (heq : String.ofList (c :: cs) = "") : False := by
      have hcs := congrArg String.toList heq
      rw [String.toList_ofList] at hcs
      cases hcs
    split at hhead
    · exact (hempty (Option.some.inj hhead)).elim
    · exact (hempty (Option.some.inj hhead)).elim

/-- A path whose last piece is not empty does not end in a slash. -/
theorem endsInSlash_of_last (h : (piecesOf '/' p.text).getLast? ≠ some "") : FileTree.endsInSlash p = false := by
  rw [FileTree.endsInSlash, decide_eq_false_iff_not]
  intro hlast
  obtain ⟨before, hbefore⟩ := List.getLast?_eq_some_iff.mp hlast
  have htext : p.text = String.ofList before ++ ("/" ++ "") := by
    apply String.toList_injective
    rw [hbefore, String.toList_append, String.toList_ofList]
    rfl
  refine h ?_
  rw [htext, piecesOf_append_slash]
  exact List.getLast?_concat

/-- There is nothing to take from it. -/
theorem withoutEndSlashes_of_not (h : FileTree.endsInSlash p = false) : FileTree.withoutEndSlashes p = p := by
  rw [FileTree.endsInSlash, decide_eq_false_iff_not, List.getLast?_eq_head?_reverse] at h
  have hdrop : p.text.toList.reverse.dropWhile (fun c => c = '/') = p.text.toList.reverse := by
    cases hcs : p.text.toList.reverse with
    | nil => rfl
    | cons c rest =>
      rw [hcs] at h
      have hc : c ≠ '/' := fun heq => h (congrArg some heq)
      rw [List.dropWhile_cons, decide_eq_false hc, if_neg Bool.false_ne_true]
  rw [FileTree.withoutEndSlashes, dropEndWhile, hdrop, List.reverse_reverse, String.ofList_toList, ite_self]

/-! ## Pieces before the last

  The pieces before the last name, which are where a file of that name lies.  All the directories that are made for it
  lie along them. -/

/-- The pieces before the last that is not idle. -/
def outerPieces (p : Path) : List String := leadPieces p.lead.1 ++ (dropIdleEnd p.lead.2).dropLast

/-- The outer pieces are all but the last that is not idle. -/
theorem outerPieces_eq (hlead : p.lead = (first, pieces)) (hkept : dropIdleEnd pieces = front ++ [name]) :
    p.outerPieces = leadPieces first ++ front := by
  rw [outerPieces, hlead]
  dsimp only
  rw [hkept, List.dropLast_concat]

/-- The path is spelled by some of the first of these pieces, and perhaps idle ones. -/
structure Along (pieces : List String) (q : Path) : Prop where
  /-- The path is not empty. -/
  text : q.text ≠ ""
  /-- Its pieces are the first of these, with idle ones behind. -/
  spelled : ∃ fewer more idles, pieces = fewer ++ more ∧ fewer ≠ [] ∧ piecesOf '/' q.text = fewer ++ idles ∧
    ∀ piece ∈ idles, isIdlePiece piece = true
  /-- It does not end in a slash. -/
  slashes : FileTree.withoutEndSlashes q = q

/-- A spelled path, whose pieces are the first of others. -/
theorem along_spell {more : List String} (h : IsLead first pieces) (htrimmed : Trimmed pieces)
    (hne : spell first pieces ≠ "") : Along (leadPieces first ++ (pieces ++ more)) ⟨spell first pieces⟩ := by
  -- nothing but the lead, or the pieces up to some name
  by_cases hnil : pieces = []
  · subst hnil
    rcases h.lead with rfl | rfl | ⟨rfl, -⟩
    · exact ⟨hne, ⟨[""], more, [""], rfl, List.cons_ne_nil _ _, rfl, fun piece hpiece => by
        rw [List.mem_singleton.mp hpiece]; rfl⟩, rfl⟩
    · exact ⟨hne, ⟨["."], more, [], rfl, List.cons_ne_nil _ _, rfl, fun _ hpiece => by cases hpiece⟩, rfl⟩
    · exact absurd rfl hne
  · have hpieces := piecesOf_spell h hnil
    refine ⟨hne, ⟨leadPieces first ++ pieces, more, [], (List.append_assoc _ _ _).symm,
      List.append_ne_nil_of_right_ne_nil _ hnil, by rw [hpieces, List.append_nil], fun _ hpiece => by cases hpiece⟩,
      withoutEndSlashes_of_not (endsInSlash_of_last ?_)⟩
    intro hlast
    obtain ⟨last, hmem⟩ := Option.ne_none_iff_exists'.mp fun hnone => hnil (List.getLast?_eq_none_iff.mp hnone)
    rw [hpieces, List.getLast?_append, hmem] at hlast
    cases hlast
    cases htrimmed "" hmem

/-- **The directories above a path lie along its pieces.** -/
theorem along_of_mem_ancestors {q : Path} {count : Nat} (hq : q ∈ FileTree.ancestors count (p.parent?.getD ⟨""⟩)) :
    Along p.outerPieces q := by
  obtain ⟨first, pieces, hlead⟩ : ∃ first pieces, p.lead = (first, pieces) := ⟨_, _, rfl⟩
  obtain hnil | ⟨front, name, hkept⟩ := List.eq_nil_or_concat (dropIdleEnd pieces)
  · -- a path without names has no directories above it
    rw [parent_of_nil hlead hnil] at hq
    cases count with
    | zero => cases hq
    | succ count => cases hq
  · rw [List.concat_eq_append] at hkept
    have hfront : dropIdleEnd front <+: pieces :=
      (dropIdleEnd_starts front).trans ((List.prefix_append front [name]).trans (hkept ▸ dropIdleEnd_starts pieces))
    have hfirst := (lead_spec hlead).1.of_start hfront
    rw [parent?_eq hlead hkept, Option.getD_some] at hq
    obtain ⟨fewer, hfewer, htrimmed, rfl, hne⟩ := exists_of_mem_ancestors hfirst (trimmed_dropIdleEnd front) hq
    obtain ⟨more, rfl⟩ := hfewer.trans (dropIdleEnd_starts front)
    rw [outerPieces_eq hlead hkept]
    exact along_spell (hfirst.of_start hfewer) htrimmed hne

/-- The parent of a path is spelled by the pieces before the last, but for idle ones. -/
theorem exists_of_parent (h : (p.parent?.getD ⟨""⟩).text ≠ "") : ∃ fewer more idles,
    p.outerPieces = fewer ++ more ∧ fewer ≠ [] ∧ piecesOf '/' (p.parent?.getD ⟨""⟩).text = fewer ++ idles ∧
      (∀ piece ∈ more, isIdlePiece piece = true) ∧ ∀ piece ∈ idles, isIdlePiece piece = true := by
  obtain ⟨first, pieces, hlead⟩ : ∃ first pieces, p.lead = (first, pieces) := ⟨_, _, rfl⟩
  obtain hnil | ⟨front, name, hkept⟩ := List.eq_nil_or_concat (dropIdleEnd pieces)
  · rw [parent_of_nil hlead hnil] at h
    exact absurd rfl h
  · rw [List.concat_eq_append] at hkept
    have hfront : dropIdleEnd front <+: pieces :=
      (dropIdleEnd_starts front).trans ((List.prefix_append front [name]).trans (hkept ▸ dropIdleEnd_starts pieces))
    have hfirst := (lead_spec hlead).1.of_start hfront
    obtain ⟨more, hmore, hidle⟩ := exists_dropIdleEnd front
    rw [parent?_eq hlead hkept, Option.getD_some] at h ⊢
    rw [outerPieces_eq hlead hkept]
    -- nothing above the name but the lead, or names above it
    by_cases hempty : dropIdleEnd front = []
    · rw [hempty] at h hmore ⊢
      rw [List.nil_append] at hmore
      rcases hfirst.lead with rfl | rfl | ⟨rfl, -⟩
      · exact ⟨[""], front, [""], rfl, List.cons_ne_nil _ _, rfl, hmore ▸ hidle, fun piece hpiece => by
          rw [List.mem_singleton.mp hpiece]; rfl⟩
      · exact ⟨["."], front, [], rfl, List.cons_ne_nil _ _, rfl, hmore ▸ hidle, fun _ hpiece => by cases hpiece⟩
      · exact absurd rfl h
    · exact ⟨leadPieces first ++ dropIdleEnd front, more, [], by rw [List.append_assoc, ← hmore],
        List.append_ne_nil_of_right_ne_nil _ hempty, by rw [piecesOf_spell hfirst hempty, List.append_nil], hidle,
        fun _ hpiece => by cases hpiece⟩

/-- A path that leads up has a component for that. -/
theorem parent_mem_components (h : ".." ∈ p.outerPieces) : Component.parent ∈ p.components := by
  obtain ⟨first, pieces, hlead⟩ : ∃ first pieces, p.lead = (first, pieces) := ⟨_, _, rfl⟩
  rw [outerPieces, hlead] at h
  rw [components, hlead]
  dsimp only at h ⊢
  have hmem : ".." ∈ pieces := by
    rcases List.mem_append.mp h with h | h
    · rcases (lead_spec hlead).1.lead with rfl | rfl | ⟨rfl, -⟩
      · exact absurd h (by decide)
      · exact absurd h (by decide)
      · cases h
    · exact (dropIdleEnd_starts pieces).subset (List.dropLast_subset _ h)
  exact List.mem_append_right _ (List.mem_filterMap.mpr ⟨"..", hmem, rfl⟩)

/-- A path that never leads up and has a name before its last piece has a file name. -/
theorem exists_fileName? (hup : Component.parent ∉ p.components)
    (h : ∃ piece ∈ p.outerPieces, isIdlePiece piece = false) :
    ∃ name, p.fileName? = some name := by
  obtain ⟨first, pieces, hlead⟩ : ∃ first pieces, p.lead = (first, pieces) := ⟨_, _, rfl⟩
  obtain ⟨idles, hpieces, hidles⟩ := exists_dropIdleEnd pieces
  -- without a name the outer pieces are the lead, which is idle
  obtain hnil | ⟨front, last, hkept⟩ := List.eq_nil_or_concat (dropIdleEnd pieces)
  · obtain ⟨piece, hpiece, hidle⟩ := h
    rw [outerPieces, hlead] at hpiece
    dsimp only at hpiece
    rw [hnil, List.dropLast_nil, List.append_nil] at hpiece
    rcases (lead_spec hlead).1.lead with rfl | rfl | ⟨rfl, -⟩
    · rw [List.mem_singleton.mp hpiece] at hidle
      cases hidle
    · rw [List.mem_singleton.mp hpiece] at hidle
      cases hidle
    · cases hpiece
  · rw [List.concat_eq_append] at hkept
    have hidle : isIdlePiece last = false :=
      trimmed_dropIdleEnd pieces last (by rw [hkept, List.getLast?_concat]; rfl)
    rw [hkept, List.append_assoc, List.singleton_append] at hpieces
    rw [hpieces] at hlead
    have hne : last ≠ ".." := by
      rintro rfl
      exact hup (List.mem_of_getLast? (getLast?_components hlead hidles rfl))
    refine ⟨last, ?_⟩
    rw [fileName?, getLast?_components hlead hidles (ofPiece_of_name hidle hne)]

/-- A path with a file name is not empty. -/
theorem text_ne_empty_of_fileName? (h : p.fileName? = some name) : p.text ≠ "" := by
  intro htext
  obtain ⟨text⟩ := p
  dsimp only at htext
  subst htext
  cases h

/-- Its pieces are the outer ones, the name, and idle ones. -/
theorem piecesOf_of_fileName? (h : p.fileName? = some name) : ∃ idles,
    piecesOf '/' p.text = p.outerPieces ++ name :: idles ∧ (∀ piece ∈ idles, isIdlePiece piece = true) ∧
      isIdlePiece name = false ∧ name ≠ ".." := by
  obtain ⟨first, front, idles, hlead, hidles, hname, hup⟩ := exists_of_fileName? h
  refine ⟨idles, ?_, hidles, hname, hup⟩
  rw [(lead_spec hlead).2 (text_ne_empty_of_fileName? h),
    outerPieces_eq hlead (dropIdleEnd_append_idles hidles hname), List.append_assoc]

/-- A path with a name that stands behind others has a parent, and its text is not empty. -/
theorem exists_parent (h : p.fileName? = some name) (houter : p.outerPieces ≠ []) :
    ∃ q, p.parent? = some q ∧ q.text ≠ "" := by
  obtain ⟨first, front, idles, hlead, hidles, hname, -⟩ := exists_of_fileName? h
  have hkept : dropIdleEnd (front ++ name :: idles) = front ++ [name] := dropIdleEnd_append_idles hidles hname
  have hfirst := (lead_spec hlead).1.of_start ((dropIdleEnd_starts front).trans (List.prefix_append _ _))
  refine ⟨_, parent?_eq hlead hkept, fun htext => houter ?_⟩
  dsimp only at htext
  by_cases hempty : dropIdleEnd front = []
  · rw [hempty] at htext
    obtain ⟨rest, hfront, hrest⟩ := exists_dropIdleEnd front
    rw [hempty, List.nil_append] at hfront
    rcases (lead_spec hlead).1.lead with rfl | rfl | ⟨rfl, hhead⟩
    · exact absurd htext (by decide)
    · exact absurd htext (by decide)
    · -- the first piece of a path without a lead is a name
      rw [outerPieces_eq hlead hkept, hfront]
      cases rest with
      | nil => rfl
      | cons piece more =>
        rw [hfront] at hhead
        have hidle := hhead piece rfl
        rw [hrest piece List.mem_cons_self] at hidle
        cases hidle
  · have hpieces := piecesOf_spell hfirst hempty
    rw [htext] at hpieces
    obtain ⟨last, hlast⟩ := Option.ne_none_iff_exists'.mp fun hnone => hempty (List.getLast?_eq_none_iff.mp hnone)
    have hend := congrArg List.getLast? hpieces
    rw [List.getLast?_append, hlast] at hend
    have hidle := trimmed_dropIdleEnd front last hlast
    rw [← Option.some.inj hend] at hidle
    cases hidle

/-! ## Temporary names

  A file is written under another name first and takes its own by a rename.  The temporary name lies in the same
  directory and is a different one. -/

/-- The name of a file that is written before it takes another's place. -/
def temporaryName (name : String) : String := stemOf name ++ "." ++ "json.tmp"

/-- The temporary name differs from the name. -/
theorem temporaryName_ne (name : String) : temporaryName name ≠ name := stemOf_append_ne name

/-- It ends in the ending of temporary files. -/
theorem toList_temporaryName (name : String) :
    (temporaryName name).toList = (stemOf name).toList ++ ".json.tmp".toList := by
  rw [temporaryName, String.toList_append, String.toList_append, List.append_assoc]
  rfl

/-- A short name is no temporary one. -/
theorem temporaryName_ne_of_short {name s : String} (h : s.toList.length < 9) : temporaryName name ≠ s := by
  intro heq
  have hlength := congrArg List.length (toList_temporaryName name)
  rw [heq, List.length_append] at hlength
  have hnine : ".json.tmp".toList.length = 9 := rfl
  omega

/-- It is a name. -/
theorem isIdlePiece_temporaryName (name : String) : isIdlePiece (temporaryName name) = false := by
  rw [isIdlePiece, Bool.or_eq_false_iff, decide_eq_false_iff_not, decide_eq_false_iff_not]
  exact ⟨temporaryName_ne_of_short (by decide), temporaryName_ne_of_short (by decide)⟩

/-- It has no slash unless the name had one. -/
theorem notMem_temporaryName (h : '/' ∉ name.toList) : '/' ∉ (temporaryName name).toList := by
  rw [toList_temporaryName, List.mem_append, not_or]
  refine ⟨fun hmem => h ?_, by decide⟩
  rcases stemOf_spec name with hstem | ⟨extension, -, hname⟩
  · rwa [hstem] at hmem
  · rw [hname]
    exact List.mem_append_left _ hmem

/-- A path with a temporary name has the same pieces before it. -/
theorem piecesOf_withExtension (h : p.fileName? = some name) :
    piecesOf '/' (p.withExtension "json.tmp").text = p.outerPieces ++ [temporaryName name] := by
  obtain ⟨first, front, idles, hlead, hidles, hname, hup⟩ := exists_of_fileName? h
  have hfirst := (lead_spec hlead).1
  -- the temporary name stands where the name stood
  have htemporary : IsLead first (front ++ [temporaryName name]) := by
    constructor
    · refine hfirst.lead.imp_right (Or.imp_right fun ⟨hnone, hhead⟩ => ⟨hnone, fun piece hpiece => ?_⟩)
      cases front with
      | nil =>
        cases hpiece
        exact isIdlePiece_temporaryName name
      | cons piece' rest => exact hhead piece hpiece
    · intro piece hpiece
      rcases List.mem_append.mp hpiece with hpiece | hpiece
      · exact hfirst.slash piece (List.mem_append_left _ hpiece)
      · rw [List.mem_singleton.mp hpiece]
        exact notMem_temporaryName (hfirst.slash name (List.mem_append_right _ List.mem_cons_self))
  rw [withExtension_eq h hlead hidles hname, outerPieces_eq hlead (dropIdleEnd_append_idles hidles hname)]
  dsimp only
  rw [List.append_assoc, ← piecesOf_spell htemporary (List.append_ne_nil_of_right_ne_nil _ (List.cons_ne_nil _ _))]
  rfl

end Path

end Wheelwright
