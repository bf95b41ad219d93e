/-
  Children of paths — names added to a path, and the order of paths.

  **Specification** — a path with a name added has the components of the path and the name (`components_child`), and over
  several names it has all of them (`components_foldl_child`).  Paths are in order by their components, and two paths
  of which neither comes before the other have the same ones (`componentsLt_connected`).

  **The crux** — a path that ends in a slash has an idle piece at its end.  The name takes the place of this piece, and
  is put behind the last one otherwise (`exists_piecesOf_child`).
-/
import Wheelwright.Proofs.Path.Pieces

namespace Wheelwright

/-- A name that an entry of a directory can have. -/
structure EntryName (name : String) : Prop where
  /-- It is neither empty nor a dot. -/
  idle : isIdlePiece name = false
  /-- It does not go up. -/
  up : name ≠ ".."
  /-- It holds no character that a name cannot hold. -/
  slash : '/' ∉ name.toList
  nul : Char.ofNat 0 ∉ name.toList

instance (name : String) : Decidable (EntryName name) :=
  decidable_of_iff (isIdlePiece name = false ∧ name ≠ ".." ∧ '/' ∉ name.toList ∧ Char.ofNat 0 ∉ name.toList)
    ⟨fun h => ⟨h.1, h.2.1, h.2.2.1, h.2.2.2⟩, fun h => ⟨h.idle, h.up, h.slash, h.nul⟩⟩

namespace Path

variable {p : Path} {name first : String} {names front rest : List String}

/-! ## Pieces of a child

  A name is put behind a path with a slash between them, unless the path ends in one or is empty.  Seen by pieces the
  three cases are two: the name stands behind the pieces, or in the place of an empty last one. -/

/-- A name without a slash is one piece. -/
theorem piecesOf_name (h : '/' ∉ name.toList) : piecesOf '/' name = [name] := by
  have hpieces := piecesOf_intercalate (List.cons_ne_nil name []) fun piece hpiece => by
    rwa [List.mem_singleton.mp hpiece]
  rwa [String.intercalate_singleton] at hpieces

/-- The parent of a lone name has no text. -/
theorem parent_of_name (hidle : isIdlePiece name = false) (h : '/' ∉ name.toList) : parent? ⟨name⟩ = some ⟨""⟩ := by
  have hlead : lead ⟨name⟩ = (none, [name]) := by
    have hname := hidle
    rw [isIdlePiece, Bool.or_eq_false_iff, decide_eq_false_iff_not, decide_eq_false_iff_not] at hname
    rw [lead, piecesOf_name h]
    dsimp only
    rw [if_neg hname.1, if_neg hname.2]
  have hkept : dropIdleEnd ([] ++ [name]) = [] ++ [name] := dropIdleEnd_concat hidle
  exact parent?_eq hlead hkept

/-- What does not begin with a slash is relative. -/
theorem isAbsolute_of_head {s : String} (h : s.toList.head? ≠ some '/') : isAbsolute ⟨s⟩ = false := by
  rw [← Bool.not_eq_true, isAbsolute, String.startsWith_string_iff]
  rintro ⟨rest, hrest⟩
  exact h (hrest ▸ rfl)

/-- So is a name. -/
theorem isAbsolute_name (h : '/' ∉ name.toList) : isAbsolute ⟨name⟩ = false :=
  isAbsolute_of_head fun hhead => h (List.mem_of_mem_head? hhead)

/-- A path that ends in a slash is one with a slash put behind it. -/
theorem endsWith_slash_iff : p.text.endsWith "/" = true ↔ ∃ before, p.text = before ++ "/" := by
  rw [String.endsWith_eq_endsWith_toSlice, String.Slice.endsWith_string_iff, String.copy_toSlice]
  constructor
  · rintro ⟨before, hbefore⟩
    refine ⟨String.ofList before, String.toList_injective ?_⟩
    rw [String.toList_append, String.toList_ofList, hbefore]
  · rintro ⟨before, hbefore⟩
    exact ⟨before.toList, by rw [hbefore, String.toList_append]⟩

/-- The text of joined paths: the other one stands behind a slash. -/
theorem text_join {other : Path} (h : other.isAbsolute = false) (hp : p.text ≠ "") :
    (∃ before, p.text = before ++ "/" ∧ (p.join other).text = before ++ ("/" ++ other.text)) ∨
      (p.join other).text = p.text ++ ("/" ++ other.text) := by
  rw [join, h, if_neg Bool.false_ne_true, decide_eq_false hp, Bool.false_or]
  by_cases hend : p.text.endsWith "/" = true
  · obtain ⟨before, hbefore⟩ := endsWith_slash_iff.mp hend
    rw [if_pos hend]
    exact Or.inl ⟨before, hbefore, by rw [hbefore, String.append_assoc]⟩
  · rw [if_neg hend]
    exact Or.inr String.append_assoc

/-- Behind an empty path stands what is joined to it. -/
theorem join_of_empty {other : Path} (h : other.isAbsolute = false) (hp : p.text = "") : p.join other = other := by
  rw [join, h, if_neg Bool.false_ne_true, decide_eq_true hp, Bool.true_or, if_pos rfl, hp, String.empty_append]

/-- The child's name stands behind a slash, which is put there if there is none. -/
theorem text_child (h : EntryName name) (hp : p.text ≠ "") :
    (∃ before, p.text = before ++ "/" ∧ (p.child name).text = before ++ ("/" ++ name)) ∨
      (p.child name).text = p.text ++ ("/" ++ name) := text_join (isAbsolute_name h.slash) hp

/-- The child of an empty path is its name. -/
theorem text_child_of_empty (h : EntryName name) (hp : p.text = "") : p.child name = ⟨name⟩ :=
  join_of_empty (isAbsolute_name h.slash) hp

/-- A text has at least one piece. -/
theorem piecesOf_ne_nil (s : String) : piecesOf '/' s ≠ [] := by
  rw [piecesOf_eq, List.splitOn]
  exact fun hnil => List.splitOnP_ne_nil _ _ (List.map_eq_nil_iff.mp hnil)

/-- **The pieces of joined paths**: those of the first, without an empty one at the end, and those of the other. -/
theorem exists_piecesOf_join {other : Path} (h : other.isAbsolute = false) (hp : p.text ≠ "") : ∃ front,
    front ≠ [] ∧ (piecesOf '/' p.text = front ∨ piecesOf '/' p.text = front ++ [""]) ∧
      piecesOf '/' (p.join other).text = front ++ piecesOf '/' other.text := by
  rcases text_join h hp with ⟨before, hbefore, hjoin⟩ | hjoin
  · refine ⟨piecesOf '/' before, piecesOf_ne_nil _, Or.inr ?_, by rw [hjoin, piecesOf_append_slash]⟩
    have hend : piecesOf '/' (before ++ ("/" ++ "")) = piecesOf '/' before ++ piecesOf '/' "" :=
      piecesOf_append_slash before ""
    rw [hbefore]
    exact hend
  · exact ⟨piecesOf '/' p.text, piecesOf_ne_nil _, Or.inl rfl, by rw [hjoin, piecesOf_append_slash]⟩

/-- **The pieces of a child**: those of the path, without an empty one at the end, and the name. -/
theorem exists_piecesOf_child (h : EntryName name) (hp : p.text ≠ "") : ∃ front,
    front ≠ [] ∧ (piecesOf '/' p.text = front ∨ piecesOf '/' p.text = front ++ [""]) ∧
      piecesOf '/' (p.child name).text = front ++ [name] := by
  have hjoin := exists_piecesOf_join (isAbsolute_name h.slash) hp
  rwa [piecesOf_name h.slash] at hjoin

/-- The pieces of a child are those of the path and its name. -/
theorem piecesOf_child_of_last {last : String} (h : EntryName name) (hlast : isIdlePiece last = false)
    (hpieces : piecesOf '/' p.text = front ++ [last]) : piecesOf '/' (p.child name).text = front ++ [last] ++ [name] := by
  have hp : p.text ≠ "" := fun hempty => by
    rw [hempty] at hpieces
    have hsplit : [] ++ [""] = front ++ [last] := hpieces
    obtain ⟨-, hlast'⟩ := List.append_inj' hsplit rfl
    rw [← List.singleton_inj.mp hlast'] at hlast
    cases hlast
  obtain ⟨front', -, hpieces' | hpieces', hchild⟩ := exists_piecesOf_child h hp
  · rw [hchild, ← hpieces', hpieces]
  · rw [hpieces'] at hpieces
    obtain ⟨-, hlast'⟩ := List.append_inj' hpieces rfl
    rw [← List.singleton_inj.mp hlast'] at hlast
    cases hlast

/-- The pieces of a path with names added: those of the path, without an empty one at the end, and the names. -/
theorem exists_piecesOf_foldl_child (h : ∀ name ∈ names, EntryName name) (hne : names ≠ []) (hp : p.text ≠ "") :
    ∃ front, front ≠ [] ∧ (piecesOf '/' p.text = front ∨ piecesOf '/' p.text = front ++ [""]) ∧
      piecesOf '/' (names.foldl child p).text = front ++ names := by
  -- on the names from the last one, which lies below what the others come to
  induction names using List.reverseRecOn with
  | nil => exact absurd rfl hne
  | append_singleton before name ih =>
    have hname := h name (List.mem_append_right _ (List.mem_singleton_self _))
    have hbefore : ∀ name ∈ before, EntryName name := fun name hmem => h name (List.mem_append_left _ hmem)
    rw [List.foldl_append, List.foldl_cons, List.foldl_nil]
    cases before using List.reverseRecOn with
    | nil => exact exists_piecesOf_child hname hp
    | append_singleton start last =>
      obtain ⟨front, hfront, hpieces, hfold⟩ :=
        ih hbefore (List.append_ne_nil_of_right_ne_nil _ (List.cons_ne_nil _ _))
      have hlast := hbefore last (List.mem_append_right _ (List.mem_singleton_self _))
      refine ⟨front, hfront, hpieces, ?_⟩
      rw [← List.append_assoc] at hfold
      rw [piecesOf_child_of_last hname hlast.idle hfold, List.append_assoc, List.append_assoc, List.append_assoc]

/-! ## Components of a child

  Components are the pieces that stand for something, with what the path begins with.  So a name that is added is a
  component more, whichever way it was put there. -/

/-- The component that the first piece of a path stands for. -/
def firstComponent (first : String) : Option Component :=
  if first = "" then some .root else if first = "." then some .current else ofPiece first

/-- The first piece says how the path begins; the others are components unless they are idle. -/
theorem components_of_pieces (hpieces : piecesOf '/' p.text = first :: rest) (hrest : first = "" → rest ≠ []) :
    p.components = (firstComponent first).toList ++ rest.filterMap ofPiece := by
  rw [components, lead, hpieces]
  dsimp only
  unfold firstComponent
  by_cases hroot : first = ""
  · rw [if_pos hroot, if_pos hroot, List.isEmpty_eq_false_iff.mpr (hrest hroot)]
    rfl
  · rw [if_neg hroot, if_neg hroot]
    by_cases hhere : first = "."
    · rw [if_pos hhere, if_pos hhere]
    · rw [if_neg hhere, if_neg hhere, List.filterMap_cons]
      cases ofPiece first <;> rfl

/-- The empty path has no components. -/
theorem components_of_empty (hp : p.text = "") : p.components = [] := by
  rw [components, lead, hp]
  rfl

/-- **What is joined adds the components of its pieces.** -/
theorem components_join {other : Path} (h : other.isAbsolute = false) (hp : p.text ≠ "") :
    (p.join other).components = p.components ++ (piecesOf '/' other.text).filterMap ofPiece := by
  obtain ⟨front, hfront, hpieces, hjoin⟩ := exists_piecesOf_join h hp
  obtain ⟨first, rest, rfl⟩ := List.exists_cons_of_ne_nil hfront
  rw [List.cons_append] at hpieces hjoin
  rw [components_of_pieces hjoin fun _ => List.append_ne_nil_of_right_ne_nil _ (piecesOf_ne_nil _),
    List.filterMap_append]
  -- an empty piece at the end of the path stands for no component
  rcases hpieces with hpieces | hpieces
  · have hrest : first = "" → rest ≠ [] := fun hroot => ne_nil_of_piecesOf (hroot ▸ hpieces) hp
    rw [components_of_pieces hpieces hrest, List.append_assoc]
  · have hidle : [""].filterMap ofPiece = [] := rfl
    rw [components_of_pieces hpieces fun _ => List.append_ne_nil_of_right_ne_nil _ (List.cons_ne_nil _ _),
      List.filterMap_append, hidle, List.append_nil, List.append_assoc]

/-- **A name that is added is one more component.** -/
theorem components_child (h : EntryName name) : (p.child name).components = p.components ++ [.normal name] := by
  have hname : [name].filterMap ofPiece = [.normal name] := by
    rw [List.filterMap_cons, ofPiece_of_name h.idle h.up]
    rfl
  -- the empty path is replaced by the name, any other is joined with it
  by_cases hp : p.text = ""
  · rw [text_child_of_empty h hp, components_of_empty hp]
    have hne : name ≠ "" := fun heq => by
      rw [heq] at h
      cases h.idle
    have hne' : name ≠ "." := fun heq => by
      rw [heq] at h
      cases h.idle
    rw [components_of_pieces (piecesOf_name h.slash) fun heq => absurd heq hne, firstComponent, if_neg hne, if_neg hne',
      ofPiece_of_name h.idle h.up]
    rfl
  · rw [child, components_join (isAbsolute_name h.slash) hp, piecesOf_name h.slash, hname]

/-- Names that are appended one by one are components one by one. -/
theorem components_foldl_child (h : ∀ name ∈ names, EntryName name) :
    (names.foldl child p).components = p.components ++ names.map .normal := by
  induction names generalizing p with
  | nil => exact (List.append_nil _).symm
  | cons name rest ih =>
    rw [List.foldl_cons, ih fun name hname => h name (List.mem_cons_of_mem _ hname),
      components_child (h name List.mem_cons_self), List.append_assoc]
    rfl

/-- Different names lead to different paths. -/
theorem foldl_child_inj {names' : List String} (h : ∀ name ∈ names, EntryName name)
    (h' : ∀ name ∈ names', EntryName name)
    (heq : (names.foldl child p).components = (names'.foldl child p).components) : names = names' := by
  rw [components_foldl_child h, components_foldl_child h'] at heq
  exact (List.map_inj_right fun _ _ => Component.normal.inj).mp (List.append_cancel_left heq)

/-- No child is the empty path. -/
theorem text_child_ne (h : EntryName name) : (p.child name).text ≠ "" := by
  intro heq
  have hcomponents := components_child (p := p) h
  rw [components_of_empty heq] at hcomponents
  exact List.append_ne_nil_of_right_ne_nil _ (List.cons_ne_nil _ _) hcomponents.symm

/-- A child does not end in a slash. -/
theorem endsWith_child (h : EntryName name) : (p.child name).text.endsWith "/" = false := by
  rw [← Bool.not_eq_true, endsWith_slash_iff]
  rintro ⟨before, hbefore⟩
  have hend : piecesOf '/' (before ++ ("/" ++ "")) = piecesOf '/' before ++ [""] := piecesOf_append_slash before ""
  have hpieces : ∃ front, piecesOf '/' (p.child name).text = front ++ [name] := by
    by_cases hp : p.text = ""
    · exact ⟨[], by rw [text_child_of_empty h hp, piecesOf_name h.slash]; rfl⟩
    · obtain ⟨front, -, -, hchild⟩ := exists_piecesOf_child h hp
      exact ⟨front, hchild⟩
  obtain ⟨front, hfront⟩ := hpieces
  rw [hbefore] at hfront
  obtain ⟨-, hname⟩ := List.append_inj' (hend.symm.trans hfront) rfl
  have hidle := h.idle
  rw [← List.singleton_inj.mp hname] at hidle
  cases hidle

/-- What is joined to a child stands behind a slash. -/
theorem join_of_child {other : Path} (h : EntryName name) (hother : other.isAbsolute = false) :
    (p.child name).join other = ⟨(p.child name).text ++ "/" ++ other.text⟩ := by
  rw [join, hother, if_neg Bool.false_ne_true, decide_eq_false (text_child_ne h), endsWith_child h]
  rfl

/-- A child has no NUL if the path has none. -/
theorem nul_notMem_child (h : EntryName name) (hp : Char.ofNat 0 ∉ p.text.toList) :
    Char.ofNat 0 ∉ (p.child name).text.toList := by
  have hslash : Char.ofNat 0 ∉ "/".toList := by decide
  by_cases hempty : p.text = ""
  · rw [text_child_of_empty h hempty]
    exact h.nul
  · rcases text_child h hempty with ⟨before, hbefore, hchild⟩ | hchild
    · rw [hbefore, String.toList_append, List.mem_append, not_or] at hp
      rw [hchild, String.toList_append, String.toList_append, List.mem_append, List.mem_append, not_or, not_or]
      exact ⟨hp.1, hslash, h.nul⟩
    · rw [hchild, String.toList_append, String.toList_append, List.mem_append, List.mem_append, not_or, not_or]
      exact ⟨hp, hslash, h.nul⟩

/-! ## Order

  Files are put in order by the components of their paths.  The order is a strict total one on components and on lists
  of them, and children of one path are ordered by their names. -/

section Order

variable {a b c : Component} {as bs cs : List Component}

/-- A component comes first by its kind, or as a name. -/
theorem componentLt_iff : componentLt a b = true ↔
    kindRank a < kindRank b ∨ ∃ x y, a = .normal x ∧ b = .normal y ∧ x < y := by
  cases a <;> cases b <;> simp [componentLt, kindRank]

/-- No component stands before itself. -/
theorem componentLt_irrefl (a : Component) : componentLt a a = false := by
  rw [← Bool.not_eq_true, componentLt_iff]
  rintro (hrank | ⟨x, y, rfl, hxy, hlt⟩)
  · exact Nat.lt_irrefl _ hrank
  · cases hxy
    exact String.lt_irrefl _ hlt

/-- The order of components is transitive. -/
theorem componentLt_trans (h : componentLt a b = true) (h' : componentLt b c = true) : componentLt a c = true := by
  rw [componentLt_iff] at h h' ⊢
  rcases h with hrank | ⟨x, y, rfl, rfl, hxy⟩
  · rcases h' with hrank' | ⟨y, z, rfl, rfl, -⟩
    · exact Or.inl (Nat.lt_trans hrank hrank')
    · exact Or.inl hrank
  · rcases h' with hrank' | ⟨y', z, hy, rfl, hyz⟩
    · exact Or.inl hrank'
    · cases hy
      exact Or.inr ⟨x, z, rfl, rfl, String.lt_trans hxy hyz⟩

/-- It connects any two components. -/
theorem componentLt_connected (a b : Component) : componentLt a b = true ∨ a = b ∨ componentLt b a = true := by
  rw [componentLt_iff, componentLt_iff]
  rcases Nat.lt_trichotomy (kindRank a) (kindRank b) with hrank | hrank | hrank
  · exact Or.inl (Or.inl hrank)
  · by_cases heq : a = b
    · exact Or.inr (Or.inl heq)
    · -- two different components of one kind are names
      obtain ⟨x, y, rfl, rfl⟩ : ∃ x y, a = .normal x ∧ b = .normal y := by
        cases a <;> cases b <;> first | exact ⟨_, _, rfl, rfl⟩ | exact absurd rfl heq | cases hrank
      rcases Decidable.em (x < y) with hlt | hge
      · exact Or.inl (Or.inr ⟨x, y, rfl, rfl, hlt⟩)
      · rcases Decidable.em (y < x) with hlt' | hge'
        · exact Or.inr (Or.inr (Or.inr ⟨y, x, rfl, rfl, hlt'⟩))
        · exact absurd (congrArg Component.normal (String.le_antisymm (String.not_lt.mp hge') (String.not_lt.mp hge))) heq
  · exact Or.inr (Or.inr (Or.inl hrank))

/-- Paths are in order by the first component in which they differ. -/
theorem componentsLt_cons : componentsLt (a :: as) (b :: bs) = true ↔
    componentLt a b = true ∨ a = b ∧ componentsLt as bs = true := by
  rw [componentsLt, Bool.or_eq_true, Bool.and_eq_true, decide_eq_true_eq]

/-- No path stands before itself. -/
theorem componentsLt_irrefl (as : List Component) : componentsLt as as = false := by
  induction as with
  | nil => rfl
  | cons a as ih => rw [componentsLt, componentLt_irrefl, ih, Bool.and_false, Bool.or_false]

/-- The order of paths is transitive. -/
theorem componentsLt_trans (h : componentsLt as bs = true) (h' : componentsLt bs cs = true) :
    componentsLt as cs = true := by
  -- by the first path; the two orders are decided at the same component or at different ones
  induction as generalizing bs cs with
  | nil =>
    cases bs with
    | nil => cases h
    | cons b bs =>
      cases cs with
      | nil => cases h'
      | cons c cs => rfl
  | cons a as ih =>
    cases bs with
    | nil => cases h
    | cons b bs =>
      cases cs with
      | nil => cases h'
      | cons c cs =>
        rw [componentsLt_cons] at h h' ⊢
        rcases h with h | ⟨rfl, h⟩
        · rcases h' with h' | ⟨rfl, h'⟩
          · exact Or.inl (componentLt_trans h h')
          · exact Or.inl h
        · rcases h' with h' | ⟨rfl, h'⟩
          · exact Or.inl h'
          · exact Or.inr ⟨rfl, ih h h'⟩

/-- Of two different lists of components one comes first. -/
theorem componentsLt_connected (as bs : List Component) :
    componentsLt as bs = true ∨ as = bs ∨ componentsLt bs as = true := by
  -- by the first path; a path that has ended comes first
  induction as generalizing bs with
  | nil =>
    cases bs with
    | nil => exact Or.inr (Or.inl rfl)
    | cons b bs => exact Or.inl rfl
  | cons a as ih =>
    cases bs with
    | nil => exact Or.inr (Or.inr rfl)
    | cons b bs =>
      rw [componentsLt_cons, componentsLt_cons]
      rcases componentLt_connected a b with hlt | rfl | hgt
      · exact Or.inl (Or.inl hlt)
      · rcases ih bs with hlt | rfl | hgt
        · exact Or.inl (Or.inr ⟨rfl, hlt⟩)
        · exact Or.inr (Or.inl rfl)
        · exact Or.inr (Or.inr (Or.inr ⟨rfl, hgt⟩))
      · exact Or.inr (Or.inr (Or.inl hgt))

/-- What comes before or is the same, written as what does not come after. -/
theorem componentsLt_le_trans (h : componentsLt bs as = false) (h' : componentsLt cs bs = false) :
    componentsLt cs as = false := by
  rcases componentsLt_connected as bs with hlt | rfl | hgt
  · rcases componentsLt_connected bs cs with hlt' | rfl | hgt'
    · rw [← Bool.not_eq_true]
      intro hback
      have hloop := componentsLt_trans (componentsLt_trans hlt hlt') hback
      rw [componentsLt_irrefl] at hloop
      cases hloop
    · exact h
    · rw [hgt'] at h'
      cases h'
  · exact h'
  · rw [hgt] at h
    cases h

/-- Components that both begin with do not count. -/
theorem componentsLt_append (as bs cs : List Component) :
    componentsLt (as ++ bs) (as ++ cs) = componentsLt bs cs := by
  induction as with
  | nil => rfl
  | cons a as ih =>
    rw [List.cons_append, List.cons_append, componentsLt, componentLt_irrefl, decide_eq_true rfl, Bool.true_and,
      Bool.false_or, ih]

/-- Children are in the order of their names. -/
theorem child_lt_child {name' : String} (h : EntryName name) (h' : EntryName name') :
    (p.child name).lt (p.child name') = true ↔ name < name' := by
  rw [lt, components_child h, components_child h', componentsLt_append, componentsLt_cons, componentLt_iff]
  simp [kindRank, componentsLt]

end Order

end Path

end Wheelwright
