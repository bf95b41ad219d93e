/-
  Rendering — when filling placeholders one after another is filling them all at once.

  **Specification** — all at once: a part is gone through from the left, every placeholder that stands in it gives its
  value, and every other character stays (`Substitutes`).  A part that is nothing but the backend's argument is dropped if
  there is none (`Renders`).

  **Program** — one after another: there is a pass for each placeholder, over a text that the values of earlier ones have
  come into.  A pass fills its placeholder wherever it stands, in the part, in a value, or across the border of the two.

  **The crux** — placeholders do not overlap, as each opens with a brace and has no other one.  So those of a part stand
  there until they are filled, and a pass can only find more of them than the part has (`Substitutes.le`); if it finds no
  more, it fills just these (`Substitutes.pass`).  Hence the condition: no pass finds more (`Settled`).
-/
import Mathlib.Data.Fin.Basic
import Mathlib.Logic.Function.Basic
import Wheelwright.Backend
import Wheelwright.Proofs.Command.Occurrences

namespace Wheelwright

/-! ## Placeholders

  What the rest needs of placeholders is this: each opens with a brace and has no second one, and none is the
  beginning of another.  So occurrences of different placeholders have no character in common. -/

namespace Placeholder

variable {p q : Placeholder} {rest : List Char}

/-- The placeholder without the brace that opens it. -/
def name (p : Placeholder) : List Char := p.text.toList.tail

/-- How often the placeholder stands in a text. -/
def countIn (p : Placeholder) (s : String) : Nat := occurrences p.text.toList s.toList

/-- A placeholder's text is an opening brace and its name. -/
theorem toList_text (p : Placeholder) : p.text.toList = '\x7b' :: p.name := by
  cases p <;> rfl

/-- No name holds a brace, so a placeholder begins only at its own. -/
theorem brace_notMem_name (p : Placeholder) : '\x7b' ∉ p.name := by
  cases p <;> decide

/-- Every placeholder is passed over once. -/
theorem mem_inOrder (p : Placeholder) : p ∈ inOrder := by
  cases p <;> decide

/-- No placeholder is the beginning of another one. -/
theorem eq_of_begins (h : p.text.toList <+: q.text.toList ++ rest) : p = q := by
  have hapart (p q : Placeholder) : p.text.toList <+: q.text.toList → p = q := by
    cases p <;> cases q <;> decide
  rcases List.prefix_or_prefix_of_prefix h (List.prefix_append q.text.toList rest) with h | h
  · exact hapart p q h
  · exact (hapart q p h).symm

/-- An occurrence of the placeholder adds one to those in front of it and those behind it. -/
theorem occurrences_self (p : Placeholder) (front rest : List Char) :
    occurrences p.text.toList (front ++ (p.text.toList ++ rest)) =
      occurrences p.text.toList front + 1 + occurrences p.text.toList rest := by
  rw [p.toList_text]
  exact occurrences_append p.brace_notMem_name front rest

/-- At the head of a text it is the first of its occurrences. -/
theorem occurrences_head (p : Placeholder) (rest : List Char) :
    occurrences p.text.toList (p.text.toList ++ rest) = occurrences p.text.toList rest + 1 := by
  have hself := p.occurrences_self [] rest
  rw [List.nil_append, p.toList_text, occurrences_nil, ← p.toList_text] at hself
  omega

/-- Another placeholder's text holds none of this one's. -/
theorem occurrences_of_ne (h : p ≠ q) (rest : List Char) :
    occurrences p.text.toList (q.text.toList ++ rest) = occurrences p.text.toList rest := by
  have hnot : ¬ p.text.toList <+: '\x7b' :: (q.name ++ rest) := fun hprefix => by
    refine h (@eq_of_begins p q rest ?_)
    rwa [q.toList_text]
  rw [q.toList_text, List.cons_append, occurrences_cons, if_neg hnot, p.toList_text,
    occurrences_append_of_notMem q.brace_notMem_name, Nat.add_zero]

/-- Replacement fills the occurrence and goes on behind it. -/
theorem replaceFrom_self (p : Placeholder) (value front rest : List Char) :
    replaceFrom p.text.toList value 0 (front ++ (p.text.toList ++ rest)) =
      replaceFrom p.text.toList value 0 front ++ (value ++ replaceFrom p.text.toList value 0 rest) := by
  rw [p.toList_text]
  exact replaceFrom_append p.brace_notMem_name (Nat.zero_le _) rest

end Placeholder

/-- Every brace of a text opens a placeholder. -/
def BracesOpen (cs : List Char) : Prop :=
  ∀ rest ∈ cs.tails, rest.head? = some '\x7b' → ∃ p ∈ Placeholder.inOrder, p.text.toList <+: rest

instance (cs : List Char) : Decidable (BracesOpen cs) := inferInstanceAs (Decidable (∀ rest ∈ cs.tails, _))

/-- A suffix of a text whose braces open placeholders is such a text. -/
theorem BracesOpen.suffix {cs rest : List Char} (h : BracesOpen cs) (hrest : rest <:+ cs) : BracesOpen rest :=
  fun more hmore => h more ((List.mem_tails _ _).mpr (((List.mem_tails _ _).mp hmore).trans hrest))

/-! ## All at once

  The specification. `Substitutes` goes through the text once, and is total and unique, so that there is one result
  that a template can be asked to have. -/

/-- The text with every placeholder in the place of which `f` puts another text, and everything else as it is. -/
inductive Substitutes (f : Placeholder → String) : List Char → List Char → Prop
  | nil : Substitutes f [] []
  | hole (p : Placeholder) {rest out : List Char} (h : Substitutes f rest out) :
      Substitutes f (p.text.toList ++ rest) ((f p).toList ++ out)
  | char {c : Char} {rest out : List Char} (hc : ∀ p : Placeholder, ¬ p.text.toList <+: c :: rest)
      (h : Substitutes f rest out) : Substitutes f (c :: rest) (c :: out)

/-- The arguments of some parts: each with its placeholders filled, and none for a backend's argument that is not set. -/
inductive Renders (v : TemplateVars) : List String → List String → Prop
  | nil : Renders v [] []
  | dropped {parts args : List String} (hunset : v.backendArg = none) (h : Renders v parts args) :
      Renders v (Placeholder.backendArg.text :: parts) args
  | part {part arg : String} {parts args : List String} (hkept : part = Placeholder.backendArg.text → v.backendArg ≠ none)
      (hsub : Substitutes v.value part.toList arg.toList) (h : Renders v parts args) :
      Renders v (part :: parts) (arg :: args)

namespace Substitutes

variable {f : Placeholder → String} {p : Placeholder} {part text text' : List Char}

/-- Every part has a substitution. -/
theorem total (f : Placeholder → String) (part : List Char) : ∃ text, Substitutes f part text := by
  -- by the length: a hole takes its whole text away, a character itself
  induction hlength : part.length using Nat.strongRecOn generalizing part with
  | ind n ih =>
    cases part with
    | nil => exact ⟨[], .nil⟩
    | cons c rest =>
      by_cases hhole : ∃ p : Placeholder, p.text.toList <+: c :: rest
      · obtain ⟨p, more, hmore⟩ := hhole
        have hshorter : more.length < n := by
          rw [← hlength, ← hmore, p.toList_text, List.cons_append, List.length_cons, List.length_append]
          omega
        obtain ⟨text, htext⟩ := ih more.length hshorter more rfl
        rw [← hmore]
        exact ⟨_, .hole p htext⟩
      · obtain ⟨text, htext⟩ := ih rest.length (by rw [← hlength]; exact Nat.lt_succ_self _) rest rfl
        exact ⟨_, .char (not_exists.mp hhole) htext⟩

/-- A placeholder with nothing around it. -/
theorem alone (f : Placeholder → String) (p : Placeholder) : Substitutes f p.text.toList (f p).toList := by
  have hhole := hole (f := f) p nil
  rwa [List.append_nil, List.append_nil] at hhole

/-- There is one way to go through a text. -/
theorem unique (h : Substitutes f part text) (h' : Substitutes f part text') : text = text' := by
  induction h generalizing text' with
  -- a part begins with one hole or with none, so both derivations take the same step
  | nil =>
    generalize hpart : ([] : List Char) = part at h'
    cases h' with
    | nil => rfl
    | hole q _ =>
      rw [q.toList_text] at hpart
      cases hpart
    | char hc _ => cases hpart
  | @hole p rest out h ih =>
    generalize hpart : p.text.toList ++ rest = part at h'
    cases h' with
    | nil =>
      rw [p.toList_text] at hpart
      cases hpart
    | @hole q rest' out' h' =>
      obtain rfl := @Placeholder.eq_of_begins p q rest' ⟨rest, hpart⟩
      obtain rfl := List.append_cancel_left hpart
      rw [ih h']
    | char hc _ => exact absurd ⟨rest, hpart⟩ (hc p)
  | @char c rest out hc h ih =>
    generalize hpart : c :: rest = part at h'
    cases h' with
    | nil => cases hpart
    | hole q _ => exact absurd ⟨_, hpart.symm⟩ (hc q)
    | char hc' h' =>
      cases hpart
      rw [ih h']

/-- Placeholders in their own place. -/
theorem eq_self (h : Substitutes Placeholder.text part text) : text = part := by
  induction h with
  | nil => rfl
  | hole p _ ih => rw [ih]
  | char _ _ ih => rw [ih]

/-! ## One placeholder more

  One pass over a text in which some placeholders are filled already.  What stands in the part and is not filled yet
  still stands there, so a pass finds at least as many occurrences as the part has.  If it finds as many, these are
  the ones it fills. -/

/-- A character that begins no placeholder adds no occurrence. -/
theorem occurrences_char {c : Char} {rest : List Char} (hc : ∀ p : Placeholder, ¬ p.text.toList <+: c :: rest)
    (p : Placeholder) : occurrences p.text.toList (c :: rest) = occurrences p.text.toList rest := by
  rw [occurrences_cons, if_neg (hc p), Nat.add_zero]

/-- **A placeholder that is not filled yet stands in the text as often as in the part**, at least; also behind other
    text. -/
theorem le (h : Substitutes f part text) (hp : f p = p.text) (front : List Char) :
    occurrences p.text.toList part ≤ occurrences p.text.toList (front ++ text) := by
  induction h generalizing front with
  | nil =>
    rw [p.toList_text, occurrences_nil]
    exact Nat.zero_le _
  -- the hole of this placeholder is one occurrence; any other hole may bring more
  | @hole q rest out h ih =>
    by_cases hq : q = p
    · subst hq
      have hrest := ih []
      rw [List.nil_append] at hrest
      rw [hp, q.occurrences_head, q.occurrences_self]
      omega
    · rw [Placeholder.occurrences_of_ne (Ne.symm hq), ← List.append_assoc]
      exact ih _
  | @char c rest out hc h ih =>
    rw [occurrences_char hc, show front ++ c :: out = front ++ [c] ++ out by simp]
    exact ih _

/-- **A pass that finds no more than the part has fills just these.** -/
theorem pass (h : Substitutes f part text) (hp : f p = p.text) (value : String) (front : List Char)
    (hcount : occurrences p.text.toList (front ++ text) ≤ occurrences p.text.toList part) :
    ∃ next, replaceFrom p.text.toList value.toList 0 (front ++ text) = front ++ next ∧
      Substitutes (Function.update f p value) part next := by
  induction h generalizing front with
  -- nothing is left to find, and nothing is replaced
  | nil =>
    rw [p.toList_text, occurrences_nil, ← p.toList_text] at hcount
    exact ⟨[], replaceFrom_eq_self (Nat.le_zero.mp hcount), .nil⟩
  | @hole q rest out h ih =>
    by_cases hq : q = p
    · subst hq
      have hrest := h.le hp []
      rw [List.nil_append] at hrest
      rw [hp, q.occurrences_head, q.occurrences_self] at hcount
      -- nothing is found in front of the placeholder
      have hfront : occurrences q.text.toList front = 0 := by omega
      obtain ⟨next, hnext, hsub⟩ := ih [] (by rw [List.nil_append]; omega)
      rw [List.nil_append, List.nil_append] at hnext
      refine ⟨value.toList ++ next, ?_, ?_⟩
      · rw [hp, q.replaceFrom_self, replaceFrom_eq_self hfront, hnext]
      · have hhole := Substitutes.hole q hsub
        rwa [Function.update_self] at hhole
    · rw [Placeholder.occurrences_of_ne (Ne.symm hq), ← List.append_assoc] at hcount
      obtain ⟨next, hnext, hsub⟩ := ih _ hcount
      refine ⟨(f q).toList ++ next, ?_, ?_⟩
      · rw [← List.append_assoc, hnext, List.append_assoc]
      · have hhole := Substitutes.hole q hsub
        rwa [Function.update_of_ne hq] at hhole
  | @char c rest out hc h ih =>
    have hmove : front ++ c :: out = front ++ [c] ++ out := by simp
    rw [occurrences_char hc, hmove] at hcount
    obtain ⟨next, hnext, hsub⟩ := ih _ hcount
    exact ⟨c :: next, by rw [hmove, hnext]; simp, .char hc hsub⟩

/-- **Values without a brace bring no placeholder in**, and none is joined if every brace of the part opens one. -/
theorem occurrences_le (h : Substitutes f part text) (hopen : BracesOpen part)
    (hf : ∀ q, f q = q.text ∨ '\x7b' ∉ (f q).toList) (p : Placeholder) (front : List Char) (hfront : '\x7b' ∉ front) :
    occurrences p.text.toList (front ++ text) ≤ occurrences p.text.toList part := by
  induction h generalizing front with
  | nil => rw [p.toList_text, occurrences_append_of_notMem hfront]
  | @hole q rest out h ih =>
    have hrest : BracesOpen rest := hopen.suffix ⟨_, rfl⟩
    -- a value without braces joins the front, a placeholder left as it is stands at the head
    rcases hf q with hq | hq
    · rw [hq, p.toList_text, occurrences_append_of_notMem hfront, ← p.toList_text]
      have hout := ih hrest [] List.not_mem_nil
      rw [List.nil_append] at hout
      by_cases hpq : p = q
      · subst hpq
        rw [p.occurrences_head, p.occurrences_head]
        exact Nat.succ_le_succ hout
      · rwa [Placeholder.occurrences_of_ne hpq, Placeholder.occurrences_of_ne hpq]
    · have hboth : '\x7b' ∉ front ++ (f q).toList := fun hmem => (List.mem_append.mp hmem).elim hfront hq
      rw [← List.append_assoc]
      exact (ih hrest _ hboth).trans (occurrences_le_append _ _ _)
  -- a brace here would open a placeholder
  | @char c rest out hc h ih =>
    have hbrace : '\x7b' ∉ front ++ [c] := by
      intro hmem
      obtain rfl := List.mem_singleton.mp ((List.mem_append.mp hmem).resolve_left hfront)
      obtain ⟨q, -, hq⟩ := hopen _ ((List.mem_tails _ _).mpr List.suffix_rfl) rfl
      exact hc q hq
    rw [occurrences_char hc, show front ++ c :: out = front ++ [c] ++ out by simp]
    exact ih (hopen.suffix ⟨[c], rfl⟩) _ hbrace

end Substitutes

/-! ## One after another

  The passes together.  A part is settled if no pass finds more than the part has; the first pass that finds more has
  taken something for a placeholder that a value brought in, or that a value and its surroundings make up. -/

namespace CommandTemplate

variable {v : TemplateVars} {part : String} {k : Nat}

/-- A part after the passes for some placeholders. -/
def passes (v : TemplateVars) (ps : List Placeholder) (part : String) : String :=
  ps.foldl (fun s p => replaceAll p.text (v.value p) s) part

/-- The passes end with the last placeholder's. -/
theorem passes_concat (v : TemplateVars) (ps : List Placeholder) (p : Placeholder) (part : String) :
    passes v (ps ++ [p]) part = replaceAll p.text (v.value p) (passes v ps part) := by
  rw [passes, List.foldl_append]
  rfl

/-- How often the pass of that number finds its placeholder. -/
def found (v : TemplateVars) (part : String) (k : Fin Placeholder.inOrder.length) : Nat :=
  Placeholder.inOrder[k].countIn (passes v (Placeholder.inOrder.take k) part)

/-- Each pass finds its placeholder as often as it stands in the part: no value brings one in, and none is joined. -/
def Settled (v : TemplateVars) (part : String) : Prop :=
  ∀ k : Fin Placeholder.inOrder.length, found v part k = Placeholder.inOrder[k].countIn part

instance (v : TemplateVars) (part : String) : Decidable (Settled v part) :=
  inferInstanceAs (Decidable (∀ _ : Fin _, _ = _))

/-- The values of some placeholders, and the others as they are. -/
def filled (v : TemplateVars) (ps : List Placeholder) (p : Placeholder) : String := if p ∈ ps then v.value p else p.text

/-- Before the first pass every placeholder stands for its own text. -/
theorem filled_nil (v : TemplateVars) : filled v [] = Placeholder.text := rfl

/-- After the last one every placeholder stands for its value. -/
theorem filled_inOrder (v : TemplateVars) : filled v Placeholder.inOrder = v.value :=
  funext fun p => if_pos p.mem_inOrder

/-- One pass more gives one more placeholder its value. -/
theorem update_filled (v : TemplateVars) (ps : List Placeholder) (p : Placeholder) :
    Function.update (filled v ps) p (v.value p) = filled v (ps ++ [p]) := by
  funext q
  by_cases hq : q = p
  · subst hq
    rw [Function.update_self, filled, if_pos (List.mem_append_right _ List.mem_cons_self)]
  · rw [Function.update_of_ne hq, filled, filled]
    simp only [List.mem_append, List.mem_singleton, hq, or_false]

/-- No pass comes twice. -/
theorem filled_take (v : TemplateVars) (k : Fin Placeholder.inOrder.length) :
    filled v (Placeholder.inOrder.take k) Placeholder.inOrder[k] = Placeholder.inOrder[k].text := by
  have hnot : ∀ k : Fin Placeholder.inOrder.length, Placeholder.inOrder[k] ∉ Placeholder.inOrder.take k := by decide
  exact if_neg (hnot k)

/-- **As long as no pass found more, the placeholders of the passes are filled at once.** -/
theorem substitutes_passes (hk : k ≤ Placeholder.inOrder.length)
    (h : ∀ j : Fin Placeholder.inOrder.length, j < k → found v part j = Placeholder.inOrder[j].countIn part) :
    Substitutes (filled v (Placeholder.inOrder.take k)) part.toList (passes v (Placeholder.inOrder.take k) part).toList := by
  -- one pass at a time; what it finds are exactly the holes of its placeholder
  induction k with
  | zero =>
    obtain ⟨text, htext⟩ := Substitutes.total Placeholder.text part.toList
    rw [List.take_zero, filled_nil]
    rwa [htext.eq_self] at htext
  | succ k ih =>
    let j : Fin Placeholder.inOrder.length := ⟨k, hk⟩
    have hbefore := ih (Nat.le_of_succ_le hk) fun i hi => h i (Nat.lt_succ_of_lt hi)
    obtain ⟨next, hnext, hsub⟩ := hbefore.pass (filled_take v j) (v.value Placeholder.inOrder[j]) []
      (h j (Nat.lt_succ_self k)).le
    rw [List.nil_append, List.nil_append] at hnext
    rw [List.take_succ_eq_append_getElem hk, ← update_filled, passes_concat, replaceAll, String.toList_ofList]
    rwa [← hnext] at hsub

/-- A settled part is filled as if all placeholders were replaced at once. -/
theorem Settled.substitutes (h : Settled v part) : Substitutes v.value part.toList (fill v part).toList := by
  have hall := substitutes_passes (Nat.le_refl _) fun j _ => h j
  rwa [List.take_length, filled_inOrder] at hall

/-- As long as no pass found more, the next one does not find less. -/
theorem countIn_le_passes (k : Fin Placeholder.inOrder.length)
    (h : ∀ j < k, found v part j = Placeholder.inOrder[j].countIn part) :
    Placeholder.inOrder[k].countIn part ≤ found v part k :=
  (substitutes_passes k.isLt.le fun j hj => h j hj).le (filled_take v k) []

/-- It is enough that no pass is the first to find more. -/
theorem settled_of_le (h : ∀ k : Fin Placeholder.inOrder.length,
    (∀ j < k, found v part j = Placeholder.inOrder[j].countIn part) →
    found v part k ≤ Placeholder.inOrder[k].countIn part) :
    Settled v part := by
  intro k
  induction hnumber : k.val using Nat.strongRecOn generalizing k with
  | ind n ih =>
    obtain rfl := hnumber
    have hbefore : ∀ j < k, _ := fun j hj => ih j hj j rfl
    exact (h k hbefore).antisymm (countIn_le_passes k hbefore)

/-- **A part that is not settled has a pass that fills what the part does not have.** -/
theorem not_settled_iff : ¬ Settled v part ↔
    ∃ k : Fin Placeholder.inOrder.length, Placeholder.inOrder[k].countIn part < found v part k := by
  constructor
  · intro h
    by_contra hnone
    exact h (settled_of_le fun k _ => Nat.le_of_not_lt (not_exists.mp hnone k))
  · rintro ⟨k, hk⟩ h
    exact absurd (h k) (Nat.ne_of_gt hk)

/-- The passes of a part whose braces open placeholders find no more, with values that have no brace.  The last value is
    not looked at again and may be any text. -/
theorem settled_of_bracesOpen (hopen : BracesOpen part.toList)
    (hv : ∀ p, p ≠ Placeholder.backendArg → '\x7b' ∉ (v.value p).toList) : Settled v part := by
  have hlast (k : Fin Placeholder.inOrder.length) : Placeholder.backendArg ∉ Placeholder.inOrder.take k := by
    revert k; decide
  refine settled_of_le fun k hbefore => ?_
  have hsub := substitutes_passes k.isLt.le fun j hj => hbefore j hj
  refine hsub.occurrences_le hopen (fun q => ?_) _ [] List.not_mem_nil
  rw [filled]
  split
  · exact .inr (hv q fun hq => hlast k (hq ▸ ‹_›))
  · exact .inl rfl

/-- The first part gives its argument, or none, and the others follow. -/
theorem filterMap_renderPart_cons (v : TemplateVars) (part : String) (parts : List String) :
    (part :: parts).filterMap (renderPart v) = (renderPart v part).toList ++ parts.filterMap (renderPart v) := by
  cases hpart : renderPart v part with
  | none => exact List.filterMap_cons_none hpart
  | some arg => exact List.filterMap_cons_some hpart

/-- **A template of settled parts renders as if all placeholders were filled at once.** -/
theorem renders_render {parts : List String} (h : ∀ part ∈ parts, Settled v part) :
    Renders v parts (parts.filterMap (renderPart v)) := by
  induction parts with
  | nil => exact .nil
  | cons part parts ih =>
    have hrest := ih fun other hother => h other (List.mem_cons_of_mem part hother)
    rw [filterMap_renderPart_cons, renderPart]
    -- the part of the backend argument alone is dropped or filled; any other is settled
    by_cases hbackend : part = Placeholder.backendArg.text
    · subst hbackend
      rw [if_pos rfl]
      cases hset : v.backendArg with
      | none => exact .dropped hset hrest
      | some arg =>
        have hvalue : v.value .backendArg = arg := congrArg (Option.getD · "") hset
        have halone := Substitutes.alone v.value .backendArg
        rw [hvalue] at halone
        exact .part (fun _ => by rw [hset]; exact Option.some_ne_none arg) halone hrest
    · rw [if_neg hbackend]
      exact .part (fun heq => absurd heq hbackend) (h part List.mem_cons_self).substitutes hrest

end CommandTemplate

/-- All at once, there is one result. -/
theorem Renders.unique {v : TemplateVars} {parts args args' : List String} (h : Renders v parts args)
    (h' : Renders v parts args') : args = args' := by
  -- the derivation of a list of parts is fixed by its first part
  induction h generalizing args' with
  | nil =>
    cases h'
    rfl
  | dropped hunset _ ih =>
    cases h' with
    | dropped _ h' => exact ih h'
    | part hkept _ _ => exact absurd hunset (hkept rfl)
  | part hkept hsub _ ih =>
    cases h' with
    | dropped hunset _ => exact absurd hunset (hkept rfl)
    | part _ hsub' h' => rw [String.toList_inj.mp (hsub.unique hsub'), ih h']

namespace CommandTemplate

/-- **Rendering is filling all placeholders at once** for the parts that are settled.  The others are those where some
    pass fills a placeholder that the part does not have; there are none if every brace of the template opens a
    placeholder and no value has a brace. -/
theorem renders_iff (t : CommandTemplate) (v : TemplateVars) :
    ((∀ part ∈ t.parts, Settled v part) → ∀ args, Renders v t.parts args ↔ args = t.render v) ∧
    (∀ part, ¬ Settled v part ↔ ∃ k : Fin Placeholder.inOrder.length,
      Placeholder.inOrder[k].countIn part < found v part k) ∧
    ∀ part, BracesOpen part.toList → (∀ p, p ≠ Placeholder.backendArg → '\x7b' ∉ (v.value p).toList) → Settled v part := by
  refine ⟨fun h args => ⟨fun hargs => hargs.unique (renders_render h), ?_⟩, fun _ => not_settled_iff,
    fun _ => settled_of_bracesOpen⟩
  rintro rfl
  exact renders_render h

/-- The build command of a project below a directory with a brace in its name, and of one below an ordinary one. -/
theorem renders_iff_build :
    let v := { TemplateVars.ofProject ⟨"/srv/\x7bx\x7d"⟩ ⟨"/srv/\x7bx\x7d/dist"⟩ with backendArg := some "--wheel" }
    (Renders v Backend.pypaBuild.buildArgv.parts
      ["python3", "-m", "build", "--wheel", "--outdir", "/srv/\x7bx\x7d/dist", "/srv/\x7bx\x7d"]) ∧
    ∀ part ∈ Backend.pypaBuild.buildArgv.parts, Settled (TemplateVars.ofProject ⟨"/srv/x"⟩ ⟨"/srv/x/dist"⟩) part := by
  intro v
  constructor
  · exact ((renders_iff Backend.pypaBuild.buildArgv v).1 (by decide +kernel) _).mpr (by decide +kernel)
  · intro part hpart
    have hopen : ∀ part ∈ Backend.pypaBuild.buildArgv.parts, BracesOpen part.toList := by decide +kernel
    exact (renders_iff Backend.pypaBuild.buildArgv _).2.2 part (hopen part hpart)
      (fun p => by cases p <;> decide +kernel)

/-- **A value may be taken for a placeholder**, and so may a value together with the braces around it. -/
theorem render_fills_values :
    let v := TemplateVars.ofProject ⟨"/srv/\x7bpython\x7d"⟩ ⟨"/srv/dist"⟩
    let w := { TemplateVars.ofProject ⟨"/srv"⟩ ⟨"/srv/dist"⟩ with venv := ⟨"python"⟩ }
    (Renders v ["\x7bproject_root\x7d"] ["/srv/\x7bpython\x7d"] ∧
      render ⟨["\x7bproject_root\x7d"]⟩ v = ["/srv/python3"]) ∧
    Renders w ["\x7b\x7bvenv\x7d\x7d"] ["\x7bpython\x7d"] ∧
      render ⟨["\x7b\x7bvenv\x7d\x7d"]⟩ w = ["python3"] := by
  intro v w
  have hroot : Substitutes v.value "\x7bproject_root\x7d".toList "/srv/\x7bpython\x7d".toList := .alone _ .projectRoot
  -- the outer braces open and close nothing
  have hclose : Substitutes w.value ['\x7d'] ['\x7d'] := .char (fun p => by cases p <;> decide) .nil
  have hvenv := (hclose.hole .venv).char (c := '\x7b') (fun p => by cases p <;> decide)
  have hpart : "\x7b\x7bvenv\x7d\x7d".toList = '\x7b' :: (Placeholder.venv.text.toList ++ ['\x7d']) := by decide +kernel
  have harg : "\x7bpython\x7d".toList = '\x7b' :: ((w.value .venv).toList ++ ['\x7d']) := by decide +kernel
  rw [← hpart, ← harg] at hvenv
  exact ⟨⟨.part (by decide) hroot .nil, by decide +kernel⟩, .part (by decide) hvenv .nil, by decide +kernel⟩

end CommandTemplate

end Wheelwright
