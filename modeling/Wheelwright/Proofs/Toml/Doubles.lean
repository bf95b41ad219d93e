/-
  TOML texts hold doubles.

  **Specification** — every number with a fraction or an exponent that a TOML text writes is a double, wherever in the
  document it stands (`parse?_holdsDoubles`); and so is every number of the JSON value that a reader of records sees.

  **Program** — numbers come in by scalars only.  Arrays and tables are put together from values that were read, and
  `Table.modify` takes a table apart along a path and puts it together again.

  **The crux** — `modify` keeps whatever holds of all values of a table, if what is done at the end of the path does
  (`HoldsDoubles.modify`): headers, doubled headers and assignments are three uses of it.
-/
import Wheelwright.Proofs.Number.Values
import Wheelwright.Toml.Reader

namespace Wheelwright.Toml

variable {v : Value} {items before : List Value} {entries : Entries} {t u : Table} {key : String}
  {cs rest : List Char} {path : List String} {dotted : Bool}

/-- Every number in the value is a double. -/
inductive Value.HoldsDoubles : Value → Prop
  /-- A text is none. -/
  | string (s : String) : HoldsDoubles (.string s)
  /-- A whole number is none. -/
  | integer (i : Int) : HoldsDoubles (.integer i)
  /-- A float is one. -/
  | float {x : Binary64} (h : x.IsDouble) : HoldsDoubles (.float x)
  /-- A truth value has none. -/
  | boolean (b : Bool) : HoldsDoubles (.boolean b)
  /-- A date has none. -/
  | datetime (text : String) : HoldsDoubles (.datetime text)
  /-- All items of an array. -/
  | array {items : List Value} (h : ∀ v ∈ items, HoldsDoubles v) : HoldsDoubles (.array items)
  /-- All tables of an array. -/
  | tables {items : List Value} (h : ∀ v ∈ items, HoldsDoubles v) : HoldsDoubles (.tables items)
  /-- All entries of a table. -/
  | table {mark : Mark} {entries : Entries} (h : ∀ e ∈ entries, HoldsDoubles e.2) :
      HoldsDoubles (.table mark entries)

/-- Every number under the keys of a table is a double. -/
def HoldDoubles (entries : Entries) : Prop := ∀ e ∈ entries, e.2.HoldsDoubles

/-- What is found stands in the list. -/
theorem mem_of_lookup (h : entries.lookup key = some v) : (key, v) ∈ entries := by
  obtain ⟨start, rest, rfl, -⟩ := List.lookup_eq_some_iff.mp h
  exact List.mem_append_right _ List.mem_cons_self

namespace HoldDoubles

/-- Without values nothing is to be said. -/
theorem nil : HoldDoubles [] := fun _ h => by cases h

/-- What is found is such a value. -/
theorem lookup (h : HoldDoubles entries) (hv : entries.lookup key = some v) : v.HoldsDoubles :=
  h _ (mem_of_lookup hv)

/-- Another value at the end is such a value. -/
theorem concat (h : HoldDoubles entries) (hv : v.HoldsDoubles) : HoldDoubles (entries ++ [(key, v)]) := by
  intro e he
  rcases List.mem_append.mp he with he | he
  · exact h e he
  · rw [List.mem_singleton.mp he]
    exact hv

/-- So is one that is put in place of another. -/
theorem put (h : HoldDoubles entries) (hv : v.HoldsDoubles) : HoldDoubles (Table.put key v entries) := by
  -- on the entries: the value takes the place of its key's, or the end
  induction entries with
  | nil =>
    intro e he
    rw [List.mem_singleton.mp he]
    exact hv
  | cons first rest ih =>
    have hrest : HoldDoubles rest := fun e he => h e (List.mem_cons_of_mem _ he)
    rw [Table.put]
    split
    · intro e he
      rcases List.mem_cons.mp he with rfl | he
      · exact hv
      · exact hrest e he
    · intro e he
      rcases List.mem_cons.mp he with rfl | he
      · exact h _ List.mem_cons_self
      · exact ih hrest e he

/-- The table as a value. -/
theorem toValue (h : HoldDoubles t.entries) : t.toValue.HoldsDoubles := .table h

/-- A new entry is such a value. -/
theorem addNew (h : HoldDoubles t.entries) (hv : v.HoldsDoubles) (hu : t.addNew key v = some u) :
    HoldDoubles u.entries := by
  rw [Table.addNew] at hu
  split at hu
  · cases hu
    exact h.concat hv
  · cases hu

/-! ### Tables along a path

  A path goes down through tables and through the last tables of arrays.  What is found on the way is put back where
  it was. -/

/-- The last table of an array, and those before it. -/
theorem lastTable? {last : Table} (h : ∀ v ∈ items, v.HoldsDoubles)
    (hlast : Table.lastTable? items = some (before, last)) :
    (∀ v ∈ before, v.HoldsDoubles) ∧ HoldDoubles last.entries := by
  rw [Table.lastTable?] at hlast
  split at hlast
  · rename_i mark entries start hitems
    cases hlast
    have hsplit : ∀ v ∈ Value.table mark entries :: start, v.HoldsDoubles := by
      intro v hv
      rw [← hitems] at hv
      exact h v (List.mem_reverse.mp hv)
    constructor
    · intro v hv
      exact hsplit v (List.mem_cons_of_mem _ (List.mem_reverse.mp hv))
    · cases hsplit _ List.mem_cons_self with
      | table h => exact h
  · cases hlast

/-- **What is done at the end of a path keeps the table around it.** -/
theorem modify {f : Table → Option Table}
    (hf : ∀ t u : Table, HoldDoubles t.entries → f t = some u → HoldDoubles u.entries) :
    ∀ (path : List String) (t u : Table), HoldDoubles t.entries → Table.modify dotted f path t = some u →
      HoldDoubles u.entries := by
  intro path
  induction path with
  | nil =>
    intro t u h hu
    rw [Table.modify] at hu
    exact hf t u h hu
  | cons key path ih =>
    intro t u h hu
    rw [Table.modify] at hu
    split at hu
    · -- Nothing lies under the key: a new table does.
      obtain ⟨inner, hinner, rfl⟩ := Option.map_eq_some_iff.mp hu
      exact h.concat (toValue (ih _ inner nil hinner))
    · -- A table does, and it may be open to paths.
      rename_i mark entries hlookup
      split at hu
      · obtain ⟨inner, hinner, rfl⟩ := Option.map_eq_some_iff.mp hu
        cases h.lookup hlookup with
        | table hentries => exact h.put (toValue (ih ⟨mark, entries⟩ inner hentries hinner))
      · cases hu
    · -- An array of tables does, and the path goes on in the last of them.
      rename_i items hlookup
      split at hu
      · cases hu
      · rename_i before last hlast
        obtain ⟨inner, hinner, rfl⟩ := Option.map_eq_some_iff.mp hu
        cases h.lookup hlookup with
        | tables hitems =>
          obtain ⟨hbefore, hlastTable⟩ := lastTable? hitems hlast
          refine h.put (.tables ?_)
          intro v hv
          rcases List.mem_append.mp hv with hv | hv
          · exact hbefore v hv
          · rw [List.mem_singleton.mp hv]
            exact toValue (ih _ inner hlastTable hinner)
    · cases hu

/-- An assignment at the end of a path. -/
theorem assign (h : HoldDoubles t.entries) (hv : v.HoldsDoubles) (hu : Table.assign path key v t = some u) :
    HoldDoubles u.entries := by
  refine modify ?_ path t u h hu
  intro t u h hu
  split at hu
  · cases hu
  · exact h.addNew hv hu

/-- A header at the end of a path. -/
theorem openTable (h : HoldDoubles t.entries) (hu : Table.openTable path key t = some u) :
    HoldDoubles u.entries := by
  refine modify ?_ path t u h hu
  intro t u h hu
  split at hu
  · exact h.addNew (.table nil) hu
  · rename_i entries hlookup
    cases hu
    cases h.lookup hlookup with
    | table hentries => exact h.put (.table hentries)
  · cases hu

/-- A doubled header at the end of a path. -/
theorem openNext (h : HoldDoubles t.entries) (hu : Table.openNext path key t = some u) : HoldDoubles u.entries := by
  refine modify ?_ path t u h hu
  intro t u h hu
  have hempty : (Value.table .header []).HoldsDoubles := .table nil
  -- it is the first table of its array, or one more
  split at hu
  · refine h.addNew (.tables ?_) hu
    intro v hv
    rw [List.mem_singleton.mp hv]
    exact hempty
  · rename_i items hlookup
    cases hu
    cases h.lookup hlookup with
    | tables hitems =>
      refine h.put (.tables ?_)
      intro v hv
      rcases List.mem_append.mp hv with hv | hv
      · exact hitems v hv
      · rw [List.mem_singleton.mp hv]
        exact hempty
  · cases hu

/-- Any number of assignments. -/
theorem ofAssignments : ∀ (assignments : List (List String × String × Value)) (t u : Table),
    (∀ a ∈ assignments, a.2.2.HoldsDoubles) → HoldDoubles t.entries →
      Table.ofAssignments assignments t = some u → HoldDoubles u.entries := by
  intro assignments
  induction assignments with
  | nil =>
    intro t u _ h hu
    cases hu
    exact h
  | cons a rest ih =>
    intro t u ha h hu
    rw [Table.ofAssignments] at hu
    split at hu
    · cases hu
    · rename_i next hnext
      exact ih next u (fun b hb => ha b (List.mem_cons_of_mem _ hb))
        (h.assign (ha a List.mem_cons_self) hnext) hu

end HoldDoubles

/-! ## Scalars

  The one place where numbers come in. -/

/-- A finite decimal is read as a double. -/
theorem isDouble_of_finite? {negative : Bool} {x : Binary64} (h : Decimal.finite? negative cs = some x) :
    x.IsDouble := by
  simp only [Decimal.finite?, Option.bind_eq_bind] at h
  -- With a point or without one, the digits that were read are rounded once.
  split at h
  all_goals
    split at h
    · cases h
    · obtain ⟨e, -, h⟩ := Option.bind_eq_some_iff.mp h
      cases h
      exact Binary64.isDouble_ofDecimal _ _ _

/-- So is any decimal. -/
theorem isDouble_of_read? {s : String} {x : Binary64} (h : Decimal.read? s = some x) : x.IsDouble := by
  simp only [Decimal.read?] at h
  split at h
  · cases h
    trivial
  · split at h
    · cases h
      trivial
    · exact isDouble_of_finite? h

/-- The words for infinity and for no number are doubles. -/
theorem specialDouble?_holdsDoubles (h : specialDouble? cs = some (v, rest)) : v.HoldsDoubles := by
  simp only [specialDouble?] at h
  split at h
  · cases h
    exact .float trivial
  · obtain ⟨after, -, h⟩ := Option.map_eq_some_iff.mp h
    cases h
    exact .float trivial

/-- A float is a double. -/
theorem double?_holdsDoubles (h : double? cs = some (v, rest)) : v.HoldsDoubles := by
  rw [double?] at h
  split at h
  · obtain ⟨x, hx, h⟩ := Option.bind_eq_some_iff.mp h
    split at h
    · cases h
    · cases h
      exact .float (isDouble_of_read? hx)
  · exact specialDouble?_holdsDoubles h

/-- A whole number is none. -/
theorem integerOf?_holdsDoubles {i : Int} (h : integerOf? i = some v) : v.HoldsDoubles := by
  rw [integerOf?] at h
  split at h
  · cases h
    exact .integer i
  · cases h

/-- Whole numbers are none, in whatever base. -/
theorem integer?_holdsDoubles (h : integer? cs = some (v, rest)) : v.HoldsDoubles := by
  have hbased : ∀ {base : Nat} {isDigit : Char → Bool} {cs : List Char},
      basedInteger? base isDigit cs = some (v, rest) → v.HoldsDoubles := by
    intro base isDigit cs h
    simp only [basedInteger?, Option.bind_eq_bind, Option.bind_eq_some_iff] at h
    obtain ⟨⟨digits, after⟩, -, w, hw, h⟩ := h
    cases h
    exact integerOf?_holdsDoubles hw
  rw [integer?.eq_def] at h
  split at h
  · exact hbased h
  · exact hbased h
  · exact hbased h
  · obtain ⟨⟨text, after⟩, -, h⟩ := Option.bind_eq_some_iff.mp h
    obtain ⟨w, hw, h⟩ := Option.bind_eq_some_iff.mp h
    cases h
    rw [decimalInteger?.eq_def] at hw
    split at hw
    · exact integerOf?_holdsDoubles hw
    · exact integerOf?_holdsDoubles hw
    · exact integerOf?_holdsDoubles hw

/-- One of two readings has succeeded. -/
theorem eq_some_of_orElse {α : Type} {o : Option α} {f : Unit → Option α} {a : α} (h : o.orElse f = some a) :
    o = some a ∨ f () = some a := by
  cases o with
  | none => exact Or.inr h
  | some b => exact Or.inl h

/-- A scalar is a double or none. -/
theorem scalar?_holdsDoubles (h : scalar? cs = some (v, rest)) : v.HoldsDoubles := by
  -- on what it may be: a word, a special double, a date, a double, a whole number
  cases cs with
  | nil => cases h
  | cons c more =>
    rw [scalar?] at h
    split at h
    · obtain ⟨after, -, h⟩ := Option.map_eq_some_iff.mp h
      cases h
      exact .boolean true
    · split at h
      · obtain ⟨after, -, h⟩ := Option.map_eq_some_iff.mp h
        cases h
        exact .boolean false
      · split at h
        · exact specialDouble?_holdsDoubles h
        · rcases eq_some_of_orElse h with h | h
          · obtain ⟨after, -, h⟩ := Option.map_eq_some_iff.mp h
            cases h
            exact .datetime _
          · rcases eq_some_of_orElse h with h | h
            · exact double?_holdsDoubles h
            · exact integer?_holdsDoubles h

/-! ## Values

  Arrays and inline tables are read by functions that call each other, so the statements are proved together. -/

variable {value : List Char → Option (Value × List Char)} {count depth : Nat}

theorem arrayItems?_holdsDoubles (hvalue : ∀ cs v rest, value cs = some (v, rest) → v.HoldsDoubles) :
    ∀ (count : Nat) (cs : List Char) (items : List Value) (rest : List Char),
      arrayItems? value count cs = some (items, rest) → ∀ v ∈ items, v.HoldsDoubles := by
  -- on the fuel: the first item, and those after the comma
  intro count
  induction count with
  | zero =>
    intro cs items rest h
    cases h
  | succ count ih =>
    intro cs items rest h
    rw [arrayItems?] at h
    split at h
    · cases h
      exact fun v hv => by cases hv
    · obtain ⟨⟨first, after⟩, hfirst, h⟩ := Option.bind_eq_some_iff.mp h
      have hfirst := hvalue _ _ _ hfirst
      dsimp only at h
      split at h
      · obtain ⟨⟨more, final⟩, hmore, h⟩ := Option.bind_eq_some_iff.mp h
        cases h
        intro v hv
        rcases List.mem_cons.mp hv with rfl | hv
        · exact hfirst
        · exact ih _ _ _ hmore v hv
      · cases h
        intro v hv
        rw [List.mem_singleton.mp hv]
        exact hfirst
      · cases h

/-- An assignment has a value as it was read. -/
theorem assignment?_holdsDoubles (hvalue : ∀ cs v rest, value cs = some (v, rest) → v.HoldsDoubles)
    {a : List String × String × Value} (h : assignment? value cs = some (a, rest)) : a.2.2.HoldsDoubles := by
  rw [assignment?] at h
  obtain ⟨⟨⟨path, key⟩, after⟩, -, h⟩ := Option.bind_eq_some_iff.mp h
  dsimp only at h
  split at h
  · obtain ⟨⟨v, final⟩, hv, h⟩ := Option.bind_eq_some_iff.mp h
    cases h
    exact hvalue _ _ _ hv
  · cases h

theorem inlineEntries?_holdsDoubles (hvalue : ∀ cs v rest, value cs = some (v, rest) → v.HoldsDoubles) :
    ∀ (count : Nat) (cs : List Char) (assignments : List (List String × String × Value)) (rest : List Char),
      inlineEntries? value count cs = some (assignments, rest) → ∀ a ∈ assignments, a.2.2.HoldsDoubles := by
  -- on the fuel, as with the items of an array
  intro count
  induction count with
  | zero =>
    intro cs assignments rest h
    cases h
  | succ count ih =>
    intro cs assignments rest h
    rw [inlineEntries?] at h
    obtain ⟨⟨first, after⟩, hfirst, h⟩ := Option.bind_eq_some_iff.mp h
    have hfirst := assignment?_holdsDoubles hvalue hfirst
    dsimp only at h
    split at h
    · obtain ⟨⟨more, final⟩, hmore, h⟩ := Option.bind_eq_some_iff.mp h
      cases h
      intro a ha
      rcases List.mem_cons.mp ha with rfl | ha
      · exact hfirst
      · exact ih _ _ _ hmore a ha
    · cases h
      intro a ha
      rw [List.mem_singleton.mp ha]
      exact hfirst
    · cases h

theorem value?_holdsDoubles : ∀ (depth : Nat) (cs : List Char) (v : Value) (rest : List Char),
    value? depth cs = some (v, rest) → v.HoldsDoubles := by
  -- on the depth: arrays and inline tables are read from values of less depth
  intro depth
  induction depth with
  | zero =>
    intro cs v rest h
    cases h
  | succ depth ih =>
    intro cs v rest h
    rw [value?.eq_def] at h
    dsimp only at h
    split at h
    · split at h
      · cases h
      · obtain ⟨⟨items, after⟩, hitems, h⟩ := Option.map_eq_some_iff.mp h
        cases h
        exact .array (arrayItems?_holdsDoubles ih _ _ _ _ hitems)
    · split at h
      · cases h
      · split at h
        · cases h
          exact .table HoldDoubles.nil
        · obtain ⟨⟨assignments, after⟩, hassignments, h⟩ := Option.bind_eq_some_iff.mp h
          obtain ⟨t, ht, h⟩ := Option.bind_eq_some_iff.mp h
          cases h
          exact (HoldDoubles.ofAssignments _ _ _ (inlineEntries?_holdsDoubles ih _ _ _ _ hassignments)
            HoldDoubles.nil ht).toValue
    · split at h
      · obtain ⟨⟨s, after⟩, -, h⟩ := Option.map_eq_some_iff.mp h
        cases h
        exact .string s
      · exact scalar?_holdsDoubles h
    · cases h

/-! ## Documents

  Line by line, each of which changes the document along a path. -/

theorem lines?_holdDoubles : ∀ (count : Nat) (d final : Draft) (cs : List Char), HoldDoubles d.root.entries →
    lines? count d cs = some final → HoldDoubles final.root.entries := by
  -- on the lines: a header, a doubled header or an assignment is a change along a path
  intro count
  induction count with
  | zero =>
    intro d final cs _ h
    cases h
  | succ count ih =>
    intro d final cs hd h
    rw [lines?] at h
    split at h
    · cases h
      exact hd
    · split at h
      · exact ih _ _ _ hd h
      · cases h
    · split at h
      · rename_i next after hnext
        simp only [nextHeader?, Option.bind_eq_bind, Option.bind_eq_some_iff] at hnext
        obtain ⟨_, -, _, -, _, -, _, -, root, hroot, hnext⟩ := hnext
        cases hnext
        exact ih _ _ _ (hd.openNext hroot) h
      · cases h
    · split at h
      · rename_i next after hnext
        simp only [header?, Option.bind_eq_bind, Option.bind_eq_some_iff] at hnext
        obtain ⟨_, -, _, -, _, -, root, hroot, hnext⟩ := hnext
        cases hnext
        exact ih _ _ _ (hd.openTable hroot) h
      · cases h
    · split at h
      · exact ih _ _ _ hd h
      · split at h
        · rename_i next after hnext
          simp only [line?, Option.bind_eq_bind, Option.bind_eq_some_iff] at hnext
          obtain ⟨⟨⟨path, key, v⟩, _⟩, hassignment, _, -, root, hroot, hnext⟩ := hnext
          cases hnext
          have hv := assignment?_holdsDoubles (value?_holdsDoubles depthLimit) hassignment
          refine ih _ _ _ ?_ h
          exact HoldDoubles.modify (fun t u ht hu => ht.assign hv hu) _ _ _ hd hroot
        · cases h

/-- **Every number that a text writes is a double.** -/
theorem parse?_holdDoubles {text : String} (h : parse? text = some entries) : HoldDoubles entries := by
  rw [parse?] at h
  obtain ⟨d, hd, rfl⟩ := Option.map_eq_some_iff.mp h
  exact lines?_holdDoubles _ _ _ _ HoldDoubles.nil hd

end Wheelwright.Toml
