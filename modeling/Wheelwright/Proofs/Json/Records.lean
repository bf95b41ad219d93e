/-
  Records are read as they were written.

  **Specification** — a record is written as an object of the fields that it has, each under its own name (`present`).
  Reading a field gives its value if it was written, and what the reader says of a missing field otherwise.

  **Program** — a reader keeps the fields that it knows, refuses a name that is there twice, and looks for each name.

  **The crux (`lookup_present`)** — as the names of the fields are different, a field that was left out is not found in the
  place of another: leaving fields out and looking one up go together, whichever of the others are there.
-/
import Wheelwright.Json.Record
import Wheelwright.Proofs.Json.RoundTrip

namespace Wheelwright.Json

variable {α : Type} {slots : List (String × Option Json)} {names : List String} {name : String} {j : Json}
  {f : Json → Option α} {g : α → Json} {v : α} {a : Option α} {r : Record}

/-! ## Fields that are present

  A slot is a field that may be left out.  Readers ask for fields by name, and for each of the ways in which they
  treat a missing field there is one lemma that says what they get from a record that was written. -/

/-- The fields that have a value. -/
def present (slots : List (String × Option Json)) : List (String × Json) :=
  slots.filterMap fun s => s.2.map fun j => (s.1, j)

/-- Present are the fields of slots that hold something. -/
theorem mem_present {field : String × Json} : field ∈ present slots ↔ (field.1, some field.2) ∈ slots := by
  rw [present, List.mem_filterMap]
  constructor
  · rintro ⟨⟨k, x⟩, hs, hfield⟩
    obtain ⟨v, hx, rfl⟩ := Option.map_eq_some_iff.mp hfield
    rwa [← show x = some v from hx]
  · exact fun h => ⟨_, h, rfl⟩

/-- Their names keep the order of the slots. -/
theorem sublist_present (slots : List (String × Option Json)) :
    ((present slots).map Prod.fst).Sublist (slots.map Prod.fst) := by
  induction slots with
  | nil => exact .slnil
  | cons s rest ih =>
    obtain ⟨k, x⟩ := s
    cases x with
    | none => exact ih.cons k
    | some v => exact ih.cons_cons k

/-- **A field is found if it is present**, whichever of the others are. -/
theorem lookup_present (hnodup : (slots.map Prod.fst).Nodup) :
    (present slots).lookup name = (slots.lookup name).join := by
  induction slots with
  | nil => rfl
  | cons s rest ih =>
    obtain ⟨k, x⟩ := s
    obtain ⟨hk, hrest⟩ := List.nodup_cons.mp hnodup
    rw [List.lookup_cons]
    cases x with
    | some v =>
      show ((k, v) :: present rest).lookup name = _
      rw [List.lookup_cons, ih hrest]
      cases name == k <;> rfl
    | none =>
      show (present rest).lookup name = _
      rw [ih hrest]
      cases hname : name == k with
      | false => rfl
      | true =>
        -- The name is not that of a later field.
        have hlater : rest.lookup name = none := by
          rw [List.lookup_eq_none_iff]
          rintro ⟨l, y⟩ hmem
          rw [bne_iff_ne, LawfulBEq.eq_of_beq hname]
          rintro rfl
          exact hk (List.mem_map.mpr ⟨_, hmem, rfl⟩)
        rw [hlater]
        rfl

/-- The record of the fields that have a value. -/
def written (slots : List (String × Option Json)) : Record := ⟨false, present slots⟩

/-- The fields have these names, and no two have the same. -/
structure Named (names : List String) (slots : List (String × Option Json)) : Prop where
  /-- The names of the slots, in order. -/
  fst_eq : slots.map Prod.fst = names
  /-- They are distinct. -/
  nodup : names.Nodup

namespace Named

/-- What is read of the fields. -/
theorem record? (h : Named names slots) : record? names (.object (present slots)) = some (written slots) := by
  have hsublist : ((present slots).map Prod.fst).Sublist names := h.fst_eq ▸ sublist_present slots
  have hknown : (present slots).filter (fun field => names.contains field.1) = present slots := by
    rw [List.filter_eq_self]
    intro field hfield
    exact List.contains_iff_mem.mpr (hsublist.subset (List.mem_map.mpr ⟨field, hfield, rfl⟩))
  rw [Json.record?, hknown]
  exact if_pos (hsublist.nodup h.nodup)

/-- A written slot is found by its name. -/
theorem lookup (h : Named names slots) {x : Option Json} (hslot : slots.lookup name = some x) :
    (written slots).fields.lookup name = x := by
  rw [written, lookup_present (h.fst_eq.symm ▸ h.nodup), hslot]
  rfl

/-- A required field is read from its slot. -/
theorem required (h : Named names slots) (hslot : slots.lookup name = some (some j)) (hread : f j = some v) :
    (written slots).required name f = some v := by
  rw [Record.required, h.lookup hslot]
  exact hread

/-- So is one with a default. -/
theorem defaulted (h : Named names slots) (hslot : slots.lookup name = some (some j)) (hread : f j = some v)
    (missing : α) : (written slots).defaulted name missing f = some v := by
  rw [Record.defaulted, h.lookup hslot]
  exact hread

end Named

/-- What is not null is read as what it is. -/
theorem orNull?_of_eq_some (hnull : f .null = none) (hj : f j = some v) : orNull? f j = some (some v) := by
  cases j with
  | null =>
    rw [hnull] at hj
    cases hj
  | _ =>
    show (f _).map some = _
    rw [hj]
    rfl

/-- A field that is left out when there is nothing to write. -/
theorem Named.optional (h : Named names slots) (hslot : slots.lookup name = some (a.map g)) (hnull : f .null = none)
    (hread : ∀ v ∈ a, f (g v) = some v) : (written slots).optional name f = some a := by
  rw [Record.optional, h.lookup hslot]
  cases a with
  | none => rfl
  | some v => exact orNull?_of_eq_some hnull (hread v rfl)

/-- A field that is `null` when there is nothing to write. -/
theorem Named.nullable (h : Named names slots) (hslot : slots.lookup name = some (some (ofOption g a)))
    (hnull : f .null = none) (hread : ∀ v ∈ a, f (g v) = some v) :
    (written slots).nullable name f = some a := by
  rw [Record.nullable, h.lookup hslot]
  cases a with
  | none => rfl
  | some v => exact orNull?_of_eq_some hnull (hread v rfl)

/-! ## Where a value was read from

  In the other direction: a value that was read without failing was read from a field, or is what the reader has for a
  missing one. -/

/-- A value that may be null is read as null or from what stands there. -/
theorem exists_of_orNull? (h : orNull? f j = some a) : ∀ v ∈ a, ∃ j, f j = some v := by
  unfold orNull? at h
  split at h
  · cases h
    nofun
  · obtain ⟨w, hw, rfl⟩ := Option.map_eq_some_iff.mp h
    rintro v ⟨⟩
    exact ⟨_, hw⟩

/-- A required value was read from a field. -/
theorem exists_of_required (h : r.required name f = some v) : ∃ j, f j = some v := by
  obtain ⟨j, -, hj⟩ := Option.bind_eq_some_iff.mp h
  exact ⟨j, hj⟩

/-- An optional one was as well, if it is there. -/
theorem exists_of_optional (h : r.optional name f = some a) : ∀ v ∈ a, ∃ j, f j = some v := by
  unfold Record.optional at h
  split at h
  · cases h
    nofun
  · exact exists_of_orNull? h

/-- So was one that may be null. -/
theorem exists_of_nullable (h : r.nullable name f = some a) : ∀ v ∈ a, ∃ j, f j = some v := by
  unfold Record.nullable at h
  split at h
  · split at h
    · cases h
    · cases h
      nofun
  · exact exists_of_orNull? h

/-! ## Numbers

  Numbers have a limit that depends on the field they are for, and a reader refuses what is above it.  So what was
  read fits. -/

variable {n max : Nat} {i : Int}

/-- A number up to the limit is read back. -/
theorem natUpTo?_nat (h : n ≤ max) : natUpTo? max (nat n) = some n := if_pos h

/-- A number that is read is up to the limit. -/
theorem le_of_natUpTo? (h : natUpTo? max j = some n) : n ≤ max := by
  unfold natUpTo? at h
  split at h
  · split at h
    · rename_i hle
      cases h
      exact hle
    · cases h
  · cases h

/-- The number is a signed word of 32 bits. -/
def IsInt32 (i : Int) : Prop := -(Nat.pow 2 31 : Int) ≤ i ∧ i < (Nat.pow 2 31 : Int)

/-- The bounds of a signed word. -/
theorem isInt32_iff : IsInt32 i ↔ -2147483648 ≤ i ∧ i < 2147483648 := Iff.rfl

/-- A signed word is read back. -/
theorem int32?_int (h : IsInt32 i) : int32? (int i) = some i := by
  obtain ⟨hlow, hhigh⟩ := isInt32_iff.mp h
  rw [int]
  split
  · rename_i hnonneg
    have hfits : i.toNat < Nat.pow 2 31 := by
      show i.toNat < 2 ^ 31
      omega
    rw [int32?, if_pos hfits, Int.toNat_of_nonneg hnonneg]
  · have hfits : (-i).toNat ≤ Nat.pow 2 31 := by
      show (-i).toNat ≤ 2 ^ 31
      omega
    rw [int32?, if_pos hfits, Int.toNat_of_nonneg (by omega), Int.neg_neg]

/-- What is read as a signed word is one. -/
theorem isInt32_of_int32? (h : int32? j = some i) : IsInt32 i := by
  unfold int32? at h
  split at h
  · rename_i n
    split at h
    · rename_i hlt
      have hlt : n < 2 ^ 31 := hlt
      cases h
      exact isInt32_iff.mpr ⟨by omega, by omega⟩
    · cases h
  · rename_i n
    split at h
    · rename_i hle
      have hle : n ≤ 2 ^ 31 := hle
      cases h
      exact isInt32_iff.mpr ⟨by omega, by omega⟩
    · cases h
  · cases h

/-! ## Lists

  An array is read item by item, and fails with the first item that does. -/

variable {items : List α}

/-- A list is read back if its items are. -/
theorem readAll_map {β : Type} {read : β → Option α} {write : α → β} (h : ∀ v ∈ items, read (write v) = some v) :
    readAll read (items.map write) = some items := by
  induction items with
  | nil => rfl
  | cons v rest ih =>
    rw [List.map_cons, readAll, h v List.mem_cons_self, ih fun w hw => h w (List.mem_cons_of_mem _ hw)]
    rfl

/-- So is an array of written values. -/
theorem list?_map (h : ∀ v ∈ items, f (g v) = some v) : list? f (.array (items.map g)) = some items := readAll_map h

/-- So is an array of texts. -/
theorem list?_strings (items : List String) : list? text? (strings items) = some items := list?_map fun _ _ => rfl

/-! ## Tags

  The tag of a variant is a field among the others, and the reader takes it out of the record first. -/

/-- A value that carries its tag in front of its fields. -/
theorem Named.tagged? {tag : String} {limit : Nat} (h : Named (name :: names) ((name, some (.string tag)) :: slots))
    (hlimit : limit ≠ 0) (hread : readableFields (limit - 1) (present slots) = true) :
    tagged? name limit (.object (present ((name, some (.string tag)) :: slots))) =
      some ⟨tag, .object (present slots)⟩ := by
  -- the tag is the only field of its name
  have hother : ∀ field ∈ present slots, field.1 ≠ name := by
    rintro field hfield rfl
    have hnodup := h.nodup
    rw [← h.fst_eq] at hnodup
    exact (List.nodup_cons.mp hnodup).1 (List.mem_map.mpr ⟨_, mem_present.mp hfield, rfl⟩)
  have hwithin : (object ((name, .string tag) :: present slots)).readableWithin limit = true := by
    show (limit != 0 && (true && readableFields (limit - 1) (present slots))) = true
    rw [hread, Bool.and_true, Bool.and_true, bne_iff_ne]
    exact hlimit
  have htag : ((name, string tag) :: present slots).filter (fun field => field.1 = name) = [(name, .string tag)] := by
    rw [List.filter_cons, if_pos (decide_eq_true rfl), List.filter_eq_nil_iff.mpr]
    exact fun field hfield hname => hother field hfield (of_decide_eq_true hname)
  have hbody : ((name, string tag) :: present slots).filter (fun field => field.1 ≠ name) = present slots := by
    have hsame : ¬ decide (name ≠ name) = true := fun hne => of_decide_eq_true hne rfl
    rw [List.filter_cons, if_neg hsame, List.filter_eq_self]
    exact fun field hfield => decide_eq_true (hother field hfield)
  show Json.tagged? name limit (.object ((name, .string tag) :: present slots)) = _
  simp only [Json.tagged?, hwithin, htag, hbody, Bool.not_true, Bool.false_eq_true, if_false]

/-! ## Plain values

  What a value has to be for the writer to have a layout for it.  It is asked of the parts, and a written record has
  it if its slots do. -/

/-- Items are plain one by one. -/
theorem arePlain_iff {items : List Json} : arePlain items = true ↔ ∀ j ∈ items, j.isPlain = true := by
  induction items with
  | nil => exact iff_of_true rfl (List.forall_mem_nil _)
  | cons j rest ih => rw [arePlain, Bool.and_eq_true, ih, List.forall_mem_cons]

/-- So are fields. -/
theorem havePlain_iff {fields : List (String × Json)} :
    havePlain fields = true ↔ ∀ field ∈ fields, field.2.isPlain = true := by
  induction fields with
  | nil => exact iff_of_true rfl (List.forall_mem_nil _)
  | cons field rest ih => rw [havePlain, Bool.and_eq_true, ih, List.forall_mem_cons]

/-- An array of plain values is plain. -/
theorem isPlain_array (h : ∀ v ∈ items, (g v).isPlain = true) : (array (items.map g)).isPlain = true := by
  refine arePlain_iff.mpr fun j hj => ?_
  obtain ⟨v, hv, rfl⟩ := List.mem_map.mp hj
  exact h v hv

/-- An array of texts is. -/
theorem isPlain_strings (items : List String) : (strings items).isPlain = true := isPlain_array fun _ _ => rfl

/-- An object whose slots hold plain values is plain. -/
theorem isPlain_present (h : ∀ s ∈ slots, ∀ j ∈ s.2, j.isPlain = true) : (object (present slots)).isPlain = true := by
  refine havePlain_iff.mpr fun field hfield => ?_
  exact h _ (mem_present.mp hfield) _ rfl

/-- A slot with a plain value holds nothing else. -/
theorem plain_some (h : j.isPlain = true) : ∀ k ∈ some j, k.isPlain = true := by
  rintro k ⟨⟩
  exact h

/-- Nor does one that is filled from an optional value. -/
theorem plain_map (h : ∀ v ∈ a, (g v).isPlain = true) : ∀ k ∈ a.map g, k.isPlain = true := by
  intro k hk
  obtain ⟨v, hv, rfl⟩ := Option.map_eq_some_iff.mp hk
  exact h v hv

/-- A value that may be null is plain either way. -/
theorem isPlain_ofOption (h : ∀ v ∈ a, (g v).isPlain = true) : (ofOption g a).isPlain = true := by
  cases a with
  | none => rfl
  | some v => exact h v rfl

/-- A number that fits in a word is plain. -/
theorem isPlain_nat (h : n ≤ NumeralText.maxWord) : (nat n).isPlain = true := decide_eq_true h

/-- A signed word is plain. -/
theorem isPlain_int (h : IsInt32 i) : (int i).isPlain = true := by
  obtain ⟨hlow, hhigh⟩ := isInt32_iff.mp h
  rw [int]
  split
  · have hword : i.toNat ≤ 2 ^ 64 - 1 := by omega
    exact decide_eq_true hword
  · have hword : (-i).toNat ≤ 2 ^ 63 := by omega
    have hpos : (-i).toNat ≠ 0 := by omega
    rw [isPlain, isWhole, Bool.and_eq_true, bne_iff_ne]
    exact ⟨hpos, decide_eq_true hword⟩

end Wheelwright.Json
