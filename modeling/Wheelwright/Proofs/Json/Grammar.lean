/-
  JSON values — what is parsed is what the grammar derives.

  **Specification** — the tokens of a value are one word, one numeral or one text, or the values of an array or the
  members of an object with commas between them (`Writes`).  A text writes a value if it spells the tokens of that
  (`Json.WrittenBy`).

  **Program** — the reader takes the tokens one at a time and keeps the open containers on a stack.

  **The crux** — where a value may stand, the reader takes the tokens of one value, and goes on as if the value had been
  put into the container on top (`Reads`); and if it comes to an end at all, then what it took there were such tokens
  (`Taken`).
-/
import Wheelwright.Json.Reader
import Wheelwright.Proofs.Json.Tokens

namespace Wheelwright.Json

/-! ## The grammar

  The grammar derives values from tokens, and knows nothing of stacks.  An object is read from its members in their
  order, where a later one of the same name counts. -/

/-- A member of an object: its name, if that is a text, and its value with the tokens of that. -/
structure Member where
  /-- The name, unless it is no text. -/
  name : Option String
  /-- The tokens of the value, and the value. -/
  text : List Token
  value : Json

namespace Member

/-- The tokens of a member. -/
def tokens (m : Member) : List Token := .text m.name :: .colon :: m.text

/-- The member as a field. -/
def field (m : Member) : String × Json := (m.name.getD "", m.value)

end Member

/-- The object of some members: it cannot be read if a name cannot. -/
def objectOf (members : List Member) : Json :=
  if members.all (·.name.isSome) then .object (members.map Member.field) else .unreadable

/-- The tokens of a value. -/
inductive Writes : List Token → Json → Prop
  /-- The words. -/
  | null : Writes [.null] .null
  | bool (b : Bool) : Writes [.bool b] (.bool b)
  /-- Numbers that are in range and others. -/
  | number (n : Numeral) : Writes [.number (some n)] (.number n)
  | outOfRange : Writes [.number none] .unreadable
  /-- Texts, and those with half a character. -/
  | text (s : String) : Writes [.text (some s)] (.string s)
  | halved : Writes [.text none] .unreadable
  /-- Arrays with commas between their items. -/
  | array {items : List (List Token × Json)} (h : ∀ i ∈ items, Writes i.1 i.2) :
      Writes (.openBracket :: ([Token.comma].intercalate (items.map Prod.fst) ++ [.closeBracket]))
        (.array (items.map Prod.snd))
  /-- Objects with commas between their members. -/
  | object {members : List Member} (h : ∀ m ∈ members, Writes m.text m.value) :
      Writes (.openBrace :: ([Token.comma].intercalate (members.map Member.tokens) ++ [.closeBrace])) (objectOf members)

/-- The text writes the value. -/
def WrittenBy (j : Json) (s : String) : Prop := ∃ ts, SpellsTokens s.toList ts ∧ Writes ts j

variable {j v : Json} {t : Token} {ts us more : List Token} {stack : List Frame}

/-- Commas stand in front of all parts but the first. -/
theorem intercalate_cons (p : List Token) (rest : List (List Token)) :
    [Token.comma].intercalate (p :: rest) = p ++ rest.flatMap (.comma :: ·) := by
  induction rest generalizing p with
  | nil => rfl
  | cons q rest ih =>
    have hstep : [Token.comma].intercalate (p :: q :: rest) = p ++ .comma :: [Token.comma].intercalate (q :: rest) :=
      rfl
    rw [hstep, ih, List.flatMap_cons]
    rfl

/-- A value starts with a token, and not with the bracket that closes an array. -/
theorem Writes.exists_cons (h : Writes ts j) : ∃ t us, ts = t :: us ∧ t ≠ .closeBracket := by
  cases h with
  | null | bool | number | outOfRange | text | halved | array | object => exact ⟨_, _, rfl, nofun⟩

/-! ## What is written is read

  What waits for a value is the stack of the reader.  A value in its place is put into the container on top, so it is
  shown of each value, for every stack and for whatever follows, that the reader goes on behind its tokens as if it
  had just been put there. -/

/-- Goes on reading after a step. -/
def resume (x : Option (Expect × List Frame)) (ts : List Token) : Option Json := x.bind fun y => readFrom y.1 y.2 ts

/-- The reader takes a token at a time. -/
theorem readFrom_cons (expect : Expect) (t : Token) :
    readFrom expect stack (t :: more) = resume (readStep expect stack t) more := by
  rw [readFrom, resume]
  cases readStep expect stack t <;> rfl

/-- The tokens are read as one value, whatever waits for it and whatever follows. -/
def Reads (ts : List Token) (j : Json) : Prop :=
  ∀ stack more, readFrom .value stack (ts ++ more) = resume (settle j stack) more

/-- A token that settles a value is one that reads it. -/
theorem reads_one (h : ∀ stack, readStep .value stack t = settle j stack) : Reads [t] j := by
  intro stack more
  rw [List.singleton_append, readFrom_cons, h]

/-- Items behind the first. -/
theorem readFrom_moreItems {items : List (List Token × Json)} (h : ∀ i ∈ items, Reads i.1 i.2) (acc : List Json) :
    readFrom .next (.array acc :: stack) ((items.map Prod.fst).flatMap (.comma :: ·) ++ .closeBracket :: more) =
      resume (settle (.array (acc.reverse ++ items.map Prod.snd)) stack) more := by
  induction items generalizing acc with
  | nil =>
    rw [List.map_nil, List.map_nil, List.append_nil]
    exact readFrom_cons .next .closeBracket
  | cons i rest ih =>
    have hrest := ih (fun i hi => h i (List.mem_cons_of_mem _ hi)) (i.2 :: acc)
    rw [List.reverse_cons, List.append_assoc, List.singleton_append] at hrest
    show readFrom .value (.array acc :: stack) ((i.1 ++ (rest.map Prod.fst).flatMap (.comma :: ·)) ++ _) = _
    rw [List.append_assoc, h i List.mem_cons_self]
    exact hrest

/-- The frame of an object with members that are done. -/
def membersFrame (acc : List Member) : Frame := .object (acc.map Member.field) (acc.all (·.name.isSome))

/-- A member, where its name may stand. -/
theorem readFrom_member {m : Member} (h : Reads m.text m.value) (acc : List Member) (expect : Expect)
    (hexpect : expect = .firstName ∨ expect = .name) :
    readFrom expect (membersFrame acc :: stack) (m.tokens ++ more) =
      readFrom .next (membersFrame (m :: acc) :: stack) more := by
  obtain ⟨name, text, value⟩ := m
  have hvalue : ∀ frame,
      readFrom .value (frame :: stack) (text ++ more) = resume (settle value (frame :: stack)) more :=
    fun frame => h (frame :: stack) more
  rcases hexpect with rfl | rfl
  all_goals
    cases name with
    | none => exact hvalue (.field (acc.map Member.field) false "")
    | some s => exact hvalue (.field (acc.map Member.field) (acc.all (·.name.isSome)) s)

/-- Members behind the first. -/
theorem readFrom_moreMembers {members : List Member} (h : ∀ m ∈ members, Reads m.text m.value) (acc : List Member) :
    readFrom .next (membersFrame acc :: stack)
        ((members.map Member.tokens).flatMap (.comma :: ·) ++ .closeBrace :: more) =
      resume (settle (objectOf (acc.reverse ++ members)) stack) more := by
  induction members generalizing acc with
  | nil =>
    rw [List.append_nil, objectOf, List.all_reverse, List.map_reverse]
    exact readFrom_cons .next .closeBrace
  | cons m rest ih =>
    have hrest := ih (fun m hm => h m (List.mem_cons_of_mem _ hm)) (m :: acc)
    rw [List.reverse_cons, List.append_assoc, List.singleton_append] at hrest
    show readFrom .name (membersFrame acc :: stack)
      ((m.tokens ++ (rest.map Member.tokens).flatMap (.comma :: ·)) ++ _) = _
    rw [List.append_assoc, readFrom_member (h m List.mem_cons_self) acc .name (Or.inr rfl)]
    exact hrest

/-- **The tokens of a value are read as the value.** -/
theorem Writes.reads (h : Writes ts j) : Reads ts j := by
  -- a single token is read at once; arrays and objects by their first part and then the others
  induction h with
  | null | bool | number | outOfRange | text | halved => exact reads_one fun _ => rfl
  | @array items h ih =>
    intro stack more
    cases items with
    | nil => exact readFrom_cons .firstItem .closeBracket
    | cons i rest =>
      obtain ⟨t, us, hts, hne⟩ := (h i List.mem_cons_self).exists_cons
      have hfirst : ∀ ts, readFrom .firstItem (.array [] :: stack) (i.1 ++ ts) =
          readFrom .value (.array [] :: stack) (i.1 ++ ts) := by
        intro ts
        rw [hts, List.cons_append, readFrom_cons, readFrom_cons]
        cases t with
        | closeBracket => exact absurd rfl hne
        | _ => rfl
      rw [List.map_cons, intercalate_cons]
      show readFrom .firstItem (.array [] :: stack)
        (((i.1 ++ (rest.map Prod.fst).flatMap (.comma :: ·)) ++ [.closeBracket]) ++ more) = _
      rw [List.append_assoc, List.append_assoc, hfirst, ih i List.mem_cons_self]
      exact readFrom_moreItems (fun i hi => ih i (List.mem_cons_of_mem _ hi)) [i.2]
  | @object members h ih =>
    intro stack more
    cases members with
    | nil => exact readFrom_cons .firstName .closeBrace
    | cons m rest =>
      rw [List.map_cons, intercalate_cons]
      show readFrom .firstName (membersFrame [] :: stack)
        (((m.tokens ++ (rest.map Member.tokens).flatMap (.comma :: ·)) ++ [.closeBrace]) ++ more) = _
      rw [List.append_assoc, List.append_assoc, readFrom_member (ih m List.mem_cons_self) [] .firstName (Or.inl rfl)]
      exact readFrom_moreMembers (fun m hm => ih m (List.mem_cons_of_mem _ hm)) [m]

/-! ## What is read is written

  In the other direction nothing is known of the tokens but that the reader came to an end.  By induction on their
  number: the reader has taken a value, or items, or members up to the mark that closes them, and what is left is
  less. `Taken` has the three cases at once, since each of them needs the others for fewer tokens. -/

/-- What the reader has taken where it ends: a value, and then it went on as if the value had been settled. -/
def TakesValue (stack : List Frame) (ts : List Token) (j : Json) : Prop :=
  ∃ us v rest, ts = us ++ rest ∧ us ≠ [] ∧ Writes us v ∧ resume (settle v stack) rest = some j

/-- Items behind the first, and the end of the array. -/
def TakesItems (acc : List Json) (stack : List Frame) (ts : List Token) (j : Json) : Prop :=
  ∃ (items : List (List Token × Json)) (rest : List Token),
    ts = (items.map Prod.fst).flatMap (.comma :: ·) ++ .closeBracket :: rest ∧ (∀ i ∈ items, Writes i.1 i.2) ∧
      resume (settle (.array (acc.reverse ++ items.map Prod.snd)) stack) rest = some j

/-- Members behind the first, and the end of the object. -/
def TakesMembers (acc : List Member) (stack : List Frame) (ts : List Token) (j : Json) : Prop :=
  ∃ (members : List Member) (rest : List Token),
    ts = (members.map Member.tokens).flatMap (.comma :: ·) ++ .closeBrace :: rest ∧
      (∀ m ∈ members, Writes m.text m.value) ∧ resume (settle (objectOf (acc.reverse ++ members)) stack) rest = some j

/-- What holds of a run that ends, for all runs on at most `n` tokens. -/
structure Taken (n : Nat) : Prop where
  value : ∀ {stack ts j}, ts.length ≤ n → readFrom .value stack ts = some j → TakesValue stack ts j
  items : ∀ {acc stack ts j}, ts.length ≤ n → readFrom .next (.array acc :: stack) ts = some j →
    TakesItems acc stack ts j
  members : ∀ {acc stack ts j}, ts.length ≤ n → readFrom .next (membersFrame acc :: stack) ts = some j →
    TakesMembers acc stack ts j

/-- A value of one token. -/
theorem takesValue_one (hj : Writes [t] j) (h : resume (settle j stack) more = some v) :
    TakesValue stack (t :: more) v :=
  ⟨[t], j, more, rfl, List.cons_ne_nil _ _, hj, h⟩

/-- What is taken is at least a token, so that there is less left. -/
theorem length_of_takesValue (hts : ts = us ++ more) (hne : us ≠ []) : more.length < ts.length := by
  have hpos : 0 < us.length := List.length_pos_iff.mpr hne
  rw [hts, List.length_append]
  omega

variable {n : Nat} {acc : List Json} {members : List Member}

/-- An item where one may stand, and all that follows it. -/
theorem Taken.firstItem (h : Taken n) (hts : ts.length ≤ n)
    (hread : readFrom .value (.array acc :: stack) ts = some j) :
    ∃ (i : List Token × Json) (items : List (List Token × Json)) (rest : List Token),
      ts = (i.1 ++ (items.map Prod.fst).flatMap (.comma :: ·)) ++ .closeBracket :: rest ∧
        (∀ k ∈ i :: items, Writes k.1 k.2) ∧
        resume (settle (.array (acc.reverse ++ (i :: items).map Prod.snd)) stack) rest = some j := by
  obtain ⟨us, v, rest, hsplit, hne, hwrites, hresume⟩ := h.value hts hread
  have hlength := length_of_takesValue hsplit hne
  have hnext : readFrom .next (.array (v :: acc) :: stack) rest = some j := hresume
  obtain ⟨items, rest', hrest, hitems, hresume⟩ := h.items (by omega) hnext
  refine ⟨(us, v), items, rest', ?_, ?_, ?_⟩
  · rw [hsplit, hrest, List.append_assoc]
  · exact List.forall_mem_cons.mpr ⟨hwrites, hitems⟩
  · rw [List.reverse_cons, List.append_assoc] at hresume
    exact hresume

/-- The frame of an object that waits for the value of a name. -/
def nameFrame (members : List Member) (name : Option String) : Frame :=
  .field (members.map Member.field) (name.isSome && members.all (·.name.isSome)) (name.getD "")

/-- Where a name must stand there is one, and then a colon. -/
theorem exists_name (hread : resume (startName t (membersFrame members :: stack)) more = some j) :
    ∃ name rest, t = .text name ∧ more = .colon :: rest ∧
      readFrom .value (nameFrame members name :: stack) rest = some j := by
  -- a name is a text that a colon follows; anything else is refused
  obtain ⟨name, hname, hcolon⟩ : ∃ name, t = .text name ∧
      readFrom .colon (nameFrame members name :: stack) more = some j := by
    cases t with
    | text name => cases name <;> exact ⟨_, rfl, hread⟩
    | _ => cases hread
  cases more with
  | nil => cases hcolon
  | cons u rest =>
    rw [readFrom_cons] at hcolon
    cases u with
    | colon => exact ⟨name, rest, hname, rfl, hcolon⟩
    | _ => cases hcolon

/-- A member where one may stand, and all that follows it. -/
theorem Taken.firstMember (h : Taken n) (hmore : more.length ≤ n)
    (hread : resume (startName t (membersFrame members :: stack)) more = some j) :
    ∃ (m : Member) (following : List Member) (rest : List Token),
      t :: more = (m.tokens ++ (following.map Member.tokens).flatMap (.comma :: ·)) ++ .closeBrace :: rest ∧
        (∀ k ∈ m :: following, Writes k.text k.value) ∧
        resume (settle (objectOf (members.reverse ++ m :: following)) stack) rest = some j := by
  obtain ⟨name, rest, rfl, rfl, hvalue⟩ := exists_name hread
  rw [List.length_cons] at hmore
  -- its name and its value, the further members, and what ends the object
  obtain ⟨us, v, rest', hsplit, hne, hwrites, hresume⟩ := h.value (by omega) hvalue
  have hlength := length_of_takesValue hsplit hne
  have hnext : readFrom .next (membersFrame (⟨name, us, v⟩ :: members) :: stack) rest' = some j := hresume
  obtain ⟨following, rest'', hrest, hfollowing, hresume⟩ := h.members (by omega) hnext
  refine ⟨⟨name, us, v⟩, following, rest'', ?_, ?_, ?_⟩
  · rw [hsplit, hrest, Member.tokens, List.append_assoc]
    rfl
  · exact List.forall_mem_cons.mpr ⟨hwrites, hfollowing⟩
  · rw [List.reverse_cons, List.append_assoc] at hresume
    exact hresume

/-- A value of an array. -/
theorem Taken.array (h : Taken n) (hmore : more.length ≤ n)
    (hread : readFrom .firstItem (.array [] :: stack) more = some j) : TakesValue stack (.openBracket :: more) j := by
  cases more with
  | nil => cases hread
  | cons t rest =>
    -- an array is empty or has a first item, which begins with a token that closes nothing
    by_cases hclose : t = .closeBracket
    · subst hclose
      rw [readFrom_cons] at hread
      have hempty : Writes [.openBracket, .closeBracket] (.array []) := @Writes.array [] nofun
      exact ⟨_, _, rest, rfl, List.cons_ne_nil _ _, hempty, hread⟩
    · -- Any other token is one that a value starts with.
      have hfirst : readFrom .value (.array [] :: stack) (t :: rest) = some j := by
        rw [readFrom_cons] at hread ⊢
        cases t with
        | closeBracket => exact absurd rfl hclose
        | _ => exact hread
      obtain ⟨i, items, rest', hsplit, hitems, hresume⟩ := h.firstItem hmore hfirst
      refine ⟨_, _, rest', ?_, List.cons_ne_nil _ _, .array hitems, hresume⟩
      rw [hsplit, List.map_cons, intercalate_cons, List.cons_append, List.append_assoc, List.append_assoc,
        List.append_assoc]
      rfl

/-- A value of an object. -/
theorem Taken.object (h : Taken n) (hmore : more.length ≤ n)
    (hread : readFrom .firstName (membersFrame [] :: stack) more = some j) :
    TakesValue stack (.openBrace :: more) j := by
  cases more with
  | nil => cases hread
  | cons t rest =>
    -- an object is empty or has a first member
    rw [readFrom_cons] at hread
    by_cases hclose : t = .closeBrace
    · subst hclose
      have hempty : Writes [.openBrace, .closeBrace] (.object []) := @Writes.object [] nofun
      exact ⟨_, _, rest, rfl, List.cons_ne_nil _ _, hempty, hread⟩
    · have hfirst : resume (startName t (membersFrame [] :: stack)) rest = some j := by
        cases t with
        | closeBrace => exact absurd rfl hclose
        | _ => exact hread
      rw [List.length_cons] at hmore
      obtain ⟨m, following, rest', hsplit, hmembers, hresume⟩ := h.firstMember (by omega) hfirst
      refine ⟨_, _, rest', ?_, List.cons_ne_nil _ _, .object hmembers, hresume⟩
      rw [hsplit, List.map_cons, intercalate_cons, List.cons_append, List.append_assoc, List.append_assoc,
        List.append_assoc]
      rfl

/-- One more token where a value may stand. -/
theorem Taken.value_succ (h : Taken n) (hts : ts.length ≤ n + 1) (hread : readFrom .value stack ts = some j) :
    TakesValue stack ts j := by
  cases ts with
  | nil => cases hread
  | cons t more =>
    rw [List.length_cons, Nat.add_le_add_iff_right] at hts
    rw [readFrom_cons] at hread
    -- what opens an array or an object is left to the two fields for them
    cases t with
    | null => exact takesValue_one .null hread
    | bool b => exact takesValue_one (.bool b) hread
    | number x =>
      cases x with
      | none => exact takesValue_one .outOfRange hread
      | some x => exact takesValue_one (.number x) hread
    | text s =>
      cases s with
      | none => exact takesValue_one .halved hread
      | some s => exact takesValue_one (.text s) hread
    | openBracket => exact h.array hts hread
    | openBrace => exact h.object hts hread
    | _ => cases hread

/-- One more token behind an item. -/
theorem Taken.items_succ (h : Taken n) (hts : ts.length ≤ n + 1)
    (hread : readFrom .next (.array acc :: stack) ts = some j) : TakesItems acc stack ts j := by
  cases ts with
  | nil => cases hread
  | cons t more =>
    rw [List.length_cons, Nat.add_le_add_iff_right] at hts
    rw [readFrom_cons] at hread
    -- the items go on with a comma or end with the bracket
    cases t with
    | closeBracket =>
      refine ⟨[], more, rfl, nofun, ?_⟩
      rw [List.map_nil, List.append_nil]
      exact hread
    | comma =>
      obtain ⟨i, items, rest, hsplit, hitems, hresume⟩ := h.firstItem hts hread
      refine ⟨i :: items, rest, ?_, hitems, hresume⟩
      rw [hsplit]
      rfl
    | _ => cases hread

/-- One more token behind a member. -/
theorem Taken.members_succ (h : Taken n) (hts : ts.length ≤ n + 1)
    (hread : readFrom .next (membersFrame members :: stack) ts = some j) : TakesMembers members stack ts j := by
  cases ts with
  | nil => cases hread
  | cons t more =>
    rw [List.length_cons, Nat.add_le_add_iff_right] at hts
    rw [readFrom_cons] at hread
    -- the object ends here, or a comma and one more member follow
    cases t with
    | closeBrace =>
      refine ⟨[], more, rfl, nofun, ?_⟩
      rw [List.append_nil, objectOf, List.all_reverse, List.map_reverse]
      exact hread
    | comma =>
      have hname : readFrom .name (membersFrame members :: stack) more = some j := hread
      cases more with
      | nil => cases hname
      | cons t more =>
        rw [List.length_cons] at hts
        rw [readFrom_cons] at hname
        obtain ⟨m, following, rest, hsplit, hmembers, hresume⟩ := h.firstMember (by omega) hname
        refine ⟨m :: following, rest, ?_, hmembers, hresume⟩
        rw [hsplit]
        rfl
    | _ => cases hread

/-- **A run that ends has taken values.** -/
theorem taken (n : Nat) : Taken n := by
  induction n with
  | zero =>
    have hnil : ∀ {ts : List Token}, ts.length ≤ 0 → ts = [] := fun h => List.length_eq_zero_iff.mp (Nat.le_zero.mp h)
    refine ⟨fun hts h => ?_, fun hts h => ?_, fun hts h => ?_⟩
    all_goals
      rw [hnil hts] at h
      cases h
  | succ n ih => exact ⟨ih.value_succ, ih.items_succ, ih.members_succ⟩

/-- **Tokens are read as a value exactly if they write it.** -/
theorem readFrom_iff : readFrom .value [] ts = some j ↔ Writes ts j := by
  -- read from the front, a value and what is left; nothing may be left at the end
  constructor
  · intro h
    obtain ⟨us, v, rest, rfl, -, hwrites, hresume⟩ := (taken ts.length).value (Nat.le_refl _) h
    cases rest with
    | nil =>
      cases hresume
      rw [List.append_nil]
      exact hwrites
    | cons t more =>
      have hread : readFrom (.finished v) [] (t :: more) = some j := hresume
      rw [readFrom_cons] at hread
      cases hread
  · intro h
    have hread := h.reads [] []
    rw [List.append_nil] at hread
    exact hread

/-! ## Values and texts

  A text is lexed first and read then.  The tokens of a value have no two words side by side, so the condition of the
  lexer is met by every value. -/

/-- What may stand behind a word. -/
def Closing (ts : List Token) : Prop := Apart ts ∧ ∀ t ∈ ts.head?, t.isWord = false

/-- What begins with a mark closes a word before it. -/
theorem closing_cons (ht : t.isWord = false) (h : Apart ts) : Closing (t :: ts) := by
  refine ⟨⟨fun hword => ?_, h⟩, ?_⟩
  · rw [ht] at hword
    cases hword
  · rintro u ⟨⟩
    exact ht

/-- The tokens have no two words side by side, and get none from what follows. -/
def Spaced (ts : List Token) : Prop := ∀ more, Closing more → Apart (ts ++ more)

/-- A single token stands apart from what comes after it. -/
theorem spaced_one (t : Token) : Spaced [t] := fun _ hmore => ⟨fun _ => hmore.2, hmore.1⟩

/-- Parts with commas between them, and marks around. -/
theorem spaced_enclosed {parts : List (List Token)} {u : Token} (h : ∀ p ∈ parts, Spaced p) (ht : t.isWord = false)
    (hu : u.isWord = false) : Spaced (t :: ([Token.comma].intercalate parts ++ [u])) := by
  intro more hmore
  have hclose : Closing (u :: more) := closing_cons hu hmore.1
  -- a comma or the last token closes whatever is in front
  have hmany : ∀ parts : List (List Token), (∀ p ∈ parts, Spaced p) →
      Closing (parts.flatMap (.comma :: ·) ++ u :: more) := by
    intro parts h
    induction parts with
    | nil => exact hclose
    | cons p rest ih =>
      rw [List.flatMap_cons, List.append_assoc]
      exact closing_cons rfl (h p List.mem_cons_self _ (ih fun q hq => h q (List.mem_cons_of_mem _ hq)))
  rw [List.cons_append, List.append_assoc, List.singleton_append]
  refine (closing_cons ht ?_).1
  cases parts with
  | nil => exact hclose.1
  | cons p rest =>
    rw [intercalate_cons, List.append_assoc]
    exact h p List.mem_cons_self _ (hmany rest fun q hq => h q (List.mem_cons_of_mem _ hq))

/-- **No value has two words side by side.** -/
theorem Writes.spaced (h : Writes ts j) : Spaced ts := by
  induction h with
  | null | bool | number | outOfRange | text | halved => exact spaced_one _
  | array _ ih =>
    refine spaced_enclosed (fun p hp => ?_) rfl rfl
    obtain ⟨i, hi, rfl⟩ := List.mem_map.mp hp
    exact ih i hi
  | object _ ih =>
    refine spaced_enclosed (fun p hp more hmore => ?_) rfl rfl
    obtain ⟨m, hm, rfl⟩ := List.mem_map.mp hp
    exact (closing_cons rfl (closing_cons rfl (ih m hm more hmore)).1).1

/-- **A text is parsed as a value exactly if it writes that.** -/
theorem parse?_iff {s : String} : parse? s = some j ↔ j.WrittenBy s := by
  constructor
  · intro h
    obtain ⟨ts, hlex, hread⟩ := Option.bind_eq_some_iff.mp h
    have hstart : Lexed [] [] .between := lexed_between .nil
    exact ⟨ts, spells_of_lexFrom hstart hlex, readFrom_iff.mp hread⟩
  · rintro ⟨ts, hspells, hwrites⟩
    have hapart := hwrites.spaced [] ⟨trivial, nofun⟩
    rw [List.append_nil] at hapart
    have hlex : lex s = some ts := lexFrom_of_spells hspells hapart
    rw [parse?, hlex]
    exact readFrom_iff.mpr hwrites

end Wheelwright.Json
