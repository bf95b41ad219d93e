/-
  Strict decoding — octets are read as a text exactly if they are the octets of that text.

  **Specification** — `decode? bytes = some s ↔ bytes = encode s`.

  **Program** — `readFrom` takes one octet at a time.  The first octet of a character leaves what is gathered of it and
  what is owed.

  **The crux** — a started character remembers the octets that it was started with: any number that it may still come to
  is written with those, and then with the octets that are owed (`Pending.Begins`).  So no octets but a character's own
  lead to it.
-/
import Wheelwright.Proofs.Text.Utf8

namespace Wheelwright.Utf8

variable {v n k : Nat} {b : UInt8} {p : Pending} {state : Option Pending} {done cs : List Char} {read bytes : Bytes}

/-! ## What a started character may come to

  Each octet after the first has six bits of the number.  What a started character may come to is a range of numbers,
  all of which begin with the octets that have been read. -/

/-- A number that is a character. -/
def IsScalar (v : Nat) : Prop := v < 0xD800 ∨ 0xDFFF < v ∧ v < 0x110000

/-- A character has its number. -/
theorem val_ofNat (h : IsScalar v) : (Char.ofNat v).val.toNat = v := by
  have hvalid : v.isValidChar := h
  rw [Char.ofNat, dif_pos hvalid]
  rfl

/-- What the octet counts that `k` more octets follow: each has six bits. -/
def weight : Nat → Nat
  | 0 => 1
  | k + 1 => 64 * weight k

/-- The last `k` octets of a character with more than one. -/
def furtherOctets : Nat → Nat → Bytes
  | 0, _ => []
  | k + 1, v => UInt8.ofNat (v / weight k % 64 + 0x80) :: furtherOctets k v

/-- Whatever number goes on from the gathered bits within the bounds is a character, and it is written with the octets
    `read` and those that are owed. -/
structure Pending.Begins (p : Pending) (read : Bytes) : Prop where
  /-- Octets are owed. -/
  owed : 1 ≤ p.owed
  /-- The next one is within the bounds of further octets. -/
  low : 0x80 ≤ p.low
  high : p.high ≤ 0xBF
  /-- With the octets that are owed the character is complete. -/
  octets : ∀ v, v / weight p.owed = p.bits → p.low ≤ v / weight (p.owed - 1) % 64 + 0x80 →
    v / weight (p.owed - 1) % 64 + 0x80 ≤ p.high → String.utf8EncodeChar (Char.ofNat v) = read ++ furtherOctets p.owed v

/-- An octet is that of its number. -/
theorem octet_eq (h : b.toNat = n) : UInt8.ofNat n = b := by
  rw [← h, UInt8.ofNat_toNat]

/-! ## First octets

  The first octet says how many follow, and which bounds the second one has.  There is one lemma for each number of
  octets. -/

/-- An ASCII character has one octet. -/
theorem utf8EncodeChar_ofNat_of_one (h : v < 0x80) : String.utf8EncodeChar (Char.ofNat v) = [UInt8.ofNat v] := by
  rw [String.utf8EncodeChar, val_ofNat (Or.inl (by omega)), if_pos (by omega)]

/-- The first of two octets begins a character. -/
theorem begins_of_two {first : Nat} (hlow : 2 ≤ first) (hhigh : first < 32) (hb : b.toNat = first + 0xC0) :
    Pending.Begins ⟨first, 1, 0x80, 0xBF⟩ [b] where
  owed := Nat.le_refl 1
  low := Nat.le_refl _
  high := Nat.le_refl _
  octets := by
    intro v (hv : v / weight 1 = first) _ _
    rw [show weight 1 = 64 from rfl] at hv
    rw [String.utf8EncodeChar, val_ofNat (Or.inl (by omega)), if_neg (by omega), if_pos (by omega)]
    show _ = [b, UInt8.ofNat (v / weight 0 % 64 + 0x80)]
    rw [show weight 0 = 1 from rfl, Nat.div_one, show v / 64 % 32 + 0xC0 = first + 0xC0 by omega, octet_eq hb]

/-- So does the first of three. -/
theorem begins_of_three {first low high : Nat} (hfirst : first < 16) (hlow : 0x80 ≤ low) (hhigh : high ≤ 0xBF)
    (hshort : 1 ≤ first ∨ 0xA0 ≤ low) (hsurrogate : first = 13 → high ≤ 0x9F) (hb : b.toNat = first + 0xE0) :
    Pending.Begins ⟨first, 2, low, high⟩ [b] where
  owed := Nat.le_add_left 1 _
  low := hlow
  high := hhigh
  octets := by
    intro v (hv : v / weight 2 = first) (hvlow : low ≤ v / weight 1 % 64 + 0x80) (hvhigh : v / weight 1 % 64 + 0x80 ≤ high)
    rw [show weight 2 = 4096 from rfl] at hv
    rw [show weight 1 = 64 from rfl] at hvlow hvhigh
    have hscalar : IsScalar v := by
      rw [IsScalar]
      omega
    rw [String.utf8EncodeChar, val_ofNat hscalar, if_neg (by omega), if_neg (by omega), if_pos (by omega)]
    show _ = [b, UInt8.ofNat (v / weight 1 % 64 + 0x80), UInt8.ofNat (v / weight 0 % 64 + 0x80)]
    rw [show weight 1 = 64 from rfl, show weight 0 = 1 from rfl, Nat.div_one,
      show v / 4096 % 16 + 0xE0 = first + 0xE0 by omega, octet_eq hb]

/-- So does the first of four. -/
theorem begins_of_four {first low high : Nat} (hfirst : first < 5) (hlow : 0x80 ≤ low) (hhigh : high ≤ 0xBF)
    (hshort : 1 ≤ first ∨ 0x90 ≤ low) (hlast : first = 4 → high ≤ 0x8F) (hb : b.toNat = first + 0xF0) :
    Pending.Begins ⟨first, 3, low, high⟩ [b] where
  owed := Nat.le_add_left 1 _
  low := hlow
  high := hhigh
  octets := by
    intro v (hv : v / weight 3 = first) (hvlow : low ≤ v / weight 2 % 64 + 0x80) (hvhigh : v / weight 2 % 64 + 0x80 ≤ high)
    rw [show weight 3 = 262144 from rfl] at hv
    rw [show weight 2 = 4096 from rfl] at hvlow hvhigh
    have hscalar : IsScalar v := by
      rw [IsScalar]
      omega
    rw [String.utf8EncodeChar, val_ofNat hscalar, if_neg (by omega), if_neg (by omega), if_neg (by omega)]
    show _ = [b, UInt8.ofNat (v / weight 2 % 64 + 0x80), UInt8.ofNat (v / weight 1 % 64 + 0x80),
      UInt8.ofNat (v / weight 0 % 64 + 0x80)]
    rw [show weight 2 = 4096 from rfl, show weight 1 = 64 from rfl, show weight 0 = 1 from rfl, Nat.div_one,
      show v / 262144 % 8 + 0xF0 = first + 0xF0 by omega, octet_eq hb]

/-- What an octet between characters leads to is written with that octet. -/
theorem start_octet (b : UInt8) :
    match start b.toNat with
    | .char c => String.utf8EncodeChar c = [b]
    | .more p => p.Begins [b]
    | .bad => True := by
  have hbyte : b.toNat < 256 := b.toNat_lt
  generalize hn : b.toNat = n at hbyte
  unfold start
  split_ifs with h1 h2 h3 h4 h5 h6 h7 h8 h9
  · show String.utf8EncodeChar (Char.ofNat n) = [b]
    rw [utf8EncodeChar_ofNat_of_one h1, octet_eq hn]
  · trivial
  · exact begins_of_two (by omega) (by omega) (by omega)
  · exact begins_of_three (by omega) (by omega) (by omega) (by omega) (by omega) (by omega)
  · exact begins_of_three (by omega) (by omega) (by omega) (by omega) (by omega) (by omega)
  · exact begins_of_three (by omega) (by omega) (by omega) (by omega) (by omega) (by omega)
  · exact begins_of_four (by omega) (by omega) (by omega) (by omega) (by omega) (by omega)
  · exact begins_of_four (by omega) (by omega) (by omega) (by omega) (by omega) (by omega)
  · exact begins_of_four (by omega) (by omega) (by omega) (by omega) (by omega) (by omega)
  · trivial

/-! ## Further octets

  An octet within the bounds leaves a smaller range, or ends the character with the number that it came to. -/

/-- The octet that ends a character: the character is written with all octets since its first. -/
theorem Pending.Begins.last (h : p.Begins read) (howed : p.owed ≤ 1) (hlow : p.low ≤ b.toNat)
    (hhigh : b.toNat ≤ p.high) :
    String.utf8EncodeChar (Char.ofNat (p.bits * 64 + (b.toNat - 0x80))) = read ++ [b] := by
  obtain ⟨hone, hl, hh, hoctets⟩ := h
  have hp : p.owed = 1 := Nat.le_antisymm howed hone
  have hdiv : (p.bits * 64 + (b.toNat - 0x80)) / weight 1 = p.bits := by
    rw [show weight 1 = 64 from rfl]
    omega
  have hmod : (p.bits * 64 + (b.toNat - 0x80)) / weight 0 % 64 + 0x80 = b.toNat := by
    rw [show weight 0 = 1 from rfl, Nat.div_one]
    omega
  rw [hp] at hoctets
  rw [hoctets _ hdiv (by rw [hmod]; exact hlow) (by rw [hmod]; exact hhigh)]
  show _ ++ [UInt8.ofNat _] = _
  rw [hmod, UInt8.ofNat_toNat]

/-- An octet that goes on with a character. -/
theorem Pending.Begins.next (h : p.Begins read) (howed : ¬ p.owed ≤ 1) (hlow : p.low ≤ b.toNat)
    (hhigh : b.toNat ≤ p.high) :
    Pending.Begins ⟨p.bits * 64 + (b.toNat - 0x80), p.owed - 1, 0x80, 0xBF⟩ (read ++ [b]) where
  owed := by
    show 1 ≤ p.owed - 1
    omega
  low := Nat.le_refl _
  high := Nat.le_refl _
  octets := by
    -- the number is divided by the weight of what is still owed
    intro v (hv : v / weight (p.owed - 1) = p.bits * 64 + (b.toNat - 0x80)) _ _
    obtain ⟨-, hl, hh, hoctets⟩ := h
    obtain ⟨k, hk⟩ : ∃ k, p.owed = k + 1 := ⟨p.owed - 1, by omega⟩
    rw [hk, Nat.add_sub_cancel] at hv hoctets ⊢
    have hdiv : v / weight (k + 1) = p.bits := by
      rw [weight, Nat.mul_comm, ← Nat.div_div_eq_div_mul, hv]
      omega
    have hmod : v / weight k % 64 + 0x80 = b.toNat := by
      rw [hv]
      omega
    rw [hoctets v hdiv (by rw [hmod]; exact hlow) (by rw [hmod]; exact hhigh), furtherOctets, hmod, UInt8.ofNat_toNat,
      List.append_assoc]
    rfl

/-! ## Texts

  Read from its beginning, a text has just the octets that were read. -/

/-- The octets of the characters. -/
def octetsOf (cs : List Char) : Bytes := cs.flatMap String.utf8EncodeChar

/-- One more character has its octets behind the others. -/
theorem octetsOf_concat (cs : List Char) (c : Char) :
    octetsOf (cs ++ [c]) = octetsOf cs ++ String.utf8EncodeChar c := by
  rw [octetsOf, List.flatMap_append, List.flatMap_singleton]
  rfl

/-- The octets that have been read since the last whole character. -/
def Begun : Option Pending → Bytes → Prop
  | none, read => read = []
  | some p, read => p.Begins read

/-- **What is read was written with just these octets.** -/
theorem octetsOf_readFrom (hstate : Begun state read) (h : readFrom done state bytes = some cs) :
    octetsOf cs = octetsOf done.reverse ++ (read ++ bytes) := by
  induction bytes generalizing done state read with
  | nil =>
    cases state with
    | none =>
      cases h
      rw [show read = [] from hstate, List.append_nil, List.append_nil]
    | some p => cases h
  | cons b rest ih =>
    -- A character that is complete goes to those that are done.
    have hdone : ∀ {c : Char} {before : Bytes}, String.utf8EncodeChar c = before ++ [b] →
        readFrom (c :: done) none rest = some cs → octetsOf cs = octetsOf done.reverse ++ (before ++ b :: rest) := by
      intro c before hc hrest
      have hbetween : Begun none [] := rfl
      rw [ih hbetween hrest, List.reverse_cons, octetsOf_concat, hc, List.nil_append, List.append_assoc,
        List.append_assoc]
      rfl
    cases state with
    | none =>
      have hstart := start_octet b
      rw [readFrom] at h
      rw [show read = [] from hstate]
      cases hs : start b.toNat with
      | char c =>
        rw [hs] at h hstart
        exact hdone hstart h
      | more p =>
        rw [hs] at h hstart
        have hbegun : Begun (some p) [b] := hstart
        exact ih hbegun h
      | bad =>
        rw [hs] at h
        cases h
    | some p =>
      have hp : p.Begins read := hstate
      rw [readFrom] at h
      dsimp only at h
      split at h
      · rename_i hmay
        split at h
        · rename_i howed
          exact hdone (hp.last howed hmay.1 hmay.2) h
        · rename_i howed
          have hbegun : Begun (some _) (read ++ [b]) := hp.next howed hmay.1 hmay.2
          have hrest := ih hbegun h
          rw [List.append_assoc] at hrest
          exact hrest
      · cases h

/-- **Octets are read as a text exactly if they are its octets.** -/
theorem decode?_eq_some_iff {s : String} : decode? bytes = some s ↔ bytes = encode s := by
  constructor
  · intro h
    obtain ⟨cs, hcs, rfl⟩ := Option.map_eq_some_iff.mp h
    have hstart : Begun none [] := rfl
    have hoctets := octetsOf_readFrom hstart hcs
    rw [encode_eq, String.toList_ofList]
    exact hoctets.symm
  · rintro rfl
    exact decode?_encode s

/-- A reading fails exactly if the octets are those of no text. -/
theorem decode?_eq_none_iff : decode? bytes = none ↔ ∀ s, bytes ≠ encode s := by
  rw [Option.eq_none_iff_forall_ne_some]
  exact forall_congr' fun s => not_congr decode?_eq_some_iff

end Wheelwright.Utf8
