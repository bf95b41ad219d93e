/-
  Text and octets — a text is read back from its octets.

  **Specification** — `decode? (encode s) = some s` for every text `s`.

  **The crux** — a character has one to four octets, and the first tells how many.  `readFrom` takes them one at
  a time; the bounds that it sets for the second octet leave out just what no character is written with
  (`start_of_three`, `start_of_four`).
-/
import Wheelwright.Proofs.Staleness.Framing

namespace Wheelwright.Utf8

variable {v : Nat} {c : Char} {done : List Char} {rest : Bytes}

/-! ## First octets

  The octets with which a character is written, by how many they are. -/

/-- An octet below 128 is a character by itself. -/
theorem start_of_one (h : v < 0x80) : start v = .char (Char.ofNat v) := by
  rw [start, if_pos h]

/-- A first octet of two leaves one to come. -/
theorem start_of_two (hlow : 0x80 ≤ v) (hhigh : v < 0x800) :
    start (v / 64 + 0xC0) = .more ⟨v / 64, 1, 0x80, 0xBF⟩ := by
  rw [start, if_neg (by omega), if_neg (by omega), if_pos (by omega), Nat.add_sub_cancel]

/-- The second octet of three lies in the bounds: no surrogate, nothing that two octets would do for. -/
theorem start_of_three (hlow : 0x800 ≤ v) (hhigh : v < 0x10000) (hvalid : v < 0xD800 ∨ 0xDFFF < v) :
    ∃ low high, start (v / 4096 + 0xE0) = .more ⟨v / 4096, 2, low, high⟩ ∧
      low ≤ v / 64 % 64 + 0x80 ∧ v / 64 % 64 + 0x80 ≤ high := by
  rw [start, if_neg (by omega), if_neg (by omega), if_neg (by omega)]
  by_cases hfirst : v / 4096 + 0xE0 = 0xE0
  · refine ⟨0xA0, 0xBF, ?_, by omega, by omega⟩
    rw [if_pos hfirst, show v / 4096 = 0 by omega]
  · rw [if_neg hfirst]
    by_cases hsurrogate : v / 4096 + 0xE0 = 0xED
    · refine ⟨0x80, 0x9F, ?_, by omega, by omega⟩
      rw [if_pos hsurrogate, show v / 4096 = 0xD by omega]
    · refine ⟨0x80, 0xBF, ?_, by omega, by omega⟩
      rw [if_neg hsurrogate, if_pos (by omega), Nat.add_sub_cancel]

/-- A first octet of four leaves three to come. -/
theorem start_of_four (hlow : 0x10000 ≤ v) (hhigh : v < 0x110000) :
    ∃ low high, start (v / 262144 + 0xF0) = .more ⟨v / 262144, 3, low, high⟩ ∧
      low ≤ v / 4096 % 64 + 0x80 ∧ v / 4096 % 64 + 0x80 ≤ high := by
  rw [start, if_neg (by omega), if_neg (by omega), if_neg (by omega), if_neg (by omega), if_neg (by omega),
    if_neg (by omega)]
  by_cases hfirst : v / 262144 + 0xF0 = 0xF0
  · refine ⟨0x90, 0xBF, ?_, by omega, by omega⟩
    rw [if_pos hfirst, show v / 262144 = 0 by omega]
  · rw [if_neg hfirst]
    by_cases hlast : v / 262144 + 0xF0 < 0xF4
    · refine ⟨0x80, 0xBF, ?_, by omega, by omega⟩
      rw [if_pos hlast, Nat.add_sub_cancel]
    · refine ⟨0x80, 0x8F, ?_, by omega, by omega⟩
      rw [if_neg hlast, if_pos (by omega), show v / 262144 = 4 by omega]

/-! ## Further octets

  The decoder takes the octets of a character one after the other. -/

/-- Octets keep their numbers. -/
theorem toNat_octet {n : Nat} (h : n < 256) : (UInt8.ofNat n).toNat = n := by
  rw [UInt8.toNat_ofNat', Nat.mod_eq_of_lt h]

/-- An octet that starts a character. -/
theorem readFrom_start {n : Nat} {p : Pending} (hn : n < 256) (h : start n = .more p) :
    readFrom done none (UInt8.ofNat n :: rest) = readFrom done (some p) rest := by
  rw [readFrom, toNat_octet hn, h]

/-- An octet that goes on with a character. -/
theorem readFrom_next {bits owed low high n : Nat} (hn : n < 256) (hlow : low ≤ n) (hhigh : n ≤ high)
    (howed : 1 < owed) :
    readFrom done (some ⟨bits, owed, low, high⟩) (UInt8.ofNat n :: rest) =
      readFrom done (some ⟨bits * 64 + (n - 0x80), owed - 1, 0x80, 0xBF⟩) rest := by
  rw [readFrom, toNat_octet hn]
  dsimp only
  rw [if_pos ⟨hlow, hhigh⟩, if_neg (by omega)]

/-- The octet that ends a character. -/
theorem readFrom_last {bits low high n : Nat} (hn : n < 256) (hlow : low ≤ n) (hhigh : n ≤ high) :
    readFrom done (some ⟨bits, 1, low, high⟩) (UInt8.ofNat n :: rest) =
      readFrom (Char.ofNat (bits * 64 + (n - 0x80)) :: done) none rest := by
  rw [readFrom, toNat_octet hn]
  dsimp only
  rw [if_pos ⟨hlow, hhigh⟩, if_pos (Nat.le_refl 1)]

/-! ## Characters and texts

  Character by character, and then text by text. -/

/-- **The octets of a character are read as that character.** -/
theorem readFrom_utf8EncodeChar (c : Char) (done : List Char) (rest : Bytes) :
    readFrom done none (String.utf8EncodeChar c ++ rest) = readFrom (c :: done) none rest := by
  have hvalid : c.val.toNat < 0xD800 ∨ 0xDFFF < c.val.toNat ∧ c.val.toNat < 0x110000 := c.valid
  have hchar : Char.ofNat c.val.toNat = c := Char.ofNat_toNat c
  generalize hv : c.val.toNat = v at hvalid hchar
  rw [String.utf8EncodeChar, hv]
  -- on the length of the character: each further octet brings six bits
  by_cases h1 : v ≤ 0x7F
  · rw [if_pos h1, List.singleton_append, readFrom, toNat_octet (by omega), start_of_one (by omega), hchar]
  · rw [if_neg h1]
    by_cases h2 : v ≤ 0x7FF
    · rw [if_pos h2, List.cons_append, List.cons_append, List.nil_append,
        show v / 64 % 32 + 0xC0 = v / 64 + 0xC0 by omega,
        readFrom_start (by omega) (start_of_two (by omega) (by omega)),
        readFrom_last (by omega) (by omega) (by omega),
        show v / 64 * 64 + (v % 64 + 0x80 - 0x80) = v by omega, hchar]
    · rw [if_neg h2]
      by_cases h3 : v ≤ 0xFFFF
      · obtain ⟨low, high, hstart, hlow, hhigh⟩ := start_of_three (v := v) (by omega) (by omega) (by omega)
        rw [if_pos h3, List.cons_append, List.cons_append, List.cons_append, List.nil_append,
          show v / 4096 % 16 + 0xE0 = v / 4096 + 0xE0 by omega, readFrom_start (by omega) hstart,
          readFrom_next (by omega) hlow hhigh (by omega), readFrom_last (by omega) (by omega) (by omega),
          show (v / 4096 * 64 + (v / 64 % 64 + 0x80 - 0x80)) * 64 + (v % 64 + 0x80 - 0x80) = v by omega, hchar]
      · obtain ⟨low, high, hstart, hlow, hhigh⟩ := start_of_four (v := v) (by omega) (by omega)
        rw [if_neg h3, List.cons_append, List.cons_append, List.cons_append, List.cons_append, List.nil_append,
          show v / 262144 % 8 + 0xF0 = v / 262144 + 0xF0 by omega, readFrom_start (by omega) hstart,
          readFrom_next (by omega) hlow hhigh (by omega),
          readFrom_next (by omega) (by omega) (by omega) (by omega),
          readFrom_last (by omega) (by omega) (by omega),
          show ((v / 262144 * 64 + (v / 4096 % 64 + 0x80 - 0x80)) * 64 + (v / 64 % 64 + 0x80 - 0x80)) * 64 +
            (v % 64 + 0x80 - 0x80) = v by omega, hchar]

/-- The octets of characters are read as these. -/
theorem readFrom_flatMap (cs done : List Char) :
    readFrom done none (cs.flatMap String.utf8EncodeChar) = some (done.reverse ++ cs) := by
  induction cs generalizing done with
  | nil =>
    rw [List.flatMap_nil, readFrom, List.append_nil]
    rfl
  | cons c rest ih =>
    rw [List.flatMap_cons, readFrom_utf8EncodeChar, ih, List.reverse_cons, List.append_assoc]
    rfl

/-- **A text is read back from its octets.** -/
theorem decode?_encode (s : String) : decode? (encode s) = some s := by
  rw [decode?, encode_eq, readFrom_flatMap, List.reverse_nil, List.nil_append, Option.map_some, String.ofList_toList]

end Wheelwright.Utf8
