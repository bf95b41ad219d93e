/-
  Decoding with replacement — a line feed parts a text where it parts its octets.

  **Specification** — whatever octets stand before and after a line feed, they are decoded apart (`decodeFrom_lineFeed`); the
  decoded text has a line feed exactly where the octets have one (`lineFeed_notMem_decodeFrom`); and octets that are well
  formed are decoded to the text that they spell, line by line (`readFrom_lineFeed`).

  **The crux** — a line feed is an octet of its own: no started character can go on with it, and none ends as one.  A started
  character asks for an octet from 0x80 up, and has gathered more than a line feed has in all when it ends
  (`Pending.Sound`).
-/
import Wheelwright.Process.Lines
import Wheelwright.Proofs.Text.Utf8

namespace Wheelwright.Utf8

open LineReader (lineFeed)

variable {b : UInt8} {n : Nat} {p : Pending} {state : Option Pending} {done cs : List Char} {bytes rest : Bytes}

/-! ## Started characters

  What is known of a character that has begun: its next octet is none of ASCII, and the number that it comes to is not
  that of a line feed. -/

/-- A started character goes on with no ASCII, and is none when it ends. -/
structure Pending.Sound (p : Pending) : Prop where
  /-- The octet that comes next is no ASCII. -/
  low : 0x80 ≤ p.low
  /-- The bits so far are not all zero, or the next octet brings some. -/
  bits : 1 ≤ p.bits ∨ 1 < p.owed ∧ 0x80 < p.low

/-- What an octet between characters leads to. -/
theorem start_spec (n : Nat) :
    match start n with
    | .char c => n < 0x80 ∧ c = Char.ofNat n
    | .more p => 0x80 ≤ n ∧ p.Sound
    | .bad => 0x80 ≤ n := by
  have hsound {bits owed low high : Nat} (hlow : 0x80 ≤ low) (hbits : 1 ≤ bits ∨ 1 < owed ∧ 0x80 < low) :
      Pending.Sound ⟨bits, owed, low, high⟩ := ⟨hlow, hbits⟩
  unfold start
  split_ifs
  · exact ⟨by assumption, rfl⟩
  · show 0x80 ≤ n
    omega
  iterate 7
    · exact ⟨by omega, hsound (by omega) (by omega)⟩
  · show 0x80 ≤ n
    omega

/-- No other number is that of a line feed. -/
theorem ofNat_ne_lineFeed (h : n ≠ 10) : Char.ofNat n ≠ '\n' := by
  intro heq
  by_cases hvalid : n.isValidChar
  · have hchar : Char.ofNat n = Char.ofNatAux n hvalid := dif_pos hvalid
    have hval := congrArg Char.toNat (hchar.symm.trans heq)
    exact h hval
  · rw [Char.ofNat, dif_neg hvalid] at heq
    cases heq

/-- The character that a sound start ends with. -/
theorem Pending.Sound.ne_lineFeed (h : p.Sound) (howed : p.owed ≤ 1) :
    Char.ofNat (p.bits * 64 + (n - 0x80)) ≠ '\n' := by
  refine ofNat_ne_lineFeed ?_
  have := h.bits
  omega

/-- After an octet within its bounds a started character is as sound. -/
theorem Pending.Sound.next (h : p.Sound) (hn : p.low ≤ n) :
    Pending.Sound ⟨p.bits * 64 + (n - 0x80), p.owed - 1, 0x80, 0xBF⟩ where
  low := Nat.le_refl _
  bits := by
    have := h.bits
    have := h.low
    show 1 ≤ p.bits * 64 + (n - 0x80) ∨ _
    omega

/-- Between characters nothing is started. -/
theorem sound_none : ∀ p ∈ (none : Option Pending), p.Sound := fun _ h => by cases h

/-! ## One octet

  One octet more gives at most two characters: a replacement for what had begun, and itself. -/

/-- A line feed ends a started character, and stands for itself. -/
theorem feed_lineFeed (h : ∀ p ∈ state, p.Sound) :
    feed state lineFeed.toNat = ((if state.isSome then [replacement] else []) ++ ['\n'], none) := by
  cases state with
  | none => rfl
  | some p =>
    have hlow := (h p rfl).low
    have hnot : ¬ (p.low ≤ lineFeed.toNat ∧ lineFeed.toNat ≤ p.high) := by
      rw [show lineFeed.toNat = 10 from rfl]
      omega
    rw [feed, if_neg hnot]
    rfl

/-- What an octet other than a line feed leads to: no line feed, a sound start, and a character or a start. -/
theorem feed_spec (h : ∀ p ∈ state, p.Sound) (hb : n ≠ 10) :
    '\n' ∉ (feed state n).1 ∧ (∀ p ∈ (feed state n).2, p.Sound) ∧
      ((feed state n).1 = [] → (feed state n).2.isSome = true) := by
  have hreplacement : '\n' ≠ replacement := by decide
  have hstart := start_spec n
  -- on what is started: a first octet, or one more of a character, which it may not fit
  cases state with
  | none =>
    rw [feed]
    cases hs : start n with
    | char c =>
      rw [hs] at hstart
      obtain ⟨-, rfl⟩ := hstart
      simpa using (ofNat_ne_lineFeed hb).symm
    | more p =>
      rw [hs] at hstart
      simpa using hstart.2
    | bad => simpa using hreplacement
  | some p =>
    have hsound := h p rfl
    rw [feed]
    by_cases hmay : p.low ≤ n ∧ n ≤ p.high
    · rw [if_pos hmay]
      by_cases howed : p.owed ≤ 1
      · simpa [howed] using (hsound.ne_lineFeed howed).symm
      · simpa [howed] using hsound.next hmay.1
    · rw [if_neg hmay]
      cases hs : start n with
      | char c =>
        rw [hs] at hstart
        obtain ⟨-, rfl⟩ := hstart
        simpa using ⟨hreplacement, (ofNat_ne_lineFeed hb).symm⟩
      | more p =>
        rw [hs] at hstart
        simpa using ⟨hreplacement, hstart.2⟩
      | bad => simpa using hreplacement

/-! ## Octets with replacement

  The decoder goes octet by octet.  A line feed ends whatever had begun, so the rest is decoded as if it stood alone. -/

/-- What is done comes first. -/
theorem decodeFrom_eq (done : List Char) (state : Option Pending) (bytes : Bytes) :
    decodeFrom done state bytes = done.reverse ++ decodeFrom [] state bytes := by
  induction bytes generalizing done state with
  | nil =>
    rw [decodeFrom, decodeFrom]
    cases state <;> simp
  | cons b rest ih =>
    rw [decodeFrom, decodeFrom]
    dsimp only
    rw [ih, ih (_ ++ [])]
    simp

/-- An octet gives its characters, and those of the rest come after them. -/
theorem decodeFrom_cons (state : Option Pending) (b : UInt8) (rest : Bytes) :
    decodeFrom [] state (b :: rest) = (feed state b.toNat).1 ++ decodeFrom [] (feed state b.toNat).2 rest := by
  rw [decodeFrom]
  dsimp only
  rw [decodeFrom_eq]
  simp

/-- No other octet has the number of a line feed. -/
theorem toNat_ne_lineFeed (h : b ≠ lineFeed) : b.toNat ≠ 10 := fun heq => h (UInt8.toNat_inj.mp heq)

/-- **Octets before and after a line feed are decoded apart.** -/
theorem decodeFrom_lineFeed (h : ∀ p ∈ state, p.Sound) (bytes rest : Bytes) :
    decodeFrom [] state (bytes ++ lineFeed :: rest) = decodeFrom [] state bytes ++ '\n' :: decodeFrom [] none rest := by
  induction bytes generalizing state with
  | nil =>
    rw [List.nil_append, decodeFrom_cons, feed_lineFeed h, decodeFrom.eq_1 [] state]
    cases state <;> rfl
  | cons b bytes ih =>
    rw [List.cons_append, decodeFrom_cons, decodeFrom_cons, List.append_assoc]
    refine congrArg _ (ih ?_)
    by_cases hb : b = lineFeed
    · rw [hb, feed_lineFeed h]
      exact sound_none
    · exact (feed_spec h (toNat_ne_lineFeed hb)).2.1

/-- A line feed in the text was one among the octets. -/
theorem lineFeed_notMem_decodeFrom (h : ∀ p ∈ state, p.Sound) (hbytes : lineFeed ∉ bytes) :
    '\n' ∉ decodeFrom [] state bytes := by
  induction bytes generalizing state with
  | nil =>
    rw [decodeFrom]
    cases state with
    | none => exact List.not_mem_nil
    | some p => exact fun hmem => absurd (List.mem_singleton.mp hmem) (by decide)
  | cons b rest ih =>
    obtain ⟨hb, hrest⟩ := not_or.mp (mt List.mem_cons.mpr hbytes)
    obtain ⟨hout, hnext, -⟩ := feed_spec h (toNat_ne_lineFeed (Ne.symm hb))
    rw [decodeFrom_cons, List.mem_append, not_or]
    exact ⟨hout, ih hnext hrest⟩

/-- Only from no octets comes no text. -/
theorem decodeFrom_eq_nil_iff (h : ∀ p ∈ state, p.Sound) : decodeFrom [] state bytes = [] ↔ state = none ∧ bytes = [] := by
  -- on the octets; all but the line feed give something, now or later
  induction bytes generalizing state with
  | nil =>
    rw [decodeFrom]
    cases state <;> simp
  | cons b rest ih =>
    refine iff_of_false ?_ fun hnil => List.cons_ne_nil _ _ hnil.2
    rw [decodeFrom_cons, List.append_eq_nil_iff]
    rintro ⟨hout, hrest⟩
    by_cases hb : b = lineFeed
    · rw [hb, feed_lineFeed h] at hout
      exact List.append_ne_nil_of_right_ne_nil _ (List.cons_ne_nil _ _) hout
    · obtain ⟨-, hnext, hsome⟩ := feed_spec h (toNat_ne_lineFeed hb)
      have hnone := ((ih hnext).mp hrest).1
      rw [hnone] at hsome
      cases hsome hout

/-! ## Well formed octets

  The strict decoder does the same as long as nothing has to be replaced. -/

/-- What is done comes first here as well. -/
theorem readFrom_eq (done : List Char) (state : Option Pending) (bytes : Bytes) :
    readFrom done state bytes = (readFrom [] state bytes).map (done.reverse ++ ·) := by
  -- on the octets, with what has been decoded before them
  induction bytes generalizing done state with
  | nil =>
    rw [readFrom, readFrom]
    cases state <;> simp
  | cons b rest ih =>
    have hcons (c : Char) : readFrom (c :: done) none rest = (readFrom [c] none rest).map (done.reverse ++ ·) := by
      rw [ih (c :: done), ih [c], Option.map_map]
      refine congrArg (Option.map · _) (funext fun cs => ?_)
      simp
    cases state with
    | none =>
      rw [readFrom, readFrom]
      cases start b.toNat with
      | char c => exact hcons c
      | more p => exact ih done (some p)
      | bad => rfl
    | some p =>
      rw [readFrom, readFrom]
      dsimp only
      split
      · split
        · exact hcons _
        · exact ih done _
      · rfl

/-- Octets that are well formed are decoded without replacement. -/
theorem decodeFrom_of_readFrom (h : readFrom done state bytes = some cs) : decodeFrom done state bytes = cs := by
  -- on the octets: as long as the strict reading goes on, the lossy one does the same
  induction bytes generalizing done state with
  | nil =>
    cases state with
    | none => exact Option.some.inj h
    | some p => cases h
  | cons b rest ih =>
    rw [decodeFrom]
    cases state with
    | none =>
      rw [readFrom] at h
      rw [feed]
      cases hs : start b.toNat with
      | char c | more p =>
        rw [hs] at h
        exact ih h
      | bad =>
        rw [hs] at h
        cases h
    | some p =>
      rw [readFrom] at h
      dsimp only at h
      rw [feed]
      split at h
      · rename_i hmay
        rw [if_pos hmay]
        split at h
        · rename_i howed
          simpa [howed] using ih h
        · rename_i howed
          simpa [howed] using ih h
      · cases h

/-- Octets that are a text are decoded as it. -/
theorem decodeLossy_of_decode? {text : String} (h : decode? bytes = some text) : decodeLossy bytes = text := by
  obtain ⟨cs, hcs, rfl⟩ := Option.map_eq_some_iff.mp h
  exact congrArg String.ofList (decodeFrom_of_readFrom hcs)

/-- Octets are well formed if those before and after a line feed are. -/
theorem readFrom_lineFeed (h : ∀ p ∈ state, p.Sound) (bytes rest : Bytes) :
    (readFrom [] state (bytes ++ lineFeed :: rest)).isSome =
      ((readFrom [] state bytes).isSome && (readFrom [] none rest).isSome) := by
  -- on the octets: a line feed completes no character that was started
  induction bytes generalizing state with
  | nil =>
    cases state with
    | none =>
      show (readFrom ['\n'] none rest).isSome = _
      rw [readFrom_eq, Option.isSome_map]
      rfl
    | some p =>
      have hlow := (h p rfl).low
      have hnot : ¬ (p.low ≤ lineFeed.toNat ∧ lineFeed.toNat ≤ p.high) := by
        rw [show lineFeed.toNat = 10 from rfl]
        omega
      have hstop : readFrom [] (some p) (lineFeed :: rest) = none := if_neg hnot
      rw [List.nil_append, hstop]
      rfl
  | cons b bytes ih =>
    rw [List.cons_append]
    cases state with
    | none =>
      have hstart := start_spec b.toNat
      rw [readFrom, readFrom]
      cases hs : start b.toNat with
      | char c =>
        dsimp only
        rw [readFrom_eq, Option.isSome_map, ih sound_none, readFrom_eq [c] none bytes, Option.isSome_map]
      | more p =>
        rw [hs] at hstart
        refine ih fun q hq => ?_
        obtain rfl := Option.some.inj hq
        exact hstart.2
      | bad => rfl
    | some p =>
      rw [readFrom, readFrom]
      dsimp only
      split
      · rename_i hmay
        split
        · rw [readFrom_eq, Option.isSome_map, ih sound_none, readFrom_eq [_] none bytes, Option.isSome_map]
        · refine ih fun q hq => ?_
          obtain rfl := Option.some.inj hq
          exact (h p rfl).next hmay.1
      · rfl

/-- A text is read exactly if the strict reading comes to the end. -/
theorem isSome_decode? (bytes : Bytes) : (decode? bytes).isSome = (readFrom [] none bytes).isSome := Option.isSome_map

end Wheelwright.Utf8
