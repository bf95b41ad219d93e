/-
  UTF-8 — octets as text, strictly and with replacement.

  **Machine** — `Utf8.feed` takes one octet at a time.  Its state is what a started character still
  needs: the bits gathered so far, how many octets are owed, and the range the next one must lie in.
  Cutting the octets anywhere therefore gives the same text.

  **Replacement** — an octet that cannot continue a started character ends it: the octets read so
  far (one maximal ill-formed piece) become one U+FFFD, and the octet is read again from the start.
-/

namespace Wheelwright

/-- The content of a file, or what a program writes. -/
abbrev Bytes := List UInt8

namespace Utf8

/-- The mark for octets that are no text. -/
def replacement : Char := Char.ofNat 0xFFFD

/-- A started character: the bits gathered, the number of octets owed, and the bounds of the next. -/
structure Pending where
  bits : Nat
  owed : Nat
  low : Nat
  high : Nat

/-- What the first octet of a character leads to: a whole character, a started one, or neither. -/
inductive Start where
  | char (c : Char)
  | more (p : Pending)
  | bad

/-- The octet `b` between characters. -/
def start (b : Nat) : Start :=
  if b < 0x80 then .char (Char.ofNat b)
  else if b < 0xC2 then .bad
  else if b < 0xE0 then .more ⟨b - 0xC0, 1, 0x80, 0xBF⟩
  else if b = 0xE0 then .more ⟨0, 2, 0xA0, 0xBF⟩
  else if b = 0xED then .more ⟨0xD, 2, 0x80, 0x9F⟩
  else if b < 0xF0 then .more ⟨b - 0xE0, 2, 0x80, 0xBF⟩
  else if b = 0xF0 then .more ⟨0, 3, 0x90, 0xBF⟩
  else if b < 0xF4 then .more ⟨b - 0xF0, 3, 0x80, 0xBF⟩
  else if b = 0xF4 then .more ⟨4, 3, 0x80, 0x8F⟩
  else .bad

/-- One octet with replacement: the characters it completes and the state after it. -/
def feed (state : Option Pending) (b : Nat) : List Char × Option Pending :=
  match state with
  | some p =>
    if p.low ≤ b ∧ b ≤ p.high then
      let bits := p.bits * 64 + (b - 0x80)
      if p.owed ≤ 1 then ([Char.ofNat bits], none) else ([], some ⟨bits, p.owed - 1, 0x80, 0xBF⟩)
    else
      match start b with
      | .char c => ([replacement, c], none)
      | .more q => ([replacement], some q)
      | .bad => ([replacement, replacement], none)
  | none =>
    match start b with
    | .char c => ([c], none)
    | .more q => ([], some q)
    | .bad => ([replacement], none)

/-- The text of `bytes` from a state on, after `done` (the last character first); a character left
    unfinished is replaced. -/
def decodeFrom (done : List Char) (state : Option Pending) : Bytes → List Char
  | [] => (if state.isSome then replacement :: done else done).reverse
  | b :: rest =>
    let (out, next) := feed state b.toNat
    decodeFrom (out.reverse ++ done) next rest

/-- The text of `bytes`, each maximal ill-formed piece replaced by one U+FFFD. -/
def decodeLossy (bytes : Bytes) : String := String.ofList (decodeFrom [] none bytes)

/-- The characters of `bytes` from a state on, if they are well formed; `done` holds those read, the
    last first. -/
def readFrom (done : List Char) (state : Option Pending) : Bytes → Option (List Char)
  | [] => if state.isSome then none else some done.reverse
  | b :: rest =>
    match state with
    | some p =>
      if p.low ≤ b.toNat ∧ b.toNat ≤ p.high then
        let bits := p.bits * 64 + (b.toNat - 0x80)
        if p.owed ≤ 1 then readFrom (Char.ofNat bits :: done) none rest
        else readFrom done (some ⟨bits, p.owed - 1, 0x80, 0xBF⟩) rest
      else none
    | none =>
      match start b.toNat with
      | .char c => readFrom (c :: done) none rest
      | .more q => readFrom done (some q) rest
      | .bad => none

/-- The text of `bytes`, if they are well formed. -/
def decode? (bytes : Bytes) : Option String :=
  (readFrom [] none bytes).map String.ofList

/-- The octets of `s`. -/
def encode (s : String) : Bytes := s.toUTF8.toList

end Utf8

end Wheelwright
