/-
  Delivered lines — what the bytes of a pipe say, whatever they are and however they come in.

  **Specification** — the lines of a pipe are the pieces between its line feeds, and what is left behind the last one if that
  is anything (`linesBetween`).  Each is decoded apart, with replacement, and loses the line ends at its end.

  **Program** — a reader keeps the line that it has begun, and takes its bytes in chunks that may be cut anywhere, within a
  character too.  It never decodes a chunk.

  **The crux** — decoding apart is decoding as a whole: the text of all bytes, cut at its line feeds, has the same pieces
  (`linesBetween_decodeLossy`).  Both sides are cut by the same two equations, one for a piece that a separator ends and one
  for the last piece, and a line feed parts the decoded text just where it parts the bytes.
-/
import Mathlib.Data.List.TakeWhile
import Wheelwright.Proofs.Process.Rehearsed
import Wheelwright.Proofs.Text.Lossy

namespace Wheelwright

/-! ## Pieces between separators

  Lines are given by two equations, for a piece that a separator ends and for the last one.  Every statement about
  them is proved by the induction that these two suggest. -/

section Pieces

variable {α : Type} [DecidableEq α] {sep : α} {piece rest : List α}

/-- The pieces between separators; what no separator ends is a piece if it is not empty. -/
def linesBetween (sep : α) (xs : List α) : List (List α) :=
  let pieces := xs.splitOn sep
  if pieces.getLast? = some [] then pieces.dropLast else pieces

/-- A piece that a separator ends. -/
theorem linesBetween_append (h : sep ∉ piece) (rest : List α) :
    linesBetween sep (piece ++ sep :: rest) = piece :: linesBetween sep rest := by
  have hne := List.splitOn_ne_nil sep rest
  rw [linesBetween, linesBetween, List.splitOn_append_cons_self_of_not_mem h]
  rw [List.getLast?_cons_of_ne_nil hne, List.dropLast_cons_of_ne_nil hne]
  split
  · rfl
  · rfl

/-- What no separator ends. -/
theorem linesBetween_last (h : sep ∉ piece) : linesBetween sep piece = if piece = [] then [] else [piece] := by
  rw [linesBetween, List.splitOn_eq_singleton h]
  rw [List.getLast?_singleton, List.dropLast_singleton]
  simp only [Option.some.injEq]

/-- A list is without separators, or a piece that a separator ends and a list that is shorter. -/
theorem pieces_induction (sep : α) {motive : List α → Prop} (last : ∀ piece, sep ∉ piece → motive piece)
    (line : ∀ piece rest, sep ∉ piece → motive rest → motive (piece ++ sep :: rest)) (xs : List α) : motive xs := by
  induction hlength : xs.length using Nat.strongRecOn generalizing xs with
  | ind n ih =>
    by_cases hmem : sep ∈ xs
    · obtain ⟨piece, rest, rfl, hpiece⟩ := List.eq_append_cons_of_mem hmem
      refine line piece rest hpiece (ih rest.length ?_ rest rfl)
      rw [← hlength, List.length_append, List.length_cons]
      omega
    · exact last xs hmem

/-- There is a line for each separator, and one more if the end is none. -/
theorem length_linesBetween (sep : α) (xs : List α) :
    (linesBetween sep xs).length = xs.count sep + if xs.getLast?.all (· = sep) then 0 else 1 := by
  induction xs using pieces_induction sep with
  | last piece h =>
    -- a last piece without a separator is a line if it is not empty
    rw [linesBetween_last h, List.count_eq_zero.mpr h, Nat.zero_add]
    cases hlast : piece.getLast? with
    | none => rw [if_pos (List.getLast?_eq_none_iff.mp hlast)]; rfl
    | some x =>
      have hmem := List.mem_of_getLast? hlast
      have hx : x ≠ sep := fun heq => h (heq ▸ hmem)
      rw [if_neg (List.ne_nil_of_mem hmem), Option.all_some, if_neg (by simpa using hx)]
      rfl
  | line piece rest h ih =>
    have hlast : (piece ++ sep :: rest).getLast?.all (· = sep) = rest.getLast?.all (· = sep) := by
      rw [List.getLast?_append, List.getLast?_cons]
      cases rest.getLast? <;> simp
    rw [linesBetween_append h, List.length_cons, ih, hlast, List.count_append, List.count_eq_zero.mpr h,
      List.count_cons_self]
    omega

end Pieces

open LineReader (lineFeed closing remaining linesOf decode)
open Relay (bytesOf)

/-! ## The pieces of the reader

  The reader keeps what it has begun, and comes to the same pieces as if it had cut all bytes at once.  Where a chunk
  ends does not matter to it. -/

namespace LineReader

variable {begun piece : Bytes}

/-- A line feed ends the line that was begun. -/
theorem remaining_append (h : lineFeed ∉ piece) (begun rest : Bytes) :
    remaining begun (piece ++ lineFeed :: rest) = (begun.reverse ++ piece) :: remaining [] rest := by
  induction piece generalizing begun with
  | nil => rw [List.nil_append, remaining_lineFeed, List.append_nil]
  | cons b more ih =>
    obtain ⟨hb, hmore⟩ := not_or.mp (mt List.mem_cons.mpr h)
    rw [List.cons_append, remaining_cons (Ne.symm hb), ih hmore]
    simp

/-- What is left at the end of the pipe is the last line. -/
theorem remaining_last (h : lineFeed ∉ piece) (begun : Bytes) : remaining begun piece = closing (piece.reverse ++ begun) := by
  induction piece generalizing begun with
  | nil => rfl
  | cons b more ih =>
    obtain ⟨hb, hmore⟩ := not_or.mp (mt List.mem_cons.mpr h)
    rw [remaining_cons (Ne.symm hb), ih hmore]
    simp

/-- **The reader cuts its bytes at the line feeds.** -/
theorem linesOf_eq (bytes : Bytes) : linesOf bytes = linesBetween lineFeed bytes := by
  show remaining [] bytes = _
  induction bytes using pieces_induction lineFeed with
  | last piece h =>
    rw [remaining_last h, linesBetween_last h, closing_eq, List.append_nil, List.reverse_reverse]
    simp only [List.reverse_eq_nil_iff]
  | line piece rest h ih => rw [remaining_append h, linesBetween_append h, ih]; rfl

end LineReader

/-! ## The pieces of the text

  To decode and then cut is to cut and then decode.  A line feed is one byte that belongs to no longer character, so
  it parts the characters where it parts the bytes, be these well formed or not. -/

namespace Utf8

variable {piece rest : Bytes}

/-- The characters of the text are those that are decoded. -/
theorem toList_decodeLossy (bytes : Bytes) : (decodeLossy bytes).toList = decodeFrom [] none bytes := String.toList_ofList

/-- The text breaks at line feeds as the bytes do. -/
theorem decodeLossy_lineFeed (piece rest : Bytes) : (decodeLossy (piece ++ lineFeed :: rest)).toList =
    (decodeLossy piece).toList ++ '\n' :: (decodeLossy rest).toList := by
  simp only [toList_decodeLossy]
  exact decodeFrom_lineFeed sound_none piece rest

/-- Without the byte there is no line feed in the text. -/
theorem lineFeed_notMem_decodeLossy (h : lineFeed ∉ piece) : '\n' ∉ (decodeLossy piece).toList := by
  rw [toList_decodeLossy]
  exact lineFeed_notMem_decodeFrom sound_none h

/-- Only no bytes decode to nothing. -/
theorem decodeLossy_eq_nil_iff : (decodeLossy piece).toList = [] ↔ piece = [] := by
  rw [toList_decodeLossy, decodeFrom_eq_nil_iff sound_none]
  exact ⟨fun h => h.2, fun h => ⟨rfl, h⟩⟩

/-- **The pieces of the text are the texts of the pieces.** -/
theorem linesBetween_decodeLossy (bytes : Bytes) : linesBetween '\n' (decodeLossy bytes).toList =
    (linesBetween lineFeed bytes).map fun piece => (decodeLossy piece).toList := by
  induction bytes using pieces_induction lineFeed with
  | last piece h =>
    rw [linesBetween_last h, linesBetween_last (lineFeed_notMem_decodeLossy h)]
    by_cases hpiece : piece = []
    · rw [if_pos hpiece, if_pos (decodeLossy_eq_nil_iff.mpr hpiece), List.map_nil]
    · rw [if_neg hpiece, if_neg (mt decodeLossy_eq_nil_iff.mp hpiece), List.map_singleton]
  | line piece rest h ih =>
    rw [linesBetween_append h, decodeLossy_lineFeed, linesBetween_append (lineFeed_notMem_decodeLossy h), ih,
      List.map_cons]

/-- Bytes are well formed if each of their lines is: no line feed stands within a character. -/
theorem isSome_decode?_iff (bytes : Bytes) : (decode? bytes).isSome = true ↔
    ∀ piece ∈ linesBetween lineFeed bytes, (decode? piece).isSome = true := by
  induction bytes using pieces_induction lineFeed with
  | last piece h =>
    rw [linesBetween_last h]
    by_cases hpiece : piece = []
    · rw [if_pos hpiece, hpiece]
      exact iff_of_true rfl fun _ hmem => absurd hmem List.not_mem_nil
    · rw [if_neg hpiece, List.forall_mem_singleton]
  | line piece rest h ih =>
    rw [linesBetween_append h, List.forall_mem_cons, ← ih, isSome_decode?, isSome_decode?, isSome_decode?,
      readFrom_lineFeed sound_none, Bool.and_eq_true]

end Utf8

/-! ## Delivered lines

  From bytes to lines of text, with the line ends that each of them loses. -/

/-- The text loses the line ends at its end, and nothing else. -/
theorem OutputLine.text_ofText_append (st : OutputStream) (text : String) : ∃ ends : List Char,
    (∀ c ∈ ends, isLineEnd c = true) ∧ text.toList = (ofText st text).text.toList ++ ends ∧
      ∀ c ∈ (ofText st text).text.toList.getLast?, isLineEnd c = false := by
  have htext : (ofText st text).text.toList = (text.toList.reverse.dropWhile isLineEnd).reverse := String.toList_ofList
  refine ⟨(text.toList.reverse.takeWhile isLineEnd).reverse, fun c hc => ?_, ?_, fun c hc => ?_⟩
  · exact List.mem_takeWhile_imp (List.mem_reverse.mp hc)
  · rw [htext, ← List.reverse_append, List.takeWhile_append_dropWhile, List.reverse_reverse]
  · rw [htext, List.getLast?_reverse] at hc
    have := List.head?_dropWhile_not isLineEnd text.toList.reverse
    rw [hc] at this
    simpa using this

/-- A line feed at the end is a line end. -/
theorem OutputLine.ofText_decodeLossy_concat (st : OutputStream) (piece : Bytes) :
    ofText st (Utf8.decodeLossy (piece ++ [lineFeed])) = ofText st (Utf8.decodeLossy piece) := by
  have htext := Utf8.decodeLossy_lineFeed piece []
  rw [ofText, ofText, dropEndWhile, dropEndWhile, htext]
  simp [Utf8.decodeLossy, Utf8.decodeFrom, isLineEnd]

/-- The lines that bytes say on a stream. -/
def linesIn (st : OutputStream) (bytes : Bytes) : List OutputLine :=
  (linesBetween lineFeed bytes).map fun piece => .ofText st (Utf8.decodeLossy piece)

/-- The lines of the bytes, decoded, are the lines of the text. -/
theorem map_decode_linesOf (st : OutputStream) (bytes : Bytes) : (linesOf bytes).map (decode st) = linesIn st bytes := by
  rw [LineReader.linesOf_eq]
  rfl

/-- **A pipe's lines are the lines of its text.**  For any bytes on a pipe, the well formed and the others:

    - chunks that come in from both pipes, cut anywhere, give of each stream the pieces between its line feeds, each
      decoded apart and without the line ends at its end; and so does every order of the steps of readers, writers and
      listener in which the reader comes to the end of its pipe;
    - these are the lines of the text that all the bytes spell, decoded as a whole;
    - there is one for each line feed, and one more for what is left;
    - a character is never cut: all bytes are well formed exactly if every piece is, and then nothing is replaced.

    Only line ends at the end of a text are left out, and a piece may be decoded with its line feed. -/
theorem delivered_lines (st : OutputStream) :
    (∀ chunks : List Chunk, ((Course.reading chunks).heard ++ Relay.Hears.lastWords chunks).filter (·.stream = st) =
      linesIn st (bytesOf chunks st)) ∧
    (∀ events s, ({} : Relay).follow events = some s → (s.pipes st).phase = .ended →
      (s.received ++ s.queue).filter (·.stream = st) = linesIn st (s.pipes st).written) ∧
    (∀ bytes : Bytes,
      linesIn st bytes = (linesBetween '\n' (Utf8.decodeLossy bytes).toList).map
        (fun piece => .ofText st (String.ofList piece)) ∧
      (linesIn st bytes).length = bytes.count lineFeed + (if bytes.getLast?.all (· = lineFeed) then 0 else 1) ∧
      ((Utf8.decode? bytes).isSome = true ↔
        ∀ piece ∈ linesBetween lineFeed bytes, (Utf8.decode? piece).isSome = true) ∧
      ∀ text, Utf8.decode? bytes = some text → Utf8.decodeLossy bytes = text) ∧
    (∀ text, ∃ ends : List Char, (∀ c ∈ ends, OutputLine.isLineEnd c = true) ∧
      text.toList = (OutputLine.ofText st text).text.toList ++ ends ∧
      ∀ c ∈ (OutputLine.ofText st text).text.toList.getLast?, OutputLine.isLineEnd c = false) ∧
    ∀ piece : Bytes, OutputLine.ofText st (Utf8.decodeLossy (piece ++ [lineFeed])) = .ofText st (Utf8.decodeLossy piece) := by
  refine ⟨fun chunks => ?_, fun events s hs hended => ?_, fun bytes => ⟨?_, ?_, ?_, ?_⟩,
    OutputLine.text_ofText_append st, OutputLine.ofText_decodeLossy_concat st⟩
  · -- some order of steps brings the listener what the chunks hold
    obtain ⟨s, ⟨events, hs⟩, hears⟩ := Relay.Hears.exists_hears chunks
    obtain ⟨s', ⟨more, hs'⟩, hattentive, -, hreceived, hended⟩ := hears.shut
    have hsound := (Relay.Sound.start.follow hs).follow hs'
    rw [← hreceived, hsound.received_eq hattentive.queue (hended st).1, (hended st).2, map_decode_linesOf]
  · have hsound := Relay.Sound.start.follow hs
    rw [hsound.ledger st, (hsound.pipes st).passed_eq hended, map_decode_linesOf]
  · rw [Utf8.linesBetween_decodeLossy, List.map_map, linesIn]
    exact List.map_congr_left fun piece _ => by rw [Function.comp_apply, String.ofList_toList]
  · rw [linesIn, List.length_map, length_linesBetween]
  · exact Utf8.isSome_decode?_iff bytes
  · exact fun text htext => Utf8.decodeLossy_of_decode? htext

/-- A character that two chunks bring, a blank line, an octet that starts a character and one that starts none; the other
    pipe comes between them. -/
def cutChunks : List Chunk :=
  [⟨0, .stdout, [0xE2, 0x82], false⟩, ⟨1, .stderr, [97], false⟩, ⟨2, .stdout, [0xAC, 13, 10, 10, 0xC3, 10, 0xFF], false⟩]

/-- The same character, read one octet at a time. -/
def cutRun : List Relay.Event :=
  [.write .stdout [0xE2, 0x82], .read .stdout, .read .stdout, .write .stdout [0xAC, 13, 10], .close .stdout, .read .stdout,
    .read .stdout, .read .stdout, .pass .stdout, .read .stdout]

/-- The character is whole, and what is ill formed is replaced line by line. -/
theorem delivered_lines_cut :
    ((Course.reading cutChunks).heard ++ Relay.Hears.lastWords cutChunks).filter (·.stream = .stdout) =
      [⟨.stdout, "\u20ac"⟩, ⟨.stdout, ""⟩, ⟨.stdout, "\ufffd"⟩, ⟨.stdout, "\ufffd"⟩] ∧
    (∃ s, ({} : Relay).follow cutRun = some s ∧ (s.pipes .stdout).phase = .ended ∧
      (s.received ++ s.queue).filter (·.stream = .stdout) = [⟨.stdout, "\u20ac"⟩]) ∧
    Utf8.decode? [0xE2, 0x82, 0xAC] = some "\u20ac" ∧ Utf8.decodeLossy [0xE2, 0x82, 0xAC] = "\u20ac" := by
  have hrun : (({} : Relay).follow cutRun).map (fun s => ((s.pipes .stdout).phase, (s.pipes .stdout).written)) =
      some (.ended, [0xE2, 0x82, 0xAC, 13, 10]) := rfl
  obtain ⟨s, hs, hrun⟩ := Option.map_eq_some_iff.mp hrun
  obtain ⟨hended, hwritten⟩ := Prod.mk.inj hrun
  obtain ⟨hchunks, hevents, hbytes, -⟩ := delivered_lines .stdout
  have hdecoded : Utf8.decode? [0xE2, 0x82, 0xAC] = some "\u20ac" := by decide
  refine ⟨?_, ⟨s, hs, hended, ?_⟩, hdecoded, (hbytes _).2.2.2 _ hdecoded⟩
  · rw [hchunks]
    decide
  · rw [hevents cutRun s hs hended, hwritten]
    decide

end Wheelwright
