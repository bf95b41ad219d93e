/-
  Framing — reading the inputs back off the stream that is hashed.

  **Specification** — two streams of inputs that are the same come from the same configuration and the
  same source files, if they are framed: neither the configuration nor a file has the boundary of a file
  in it, no file says what stands for an unreadable one, and no name holds a zero.

  **Program** — `inputStream` writes the configuration and then, for each file, the boundary, the name, a
  zero, and the content.  Nothing in it says how long a piece is.

  **The crux** — the boundary starts with a zero and has no other one, so it overlaps neither itself nor a
  piece that does not hold it: a piece ends where the first boundary stands (`eq_of_append_mark`).
-/
import Mathlib.Data.List.Forall2
import Mathlib.Data.List.Infix
import Wheelwright.Staleness

namespace Wheelwright

/-! ## Text as octets

  Texts are hashed as octets.  A text without a null has no zero among its octets, and different texts have different
  octets. -/

namespace Utf8

/-- The octets of an array are those from an index on, behind what is done. -/
theorem toList_loop (bytes : ByteArray) (i : Nat) (done : List UInt8) :
    ByteArray.toList.loop bytes i done = done.reverse ++ bytes.data.toList.drop i := by
  rw [ByteArray.toList.loop]
  split
  · rename_i hi
    have hlen : i < bytes.data.toList.length := hi
    have hget : bytes.get! i = bytes.data.toList[i] := getElem!_pos bytes.data i hi
    rw [toList_loop bytes (i + 1), List.drop_eq_getElem_cons hlen, hget, List.reverse_cons,
      List.append_assoc, List.singleton_append]
  · rename_i hi
    rw [List.drop_eq_nil_of_le (Nat.le_of_not_lt hi), List.append_nil]
termination_by bytes.size - i

/-- Encoding goes character by character. -/
theorem encode_eq (s : String) : encode s = s.toList.flatMap String.utf8EncodeChar := by
  have hdata : encode s = s.toByteArray.data.toList := toList_loop s.toByteArray 0 []
  rw [hdata, ← String.utf8Encode_toList, List.utf8Encode, List.toList_data_toByteArray]

/-- Texts with the same octets are the same. -/
theorem encode_injective : Function.Injective encode := by
  intro s s' h
  have hbytes : s.toList.utf8Encode = s'.toList.utf8Encode := by
    rw [List.utf8Encode, List.utf8Encode, ← encode_eq, ← encode_eq, h]
  rw [String.utf8Encode_toList, String.utf8Encode_toList] at hbytes
  exact String.toByteArray_inj.mp hbytes

/-- Only the character zero has an octet that is zero. -/
theorem eq_zero_of_mem {c : Char} (h : 0 ∈ String.utf8EncodeChar c) : c = Char.ofNat 0 := by
  have hoctet : ∀ n, (0 : UInt8) = UInt8.ofNat n → n % 256 = 0 := fun n hn =>
    (UInt8.toNat_ofNat' (n := n)).symm.trans (congrArg UInt8.toNat hn).symm
  have hval : c.val.toNat = 0 := by
    unfold String.utf8EncodeChar at h
    dsimp only at h
    split_ifs at h with h1 h2 h3 <;> simp only [List.mem_cons, List.not_mem_nil, or_false] at h
    · have hlow := hoctet _ h
      omega
    -- every octet of a longer character has its highest bit set
    · obtain h | h := h <;> (have hlow := hoctet _ h; omega)
    · obtain h | h | h := h <;> (have hlow := hoctet _ h; omega)
    · obtain h | h | h | h := h <;> (have hlow := hoctet _ h; omega)
  exact Char.ext (UInt32.toNat_inj.mp hval)

/-- A text without a null has no zero among its octets. -/
theorem zero_notMem_encode {s : String} (h : Char.ofNat 0 ∉ s.toList) : 0 ∉ encode s := by
  rw [encode_eq, List.mem_flatMap]
  rintro ⟨c, hc, hzero⟩
  exact h (eq_zero_of_mem hzero ▸ hc)

end Utf8

/-! ## Names

  A file goes by its names with slashes between them.  Plain names hold no slash, so the names can be told from the
  joined text. -/

/-- A name that an entry may have: it is not empty and holds neither a slash nor a zero.  A backslash
    would be taken for a slash. -/
structure PlainName (name : String) : Prop where
  /-- There is something to it. -/
  nonempty : name ≠ ""
  /-- It is one name, in either spelling of paths. -/
  slash : '/' ∉ name.toList
  backslash : '\\' ∉ name.toList
  /-- It holds no null, which ends it in a stream. -/
  zero : Char.ofNat 0 ∉ name.toList

/-- Whether a name is plain can be decided. -/
instance (name : String) : Decidable (PlainName name) :=
  decidable_of_iff (name ≠ "" ∧ '/' ∉ name.toList ∧ '\\' ∉ name.toList ∧ Char.ofNat 0 ∉ name.toList)
    ⟨fun h => ⟨h.1, h.2.1, h.2.2.1, h.2.2.2⟩, fun h => ⟨h.nonempty, h.slash, h.backslash, h.zero⟩⟩

section Names

variable {names names' : List String}

/-- A character of joined names is a slash or stands in one of them. -/
theorem mem_intercalate {c : Char} : ∀ {pieces : List (List Char)}, c ∈ ['/'].intercalate pieces →
    c = '/' ∨ ∃ piece ∈ pieces, c ∈ piece
  | [], h => absurd h List.not_mem_nil
  | [piece], h => Or.inr ⟨piece, List.mem_singleton_self piece, by rwa [List.intercalate_singleton] at h⟩
  | piece :: next :: more, h => by
    rw [List.intercalate_cons_cons, List.mem_append, List.mem_append, List.mem_singleton] at h
    rcases h with (h | h) | h
    · exact Or.inr ⟨piece, List.mem_cons_self, h⟩
    · exact Or.inl h
    · exact (mem_intercalate h).imp_right fun ⟨q, hq, hc⟩ => ⟨q, List.mem_cons_of_mem _ hq, hc⟩

/-- Names without backslashes are joined as they are. -/
theorem toList_relativeName (h : ∀ name ∈ names, PlainName name) :
    (relativeName names).toList = ['/'].intercalate (names.map String.toList) := by
  rw [relativeName, String.toList_ofList, String.toList_intercalate]
  refine (List.map_congr_left fun c hc => if_neg ?_).trans (List.map_id' _)
  rintro rfl
  obtain hslash | ⟨piece, hpiece, hmem⟩ := mem_intercalate hc
  · exact absurd hslash (by decide)
  · obtain ⟨name, hname, rfl⟩ := List.mem_map.mp hpiece
    exact (h name hname).backslash hmem

/-- A path of plain names holds no null. -/
theorem zero_notMem_relativeName (h : ∀ name ∈ names, PlainName name) :
    Char.ofNat 0 ∉ (relativeName names).toList := by
  rw [toList_relativeName h]
  intro hzero
  obtain hslash | ⟨piece, hpiece, hmem⟩ := mem_intercalate hzero
  · exact absurd hslash (by decide)
  · obtain ⟨name, hname, rfl⟩ := List.mem_map.mp hpiece
    exact (h name hname).zero hmem

/-- A path of plain names can be taken apart again. -/
theorem splitOn_relativeName (hne : names ≠ []) (h : ∀ name ∈ names, PlainName name) :
    (relativeName names).toList.splitOn '/' = names.map String.toList := by
  rw [toList_relativeName h]
  refine List.splitOn_intercalate '/' (fun piece hpiece => ?_) fun hnil => hne (List.map_eq_nil_iff.mp hnil)
  obtain ⟨name, hname, rfl⟩ := List.mem_map.mp hpiece
  exact (h name hname).slash

/-- Only no names at all leave no text. -/
theorem relativeName_ne_nil (hne : names ≠ []) (h : ∀ name ∈ names, PlainName name) :
    relativeName names ≠ relativeName [] := by
  intro heq
  have hsplit := splitOn_relativeName hne h
  rw [heq] at hsplit
  -- the one piece of an empty text would be the name
  obtain ⟨name, rest, rfl⟩ := List.exists_cons_of_ne_nil hne
  have hempty : [[]] = name.toList :: rest.map String.toList := hsplit
  exact (h name List.mem_cons_self).nonempty
    (String.toList_injective (List.cons.inj hempty).1.symm)

/-- **Different lists of plain names are joined differently.** -/
theorem relativeName_inj (h : ∀ name ∈ names, PlainName name) (h' : ∀ name ∈ names', PlainName name)
    (heq : relativeName names = relativeName names') : names = names' := by
  by_cases hne : names = []
  · subst hne
    by_contra hne'
    exact relativeName_ne_nil (Ne.symm hne') h' heq.symm
  by_cases hne' : names' = []
  · subst hne'
    exact absurd heq (relativeName_ne_nil hne h)
  have hsplit := splitOn_relativeName hne h
  rw [heq, splitOn_relativeName hne' h'] at hsplit
  exact (List.map_injective_iff.mpr fun _ _ => String.toList_injective) hsplit.symm

end Names

/-! ## Pieces of a stream

  A mark is looked for in a stream.  It has its only zero at its beginning, so it does not begin within a piece that
  holds no mark, and not within itself. -/

section Pieces

variable {tail piece a a' r r' : Bytes}

/-- A mark that starts with its only zero and stands behind a piece does not begin in it. -/
theorem eq_nil_of_mark_append (htail : 0 ∉ tail) (h : ¬ 0 :: tail <:+: piece)
    (heq : 0 :: tail ++ r = piece ++ (0 :: tail ++ r')) : piece = [] := by
  obtain ⟨more, hpiece, -⟩ | ⟨more, hmark, hr⟩ := List.append_eq_append_iff.mp heq
  · exact absurd ⟨[], more, by rw [hpiece, List.nil_append]⟩ h
  · cases piece with
    | nil => rfl
    | cons b piece =>
      -- what is left of the mark would start with another zero
      cases more with
      | nil => exact absurd ⟨[], [], by simpa using hmark⟩ h
      | cons c more =>
        have hc : c = 0 := (List.cons.inj hr).1.symm
        rw [(List.cons.inj hmark).2, hc] at htail
        exact absurd (List.mem_append_right _ List.mem_cons_self) htail

/-- **A piece ends where the first mark stands.** -/
theorem eq_of_append_mark (htail : 0 ∉ tail) (h : ¬ 0 :: tail <:+: a) (h' : ¬ 0 :: tail <:+: a')
    (heq : a ++ (0 :: tail ++ r) = a' ++ (0 :: tail ++ r')) : a = a' ∧ r = r' := by
  obtain ⟨more, ha, hr⟩ | ⟨more, ha, hr⟩ := List.append_eq_append_iff.mp heq
  · have hmore : more = [] := eq_nil_of_mark_append htail
      (fun hin => h' (ha ▸ hin.trans (List.suffix_append a more).isInfix)) hr
    rw [hmore] at ha hr
    exact ⟨by rw [ha, List.append_nil], List.append_cancel_left hr⟩
  · have hmore : more = [] := eq_nil_of_mark_append htail
      (fun hin => h (ha ▸ hin.trans (List.suffix_append a' more).isInfix)) hr
    rw [hmore] at ha hr
    exact ⟨by rw [ha, List.append_nil], (List.append_cancel_left hr).symm⟩

/-- A piece without a zero ends at the first one. -/
theorem eq_of_append_zero (h : 0 ∉ a) (h' : 0 ∉ a') (heq : a ++ 0 :: r = a' ++ 0 :: r') :
    a = a' ∧ r = r' :=
  eq_of_append_mark List.not_mem_nil (fun hin => h (hin.subset List.mem_cons_self))
    (fun hin => h' (hin.subset List.mem_cons_self)) heq

end Pieces

/-- What the stream has before the name of each file, but for the zero after it. -/
def boundary : Bytes := 0 :: Utf8.encode "file"

/-- Where the boundary comes for the first time is determined. -/
theorem eq_of_append_boundary {a a' r r' : Bytes} (h : ¬ boundary <:+: a) (h' : ¬ boundary <:+: a')
    (heq : a ++ (boundary ++ r) = a' ++ (boundary ++ r')) : a = a' ∧ r = r' :=
  eq_of_append_mark (Utf8.zero_notMem_encode (by decide)) h h' heq

/-! ## Streams

  The stream of one file and then of several.  What is written for the content of a file that could not be read is a
  mark, too, and a framed content is not that mark. -/

namespace SourceFile

/-- The stream of the file can be read back. -/
structure Framed (f : SourceFile) : Prop where
  /-- Its name holds no null. -/
  name : Char.ofNat 0 ∉ f.relative.toList
  /-- Its content does not look like the beginning of another file, nor like one that could not be read. -/
  content : ∀ b ∈ f.content, ¬ boundary <:+: b ∧ b ≠ unreadableMark

variable {f f' : SourceFile}

/-- The stream of a file after its boundary. -/
def body (f : SourceFile) : Bytes := 0 :: (Utf8.encode f.relative ++ 0 :: f.content.getD unreadableMark)

/-- A source file begins with the boundary. -/
theorem stream_eq (f : SourceFile) : f.stream = boundary ++ f.body := by
  simp [stream, body, boundary]

/-- What is written for the content has no boundary in it. -/
theorem Framed.written (h : f.Framed) : ¬ boundary <:+: f.content.getD unreadableMark := by
  cases hc : f.content with
  | none => with_unfolding_all decide
  | some b => exact (h.content b hc).1

/-- What is written for a content tells which it was, and whether there was one. -/
theorem content_inj (h : f.Framed) (h' : f'.Framed)
    (heq : f.content.getD unreadableMark = f'.content.getD unreadableMark) : f.content = f'.content := by
  -- a content that can be read is not the mark, for it is framed
  cases hc : f.content with
  | none =>
    cases hc' : f'.content with
    | none => rfl
    | some b' =>
      rw [hc, hc'] at heq
      exact absurd heq.symm (h'.content b' hc').2
  | some b =>
    cases hc' : f'.content with
    | none =>
      rw [hc, hc'] at heq
      exact absurd heq (h.content b hc).2
    | some b' =>
      rw [hc, hc'] at heq
      exact congrArg some heq

end SourceFile

open SourceFile (Framed)

variable {files files' : List SourceFile}

/-- A piece ends where the files begin. -/
theorem eq_of_append_files {a a' : Bytes} (h : ¬ boundary <:+: a) (h' : ¬ boundary <:+: a')
    (heq : a ++ files.flatMap SourceFile.stream = a' ++ files'.flatMap SourceFile.stream) :
    a = a' ∧ files.flatMap SourceFile.stream = files'.flatMap SourceFile.stream := by
  -- where one stream has no more files, the other would begin one inside its content
  cases files with
  | nil =>
    cases files' with
    | nil => exact ⟨List.append_cancel_right heq, rfl⟩
    | cons f' rest' =>
      refine absurd ⟨a', f'.body ++ rest'.flatMap SourceFile.stream, ?_⟩ h
      rw [List.flatMap_nil, List.append_nil, List.flatMap_cons, SourceFile.stream_eq] at heq
      rw [heq, List.append_assoc, List.append_assoc]
  | cons f rest =>
    cases files' with
    | nil =>
      refine absurd ⟨a, f.body ++ rest.flatMap SourceFile.stream, ?_⟩ h'
      rw [List.flatMap_nil, List.append_nil, List.flatMap_cons, SourceFile.stream_eq] at heq
      rw [← heq, List.append_assoc, List.append_assoc]
    | cons f' rest' =>
      rw [List.flatMap_cons, List.flatMap_cons, SourceFile.stream_eq, SourceFile.stream_eq,
        List.append_assoc, List.append_assoc] at heq ⊢
      obtain ⟨rfl, hrest⟩ := eq_of_append_boundary h h' heq
      exact ⟨rfl, by rw [hrest]⟩

/-- The files that a stream was made of. -/
theorem files_eq_of_stream_eq (h : ∀ f ∈ files, f.Framed) (h' : ∀ f ∈ files', f.Framed)
    (heq : files.flatMap SourceFile.stream = files'.flatMap SourceFile.stream) :
    List.Forall₂ (fun f f' => f.relative = f'.relative ∧ f.content = f'.content) files files' := by
  -- on the files: each takes as much of the stream as its counterpart
  induction files generalizing files' with
  | nil =>
    cases files' with
    | nil => exact .nil
    | cons f' rest' =>
      rw [List.flatMap_nil, List.flatMap_cons, SourceFile.stream_eq] at heq
      cases heq
  | cons f rest ih =>
    cases files' with
    | nil =>
      rw [List.flatMap_nil, List.flatMap_cons, SourceFile.stream_eq] at heq
      cases heq
    | cons f' rest' =>
      obtain ⟨hf, hrest⟩ := List.forall_mem_cons.mp h
      obtain ⟨hf', hrest'⟩ := List.forall_mem_cons.mp h'
      rw [List.flatMap_cons, List.flatMap_cons, SourceFile.stream_eq, SourceFile.stream_eq,
        List.append_assoc, List.append_assoc] at heq
      have hbody := List.append_cancel_left heq
      rw [SourceFile.body, SourceFile.body, List.cons_append, List.cons_append, List.append_assoc,
        List.append_assoc, List.cons_append, List.cons_append] at hbody
      -- the name ends at the first zero, and the content where the other files begin
      obtain ⟨hname, hcontent⟩ := eq_of_append_zero (Utf8.zero_notMem_encode hf.name)
        (Utf8.zero_notMem_encode hf'.name) (List.cons.inj hbody).2
      obtain ⟨hwritten, hmore⟩ := eq_of_append_files hf.written hf'.written hcontent
      exact .cons ⟨Utf8.encode_injective hname, SourceFile.content_inj hf hf' hwritten⟩
        (ih hrest hrest' hmore)

/-- **A framed stream tells the configuration and the files it was made of.** -/
theorem inputs_eq_of_inputStream_eq {config config' : Bytes} (hconfig : ¬ boundary <:+: config)
    (hconfig' : ¬ boundary <:+: config') (h : ∀ f ∈ files, f.Framed) (h' : ∀ f ∈ files', f.Framed)
    (heq : inputStream config files = inputStream config' files') : config = config' ∧
    List.Forall₂ (fun f f' => f.relative = f'.relative ∧ f.content = f'.content) files files' := by
  rw [inputStream, inputStream, List.append_assoc, List.append_assoc] at heq
  obtain ⟨rfl, hfiles⟩ := eq_of_append_files hconfig hconfig'
    (List.cons.inj (List.append_cancel_left heq)).2
  exact ⟨rfl, files_eq_of_stream_eq h h' hfiles⟩

/-! ## Fingerprints

  The fingerprint is a digest of the stream.  That two digests agree says nothing without a hypothesis on the
  function; the one here is about the two streams at hand only. -/

namespace StalenessInputs

variable {i i' : StalenessInputs} {t t' : FileTree} {config config' : Bytes}

/-- The inputs can be read back: names are plain, neither the configuration nor a file has a boundary in
    it, and no file says what stands for an unreadable one. -/
structure Framed (t : FileTree) (config : Bytes) (files : List SourceFile) : Prop where
  /-- The names of all entries are plain. -/
  names : ∀ e ∈ t.entries, ∀ name ∈ e.1, PlainName name
  /-- The configuration does not look like the beginning of a file. -/
  config : ¬ boundary <:+: config
  /-- The same is true of the contents, none of which is the mark of a file that could not be read. -/
  content : ∀ f ∈ files, ∀ b ∈ f.content, ¬ boundary <:+: b ∧ b ≠ unreadableMark

/-- The file is found over these names from the root. -/
def FoundOver (root : Path) (f : SourceFile) (names : List String) : Prop :=
  f.relative = relativeName names ∧ f.path = names.foldl Path.child root

/-- A source file was found over its entry, at some depth. -/
theorem foundOver_of_sourceFile? {x : Exclusions} {root : Path} {top : Location} {e : Location × Entry}
    {f : SourceFile} (h : x.sourceFile? t root top e = some f) :
    FoundOver root f (e.1.drop top.length) := by
  rw [Exclusions.sourceFile?] at h
  split at h
  · dsimp only at h
    split at h
    · cases h
      exact ⟨rfl, rfl⟩
    · cases h
  · cases h

/-- A source file comes from an entry. -/
theorem exists_sourceFile_of_mem (hfiles : i.files t = .ok files) {f : SourceFile} (hf : f ∈ files) :
    ∃ e ∈ t.entries, ∃ x top, Exclusions.sourceFile? x t i.sourceRoot top e = some f := by
  rw [StalenessInputs.files] at hfiles
  -- there are source files only if the root is a directory and the globs can be read
  split at hfiles
  · cases hglobs : i.overrides with
    | error e =>
      rw [hglobs] at hfiles
      cases hfiles
    | ok globs =>
      rw [hglobs] at hfiles
      cases hfiles
      rw [Exclusions.sourceFiles] at hf
      split at hf
      · rename_i top _
        obtain ⟨e, he, hsome⟩ := List.mem_filterMap.mp (List.mem_mergeSort.mp hf)
        exact ⟨e, he, _, top, hsome⟩
      · cases hf
  · cases hfiles
    cases hf

/-- A source file is found over the last names of an entry's location. -/
theorem exists_foundOver_of_mem (hfiles : i.files t = .ok files) {f : SourceFile} (hf : f ∈ files) :
    ∃ e ∈ t.entries, ∃ depth, FoundOver i.sourceRoot f (e.1.drop depth) := by
  obtain ⟨e, he, x, top, hsome⟩ := exists_sourceFile_of_mem hfiles hf
  exact ⟨e, he, top.length, foundOver_of_sourceFile? hsome⟩

/-- A source file of such a tree has its place in the stream. -/
theorem Framed.file (h : Framed t config files) (hfiles : i.files t = .ok files) {f : SourceFile}
    (hf : f ∈ files) : f.Framed := by
  obtain ⟨e, he, depth, hrel, -⟩ := exists_foundOver_of_mem hfiles hf
  refine ⟨?_, h.content f hf⟩
  rw [hrel]
  exact zero_notMem_relativeName fun name hname => h.names e he name (List.mem_of_mem_drop hname)

/-- The fingerprint is that of the stream. -/
theorem fingerprint_eq (hconfig : i.config t = .ok config) (hfiles : i.files t = .ok files) :
    i.fingerprint t = .ok (Sha256.hexDigest (inputStream config files)) := by
  rw [fingerprint, stream, hconfig, hfiles]
  rfl

/-- The configuration is what its file holds. -/
theorem config_of_read (h : (t.read i.configFile).toOption = some config) : i.config t = .ok config := by
  rw [StalenessInputs.config]
  split
  · rename_i content hread
    rw [hread] at h
    exact congrArg Except.ok (Option.some.inj h)
  · rename_i e hread
    rw [hread] at h
    cases h

/-- The source files below a directory are all those that are found there, in order. -/
theorem files_of_root {globs : IgnoreFile} {top : Location} (hdir : t.isDirectory i.sourceRoot = true)
    (hglobs : i.overrides = .ok globs) (htop : t.locate i.sourceRoot true = .ok top) :
    i.files t = .ok ((t.entries.filterMap
      ((i.exclusions t globs).sourceFile? t i.sourceRoot top)).mergeSort SourceFile.le) := by
  rw [StalenessInputs.files, if_pos hdir, hglobs]
  show Except.ok (Exclusions.sourceFiles _ t i.sourceRoot) = _
  rw [Exclusions.sourceFiles, htop]

/-- Source files that are found in order are not moved. -/
theorem files_of_pairwise (globs : IgnoreFile) (top : Location) (hdir : t.isDirectory i.sourceRoot = true)
    (hglobs : i.overrides = .ok globs) (htop : (t.locate i.sourceRoot true).toOption = some top)
    (hfound : t.entries.filterMap ((i.exclusions t globs).sourceFile? t i.sourceRoot top) =
      files) (hsorted : files.Pairwise (SourceFile.le · ·)) : i.files t = .ok files := by
  cases hthere : t.locate i.sourceRoot true with
  | error e =>
    rw [hthere] at htop
    cases htop
  | ok there =>
    rw [hthere] at htop
    obtain rfl : there = top := Option.some.inj htop
    rw [files_of_root hdir hglobs hthere, hfound, List.mergeSort_of_pairwise hsorted]

/-- A configuration file beside the directory of the source files. -/
def beside : StalenessInputs := { configFile := ⟨"/p/conf"⟩, sourceRoot := ⟨"/p/src"⟩ }

/-- A short configuration and one source file. -/
def spread : FileTree where
  entries := [(["p"], .directory), (["p", "src"], .directory),
    (["p", "conf"], .file (Utf8.encode "A") .plain), (["p", "src", "a"], .file (Utf8.encode "B") .plain)]

/-- The source file of `spread`. -/
def spreadFile : SourceFile := ⟨"a", ⟨"/p/src/a"⟩, some (Utf8.encode "B")⟩

/-- It has one source file. -/
theorem files_spread : beside.files spread = .ok [spreadFile] :=
  files_of_pairwise ⟨IgnoreFile.withoutDot "/p/src", []⟩ ["p", "src"] (by with_unfolding_all decide) rfl
    (by with_unfolding_all decide) (by with_unfolding_all decide) (List.pairwise_singleton _ _)

/-- **Equal fingerprints of framed inputs mean the same configuration and the same source files**: as many
    of them, in the same order, found over the same names, and with the same content if any.  The digest
    does not take these two streams for the same. -/
theorem inputs_eq_of_fingerprint_eq (hconfig : i.config t = .ok config)
    (hconfig' : i'.config t' = .ok config') (hfiles : i.files t = .ok files)
    (hfiles' : i'.files t' = .ok files') (hframed : Framed t config files)
    (hframed' : Framed t' config' files')
    (hdigest : Sha256.hexDigest (inputStream config files) = Sha256.hexDigest (inputStream config' files') →
      inputStream config files = inputStream config' files')
    (h : i.fingerprint t = i'.fingerprint t') :
    config = config' ∧ List.Forall₂ (fun f f' => f.content = f'.content ∧
      ∃ names, FoundOver i.sourceRoot f names ∧ FoundOver i'.sourceRoot f' names) files files' := by
  rw [fingerprint_eq hconfig hfiles, fingerprint_eq hconfig' hfiles'] at h
  -- the streams are the same, so are the configurations, and each file has its counterpart
  obtain ⟨rfl, hsame⟩ := inputs_eq_of_inputStream_eq hframed.config hframed'.config
    (fun f hf => hframed.file hfiles hf) (fun f hf => hframed'.file hfiles' hf)
    (hdigest (Except.ok.inj h))
  refine ⟨rfl, List.forall₂_iff_zip.mpr ⟨hsame.length_eq, fun {f f'} hmem => ?_⟩⟩
  obtain ⟨hrel, hcontent⟩ := (List.forall₂_iff_zip.mp hsame).2 hmem
  obtain ⟨e, he, depth, hfound⟩ := exists_foundOver_of_mem hfiles (List.of_mem_zip hmem).1
  obtain ⟨e', he', depth', hfound'⟩ := exists_foundOver_of_mem hfiles' (List.of_mem_zip hmem).2
  have hnames : e.1.drop depth = e'.1.drop depth' := relativeName_inj
    (fun name hn => hframed.names e he name (List.mem_of_mem_drop hn))
    (fun name hn => hframed'.names e' he' name (List.mem_of_mem_drop hn))
    (hfound.1.symm.trans (hrel.trans hfound'.1))
  exact ⟨hcontent, e.1.drop depth, hfound, hnames ▸ hfound'⟩

/-- The same project elsewhere, with a hidden file. -/
def moved : FileTree where
  entries := [(["q"], .directory), (["q", "conf"], .file (Utf8.encode "A") .executable), (["q", "src"], .directory),
    (["q", "src", ".b"], .file (Utf8.encode "C") .plain), (["q", "src", "a"], .file (Utf8.encode "B") .plain)]

/-- Inputs elsewhere. -/
def elsewhere : StalenessInputs := { configFile := ⟨"/q/conf"⟩, sourceRoot := ⟨"/q/src"⟩ }

/-- The source file of the moved tree. -/
def movedFile : SourceFile := ⟨"a", ⟨"/q/src/a"⟩, some (Utf8.encode "B")⟩

/-- It is the only one. -/
theorem files_moved : elsewhere.files moved = .ok [movedFile] :=
  files_of_pairwise ⟨IgnoreFile.withoutDot "/q/src", []⟩ ["q", "src"] (by with_unfolding_all decide) rfl
    (by with_unfolding_all decide) (by with_unfolding_all decide) (List.pairwise_singleton _ _)

/-- The two have the same fingerprint and the same contents, though not the same paths. -/
theorem inputs_eq_of_moved : beside.fingerprint spread = elsewhere.fingerprint moved ∧
    List.Forall₂ (fun f f' => f.content = f'.content ∧
      ∃ names, FoundOver ⟨"/p/src"⟩ f names ∧ FoundOver ⟨"/q/src"⟩ f' names) [spreadFile] [movedFile] := by
  have hspread : beside.config spread = .ok (Utf8.encode "A") := config_of_read (by with_unfolding_all decide)
  have hmoved : elsewhere.config moved = .ok (Utf8.encode "A") := config_of_read (by with_unfolding_all decide)
  have hstream : inputStream (Utf8.encode "A") [spreadFile] = inputStream (Utf8.encode "A") [movedFile] := rfl
  have hfingerprint : beside.fingerprint spread = elsewhere.fingerprint moved := by
    rw [fingerprint_eq hspread files_spread, fingerprint_eq hmoved files_moved, hstream]
  exact ⟨hfingerprint, (inputs_eq_of_fingerprint_eq hspread hmoved files_spread files_moved
    ⟨by with_unfolding_all decide, by with_unfolding_all decide, by with_unfolding_all decide⟩
    ⟨by with_unfolding_all decide, by with_unfolding_all decide, by with_unfolding_all decide⟩ (fun _ => hstream) hfingerprint).2⟩

/-- No source file, and a configuration that goes on as if there were one. -/
def packed : FileTree where
  entries := [(["p"], .directory), (["p", "src"], .directory),
    (["p", "conf"], .file (Utf8.encode "A" ++ spreadFile.stream) .plain)]

/-- The packed tree has no source files. -/
theorem files_packed : beside.files packed = .ok [] :=
  files_of_pairwise ⟨IgnoreFile.withoutDot "/p/src", []⟩ ["p", "src"] (by with_unfolding_all decide) rfl
    (by with_unfolding_all decide) (by with_unfolding_all decide) .nil

/-- **A configuration can spell a source file out**: with the file taken away and the configuration
    rewritten the fingerprint is the same, whatever the digest does. -/
theorem fingerprint_packed : beside.fingerprint packed = beside.fingerprint spread ∧
    beside.config packed ≠ beside.config spread ∧
    beside.files packed = .ok [] ∧ beside.files spread = .ok [spreadFile] := by
  have hspread : beside.config spread = .ok (Utf8.encode "A") := config_of_read (by with_unfolding_all decide)
  have hpacked : beside.config packed = .ok (Utf8.encode "A" ++ spreadFile.stream) :=
    config_of_read (by with_unfolding_all decide)
  rw [fingerprint_eq hpacked files_packed, fingerprint_eq hspread files_spread, hspread, hpacked]
  refine ⟨?_, fun heq => ?_, files_packed, files_spread⟩
  · rw [inputStream, inputStream, List.flatMap_nil, List.append_nil, List.flatMap_singleton,
      List.append_assoc, List.cons_append]
  · exact absurd (Except.ok.inj heq) (by with_unfolding_all decide)

end StalenessInputs

end Wheelwright
