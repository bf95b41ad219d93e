/-
  Timeouts — what a configuration's number of seconds comes to.

  **Specification** — a configuration sets no timeout if it gives no number of seconds, or zero, less than zero, or no
  number at all.  Any other number below 2^64 comes to the span that is nearest to it in nanoseconds, and that span has
  less than 2^64 seconds, too.  From 2^64 seconds on there is no span, and a target cannot be made.

  **Program** — the number is filtered (finite and above zero) and then converted.  The filter lets through what the
  conversion has no answer for.

  **The crux** — a double with a fraction of a second is below 2^53, and a double from there on is a whole number of
  seconds (`nanoseconds_lt`).  So nothing is rounded up over the limit.
-/
import Wheelwright.Proofs.Project.Tables
import Wheelwright.Proofs.Toml.Doubles
import Wheelwright.Proofs.Target.Clients

namespace Wheelwright

/-! ## Spans of seconds

  The conversion to a span, on a finite double above zero.  It is exact where the double is a whole number, and rounds
  to the nearest nanosecond elsewhere.  Only doubles below 2^53 have a fraction, so rounding never comes near the
  limit of 2^64 seconds. -/

namespace Span

variable {m : Nat} {e : Int} {q : ℚ} {d : Span}

/-- A positive number of seconds: there is a span below 2^64, and it is the nearest one. -/
theorem ofSeconds?_finite (hm : m ≠ 0) :
    ((2 : ℚ) ^ 64 ≤ m * 2 ^ e → ofSeconds? (.finite false m e) = none) ∧
      ((m : ℚ) * 2 ^ e < 2 ^ 64 → ∃ d, ofSeconds? (.finite false m e) = some d ∧
        RoundsTo (m * 2 ^ e * 10 ^ 9) d.nanoseconds) := by
  obtain ⟨hpos, hratio⟩ := Binary64.ratio_eq m e
  have hcast : (0 : ℚ) < (Binary64.ratio m e).2 := by exact_mod_cast hpos
  -- The program compares the quotient with the limit, and so does the value.
  have hlimit : Nat.pow 2 64 * (Binary64.ratio m e).2 ≤ (Binary64.ratio m e).1 ↔ (2 : ℚ) ^ 64 ≤ m * 2 ^ e := by
    rw [← hratio, le_div_iff₀ hcast]
    constructor
    · intro h
      exact_mod_cast h
    · intro h
      exact_mod_cast h
  -- off the zero, the reading is the one comparison
  have hof : ofSeconds? (.finite false m e) =
      if Nat.pow 2 64 * (Binary64.ratio m e).2 ≤ (Binary64.ratio m e).1 then none
      else some ⟨roundHalfEven ((Binary64.ratio m e).1 * perSecond) (Binary64.ratio m e).2⟩ := by
    rw [ofSeconds?, if_neg hm]
    rfl
  rw [hof]
  constructor
  · intro h
    exact if_pos (hlimit.mpr h)
  · intro h
    refine ⟨_, if_neg (fun hle => absurd (hlimit.mp hle) (not_le.mpr h)), ?_⟩
    have hround := roundsTo_roundHalfEven ((Binary64.ratio m e).1 * perSecond) hpos
    rw [Nat.cast_mul, mul_div_right_comm, hratio] at hround
    have hsecond : ((perSecond : Nat) : ℚ) = 10 ^ 9 := by norm_num [perSecond]
    rw [hsecond] at hround
    exact hround

/-- **Rounding does not lead over the limit.** -/
theorem nanoseconds_lt {n : Nat} (hdouble : Binary64.IsDouble (.finite false m e)) (hlt : (m : ℚ) * 2 ^ e < 2 ^ 64)
    (h : RoundsTo (m * 2 ^ e * 10 ^ 9) n) : n < 2 ^ 64 * 10 ^ 9 := by
  -- the bound on the mantissa is what a double gives
  obtain ⟨hm, -, -⟩ := hdouble
  by_cases he : 0 ≤ e
  · -- A whole number of seconds is a whole number of nanoseconds, and is not rounded.
    rw [Binary64.two_zpow_toNat he] at hlt h
    have hwhole : m * 2 ^ e.toNat < 2 ^ 64 := by exact_mod_cast hlt
    have hexact : RoundsTo ((m : ℚ) * ((2 ^ e.toNat : Nat) : ℚ) * 10 ^ 9) (m * 2 ^ e.toNat * 10 ^ 9) := by
      have hnat := roundsTo_natCast (m * 2 ^ e.toNat * 10 ^ 9)
      push_cast at hnat ⊢
      exact hnat
    rw [h.unique hexact]
    exact Nat.mul_lt_mul_of_pos_right hwhole (by norm_num)
  · -- A number with a fraction is far below the limit.
    have hpow : (2 : ℚ) ^ e ≤ 1 := zpow_le_one_of_nonpos₀ one_le_two (by omega)
    have hm_cast : (m : ℚ) < 2 ^ 53 := by exact_mod_cast hm
    have hsmall : (m : ℚ) * 2 ^ e < 2 ^ 53 := by
      calc (m : ℚ) * 2 ^ e ≤ m * 1 := mul_le_mul_of_nonneg_left hpow (by positivity)
        _ = m := mul_one _
        _ < 2 ^ 53 := hm_cast
    have hle : n ≤ 2 ^ 53 * 10 ^ 9 := by
      apply h.le_of_lt
      push_cast
      linarith
    have hbound : 2 ^ 53 * 10 ^ 9 < 2 ^ 64 * 10 ^ 9 := by norm_num
    omega

end Span

/-! ## Reading the number

  A number that is read from a text is a double, and so is one that is found anywhere in what was read.  This is
  carried from the reader of the configuration to the field of the timeout. -/

/-- Every number in the value is a double. -/
inductive Json.HoldsDoubles : Json → Prop
  | null : HoldsDoubles .null
  | bool (b : Bool) : HoldsDoubles (.bool b)
  | natural (n : Nat) : HoldsDoubles (.number (.natural n))
  | negative (n : Nat) : HoldsDoubles (.number (.negative n))
  | real {x : Binary64} (h : x.IsDouble) : HoldsDoubles (.number (.real x))
  | string (s : String) : HoldsDoubles (.string s)
  | array {items : List Json} (h : ∀ j ∈ items, HoldsDoubles j) : HoldsDoubles (.array items)
  | object {fields : List (String × Json)} (h : ∀ f ∈ fields, HoldsDoubles f.2) : HoldsDoubles (.object fields)
  | unreadable : HoldsDoubles .unreadable

namespace Toml

/-- The items of an array are those of the values, one by one. -/
theorem mem_itemsJson {items : List Value} {j : Json} (h : j ∈ itemsJson items) : ∃ v ∈ items, j = v.toJson := by
  induction items with
  | nil =>
    rw [itemsJson] at h
    cases h
  | cons v rest ih =>
    rw [itemsJson] at h
    rcases List.mem_cons.mp h with rfl | h
    · exact ⟨v, List.mem_cons_self, rfl⟩
    · obtain ⟨w, hw, hj⟩ := ih h
      exact ⟨w, List.mem_cons_of_mem _ hw, hj⟩

/-- The entries of an object are those of the table, one by one. -/
theorem mem_entriesJson {entries : Entries} {f : String × Json} (h : f ∈ entriesJson entries) :
    ∃ e ∈ entries, f.2 = e.2.toJson := by
  induction entries with
  | nil =>
    rw [entriesJson] at h
    cases h
  | cons e rest ih =>
    rw [entriesJson] at h
    rcases List.mem_cons.mp h with rfl | h
    · exact ⟨e, List.mem_cons_self, rfl⟩
    · obtain ⟨a, ha, hf⟩ := ih h
      exact ⟨a, List.mem_cons_of_mem _ ha, hf⟩

/-- A value that holds doubles only is read as one that does. -/
theorem toJson_holdsDoubles {v : Value} (h : v.HoldsDoubles) : v.toJson.HoldsDoubles := by
  -- arrays of values and of tables are read alike
  have hitems : ∀ {items : List Value}, (∀ v ∈ items, v.toJson.HoldsDoubles) →
      (Json.array (itemsJson items)).HoldsDoubles := by
    intro items h
    refine .array fun j hj => ?_
    obtain ⟨v, hv, rfl⟩ := mem_itemsJson hj
    exact h v hv
  induction h with
  | string s =>
    rw [Value.toJson]
    exact .string s
  | integer i =>
    rw [Value.toJson, Json.int]
    split
    · exact .natural _
    · exact .negative _
  | float h =>
    rw [Value.toJson]
    exact .real h
  | boolean b =>
    rw [Value.toJson]
    exact .bool b
  | datetime text =>
    rw [Value.toJson]
    refine .object fun f hf => ?_
    rw [List.mem_singleton.mp hf]
    exact .string text
  | array _ ih =>
    rw [Value.toJson]
    exact hitems ih
  | tables _ ih =>
    rw [Value.toJson]
    exact hitems ih
  | table _ ih =>
    rw [Value.toJson]
    refine .object fun f hf => ?_
    obtain ⟨e, he, heq⟩ := mem_entriesJson hf
    rw [heq]
    exact ih e he

end Toml

namespace Json

variable {j : Json} {r : Record} {names : List String}

/-- The fields of a record are parts of the value. -/
theorem HoldsDoubles.record (hj : j.HoldsDoubles) (h : record? names j = some r) :
    ∀ f ∈ r.fields, f.2.HoldsDoubles := by
  -- of the forms of a value only an array and an object are records
  cases hj with
  | array hitems =>
    rw [record?] at h
    split at h
    · cases h
      intro f hf
      exact hitems _ (List.of_mem_zip hf).2
    · cases h
  | object hfields =>
    simp only [record?] at h
    split at h
    · cases h
      intro f hf
      exact hfields f (List.mem_filter.mp hf).1
    · cases h
  | _ => cases h

/-- What is found in such fields holds doubles only. -/
theorem HoldsDoubles.lookup (h : ∀ f ∈ r.fields, f.2.HoldsDoubles) {name : String}
    (hj : r.fields.lookup name = some j) : j.HoldsDoubles := by
  obtain ⟨start, rest, hsplit, -⟩ := List.lookup_eq_some_iff.mp hj
  refine h (name, j) ?_
  rw [hsplit]
  exact List.mem_append_right _ List.mem_cons_self

/-- Where a value stands instead of null, it was read. -/
theorem of_orNull? {α : Type} {f : Json → Option α} {a : α} (h : orNull? f j = some (some a)) : f j = some a := by
  rw [orNull?.eq_def] at h
  split at h
  · cases h
  · obtain ⟨b, hb, heq⟩ := Option.map_eq_some_iff.mp h
    cases heq
    exact hb

/-- A number read from such a value is a double. -/
theorem HoldsDoubles.double? (hj : j.HoldsDoubles) {x : Binary64} (h : double? j = some x) : x.IsDouble := by
  cases hj with
  | natural n =>
    cases h
    exact Binary64.isDouble_ofNat n
  | negative n =>
    cases h
    exact (Binary64.isDouble_ofNat n).negate
  | real hx =>
    cases h
    exact hx
  | _ => cases h

end Json

namespace PipelineConfig

/-- The number of seconds that a configuration gives, if it gives a number. -/
def seconds? (c : PipelineConfig) : Option ℚ := c.stageTimeoutSeconds.bind Binary64.value?

/-- The deadline of a configuration read from such a value is a double. -/
theorem isDouble_of_ofJson? {j : Json} {c : PipelineConfig} (hj : j.HoldsDoubles) (h : ofJson? j = some c)
    {x : Binary64} (hx : c.stageTimeoutSeconds = some x) : x.IsDouble := by
  simp only [ofJson?, Option.bind_eq_bind, Option.bind_eq_some_iff] at h
  obtain ⟨r, hr, _, -, _, -, seconds, hseconds, _, -, h⟩ := h
  cases h
  cases hx
  have hfields := hj.record hr
  rw [Json.Record.optional] at hseconds
  split at hseconds
  · cases hseconds
  · rename_i value hlookup
    exact (Json.HoldsDoubles.lookup hfields hlookup).double? (Json.of_orNull? hseconds)

end PipelineConfig

/-- **The number that an accepted text gives is a double.** -/
theorem TargetConfig.isDouble_of_parse {text : String} {c : TargetConfig} (h : parse text = .ok c) {x : Binary64}
    (hx : c.pipeline.stageTimeoutSeconds = some x) : x.IsDouble := by
  rw [parse] at h
  split at h
  · rename_i d hread
    cases h
    obtain ⟨t, ht, hread⟩ := Option.bind_eq_some_iff.mp hread
    -- the text was parsed into doubles, and no step of the reading makes others
    have hj : (Json.object (Toml.entriesJson t)).HoldsDoubles := by
      have hvalue : (Toml.Value.table .header t).HoldsDoubles := .table (Toml.parse?_holdDoubles ht)
      have htable := Toml.toJson_holdsDoubles hvalue
      rw [Toml.Value.toJson] at htable
      exact htable
    simp only [read?, Option.bind_eq_bind, Option.bind_eq_some_iff] at hread
    obtain ⟨r, hr, _, -, _, -, _, -, _, -, pipeline, hpipeline, hread⟩ := hread
    cases hread
    have hfields := hj.record hr
    rw [Json.Record.defaulted] at hpipeline
    split at hpipeline
    · cases hpipeline
      cases hx
    · rename_i value hlookup
      exact PipelineConfig.isDouble_of_ofJson? (Json.HoldsDoubles.lookup hfields hlookup) hpipeline hx
  · cases h

/-! ## The timeout

  Zero, less than zero, infinite and no number at all are filtered out before the conversion.  What is left is a
  positive double, and it is converted or is 2^64 at least. -/

namespace PipelineConfig

variable {c : PipelineConfig} {x : Binary64} {q : ℚ}

/-- A number above zero passes the filter, and is converted. -/
theorem stageTimeout_of_positive {m : Nat} {e : Int} (hx : c.stageTimeoutSeconds = some (.finite false m e))
    (hm : m ≠ 0) :
    ((2 : ℚ) ^ 64 ≤ m * 2 ^ e → c.stageTimeout = .error ⟨.finite false m e⟩) ∧
      ((m : ℚ) * 2 ^ e < 2 ^ 64 →
        ∃ d, c.stageTimeout = .ok (some d) ∧ RoundsTo (m * 2 ^ e * 10 ^ 9) d.nanoseconds) := by
  -- the number is finite and positive, so it passes the filter
  have hfilter : (Binary64.isFinite (.finite false m e) && Binary64.isPositive (.finite false m e)) = true := by
    show (!false && m != 0) = true
    rw [Bool.not_false, Bool.true_and]
    exact bne_iff_ne.mpr hm
  obtain ⟨hnone, hsome⟩ := Span.ofSeconds?_finite (e := e) hm
  rw [stageTimeout, hx]
  dsimp only
  rw [if_pos hfilter]
  constructor
  · intro hlimit
    rw [hnone hlimit]
  · intro hlimit
    obtain ⟨d, hd, hround⟩ := hsome hlimit
    rw [hd]
    exact ⟨d, rfl, hround⟩

/-- What is below zero, zero, infinite or no number does not pass. -/
theorem stageTimeout_of_not_positive (hx : c.stageTimeoutSeconds = some x)
    (h : x.isPositive = false ∨ x.isFinite = false) : c.stageTimeout = .ok none := by
  have hfilter : ¬ (x.isFinite && x.isPositive) = true := by
    rw [Bool.and_eq_true]
    rintro ⟨hfinite, hpositive⟩
    rcases h with h | h
    · rw [h] at hpositive
      cases hpositive
    · rw [h] at hfinite
      cases hfinite
  rw [stageTimeout, hx]
  exact if_neg hfilter

/-- The three things that a number of seconds can come to. -/
theorem stageTimeout_cases (c : PipelineConfig) :
    ((∀ q, c.seconds? = some q → q ≤ 0) ∧ c.stageTimeout = .ok none) ∨
      (∃ (m : Nat) (e : Int), c.stageTimeoutSeconds = some (.finite false m e) ∧
        c.seconds? = some ((m : ℚ) * 2 ^ e) ∧ 0 < (m : ℚ) * 2 ^ e ∧ (m : ℚ) * 2 ^ e < 2 ^ 64 ∧
        ∃ d, c.stageTimeout = .ok (some d) ∧ RoundsTo ((m : ℚ) * 2 ^ e * 10 ^ 9) d.nanoseconds) ∨
      ∃ q x, c.seconds? = some q ∧ (2 : ℚ) ^ 64 ≤ q ∧ c.stageTimeout = .error ⟨x⟩ := by
  -- by the number that stands there: none, no number, one not above zero, one below the limit, one beyond
  cases hx : c.stageTimeoutSeconds with
  | none =>
    left
    rw [seconds?, stageTimeout, hx]
    exact ⟨nofun, rfl⟩
  | some x =>
    have hseconds : c.seconds? = x.value? := by
      rw [seconds?, hx]
      rfl
    rw [hseconds]
    cases x with
    | nan => exact Or.inl ⟨nofun, stageTimeout_of_not_positive hx (Or.inl rfl)⟩
    | infinite s => exact Or.inl ⟨nofun, stageTimeout_of_not_positive hx (Or.inr rfl)⟩
    | finite s m e =>
      have hpow : (0 : ℚ) < 2 ^ e := by positivity
      rw [Binary64.value?]
      cases s with
      | true =>
        -- Below zero, or a zero with a sign.
        left
        refine ⟨?_, stageTimeout_of_not_positive hx (Or.inl rfl)⟩
        intro q hq
        cases hq
        have hnonneg : (0 : ℚ) ≤ m * 2 ^ e := by positivity
        rw [if_pos rfl]
        linarith
      | false =>
        rw [if_neg Bool.false_ne_true, one_mul]
        by_cases hm : m = 0
        · subst hm
          left
          refine ⟨?_, stageTimeout_of_not_positive hx (Or.inl rfl)⟩
          intro q hq
          cases hq
          rw [Nat.cast_zero, zero_mul]
        · right
          have hpositive : (0 : ℚ) < m * 2 ^ e := by
            have hm_cast : (0 : ℚ) < m := by exact_mod_cast Nat.pos_of_ne_zero hm
            positivity
          obtain ⟨herror, hok⟩ := stageTimeout_of_positive hx hm
          by_cases hlimit : (2 : ℚ) ^ 64 ≤ m * 2 ^ e
          · exact Or.inr ⟨_, _, rfl, hlimit, herror hlimit⟩
          · exact Or.inl ⟨m, e, rfl, rfl, hpositive, not_le.mp hlimit, hok (not_le.mp hlimit)⟩

end PipelineConfig

/-! ## Making a target

  A target is made in several steps that may fail for many reasons.  The conversion is one of these steps, and no
  other one reports that a timeout is out of range. `InTime` says so and is carried through the binds. -/

/-- It was not for a timeout that there is no result. -/
def InTime {α : Type} (r : Except BuildError α) : Prop := ∀ x, r ≠ .error (.timeoutOverflow x)

/-- What is done with a value does not change an error. -/
theorem eq_error_of_map {α β ε : Type} {x : Except ε α} {f : α → β} {e : ε} (h : x.map f = .error e) :
    x = .error e := by
  cases x with
  | ok a => cases h
  | error e' =>
    cases h
    rfl

/-- A success takes no time that overflows. -/
theorem inTime_ok {α : Type} (a : α) : InTime (.ok a : Except BuildError α) := by
  intro x hx
  cases hx

/-- Two steps in a row stay in time if each does. -/
theorem InTime.bind {α β : Type} {r : Except BuildError α} {f : α → Except BuildError β} (h : InTime r)
    (hf : ∀ a, InTime (f a)) : InTime (r >>= f) := by
  cases r with
  | ok a => exact hf a
  | error e =>
    intro x hx
    cases hx
    exact h x rfl

namespace TargetStages

variable {c : TargetConfig} {p : Project} {b : Backend} {s : TargetServices}

/-- Rendering a command never reads the timeout. -/
theorem inTime_render (t : CommandTemplate) (v : TemplateVars) (root : Path) (b : Backend) (stage : String) :
    InTime (render t v root b stage) := by
  rw [render]
  split
  · exact inTime_ok _
  · intro x hx
    cases hx

/-- Nor does the choice of the command. -/
theorem inTime_buildCommand (c : TargetConfig) (b : Backend) (root : Path) : InTime (buildCommand c b root) := by
  simp only [buildCommand]
  split
  · exact inTime_render _ _ _ _ _
  · exact inTime_render _ _ _ _ _

/-- The declaration of the stages reads it, and in time if it is a span. -/
theorem inTime_declare {timeout : Option Span} (h : c.pipeline.stageTimeout = .ok timeout) :
    InTime (declare c p b s) := by
  have htimeout : TargetStages.timeout c = .ok timeout := by rw [TargetStages.timeout, h]
  rw [declare]
  refine (inTime_render _ _ _ _ _).bind fun prepare => ?_
  refine (inTime_buildCommand _ _ _).bind fun build => ?_
  refine (inTime_render _ _ _ _ _).bind fun install => ?_
  rw [htimeout]
  exact inTime_ok _

end TargetStages

/-- Loading the project never reads it. -/
theorem Project.inTime_load (file : Path) (tree : FileTree) : InTime (load file tree) := by
  rw [load]
  split
  · rename_i text _
    rw [parse]
    split
    · intro x hx
      cases hx
    · intro x hx
      obtain ⟨m, -, hm⟩ := ofTable_eq_error_iff.mp hx
      cases hm
  · intro x hx
    cases hx

/-- Creating a target stays in time where the configured timeout is a span. -/
theorem BuildTarget.inTime_create {c : TargetConfig} {timeout : Option Span} (h : c.pipeline.stageTimeout = .ok timeout)
    (file : Path) (services : TargetServices) (tree : FileTree) (host : HostGraph) :
    InTime (create c file services tree host) := by
  -- the backend, then the configuration; each can fail, but not by the timeout
  have hbackend : ∀ p, InTime (backendFor c p services) := by
    intro p
    refine InTime.bind ?_ fun b => ?_
    · rw [BackendRegistry.resolve]
      split
      · exact inTime_ok _
      · intro x hx
        cases hx
    · split
      · exact inTime_ok _
      · intro x hx
        cases hx
  have hconfigure : InTime (configure c file services tree) := by
    rw [configure]
    refine (Project.inTime_load file tree).bind fun p => ?_
    refine (hbackend p).bind fun b => ?_
    refine (TargetStages.inTime_declare h).bind fun stages => ?_
    split
    · intro x hx
      cases hx
    · exact inTime_ok _
  exact hconfigure.bind fun t => inTime_ok _

/-- **A target is made, or there is another reason that it is not.** -/
theorem TargetSession.inTime_create {c : TargetConfig} {timeout : Option Span}
    (h : c.pipeline.stageTimeout = .ok timeout) (s : TargetSession) (backends : BackendRegistry)
    (classifiers : ClassifierRegistry) (shared : Option Nat) : InTime (s.create c backends classifiers shared) := by
  -- the file of the project, the state file and the store come before the target
  have hdiscover : InTime (Project.discover c.projectFile s.world.tree) := by
    rw [Project.discover]
    generalize (if s.world.tree.isDirectory c.projectFile then c.projectFile.child Project.fileName
      else c.projectFile) = file
    split
    · exact inTime_ok _
    · intro x hx
      cases hx
  have hopen : ∀ p, InTime (FingerprintStore.openFile p s.world.tree) := by
    intro p
    rw [FingerprintStore.openFile]
    split
    · exact inTime_ok _
    · exact inTime_ok _
    · intro x hx
      cases hx
  have hstore : InTime (s.storeFor c shared) := by
    rw [storeFor.eq_def]
    split
    · exact inTime_ok _
    · split
      · exact (hopen _).bind fun store => inTime_ok _
      · exact inTime_ok _
  rw [create]
  refine hdiscover.bind fun file => ?_
  refine hstore.bind fun next => ?_
  exact (BuildTarget.inTime_create h _ _ _ _).bind fun t => inTime_ok _

/-! ## Accepted configurations

  The law for every text that is accepted as a configuration, with the three outcomes and the domain of each. -/

/-- **What an accepted configuration's timeout comes to.**  There is none exactly if no number above zero is given.  A
    number above zero and below 2^64 comes to its nanoseconds, rounded, and they are those of less than 2^64 seconds.
    Only from 2^64 seconds on there is no answer, and only then the making of a target breaks off for the timeout. -/
theorem TargetConfig.timeout_of_parse {text : String} {c : TargetConfig} (h : parse text = .ok c) :
    (c.pipeline.stageTimeout = .ok none ↔ ∀ q, c.pipeline.seconds? = some q → q ≤ 0) ∧
      (∀ q, c.pipeline.seconds? = some q → 0 < q → q < 2 ^ 64 → ∃ d, c.pipeline.stageTimeout = .ok (some d) ∧
        RoundsTo (q * 10 ^ 9) d.nanoseconds ∧ d.wholeSeconds < 2 ^ 64) ∧
      ((∃ e, c.pipeline.stageTimeout = .error e) ↔ ∃ q, c.pipeline.seconds? = some q ∧ 2 ^ 64 ≤ q) ∧
      ∀ (s : TargetSession) backends classifiers shared x,
        s.create c backends classifiers shared = .error (.timeoutOverflow x) →
          ∃ q, c.pipeline.seconds? = some q ∧ 2 ^ 64 ≤ q := by
  have hpos : (0 : ℚ) < 2 ^ 64 := by positivity
  -- an overflow while a target is created can only be the timeout's own
  have hbreaks : ∀ (s : TargetSession) backends classifiers shared x,
      s.create c backends classifiers shared = .error (.timeoutOverflow x) →
        ∃ e, c.pipeline.stageTimeout = .error e := by
    intro s backends classifiers shared x hx
    cases htimeout : c.pipeline.stageTimeout with
    | error e => exact ⟨e, rfl⟩
    | ok timeout => exact absurd hx (TargetSession.inTime_create htimeout s backends classifiers shared x)
  -- no span; a span that is rounded; an overflow
  rcases c.pipeline.stageTimeout_cases with ⟨hnone, ht⟩ | ⟨m, e, hx, hq, hpositive, hlt, d, ht, hround⟩ |
    ⟨q, x, hq, hle, ht⟩
  · rw [ht] at hbreaks ⊢
    refine ⟨⟨fun _ => hnone, fun _ => rfl⟩, ?_, ⟨?_, ?_⟩, ?_⟩
    · intro q hq hq0 _
      exact absurd (hnone q hq) (not_le.mpr hq0)
    · rintro ⟨e, he⟩
      cases he
    · rintro ⟨q, hq, hle⟩
      exact absurd (hnone q hq) (not_le.mpr (hpos.trans_le hle))
    · intro s backends classifiers shared x hx
      obtain ⟨e, he⟩ := hbreaks s backends classifiers shared x hx
      cases he
  · rw [hq]
    rw [ht] at hbreaks ⊢
    refine ⟨⟨nofun, fun hnone => ?_⟩, ?_, ⟨?_, ?_⟩, ?_⟩
    · exact absurd (hnone _ rfl) (not_le.mpr hpositive)
    · intro q hq _ _
      cases hq
      refine ⟨d, rfl, hround, ?_⟩
      have hnanos := Span.nanoseconds_lt (isDouble_of_parse h hx) hlt hround
      exact (Nat.div_lt_iff_lt_mul (by decide)).mpr hnanos
    · rintro ⟨e, he⟩
      cases he
    · rintro ⟨q, hq, hle⟩
      cases hq
      exact absurd hle (not_le.mpr hlt)
    · intro s backends classifiers shared x hx
      obtain ⟨e, he⟩ := hbreaks s backends classifiers shared x hx
      cases he
  · rw [ht, hq]
    refine ⟨⟨nofun, fun hnone => ?_⟩, ?_, ⟨fun _ => ⟨q, rfl, hle⟩, fun _ => ⟨_, rfl⟩⟩, fun _ _ _ _ _ _ => ⟨q, rfl, hle⟩⟩
    · exact absurd (hnone q rfl) (not_le.mpr (hpos.trans_le hle))
    · intro q' hq' _ hlt
      cases hq'
      exact absurd hle (not_le.mpr hlt)

/-! ## At the limit

  The longest timeout that comes to a span, and a number with which nothing is made. -/

/-- A configuration that gives a number of seconds. -/
def timedText (seconds : String) : String :=
  "project_file = \"proj\"\n[pipeline]\nstage_timeout_seconds = " ++ seconds ++ "\n"

/-- What is read of it. -/
def timedConfig (seconds : Binary64) : TargetConfig :=
  { projectFile := ⟨"proj"⟩, pipeline := { stageTimeoutSeconds := some seconds } }

/-- The configuration with a given timeout has its value in seconds. -/
theorem seconds?_timedConfig (m e : Nat) :
    (timedConfig (.finite false m e)).pipeline.seconds? = some ((m : ℚ) * 2 ^ e) := by
  show some ((if false then -1 else 1 : ℚ) * (m * 2 ^ (e : Int))) = _
  rw [if_neg Bool.false_ne_true, one_mul, zpow_natCast]

/-- The greatest double below 2^64 comes to a span of as many seconds. -/
theorem TargetConfig.timeout_of_parse_longest :
    ∃ c, parse (timedText "18446744073709549568.0") = .ok c ∧ c.pipeline.seconds? = some 18446744073709549568 ∧
      ∃ d, c.pipeline.stageTimeout = .ok (some d) ∧ RoundsTo (18446744073709549568 * 10 ^ 9) d.nanoseconds ∧
        d.wholeSeconds < 2 ^ 64 := by
  have hparse : parse (timedText "18446744073709549568.0") =
      .ok (timedConfig (.finite false 9007199254740991 (11 : Nat))) := eq_ok_of_toOption (by decide +kernel)
  have hseconds : (timedConfig (.finite false 9007199254740991 (11 : Nat))).pipeline.seconds? =
      some 18446744073709549568 := by
    rw [seconds?_timedConfig]
    norm_num
  exact ⟨_, hparse, hseconds, (timeout_of_parse hparse).2.1 _ hseconds (by norm_num) (by norm_num)⟩

/-- A project in the directory `proj`. -/
def timedTree : FileTree where
  entries := [(["proj"], .directory), (["proj", "pyproject.toml"], .file (Utf8.encode
    "[build-system]\nrequires = []\nbuild-backend = \"setuptools.build_meta\"\n") .plain)]

/-- **A timeout that nothing is made of**: a text with a finite number above zero is accepted, and its timeout breaks
    off what asks for it, and the making of a target with it. -/
theorem TargetConfig.timeout_breaks_off :
    ∃ c, parse (timedText "1e20") = .ok c ∧ c.pipeline.seconds? = some (10 ^ 20) ∧
      (∃ e, c.pipeline.stageTimeout = .error e) ∧
      ∃ (s : TargetSession) (x : Binary64), s.world.tree = timedTree ∧
        s.create c .standard .standard none = .error (.timeoutOverflow x) := by
  -- the number is read as the double nearest to it
  have hparse : parse (timedText "1e20") = .ok (timedConfig (.finite false 6103515625000000 (14 : Nat))) :=
    eq_ok_of_toOption (by decide +kernel)
  have hseconds : (timedConfig (.finite false 6103515625000000 (14 : Nat))).pipeline.seconds? = some (10 ^ 20) := by
    rw [seconds?_timedConfig]
    norm_num
  have hspan : Span.ofSeconds? (.finite false 6103515625000000 (14 : Nat)) = none := by decide +kernel
  have htimeout : (timedConfig (.finite false 6103515625000000 (14 : Nat))).pipeline.stageTimeout =
      .error ⟨.finite false 6103515625000000 (14 : Nat)⟩ := by
    simp only [PipelineConfig.stageTimeout, timedConfig, hspan]
    rfl
  have hcreate : ((TargetSession.create { world := { tree := timedTree, today := default } }
      (timedConfig (.finite false 6103515625000000 (14 : Nat))) .standard .standard none).map fun _ => ()) =
        .error (.timeoutOverflow (.finite false 6103515625000000 (14 : Nat))) := by
    decide +kernel
  exact ⟨_, hparse, hseconds, ⟨_, htimeout⟩, ({ world := { tree := timedTree, today := default } } : TargetSession), _,
    rfl, eq_error_of_map hcreate⟩

end Wheelwright
