/-
  Installing — the command that a project is installed by.

  **Specification** — the interpreter of the project's environment, nine arguments for pip, and as the last two the build
  directory and the project's name (`installArgs`).

  **Program** — the path of the interpreter and the project's name are put into a template, and the template is rendered.
  So both are read for placeholders, by every pass, and so is the build directory by those that come after its own.

  **The crux** — a text in which no placeholder stands is what it becomes (`Plain`).  All fixed words are plain; so the
  three texts of the project are what the command depends on, each by itself.
-/
import Wheelwright.Proofs.Command.Rendering
import Wheelwright.Proofs.Path.Children
import Wheelwright.Proofs.Target.Cleaning

namespace Wheelwright

/-! ## Plain texts

  A text without placeholders passes through all replacements unchanged.  It is enough that it has no brace. -/

/-- No placeholder stands in the text. -/
def Plain (s : String) : Prop := ∀ p ∈ Placeholder.inOrder, p.countIn s = 0

/-- Whether a text is plain can be decided. -/
instance (s : String) : Decidable (Plain s) := inferInstanceAs (Decidable (∀ p ∈ Placeholder.inOrder, _))

namespace Placeholder

variable {p : Placeholder} {s : String}

/-- A text without the placeholder stays as it is. -/
theorem replaceAll_eq_self (h : p.countIn s = 0) (value : String) : replaceAll p.text value s = s := by
  rw [replaceAll, replaceFrom_eq_self h, String.ofList_toList]

/-- A placeholder by itself becomes its value. -/
theorem replaceAll_text (p : Placeholder) (value : String) : replaceAll p.text value p.text = value := by
  have hself := p.replaceFrom_self value.toList [] []
  rw [List.append_nil, List.nil_append] at hself
  rw [replaceAll, hself]
  simp [replaceFrom]

end Placeholder

/-- A text without a brace is plain. -/
theorem plain_of_notMem {s : String} (h : '\x7b' ∉ s.toList) : Plain s := fun p _ => by
  have hnone := @occurrences_append_of_notMem _ p.name _ h []
  rwa [List.append_nil, occurrences_nil, ← p.toList_text] at hnone

namespace CommandTemplate

variable {v : TemplateVars} {s : String}

/-- Passes for placeholders that do not occur change nothing. -/
theorem passes_eq_self {ps : List Placeholder} (h : ∀ p ∈ ps, p.countIn s = 0) : passes v ps s = s := by
  induction ps with
  | nil => rfl
  | cons p ps ih =>
    rw [passes, List.foldl_cons, Placeholder.replaceAll_eq_self (h p List.mem_cons_self)]
    exact ih fun q hq => h q (List.mem_cons_of_mem p hq)

/-- A plain text is filled in as it is. -/
theorem fill_of_plain (h : Plain s) : fill v s = s := passes_eq_self h

/-- So it is a part of the command as it is. -/
theorem renderPart_of_plain (h : Plain s) : renderPart v s = some s := by
  have hpart : s ≠ Placeholder.backendArg.text := by
    rintro rfl
    revert h
    decide
  rw [renderPart, if_neg hpart, fill_of_plain h]

end CommandTemplate

/-! ## The command

  The template is rendered part by part.  Its words are plain, so what is left are the paths and the name, and the
  command is the one that is meant exactly if these are plain, too. -/

namespace TargetStages

open CommandTemplate (fill renderPart passes)

variable {c : TargetConfig} {p : Project} {b : Backend} {s : TargetServices}

/-- The interpreter of the project's environment. -/
def interpreter (c : TargetConfig) (root : Path) : String :=
  (((environment c root).child programDir).child "python").text

/-- What pip is to do. -/
def installWords : List String :=
  ["-m", "pip", "install", "--no-deps", "--force-reinstall", "--no-index", "--find-links"]

/-- The arguments that install a package from a directory. -/
def installArgs (dir package : String) : List String := installWords ++ [dir, package]

/-- The words of the command are plain. -/
theorem render_words (v : TemplateVars) : installWords.filterMap (renderPart v) = installWords := by
  have hplain : ∀ w ∈ installWords, Plain w := by decide
  rw [List.filterMap_congr fun w hw => CommandTemplate.renderPart_of_plain (hplain w hw), List.filterMap_some]

/-- The build directory is looked at by the placeholders that come later. -/
theorem fill_targetDir (v : TemplateVars) :
    fill v Placeholder.targetDir.text = passes v [.venv, .python, .backendArg] v.targetDir.text := by
  have hroot : Placeholder.projectRoot.countIn Placeholder.targetDir.text = 0 := by decide
  rw [fill, Placeholder.inOrder, List.foldl_cons, Placeholder.replaceAll_eq_self hroot, List.foldl_cons,
    Placeholder.replaceAll_text]
  rfl

/-- A program in a directory is no placeholder. -/
theorem child_ne_backendArg (dir : Path) : (dir.child "python").text ≠ Placeholder.backendArg.text := by
  have hlast (front : String) : front ++ "python" ≠ Placeholder.backendArg.text := fun heq => by
    have hchar := congrArg (·.toList.getLast?) heq
    rw [String.toList_append, List.getLast?_append_of_ne_nil _ (by decide)] at hchar
    exact absurd hchar (by decide)
  rw [Path.child, Path.join, Path.isAbsolute_name (by decide), if_neg Bool.false_ne_true]
  split
  · exact hlast _
  · exact hlast _

/-- What the template of the command becomes. -/
theorem render_install (v : TemplateVars) (package : String) (bin : Path) :
    (installTemplate package bin).render v = fill v (bin.child "python").text ::
      (installWords ++ passes v [.venv, .python, .backendArg] v.targetDir.text :: (renderPart v package).toList) := by
  have hprogram : renderPart v (bin.child "python").text = some (fill v (bin.child "python").text) :=
    if_neg (child_ne_backendArg bin)
  have hdir : renderPart v Placeholder.targetDir.text = some (fill v Placeholder.targetDir.text) :=
    if_neg (by decide)
  show ((bin.child "python").text :: (installWords ++ [Placeholder.targetDir.text, package])).filterMap (renderPart v) = _
  rw [List.filterMap_cons_some hprogram, List.filterMap_append, render_words, List.filterMap_cons_some hdir,
    fill_targetDir, CommandTemplate.filterMap_renderPart_cons, List.filterMap_nil, List.append_nil]

/-- What is not empty can be rendered. -/
theorem render_eq_ok {t : CommandTemplate} {v : TemplateVars} {root : Path} {program : String} {args : List String}
    (h : t.render v = program :: args) (stage : String) : render t v root b stage = .ok { program, args, cwd := root } := by
  rw [render, CommandTemplate.toCommand?, h]
  rfl

/-- The command of the stage that installs. -/
def installed (stages : List (StageSpec × BackendStage)) : Option Command :=
  (stages.find? fun x => x.1.name = installName).map (·.2.command)

/-- The command of the install stage is made from its template, and waits as long as the configuration says. -/
theorem installed_of_declare {stages : List (StageSpec × BackendStage)} (h : declare c p b s = .ok stages) :
    ∃ d, timeout c = .ok d ∧ installed stages = some {
      program := fill (vars c p.root (b.builddir p.root)) (interpreter c p.root)
      args := installWords ++
        passes (vars c p.root (b.builddir p.root)) [.venv, .python, .backendArg] (b.builddir p.root).text ::
          (renderPart (vars c p.root (b.builddir p.root)) (packageOf p)).toList
      cwd := p.root
      timeout := d } := by
  obtain ⟨prepare, build, install, d, -, -, hinstall, hd, rfl⟩ := exists_of_declare h
  rw [render_eq_ok (render_install _ _ _)] at hinstall
  obtain rfl := Except.ok.inj hinstall
  refine ⟨d, hd, ?_⟩
  rw [installed, List.find?_cons_of_neg (by simp [prepareName, installName]),
    List.find?_cons_of_neg (by simp [buildName, installName]), List.find?_cons_of_pos (by simp),
    Option.map_some, stage, Option.or_none]
  rfl

/-- Only the backend's command and the time limit can be refused. -/
theorem declare_isOk_iff : (∃ stages, declare c p b s = .ok stages) ↔
    (∃ build, buildCommand c b p.root = .ok build) ∧ ∃ d, timeout c = .ok d := by
  constructor
  · rintro ⟨stages, h⟩
    obtain ⟨prepare, build, install, d, -, hbuild, -, hd, -⟩ := exists_of_declare h
    exact ⟨⟨build, hbuild⟩, d, hd⟩
  · rintro ⟨⟨build, hbuild⟩, d, hd⟩
    have hprepare : ∃ program args, prepareTemplate.render (vars c p.root (b.builddir p.root)) = program :: args :=
      ⟨_, _, rfl⟩
    obtain ⟨program, args, hprepare⟩ := hprepare
    rw [declare, render_eq_ok hprepare, hbuild, render_eq_ok (render_install _ _ _), hd]
    exact ⟨_, rfl⟩

/-- The command that installs a project, as it is meant. -/
def installCommand (c : TargetConfig) (p : Project) (b : Backend) (d : Option Span) : Command where
  program := interpreter c p.root
  args := installArgs (b.builddir p.root).text (packageOf p)
  cwd := p.root
  timeout := d

/-- A part is dropped only if it is nothing but the backend's argument. -/
theorem length_renderPart (v : TemplateVars) (part : String) :
    (renderPart v part).toList.length = if part = Placeholder.backendArg.text ∧ v.backendArg = none then 0 else 1 := by
  rw [renderPart]
  split
  · cases v.backendArg <;> simp [*]
  · simp [*]

/-- **What a project is installed by**: the environment's interpreter, with the words for pip, the build directory and the
    project's name or place.  The interpreter and the name are filled like parts of a template, and so is the directory by
    the placeholders that come later; each stays as it is if none stands in it.  The name is dropped if it is the
    placeholder of an argument that is not set. -/
theorem installs_package {file : Path} {text : String} (hp : Project.parse file text = .ok p) :
    (p.path = file ∧ ∃ t, Toml.parse? text = some t ∧ packageOf p = (Project.nameIn t).getD p.root.text) ∧
    ((∃ stages, declare c p b s = .ok stages) ↔
      (∃ build, buildCommand c b p.root = .ok build) ∧ ∃ d, timeout c = .ok d) ∧
    ∀ stages, declare c p b s = .ok stages →
      let v := vars c p.root (b.builddir p.root)
      let dir := (b.builddir p.root).text
      ∃ command d, installed stages = some command ∧ timeout c = .ok d ∧
        command = {
          program := fill v (interpreter c p.root)
          args := installWords ++ passes v [.venv, .python, .backendArg] dir :: (renderPart v (packageOf p)).toList
          cwd := p.root
          timeout := d } ∧
        (command.args.length = 9 ↔ ¬ (packageOf p = Placeholder.backendArg.text ∧ c.buildType.backendArg = none)) ∧
        (Plain (interpreter c p.root) → command.program = interpreter c p.root) ∧
        ((∀ q ∈ [Placeholder.venv, .python, .backendArg], q.countIn dir = 0) → Plain (packageOf p) →
          command.args = installArgs dir (packageOf p)) ∧
        ((∀ x ∈ [interpreter c p.root, dir, packageOf p], '\x7b' ∉ x.toList) → command = installCommand c p b d) := by
  obtain ⟨hpath, t, ht, hname⟩ := Project.described_of_parse hp
  refine ⟨⟨hpath, t, ht, by rw [packageOf, hname]⟩, declare_isOk_iff, ?_⟩
  intro stages h v dir
  obtain ⟨d, hd, hinstalled⟩ := installed_of_declare h
  have hprogram (hplain : Plain (interpreter c p.root)) : fill v (interpreter c p.root) = interpreter c p.root :=
    CommandTemplate.fill_of_plain hplain
  have hargs (hdir : ∀ q ∈ [Placeholder.venv, .python, .backendArg], q.countIn dir = 0) (hpackage : Plain (packageOf p)) :
      installWords ++ passes v [.venv, .python, .backendArg] dir :: (renderPart v (packageOf p)).toList =
        installArgs dir (packageOf p) := by
    rw [CommandTemplate.passes_eq_self hdir, CommandTemplate.renderPart_of_plain hpackage]
    rfl
  -- the words are seven, the directory is one more, and the package another unless it is dropped
  refine ⟨_, d, hinstalled, hd, rfl, ?_, hprogram, hargs, ?_⟩
  · rw [List.length_append, List.length_cons, length_renderPart]
    show 7 + ((if packageOf p = _ ∧ c.buildType.backendArg = none then 0 else 1) + 1) = 9 ↔ _
    split
    · simp [*]
    · simp [*]
  · intro hbrace
    have hplain (x : String) (hx : x ∈ [interpreter c p.root, dir, packageOf p]) : Plain x :=
      plain_of_notMem (hbrace x hx)
    have hdir := hplain dir (by simp)
    rw [hprogram (hplain _ (by simp)), hargs (fun q _ => hdir q q.mem_inOrder) (hplain _ (by simp))]
    rfl

/-- The project file of a project with a name. -/
def namedText (name : String) : String :=
  "[build-system]\nbuild-backend = \"setuptools.build_meta\"\n\n[project]\nname = \"" ++ name ++ "\"\n"

/-- The project that such a file at `/srv` describes. -/
def named (name : String) : Project where
  path := ⟨"/srv/pyproject.toml"⟩
  buildBackend := "setuptools.build_meta"
  requires := []
  backendPath := []
  name := some name
  version := none

/-- The command that a project is installed by, with an environment in `venv`. -/
def installedWith (venv name : String) : Option Command :=
  (declare { projectFile := ⟨"/srv/pyproject.toml"⟩, venvDir := ⟨venv⟩ } (named name) .pypaBuild
    ⟨.standard, .standard, 0⟩).toOption.bind installed

/-- A project that is installed by its name. -/
theorem installs_package_demo : Project.parse ⟨"/srv/pyproject.toml"⟩ (namedText "demo") = .ok (named "demo") ∧
    installedWith ".venv" "demo" = some {
      program := "/srv/.venv/bin/python"
      args := ["-m", "pip", "install", "--no-deps", "--force-reinstall", "--no-index", "--find-links", "/srv/dist", "demo"]
      cwd := ⟨"/srv"⟩ } := by
  have hparse : Project.parse ⟨"/srv/pyproject.toml"⟩ (namedText "demo") = .ok (named "demo") := rfl
  obtain ⟨-, hplanned, hinstall⟩ := installs_package (c := { projectFile := ⟨"/srv/pyproject.toml"⟩, venvDir := ⟨".venv"⟩ })
    (b := .pypaBuild) (s := ⟨.standard, .standard, 0⟩) hparse
  obtain ⟨stages, hstages⟩ := hplanned.mpr ⟨⟨_, rfl⟩, none, rfl⟩
  obtain ⟨command, d, hinstalled, hd, -, -, -, -, hexact⟩ := hinstall stages hstages
  obtain rfl : none = d := Except.ok.inj hd
  have hcommand := hexact (by decide +kernel)
  refine ⟨hparse, ?_⟩
  rw [installedWith, hstages, Except.toOption, Option.bind_some, hinstalled, hcommand]
  decide +kernel

/-- **Names and paths are filled too**: a name that is the placeholder of an argument that is not set is dropped, and one
    within a longer name gives way to its value, as does one in the path of the environment. -/
theorem install_fills_names :
    Project.parse ⟨"/srv/pyproject.toml"⟩ (namedText "\x7bbackend_arg\x7d") = .ok (named "\x7bbackend_arg\x7d") ∧
    (installedWith ".venv" "\x7bbackend_arg\x7d").map (·.args) = some ["-m", "pip", "install", "--no-deps",
      "--force-reinstall", "--no-index", "--find-links", "/srv/dist"] ∧
    (installedWith ".venv" "demo-\x7bpython\x7d").map (·.args.getLast?) = some (some "demo-python3") ∧
    interpreter { projectFile := ⟨"/srv/pyproject.toml"⟩, venvDir := ⟨"\x7bpython\x7d"⟩ } ⟨"/srv"⟩ =
      "/srv/\x7bpython\x7d/bin/python" ∧
    (installedWith "\x7bpython\x7d" "demo").map (·.program) = some "/srv/python3/bin/python" := by
  refine ⟨rfl, ?_, ?_, ?_, ?_⟩ <;> decide +kernel

end TargetStages

end Wheelwright
