/-
  User rules — the ignore file that a user keeps for all directories.

  **Program** — the settings of git say where the file is.  Two files of settings are asked, `.gitconfig` in the home of
  the user and `git/config` in the directory of their settings, and the first that names an ignore file decides; if
  neither does, it is `git/ignore` beside the latter.  Its rules are about paths below the working directory.

  **Settings** — they are not parsed: the first line `excludesfile = <path>` counts, in whatever section it stands and
  whatever case it is spelled in.  There may be white space around each part, line feeds too, and quotation marks around
  the path.  The marks need not match: each is passed over by itself, and what is left between them is the path.
-/
import Wheelwright.FileTree.Operations
import Wheelwright.IgnoreFile

namespace Wheelwright

/-! ## A line of settings

  A line that names the ignore file is looked for in octets, as a pattern would be matched: the shortest value behind
  which the line can end. -/

namespace GitSettings

/-- White space of ASCII: settings are read as octets, so that of other scripts is part of a path. -/
def isSpace (b : UInt8) : Bool := b = 32 || (9 ≤ b && b ≤ 13)

/-- A capital letter of ASCII made small. -/
def small (b : UInt8) : UInt8 := if 65 ≤ b && b ≤ 90 then b + 32 else b

/-- What stands behind a word in whatever case; the word itself is given in small letters. -/
def behind? : Bytes → Bytes → Option Bytes
  | [], rest => some rest
  | w :: word, b :: rest => if small b = w then behind? word rest else none
  | _ :: _, [] => none

/-- Only white space is left on the line, or of the file.  A line feed is white space as well as an end, so nothing
    after it is looked at. -/
def ends : Bytes → Bool
  | [] => true
  | b :: rest => b = 10 || (isSpace b && ends rest)

/-- Only white space is left, and at most one quotation mark. -/
def closes : Bytes → Bool
  | [] => true
  | b :: rest => b = 10 || (if b = 34 then ends rest else isSpace b && closes rest)

/-- The shortest run without white space, of one octet at least, behind which the line closes. -/
def value? : Bytes → Option Bytes
  | [] => none
  | b :: rest =>
    if isSpace b then none
    else if closes rest then some [b]
    else (value? rest).map (b :: ·)

/-- The path that a setting at the front names.  A quotation mark in front is part of the path only if there is no
    path without it. -/
def settingAt? (bytes : Bytes) : Option Bytes := do
  let rest ← behind? (Utf8.encode "excludesfile") (bytes.dropWhile isSpace)
  let rest ← behind? (Utf8.encode "=") (rest.dropWhile isSpace)
  match rest.dropWhile isSpace with
  | 34 :: quoted => (value? (quoted.dropWhile isSpace)).or (value? (34 :: quoted))
  | plain => value? plain

/-- The first setting at the start of a line, behind the current one. -/
def laterSetting? : Bytes → Option Bytes
  | [] => none
  | b :: rest => if b = 10 then (settingAt? rest).or (laterSetting? rest) else laterSetting? rest

/-- The path that the settings name, as octets. -/
def excludesFile? (bytes : Bytes) : Option Bytes := (settingAt? bytes).or (laterSetting? bytes)

example : excludesFile? (Utf8.encode "[core]\n\tExcludesFile = \"~/ignore\"\n") = some (Utf8.encode "~/ignore") := by
  decide +kernel

end GitSettings

/-! ## The places of a user -/

namespace UserPlaces

/-- The directory of the user's settings: `.config` in their home unless another one is set. -/
def settings? (u : UserPlaces) : Option Path := u.configHome.or (u.home.map (·.join ⟨".config"⟩))

/-- The files of settings that may name an ignore file, the first asked first. -/
def settingFiles (u : UserPlaces) : List Path :=
  (u.home.map (·.join ⟨".gitconfig"⟩)).toList ++ (u.settings?.map (·.join ⟨"git/config"⟩)).toList

/-- A path of the settings: every tilde in it stands for the home, not only one in front. -/
def expand (u : UserPlaces) (text : String) : Path :=
  match u.home with
  | none => ⟨text⟩
  | some home => ⟨String.ofList (text.toList.flatMap fun c => if c = '~' then home.text.toList else [c])⟩

end UserPlaces

/-! ## The ignore file

  The first file of settings that names an ignore file decides, even if the file it names is not there. -/

namespace UserRules

/-- The ignore file that a file of settings names; none if that file cannot be read or the name is no text. -/
def namedBy? (t : FileTree) (file : Path) : Option Path := do
  let setting ← GitSettings.excludesFile? (← (t.read file).toOption)
  (Utf8.decode? setting).map t.user.expand

/-- Where the user's ignore file is. -/
def file? (t : FileTree) : Option Path :=
  (t.user.settingFiles.findSome? (namedBy? t)).or (t.user.settings?.map (·.join ⟨"git/ignore"⟩))

/-- The rules of the user's ignore file, or none. -/
def ofTree (t : FileTree) : IgnoreFile :=
  match (file? t).bind fun file => (t.read file).toOption with
  | some content => .ofContent ("/" ++ "/".intercalate t.home) content
  | none => ⟨"", []⟩

end UserRules

end Wheelwright
