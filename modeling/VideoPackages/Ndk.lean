import VideoPackages.Lib.PlainWords
import VideoPackages.Lib.Lines

namespace VideoPackages

open Words Lines
open Glob (joined)

/-!
# Looking for the NDK

`build_python.sh` and `build_quickjs.sh` begin with the same lines: `NDK_PATH` is the value of
`ANDROID_NDK_HOME` or `ANDROID_NDK_ROOT` if that is a directory, and otherwise what `grep`,
`cut` and `xargs` make of the first `local.properties` that is a file.
`build_ffmpeg.sh` looks into its own `local.properties` only.

* `NdkCheck.path` / `NdkCheck.resolve` — the lines of the scripts;
* `ndkValue` — what a line of `local.properties` says about the NDK, read as a property;
* `NdkCheck.sources` — the paths that the sources name, in the order of the script;
* `NdkCheck.Right` — the check finds the first of these that is a directory, and nothing else
  in the files makes a difference.
-/

/-- A path, a line or the text of a file. -/
abbrev Text := List Char

/-! ### The tools -/

def isBlank (c : Char) : Bool := decide (c = ' ') || decide (c = '\t')

/-- The white space of C: blanks, ends of lines, and three characters more. -/
def isSpace (c : Char) : Bool :=
  isBlank c || decide (c = '\n') || decide (c = '\x0b') || decide (c = '\x0c') || decide (c = '\r')

/-- How `xargs` reads words: blanks and ends of lines separate them, and in front of a word any
    white space is skipped.  All the words are taken to fit on one command line. -/
def xargs : Quoting Char where
  sep := fun c => isBlank c || decide (c = '\n')
  skip := isSpace
  quote := fun c => decide (c = '\x27') || decide (c = '\x22')
  esc := '\\'
  eol := '\n'
  join := ' '
  sep_eol := rfl
  sep_join := rfl
  join_ne_eol := by decide
  skip_sep := by
    intro c hc
    simp only [isSpace, Bool.or_eq_true] at hc ⊢
    exact .inl (.inl (.inl hc))
  skip_quote := by
    intro c hc
    rcases Bool.or_eq_true_iff.mp hc with h | h <;> cases of_decide_eq_true h <;> rfl

/-- A pattern of `grep -E` whose only special character is `.`. -/
def ere (s : String) : List (Atom Char) :=
  s.toList.map fun c => if c = '.' then .any else .lit c

/-- `ndk.dir|android.ndk` -/
def ndkPattern : List (List (Atom Char)) := [ere "ndk.dir", ere "android.ndk"]

/-! ### The files -/

/-- A text file.  One with a NUL in it is binary for `grep`. -/
structure TextFile where
  chars : Text
  noNul : '\x00' ∉ chars

/-- What stands under the name of a `local.properties`. -/
inductive PropsFile where
  /-- No regular file. -/
  | missing
  /-- A regular file that cannot be read. -/
  | unreadable
  | text (t : TextFile)

/-- `[ -f FILE ]` -/
def PropsFile.isFile : PropsFile → Bool
  | missing => false
  | unreadable | text _ => true

/-- The lines that can be read. -/
def PropsFile.lines : PropsFile → List Text
  | missing | unreadable => []
  | text t => Lines.lines '\n' t.chars

/-- `grep -E 'ndk.dir|android.ndk' FILE` -/
def PropsFile.grepNdk (f : PropsFile) : List Text := f.lines.filter (grepMatch ndkPattern)

/-- `grep … FILE | cut -d'=' -f2` -/
def PropsFile.ndkFields (f : PropsFile) : List Text := f.grepNdk.map (cutField2 '=')

/-- The words that `xargs` reads in these; `none` for an open quote. -/
def PropsFile.ndkWords (f : PropsFile) : Option (List Text) :=
  xargs.words (unlines '\n' f.ndkFields)

/-! ### The scripts -/

/-- The environment and the file system, as the scripts find them, and what `echo` prints when
    the first word begins with `-`: an option for one `echo`, a word for another. -/
structure Machine where
  var : String → Option Text
  file : String → PropsFile
  isDir : Text → Bool
  isDir_nil : isDir [] = false
  echoOptions : List Text → Text

/-- `echo`, the default command of `xargs`, without the end of the line. -/
def Machine.echo (m : Machine) (ws : List Text) : Text :=
  if (joined ' ' ws).head? = some '-' then m.echoOptions ws else joined ' ' ws

/-- `$(grep … FILE | cut -d'=' -f2 | xargs)`.  The exit status of a pipeline is that of
    `xargs`, which fails for an open quote only. -/
def Machine.ndkDir (m : Machine) (f : PropsFile) : Option Text :=
  f.ndkWords.map fun ws => xargs.chomp (m.echo ws)

/-- `"$NAME"`; the scripts do not use `set -u`. -/
def Machine.expand (m : Machine) (name : String) : Text := (m.var name).getD []

/-- The part in which the scripts differ: the property files, and the text of the error. -/
structure NdkCheck where
  props : List String
  notFound : List String
  deriving DecidableEq

/-- What the scripts print when they have found nothing. -/
def ndkNotFound : List String :=
  ["Error: Android NDK not found.",
    "Please set ANDROID_NDK_HOME environment variable, or configure it in local.properties:",
    "  ndk.dir=/path/to/android-ndk"]

/-- The check of `build_python.sh`. -/
def buildPythonNdk : NdkCheck where
  props := ["local.properties", "../ffmpeg_package/local.properties"]
  notFound := ndkNotFound

/-- The check of `build_quickjs.sh`. -/
def buildQuickjsNdk : NdkCheck where
  props := ["local.properties", "../ffmpeg_package/local.properties"]
  notFound := ndkNotFound

/-- The check of `build_ffmpeg.sh`. -/
def buildFfmpegNdk : NdkCheck where
  props := ["local.properties"]
  notFound := ndkNotFound ++ ["Refer to local.properties.example for reference."]

/-- `elif [ -f FILE ]; then NDK_PATH=$(…); …`: the first file decides.  `none` when the
    assignment has failed. -/
def Machine.pathFromProps (m : Machine) : List PropsFile → Option Text
  | [] => some []
  | f :: fs => if f.isFile then m.ndkDir f else m.pathFromProps fs

/-- The value of `NDK_PATH`; `none` when an assignment has failed. -/
def NdkCheck.path (c : NdkCheck) (m : Machine) : Option Text :=
  let home := m.expand "ANDROID_NDK_HOME"
  let root := m.expand "ANDROID_NDK_ROOT"
  if home ≠ [] ∧ m.isDir home = true then some home
  else if root ≠ [] ∧ m.isDir root = true then some root
  else m.pathFromProps (c.props.map m.file)

/-- The lines up to `Found Android NDK at`: `NDK_PATH`, or what the script has printed about
    the error before it exits.  After a failed assignment `set -e` ends it silently. -/
def NdkCheck.resolve (c : NdkCheck) (m : Machine) : Except (List String) Text :=
  match c.path m with
  | none => .error []
  | some p => if p = [] ∨ m.isDir p = false then .error c.notFound else .ok p

/-! ### The files as properties -/

/-- The first character that is not a blank is `#` or `!`. -/
def isComment (l : Text) : Bool :=
  match l.dropWhile isBlank with
  | [] => false
  | c :: _ => decide (c = '#') || decide (c = '!')

/-- The keys under which the NDK is looked for. -/
def ndkKeys : List Text := ["ndk.dir".toList, "android.ndk".toList]

/-- A line `KEY=VALUE` with one of these keys; blanks around the key and in front of the value
    do not count. -/
def ndkValue (l : Text) : Option Text :=
  if isComment l then none
  else if '=' ∈ l ∧ ((l.takeWhile (· ≠ '=')).dropWhile isBlank).rdropWhile isBlank ∈ ndkKeys then
    some (((l.dropWhile (· ≠ '=')).drop 1).dropWhile isBlank)
  else none

/-- The values of the NDK properties of a file. -/
def PropsFile.ndkValues (f : PropsFile) : List Text := f.lines.filterMap ndkValue

/-- The path that a file names. -/
def PropsFile.named (f : PropsFile) : Option Text := f.ndkValues.head?

/-- One NDK property at most, and its value is an absolute path. -/
structure PropsFile.Proper (f : PropsFile) : Prop where
  one : f.ndkValues.length ≤ 1
  absolute : ∀ v ∈ f.ndkValues, v.head? = some '/'

/-- The file without comments and other properties. -/
def TextFile.bare (t : TextFile) : TextFile where
  chars := unlines '\n' ((Lines.lines '\n' t.chars).filter fun l => (ndkValue l).isSome)
  noNul := by
    intro h
    obtain ⟨l, hl, h⟩ := mem_unlines.mp h
    rcases h with h | h
    · exact t.noNul (mem_of_mem_lines (List.mem_of_mem_filter hl) h)
    · cases h

def PropsFile.bare : PropsFile → PropsFile
  | missing => missing
  | unreadable => unreadable
  | text t => text t.bare

def Machine.bare (m : Machine) : Machine := { m with file := fun x => (m.file x).bare }

/-! ### What the check is for -/

/-- The paths named by the sources, in the order of the script. -/
def NdkCheck.sources (c : NdkCheck) (m : Machine) : List Text :=
  [m.expand "ANDROID_NDK_HOME", m.expand "ANDROID_NDK_ROOT"].filter (· ≠ []) ++
    (c.props.map m.file).filterMap PropsFile.named

/-- The check succeeds exactly when a source names a directory, it finds the first one that
    does, and the comments and other properties of the files make no difference. -/
structure NdkCheck.Right (c : NdkCheck) (m : Machine) : Prop where
  passes : (∃ p, c.resolve m = .ok p) ↔ ∃ p ∈ c.sources m, m.isDir p = true
  first : ∀ p, c.resolve m = .ok p → (c.sources m).find? m.isDir = some p
  comments : ∀ p, c.resolve m.bare = .ok p ↔ c.resolve m = .ok p

end VideoPackages
