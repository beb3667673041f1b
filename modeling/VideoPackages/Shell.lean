import VideoPackages.Lib.DirTools
import Mathlib.Data.UInt

namespace VideoPackages

open Errexit FileTree DirTools

/-!
# The build scripts' view of the machine

The three `build_*.sh` scripts work on directories and on a few single files.  A directory
is a tree of files below `Path`s, a path is a list of `Component`s, and the bytes of a file
are bytes.
-/

/-- A file name as the file system admits it: not empty, and without `/`. -/
structure Component where
  name : String
  proper : name ≠ "" ∧ '/' ∉ name.toList
  deriving DecidableEq

/-- A relative path, outermost directory first. -/
abbrev Path := List Component

/-- The contents of a file. -/
abbrev Bytes := List UInt8

/-- The files below a directory. -/
abbrev Dir := Tree Path UInt8

/-- The files that `dir/*` reaches: those whose outermost name does not start with a dot. -/
def visible (t : Dir) : Dir := fun p =>
  match p with
  | [] => none
  | c :: _ => if c.name.toList.head? = some '.' then none else t p

/-- What `*` matches is there. -/
theorem visible_some {t : Dir} {p : Path} {b : Bytes} (h : visible t p = some b) :
    t p = some b := by
  unfold visible at h
  split at h
  · cases h
  · split at h
    · cases h
    · exact h

/-- Verdicts of the commands of the build scripts. -/
abbrev CmdVerdict := Verdict (Progress Path)

/-- One run of a script with commands `C`. -/
abbrev Run (C : Type) := Schedule C (Progress Path)

/-- A file with its permission bits. -/
structure ModeFile where
  bytes : Bytes
  mode : ℕ
  deriving DecidableEq

/-- A verdict that lets a command finish, and one that kills it before it has begun. -/
def unharmed : CmdVerdict := ⟨.exits, ⟨false, 0, fun _ => none⟩⟩
def killedIdle : CmdVerdict := ⟨.killed, ⟨false, 0, fun _ => none⟩⟩

/-- `README`, a file of every sample package. -/
def readme : Path := [⟨"README", by decide⟩]

/-- A directory of one file. -/
def oneFile (p : Path) (b : Bytes) : Dir := Tree.empty.write p b

/-! ### The commands that place a library -/

section Library

variable {σ : Type} (lib : Focus σ (Option ModeFile))

/-- A command that writes the library: `new` is what it leaves (`none` where it fails for want
    of something that it reads), `part n` what is there when it is stopped after `n` bytes. -/
def libTool (new : σ → Option ModeFile) (part : ℕ → σ → Option ModeFile) (v : CmdVerdict) :
    Script σ :=
  tool v (fun s => (new s).map fun f => lib.set (some f) s)
    (fun k s => if k.begun then lib.set (part k.bytes s) s else s)

/-- The mode of the library after `cp`: a file that is there keeps its mode. -/
def keptMode (newMode : ℕ) (s : σ) : ℕ := ((lib.get s).map ModeFile.mode).getD newMode

/-- `cp src lib` -/
def cpLib (src : σ → Option Bytes) (newMode : ℕ) : CmdVerdict → Script σ :=
  libTool lib (fun s => (src s).map fun b => ⟨b, keptMode lib newMode s⟩)
    (fun n s => some ⟨((src s).getD []).take n, keptMode lib newMode s⟩)

/-- `$STRIP lib`, in place. -/
def stripLib (strip : Bytes → Bytes) : CmdVerdict → Script σ :=
  libTool lib (fun s => (lib.get s).map fun f => { f with bytes := strip f.bytes })
    (fun n s => (lib.get s).map fun f => { f with bytes := (strip f.bytes).take n })

/-- `chmod 755 lib` -/
def chmodLib : CmdVerdict → Script σ :=
  libTool lib (fun s => (lib.get s).map fun f => { f with mode := 0o755 })
    (fun _ s => (lib.get s).map fun f => { f with mode := 0o755 })

variable {lib} {v : CmdVerdict} {F G : σ → Prop} (hF : ∀ d s, F s → F (lib.set d s))
include hF

/-- The commands keep what holds of the rest of the state. -/
theorem libTool_triple {new : σ → Option ModeFile} {part : ℕ → σ → Option ModeFile}
    {H : ModeFile → Prop} (hnew : ∀ s f, G s → new s = some f → H f) :
    Triple (fun s => F s ∧ G s) (libTool lib new part v)
      (fun s => F s ∧ ∃ f, lib.get s = some f ∧ H f) F := by
  refine Triple.tool (fun s s' hs he => ?_) (fun s hs _ => ?_)
  · obtain ⟨f, hf, rfl⟩ := Option.map_eq_some_iff.mp he
    exact ⟨hF _ s hs.1, f, lib.get_set _ _, hnew s f hs.2 hf⟩
  · show F (ite _ _ _)
    split
    · exact hF _ s hs.1
    · exact hs.1

/-- A command on the library leaves the rest alone. -/
theorem libTool_keeps {new : σ → Option ModeFile} {part : ℕ → σ → Option ModeFile} :
    Triple F (libTool lib new part v) F F :=
  (libTool_triple (G := fun _ => True) (H := fun _ => True) hF (fun _ _ _ _ => trivial)).consequence
    (fun _ hs => ⟨hs, trivial⟩) (fun _ hs => hs.1) (fun _ hs => hs)

/-- `cp` that exits 0 leaves the bytes of its source, in some mode. -/
theorem cpLib_triple {src : σ → Option Bytes} {newMode : ℕ} {b : Bytes} :
    Triple (fun s => F s ∧ src s = some b) (cpLib lib src newMode v)
      (fun s => F s ∧ ∃ f, lib.get s = some f ∧ f.bytes = b) F := by
  refine libTool_triple hF ?_
  intro s f hs hf
  rw [hs] at hf
  cases hf; rfl

/-- `$STRIP` that exits 0 leaves the stripped bytes. -/
theorem stripLib_triple {strip : Bytes → Bytes} {b : Bytes} :
    Triple (fun s => F s ∧ ∃ f, lib.get s = some f ∧ f.bytes = b) (stripLib lib strip v)
      (fun s => F s ∧ ∃ f, lib.get s = some f ∧ f.bytes = strip b) F := by
  refine libTool_triple hF ?_
  rintro s f ⟨f₀, hs, rfl⟩ hf
  rw [hs] at hf
  cases hf; rfl

/-- `chmod` sets the mode and leaves the bytes. -/
theorem chmodLib_triple {b : Bytes} :
    Triple (fun s => F s ∧ ∃ f, lib.get s = some f ∧ f.bytes = b) (chmodLib lib v)
      (fun s => F s ∧ lib.get s = some ⟨b, 0o755⟩) F := by
  refine (libTool_triple (H := (· = ⟨b, 0o755⟩)) hF ?_).weaken ?_ (fun _ hs => hs)
  · rintro s f ⟨f₀, hs, rfl⟩ hf
    rw [hs] at hf
    cases hf; rfl
  · rintro s ⟨hs, f, hf, rfl⟩
    exact ⟨hs, hf⟩

end Library

end VideoPackages
