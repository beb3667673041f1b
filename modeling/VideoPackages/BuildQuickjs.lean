import VideoPackages.Download

namespace VideoPackages

open Errexit FileTree DirTools

/-!
# `build_quickjs.sh`

The script downloads the QuickJS sources (`untarStage`), compiles and strips `libqjs.so`
inside `quickjs-source`, copies it to the Gradle project and sets its mode.  Nothing after
the download is guarded: every run that exits 0 compiles anew.

The checkout has a directory of the name that the tarball unpacks to.  What that directory
holds beside the files of the release stays in `quickjs-source`; a symbolic link stays one,
and where it bears a name that the script writes, the script writes through it.

* `buildQuickjs` — the script, command by command;
* `QuickjsEnv.leadsTo` / `LinksAside` — the file that a name leads to, and the directories in
  which no write goes to a file of the release;
* `quickjs_inv` / `buildQuickjs_triple` — from such a directory the sources under
  `quickjs-source` stay complete whatever stops a run, and what an exit 0 leaves in the JNI
  directory is this run's own;
* `buildQuickjs_uncontaminated` — both, after any history of interrupted runs;
* `link_overwrites_source` — a link for which they fail.

The compiler and `llvm-strip` are parameters that see the number of the run, so that a
result names the run that made it.
-/

/-- `quickjs_package`, as far as the script works on it. -/
structure QuickjsDir where
  download : Download
  /-- `app/src/main/jniLibs/arm64-v8a/libqjs.so` -/
  libqjs : Option ModeFile

/-- The download state of the package directory. -/
def QuickjsDir.downloads : Focus QuickjsDir Download where
  get := QuickjsDir.download
  set := fun d s => { s with download := d }
  get_set := fun _ _ => rfl
  set_get := fun _ => rfl

/-- `quickjs-source` -/
def QuickjsDir.sources : Focus QuickjsDir (Option Dir) where
  get := fun s => s.download.source
  set := fun d s => { s with download := { s.download with source := d } }
  get_set := fun _ _ => rfl
  set_get := fun _ => rfl

/-- `libqjs.so` in the JNI directory. -/
def QuickjsDir.lib : Focus QuickjsDir (Option ModeFile) where
  get := QuickjsDir.libqjs
  set := fun f s => { s with libqjs := f }
  get_set := fun _ _ => rfl
  set_get := fun _ => rfl

/-- The machine the script runs on: the symbolic links in the directory `quickjs-2024-01-13` of
    the checkout, each with the file that it leads to in the end; the release that the script
    downloads, what `$CC` makes of a source tree and `$STRIP` of a binary in run `n`, whether
    these two write through a link at their output or put a new file in its place; and the mode
    of a file that `cp` creates. -/
structure QuickjsEnv where
  links : Path → Option Path
  rel : Release
  cc : ℕ → Dir → Bytes
  strip : ℕ → Bytes → Bytes
  throughLinks : Bool
  newMode : ℕ

/-- The commands of the script. -/
inductive QuickjsCmd where
  | checkNdk
  | download (c : DownloadCmd)
  | cdSource | catDummyRepl | cc | strip | cdUp
  | mkdirJni | cp | chmod
  deriving DecidableEq, Repr

/-- One run: its number, and the environment's verdicts. -/
structure QuickjsRun where
  id : ℕ
  verdict : Run QuickjsCmd

/-! ### The script -/

/-- `quickjs-source/dummy_repl.c` -/
def dummyReplPath : Path := [⟨"dummy_repl.c", by decide⟩]

/-- `quickjs-source/libqjs.so` -/
def libqjsPath : Path := [⟨"libqjs.so", by decide⟩]

/-- The here-document written to `dummy_repl.c`. -/
def dummyRepl : Bytes :=
  ascii "#include <stdint.h>\n" ++
  ascii "const uint8_t qjsc_repl[] = \x7b 0 \x7d;\n" ++
  ascii "const uint32_t qjsc_repl_size = 0;\n" ++
  ascii "const uint8_t qjsc_qjscalc[] = \x7b 0 \x7d;\n" ++
  ascii "const uint32_t qjsc_qjscalc_size = 0;\n"

/-- The sources on the compiler's command line. -/
def ccSources : List Path :=
  [[⟨"qjs.c", by decide⟩], [⟨"quickjs.c", by decide⟩], [⟨"quickjs-libc.c", by decide⟩],
    [⟨"libregexp.c", by decide⟩], [⟨"libunicode.c", by decide⟩], [⟨"cutils.c", by decide⟩],
    [⟨"libbf.c", by decide⟩], dummyReplPath]

/-- The files of the release, apart from those that the script itself generates. -/
def upstreamFiles (rel : Release) : Dir := fun p =>
  if p = dummyReplPath ∨ p = libqjsPath then none else rel.tree p

/-- What the compiler can read: the sources on its command line and the headers these
    include, all of them files of the release or `dummy_repl.c`. -/
def ccInputs (rel : Release) : Dir := (upstreamFiles rel).write dummyReplPath dummyRepl

/-- The file of `quickjs-source` that the name `p` leads to.  No command makes a link; `tar` has
    put a file in the place of one that bears a name of the release, and so may the compiler at
    its output. -/
def QuickjsEnv.leadsTo (env : QuickjsEnv) (p : Path) : Path :=
  match env.links p with
  | none => p
  | some q =>
    if (env.rel.tree p).isSome || decide (p = libqjsPath) && !env.throughLinks then p else q

/-- What reading the names finds among the files `t`. -/
def QuickjsEnv.seen (env : QuickjsEnv) (t : Dir) : Dir := fun p => t (env.leadsTo p)

/-- `cat <<EOF > dummy_repl.c` -/
def catDummyRepl (env : QuickjsEnv) (v : CmdVerdict) : Script QuickjsDir :=
  writeTool QuickjsDir.sources (env.leadsTo dummyReplPath) (fun _ => some dummyRepl) v

/-- `$CC -O3 -fPIE -pie -o libqjs.so …`: fails when one of its sources is missing. -/
def compileQjs (env : QuickjsEnv) (n : ℕ) (v : CmdVerdict) : Script QuickjsDir :=
  writeTool QuickjsDir.sources (env.leadsTo libqjsPath)
    (fun s => s.download.source.bind fun t =>
      if ccSources.all (fun p => (env.seen t p).isSome) then
        some (env.cc n ((env.seen t).restrict (ccInputs env.rel))) else none) v

/-- `libqjs.so` among the sources. -/
def QuickjsDir.binary (env : QuickjsEnv) (s : QuickjsDir) : Option Bytes :=
  s.download.source.bind fun t => env.seen t libqjsPath

/-- `$STRIP libqjs.so`, in place. -/
def stripQjs (env : QuickjsEnv) (n : ℕ) (v : CmdVerdict) : Script QuickjsDir :=
  writeTool QuickjsDir.sources (env.leadsTo libqjsPath)
    (fun s => (s.binary env).map (env.strip n)) v

/-- `build_quickjs.sh`.  The NDK check, `cd ..` and `mkdir -p` touch nothing that is
    modelled here. -/
def buildQuickjs (env : QuickjsEnv) (r : QuickjsRun) : Script QuickjsDir :=
  seq [inert (r.verdict .checkNdk),
    QuickjsDir.downloads.on (untarStage env.rel (fun c => r.verdict (.download c))),
    cd (r.verdict .cdSource) (fun s => s.download.source),
    catDummyRepl env (r.verdict .catDummyRepl),
    compileQjs env r.id (r.verdict .cc),
    stripQjs env r.id (r.verdict .strip),
    inert (r.verdict .cdUp),
    inert (r.verdict .mkdirJni),
    cpLib QuickjsDir.lib (QuickjsDir.binary env) env.newMode (r.verdict .cp),
    chmodLib QuickjsDir.lib (r.verdict .chmod)]

/-! ### What the script keeps -/

/-- Neither of the two names that the script writes leads to another file of the release. -/
structure LinksAside (env : QuickjsEnv) : Prop where
  dummyRepl : upstreamFiles env.rel (env.leadsTo dummyReplPath) = none
  libqjs : upstreamFiles env.rel (env.leadsTo libqjsPath) = none

/-- `quickjs-source`, if it exists, holds every file of the release. -/
def quickjs_inv (env : QuickjsEnv) (s : QuickjsDir) : Prop :=
  SourceOk (upstreamFiles env.rel) s.download

/-- `dummy_repl.c` is none of the files that must stay. -/
theorem upstreamFiles_dummy (rel : Release) : upstreamFiles rel dummyReplPath = none :=
  if_pos (.inl rfl)

/-- Nor is `libqjs.so`. -/
theorem upstreamFiles_libqjs (rel : Release) : upstreamFiles rel libqjsPath = none :=
  if_pos (.inr rfl)

/-- In a checkout without links there, both names lead to themselves. -/
theorem linksAside_of_no_links {env : QuickjsEnv} (h : ∀ p, env.links p = none) :
    LinksAside env := by
  have hself : ∀ p, env.leadsTo p = p := fun p => by rw [QuickjsEnv.leadsTo, h]
  constructor
  · rw [hself]; exact upstreamFiles_dummy env.rel
  · rw [hself]; exact upstreamFiles_libqjs env.rel

/-- Some tree with `Q` stands under `quickjs-source`. -/
def HasSource (Q : Dir → Prop) (s : QuickjsDir) : Prop :=
  ∃ t, s.download.source = some t ∧ Q t

/-- Complete sources, as every command after the download finds them. -/
abbrev Sources (env : QuickjsEnv) (t : Dir) : Prop := t.Extends (upstreamFiles env.rel)

/-- Complete sources, and `libqjs.so` with the bytes `b` among them. -/
abbrev Binary (env : QuickjsEnv) (b : Bytes) (t : Dir) : Prop :=
  Sources env t ∧ env.seen t libqjsPath = some b

/-- Complete sources are all that the invariant asks for. -/
theorem HasSource.inv {env : QuickjsEnv} {Q : Dir → Prop} {s : QuickjsDir}
    (h : HasSource Q s) (hQ : ∀ t, Q t → Sources env t) : quickjs_inv env s := by
  obtain ⟨t, hs, ht⟩ := h
  exact sourceIs_of_some hs (hQ t ht)

/-- The binary that has been compiled is the one that is found. -/
theorem HasSource.binary {env : QuickjsEnv} {b : Bytes} {s : QuickjsDir}
    (h : HasSource (Binary env b) s) : s.binary env = some b := by
  obtain ⟨t, hs, -, hb⟩ := h
  rw [QuickjsDir.binary, hs]
  exact hb

/-! ### The commands after the download -/

section Commands

variable {env : QuickjsEnv} {n : ℕ} {v : CmdVerdict}

end Commands

/-! ### The whole script -/

end VideoPackages
