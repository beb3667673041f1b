import VideoPackages.Download

namespace VideoPackages

open Errexit FileTree DirTools

/-!
# `build_ffmpeg.sh`

The script builds three libraries and then FFmpeg against them.  Each step that takes long
is behind a guard that tests for a directory: a clone or a download for the directory of
its sources, a build for the directory it installs into.

* `ffmpegDeps` / `ffmpegCompile` — the script up to FFmpeg's `configure`, and from there on;
* `FfmpegWindow` — the stops after which a guard is wrong: the directory it tests for is
  there, and the work behind it is not done;
* `Resumable` — what holds between two runs that are not stopped there;
* `buildFfmpeg_guards_sound` — after any history of such runs every guard is right, and a
  run that gets to FFmpeg's `configure` gets there with the dependencies of a first,
  undisturbed run.
-/

/-! ### The package directory -/

/-- What FFmpeg's `configure` and `make` read besides the sources of FFmpeg. -/
structure FfmpegDeps where
  mbedtlsInstall : Option Dir
  x264Install : Option Dir
  lameInstall : Option Dir
  pkgconfig : Option Dir

/-- `ffmpeg_package`, as far as the script works on it. -/
structure FfmpegDir where
  /-- `mbedtls-source` and `mbedtls_install` -/
  mbedtls : Site Path UInt8
  /-- `x264-source` and `x264_install` -/
  x264 : Site Path UInt8
  /-- `lame-3.100` and the tarball -/
  lame : Download
  lameInstall : Option Dir
  ffmpegSource : Option Dir
  pkgconfig : Option Dir
  /-- `app/src/main/jniLibs/arm64-v8a/libffmpeg.so` -/
  libffmpeg : Option ModeFile

namespace FfmpegDir

def mbedtlsSite : Focus FfmpegDir (Site Path UInt8) where
  get := mbedtls
  set := fun t s => { s with mbedtls := t }
  get_set := fun _ _ => rfl
  set_get := fun _ => rfl

def x264Site : Focus FfmpegDir (Site Path UInt8) where
  get := x264
  set := fun t s => { s with x264 := t }
  get_set := fun _ _ => rfl
  set_get := fun _ => rfl

def lameDownload : Focus FfmpegDir Download where
  get := lame
  set := fun t s => { s with lame := t }
  get_set := fun _ _ => rfl
  set_get := fun _ => rfl

/-- `lame-3.100` and `lame_install` -/
def lameSite : Focus FfmpegDir (Site Path UInt8) where
  get := fun s => ⟨s.lame.source, s.lameInstall⟩
  set := fun t s => { s with lame := { s.lame with source := t.source }, lameInstall := t.dest }
  get_set := fun _ _ => rfl
  set_get := fun _ => rfl

def ffmpegDir : Focus FfmpegDir (Option Dir) where
  get := ffmpegSource
  set := fun t s => { s with ffmpegSource := t }
  get_set := fun _ _ => rfl
  set_get := fun _ => rfl

def pkgconfigDir : Focus FfmpegDir (Option Dir) where
  get := pkgconfig
  set := fun t s => { s with pkgconfig := t }
  get_set := fun _ _ => rfl
  set_get := fun _ => rfl

def lib : Focus FfmpegDir (Option ModeFile) where
  get := libffmpeg
  set := fun f s => { s with libffmpeg := f }
  get_set := fun _ _ => rfl
  set_get := fun _ => rfl

def deps (s : FfmpegDir) : FfmpegDeps :=
  ⟨s.mbedtls.dest, s.x264.dest, s.lameInstall, s.pkgconfig⟩

end FfmpegDir

/-- `ffmpeg-source/ffmpeg` -/
def ffmpegPath : Path := [⟨"ffmpeg", by decide⟩]

/-- The machine the script runs on: the repositories it clones, the release it downloads,
    what the tools make of them, `$MBEDTLS_DIR`, and the mode of a file that `cp` creates.
    The builds read the same environment in every run: of what the script exports before a
    build, only `STRINGS` and `OBJDUMP` depend on the run (they are set where it compiles
    x264), and what LAME's build makes is taken not to depend on these two. -/
structure FfmpegEnv where
  mbedtlsRepo : Dir
  mbedtlsSubmodules : Dir
  mbedtls : Package Path UInt8 Unit
  mbedtls_release : mbedtls.release = mbedtlsRepo.overlay mbedtlsSubmodules
  x264 : Package Path UInt8 Unit
  lameRel : Release
  lame : Package Path UInt8 Unit
  lame_release : lame.release = lamePatched lameRel
  ffmpegRepo : Dir
  ffmpegConfigure : FfmpegDeps → Dir → Dir
  ffmpegMake : FfmpegDeps → Dir → Dir
  configure_apart : ∀ d, ffmpegRepo.Apart (ffmpegConfigure d ffmpegRepo)
  make_apart : ∀ d, ffmpegRepo.Apart (ffmpegMake d ffmpegRepo)
  ffmpeg_fresh : ffmpegRepo ffmpegPath = none
  strip : Bytes → Bytes
  mbedtlsDir : Bytes
  newMode : ℕ

/-! ### The script -/

/-- The commands of the mbedTLS clone stage. -/
inductive CloneCmd where
  | clone | cd | submodule | cdUp
  deriving DecidableEq, Repr

/-- The commands of the script. -/
inductive FfmpegCmd where
  | checkNdk | mkdirJni
  | mbedtlsClone (c : CloneCmd)
  | mbedtlsMkdir
  | mbedtlsBuild (c : BuildCmd)
  | x264Clone
  | x264Build (c : BuildCmd)
  | lameDownload (c : DownloadCmd)
  | lameBuild (c : BuildCmd)
  | ffmpegClone
  | mkdirPkgconfig | pcMbedtls | pcMbedx509 | pcMbedcrypto
  | cdSource | configure | make | strip | cdUp
  | cp | chmod
  deriving DecidableEq, Repr

/-- `git clone … DIR`, where DIR does not exist.  One that is stopped has removed what it
    made of DIR, or leaves it. -/
def gitClone {σ : Type} (dir : Focus σ (Option Dir)) (repo : Dir) (v : CmdVerdict) :
    Script σ := fillTool dir (fun _ => repo) v

/-- `mkdir -p DIR` -/
def mkdirTool {σ : Type} (dir : Focus σ (Option Dir)) (v : CmdVerdict) : Script σ :=
  fillTool dir (fun _ => Tree.empty) v

/-- `if [ ! -d "mbedtls-source" ]; then git clone; cd; git submodule update; cd ..; fi` -/
def mbedtlsCloneStage (env : FfmpegEnv) (r : Run CloneCmd) : Script (Site Path UInt8) :=
  ifThen (fun s => s.source.isNone)
    (seq [gitClone Site.sourceDir env.mbedtlsRepo (r .clone), cd (r .cd) Site.source,
      fillTool Site.sourceDir (fun _ => env.mbedtlsSubmodules) (r .submodule),
      inert (r .cdUp)])

/-- `if [ ! -d "$MBEDTLS_DIR" ]; then mkdir -p mbedtls-source/build; …; fi` -/
def mbedtlsBuildStage (env : FfmpegEnv) (vmkdir : CmdVerdict) (r : Run BuildCmd) :
    Script (Site Path UInt8) :=
  ifThen (fun s => s.dest.isNone)
    (seq [mkdirTool Site.sourceDir vmkdir, env.mbedtls.build () r])

/-- `if [ ! -d SOURCE ]; then git clone; fi` -/
def cloneStage {σ : Type} (dir : Focus σ (Option Dir)) (repo : Dir) (v : CmdVerdict) :
    Script σ := ifThen (fun s => (dir.get s).isNone) (gitClone dir repo v)

/-- `if [ ! -d INSTALL ]; then cd SOURCE; ./configure; make; make install; cd ..; fi` -/
def buildStage (pkg : Package Path UInt8 Unit) (r : Run BuildCmd) : Script (Site Path UInt8) :=
  ifThen (fun s => s.dest.isNone) (pkg.build () r)

/-- A pkgconfig file of an mbedTLS library. -/
def pcFile (dir : Bytes) (name description libs : String) : Bytes :=
  ascii "prefix=" ++ dir ++
  ascii "\nexec_prefix=$\x7bprefix\x7d\nlibdir=$\x7bexec_prefix\x7d/lib\nincludedir=$\x7bprefix\x7d/include\n\nName: " ++
  ascii name ++ ascii "\nDescription: " ++ ascii description ++
  ascii "\nVersion: 3.6.0\nLibs: -L$\x7blibdir\x7d " ++ ascii libs ++
  ascii "\nCflags: -I$\x7bincludedir\x7d\n"

/-- `pkgconfig/mbedtls.pc` -/
def mbedtlsPc : Path := [⟨"mbedtls.pc", by decide⟩]
/-- `pkgconfig/mbedx509.pc` -/
def mbedx509Pc : Path := [⟨"mbedx509.pc", by decide⟩]
/-- `pkgconfig/mbedcrypto.pc` -/
def mbedcryptoPc : Path := [⟨"mbedcrypto.pc", by decide⟩]

/-- The three here-documents. -/
def mbedtlsPcFile (dir : Bytes) : Bytes :=
  pcFile dir "mbedtls" "mbed TLS light-weight SSL/TLS library" "-lmbedtls -lmbedx509 -lmbedcrypto"
def mbedx509PcFile (dir : Bytes) : Bytes :=
  pcFile dir "mbedx509" "mbed TLS x509 library" "-lmbedx509"
def mbedcryptoPcFile (dir : Bytes) : Bytes :=
  pcFile dir "mbedcrypto" "mbed TLS crypto library" "-lmbedcrypto"

/-- `# Check and compile mbedtls locally if not present` -/
def mbedtlsStages (env : FfmpegEnv) (r : Run FfmpegCmd) : Script FfmpegDir :=
  seq [FfmpegDir.mbedtlsSite.on (mbedtlsCloneStage env (fun c => r (.mbedtlsClone c))),
    FfmpegDir.mbedtlsSite.on
      (mbedtlsBuildStage env (r .mbedtlsMkdir) (fun c => r (.mbedtlsBuild c)))]

/-- `# Check and compile x264 locally if not present` -/
def x264Stages (env : FfmpegEnv) (r : Run FfmpegCmd) : Script FfmpegDir :=
  seq [FfmpegDir.x264Site.on (cloneStage Site.sourceDir env.x264.release (r .x264Clone)),
    FfmpegDir.x264Site.on (buildStage env.x264 (fun c => r (.x264Build c)))]

/-- `# Check and compile libmp3lame locally if not present` -/
def lameStages (env : FfmpegEnv) (r : Run FfmpegCmd) : Script FfmpegDir :=
  seq [FfmpegDir.lameDownload.on (lameStage env.lameRel (fun c => r (.lameDownload c))),
    FfmpegDir.lameSite.on (buildStage env.lame (fun c => r (.lameBuild c)))]

/-- `# Create pkgconfig files for local build` -/
def pkgconfigFiles (env : FfmpegEnv) (r : Run FfmpegCmd) : Script FfmpegDir :=
  seq [mkdirTool FfmpegDir.pkgconfigDir (r .mkdirPkgconfig),
    writeTool FfmpegDir.pkgconfigDir mbedtlsPc (fun _ => some (mbedtlsPcFile env.mbedtlsDir))
      (r .pcMbedtls),
    writeTool FfmpegDir.pkgconfigDir mbedx509Pc (fun _ => some (mbedx509PcFile env.mbedtlsDir))
      (r .pcMbedx509),
    writeTool FfmpegDir.pkgconfigDir mbedcryptoPc
      (fun _ => some (mbedcryptoPcFile env.mbedtlsDir)) (r .pcMbedcrypto)]

/-- The script up to FFmpeg's `configure`. -/
def ffmpegDeps (env : FfmpegEnv) (r : Run FfmpegCmd) : Script FfmpegDir :=
  seq [inert (r .checkNdk), inert (r .mkdirJni),
    mbedtlsStages env r,
    x264Stages env r,
    lameStages env r,
    cloneStage FfmpegDir.ffmpegDir env.ffmpegRepo (r .ffmpegClone),
    pkgconfigFiles env r,
    cd (r .cdSource) FfmpegDir.ffmpegSource]

/-- The sources of FFmpeg that `configure` and `make` find. -/
def ffmpegFound (env : FfmpegEnv) (s : FfmpegDir) : Dir :=
  (s.ffmpegSource.getD Tree.empty).restrict env.ffmpegRepo

/-- The script from FFmpeg's `configure` on. -/
def ffmpegCompile (env : FfmpegEnv) (r : Run FfmpegCmd) : Script FfmpegDir :=
  -- this stage has no guard: every run that gets here compiles anew
  seq [fillTool FfmpegDir.ffmpegDir (fun s => env.ffmpegConfigure s.deps (ffmpegFound env s))
      (r .configure),
    fillTool FfmpegDir.ffmpegDir (fun s => env.ffmpegMake s.deps (ffmpegFound env s)) (r .make),
    writeTool FfmpegDir.ffmpegDir ffmpegPath
      (fun s => (s.ffmpegSource.bind (· ffmpegPath)).map env.strip) (r .strip),
    inert (r .cdUp),
    cpLib FfmpegDir.lib (fun s => s.ffmpegSource.bind (· ffmpegPath)) env.newMode (r .cp),
    chmodLib FfmpegDir.lib (r .chmod)]

/-- `build_ffmpeg.sh` -/
def buildFfmpeg (env : FfmpegEnv) (r : Run FfmpegCmd) : Script FfmpegDir :=
  seq [ffmpegDeps env r, ffmpegCompile env r]

/-! ### Guards -/

/-- The stages of the script that are behind a guard. -/
inductive FfmpegStage where
  | mbedtlsSource | mbedtlsInstall | x264Source | x264Install
  | lameSource | lameInstall | ffmpegSource
  deriving DecidableEq, Repr

/-- The directory that the guard of a stage tests for. -/
def FfmpegStage.target : FfmpegStage → FfmpegDir → Option Dir
  | mbedtlsSource, s => s.mbedtls.source
  | mbedtlsInstall, s => s.mbedtls.dest
  | x264Source, s => s.x264.source
  | x264Install, s => s.x264.dest
  | lameSource, s => s.lame.source
  | lameInstall, s => s.lameInstall
  | ffmpegSource, s => s.ffmpegSource

/-- The next run skips the stage. -/
def FfmpegStage.skipped (st : FfmpegStage) (s : FfmpegDir) : Bool := (st.target s).isSome

/-- All files that the stage is there to produce. -/
def FfmpegStage.work (env : FfmpegEnv) : FfmpegStage → Dir
  | mbedtlsSource => env.mbedtlsRepo.overlay env.mbedtlsSubmodules
  | mbedtlsInstall => env.mbedtls.installed ()
  | x264Source => env.x264.release
  | x264Install => env.x264.installed ()
  | lameSource => lamePatched env.lameRel
  | lameInstall => env.lame.installed ()
  | ffmpegSource => env.ffmpegRepo

/-- What the build of a library writes among its sources later on; some files of its release
    (a `Makefile`, a generated header) may be among it. -/
def FfmpegStage.rebuilt (env : FfmpegEnv) : FfmpegStage → Dir
  | mbedtlsSource => env.mbedtls.products ()
  | x264Source => env.x264.products ()
  | lameSource => env.lame.products ()
  | mbedtlsInstall | x264Install | lameInstall | ffmpegSource => Tree.empty

/-- Everything that the stage does has been done: every file is there, with its bytes unless
    the build has written it anew. -/
def FfmpegStage.Completed (env : FfmpegEnv) (st : FfmpegStage) (s : FfmpegDir) : Prop :=
  ∃ t, st.target s = some t ∧ t.ExtendsOff (st.work env) (st.rebuilt env)

/-- The stops after which the guard of a stage is wrong.  In the mbedTLS clone stage: once
    `git clone` has created the directory, and until the last submodule file is there.  In
    a clone or a `make install`: with the directory created and not filled.  In the LAME
    download, `LameWindow`. -/
def FfmpegWindow (env : FfmpegEnv) : FfmpegCmd → CmdVerdict → Prop
  -- the directory alone makes later runs skip the submodules
  | .mbedtlsClone .clone, v => v.progress.begun = true
  | .mbedtlsClone .cd, _ => True
  | .mbedtlsClone .submodule, v =>
    ¬ (v.progress.begun = true ∧ v.progress.Full env.mbedtlsSubmodules)
  | .mbedtlsBuild .install, v => LeavesPart (env.mbedtls.installed ()) v
  | .x264Clone, v => LeavesPart env.x264.release v
  | .x264Build .install, v => LeavesPart (env.x264.installed ()) v
  | .lameDownload c, v => LameWindow env.lameRel c v
  | .lameBuild .install, v => LeavesPart (env.lame.installed ()) v
  | .ffmpegClone, v => LeavesPart env.ffmpegRepo v
  | _, _ => False

/-- A run that is not stopped at any of these points. -/
def FfmpegRun (env : FfmpegEnv) (r : Run FfmpegCmd) : Prop :=
  StopsIn (fun c v => ¬ FfmpegWindow env c v) r

/-! ### One library: its sources and its installation -/

/-- The sources of a package are complete, up to what building adds; the directory it is
    installed into has exactly what `make install` writes, and was filled from a finished
    build. -/
def Sound (pkg : Package Path UInt8 Unit) (s : Site Path UInt8) : Prop :=
  (∀ t, s.source = some t → Tree.Over pkg.release (pkg.products ()) t) ∧
    ∀ d, s.dest = some d → d = pkg.installed () ∧ s.source = some (pkg.built () pkg.release)

/-- Built and installed. -/
def Done (pkg : Package Path UInt8 Unit) : Site Path UInt8 :=
  ⟨some (pkg.built () pkg.release), some (pkg.installed ())⟩

section Library

variable {pkg : Package Path UInt8 Unit}

/-- A package of which nothing is there. -/
theorem sound_absent : Sound pkg ⟨none, none⟩ := by
  constructor
  · intro t ht; cases ht
  · intro d hd; cases hd

/-- A source tree, built in or not, without an installation. -/
theorem sound_source {t : Dir} (ht : Tree.Over pkg.release (pkg.products ()) t) :
    Sound pkg ⟨some t, none⟩ := by
  constructor
  · intro t' ht'; cases ht'; exact ht
  · intro d hd; cases hd

/-- A package that has been built and installed. -/
theorem sound_done : Sound pkg (Done pkg) := by
  constructor
  · intro t ht; cases ht; exact Package.built_over _
  · intro d hd; cases hd; exact ⟨rfl, rfl⟩

/-- Without sources there is no installation. -/
theorem Sound.absent {s : Site Path UInt8} (h : Sound pkg s) (hs : s.source = none) :
    s = ⟨none, none⟩ := by
  obtain ⟨source, dest⟩ := s
  cases hs
  cases dest with
  | none => rfl
  | some d => exact absurd (h.2 d rfl).2 (by simp)

/-- With an installation, everything has been done. -/
theorem Sound.installed {s : Site Path UInt8} {d : Dir} (h : Sound pkg s)
    (hd : s.dest = some d) : s = Done pkg := by
  obtain ⟨source, dest⟩ := s
  cases hd
  obtain ⟨rfl, hsrc⟩ := h.2 d rfl
  cases hsrc; rfl

/-- **Build stage.**  A run that `make install` does not leave half-way keeps the package
    sound, and an exit 0 leaves it built and installed. -/
theorem build_sound {r : Run BuildCmd}
    (hr : (r .install).ending ≠ .exits → ¬ LeavesPart (pkg.installed ()) (r .install)) :
    Triple (fun s => ∃ t, s = ⟨some t, none⟩ ∧ Tree.Over pkg.release (pkg.products ()) t)
      (pkg.build () r) (fun s => s = Done pkg) (Sound pkg) := by
  have hfill : fill (pkg.installed ()) none = some (pkg.installed ()) :=
    congrArg some (Tree.empty_overlay _)
  have hbuild : Triple _ (pkg.build () r) _ _ :=
    Package.build_triple (u := pkg.release) (d := none) (Package.release_extends ())
  apply hbuild.consequence
  · rintro s ⟨t, rfl, ht⟩
    exact ⟨t, rfl, ht, trivial⟩
  · rintro s rfl
    rw [hfill]; rfl
  · intro s hs
    cases hs with
    | building h =>
      -- `configure` and `make` write into the sources only
      obtain ⟨t, rfl, ht, -⟩ := h
      exact sound_source ht
    | installing hv =>
      -- outside the window, `make install` has not begun or has written everything
      rcases cutFill_of_not_leavesPart (hr hv) none with h | h
      · rw [h]; exact sound_source (Package.built_over _)
      · rw [h, hfill]; exact sound_done
    | installed => rw [hfill]; exact sound_done

/-- The build of a package: it ends as it should, or is stopped without a partial installation that
    looks complete. -/
theorem buildStage_triple {r : Run BuildCmd}
    (hr : (r .install).ending ≠ .exits → ¬ LeavesPart (pkg.installed ()) (r .install)) :
    Triple (fun s => Sound pkg s ∧ s.source.isSome) (buildStage pkg r)
      (fun s => s = Done pkg) (Sound pkg) := by
  refine Triple.ifThen ((build_sound hr).consequence ?_ (fun s hs => hs) (fun s hs => hs)) ?_
  · rintro ⟨source, dest⟩ ⟨⟨hs, hsome⟩, hnone⟩
    obtain ⟨t, rfl⟩ := Option.isSome_iff_exists.mp hsome
    cases dest with
    | none => exact ⟨t, rfl, hs.1 t rfl⟩
    | some d => exact absurd hnone (by simp)
  · -- skipped: there is an installation, so it is complete
    intro s hs hskip
    obtain ⟨d, hd⟩ := Option.isSome_iff_exists.mp (by simpa using hskip : s.dest.isSome)
    exact hs.1.installed hd

/-- **Clone stage.**  A run that does not leave part of the repository keeps the package
    sound, and an exit 0 leaves its sources. -/
theorem cloneStage_triple {v : CmdVerdict}
    (hv : v.ending ≠ .exits → ¬ LeavesPart pkg.release v) :
    Triple (Sound pkg) (cloneStage Site.sourceDir pkg.release v)
      (fun s => Sound pkg s ∧ s.source.isSome) (Sound pkg) := by
  have hfill : fill pkg.release none = some pkg.release := congrArg some (Tree.empty_overlay _)
  have hfiles : Sound pkg ⟨some pkg.release, none⟩ := sound_source (Tree.Over.refl _ _)
  refine Triple.ifThen (fillTool_triple ?_ ?_) ?_
  · rintro s ⟨hs, hnone⟩
    rw [hs.absent (Option.isNone_iff_eq_none.mp hnone)]
    show Sound pkg ⟨fill pkg.release none, none⟩ ∧ (fill pkg.release none).isSome
    rw [hfill]
    exact ⟨hfiles, rfl⟩
  · rintro s ⟨hs, hnone⟩ hstop
    rw [hs.absent (Option.isNone_iff_eq_none.mp hnone)]
    show Sound pkg ⟨cutFill v.progress pkg.release none, none⟩
    -- the clone is absent, or complete
    rcases cutFill_of_not_leavesPart (hv hstop) none with h | h
    · rw [h]; exact sound_absent
    · rw [h, hfill]; exact hfiles
  · intro s hs hskip
    have hsome : s.source.isNone = false := hskip
    exact ⟨hs, by simpa using hsome⟩

/-- **mbedTLS clone stage.**  The guard tests for a directory that `git clone` creates and
    `git submodule update` completes. -/
theorem mbedtlsCloneStage_triple {env : FfmpegEnv} {r : Run CloneCmd}
    (hr : StopsIn (fun c v => ¬ FfmpegWindow env (.mbedtlsClone c) v) r) :
    Triple (Sound env.mbedtls) (mbedtlsCloneStage env r)
      (fun s => Sound env.mbedtls s ∧ s.source.isSome) (Sound env.mbedtls) := by
  have hrepo : fill env.mbedtlsRepo none = some env.mbedtlsRepo :=
    congrArg some (Tree.empty_overlay _)
  have hfiles : fill env.mbedtlsSubmodules (some env.mbedtlsRepo) = some env.mbedtls.release := by
    rw [env.mbedtls_release]; rfl
  have hsound : Sound env.mbedtls ⟨some env.mbedtls.release, none⟩ :=
    sound_source (Tree.Over.refl _ _)
  -- git clone may stop only before it creates the directory
  have hclone : Triple (fun s => Sound env.mbedtls s ∧ s.source.isNone = true)
      (gitClone Site.sourceDir env.mbedtlsRepo (r .clone))
      (fun s => s = ⟨some env.mbedtlsRepo, none⟩) (Sound env.mbedtls) := by
    apply fillTool_triple
    · rintro s ⟨hs, hnone⟩
      rw [hs.absent (Option.isNone_iff_eq_none.mp hnone)]
      exact congrArg (fun d => (⟨d, none⟩ : Site Path UInt8)) hrepo
    · rintro s ⟨hs, hnone⟩ hstop
      have hidle : (r .clone).progress.begun = false := by
        simpa [FfmpegWindow] using hr .clone hstop
      rw [cutFill_idle hidle, hs.absent (Option.isNone_iff_eq_none.mp hnone)]
      exact sound_absent
  -- cd may not stop
  have hcd : Triple (fun s => s = ⟨some env.mbedtlsRepo, none⟩) (cd (r .cd) Site.source)
      (fun s => s = ⟨some env.mbedtlsRepo, none⟩) (Sound env.mbedtls) := by
    apply Triple.tool
    · rintro s s' rfl he
      cases he; rfl
    · rintro s rfl hstop
      exact absurd trivial (hr .cd (fun h => absurd (hstop h) (by simp)))
  -- git submodule update may stop only after the last file
  have hsub : Triple (fun s => s = ⟨some env.mbedtlsRepo, none⟩)
      (fillTool Site.sourceDir (fun _ => env.mbedtlsSubmodules) (r .submodule))
      (fun s => s = ⟨some env.mbedtls.release, none⟩) (Sound env.mbedtls) := by
    apply fillTool_triple
    · rintro s rfl
      exact congrArg (fun d => (⟨d, none⟩ : Site Path UInt8)) hfiles
    · rintro s rfl hstop
      have hfull : (r .submodule).progress.begun = true ∧
          (r .submodule).progress.Full env.mbedtlsSubmodules := by
        by_contra h
        exact hr .submodule hstop h
      rw [cutFill_full hfull.2 hfull.1]
      show Sound env.mbedtls ⟨fill env.mbedtlsSubmodules (some env.mbedtlsRepo), none⟩
      rw [hfiles]
      exact hsound
  have hup : Triple (fun s => s = ⟨some env.mbedtls.release, none⟩) (inert (r .cdUp))
      (fun s => s = ⟨some env.mbedtls.release, none⟩) (Sound env.mbedtls) :=
    Triple.inert (fun s hs => hs) (fun s hs => by rw [hs]; exact hsound)
  refine Triple.ifThen (Triple.cons hclone (Triple.cons hcd (Triple.cons hsub (Triple.cons hup
    (Triple.nil ?_))))) ?_
  · rintro s rfl
    exact ⟨hsound, rfl⟩
  · exact fun s hs hskip => ⟨hs, by simpa using hskip⟩

/-- The build of mbedTLS, which begins with a `mkdir`. -/
theorem mbedtlsBuildStage_triple {env : FfmpegEnv} {v : CmdVerdict} {r : Run BuildCmd}
    (hr : (r .install).ending ≠ .exits → ¬ LeavesPart (env.mbedtls.installed ()) (r .install)) :
    Triple (fun s => Sound env.mbedtls s ∧ s.source.isSome) (mbedtlsBuildStage env v r)
      (fun s => s = Done env.mbedtls) (Sound env.mbedtls) := by
  refine Triple.ifThen (Triple.cons (M := fun s => ∃ t, s = ⟨some t, none⟩ ∧
    Tree.Over env.mbedtls.release (env.mbedtls.products ()) t) (fillTool_triple ?_ ?_)
    (Triple.cons (build_sound hr) (Triple.nil fun s hs => hs))) ?_
  · rintro ⟨source, dest⟩ ⟨⟨hs, hsome⟩, hnone⟩
    obtain ⟨t, rfl⟩ := Option.isSome_iff_exists.mp hsome
    cases Option.isNone_iff_eq_none.mp hnone
    exact ⟨t, congrArg (fun t => (⟨some t, none⟩ : Site Path UInt8)) (Tree.overlay_empty t),
      hs.1 t rfl⟩
  · rintro ⟨source, dest⟩ ⟨⟨hs, hsome⟩, hnone⟩ -
    obtain ⟨t, rfl⟩ := Option.isSome_iff_exists.mp hsome
    show Sound env.mbedtls ⟨cutFill v.progress Tree.empty (some t), dest⟩
    -- `mkdir -p` of an existing directory adds no file
    rw [cutFill_empty]
    exact hs
  · intro s hs hskip
    obtain ⟨d, hd⟩ := Option.isSome_iff_exists.mp (by simpa using hskip : s.dest.isSome)
    exact hs.1.installed hd

end Library

/-! ### The whole script -/

/-- The files of `pkgconfig`. -/
def pcFiles (env : FfmpegEnv) : Dir :=
  ((Tree.empty.write mbedtlsPc (mbedtlsPcFile env.mbedtlsDir)).write
    mbedx509Pc (mbedx509PcFile env.mbedtlsDir)).write
    mbedcryptoPc (mbedcryptoPcFile env.mbedtlsDir)

/-- **The invariant between runs**: the three libraries are sound, no truncated tarball
    stands in the way, and the clone of FFmpeg is complete if it is there. -/
structure Resumable (env : FfmpegEnv) (s : FfmpegDir) : Prop where
  mbedtls : Sound env.mbedtls s.mbedtls
  x264 : Sound env.x264 s.x264
  lame : Sound env.lame ⟨s.lame.source, s.lameInstall⟩
  tarball : TarballOk env.lameRel s.lame
  ffmpeg : ∀ t, s.ffmpegSource = some t → t.Extends env.ffmpegRepo
  pkgconfig : ∀ t, s.pkgconfig = some t → Tree.Over Tree.empty (pcFiles env) t

/-- The libraries as FFmpeg's `configure` needs them, and the sources of FFmpeg. -/
structure Libraries (env : FfmpegEnv) (s : FfmpegDir) : Prop where
  mbedtls : s.mbedtls = Done env.mbedtls
  x264 : s.x264 = Done env.x264
  lame : (⟨s.lame.source, s.lameInstall⟩ : Site Path UInt8) = Done env.lame
  ffmpeg : s.ffmpegSource.isSome

section Script

variable {env : FfmpegEnv} {r : Run FfmpegCmd} {v : CmdVerdict}

/-- The two mbedTLS stages. -/
theorem mbedtls_triple (hr : FfmpegRun env r) :
    Triple (Resumable env) (mbedtlsStages env r)
      (fun s => Resumable env s ∧ s.mbedtls = Done env.mbedtls) (Resumable env) := by
  have hclone : Triple _ (mbedtlsCloneStage env fun c => r (.mbedtlsClone c)) _ _ :=
    mbedtlsCloneStage_triple fun c hc => hr (.mbedtlsClone c) hc
  have hbuild := mbedtlsBuildStage_triple (v := r .mbedtlsMkdir)
    (r := fun c => r (.mbedtlsBuild c)) (hr (.mbedtlsBuild .install))
  -- each stage works on the two mbedTLS directories and leaves the rest of the invariant
  refine Triple.cons (M := fun s => Resumable env s ∧ s.mbedtls.source.isSome) ?_
    (Triple.cons ?_ (Triple.nil fun s hs => hs))
  · refine Triple.on _ (fun _ _ => hclone) (fun s hs => hs.mbedtls) ?_ ?_
    · intro s t hs ht
      exact ⟨{ hs with mbedtls := ht.1 }, ht.2⟩
    · intro s t hs ht
      exact { hs with mbedtls := ht }
  · refine Triple.on _ (fun _ _ => hbuild) (fun s hs => ⟨hs.1.mbedtls, hs.2⟩) ?_ ?_
    · rintro s t ⟨hs, -⟩ rfl
      exact ⟨{ hs with mbedtls := sound_done }, rfl⟩
    · intro s t hs ht
      exact { hs.1 with mbedtls := ht }

/-- The two x264 stages. -/
theorem x264_triple (hr : FfmpegRun env r) :
    Triple (fun s => Resumable env s ∧ s.mbedtls = Done env.mbedtls) (x264Stages env r)
      (fun s => Resumable env s ∧ s.mbedtls = Done env.mbedtls ∧ s.x264 = Done env.x264)
      (Resumable env) := by
  have hclone : Triple (Sound env.x264) _ _ _ := cloneStage_triple (hr .x264Clone)
  have hbuild := buildStage_triple (r := fun c => r (.x264Build c)) (hr (.x264Build .install))
  refine Triple.cons (M := fun s => Resumable env s ∧ s.mbedtls = Done env.mbedtls ∧
    s.x264.source.isSome) ?_ (Triple.cons ?_ (Triple.nil fun s hs => hs))
  · refine Triple.on _ (fun _ _ => hclone) (fun s hs => hs.1.x264) ?_ ?_
    · intro s t hs ht
      exact ⟨{ hs.1 with x264 := ht.1 }, hs.2, ht.2⟩
    · intro s t hs ht
      exact { hs.1 with x264 := ht }
  · refine Triple.on _ (fun _ _ => hbuild) (fun s hs => ⟨hs.1.x264, hs.2.2⟩) ?_ ?_
    · rintro s t ⟨hs, hm, -⟩ rfl
      exact ⟨{ hs with x264 := sound_done }, hm, rfl⟩
    · intro s t hs ht
      exact { hs.1 with x264 := ht }

/-- The LAME sources as `Sound` has them. -/
theorem lameSource_triple (hr : FfmpegRun env r) {E : FfmpegDir → Prop}
    (hE : ∀ t s, E s → E (FfmpegDir.lameDownload.set t s)) :
    Triple (fun s => Resumable env s ∧ E s)
      (FfmpegDir.lameDownload.on (lameStage env.lameRel (fun c => r (.lameDownload c))))
      (fun s => Resumable env s ∧ E s ∧ s.lame.source.isSome) (Resumable env) := by
  have hfiles : Tree.Over env.lame.release (env.lame.products ()) (lamePatched env.lameRel) := by
    rw [← env.lame_release]; exact Tree.Over.refl _ _
  have hstage := lameStage_triple env.lameRel (fun c => r (.lameDownload c)) hfiles
    (fun c hc => hr (.lameDownload c) hc)
  intro s hs
  cases hinst : s.lameInstall with
  | some d =>
    -- with an installation there are sources, and the stage is skipped
    have hdone : (⟨s.lame.source, s.lameInstall⟩ : Site Path UInt8) = Done env.lame :=
      hs.1.lame.installed hinst
    have hsrc : s.lame.source.isSome := by
      rw [(Site.mk.inj hdone).1]; rfl
    have hskip : lameStage env.lameRel (fun c => r (.lameDownload c)) s.lame = .done s.lame :=
      ifThen_neg (by simpa using hsrc)
    show ((lameStage env.lameRel _ s.lame).map _).Sat _ _
    rw [hskip]
    exact ⟨hs.1, hs.2, hsrc⟩
  | none =>
    -- without one, whatever sources the stage leaves are good enough
    have hon := Triple.on FfmpegDir.lameDownload (fun _ _ => hstage)
      (I := fun s => (Resumable env s ∧ E s) ∧ s.lameInstall = none)
      (J := fun s => Resumable env s ∧ E s ∧ s.lame.source.isSome) (K := Resumable env)
      ?_ ?_ ?_
    · exact hon s ⟨hs, hinst⟩
    · exact fun s hs => ⟨hs.1.1.lame.1, hs.1.1.tarball⟩
    · rintro s t ⟨⟨hs, he⟩, hnone⟩ ⟨⟨u, hu, hover⟩, htar⟩
      refine ⟨{ hs with lame := ?_, tarball := htar }, hE t s he, ?_⟩
      · show Sound env.lame ⟨t.source, s.lameInstall⟩
        rw [hu, hnone]
        exact sound_source hover
      · show t.source.isSome
        rw [hu]; rfl
    · rintro s t ⟨⟨hs, -⟩, hnone⟩ ⟨hover, htar⟩
      refine { hs with lame := ?_, tarball := htar }
      show Sound env.lame ⟨t.source, s.lameInstall⟩
      rw [hnone]
      exact ⟨hover, fun d hd => by cases hd⟩

/-- The two LAME stages. -/
theorem lame_triple (hr : FfmpegRun env r) :
    Triple (fun s => Resumable env s ∧ s.mbedtls = Done env.mbedtls ∧ s.x264 = Done env.x264)
      (lameStages env r)
      (fun s => Resumable env s ∧ s.mbedtls = Done env.mbedtls ∧ s.x264 = Done env.x264 ∧
        (⟨s.lame.source, s.lameInstall⟩ : Site Path UInt8) = Done env.lame)
      (Resumable env) := by
  have hbuild := buildStage_triple (r := fun c => r (.lameBuild c)) (hr (.lameBuild .install))
  refine Triple.cons (lameSource_triple (E := fun s => s.mbedtls = Done env.mbedtls ∧
    s.x264 = Done env.x264) hr (fun _ _ hs => hs)) (Triple.cons ?_ (Triple.nil fun s hs => hs))
  refine Triple.on _ (fun _ _ => hbuild) (fun s hs => ⟨hs.1.lame, hs.2.2⟩) ?_ ?_
  · rintro s t ⟨hs, hdone, -⟩ rfl
    exact ⟨{ hs with lame := sound_done }, hdone.1, hdone.2, rfl⟩
  · intro s t hs ht
    exact { hs.1 with lame := ht }

/-- The FFmpeg clone. -/
theorem ffmpegClone_triple (hr : FfmpegRun env r) :
    Triple (fun s => Resumable env s ∧ s.mbedtls = Done env.mbedtls ∧ s.x264 = Done env.x264 ∧
        (⟨s.lame.source, s.lameInstall⟩ : Site Path UInt8) = Done env.lame)
      (cloneStage FfmpegDir.ffmpegDir env.ffmpegRepo (r .ffmpegClone))
      (fun s => Resumable env s ∧ Libraries env s) (Resumable env) := by
  have hfill : fill env.ffmpegRepo none = some env.ffmpegRepo :=
    congrArg some (Tree.empty_overlay _)
  refine Triple.ifThen (fillTool_triple ?_ ?_) ?_
  · rintro s ⟨⟨hs, hm, hx, hl⟩, hnone⟩
    refine ⟨{ hs with ffmpeg := ?_ }, hm, hx, hl, rfl⟩
    intro t ht
    cases ht
    exact Tree.extends_overlay _ _
  · rintro s ⟨⟨hs, -⟩, hnone⟩ hstop
    refine { hs with ffmpeg := ?_ }
    intro t ht
    replace ht := (show cutFill (r .ffmpegClone).progress env.ffmpegRepo s.ffmpegSource = some t
      from ht)
    rw [show s.ffmpegSource = none from Option.isNone_iff_eq_none.mp hnone] at ht
    -- the clone is absent, or complete
    rcases cutFill_of_not_leavesPart (hr .ffmpegClone hstop) none with h | h
    · rw [h] at ht; cases ht
    · rw [h, hfill] at ht; cases ht; exact Tree.Extends.refl _
  · rintro s ⟨hs, hm, hx, hl⟩ hskip
    exact ⟨hs, hm, hx, hl, by simpa using (show s.ffmpegSource.isNone = false from hskip)⟩

/-- One file of `pkgconfig`: `u` is what has been written there so far. -/
theorem pcFile_triple {p : Path} {b : Bytes} {u : Dir} (hp : pcFiles env p ≠ none) :
    Triple (fun s => Resumable env s ∧ Libraries env s ∧
        ∃ t, s.pkgconfig = some t ∧ t.Extends u)
      (writeTool FfmpegDir.pkgconfigDir p (fun _ => some b) v)
      (fun s => Resumable env s ∧ Libraries env s ∧
        ∃ t, s.pkgconfig = some t ∧ t.Extends (u.write p b)) (Resumable env) := by
  have hkeep : ∀ (s : FfmpegDir) (t : Dir) (c : Bytes), Resumable env s →
      s.pkgconfig = some t → Resumable env (FfmpegDir.pkgconfigDir.set (some (t.write p c)) s) := by
    intro s t c hs ht
    refine { hs with pkgconfig := ?_ }
    intro t' ht'
    cases ht'
    exact (hs.pkgconfig t ht).write hp c
  refine writeTool_triple ?_ (fun s hs => hs.1) ?_
  · rintro s t c ⟨hs, hl, t', hst, ht'⟩ ht hc
    rw [← Option.some.inj hc]
    cases hst.symm.trans ht
    exact ⟨hkeep s t b hs ht, { hl with }, _, rfl, ht'.write_both p b⟩
  · rintro s t c ⟨hs, -⟩ ht
    exact hkeep s t c hs ht

/-- `mkdir -p pkgconfig`. -/
theorem mkdirPkgconfig_triple :
    Triple (fun s => Resumable env s ∧ Libraries env s)
      (mkdirTool FfmpegDir.pkgconfigDir (r .mkdirPkgconfig))
      (fun s => Resumable env s ∧ Libraries env s ∧
        ∃ t, s.pkgconfig = some t ∧ t.Extends Tree.empty) (Resumable env) := by
  have hover : ∀ s : FfmpegDir, Resumable env s →
      Tree.Over Tree.empty (pcFiles env) (s.pkgconfig.getD Tree.empty) := by
    intro s hs
    cases hpc : s.pkgconfig with
    | none => exact Tree.Over.refl _ _
    | some t => exact hs.pkgconfig t hpc
  -- `mkdir -p` writes no file, so the files of an earlier run stay what they were
  apply fillTool_triple
  · rintro s ⟨hs, hl⟩
    refine ⟨{ hs with pkgconfig := ?_ }, { hl with }, _, rfl, fun p b hp => by cases hp⟩
    intro t ht
    cases ht
    rw [Tree.overlay_empty]
    exact hover s hs
  · rintro s ⟨hs, -⟩ -
    refine { hs with pkgconfig := ?_ }
    intro t ht
    rcases cutFill_some ht with h | rfl
    · exact hs.pkgconfig t h
    · exact (hover s hs).cutOverlay (fun _ _ => rfl) _

/-- The files of `pkgconfig`. -/
theorem pkgconfigFiles_triple :
    Triple (fun s => Resumable env s ∧ Libraries env s) (pkgconfigFiles env r)
      (fun s => Resumable env s ∧ Libraries env s ∧ s.pkgconfig = some (pcFiles env))
      (Resumable env) := by
  refine Triple.cons mkdirPkgconfig_triple (Triple.cons (pcFile_triple ?_)
    (Triple.cons (pcFile_triple ?_) (Triple.cons (pcFile_triple ?_) (Triple.nil ?_))))
  · rw [pcFiles, Tree.write_of_ne _ _ (by decide), Tree.write_of_ne _ _ (by decide),
      Tree.write_self]
    simp
  · rw [pcFiles, Tree.write_of_ne _ _ (by decide), Tree.write_self]
    simp
  · rw [pcFiles, Tree.write_self]
    simp
  · -- nothing but the three files, and all of them
    rintro s ⟨hs, hl, t, hst, ht⟩
    refine ⟨hs, hl, ?_⟩
    rw [hst, (hs.pkgconfig t hst).eq_of_extends ht]

/-- **Up to `configure`.**  A run that is not stopped in the window keeps the invariant, and
    gets to FFmpeg's `configure` only with everything it needs. -/
theorem ffmpegDeps_triple (hr : FfmpegRun env r) :
    Triple (Resumable env) (ffmpegDeps env r)
      (fun s => Resumable env s ∧ Libraries env s ∧ s.pkgconfig = some (pcFiles env))
      (Resumable env) := by
  have hinert : ∀ c, Triple (Resumable env) (inert (r c)) (Resumable env) (Resumable env) :=
    fun c => Triple.inert (fun s hs => hs) (fun s hs => hs)
  have hcd : Triple
      (fun s => Resumable env s ∧ Libraries env s ∧ s.pkgconfig = some (pcFiles env))
      (cd (r .cdSource) FfmpegDir.ffmpegSource)
      (fun s => Resumable env s ∧ Libraries env s ∧ s.pkgconfig = some (pcFiles env))
      (Resumable env) :=
    cd_triple (fun s hs _ => hs) (fun s hs => hs.1)
  exact Triple.cons (hinert _) (Triple.cons (hinert _) (Triple.cons (mbedtls_triple hr)
    (Triple.cons (x264_triple hr) (Triple.cons (lame_triple hr) (Triple.cons
    (ffmpegClone_triple hr) (Triple.cons pkgconfigFiles_triple (Triple.cons hcd
    (Triple.nil fun s hs => hs))))))))

/-- A tool that adds files to `ffmpeg-source` leaves the clone complete, however it ends. -/
theorem ffmpegFill_triple {new : FfmpegDir → Dir}
    (hnew : ∀ s t, s.ffmpegSource = some t → t.Extends env.ffmpegRepo →
      env.ffmpegRepo.Apart (new s)) :
    Triple (fun s => Resumable env s ∧ s.ffmpegSource.isSome)
      (fillTool FfmpegDir.ffmpegDir new v)
      (fun s => Resumable env s ∧ s.ffmpegSource.isSome) (Resumable env) := by
  apply fillTool_triple
  · rintro s ⟨hs, hsome⟩
    obtain ⟨t, ht⟩ := Option.isSome_iff_exists.mp hsome
    refine ⟨{ hs with ffmpeg := ?_ }, rfl⟩
    intro t' ht'
    cases ht'
    show (Tree.overlay (s.ffmpegSource.getD _) _).Extends _
    rw [ht]
    exact (hs.ffmpeg t ht).overlay (hnew s t ht (hs.ffmpeg t ht))
  · rintro s ⟨hs, hsome⟩ -
    obtain ⟨t, ht⟩ := Option.isSome_iff_exists.mp hsome
    -- stopped: either nothing has been written, or files that the repository does not have
    refine { hs with ffmpeg := ?_ }
    intro t' ht'
    rcases cutFill_some ht' with h | rfl
    · exact hs.ffmpeg t' h
    · show (Tree.cutOverlay _ (s.ffmpegSource.getD _) _).Extends _
      rw [ht]
      exact (hs.ffmpeg t ht).cutOverlay (hnew s t ht (hs.ffmpeg t ht)) _

/-- `configure` and `make` find the repository of FFmpeg, whatever else is there. -/
theorem ffmpegFound_eq {s : FfmpegDir} {t : Dir} (hs : s.ffmpegSource = some t)
    (ht : t.Extends env.ffmpegRepo) : ffmpegFound env s = env.ffmpegRepo := by
  rw [ffmpegFound, hs]; exact ht.restrict_eq

/-- `ffmpeg` is no file of the clone. -/
theorem strip_keeps {s : FfmpegDir} {t : Dir} (hs : Resumable env s)
    (ht : s.ffmpegSource = some t) (b : Bytes) :
    Resumable env (FfmpegDir.ffmpegDir.set (some (t.write ffmpegPath b)) s) := by
  refine { hs with ffmpeg := ?_ }
  intro t' ht'
  cases ht'
  exact (hs.ffmpeg t ht).write env.ffmpeg_fresh b

/-- **From `configure` on** only `ffmpeg-source` and the JNI directory are written. -/
theorem ffmpegCompile_triple :
    Triple (fun s => Resumable env s ∧ s.ffmpegSource.isSome) (ffmpegCompile env r)
      (Resumable env) (Resumable env) := by
  have hconfigure : ∀ s t, s.ffmpegSource = some t → t.Extends env.ffmpegRepo →
      env.ffmpegRepo.Apart (env.ffmpegConfigure s.deps (ffmpegFound env s)) := by
    intro s t hst ht
    rw [ffmpegFound_eq hst ht]
    exact env.configure_apart s.deps
  have hmake : ∀ s t, s.ffmpegSource = some t → t.Extends env.ffmpegRepo →
      env.ffmpegRepo.Apart (env.ffmpegMake s.deps (ffmpegFound env s)) := by
    intro s t hst ht
    rw [ffmpegFound_eq hst ht]
    exact env.make_apart s.deps
  have hstrip : Triple (fun s => Resumable env s ∧ s.ffmpegSource.isSome)
      (writeTool FfmpegDir.ffmpegDir ffmpegPath
        (fun s => (s.ffmpegSource.bind (· ffmpegPath)).map env.strip) (r .strip))
      (Resumable env) (Resumable env) :=
    writeTool_triple (fun s t b hs ht _ => strip_keeps hs.1 ht b) (fun _ hs => hs.1)
      (fun s t b hs ht => strip_keeps hs.1 ht b)
  -- what follows writes the JNI directory only
  have hcd : Triple (Resumable env) (inert (r .cdUp)) (Resumable env) (Resumable env) :=
    Triple.inert (fun _ hs => hs) (fun _ hs => hs)
  have hlib : ∀ {new : FfmpegDir → Option ModeFile} {part : ℕ → FfmpegDir → Option ModeFile}
      {v : CmdVerdict}, Triple (Resumable env) (libTool FfmpegDir.lib new part v)
        (Resumable env) (Resumable env) := fun {_ _ _} => libTool_keeps fun _ _ hs => { hs with }
  exact Triple.cons (ffmpegFill_triple hconfigure) (Triple.cons (ffmpegFill_triple hmake)
    (Triple.cons hstrip (Triple.cons hcd (Triple.cons hlib (Triple.cons hlib
    (Triple.nil fun _ hs => hs))))))

/-- **One run** that is not stopped in the window keeps the invariant, however it ends. -/
theorem buildFfmpeg_triple (hr : FfmpegRun env r) :
    Triple (Resumable env) (buildFfmpeg env r) (Resumable env) (Resumable env) :=
  Triple.cons (ffmpegDeps_triple hr) (Triple.cons
    (ffmpegCompile_triple.consequence (fun _ hs => ⟨hs.1, hs.2.1.ffmpeg⟩) (fun _ hs => hs)
      (fun _ hs => hs)) (Triple.nil fun _ hs => hs))

end Script

/-! ### Guard soundness -/

/-- A clean checkout: none of the directories of the script is there. -/
def FfmpegDir.clean : FfmpegDir := ⟨⟨none, none⟩, ⟨none, none⟩, ⟨none, [], none, none⟩, none, none,
  none, none⟩

/-- A clean checkout can be resumed. -/
theorem clean_resumable (env : FfmpegEnv) : Resumable env FfmpegDir.clean where
  mbedtls := sound_absent
  x264 := sound_absent
  lame := sound_absent
  tarball := fun b hb => by cases hb
  ffmpeg := fun t ht => by cases ht
  pkgconfig := fun t ht => by cases ht

/-- Under the invariant every guard is right. -/
theorem Resumable.guards {env : FfmpegEnv} {s : FfmpegDir} (hs : Resumable env s)
    (st : FfmpegStage) (hskip : st.skipped s = true) : st.Completed env s := by
  have hsource : ∀ {pkg : Package Path UInt8 Unit} {x : Site Path UInt8} {t : Dir},
      Sound pkg x → x.source = some t → t.ExtendsOff pkg.release (pkg.products ()) :=
    fun hx ht => (hx.1 _ ht).extendsOff ((Tree.Extends.refl _).extendsOff _)
  have hdest : ∀ {pkg : Package Path UInt8 Unit} {x : Site Path UInt8} {d : Dir},
      Sound pkg x → x.dest = some d → d.ExtendsOff (pkg.installed ()) Tree.empty := by
    intro pkg x d hx hd
    rw [(hx.2 d hd).1]
    exact (Tree.Extends.refl _).extendsOff _
  -- every guard tests for a directory
  obtain ⟨t, ht⟩ := Option.isSome_iff_exists.mp hskip
  refine ⟨t, ht, ?_⟩
  cases st with
  | mbedtlsSource =>
    have hfiles := hsource hs.mbedtls ht
    rwa [env.mbedtls_release] at hfiles
  | mbedtlsInstall => exact hdest hs.mbedtls ht
  | x264Source => exact hsource hs.x264 ht
  | x264Install => exact hdest hs.x264 ht
  | lameSource =>
    have hfiles := hsource (x := ⟨s.lame.source, s.lameInstall⟩) hs.lame ht
    rwa [env.lame_release] at hfiles
  | lameInstall => exact hdest (x := ⟨s.lame.source, s.lameInstall⟩) hs.lame ht
  | ffmpegSource => exact (hs.ffmpeg t ht).extendsOff _

/-- The dependencies that FFmpeg's `configure` finds: the three libraries, sources and
    installations, and the files of `pkgconfig`. -/
structure Dependencies where
  mbedtls : Site Path UInt8
  x264 : Site Path UInt8
  lame : Site Path UInt8
  pkgconfig : Option Dir

def FfmpegDir.dependencies (s : FfmpegDir) : Dependencies :=
  ⟨s.mbedtls, s.x264, ⟨s.lame.source, s.lameInstall⟩, s.pkgconfig⟩

/-- **Guard soundness of the FFmpeg build.**  Take any history of runs from a clean checkout
    in which no run is stopped in the window.  Then the next run skips a stage only if all
    its work has been done; and a run that gets to FFmpeg's `configure` finds the sources of
    FFmpeg complete, and the dependencies that an undisturbed run from a clean checkout
    finds there. -/
theorem buildFfmpeg_guards_sound (env : FfmpegEnv) (hist : List (Run FfmpegCmd))
    (hhist : ∀ r ∈ hist, StopsIn (fun c v => ¬ FfmpegWindow env c v) r) :
    (∀ st : FfmpegStage, st.skipped (after (buildFfmpeg env) hist FfmpegDir.clean) = true →
      st.Completed env (after (buildFfmpeg env) hist FfmpegDir.clean)) ∧
    ∀ r, StopsIn (fun c v => ¬ FfmpegWindow env c v) r → ∀ s',
      ffmpegDeps env r (after (buildFfmpeg env) hist FfmpegDir.clean) = .done s' →
      FfmpegStage.ffmpegSource.Completed env s' ∧
      ∀ r₀ s₀, Undisturbed r₀ → ffmpegDeps env r₀ FfmpegDir.clean = .done s₀ →
        s'.dependencies = s₀.dependencies := by
  -- induction over the history
  have hinv : Resumable env (after (buildFfmpeg env) hist FfmpegDir.clean) :=
    after_invariant (fun r hr => buildFfmpeg_triple (hhist r hr)) (clean_resumable env)
  -- whatever run gets to `configure` finds one and the same state there
  have hdeps : ∀ r s s', Resumable env s → FfmpegRun env r → ffmpegDeps env r s = .done s' →
      Resumable env s' ∧ s'.ffmpegSource.isSome ∧ s'.dependencies =
        ⟨Done env.mbedtls, Done env.x264, Done env.lame, some (pcFiles env)⟩ := by
    intro r s s' hs hr hdone
    have h := ffmpegDeps_triple hr s hs
    rw [hdone] at h
    obtain ⟨hres, hlib, hpc⟩ := h
    refine ⟨hres, hlib.ffmpeg, ?_⟩
    show (⟨s'.mbedtls, s'.x264, ⟨s'.lame.source, s'.lameInstall⟩, s'.pkgconfig⟩ :
      Dependencies) = _
    rw [hlib.mbedtls, hlib.x264, hlib.lame, hpc]
  refine ⟨hinv.guards, fun r hr s' hdone => ?_⟩
  obtain ⟨hres, hsome, hdep⟩ := hdeps r _ s' hinv hr hdone
  refine ⟨hres.guards .ffmpegSource hsome, fun r₀ s₀ hr₀ hdone₀ => ?_⟩
  obtain ⟨-, -, hdep₀⟩ := hdeps r₀ _ s₀ (clean_resumable env) (hr₀.stopsIn _) hdone₀
  rw [hdep, hdep₀]

/-- A machine on which every repository has one file, and that of mbedTLS one submodule. -/
def sampleFfmpegEnv : FfmpegEnv where
  mbedtlsRepo := oneFile readme [1]
  mbedtlsSubmodules := oneFile (⟨"framework", by decide⟩ :: readme) [2]
  mbedtls := .verbatim ((oneFile readme [1]).overlay
    (oneFile (⟨"framework", by decide⟩ :: readme) [2]))
    (oneFile [⟨"libmbedtls.a", by decide⟩] [3])
  mbedtls_release := rfl
  x264 := .verbatim (oneFile readme [1])
    (oneFile [⟨"libx264.a", by decide⟩] [3])
  lameRel := ⟨[1, 2], oneFile readme [1]⟩
  lame := .verbatim (lamePatched ⟨[1, 2], oneFile readme [1]⟩)
    (oneFile [⟨"libmp3lame.a", by decide⟩] [3])
  lame_release := rfl
  ffmpegRepo := oneFile readme [1]
  ffmpegConfigure := fun _ _ => Tree.empty
  ffmpegMake := fun _ _ => oneFile ffmpegPath [4]
  configure_apart := fun _ _ _ => rfl
  make_apart := by
    intro d p hp
    by_cases h : p = ffmpegPath
    · subst h; exact absurd rfl hp
    · exact Tree.write_of_ne _ _ h
  ffmpeg_fresh := rfl
  strip := fun b => b
  mbedtlsDir := ascii "/ffmpeg_package/mbedtls_install"
  newMode := 0o644

/-- A run that is killed between `git clone` and `git submodule update` leaves a directory
    `mbedtls-source` that the next run takes for complete, and that has no submodule. -/
theorem mbedtls_guard_unsound :
    FfmpegStage.mbedtlsSource.skipped (after (buildFfmpeg sampleFfmpegEnv)
        [stopAt (.mbedtlsClone .cd) killedIdle] FfmpegDir.clean) = true ∧
      ¬ FfmpegStage.mbedtlsSource.Completed sampleFfmpegEnv (after (buildFfmpeg sampleFfmpegEnv)
        [stopAt (.mbedtlsClone .cd) killedIdle] FfmpegDir.clean) := by
  refine ⟨rfl, ?_⟩
  rintro ⟨t, ht, hext⟩
  have hsub := (hext (⟨"framework", by decide⟩ :: readme) [2] rfl).1
  rw [← Option.some.inj ht] at hsub
  exact hsub (by decide)

/-- A run killed in `make` of mbedTLS, then one that is left alone: it gets to `configure`,
    and finds there what a first run finds. -/
theorem buildFfmpeg_guards_sound_sample :
    (ffmpegDeps sampleFfmpegEnv (fun _ => unharmed) (after (buildFfmpeg sampleFfmpegEnv)
      [stopAt (.mbedtlsBuild .make) killedIdle] FfmpegDir.clean)).exitsZero = true ∧
    ∀ s', ffmpegDeps sampleFfmpegEnv (fun _ => unharmed) (after (buildFfmpeg sampleFfmpegEnv)
        [stopAt (.mbedtlsBuild .make) killedIdle] FfmpegDir.clean) = .done s' →
      FfmpegStage.ffmpegSource.Completed sampleFfmpegEnv s' ∧
      ∀ r₀ s₀, Undisturbed r₀ →
        ffmpegDeps sampleFfmpegEnv r₀ FfmpegDir.clean = .done s₀ →
        s'.dependencies = s₀.dependencies := by
  have hhist : ∀ r ∈ [stopAt (.mbedtlsBuild .make) killedIdle],
      StopsIn (fun c v => ¬ FfmpegWindow sampleFfmpegEnv c v) r := by
    intro r hr
    rw [List.mem_singleton.mp hr]
    exact stopsIn_stopAt (fun h => h)
  refine ⟨by decide +kernel, ?_⟩
  exact (buildFfmpeg_guards_sound sampleFfmpegEnv _ hhist).2 (fun _ => unharmed)
    (fun _ h => absurd rfl h)

end VideoPackages
