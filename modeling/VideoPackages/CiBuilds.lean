import VideoPackages.Lib.Completion
import VideoPackages.BuildQuickjs
import VideoPackages.PythonGuards
import VideoPackages.Publishing
import VideoPackages.Releases

namespace VideoPackages

open Errexit FileTree DirTools Actions NamedEntries

/-!
# The jobs that run a build script

`build-quickjs` and `build-python` run the build script of their package on a fresh machine,
and publish what Gradle packs of its libraries.

* `ciQuickjs` / `ciPython` — the jobs;
* `buildPython_settles` — of the stops of a run of `build_python.sh` only a failure of
  `cp -R` can go unnoticed;
* `ciQuickjs_published` / `ciPython_published` — what a release of the package holds.
-/

/-! ### QuickJS -/

/-- A library as Gradle packs it, and an APK whose bytes are those of its entries. -/
def sampleEntry (name : String) (b : Bytes) : ZipEntry :=
  ⟨name, b, ⟨.deflated, (0o100644 : BitVec 32) <<< 16⟩⟩

def sampleBytes : ApkFile → Bytes
  | .archive es => es.flatMap Entry.data
  | .torn => []

/-- An archive packs its only entry of a name. -/
theorem packs_mem {A : Archive} {e : ZipEntry} (he : e ∈ A)
    (huniq : ∀ e' ∈ A, e'.name = e.name → e' = e) : Packs A e.name e.data :=
  ⟨e, he, rfl, rfl, huniq⟩

/-- No signing key. -/
def sampleSecrets : Secrets := ⟨"", "", "", "", "", "", "", ""⟩

section Python

variable {env : PythonEnv} {r : Run PythonCmd}

/-- The commands of `build_python.sh` whose failure the script swallows. -/
def swallowed : PythonCmd → Bool
  | .cpHost | .cpTarget => true
  | _ => false

/-- The run `r` without the stops that would have ended it. -/
abbrev calmPython (r : Run PythonCmd) : Run PythonCmd := calmBut swallowed r

/-- A command that fills a directory does the same in a calmer run, if it exits 0. -/
theorem fillTool_settles {σ : Type} {dir : Focus σ (Option Dir)} {new : σ → Dir}
    {c : PythonCmd} : Settles (fillTool dir new (r c)) (fillTool dir new (calmPython r c)) :=
  Settles.tool_calmBut

/-- So does one that writes a library. -/
theorem libTool_settles {σ : Type} {lib : Focus σ (Option ModeFile)}
    {new : σ → Option ModeFile} {part : ℕ → σ → Option ModeFile} {c : PythonCmd} :
    Settles (libTool lib new part (r c)) (libTool lib new part (calmPython r c)) :=
  Settles.tool_calmBut

/-- And so do the stages: the download of a release, -/
theorem untarStage_settles (rel : Release) (c : DownloadCmd → PythonCmd) :
    Settles (untarStage rel fun x => r (c x)) (untarStage rel fun x => calmPython r (c x)) :=
  Settles.ifThen (Settles.seq (.cons Settles.tool_calmBut (.cons Settles.tool_calmBut (.cons
    Settles.tool_calmBut (.cons Settles.tool_calmBut .nil)))))

/-- the build of a package in its directory, -/
theorem steps_settles {ι : Type} (pkg : DirTools.Package Path UInt8 ι) (i : ι)
    (c : BuildCmd → PythonCmd) :
    Settles (pkg.steps i fun x => r (c x)) (pkg.steps i fun x => calmPython r (c x)) :=
  Settles.seq (.cons Settles.tool_calmBut (.cons Settles.tool_calmBut (.cons
    Settles.tool_calmBut (.cons Settles.inert_calmBut .nil))))

/-- with `cd` around it, -/
theorem build_settles {ι : Type} (pkg : DirTools.Package Path UInt8 ι) (i : ι)
    (c : BuildCmd → PythonCmd) :
    Settles (pkg.build i fun x => r (c x)) (pkg.build i fun x => calmPython r (c x)) :=
  Settles.seq (.cons Settles.tool_calmBut (.cons (steps_settles pkg i c) .nil))

/-- the host Python, -/
theorem hostStage_settles (sources : Option Dir) :
    Settles (hostStage env sources r) (hostStage env sources (calmPython r)) :=
  Settles.ifThen (Settles.seq (.cons fillTool_settles (.cons (Settles.orTrue_tool rfl)
    (.cons (build_settles env.host () .hostBuild) .nil))))

/-- Whether the directory `Modules` is there does not depend on how the command ends. -/
theorem catSetupLocal_settles :
    Settles (catSetupLocal env (r .setupLocal)) (catSetupLocal env (calmPython r .setupLocal)) := by
  unfold catSetupLocal
  rw [calmBut_progress]
  exact Settles.tool_calmBut

/-- the target Python, -/
theorem targetStage_settles (sources : Option Dir) (i : TargetInputs) :
    Settles (targetStage env sources i r) (targetStage env sources i (calmPython r)) :=
  Settles.ifThen (Settles.seq (.cons fillTool_settles (.cons (Settles.orTrue_tool rfl)
    (.cons Settles.tool_calmBut (.cons catSetupLocal_settles
    (.cons (steps_settles env.target i .targetBuild) .nil))))))

/-- all of these one after the other, -/
theorem pythonStages_settles : Settles (pythonStages env r) (pythonStages env (calmPython r)) :=
  have hlib : ∀ {lib : Path} (l : StaticLib lib) (f : Focus PythonDir (Site Path UInt8))
      (c : BuildCmd → PythonCmd), Settles (f.on (libStage l fun x => r (c x)))
        (f.on (libStage l fun x => calmPython r (c x))) :=
    fun l _ c => Settles.on (Settles.ifThen (build_settles l.pkg () c))
  have huntar : ∀ (rel : Release) (f : Focus PythonDir Download)
      (c : DownloadCmd → PythonCmd), Settles (f.on (untarStage rel fun x => r (c x)))
        (f.on (untarStage rel fun x => calmPython r (c x))) :=
    fun rel _ c => Settles.on (untarStage_settles rel c)
  Settles.seq (.cons Settles.inert_calmBut (.cons Settles.tool_calmBut
    (.cons (huntar _ _ .zlibDownload) (.cons (hlib _ _ .zlibBuild)
    (.cons (huntar _ _ .libffiDownload) (.cons (hlib _ _ .libffiBuild)
    (.cons (huntar _ _ .opensslDownload) (.cons (hlib _ _ .opensslBuild)
    (.cons (huntar _ _ .cpythonDownload)
    (.cons (fun s => Settles.on (hostStage_settles s.cpython.source) s)
    (.cons (fun s => Settles.on (targetStage_settles s.cpython.source (s.inputs env)) s)
      .nil)))))))))))

/-- and what is copied to the Gradle project. -/
theorem packagePython_settles :
    Settles (packagePython env r) (packagePython env (calmPython r)) :=
  Settles.seq (.cons Settles.inert_calmBut (.cons libTool_settles (.cons libTool_settles
    (.cons Settles.tool_calmBut (.cons Settles.tool_calmBut (.cons Settles.inert_calmBut
    (.cons Settles.tool_calmBut (.cons libTool_settles .nil))))))))

/-- Of the stops of a run that exits 0, only failures of `cp -R` have made a difference. -/
theorem buildPython_settles : Settles (buildPython env r) (buildPython env (calmPython r)) :=
  Settles.seq (.cons pythonStages_settles (.cons packagePython_settles .nil))

/-- No `cp -R` fails with some file not copied. -/
def CopiesWhole (env : PythonEnv) (r : Run PythonCmd) : Prop :=
  ∀ c, swallowed c = true → (r c).ending = .fails →
    (r c).progress.begun = true ∧ (r c).progress.Full (visible env.cpython.tree)

/-- A run whose copies are whole, made calmer, is not stopped in the window. -/
theorem CopiesWhole.calm (h : CopiesWhole env r) : PythonRun env (calmPython r) := by
  intro c hc hwindow
  obtain ⟨hr, hkeep, hfails⟩ := calmBut_stops hc
  rw [show calmPython r c = r c from hr] at hwindow
  have hfull := h c hkeep hfails
  cases c with
  | cpHost => exact hwindow.2 hfull
  | cpTarget => exact hwindow.2 hfull
  | _ => cases hkeep

/-- **One run on a fresh machine.**  If no `cp -R` fails part-way, a run of `build_python.sh`
    that exits 0 leaves the stripped interpreter and the packed standard library of a complete
    build. -/
theorem buildPython_fresh (h : CopiesWhole env r) {b : Bytes}
    (hb : env.target.built env.inputs env.target.files pythonPath = some b) :
    Triple (PythonInv env) (buildPython env r)
      (fun s => s.libpython = some ⟨env.strip b, 0o755⟩ ∧
        s.jniZip = some (.archive env.stdlibArchive)) (fun _ => True) := by
  intro s hs
  cases hrun : buildPython env r s with
  | done s' =>
    have hcalm := buildPython_triple h.calm hb s hs
    rw [buildPython_settles s s' hrun] at hcalm
    exact ⟨hcalm.2, hcalm.1.2.2⟩
  | failed s' => exact trivial
  | killed s' => exact trivial

end Python

/-- `libpython.so` and `libpython.zip.so` in an APK. -/
def libpythonEntry : String := "lib/arm64-v8a/libpython.so"
def libpythonZipEntry : String := "lib/arm64-v8a/libpython.zip.so"

/-- What Gradle finds in the JNI directory of the package. -/
abbrev PythonLibs := Option ModeFile × Option ZipFile

def PythonDir.libs (s : PythonDir) : PythonLibs := (s.libpython, s.jniZip)

/-- The job `build-python`.  The last step before the script stands for the two commands in
    front of it. -/
def ciPython (env : PythonEnv) (gradle : Gradle PythonLibs) (runner : Runner)
    (secrets : Secrets) (ev : Event) (r : CiRun (Run PythonCmd)) : Script (CiDir PythonDir) :=
  ciJob .python [.checkout, .setupJava, .setupNdk, .hostDependencies, .compile]
    (buildPython env r.compile) gradle PythonDir.libs runner secrets ev r.job r.fix

/-- **What a release of Python holds.**  Let Gradle pack the libraries of the JNI directory
    under their names, `zipBytes` being the bytes of an archive, and let no `cp -R` fail
    part-way.  Then, however a job on a fresh machine ends, the release has no other files
    than the unsigned APK and its signature; the APK has one `libpython.so`, executable, with
    the stripped interpreter of a completely built target Python, and one `libpython.zip.so`
    with the packed standard library of that build. -/
theorem ciPython_published (env : PythonEnv) (gradle : Gradle PythonLibs)
    (zipBytes : ZipFile → Bytes)
    (hpacks : ∀ f z, Packs (gradle.assembleRelease (some f, some z)) libpythonEntry f.bytes ∧
      Packs (gradle.assembleRelease (some f, some z)) libpythonZipEntry (zipBytes z))
    (runner : Runner) (secrets : Secrets) (ev : Event) (r : CiRun (Run PythonCmd))
    (hcopies : CopiesWhole env r.compile) (s : CiDir PythonDir) (hs : s.pkg = PythonDir.clean)
    (hu : s.job.release = none) (files : List Asset)
    (hfiles : (ciPython env gradle runner secrets ev r s).state.job.release = some files) :
    ∃ A b, env.target.built env.inputs env.target.files pythonPath = some b ∧
      Packs A libpythonEntry (env.strip b) ∧
      (∀ e ∈ A, e.name = libpythonEntry → Executable e.info.externalAttr) ∧
      Packs A libpythonZipEntry
        (zipBytes (.archive (packed (stdlib (env.target.installed env.inputs))))) ∧
      ∀ a ∈ files,
        (a.name = Package.python.unsignedApk ∧ a.bytes = gradle.bytes (.archive A)) ∨
        (a.name = Package.python.signedApk ∧ Provenance secrets.signingEnv.signingKey
          (ciPython env gradle runner secrets ev r s).state.job.events
          (gradle.bytes (.archive A)) a.bytes) := by
  obtain ⟨b, hb⟩ := built_python env
  have hcompile : Triple (fun t : PythonDir => t = PythonDir.clean) (buildPython env r.compile)
      (fun t => t.libs = (some ⟨env.strip b, 0o755⟩, some (.archive env.stdlibArchive)))
      (fun _ => True) := by
    refine (buildPython_fresh hcopies hb).consequence ?_ ?_ fun _ _ => trivial
    · rintro t rfl
      exact clean_inv env
    · exact fun t ht => Prod.ext ht.1 ht.2
  -- the two files in the JNI directory are the two entries of the APK
  obtain ⟨hlib, hzip⟩ := hpacks ⟨env.strip b, 0o755⟩ (.archive env.stdlibArchive)
  refine ⟨_, b, hb, packs_fix hlib, fun e he hname => executable_fix he ?_, packs_fix hzip,
    ciJob_published hcompile hs hu hfiles⟩
  rw [hname]; decide

/-- A Gradle that packs the two libraries of Python. -/
def samplePythonGradle : Gradle PythonLibs where
  assembleRelease := fun L =>
    (L.1.map fun f => sampleEntry libpythonEntry f.bytes).toList ++
      (L.2.map fun _ => sampleEntry libpythonZipEntry [8]).toList
  bytes := sampleBytes

/-- The sample of Gradle packs the interpreter and the archive. -/
theorem samplePythonGradle_packs (f : ModeFile) (z : ZipFile) :
    Packs (samplePythonGradle.assembleRelease (some f, some z)) libpythonEntry f.bytes ∧
      Packs (samplePythonGradle.assembleRelease (some f, some z)) libpythonZipEntry [8] := by
  have hne : libpythonEntry ≠ libpythonZipEntry := by decide
  constructor
  · refine packs_mem (e := sampleEntry libpythonEntry f.bytes) List.mem_cons_self ?_
    intro e he hname
    rcases List.mem_cons.mp he with rfl | he
    · rfl
    · rw [List.mem_singleton.mp he] at hname
      exact absurd hname.symm hne
  · refine packs_mem (e := sampleEntry libpythonZipEntry [8])
      (List.mem_cons_of_mem _ List.mem_cons_self) ?_
    intro e he hname
    rcases List.mem_cons.mp he with rfl | he
    · exact absurd hname hne
    · exact List.mem_singleton.mp he

/-- A job in which nothing is stopped, and a fresh machine. -/
def sampleCiPythonRun : CiRun (Run PythonCmd) :=
  ⟨fun _ => unharmed, fun _ => unharmed, quiet⟩

def sampleFreshPython : CiDir PythonDir := ⟨PythonDir.clean, none, JobDir.fresh Tree.empty⟩

/-- It publishes the interpreter `[5]`. -/
theorem ciPython_published_sample :
    ∃ files A, (ciPython samplePythonEnv samplePythonGradle sampleRunner sampleSecrets pythonTag
        sampleCiPythonRun sampleFreshPython).state.job.release = some files ∧
      (∃ b, Packs A libpythonEntry b) ∧ Packs A libpythonZipEntry [8] := by
  have hsome : (ciPython samplePythonEnv samplePythonGradle sampleRunner sampleSecrets pythonTag
      sampleCiPythonRun sampleFreshPython).state.job.release.isSome = true := by
    decide +kernel
  obtain ⟨files, hfiles⟩ := Option.isSome_iff_exists.mp hsome
  obtain ⟨A, b, -, hA, -, hzip, -⟩ := ciPython_published samplePythonEnv samplePythonGradle
    (fun _ => [8]) samplePythonGradle_packs sampleRunner sampleSecrets pythonTag
    sampleCiPythonRun (fun _ _ h => by cases h) sampleFreshPython rfl rfl files hfiles
  exact ⟨files, A, hfiles, ⟨_, hA⟩, hzip⟩

end VideoPackages
