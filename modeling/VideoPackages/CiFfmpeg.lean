import VideoPackages.BuildFfmpeg
import VideoPackages.CiBuilds
import VideoPackages.Lib.Lines

namespace VideoPackages

open Errexit FileTree DirTools Actions NamedEntries

/-!
# The job that builds FFmpeg

`build-ffmpeg` does not run `build_ffmpeg.sh`: its steps repeat the commands of the script,
without the guards, on a fresh machine.

* `ciPcFile` / `ciPcFile_eq` — the pkgconfig files, from here-documents of their own that go
  through `sed`: the same files;
* `ciFfmpegDeps` / `ciFfmpegCompile` — the steps up to FFmpeg's `configure`, and from there;
* `ciFfmpegDeps_agrees` — what the job and the script give FFmpeg's `configure`;
* `ciFfmpeg_published` — what a release of the package holds.
-/

/-! ### The pkgconfig files -/

/-- `[[:space:]]`, within a line -/
def isSpaceByte (b : UInt8) : Bool :=
  decide (b = 32) || decide (b = 9) || decide (b = 11) || decide (b = 12) || decide (b = 13)

/-- `sed 's/^[[:space:]]*//'` -/
def sedTrim (text : Bytes) : Bytes :=
  Lines.unlines 10 ((Lines.lines 10 text).map fun l => l.dropWhile isSpaceByte)

/-- The lines of a here-document of the job, in the workspace `ws`. -/
def ciPcLines (ws : Bytes) (name description libs : String) : List Bytes :=
  [ascii "prefix=" ++ ws ++ ascii "/ffmpeg_package/mbedtls_install",
    ascii "exec_prefix=$\x7bprefix\x7d",
    ascii "libdir=$\x7bexec_prefix\x7d/lib",
    ascii "includedir=$\x7bprefix\x7d/include",
    [],
    ascii "Name: " ++ ascii name,
    ascii "Description: " ++ ascii description,
    ascii "Version: 3.6.0",
    ascii "Libs: -L$\x7blibdir\x7d " ++ ascii libs,
    ascii "Cflags: -I$\x7bincludedir\x7d"]

/-- `cat << 'EOF' | sed 's/^[[:space:]]*//' > FILE` -/
def ciPcFile (ws : Bytes) (name description libs : String) : Bytes :=
  sedTrim (Lines.unlines 10 (ciPcLines ws name description libs))

/-- The directory that mbedTLS is installed into. -/
def ciMbedtlsDir (ws : Bytes) : Bytes := ws ++ ascii "/ffmpeg_package/mbedtls_install"

/-- The three here-documents of the job. -/
def ciMbedtlsPcFile (ws : Bytes) : Bytes :=
  ciPcFile ws "mbedtls" "mbed TLS light-weight SSL/TLS library" "-lmbedtls -lmbedx509 -lmbedcrypto"
def ciMbedx509PcFile (ws : Bytes) : Bytes :=
  ciPcFile ws "mbedx509" "mbed TLS x509 library" "-lmbedx509"
def ciMbedcryptoPcFile (ws : Bytes) : Bytes :=
  ciPcFile ws "mbedcrypto" "mbed TLS crypto library" "-lmbedcrypto"

/-- None of the lines starts with a space, so `sed` has nothing to do. -/
theorem sedTrim_unlines {ls : List Bytes} (hls : ∀ l ∈ ls, 10 ∉ l)
    (htrim : ∀ l ∈ ls, l.dropWhile isSpaceByte = l) :
    sedTrim (Lines.unlines 10 ls) = Lines.unlines 10 ls := by
  have hmap : (ls.map fun l => l.dropWhile isSpaceByte) = ls := by
    rw [List.map_congr_left htrim, List.map_id']
  rw [sedTrim, Lines.lines_unlines hls, hmap]

/-- Texts one after the other. -/
theorem ascii_append (a b : String) : ascii (a ++ b) = ascii a ++ ascii b := by
  simp [ascii]

/-- The two here-documents are the same text. -/
theorem unlines_ciPcLines (ws : Bytes) (name description libs : String) :
    Lines.unlines 10 (ciPcLines ws name description libs) =
      pcFile (ciMbedtlsDir ws) name description libs := by
  have hhead : ascii "\nexec_prefix=$\x7bprefix\x7d\nlibdir=$\x7bexec_prefix\x7d/lib\nincludedir=$\x7bprefix\x7d/include\n\nName: "
      = ascii "\n" ++ ascii "exec_prefix=$\x7bprefix\x7d" ++ ascii "\n" ++
        ascii "libdir=$\x7bexec_prefix\x7d/lib" ++ ascii "\n" ++
        ascii "includedir=$\x7bprefix\x7d/include" ++ ascii "\n" ++ ascii "\n" ++
        ascii "Name: " := by
    simp only [← ascii_append]; rfl
  have hdescription : ascii "\nDescription: " = ascii "\n" ++ ascii "Description: " := by
    rw [← ascii_append]; rfl
  have hversion : ascii "\nVersion: 3.6.0\nLibs: -L$\x7blibdir\x7d "
      = ascii "\n" ++ ascii "Version: 3.6.0" ++ ascii "\n" ++ ascii "Libs: -L$\x7blibdir\x7d " := by
    simp only [← ascii_append]; rfl
  have hcflags : ascii "\nCflags: -I$\x7bincludedir\x7d\n"
      = ascii "\n" ++ ascii "Cflags: -I$\x7bincludedir\x7d" ++ ascii "\n" := by
    simp only [← ascii_append]; rfl
  have hnewline : ascii "\n" = [10] := rfl
  rw [pcFile, hhead, hdescription, hversion, hcflags, hnewline, ciMbedtlsDir, ciPcLines]
  simp only [Lines.unlines_cons, Lines.unlines_nil, List.append_assoc, List.nil_append,
    List.append_nil]

/-- **The pkgconfig files of the job are those of the script**, for its directory of
    mbedTLS. -/
theorem ciPcFile_eq {ws : Bytes} (hws : 10 ∉ ws) {name description libs : String}
    (htexts : 10 ∉ ascii name ∧ 10 ∉ ascii description ∧ 10 ∉ ascii libs) :
    ciPcFile ws name description libs = pcFile (ciMbedtlsDir ws) name description libs := by
  rw [ciPcFile, sedTrim_unlines ?_ ?_, unlines_ciPcLines]
  · obtain ⟨hname, hdescription, hlibs⟩ := htexts
    simp only [ciPcLines, List.forall_mem_cons, List.mem_append, not_or]
    refine ⟨⟨⟨by decide, hws⟩, by decide⟩, by decide, by decide, by decide, by decide,
      ⟨by decide, hname⟩, ⟨by decide, hdescription⟩, by decide, ⟨by decide, hlibs⟩, by decide, ?_⟩
    exact fun l hl => absurd hl List.not_mem_nil
  · simp only [ciPcLines, List.forall_mem_cons]
    refine ⟨rfl, rfl, rfl, rfl, rfl, rfl, rfl, rfl, rfl, rfl, ?_⟩
    exact fun l hl => absurd hl List.not_mem_nil

/-! ### The steps of the job -/

/-- The commands of the job that touch the package directory. -/
inductive CiFfmpegCmd where
  | mbedtlsClone (c : CloneCmd) | mbedtlsMkdir | mbedtlsBuild (c : BuildCmd)
  | x264Clone | x264Build (c : BuildCmd)
  | lameDownload (c : DownloadCmd) | lameBuild (c : BuildCmd)
  | ffmpegClone
  | cdSource | mkdirPkgconfig | pcMbedtls | pcMbedx509 | pcMbedcrypto
  | configure | make | checkBinary | strip
  | mkdirJni | cpBinary
  deriving DecidableEq, Repr

section Steps

variable (env : FfmpegEnv) (ws : Bytes) (r : Run CiFfmpegCmd)

/-- `Compile static mbedTLS`.  The step ends inside the directory, and the `mkdir` without
    `-p` is the first to make it; the command behind `make install` is the end of the step. -/
def ciMbedtls : Script (Site Path UInt8) :=
  seq [gitClone Site.sourceDir env.mbedtlsRepo (r (.mbedtlsClone .clone)),
    cd (r (.mbedtlsClone .cd)) Site.source,
    fillTool Site.sourceDir (fun _ => env.mbedtlsSubmodules) (r (.mbedtlsClone .submodule)),
    mkdirTool Site.sourceDir (r .mbedtlsMkdir),
    env.mbedtls.build () (fun c => r (.mbedtlsBuild c))]

/-- `Compile static libx264` -/
def ciX264 : Script (Site Path UInt8) :=
  seq [gitClone Site.sourceDir env.x264.release (r .x264Clone),
    env.x264.build () (fun c => r (.x264Build c))]

/-- `Compile static libmp3lame`: the download, and the patch. -/
def ciLameSource : Script Download :=
  seq [wget env.lameRel (r (.lameDownload .wget)),
    untarLame env.lameRel (r (.lameDownload .tar)),
    cd (r (.lameDownload .cd)) Download.source,
    sedLame (r (.lameDownload .sed))]

/-- `Compile static libmp3lame` -/
def ciLame : Script FfmpegDir :=
  seq [FfmpegDir.lameDownload.on (ciLameSource env r),
    FfmpegDir.lameSite.on (env.lame.steps () fun c => r (.lameBuild c))]

/-- The pkgconfig files of the job. -/
def ciPkgconfigFiles : Script FfmpegDir :=
  seq [mkdirTool FfmpegDir.pkgconfigDir (r .mkdirPkgconfig),
    writeTool FfmpegDir.pkgconfigDir mbedtlsPc (fun _ => some (ciMbedtlsPcFile ws)) (r .pcMbedtls),
    writeTool FfmpegDir.pkgconfigDir mbedx509Pc (fun _ => some (ciMbedx509PcFile ws))
      (r .pcMbedx509),
    writeTool FfmpegDir.pkgconfigDir mbedcryptoPc (fun _ => some (ciMbedcryptoPcFile ws))
      (r .pcMbedcrypto)]

/-- `Compile Standalone FFmpeg Binary`, up to `configure`. -/
def ciFfmpegSetup : Script FfmpegDir :=
  seq [cd (r .cdSource) FfmpegDir.ffmpegSource, ciPkgconfigFiles ws r]

/-- `Compile Standalone FFmpeg Binary`, from `configure` on.  The binary is tested for before
    it is stripped. -/
def ciFfmpegCompile : Script FfmpegDir :=
  seq [fillTool FfmpegDir.ffmpegDir (fun s => env.ffmpegConfigure s.deps (ffmpegFound env s))
      (r .configure),
    fillTool FfmpegDir.ffmpegDir (fun s => env.ffmpegMake s.deps (ffmpegFound env s)) (r .make),
    cd (r .checkBinary) (fun s => s.ffmpegSource.bind (· ffmpegPath)),
    writeTool FfmpegDir.ffmpegDir ffmpegPath
      (fun s => (s.ffmpegSource.bind (· ffmpegPath)).map env.strip) (r .strip)]

/-- `mkdir -p app/src/main/jniLibs/arm64-v8a`, and `cp ffmpeg-source/ffmpeg …/libffmpeg.so`. -/
def ciPlaceBinary : Script FfmpegDir :=
  seq [inert (r .mkdirJni),
    cpLib FfmpegDir.lib (fun s => s.ffmpegSource.bind (· ffmpegPath)) env.newMode (r .cpBinary)]

end Steps

/-! ### The dependencies -/

section Deps

variable {env : FfmpegEnv} {ws : Bytes} {r : Run CiFfmpegCmd}

/-- Installing into a directory that is not there makes one with the installed files. -/
theorem done_eq (pkg : DirTools.Package Path UInt8 Unit) :
    (⟨some (pkg.built () pkg.release), fill (pkg.installed ()) none⟩ : Site Path UInt8)
      = Done pkg := by
  show (⟨_, some (Tree.empty.overlay (pkg.installed ()))⟩ : Site Path UInt8) = _
  rw [Tree.empty_overlay]; rfl

/-- A build in a directory that has just been made. -/
theorem freshBuild_triple {pkg : DirTools.Package Path UInt8 Unit} {rb : Run BuildCmd} :
    Triple (fun s => s = ⟨some pkg.release, none⟩) (pkg.build () rb) (fun s => s = Done pkg)
      (fun _ => True) :=
  (Package.build_triple (i := ()) (d := none) (Package.release_extends ())).consequence
    (fun _ hs => ⟨_, hs, Tree.Over.refl _ _, trivial⟩) (fun _ hs => hs.trans (done_eq pkg))
    (fun _ _ => trivial)

/-- A clone into a directory that is not there. -/
theorem freshClone_triple {repo : Dir} {v : CmdVerdict} :
    Triple (fun s => s = ⟨none, none⟩) (gitClone Site.sourceDir repo v)
      (fun s => s = ⟨some repo, none⟩) (fun _ => True) := by
  refine fillTool_triple (fun s hs => ?_) (fun _ _ _ => trivial)
  rw [hs]
  show (⟨some (Tree.empty.overlay repo), none⟩ : Site Path UInt8) = _
  rw [Tree.empty_overlay]

/-- mbedTLS, from nothing. -/
theorem ciMbedtls_triple :
    Triple (fun s => s = ⟨none, none⟩) (ciMbedtls env r) (fun s => s = Done env.mbedtls)
      (fun _ => True) := by
  have hsubmodules : Triple (fun s => s = ⟨some env.mbedtlsRepo, none⟩)
      (fillTool Site.sourceDir (fun _ => env.mbedtlsSubmodules) (r (.mbedtlsClone .submodule)))
      (fun s => s = ⟨some env.mbedtls.release, none⟩) (fun _ => True) := by
    refine fillTool_triple (fun s hs => ?_) (fun _ _ _ => trivial)
    rw [hs, env.mbedtls_release]; rfl
  have hmkdir : Triple (fun s => s = ⟨some env.mbedtls.release, none⟩)
      (mkdirTool Site.sourceDir (r .mbedtlsMkdir))
      (fun s => s = ⟨some env.mbedtls.release, none⟩) (fun _ => True) := by
    refine fillTool_triple (fun s hs => ?_) (fun _ _ _ => trivial)
    rw [hs]
    show (⟨some (env.mbedtls.release.overlay Tree.empty), none⟩ : Site Path UInt8) = _
    rw [Tree.overlay_empty]
  exact Triple.cons freshClone_triple (Triple.cons
    (cd_triple (fun _ hs _ => hs) fun _ _ => trivial) (Triple.cons hsubmodules (Triple.cons hmkdir
    (Triple.cons freshBuild_triple (Triple.nil fun _ hs => hs)))))

/-- x264, from nothing. -/
theorem ciX264_triple :
    Triple (fun s => s = ⟨none, none⟩) (ciX264 env r) (fun s => s = Done env.x264)
      (fun _ => True) :=
  Triple.cons freshClone_triple (Triple.cons freshBuild_triple (Triple.nil fun _ hs => hs))

/-- LAME, unpacked and patched. -/
theorem ciLameSource_triple :
    Triple (fun s => s = ⟨none, [], none, none⟩) (ciLameSource env r)
      (fun s => s.source = some env.lame.release) (fun _ => True) := by
  have hwget : Triple (fun s => s = ⟨none, [], none, none⟩)
      (wget env.lameRel (r (.lameDownload .wget)))
      (fun s => s = ⟨some env.lameRel.archive, [], none, none⟩) (fun _ => True) := by
    refine Triple.tool (fun s s' hs he => ?_) (fun _ _ _ => trivial)
    cases he; rw [hs]; rfl
  -- the directory is empty, so what is there after `tar` is the release
  have huntar : Triple (fun s => s = ⟨some env.lameRel.archive, [], none, none⟩)
      (untarLame env.lameRel (r (.lameDownload .tar)))
      (fun s => s.source = some env.lameRel.tree) (fun _ => True) := by
    refine Triple.tool (fun s s' hs he => ?_) (fun _ _ _ => trivial)
    rw [hs, if_pos rfl] at he
    cases he
    show some (Tree.empty.overlay env.lameRel.tree) = _
    rw [Tree.empty_overlay]
  have hsed : Triple (fun s : Download => s.source = some env.lameRel.tree)
      (sedLame (r (.lameDownload .sed))) (fun s => s.source = some env.lame.release)
      (fun _ => True) := by
    refine Triple.tool (fun s s' hs he => ?_) (fun _ _ _ => trivial)
    rw [hs, Option.map_some] at he
    cases he
    rw [env.lame_release]; rfl
  -- `wget`, `tar`, `cd`, `sed`
  exact Triple.cons hwget (Triple.cons huntar (Triple.cons
    (cd_triple (fun _ hs _ => hs) fun _ _ => trivial) (Triple.cons hsed
    (Triple.nil fun _ hs => hs))))

/-- What a step leaves alone of a fresh package directory. -/
theorem on_fresh {τ : Type} {f : Focus FfmpegDir τ} {a : Script τ} {I J : FfmpegDir → Prop}
    {P Q : τ → Prop} (h : Triple P a Q (fun _ => True)) (hP : ∀ s, I s → P (f.get s))
    (hQ : ∀ s t, I s → Q t → J (f.set t s)) : Triple I (f.on a) J (fun _ => True) :=
  Triple.on f (fun _ _ => h) hP hQ fun _ _ _ _ => trivial

/-- The package directory after the first step, and after the second. -/
def mbedtlsBuilt (env : FfmpegEnv) : FfmpegDir :=
  { FfmpegDir.clean with mbedtls := Done env.mbedtls }
def x264Built (env : FfmpegEnv) : FfmpegDir := { mbedtlsBuilt env with x264 := Done env.x264 }

/-- What the first three steps leave. -/
structure CiLibs (env : FfmpegEnv) (s : FfmpegDir) : Prop where
  mbedtls : s.mbedtls = Done env.mbedtls
  x264 : s.x264 = Done env.x264
  lame : (⟨s.lame.source, s.lameInstall⟩ : Site Path UInt8) = Done env.lame
  pkgconfig : s.pkgconfig = none
  binary : s.libffmpeg = none

/-- The step that builds mbedTLS. -/
theorem mbedtlsStep_triple :
    Triple (fun s => s = FfmpegDir.clean) (FfmpegDir.mbedtlsSite.on (ciMbedtls env r))
      (fun s => s = mbedtlsBuilt env) (fun _ => True) :=
  on_fresh ciMbedtls_triple (fun s hs => by rw [hs]; rfl) (fun s t hs ht => by rw [hs, ht]; rfl)

/-- The step that builds x264. -/
theorem x264Step_triple :
    Triple (fun s => s = mbedtlsBuilt env) (FfmpegDir.x264Site.on (ciX264 env r))
      (fun s => s = x264Built env) (fun _ => True) :=
  on_fresh ciX264_triple (fun s hs => by rw [hs]; rfl) (fun s t hs ht => by rw [hs, ht]; rfl)

/-- The step that builds LAME. -/
theorem lameStep_triple :
    Triple (fun s => s = x264Built env) (ciLame env r)
      (fun s => CiLibs env s ∧ s.ffmpegSource = none) (fun _ => True) := by
  have hsource : Triple (fun s => s = x264Built env)
      (FfmpegDir.lameDownload.on (ciLameSource env r))
      (fun s => ∃ d, s = { x264Built env with lame := d } ∧ d.source = some env.lame.release)
      (fun _ => True) :=
    on_fresh ciLameSource_triple (fun s hs => by rw [hs]; rfl)
      (fun s d hs hd => ⟨d, by rw [hs]; rfl, hd⟩)
  -- nothing has been built there before, and nothing is installed
  have hsteps : Triple (fun s => s = ⟨some env.lame.release, none⟩)
      (env.lame.steps () fun c => r (.lameBuild c)) (fun s => s = Done env.lame)
      (fun _ => True) := by
    have h := Package.steps_triple (i := ()) (d := none) (K := fun _ => True)
      (u := env.lame.release) (r := fun c => r (.lameBuild c)) (Package.release_extends ())
      (fun _ _ _ => trivial) (fun _ _ _ _ => trivial)
    exact h.consequence (fun s hs => ⟨_, hs, Tree.Over.refl _ _, trivial⟩)
      (fun s hs => hs.trans (done_eq env.lame)) (fun _ _ => trivial)
  have hbuild : Triple
      (fun s => ∃ d, s = { x264Built env with lame := d } ∧ d.source = some env.lame.release)
      (FfmpegDir.lameSite.on (env.lame.steps () fun c => r (.lameBuild c)))
      (fun s => CiLibs env s ∧ s.ffmpegSource = none) (fun _ => True) := by
    refine on_fresh hsteps ?_ ?_
    · rintro s ⟨d, rfl, hd⟩
      show (⟨d.source, none⟩ : Site Path UInt8) = _
      rw [hd]
    · rintro s t ⟨d, rfl, -⟩ rfl
      exact ⟨⟨rfl, rfl, rfl, rfl, rfl⟩, rfl⟩
  exact Triple.cons hsource (Triple.cons hbuild (Triple.nil fun _ hs => hs))

/-- Everything is there but the pkgconfig files. -/
def CiSources (env : FfmpegEnv) (s : FfmpegDir) : Prop :=
  CiLibs env s ∧ s.ffmpegSource = some env.ffmpegRepo

/-- The step that clones FFmpeg. -/
theorem cloneStep_triple {v : CmdVerdict} :
    Triple (fun s => CiLibs env s ∧ s.ffmpegSource = none)
      (gitClone FfmpegDir.ffmpegDir env.ffmpegRepo v) (CiSources env) (fun _ => True) := by
  refine fillTool_triple (fun s hs => ⟨{ hs.1 with }, ?_⟩) (fun _ _ _ => trivial)
  show some ((s.ffmpegSource.getD Tree.empty).overlay env.ffmpegRepo) = _
  rw [hs.2]
  exact congrArg some (Tree.empty_overlay _)

/-- What `configure` finds: the dependencies, the sources of FFmpeg, and no binary yet. -/
structure CiReady (env : FfmpegEnv) (s : FfmpegDir) : Prop where
  dependencies : s.dependencies =
    ⟨Done env.mbedtls, Done env.x264, Done env.lame, some (pcFiles env)⟩
  source : s.ffmpegSource = some env.ffmpegRepo
  binary : s.libffmpeg = none

/-- The three files, where the job and the script name one directory. -/
theorem ciPcFiles_eq (hdir : env.mbedtlsDir = ciMbedtlsDir ws) (hws : 10 ∉ ws) :
    ((Tree.empty.write mbedtlsPc (ciMbedtlsPcFile ws)).write mbedx509Pc
      (ciMbedx509PcFile ws)).write mbedcryptoPc (ciMbedcryptoPcFile ws) = pcFiles env := by
  rw [pcFiles, hdir, ciMbedtlsPcFile, ciMbedx509PcFile, ciMbedcryptoPcFile,
    ciPcFile_eq hws (by decide), ciPcFile_eq hws (by decide), ciPcFile_eq hws (by decide)]
  rfl

/-- The step that writes the pkgconfig files, in the directory of the workspace. -/
theorem ciFfmpegSetup_triple (hdir : env.mbedtlsDir = ciMbedtlsDir ws) (hws : 10 ∉ ws) :
    Triple (CiSources env) (ciFfmpegSetup ws r) (CiReady env) (fun _ => True) := by
  -- the three files, one after the other, and nothing else
  have hwrite : ∀ (p : Path) (b : Bytes) (v : CmdVerdict) (u : Dir),
      Triple (fun s => ∃ s₀, CiSources env s₀ ∧ s = { s₀ with pkgconfig := some u })
        (writeTool FfmpegDir.pkgconfigDir p (fun _ => some b) v)
        (fun s => ∃ s₀, CiSources env s₀ ∧ s = { s₀ with pkgconfig := some (u.write p b) })
        (fun _ => True) := by
    intro p b v u
    refine writeTool_triple ?_ (fun _ _ => trivial) (fun _ _ _ _ _ => trivial)
    rintro s t b' ⟨s₀, hs₀, rfl⟩ ht hb
    cases ht; cases hb
    exact ⟨s₀, hs₀, rfl⟩
  have hmkdir : Triple (CiSources env) (mkdirTool FfmpegDir.pkgconfigDir (r .mkdirPkgconfig))
      (fun s => ∃ s₀, CiSources env s₀ ∧ s = { s₀ with pkgconfig := some Tree.empty })
      (fun _ => True) := by
    refine fillTool_triple (fun s hs => ⟨s, hs, ?_⟩) (fun _ _ _ => trivial)
    show { s with pkgconfig := some ((s.pkgconfig.getD Tree.empty).overlay Tree.empty) } = _
    rw [hs.1.pkgconfig]; rfl
  have hfiles : Triple (CiSources env) (ciPkgconfigFiles ws r) (CiReady env) (fun _ => True) := by
    refine Triple.cons hmkdir (Triple.cons (hwrite mbedtlsPc (ciMbedtlsPcFile ws) _ _)
      (Triple.cons (hwrite mbedx509Pc (ciMbedx509PcFile ws) _ _)
      (Triple.cons (hwrite mbedcryptoPc (ciMbedcryptoPcFile ws) _ _) (Triple.nil ?_))))
    rintro s ⟨s₀, ⟨hlibs, hsource⟩, rfl⟩
    refine ⟨?_, hsource, hlibs.binary⟩
    show (⟨s₀.mbedtls, s₀.x264, ⟨s₀.lame.source, s₀.lameInstall⟩, some _⟩ : Dependencies) = _
    rw [hlibs.mbedtls, hlibs.x264, hlibs.lame, ciPcFiles_eq hdir hws]
  exact Triple.cons (cd_triple (fun _ hs _ => hs) fun _ _ => trivial) (Triple.cons hfiles
    (Triple.nil fun _ hs => hs))

end Deps

/-- What `configure` and `make` of FFmpeg read besides the sources. -/
def builtDeps (env : FfmpegEnv) : FfmpegDeps :=
  ⟨(Done env.mbedtls).dest, (Done env.x264).dest, (Done env.lame).dest, some (pcFiles env)⟩

/-- The files that they make of the sources. -/
def ffmpegProducts (env : FfmpegEnv) : Dir :=
  (env.ffmpegConfigure (builtDeps env) env.ffmpegRepo).overlay
    (env.ffmpegMake (builtDeps env) env.ffmpegRepo)

section Binary

variable {env : FfmpegEnv} {ws : Bytes} {r : Run CiFfmpegCmd}

/-- What `configure` reads then are the libraries that have been built. -/
theorem CiReady.deps {s : FfmpegDir} (h : CiReady env s) : s.deps = builtDeps env := by
  have hd := h.dependencies
  show (⟨s.mbedtls.dest, s.x264.dest, s.lameInstall, s.pkgconfig⟩ : FfmpegDeps) = _
  rw [show s.mbedtls = Done env.mbedtls from congrArg Dependencies.mbedtls hd,
    show s.x264 = Done env.x264 from congrArg Dependencies.x264 hd,
    show s.lameInstall = (Done env.lame).dest from congrArg (fun d => d.lame.dest) hd,
    show s.pkgconfig = some (pcFiles env) from congrArg Dependencies.pkgconfig hd]
  rfl

/-- Nothing stands in the JNI directory yet, and the sources of FFmpeg are `t`. -/
def Compiling (t : Dir) (s : FfmpegDir) : Prop := s.ffmpegSource = some t ∧ s.libffmpeg = none

/-- A binary with the bytes `b` stands among the sources, and nothing in the JNI directory. -/
def Compiled (b : Bytes) (s : FfmpegDir) : Prop :=
  s.ffmpegSource.bind (· ffmpegPath) = some b ∧ s.libffmpeg = none

/-- **From `configure` on.**  The binary of the job is made of the sources of FFmpeg and of the
    dependencies, and of nothing else. -/
theorem ciFfmpegCompile_triple :
    Triple (CiReady env) (ciFfmpegCompile env r)
      (fun s => ∃ b, ffmpegProducts env ffmpegPath = some b ∧ Compiled (env.strip b) s)
      (fun _ => True) := by
  let conf := env.ffmpegConfigure (builtDeps env) env.ffmpegRepo
  have hconfigure : Triple (CiReady env)
      (fillTool FfmpegDir.ffmpegDir (fun s => env.ffmpegConfigure s.deps (ffmpegFound env s))
        (r .configure))
      (fun s => Compiling (env.ffmpegRepo.overlay conf) s ∧ s.deps = builtDeps env)
      (fun _ => True) := by
    refine fillTool_triple (fun s hs => ⟨⟨?_, hs.binary⟩, hs.deps⟩) (fun _ _ _ => trivial)
    show some ((s.ffmpegSource.getD Tree.empty).overlay
      (env.ffmpegConfigure s.deps (ffmpegFound env s))) = _
    rw [ffmpegFound, hs.source, hs.deps]
    show some (env.ffmpegRepo.overlay (env.ffmpegConfigure _ (env.ffmpegRepo.restrict _))) = _
    rw [(Tree.Extends.refl env.ffmpegRepo).restrict_eq]
  have hmake : Triple
      (fun s => Compiling (env.ffmpegRepo.overlay conf) s ∧ s.deps = builtDeps env)
      (fillTool FfmpegDir.ffmpegDir (fun s => env.ffmpegMake s.deps (ffmpegFound env s)) (r .make))
      (Compiling (env.ffmpegRepo.overlay (ffmpegProducts env))) (fun _ => True) := by
    refine fillTool_triple (fun s hs => ⟨?_, hs.1.2⟩) (fun _ _ _ => trivial)
    show some ((s.ffmpegSource.getD Tree.empty).overlay
      (env.ffmpegMake s.deps (ffmpegFound env s))) = _
    -- `make` finds the clone among the products of `configure`
    have hfound : (env.ffmpegRepo.overlay conf).restrict env.ffmpegRepo = env.ffmpegRepo :=
      ((Tree.Extends.refl _).overlay (env.configure_apart _)).restrict_eq
    rw [ffmpegFound, hs.1.1, hs.2]
    show some ((env.ffmpegRepo.overlay conf).overlay
      (env.ffmpegMake _ ((env.ffmpegRepo.overlay conf).restrict _))) = _
    rw [hfound, Tree.overlay_assoc]; rfl
  have hcheck : Triple (Compiling (env.ffmpegRepo.overlay (ffmpegProducts env)))
      (cd (r .checkBinary) (fun s : FfmpegDir => s.ffmpegSource.bind (· ffmpegPath)))
      (fun s => ∃ b, ffmpegProducts env ffmpegPath = some b ∧ Compiled b s)
      (fun _ => True) := by
    refine cd_triple (fun s hs hsome => ?_) fun _ _ => trivial
    obtain ⟨b, hb⟩ := Option.isSome_iff_exists.mp hsome
    refine ⟨b, ?_, hb, hs.2⟩
    rw [hs.1, Option.bind_some, Tree.overlay_apply, env.ffmpeg_fresh, Option.or_none] at hb
    exact hb
  have hstrip : Triple (fun s => ∃ b, ffmpegProducts env ffmpegPath = some b ∧ Compiled b s)
      (writeTool FfmpegDir.ffmpegDir ffmpegPath
        (fun s => (s.ffmpegSource.bind (· ffmpegPath)).map env.strip) (r .strip))
      (fun s => ∃ b, ffmpegProducts env ffmpegPath = some b ∧ Compiled (env.strip b) s)
      (fun _ => True) := by
    refine writeTool_triple ?_ (fun _ _ => trivial) (fun _ _ _ _ _ => trivial)
    rintro s t b' ⟨b, hproducts, hb, hlib⟩ ht hb'
    rw [hb] at hb'
    cases hb'
    exact ⟨b, hproducts, Tree.write_self _ _ _, hlib⟩
  exact Triple.cons hconfigure (Triple.cons hmake (Triple.cons hcheck (Triple.cons hstrip
    (Triple.nil fun _ hs => hs))))

/-- The step that copies the binary. -/
theorem ciPlaceBinary_triple {b : Bytes} :
    Triple (Compiled b) (ciPlaceBinary env r) (fun s => s.libffmpeg = some ⟨b, env.newMode⟩)
      (fun _ => True) := by
  have hcp : Triple (Compiled b)
      (cpLib FfmpegDir.lib (fun s => s.ffmpegSource.bind (· ffmpegPath)) env.newMode
        (r .cpBinary)) (fun s => s.libffmpeg = some ⟨b, env.newMode⟩) (fun _ => True) := by
    refine (libTool_triple (F := fun _ => True) (G := Compiled b) (H := (· = ⟨b, env.newMode⟩))
      (fun _ _ _ => trivial) fun s f hs hf => ?_).consequence (fun _ hs => ⟨trivial, hs⟩) ?_
      fun _ _ => trivial
    · have hmode : keptMode FfmpegDir.lib env.newMode s = env.newMode := by
        rw [keptMode, show FfmpegDir.lib.get s = none from hs.2]; rfl
      obtain ⟨b', hb', rfl⟩ := Option.map_eq_some_iff.mp hf
      rw [hmode, Option.some.inj (hb'.symm.trans hs.1)]
    · rintro s ⟨-, f, hf, rfl⟩
      exact hf
  exact Triple.cons (Triple.inert (fun _ hs => hs) fun _ _ => trivial) (Triple.cons hcp
    (Triple.nil fun _ hs => hs))

end Binary

/-! ### The job -/

/-- `libffmpeg.so` in an APK. -/
def libffmpegEntry : String := "lib/arm64-v8a/libffmpeg.so"

/-- The job `build-ffmpeg`. -/
def ciFfmpeg (env : FfmpegEnv) (ws : Bytes) (gradle : Gradle (Option ModeFile))
    (runner : Runner) (secrets : Secrets) (ev : Event) (r : CiRun (Run CiFfmpegCmd)) :
    Script (CiDir FfmpegDir) :=
  job ([SetupStep.checkout, .setupJava, .setupNdk].map
      (fun st => .always (inert (r.job (.setup st)))) ++
    .always (CiDir.pkgDir.on (FfmpegDir.mbedtlsSite.on (ciMbedtls env r.compile))) ::
    .always (CiDir.pkgDir.on (FfmpegDir.x264Site.on (ciX264 env r.compile))) ::
    .always (CiDir.pkgDir.on (ciLame env r.compile)) ::
    .always (CiDir.pkgDir.on (gitClone FfmpegDir.ffmpegDir env.ffmpegRepo
      (r.compile .ffmpegClone))) ::
    .always (CiDir.pkgDir.on (seq [ciFfmpegSetup ws r.compile, ciFfmpegCompile env r.compile])) ::
    .onFailure (fun _ => true) (inert (r.job (.setup .printLog))) ::
    publishSteps runner secrets ev .ffmpeg
      (seq [CiDir.pkgDir.on (ciPlaceBinary env r.compile),
        packageSteps gradle FfmpegDir.libffmpeg .ffmpeg r.job r.fix]) r.job)

/-- A step on the package directory releases nothing. -/
theorem pkgStep_triple {σ : Type} {I J : σ → Prop} {a : Script σ} {R : CiDir σ → Prop}
    (hR : ∀ s : CiDir σ, Unreleased s.job → R s) (h : Triple I a J (fun _ => True)) :
    Triple (fun s : CiDir σ => I s.pkg ∧ Unreleased s.job) (CiDir.pkgDir.on a)
      (fun s => J s.pkg ∧ Unreleased s.job) R :=
  Triple.on CiDir.pkgDir (fun _ _ => h) (fun _ hs => hs.1) (fun _ _ hs ht => ⟨ht, hs.2⟩)
    (fun _ _ hs _ => hR _ hs.2)

section Job

variable {env : FfmpegEnv} {ws : Bytes} {gradle : Gradle (Option ModeFile)} {runner : Runner}
  {secrets : Secrets} {ev : Event} {r : CiRun (Run CiFfmpegCmd)}

/-- Whatever is released is made of the binary of this job. -/
def FfmpegPublished (env : FfmpegEnv) (gradle : Gradle (Option ModeFile)) (key : String)
    (s : CiDir FfmpegDir) : Prop :=
  s.job.release ≠ none → ∃ b, ffmpegProducts env ffmpegPath = some b ∧
    PublishedFrom key .ffmpeg (unsignedOf gradle (some ⟨env.strip b, env.newMode⟩)) s.job

/-- From the binary on. -/
theorem ffmpegPublish_triple {b : Bytes} (hb : ffmpegProducts env ffmpegPath = some b) :
    Triple (fun s : CiDir FfmpegDir => Compiled (env.strip b) s.pkg ∧ Unreleased s.job)
      (job (publishSteps runner secrets ev .ffmpeg
        (seq [CiDir.pkgDir.on (ciPlaceBinary env r.compile),
          packageSteps gradle FfmpegDir.libffmpeg .ffmpeg r.job r.fix]) r.job))
      (FfmpegPublished env gradle secrets.signingEnv.signingKey)
      (FfmpegPublished env gradle secrets.signingEnv.signingKey) :=
  (publishSteps_triple (Triple.cons (pkgStep_triple (fun _ hs => hs) ciPlaceBinary_triple)
    (Triple.cons packageSteps_triple (Triple.nil fun _ hs => hs)))).weaken
    (fun _ hs _ => ⟨b, hb, hs.1⟩) (fun _ hs _ => ⟨b, hb, hs⟩)

/-- The whole job: what it has published, however it ends. -/
theorem ciFfmpeg_triple (hdir : env.mbedtlsDir = ciMbedtlsDir ws) (hws : 10 ∉ ws) :
    Triple (fun s => s.pkg = FfmpegDir.clean ∧ Unreleased s.job)
      (ciFfmpeg env ws gradle runner secrets ev r)
      (FfmpegPublished env gradle secrets.signingEnv.signingKey)
      (FfmpegPublished env gradle secrets.signingEnv.signingKey) := by
  have hU : ∀ s : CiDir FfmpegDir, Unreleased s.job →
      FfmpegPublished env gradle secrets.signingEnv.signingKey s := fun s hs h => absurd hs h
  -- the configure log is printed on failure only, and touches nothing
  have hlog : Triple (FfmpegPublished env gradle secrets.signingEnv.signingKey)
      (ifThen (fun _ => true) (inert (r.job (.setup .printLog))))
      (FfmpegPublished env gradle secrets.signingEnv.signingKey)
      (FfmpegPublished env gradle secrets.signingEnv.signingKey) :=
    fun s hs => Triple.inert (fun _ h => h) (fun _ h => h) s hs
  have hpublish : Triple (fun s : CiDir FfmpegDir => (∃ b, ffmpegProducts env ffmpegPath = some b ∧
      Compiled (env.strip b) s.pkg) ∧ Unreleased s.job)
      (job (publishSteps runner secrets ev .ffmpeg
        (seq [CiDir.pkgDir.on (ciPlaceBinary env r.compile),
          packageSteps gradle FfmpegDir.libffmpeg .ffmpeg r.job r.fix]) r.job))
      (FfmpegPublished env gradle secrets.signingEnv.signingKey)
      (FfmpegPublished env gradle secrets.signingEnv.signingKey) := by
    rintro s ⟨⟨b, hb, hs⟩, hu⟩
    exact ffmpegPublish_triple hb s ⟨hs, hu⟩
  have hcompile : Triple (CiSources env)
      (seq [ciFfmpegSetup ws r.compile, ciFfmpegCompile env r.compile])
      (fun s => ∃ b, ffmpegProducts env ffmpegPath = some b ∧ Compiled (env.strip b) s)
      (fun _ => True) :=
    Triple.cons (ciFfmpegSetup_triple hdir hws) (Triple.cons ciFfmpegCompile_triple
      (Triple.nil fun _ hs => hs))
  refine Triple.job_append (before_triple (fun s hs => hU s hs.2) _) ?_
    (Triple.job_always (pkgStep_triple hU mbedtlsStep_triple) ?_
    (Triple.job_always (pkgStep_triple hU x264Step_triple) ?_
    (Triple.job_always (pkgStep_triple hU lameStep_triple) ?_
    (Triple.job_always (pkgStep_triple hU cloneStep_triple) ?_
    (Triple.job_always (pkgStep_triple hU hcompile) ?_ (Triple.job_failure hpublish))))))
  all_goals simpa [publishSteps] using hlog

end Job

/-- **What a release of FFmpeg holds.**  Let Gradle pack the library of the JNI directory
    under its name.  Then, however a job on a fresh machine ends, the release has no other
    files than the unsigned APK and its signature; the APK has one `libffmpeg.so`, executable,
    and its bytes are the stripped binary that `configure` and `make` make of the clone of
    FFmpeg, the three installed libraries, and the pkgconfig files of the script. -/
theorem ciFfmpeg_published (env : FfmpegEnv) (ws : Bytes)
    (hdir : env.mbedtlsDir = ciMbedtlsDir ws) (hws : 10 ∉ ws)
    (gradle : Gradle (Option ModeFile))
    (hpacks : ∀ f, Packs (gradle.assembleRelease (some f)) libffmpegEntry f.bytes)
    (runner : Runner) (secrets : Secrets) (ev : Event) (r : CiRun (Run CiFfmpegCmd))
    (s : CiDir FfmpegDir) (hs : s.pkg = FfmpegDir.clean) (hu : s.job.release = none)
    (files : List Asset)
    (hfiles : (ciFfmpeg env ws gradle runner secrets ev r s).state.job.release = some files) :
    ∃ A b, ffmpegProducts env ffmpegPath = some b ∧
      Packs A libffmpegEntry (env.strip b) ∧
      (∀ e ∈ A, e.name = libffmpegEntry → Executable e.info.externalAttr) ∧
      ∀ a ∈ files,
        (a.name = Package.ffmpeg.unsignedApk ∧ a.bytes = gradle.bytes (.archive A)) ∨
        (a.name = Package.ffmpeg.signedApk ∧ Provenance secrets.signingEnv.signingKey
          (ciFfmpeg env ws gradle runner secrets ev r s).state.job.events
          (gradle.bytes (.archive A)) a.bytes) := by
  have htriple : Triple _ (ciFfmpeg env ws gradle runner secrets ev r)
      (FfmpegPublished env gradle secrets.signingEnv.signingKey) _ := ciFfmpeg_triple hdir hws
  -- whatever stopped the job, the state it has left is one of the two
  have hjob := (htriple s ⟨hs, hu⟩).state
  obtain ⟨b, hb, hpublished⟩ := hjob (by rw [hfiles]; exact Option.some_ne_none files)
  refine ⟨_, b, hb, packs_fix (hpacks ⟨env.strip b, env.newMode⟩),
    fun e he hname => executable_fix he ?_, hpublished files hfiles⟩
  rw [hname]; decide

/-- A Gradle that packs `libffmpeg.so`. -/
def sampleFfmpegGradle : Gradle (Option ModeFile) where
  assembleRelease := fun f => (f.map fun f => sampleEntry libffmpegEntry f.bytes).toList
  bytes := sampleBytes

/-- The push of an FFmpeg tag, a job in which nothing is stopped, and a fresh machine. -/
def ffmpegTag : Event := .push "refs/tags/ffmpeg-v1" false
def sampleCiFfmpegRun : CiRun (Run CiFfmpegCmd) := ⟨fun _ => unharmed, fun _ => unharmed, quiet⟩
def sampleFreshFfmpeg : CiDir FfmpegDir := ⟨FfmpegDir.clean, none, JobDir.fresh Tree.empty⟩

/-- It publishes the binary `[4]`. -/
theorem ciFfmpeg_published_sample :
    ∃ files A b, (ciFfmpeg sampleFfmpegEnv [] sampleFfmpegGradle sampleRunner sampleSecrets
        ffmpegTag sampleCiFfmpegRun sampleFreshFfmpeg).state.job.release = some files ∧
      ffmpegProducts sampleFfmpegEnv ffmpegPath = some b ∧
      Packs A libffmpegEntry (sampleFfmpegEnv.strip b) := by
  have hsome : (ciFfmpeg sampleFfmpegEnv [] sampleFfmpegGradle sampleRunner sampleSecrets
      ffmpegTag sampleCiFfmpegRun sampleFreshFfmpeg).state.job.release.isSome = true := by
    decide +kernel
  obtain ⟨files, hfiles⟩ := Option.isSome_iff_exists.mp hsome
  obtain ⟨A, b, hb, hA, -⟩ := ciFfmpeg_published sampleFfmpegEnv [] rfl (by simp)
    sampleFfmpegGradle (fun f => packs_mem (e := sampleEntry libffmpegEntry f.bytes)
      List.mem_cons_self fun e' he' _ => List.mem_singleton.mp he')
    sampleRunner sampleSecrets ffmpegTag sampleCiFfmpegRun sampleFreshFfmpeg rfl rfl files hfiles
  exact ⟨files, A, b, hfiles, hb, hA⟩

end VideoPackages
