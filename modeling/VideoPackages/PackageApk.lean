import VideoPackages.CiFfmpeg

namespace VideoPackages

open Errexit FileTree DirTools

/-!
# `package_apk.sh`

Each package has a script that packs what `build_*.sh` has left in the JNI directory.  It
tests that the library is there, and nothing else: the two scripts share the directory, and
either may have been stopped anywhere before.

* `packageApkQuickjs` / `packageApkPython` / `packageApkFfmpeg` — the three scripts; only the
  last repairs the APK;
* `LocalRun` / `local_ready` — builds and packagings by hand, in any order;
* `packageApkQuickjs_current` — an APK is never packed from a library that is torn, or older
  than the last build that has succeeded;
* `packageApkFfmpeg_current`, `packageApkPython_current` — the same of the other two, with the
  stops of a build after which it fails.
-/

/-! ### The scripts -/

/-- The commands of the scripts; the repair has commands of its own. -/
inductive PackageCmd where
  | checkBinary | checkZip | chmod | gradlew
  deriving DecidableEq, Repr

/-- One run of `package_apk.sh`. -/
structure PackageRun where
  verdict : Run PackageCmd
  fix : Schedule FixCmd FixProgress

/-- `python_package/package_apk.sh` -/
def packageApkPython (gradle : Gradle PythonLibs) (p : PackageRun) : Script (CiDir PythonDir) :=
  seq [cd (p.verdict .checkBinary) (fun s => s.pkg.libpython),
    cd (p.verdict .checkZip) (fun s => s.pkg.jniZip),
    CiDir.pkgDir.on (chmodLib PythonDir.lib (p.verdict .chmod)),
    assembleRelease gradle PythonDir.libs (p.verdict .gradlew)]

/-- `ffmpeg_package/package_apk.sh`.  There is no `chmod`: the APK is repaired instead. -/
def packageApkFfmpeg (gradle : Gradle (Option ModeFile)) (p : PackageRun) :
    Script (CiDir FfmpegDir) :=
  seq [cd (p.verdict .checkBinary) (fun s => s.pkg.libffmpeg),
    assembleRelease gradle FfmpegDir.libffmpeg (p.verdict .gradlew),
    fixRaw p.fix]

/-! ### Runs by hand -/

/-- A run of one of the two scripts of a package. -/
inductive LocalRun (ρ : Type) where
  | build (r : ρ)
  | package (p : PackageRun)

section Local

variable {σ ρ : Type}

/-- The script that is run. -/
def localScript (build : ρ → Script σ) (package : PackageRun → Script (CiDir σ)) :
    LocalRun ρ → Script (CiDir σ)
  | .build r => CiDir.pkgDir.on (build r)
  | .package p => package p

variable {build : ρ → Script σ} {package : PackageRun → Script (CiDir σ)} {K : σ → Prop}

/-- What the runs of both scripts keep holds after all of them. -/
theorem local_ready {hist : List (LocalRun ρ)}
    (hbuild : ∀ r, .build r ∈ hist → Triple K (build r) K K)
    (hpackage : ∀ p, Triple (fun s : CiDir σ => K s.pkg) (package p) (fun s => K s.pkg)
      (fun s => K s.pkg))
    {s : CiDir σ} (hs : K s.pkg) : K (after (localScript build package) hist s).pkg := by
  refine after_invariant (I := fun s : CiDir σ => K s.pkg) (fun x hx => ?_) hs
  cases x with
  | build r =>
    exact Triple.on CiDir.pkgDir (fun _ _ => hbuild r hx) (fun _ h => h) (fun _ _ _ h => h)
      (fun _ _ _ h => h)
  | package p => exact hpackage p

/-- What a build leaves that succeeds. -/
theorem pkg_done {I J R : σ → Prop} {a : Script σ} (h : Triple I a J R) {s s' : CiDir σ}
    (hs : I s.pkg) (hdone : CiDir.pkgDir.on a s = .done s') : J s'.pkg := by
  have hon := Triple.on CiDir.pkgDir (I := fun s : CiDir σ => I s.pkg) (fun _ _ => h)
    (fun _ hs => hs) (J := fun s => J s.pkg) (K := fun s => R s.pkg) (fun _ _ _ ht => ht)
    (fun _ _ _ ht => ht) s hs
  rw [hdone] at hon
  exact hon

end Local

/-! ### The library between two runs -/

/-- What a copy of `b` under the verdict `v` can leave: `b`, or the part of it that is written
    when the copy is stopped. -/
def Copied (b : Bytes) (v : CmdVerdict) (b' : Bytes) : Prop :=
  b' = b ∨ (v.ending ≠ .exits ∧ v.progress.begun = true ∧ b' = b.take v.progress.bytes)

section Library

variable {σ : Type} (lib : Focus σ (Option ModeFile)) {v : CmdVerdict} {F : σ → Prop}
  {H : Bytes → Prop} {K : Option ModeFile → Prop}

/-- There is a library, with bytes in `H`. -/
def Holding (H : Bytes → Prop) (f : Option ModeFile) : Prop := ∃ f', f = some f' ∧ H f'.bytes

/-- A file with known bytes, in any mode. -/
theorem Holding.of_eq {b : Bytes} {f : Option ModeFile} (h : Holding (· = b) f)
    (hK : ∀ m, K (some ⟨b, m⟩)) : K f := by
  obtain ⟨⟨b', m⟩, rfl, rfl⟩ := h
  exact hK m

/-- A copy that is stopped leaves the old library, or what it has copied. -/
theorem cpLib_copies {src : σ → Option Bytes} {newMode : ℕ} {b : Bytes}
    (hF : ∀ d s, F s → F (lib.set d s))
    (hK : v.ending ≠ .exits → ∀ b' m, Copied b v b' → K (some ⟨b', m⟩)) :
    Triple (fun s => (F s ∧ src s = some b) ∧ K (lib.get s)) (cpLib lib src newMode v)
      (fun s => F s ∧ Holding (· = b) (lib.get s)) (fun s => F s ∧ K (lib.get s)) := by
  rw [cpLib, libTool]
  apply Triple.tool
  · rintro s s' ⟨⟨hs, hsrc⟩, -⟩ he
    rw [hsrc, Option.map_some, Option.map_some] at he
    cases he
    exact ⟨hF _ s hs, _, lib.get_set _ _, rfl⟩
  · rintro s ⟨⟨hs, hsrc⟩, hold⟩ hstop
    have hending : v.ending ≠ .exits := fun h => by
      have hnone := hstop h
      rw [hsrc] at hnone
      cases hnone
    show F (ite _ _ _) ∧ K (lib.get (ite _ _ _))
    by_cases hbegun : v.progress.begun = true
    · rw [if_pos hbegun, lib.get_set, hsrc, Option.getD_some]
      exact ⟨hF _ s hs, hK hending _ _ (.inr ⟨hending, hbegun, rfl⟩)⟩
    · rw [if_neg hbegun]
      exact ⟨hs, hold⟩

/-- `strip`, in place, leaves the library, or part of what it makes of it. -/
theorem stripLib_copies {strip : Bytes → Bytes} {b : Bytes} (hF : ∀ d s, F s → F (lib.set d s))
    (hK : v.ending ≠ .exits → ∀ b' m, b' = b ∨ Copied (strip b) v b' → K (some ⟨b', m⟩)) :
    Triple (fun s => F s ∧ Holding (· = b) (lib.get s)) (stripLib lib strip v)
      (fun s => F s ∧ Holding (· = strip b) (lib.get s)) (fun s => F s ∧ K (lib.get s)) := by
  rw [stripLib, libTool]
  apply Triple.tool
  · rintro s s' ⟨hs, ⟨_, m⟩, hf, rfl⟩ he
    rw [hf] at he
    cases he
    exact ⟨hF _ s hs, _, lib.get_set _ _, rfl⟩
  · rintro s ⟨hs, ⟨_, m⟩, hf, rfl⟩ hstop
    have hending : v.ending ≠ .exits := fun h => by
      have hnone := hstop h
      rw [hf] at hnone
      cases hnone
    show F (ite _ _ _) ∧ K (lib.get (ite _ _ _))
    by_cases hbegun : v.progress.begun = true
    · rw [if_pos hbegun, lib.get_set, hf]
      exact ⟨hF _ s hs, hK hending _ m (.inr (.inr ⟨hending, hbegun, rfl⟩))⟩
    · rw [if_neg hbegun, hf]
      exact ⟨hs, hK hending _ m (.inl rfl)⟩

/-- `chmod` keeps the bytes of a library, however it ends. -/
theorem chmodLib_whole (hF : ∀ d s, F s → F (lib.set d s)) :
    Triple (fun s => F s ∧ Holding H (lib.get s)) (chmodLib lib v)
      (fun s => F s ∧ ∃ b, H b ∧ lib.get s = some ⟨b, 0o755⟩)
      (fun s => F s ∧ Holding H (lib.get s)) := by
  rw [chmodLib, libTool]
  apply Triple.tool
  · rintro s s' ⟨hs, f, hf, hH⟩ he
    rw [hf] at he
    cases he
    exact ⟨hF _ s hs, _, hH, lib.get_set _ _⟩
  · rintro s ⟨hs, f, hf, hH⟩ -
    show F (ite _ _ _) ∧ Holding H (lib.get (ite _ _ _))
    split
    · rw [lib.get_set, hf]
      exact ⟨hF _ s hs, _, rfl, hH⟩
    · exact ⟨hs, f, hf, hH⟩

/-- `chmod` in the package directory. -/
theorem chmodPkg_triple (hF : ∀ d s, F s → F (lib.set d s)) :
    Triple (fun s : CiDir σ => F s.pkg ∧ Holding H (lib.get s.pkg))
      (CiDir.pkgDir.on (chmodLib lib v))
      (fun s => F s.pkg ∧ ∃ b, H b ∧ lib.get s.pkg = some ⟨b, 0o755⟩)
      (fun s => F s.pkg ∧ Holding H (lib.get s.pkg)) :=
  Triple.on CiDir.pkgDir (fun _ _ => chmodLib_whole lib hF) (fun _ h => h) (fun _ _ _ h => h)
    (fun _ _ _ h => h)

/-- `chmod` in the package directory. -/
theorem chmodPkg_keeps (hF : ∀ d s, F s → F (lib.set d s)) :
    Triple (fun s : CiDir σ => F s.pkg) (CiDir.pkgDir.on (chmodLib lib v)) (fun s => F s.pkg)
      (fun s => F s.pkg) :=
  Triple.on CiDir.pkgDir (fun _ _ => libTool_keeps hF) (fun _ h => h) (fun _ _ _ h => h)
    (fun _ _ _ h => h)

end Library

section Assemble

variable {σ Λ : Type} {gradle : Gradle Λ} {libs : σ → Λ} {K : σ → Prop}

/-- Gradle leaves the package directory alone, and packs what is there. -/
theorem assemble_packs {v : CmdVerdict} :
    Triple (fun s : CiDir σ => K s.pkg) (assembleRelease gradle libs v)
      (fun s => K s.pkg ∧ s.raw.map ApkDir.apk
        = some (.archive (gradle.assembleRelease (libs s.pkg)))) (fun s => K s.pkg) := by
  refine Triple.tool (fun s s' hs he => ?_) (fun s hs _ => ?_)
  · cases he
    exact ⟨hs, rfl⟩
  · show K (ite _ _ _ : CiDir σ).pkg
    split
    · exact hs
    · exact hs

end Assemble

/-! ### QuickJS -/

section Quickjs

variable {env : QuickjsEnv} {gradle : Gradle (Option ModeFile)} {S : QuickjsRun → Prop}

end Quickjs

/-- The builds of a history. -/
def builds {ρ : Type} (hist : List (LocalRun ρ)) : List ρ := hist.filterMap fun
  | .build r => some r
  | .package _ => none

/-- A build among the runs. -/
theorem mem_builds {ρ : Type} {hist : List (LocalRun ρ)} {r : ρ} (h : .build r ∈ hist) :
    r ∈ builds hist := List.mem_filterMap.mpr ⟨.build r, h, rfl⟩

/-- A packaging that nothing stops. -/
def samplePackageRun : PackageRun := ⟨fun _ => unharmed, quiet⟩

/-- The repair, in the package directory. -/
theorem fixRaw_packs {σ : Type} {K : σ → Prop} {A : Archive} {rfix : Schedule FixCmd FixProgress} :
    Triple (fun s : CiDir σ => K s.pkg ∧ s.raw.map ApkDir.apk = some (.archive A)) (fixRaw rfix)
      (fun s => K s.pkg ∧ s.raw.map ApkDir.apk = some (.archive (fix A)))
      (fun s => K s.pkg) := by
  rintro s ⟨hs, hA⟩
  obtain ⟨d, hd, hapk⟩ := Option.map_eq_some_iff.mp hA
  unfold fixRaw
  rw [hd]
  exact Outcome.Sat.map ((fixApk_triple A rfix d hapk).mono
    (fun d' hd' => ⟨hs, congrArg some hd'⟩) (fun _ _ => hs))

section Ffmpeg

variable {env : FfmpegEnv} {gradle : Gradle (Option ModeFile)} {S : Run FfmpegCmd → Prop}
  {K : Option ModeFile → Prop} {b : Bytes} {r : Run FfmpegCmd}

/-- What a run in `S` may have copied, `b` being the binary that `make` makes. -/
def FfmpegOf (env : FfmpegEnv) (b : Bytes) (S : Run FfmpegCmd → Prop) (b' : Bytes) : Prop :=
  ∃ r, S r ∧ Copied (env.strip b) (r .cp) b'

/-- Between two runs. -/
abbrev FfmpegReady (env : FfmpegEnv) (b : Bytes) (S : Run FfmpegCmd → Prop) (s : FfmpegDir) :
    Prop := Resumable env s ∧ Holding (FfmpegOf env b S) s.libffmpeg

/-- Up to `configure`, the script leaves the JNI directory alone. -/
theorem ffmpegDeps_keeps :
    Triple (fun s => K s.libffmpeg) (ffmpegDeps env r) (fun s => K s.libffmpeg)
      (fun s => K s.libffmpeg) := by
  let F : FfmpegDir → Prop := fun s => K s.libffmpeg
  -- no site, download or clone of the dependencies is `libffmpeg`
  have hinert : ∀ c, Triple F (inert (r c)) F F :=
    fun c => Triple.inert (fun _ h => h) (fun _ h => h)
  have hmbedtls : ∀ {a}, Triple F (FfmpegDir.mbedtlsSite.on a) F F :=
    fun {_} => Triple.on_keeps _ fun _ _ h => h
  have hx264 : ∀ {a}, Triple F (FfmpegDir.x264Site.on a) F F :=
    fun {_} => Triple.on_keeps _ fun _ _ h => h
  have hlame : ∀ {a}, Triple F (FfmpegDir.lameDownload.on a) F F :=
    fun {_} => Triple.on_keeps _ fun _ _ h => h
  have hlameSite : ∀ {a}, Triple F (FfmpegDir.lameSite.on a) F F :=
    fun {_} => Triple.on_keeps _ fun _ _ h => h
  have hfill : ∀ {dir : Focus FfmpegDir (Option Dir)} {new v},
      (∀ t s, F s → F (dir.set t s)) → Triple F (fillTool dir new v) F F :=
    fun {_ _ _} hdir => fillTool_triple (fun s h => hdir _ s h) (fun s h _ => hdir _ s h)
  have hclone : Triple F (cloneStage FfmpegDir.ffmpegDir env.ffmpegRepo (r .ffmpegClone)) F F :=
    Triple.ifThen ((hfill fun _ _ h => h).consequence (fun _ h => h.1) (fun _ h => h)
      (fun _ h => h)) (fun _ h _ => h)
  have hwrite : ∀ {q new v}, Triple F (writeTool FfmpegDir.pkgconfigDir q new v) F F :=
    fun {_ _ _} => writeTool_triple (fun _ _ _ h _ _ => h) (fun _ h => h) (fun _ _ _ h _ => h)
  have hpc : Triple F (pkgconfigFiles env r) F F :=
    Triple.cons (hfill fun _ _ h => h) (Triple.cons hwrite (Triple.cons hwrite
      (Triple.cons hwrite (Triple.nil fun _ h => h))))
  have hlibs : ∀ {a a'}, Triple F a F F → Triple F a' F F → Triple F (seq [a, a']) F F :=
    fun h h' => Triple.cons h (Triple.cons h' (Triple.nil fun _ hs => hs))
  -- the stages in the order the script runs them
  exact Triple.cons (hinert _) (Triple.cons (hinert _) (Triple.cons (hlibs hmbedtls hmbedtls)
    (Triple.cons (hlibs hx264 hx264) (Triple.cons (hlibs hlame hlameSite) (Triple.cons hclone
    (Triple.cons hpc (Triple.cons (cd_triple (fun _ h _ => h) fun _ h => h)
    (Triple.nil fun _ h => h))))))))

/-- The sources of FFmpeg are there, and `configure` reads what a complete build reads. -/
def FfmpegSources (env : FfmpegEnv) (Q : Dir → Prop) (s : FfmpegDir) : Prop :=
  Resumable env s ∧ s.deps = builtDeps env ∧ ∃ t, s.ffmpegSource = some t ∧ Q t

/-- A tool that adds files to the sources of FFmpeg. -/
theorem fillSources_triple {new : FfmpegDir → Dir} {products : Dir} {Q : Dir → Prop}
    {v : CmdVerdict} (hnew : ∀ s t, s.deps = builtDeps env → s.ffmpegSource = some t →
      t.Extends env.ffmpegRepo → new s = products)
    (hapart : ∀ s t, s.ffmpegSource = some t → t.Extends env.ffmpegRepo →
      env.ffmpegRepo.Apart (new s)) :
    Triple (FfmpegSources env Q) (fillTool FfmpegDir.ffmpegDir new v)
      (FfmpegSources env fun t => ∃ t₀, Q t₀ ∧ t = t₀.overlay products) (Resumable env) := by
  have hfill : Triple (FfmpegSources env Q) (fillTool FfmpegDir.ffmpegDir new v)
      (fun s => s.deps = builtDeps env ∧ ∃ t, s.ffmpegSource = some t ∧
        ∃ t₀, Q t₀ ∧ t = t₀.overlay products) (fun _ => True) := by
    refine fillTool_triple ?_ (fun _ _ _ => trivial)
    rintro s ⟨hs, hdeps, t, ht, hQ⟩
    refine ⟨hdeps, t.overlay products, ?_, t, hQ, rfl⟩
    show some (Tree.overlay (s.ffmpegSource.getD _) _) = _
    rw [ht, hnew s t hdeps ht (hs.ffmpeg t ht)]
    rfl
  refine ((ffmpegFill_triple hapart).and hfill).consequence ?_ ?_ (fun _ hs => hs.1)
  · rintro s ⟨hs, hdeps, t, ht, hQ⟩
    exact ⟨⟨hs, by rw [ht]; rfl⟩, hs, hdeps, t, ht, hQ⟩
  · rintro s ⟨hs, hdeps, hsource⟩
    exact ⟨hs.1, hdeps, hsource⟩

/-- **From `configure` on**, whatever the sources of FFmpeg hold besides the clone. -/
theorem ffmpegCompile_keeps (hb : ffmpegProducts env ffmpegPath = some b)
    (hK : ∀ b' m, Copied (env.strip b) (r .cp) b' → K (some ⟨b', m⟩)) :
    Triple (fun s => FfmpegSources env (fun _ => True) s ∧ K s.libffmpeg) (ffmpegCompile env r)
      (fun s => Resumable env s ∧ Holding (· = env.strip b) s.libffmpeg)
      (fun s => Resumable env s ∧ K s.libffmpeg) := by
  let F : FfmpegDir → Prop := fun s => K s.libffmpeg
  let conf := env.ffmpegConfigure (builtDeps env) env.ffmpegRepo
  let mk := env.ffmpegMake (builtDeps env) env.ffmpegRepo
  have hconfigure : Triple (FfmpegSources env fun _ => True)
      (fillTool FfmpegDir.ffmpegDir (fun s => env.ffmpegConfigure s.deps (ffmpegFound env s))
        (r .configure))
      (FfmpegSources env fun t => ∃ t₀ : Dir, True ∧ t = t₀.overlay conf) (Resumable env) := by
    refine fillSources_triple (fun s t hdeps ht hext => ?_) (fun s t ht hext => ?_)
    · rw [hdeps, ffmpegFound_eq ht hext]
    · rw [ffmpegFound_eq ht hext]
      exact env.configure_apart s.deps
  have hproducts : Triple (FfmpegSources env fun t => ∃ t₀ : Dir, True ∧ t = t₀.overlay conf)
      (fillTool FfmpegDir.ffmpegDir (fun s => env.ffmpegMake s.deps (ffmpegFound env s)) (r .make))
      (FfmpegSources env fun t => ∃ t₁ : Dir, (∃ t₀ : Dir, True ∧ t₁ = t₀.overlay conf) ∧
        t = t₁.overlay mk) (Resumable env) := by
    refine fillSources_triple (fun s t hdeps ht hext => ?_) (fun s t ht hext => ?_)
    · rw [hdeps, ffmpegFound_eq ht hext]
    · rw [ffmpegFound_eq ht hext]
      exact env.make_apart s.deps
  -- an older binary may stand among the sources, and `make` has replaced it
  have hmake : Triple (FfmpegSources env fun t => ∃ t₀ : Dir, True ∧ t = t₀.overlay conf)
      (fillTool FfmpegDir.ffmpegDir (fun s => env.ffmpegMake s.deps (ffmpegFound env s)) (r .make))
      (fun s => Resumable env s ∧ s.ffmpegSource.bind (· ffmpegPath) = some b)
      (Resumable env) := by
    refine hproducts.weaken ?_ (fun _ hs => hs)
    rintro s ⟨hs, -, t, ht, -, ⟨t₀, -, rfl⟩, rfl⟩
    refine ⟨hs, ?_⟩
    rw [ht, Option.bind_some, Tree.overlay_assoc]
    exact Tree.overlay_of_some hb
  have hstrip : Triple (fun s => Resumable env s ∧ s.ffmpegSource.bind (· ffmpegPath) = some b)
      (writeTool FfmpegDir.ffmpegDir ffmpegPath
        (fun s => (s.ffmpegSource.bind (· ffmpegPath)).map env.strip) (r .strip))
      (fun s => Resumable env s ∧ s.ffmpegSource.bind (· ffmpegPath) = some (env.strip b))
      (Resumable env) := by
    refine writeTool_triple ?_ (fun _ hs => hs.1) (fun s t b' hs ht => strip_keeps hs.1 ht b')
    rintro s t b' ⟨hs, hbin⟩ ht hb'
    rw [hbin] at hb'
    cases hb'
    exact ⟨strip_keeps hs ht _, Tree.write_self _ _ _⟩
  have hcd : Triple
      (fun s => Resumable env s ∧ s.ffmpegSource.bind (· ffmpegPath) = some (env.strip b))
      (inert (r .cdUp))
      (fun s => Resumable env s ∧ s.ffmpegSource.bind (· ffmpegPath) = some (env.strip b))
      (Resumable env) := Triple.inert (fun _ hs => hs) (fun _ hs => hs.1)
  have hcp : Triple (fun s => (Resumable env s ∧
      s.ffmpegSource.bind (· ffmpegPath) = some (env.strip b)) ∧ F s)
      (cpLib FfmpegDir.lib (fun s => s.ffmpegSource.bind (· ffmpegPath)) env.newMode (r .cp))
      (fun s => Resumable env s ∧ Holding (· = env.strip b) s.libffmpeg)
      (fun s => Resumable env s ∧ F s) :=
    cpLib_copies FfmpegDir.lib (F := Resumable env) (fun _ _ hs => { hs with }) fun _ => hK
  have hchmod : Triple (fun s => Resumable env s ∧ Holding (· = env.strip b) s.libffmpeg)
      (chmodLib FfmpegDir.lib (r .chmod))
      (fun s => Resumable env s ∧ Holding (· = env.strip b) s.libffmpeg)
      (fun s => Resumable env s ∧ F s) := by
    refine (chmodLib_whole FfmpegDir.lib (F := Resumable env) (H := (· = env.strip b))
      fun _ _ hs => { hs with }).weaken ?_ ?_
    · rintro s ⟨hs, b', hb', hlib⟩
      exact ⟨hs, _, hlib, hb'⟩
    · rintro s ⟨hs, hlib⟩
      exact ⟨hs, hlib.of_eq fun m => hK _ m (.inl rfl)⟩
  -- up to `cp`, the commands work in `ffmpeg-source`
  have hfill : ∀ {new v}, Triple F (fillTool FfmpegDir.ffmpegDir new v) F F :=
    fun {_ _} => fillTool_triple (fun _ h => h) (fun _ h _ => h)
  have hwrite : ∀ {q new v}, Triple F (writeTool FfmpegDir.ffmpegDir q new v) F F :=
    fun {_ _ _} => writeTool_triple (fun _ _ _ h _ _ => h) (fun _ h => h) (fun _ _ _ h _ => h)
  exact Triple.cons (hconfigure.and hfill) (Triple.cons (hmake.and hfill) (Triple.cons
    (hstrip.and hwrite) (Triple.cons (hcd.and (Triple.inert (fun _ h => h) fun _ h => h))
    (Triple.cons hcp (Triple.cons hchmod (Triple.nil fun _ hs => hs))))))

/-- Until a build copies its own binary, the old one stays. -/
theorem buildFfmpeg_keeps (hrun : FfmpegRun env r) (hb : ffmpegProducts env ffmpegPath = some b)
    (hK : ∀ b' m, Copied (env.strip b) (r .cp) b' → K (some ⟨b', m⟩)) :
    Triple (fun s => Resumable env s ∧ K s.libffmpeg) (buildFfmpeg env r)
      (fun s => Resumable env s ∧ Holding (· = env.strip b) s.libffmpeg)
      (fun s => Resumable env s ∧ K s.libffmpeg) := by
  refine Triple.cons ((ffmpegDeps_triple hrun).and ffmpegDeps_keeps) (Triple.cons
    ((ffmpegCompile_keeps hb hK).consequence ?_ (fun _ hs => hs) (fun _ hs => hs))
    (Triple.nil fun _ hs => hs))
  rintro s ⟨⟨hs, hlibs, hpc⟩, hold⟩
  have hdeps : s.deps = builtDeps env := by
    show (⟨s.mbedtls.dest, s.x264.dest, s.lameInstall, s.pkgconfig⟩ : FfmpegDeps) = _
    rw [hlibs.mbedtls, hlibs.x264, hpc, show s.lameInstall = (Done env.lame).dest from
      congrArg Site.dest hlibs.lame]
    rfl
  obtain ⟨t, ht⟩ := Option.isSome_iff_exists.mp hlibs.ffmpeg
  exact ⟨⟨hs, hdeps, t, ht, trivial⟩, hold⟩

/-- **One packaging**, with the repair of its APK. -/
theorem packageApkFfmpeg_triple {p : PackageRun} :
    Triple (fun s => FfmpegReady env b S s.pkg) (packageApkFfmpeg gradle p)
      (fun s => FfmpegReady env b S s.pkg ∧ ∃ b' m, FfmpegOf env b S b' ∧ s.raw.map ApkDir.apk
        = some (.archive (fix (gradle.assembleRelease (some ⟨b', m⟩)))))
      (fun s => FfmpegReady env b S s.pkg) := by
  have hcheck : Triple (fun s : CiDir FfmpegDir => FfmpegReady env b S s.pkg)
      (cd (p.verdict .checkBinary) (fun s => s.pkg.libffmpeg))
      (fun s => FfmpegReady env b S s.pkg) (fun s => FfmpegReady env b S s.pkg) :=
    cd_triple (fun _ hs _ => hs) (fun _ hs => hs)
  have hfix : Triple (fun s : CiDir FfmpegDir => FfmpegReady env b S s.pkg ∧
        s.raw.map ApkDir.apk = some (.archive (gradle.assembleRelease s.pkg.libffmpeg)))
      (fixRaw p.fix) (fun s => FfmpegReady env b S s.pkg ∧ ∃ b' m, FfmpegOf env b S b' ∧
        s.raw.map ApkDir.apk = some (.archive (fix (gradle.assembleRelease (some ⟨b', m⟩)))))
      (fun s => FfmpegReady env b S s.pkg) := by
    rintro s ⟨⟨hs, f, hlib, hf⟩, hraw⟩
    rw [hlib] at hraw
    refine (fixRaw_packs (K := FfmpegReady env b S) s ⟨⟨hs, f, hlib, hf⟩, hraw⟩).mono ?_
      (fun _ hs => hs)
    exact fun s' hs' => ⟨hs'.1, f.bytes, f.mode, hf, hs'.2⟩
  exact Triple.cons hcheck (Triple.cons assemble_packs (Triple.cons hfix
    (Triple.nil fun _ hs => hs)))

/-- However it ends, it leaves the sources and the libraries alone. -/
theorem packageApkFfmpeg_keeps {p : PackageRun} :
    Triple (fun s : CiDir FfmpegDir => Resumable env s.pkg) (packageApkFfmpeg gradle p)
      (fun s => Resumable env s.pkg) (fun s => Resumable env s.pkg) := by
  have hfix : Triple (fun s : CiDir FfmpegDir => Resumable env s.pkg ∧
        s.raw.map ApkDir.apk = some (.archive (gradle.assembleRelease s.pkg.libffmpeg)))
      (fixRaw p.fix) (fun s => Resumable env s.pkg) (fun s => Resumable env s.pkg) :=
    fun s hs => (fixRaw_packs (K := Resumable env) s hs).mono (fun _ h => h.1) (fun _ h => h)
  exact Triple.cons (cd_triple (fun _ hs _ => hs) fun _ hs => hs) (Triple.cons assemble_packs
    (Triple.cons hfix (Triple.nil fun _ hs => hs)))

end Ffmpeg

/-- **Packaging by hand, FFmpeg.**  From a clean checkout, take any history of builds and
    packagings, of which no build is stopped in the window, a build `r` of this kind that
    succeeds, and any such history after it.  If a packaging then exits 0, the APK that it
    leaves has one `libffmpeg.so`, executable; it is the stripped binary of a complete build,
    and complete itself unless `r` or a later build was stopped in the middle of copying it. -/
theorem packageApkFfmpeg_current (env : FfmpegEnv) (gradle : Gradle (Option ModeFile))
    (hpacks : ∀ f, Packs (gradle.assembleRelease (some f)) libffmpegEntry f.bytes) (b : Bytes)
    (hb : ffmpegProducts env ffmpegPath = some b) (s₀ : CiDir FfmpegDir)
    (h₀ : s₀.pkg = FfmpegDir.clean) (earlier : List (LocalRun (Run FfmpegCmd)))
    (hearlier : ∀ r ∈ builds earlier, FfmpegRun env r) (r : Run FfmpegCmd)
    (hrun : FfmpegRun env r) (s₁ : CiDir FfmpegDir)
    (hr : localScript (buildFfmpeg env) (packageApkFfmpeg gradle) (.build r)
      (after (localScript (buildFfmpeg env) (packageApkFfmpeg gradle)) earlier s₀) = .done s₁)
    (later : List (LocalRun (Run FfmpegCmd))) (hlater : ∀ r ∈ builds later, FfmpegRun env r)
    (p : PackageRun) (s' : CiDir FfmpegDir)
    (hp : packageApkFfmpeg gradle p
      (after (localScript (buildFfmpeg env) (packageApkFfmpeg gradle)) later s₁) = .done s') :
    ∃ r' ∈ r :: builds later, ∃ b', Copied (env.strip b) (r' .cp) b' ∧
      ∃ A, s'.raw.map ApkDir.apk = some (.archive A) ∧ Packs A libffmpegEntry b' ∧
        ∀ e ∈ A, e.name = libffmpegEntry → Executable e.info.externalAttr := by
  have hinv : Resumable env (after (localScript (buildFfmpeg env)
      (packageApkFfmpeg gradle)) earlier s₀).pkg :=
    local_ready (fun r' hr' => buildFfmpeg_triple (hearlier r' (mem_builds hr')))
      (fun _ => packageApkFfmpeg_keeps) (by rw [h₀]; exact clean_resumable env)
  -- the build `r` leaves its own binary
  let S : Run FfmpegCmd → Prop := fun r' => r' ∈ r :: builds later
  have hbuild : FfmpegReady env b S s₁.pkg := by
    have hdone := pkg_done (buildFfmpeg_keeps (K := fun _ => True) hrun hb
      fun _ _ _ => trivial) ⟨hinv, trivial⟩ hr
    exact ⟨hdone.1, hdone.2.of_eq fun m => ⟨_, rfl, r, List.mem_cons_self, .inl rfl⟩⟩
  have hready : FfmpegReady env b S (after (localScript (buildFfmpeg env)
      (packageApkFfmpeg gradle)) later s₁).pkg := by
    refine local_ready (fun r' hr' => ?_)
      (fun _ => packageApkFfmpeg_triple.weaken (fun _ hs => hs.1) fun _ hs => hs) hbuild
    have hmem := mem_builds hr'
    have hK : ∀ b' m, Copied (env.strip b) (r' .cp) b' →
        Holding (FfmpegOf env b S) (some ⟨b', m⟩) :=
      fun b' m hb' => ⟨_, rfl, r', List.mem_cons_of_mem _ hmem, hb'⟩
    exact (buildFfmpeg_keeps (hlater r' hmem) hb hK).weaken
      (fun s hs => ⟨hs.1, hs.2.of_eq fun m => hK _ m (.inl rfl)⟩) (fun _ hs => hs)
  have hpack : Outcome.Sat _ _ (packageApkFfmpeg gradle p _) := packageApkFfmpeg_triple _ hready
  rw [hp] at hpack
  obtain ⟨-, b', m, ⟨r', hr', hb'⟩, hraw⟩ := hpack
  refine ⟨r', hr', b', hb', _, hraw, packs_fix (hpacks ⟨b', m⟩),
    fun e he hname => executable_fix he ?_⟩
  rw [hname]; decide

/-- A build and a packaging that nothing stops. -/
theorem packageApkFfmpeg_current_sample :
    ∃ s' A b', packageApkFfmpeg sampleFfmpegGradle samplePackageRun
        (localScript (buildFfmpeg sampleFfmpegEnv) (packageApkFfmpeg sampleFfmpegGradle)
          (.build fun _ => unharmed) sampleFreshFfmpeg).state = .done s' ∧
      s'.raw.map ApkDir.apk = some (.archive A) ∧ Packs A libffmpegEntry b' ∧
      Copied [4] unharmed b' := by
  have hbuild : (localScript (buildFfmpeg sampleFfmpegEnv) (packageApkFfmpeg sampleFfmpegGradle)
      (.build fun _ => unharmed) sampleFreshFfmpeg).exitsZero = true := by decide +kernel
  have hpack : (packageApkFfmpeg sampleFfmpegGradle samplePackageRun
      (localScript (buildFfmpeg sampleFfmpegEnv) (packageApkFfmpeg sampleFfmpegGradle)
        (.build fun _ => unharmed) sampleFreshFfmpeg).state).exitsZero = true := by
    decide +kernel
  have hrun : FfmpegRun sampleFfmpegEnv fun _ => unharmed := fun _ h => absurd rfl h
  obtain ⟨r', hr', b', hb', A, hraw, hA, -⟩ := packageApkFfmpeg_current sampleFfmpegEnv
    sampleFfmpegGradle (fun f => packs_mem (e := sampleEntry libffmpegEntry f.bytes)
      List.mem_cons_self fun e' he' _ => List.mem_singleton.mp he') [4] (by decide)
    sampleFreshFfmpeg rfl [] (fun _ h => absurd h List.not_mem_nil) (fun _ => unharmed) hrun _
    (Outcome.eq_done hbuild) [] (fun _ h => absurd h List.not_mem_nil) samplePackageRun _
    (Outcome.eq_done hpack)
  rw [List.mem_singleton.mp hr'] at hb'
  exact ⟨_, A, b', Outcome.eq_done hpack, hraw, hA, hb'⟩

/-! ### Python -/

section Python

variable {env : PythonEnv} {gradle : Gradle PythonLibs} {S : Run PythonCmd → Prop} {b : Bytes}
  {r : Run PythonCmd} {K : Option ModeFile → Prop} {Z : Option ZipFile → Prop}

/-- What a build can leave of its interpreter: the stripped one, in place of the copy, or the
    copy, where the build was stopped before it had stripped it. -/
def Interpreters (env : PythonEnv) (b : Bytes) (r : Run PythonCmd) (b' : Bytes) : Prop :=
  Copied (env.strip b) (r .strip) b' ∨
    (((r .cpPython).ending ≠ .exits ∨ (r .strip).ending ≠ .exits) ∧ Copied b (r .cpPython) b')

/-- What a build can leave of its standard library. -/
def Zips (env : PythonEnv) (r : Run PythonCmd) (z : ZipFile) : Prop :=
  z = .archive env.stdlibArchive ∨ (z = .torn ∧ (r .cpZip).ending ≠ .exits)

/-- The stages leave the JNI directory alone. -/
theorem pythonStages_keeps {F : PythonLibs → Prop} :
    Triple (fun s => F s.libs) (pythonStages env r) (fun s => F s.libs) (fun s => F s.libs) := by
  let G : PythonDir → Prop := fun s => F s.libs
  -- each stage runs on a focus of the directory that leaves `libs` alone
  have hon : ∀ {τ : Type} (f : Focus PythonDir τ) {a : Script τ},
      (∀ t s, (f.set t s).libs = s.libs) → Triple G (f.on a) G G :=
    fun {_} f {_} hf => Triple.on_keeps f fun t s hs => by
      show F _
      rw [hf]
      exact hs
  have hcheck : Triple G (inert (r .checkNdk)) G G := Triple.inert (fun _ h => h) (fun _ h => h)
  have hmkdir : Triple G (fillTool PythonDir.installDir (fun _ => Tree.empty) (r .mkdirPrefix))
      G G := fillTool_triple (fun _ h => h) (fun _ h _ => h)
  have hhost : Triple G (fun s => PythonDir.hostSite.on (hostStage env s.cpython.source r) s)
      G G := fun s hs => hon PythonDir.hostSite (fun _ _ => rfl) s hs
  have htarget : Triple G (fun s => PythonDir.targetSite.on
      (targetStage env s.cpython.source (s.inputs env) r) s) G G :=
    fun s hs => hon PythonDir.targetSite (fun _ _ => rfl) s hs
  exact Triple.cons hcheck (Triple.cons hmkdir
    (Triple.cons (hon PythonDir.zlibDownload fun _ _ => rfl)
    (Triple.cons (hon PythonDir.zlibSite fun _ _ => rfl)
    (Triple.cons (hon PythonDir.libffiDownload fun _ _ => rfl)
    (Triple.cons (hon PythonDir.libffiSite fun _ _ => rfl)
    (Triple.cons (hon PythonDir.opensslDownload fun _ _ => rfl)
    (Triple.cons (hon PythonDir.opensslSite fun _ _ => rfl)
    (Triple.cons (hon PythonDir.cpythonDownload fun _ _ => rfl)
    (Triple.cons hhost (Triple.cons htarget (Triple.nil fun _ hs => hs)))))))))))

/-- **The packaging of a build**, over an old pair of libraries. -/
theorem packagePython_keeps
    (hb : env.target.built env.inputs env.target.files pythonPath = some b)
    (hK : ∀ b' m, Interpreters env b r b' → K (some ⟨b', m⟩))
    (hZ : ∀ z, Zips env r z → Z (some z)) :
    Triple (fun s => Complete env s ∧ K s.libpython ∧ Z s.jniZip) (packagePython env r)
      (fun s => PythonInv env s ∧ Holding (· = env.strip b) s.libpython ∧
        s.jniZip = some (.archive env.stdlibArchive))
      (fun s => PythonInv env s ∧ K s.libpython ∧ Z s.jniZip) := by
  have hstripped : ∀ {f}, Holding (· = env.strip b) f → K f :=
    fun h => h.of_eq fun m => hK _ m (.inl (.inl rfl))
  have hmkdir : Triple (fun s => Complete env s ∧ K s.libpython ∧ Z s.jniZip) (inert (r .mkdirJni))
      (fun s => Complete env s ∧ K s.libpython ∧ Z s.jniZip)
      (fun s => PythonInv env s ∧ K s.libpython ∧ Z s.jniZip) :=
    Triple.inert (fun _ hs => hs) (fun _ hs => ⟨hs.1.1, hs.2⟩)
  have hcp : Triple (fun s => Complete env s ∧ K s.libpython ∧ Z s.jniZip)
      (cpLib PythonDir.lib (fun s => s.target.bind (· pythonPath)) env.newMode (r .cpPython))
      (fun s => (Complete env s ∧ Z s.jniZip) ∧ Holding (· = b) s.libpython)
      (fun s => PythonInv env s ∧ K s.libpython ∧ Z s.jniZip) := by
    refine (cpLib_copies PythonDir.lib (F := fun s => Complete env s ∧ Z s.jniZip) (K := K)
      (fun f s hs => ⟨hs.1.set_lib f s, hs.2⟩) fun hv b' m hb' => hK _ m (.inr ⟨.inl hv, hb'⟩)
      ).consequence ?_ (fun _ hs => hs) ?_
    · exact fun s hs => ⟨⟨⟨hs.1, hs.2.2⟩, hs.1.python hb⟩, hs.2.1⟩
    · exact fun s hs => ⟨hs.1.1.1, hs.2, hs.1.2⟩
  have hstrip : Triple (fun s => (Complete env s ∧ Z s.jniZip) ∧ Holding (· = b) s.libpython)
      (stripLib PythonDir.lib env.strip (r .strip))
      (fun s => (Complete env s ∧ Z s.jniZip) ∧ Holding (· = env.strip b) s.libpython)
      (fun s => PythonInv env s ∧ K s.libpython ∧ Z s.jniZip) := by
    refine (stripLib_copies PythonDir.lib (F := fun s => Complete env s ∧ Z s.jniZip) (K := K)
      (fun f s hs => ⟨hs.1.set_lib f s, hs.2⟩) fun hv b' m hb' => hK _ m ?_).weaken
      (fun _ hs => hs) (fun s hs => ⟨hs.1.1.1, hs.2, hs.1.2⟩)
    rcases hb' with rfl | hb'
    · exact .inr ⟨.inr hv, .inl rfl⟩
    · exact .inl hb'
  -- from here on the library is complete, and the archive an old one until `cp`
  have hcd : Triple
      (fun s => (Complete env s ∧ Z s.jniZip) ∧ Holding (· = env.strip b) s.libpython)
      (cd (r .cdStdlib) PythonDir.pythonUsr)
      (fun s => (Complete env s ∧ Z s.jniZip) ∧ Holding (· = env.strip b) s.libpython)
      (fun s => PythonInv env s ∧ K s.libpython ∧ Z s.jniZip) :=
    cd_triple (fun _ hs _ => hs) (fun _ hs => ⟨hs.1.1.1, hstripped hs.2, hs.1.2⟩)
  have hzip : Triple
      (fun s => (Complete env s ∧ Z s.jniZip) ∧ Holding (· = env.strip b) s.libpython)
      (zipStdlib (r .zip))
      (fun s => ((Complete env s ∧ s.stdlibZip = some env.stdlibArchive) ∧ Z s.jniZip) ∧
        Holding (· = env.strip b) s.libpython)
      (fun s => PythonInv env s ∧ K s.libpython ∧ Z s.jniZip) := by
    have hkeep : Triple (fun s => Z s.jniZip ∧ Holding (· = env.strip b) s.libpython)
        (zipStdlib (r .zip)) (fun s => Z s.jniZip ∧ Holding (· = env.strip b) s.libpython)
        (fun s => Z s.jniZip ∧ Holding (· = env.strip b) s.libpython) := by
      refine Triple.tool (fun s s' hs he => ?_) (fun s hs _ => ?_)
      · cases he
        exact hs
      · split
        · exact hs
        · exact hs
    have hstage : Triple (fun s => Complete env s ∧ Interpreter (env.strip b) s)
        (zipStdlib (r .zip)) _ _ := zipStdlib_triple
    refine (hstage.and hkeep).consequence ?_ ?_ ?_
    · exact fun s hs => ⟨⟨hs.1.1, hs.2⟩, hs.1.2, hs.2⟩
    · exact fun s hs => ⟨⟨hs.1.1, hs.2.1⟩, hs.2.2⟩
    · exact fun s hs => ⟨hs.1, hstripped hs.2.2, hs.2.1⟩
  have hback : Triple
      (fun s => ((Complete env s ∧ s.stdlibZip = some env.stdlibArchive) ∧ Z s.jniZip) ∧
        Holding (· = env.strip b) s.libpython) (inert (r .cdBack))
      (fun s => ((Complete env s ∧ s.stdlibZip = some env.stdlibArchive) ∧ Z s.jniZip) ∧
        Holding (· = env.strip b) s.libpython)
      (fun s => PythonInv env s ∧ K s.libpython ∧ Z s.jniZip) :=
    Triple.inert (fun _ hs => hs) (fun _ hs => ⟨hs.1.1.1.1, hstripped hs.2, hs.1.2⟩)
  have hcpZip : Triple
      (fun s => ((Complete env s ∧ s.stdlibZip = some env.stdlibArchive) ∧ Z s.jniZip) ∧
        Holding (· = env.strip b) s.libpython) (cpZip (r .cpZip))
      (fun s => (PythonInv env s ∧ s.jniZip = some (.archive env.stdlibArchive)) ∧
        Holding (· = env.strip b) s.libpython)
      (fun s => PythonInv env s ∧ K s.libpython ∧ Z s.jniZip) := by
    apply Triple.tool
    · rintro s s' ⟨⟨⟨hs, hz⟩, -⟩, hlib⟩ he
      obtain ⟨z, hz', rfl⟩ := Option.map_eq_some_iff.mp he
      have harch : z = env.stdlibArchive := Option.some.inj (hz'.symm.trans hz)
      exact ⟨⟨{ hs.1 with }, by rw [harch]⟩, hlib⟩
    · rintro s ⟨⟨⟨hs, hz⟩, hold⟩, hlib⟩ hstop
      have hending : (r .cpZip).ending ≠ .exits := fun h => by
        have hnone := hstop h
        rw [hz] at hnone
        cases hnone
      split
      · exact ⟨{ hs.1 with }, hstripped hlib, hZ _ (.inr ⟨rfl, hending⟩)⟩
      · exact ⟨hs.1, hstripped hlib, hold⟩
  have hchmod : Triple
      (fun s => (PythonInv env s ∧ s.jniZip = some (.archive env.stdlibArchive)) ∧
        Holding (· = env.strip b) s.libpython) (chmodLib PythonDir.lib (r .chmod))
      (fun s => PythonInv env s ∧ Holding (· = env.strip b) s.libpython ∧
        s.jniZip = some (.archive env.stdlibArchive))
      (fun s => PythonInv env s ∧ K s.libpython ∧ Z s.jniZip) := by
    refine (chmodLib_whole PythonDir.lib (H := (· = env.strip b)) (F := fun s =>
      PythonInv env s ∧ s.jniZip = some (.archive env.stdlibArchive))
      fun _ _ hs => ⟨{ hs.1 with }, hs.2⟩).weaken ?_ ?_
    · rintro s ⟨⟨hs, hz⟩, b', hb', hlib⟩
      exact ⟨hs, ⟨_, hlib, hb'⟩, hz⟩
    · rintro s ⟨⟨hs, hz⟩, hlib⟩
      exact ⟨hs, hstripped hlib, by rw [hz]; exact hZ _ (.inl rfl)⟩
  exact Triple.cons hmkdir (Triple.cons hcp (Triple.cons hstrip (Triple.cons hcd
    (Triple.cons hzip (Triple.cons hback (Triple.cons hcpZip (Triple.cons hchmod
    (Triple.nil fun _ hs => hs))))))))

/-- One build, over an old pair of libraries. -/
theorem buildPython_keeps (hrun : PythonRun env r)
    (hb : env.target.built env.inputs env.target.files pythonPath = some b)
    (hK : ∀ b' m, Interpreters env b r b' → K (some ⟨b', m⟩))
    (hZ : ∀ z, Zips env r z → Z (some z)) :
    Triple (fun s => PythonInv env s ∧ K s.libpython ∧ Z s.jniZip) (buildPython env r)
      (fun s => PythonInv env s ∧ Holding (· = env.strip b) s.libpython ∧
        s.jniZip = some (.archive env.stdlibArchive))
      (fun s => PythonInv env s ∧ K s.libpython ∧ Z s.jniZip) :=
  Triple.cons ((pythonStages_triple hrun).and (pythonStages_keeps (F := fun L => K L.1 ∧ Z L.2)))
    (Triple.cons (packagePython_keeps hb hK hZ) (Triple.nil fun _ hs => hs))

/-- The libraries that a packaging finds are those of runs in `S`. -/
def PythonOf (env : PythonEnv) (b : Bytes) (S : Run PythonCmd → Prop) (b' : Bytes) : Prop :=
  ∃ r, S r ∧ Interpreters env b r b'

def PythonZipOf (env : PythonEnv) (S : Run PythonCmd → Prop) (z : Option ZipFile) : Prop :=
  ∃ r, S r ∧ ∃ z', z = some z' ∧ Zips env r z'

/-- Between two runs. -/
abbrev PythonReady (env : PythonEnv) (b : Bytes) (S : Run PythonCmd → Prop) (s : PythonDir) :
    Prop := PythonInv env s ∧ Holding (PythonOf env b S) s.libpython ∧ PythonZipOf env S s.jniZip

/-- **One packaging** of the pair. -/
theorem packageApkPython_triple {p : PackageRun} :
    Triple (fun s => PythonReady env b S s.pkg) (packageApkPython gradle p)
      (fun s => PythonReady env b S s.pkg ∧ ∃ b' z, PythonOf env b S b' ∧
        PythonZipOf env S (some z) ∧ s.raw.map ApkDir.apk
          = some (.archive (gradle.assembleRelease (some ⟨b', 0o755⟩, some z))))
      (fun s => PythonReady env b S s.pkg) := by
  let F : PythonDir → Prop := fun s => PythonInv env s ∧ PythonZipOf env S s.jniZip
  -- a `cd` changes nothing, and `chmod` only the mode of the library
  have hcheck : ∀ {τ : Type} {f : CiDir PythonDir → Option τ} {v : CmdVerdict},
      Triple (fun s => F s.pkg ∧ Holding (PythonOf env b S) s.pkg.libpython) (cd v f)
        (fun s => F s.pkg ∧ Holding (PythonOf env b S) s.pkg.libpython)
        (fun s => PythonReady env b S s.pkg) :=
    fun {_ _ _} => cd_triple (fun _ hs _ => hs) (fun _ hs => ⟨hs.1.1, hs.2, hs.1.2⟩)
  have hchmod : Triple
      (fun s : CiDir PythonDir => F s.pkg ∧ Holding (PythonOf env b S) s.pkg.libpython)
      (CiDir.pkgDir.on (chmodLib PythonDir.lib (p.verdict .chmod)))
      (fun s => F s.pkg ∧ ∃ b', PythonOf env b S b' ∧ s.pkg.libpython = some ⟨b', 0o755⟩)
      (fun s => PythonReady env b S s.pkg) :=
    (chmodPkg_triple PythonDir.lib (F := F) fun _ _ hs => ⟨{ hs.1 with }, hs.2⟩).weaken
      (fun _ hs => hs) (fun _ hs => ⟨hs.1.1, hs.2, hs.1.2⟩)
  have hgradle : Triple _ (assembleRelease gradle PythonDir.libs (p.verdict .gradlew)) _ _ :=
    assemble_packs
      (K := fun s => F s ∧ ∃ b', PythonOf env b S b' ∧ s.libpython = some ⟨b', 0o755⟩)
  -- both `cd`s, `chmod`, Gradle
  refine fun s hs => Triple.cons hcheck (Triple.cons hcheck (Triple.cons hchmod (Triple.cons
    (hgradle.weaken ?_ ?_) (Triple.nil fun _ hs => hs)))) s ⟨⟨hs.1, hs.2.2⟩, hs.2.1⟩
  · -- Gradle packs what `jniLibs` holds now: the library and the archive
    rintro s ⟨⟨⟨hs, r, hr, z, hz, hzip⟩, b', hb', hlib⟩, hraw⟩
    refine ⟨⟨hs, ⟨_, hlib, hb'⟩, r, hr, z, hz, hzip⟩, b', z, hb', ⟨r, hr, z, rfl, hzip⟩, ?_⟩
    rw [hraw, PythonDir.libs, hlib, hz]
  · rintro s ⟨⟨hs, hzip⟩, b', hb', hlib⟩
    exact ⟨hs, ⟨_, hlib, hb'⟩, hzip⟩

/-- However it ends, it leaves alone what the build makes of the sources. -/
theorem packageApkPython_keeps {p : PackageRun} :
    Triple (fun s : CiDir PythonDir => PythonInv env s.pkg) (packageApkPython gradle p)
      (fun s => PythonInv env s.pkg) (fun s => PythonInv env s.pkg) :=
  Triple.cons (cd_triple (fun _ hs _ => hs) fun _ hs => hs) (Triple.cons
    (cd_triple (fun _ hs _ => hs) fun _ hs => hs) (Triple.cons
    (chmodPkg_keeps PythonDir.lib fun _ _ hs => { hs with }) (Triple.cons
    (assemble_packs.weaken (fun _ hs => hs.1) fun _ hs => hs) (Triple.nil fun _ hs => hs))))

end Python

/-- **Packaging by hand, Python.**  From a clean checkout, take any history of builds and
    packagings, of which no build is stopped in the window, a build `r` of this kind that
    succeeds, and any such history after it.  If a packaging then exits 0, it has packed an
    interpreter and a standard library, each of `r` or of a later build.  The interpreter is
    the stripped one, unless its build was stopped in `cp` or in `strip`; the standard library
    is the packed one of a complete build, unless its build was stopped in copying it. -/
theorem packageApkPython_current (env : PythonEnv) (gradle : Gradle PythonLibs) (b : Bytes)
    (hb : env.target.built env.inputs env.target.files pythonPath = some b)
    (s₀ : CiDir PythonDir) (h₀ : s₀.pkg = PythonDir.clean)
    (earlier : List (LocalRun (Run PythonCmd))) (hearlier : ∀ r ∈ builds earlier, PythonRun env r)
    (r : Run PythonCmd) (hrun : PythonRun env r) (s₁ : CiDir PythonDir)
    (hr : localScript (buildPython env) (packageApkPython gradle) (.build r)
      (after (localScript (buildPython env) (packageApkPython gradle)) earlier s₀) = .done s₁)
    (later : List (LocalRun (Run PythonCmd))) (hlater : ∀ r ∈ builds later, PythonRun env r)
    (p : PackageRun) (s' : CiDir PythonDir)
    (hp : packageApkPython gradle p
      (after (localScript (buildPython env) (packageApkPython gradle)) later s₁) = .done s') :
    ∃ b' z, (∃ r' ∈ r :: builds later, Interpreters env b r' b') ∧
      (∃ r' ∈ r :: builds later, Zips env r' z) ∧ s'.raw.map ApkDir.apk
        = some (.archive (gradle.assembleRelease (some ⟨b', 0o755⟩, some z))) := by
  have hinv : PythonInv env (after (localScript (buildPython env)
      (packageApkPython gradle)) earlier s₀).pkg :=
    local_ready (fun r' hr' => (buildPython_triple (hearlier r' (mem_builds hr')) hb).weaken
      (fun _ hs => hs.1.1) fun _ hs => hs) (fun _ => packageApkPython_keeps)
      (by rw [h₀]; exact clean_inv env)
  -- the build `r` leaves its own libraries
  let S : Run PythonCmd → Prop := fun r' => r' ∈ r :: builds later
  have hS : ∀ {r' s}, S r' → PythonInv env s ∧ Holding (· = env.strip b) s.libpython ∧
      s.jniZip = some (.archive env.stdlibArchive) → PythonReady env b S s := by
    rintro r' s hr' ⟨hs, hlib, hz⟩
    exact ⟨hs, hlib.of_eq fun m => ⟨_, rfl, r', hr', .inl (.inl rfl)⟩, r', hr', _, hz, .inl rfl⟩
  have hbuild : PythonReady env b S s₁.pkg :=
    hS List.mem_cons_self (pkg_done (buildPython_keeps (K := fun _ => True) (Z := fun _ => True)
      hrun hb (fun _ _ _ => trivial) fun _ _ => trivial) ⟨hinv, trivial, trivial⟩ hr)
  have hready : PythonReady env b S (after (localScript (buildPython env)
      (packageApkPython gradle)) later s₁).pkg := by
    refine local_ready (fun r' hr' => ?_)
      (fun _ => packageApkPython_triple.weaken (fun _ hs => hs.1) fun _ hs => hs) hbuild
    have hmem : S r' := List.mem_cons_of_mem _ (mem_builds hr')
    exact (buildPython_keeps (hlater r' (mem_builds hr')) hb
      (fun b' m hb' => ⟨_, rfl, r', hmem, hb'⟩) fun z hz => ⟨r', hmem, z, rfl, hz⟩).weaken
      (fun _ hs => hS hmem hs) (fun _ hs => hs)
  have hpack : Outcome.Sat _ _ (packageApkPython gradle p _) := packageApkPython_triple _ hready
  rw [hp] at hpack
  obtain ⟨-, b', z, hb', ⟨r', hr', z', hz, hzip⟩, hraw⟩ := hpack
  cases hz
  exact ⟨b', z, hb', ⟨r', hr', hzip⟩, hraw⟩

/-- A build and a packaging that nothing stops. -/
theorem packageApkPython_current_sample :
    ∃ s' b' z, packageApkPython samplePythonGradle samplePackageRun
        (localScript (buildPython samplePythonEnv) (packageApkPython samplePythonGradle)
          (.build fun _ => unharmed) sampleFreshPython).state = .done s' ∧
      Zips samplePythonEnv (fun _ => unharmed) z ∧ s'.raw.map ApkDir.apk
        = some (.archive (samplePythonGradle.assembleRelease (some ⟨b', 0o755⟩, some z))) := by
  have hbuild : (localScript (buildPython samplePythonEnv) (packageApkPython samplePythonGradle)
      (.build fun _ => unharmed) sampleFreshPython).exitsZero = true := by decide +kernel
  have hpack : (packageApkPython samplePythonGradle samplePackageRun
      (localScript (buildPython samplePythonEnv) (packageApkPython samplePythonGradle)
        (.build fun _ => unharmed) sampleFreshPython).state).exitsZero = true := by
    decide +kernel
  have hrun : PythonRun samplePythonEnv fun _ => unharmed := fun _ h => absurd rfl h
  obtain ⟨b, hb⟩ := built_python samplePythonEnv
  obtain ⟨b', z, -, ⟨r', hr', hz⟩, hraw⟩ := packageApkPython_current samplePythonEnv
    samplePythonGradle b hb sampleFreshPython rfl [] (fun _ h => absurd h List.not_mem_nil)
    (fun _ => unharmed) hrun _ (Outcome.eq_done hbuild) []
    (fun _ h => absurd h List.not_mem_nil) samplePackageRun _ (Outcome.eq_done hpack)
  rw [List.mem_singleton.mp hr'] at hz
  exact ⟨_, b', z, Outcome.eq_done hpack, hz, hraw⟩

end VideoPackages
