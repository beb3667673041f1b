import VideoPackages.FixApk
import VideoPackages.ReleaseJob

namespace VideoPackages

open Errexit Actions NamedEntries

/-!
# From the JNI directory to the release

`ReleaseJob` takes the APK that Gradle assembles for given.  Here it is assembled from the
libraries that the job has built, and repaired by `fix_apk_permissions.sh` itself: a build job
works on the package directory, on the APK of Gradle, and on the files of `ReleaseJob`.

* `Gradle` / `CiDir` — what packs the libraries, and the machine of a job;
* `packageSteps` — the step that packs the unsigned APK;
* `publishSteps` — the steps of a job from there on;
* `Packs` / `packs_fix` — a library in an archive, before and after the repair;
* `PublishedFrom` / `ciJob_triple` — whatever a job publishes is the repaired archive of the
  libraries that it has built, or a signature of it.
-/

/-! ### The machine -/

/-- Gradle and the ZIP format: the archive that `:app:assembleRelease` makes of the libraries
    `Λ` of the JNI directory, and the bytes of an APK. -/
structure Gradle (Λ : Type) where
  assembleRelease : Λ → Archive
  bytes : ApkFile → Bytes

/-- The machine of a build job. -/
structure CiDir (σ : Type) where
  /-- the package directory -/
  pkg : σ
  /-- `app-release-unsigned.apk`, and what stands beside it as `….apk.fixed` -/
  raw : Option ApkDir
  /-- the rest of `app/build/outputs/apk/release`, and what the job has done with it -/
  job : JobDir

namespace CiDir

variable {σ : Type}

def pkgDir : Focus (CiDir σ) σ where
  get := pkg
  set := fun t s => { s with pkg := t }
  get_set := fun _ _ => rfl
  set_get := fun _ => rfl

def jobDir : Focus (CiDir σ) JobDir where
  get := job
  set := fun t s => { s with job := t }
  get_set := fun _ _ => rfl
  set_get := fun _ => rfl

/-- A new APK of Gradle; what stands beside it stays. -/
def setApk (f : ApkFile) (s : CiDir σ) : CiDir σ :=
  { s with raw := some ⟨f, s.raw.bind ApkDir.fixed⟩ }

end CiDir

/-- One run of a build job: what compiles the package, and the verdicts of the job's own
    commands and of those of the fixer. -/
structure CiRun (ρ : Type) where
  compile : ρ
  job : Run JobCmd
  fix : Schedule FixCmd FixProgress

/-! ### The steps -/

section Steps

variable {σ Λ : Type} (gradle : Gradle Λ) (libs : σ → Λ)

/-- `./gradlew :app:assembleRelease` -/
def assembleRelease (v : CmdVerdict) : Script (CiDir σ) :=
  tool v (fun s => some (s.setApk (.archive (gradle.assembleRelease (libs s.pkg)))))
    (fun k s => if k.begun then s.setApk .torn else s)

/-- `bash fix_apk_permissions.sh app-release-unsigned.apk <package>`; without an APK it prints
    its usage and fails. -/
def fixRaw (r : Schedule FixCmd FixProgress) : Script (CiDir σ) := fun s =>
  match s.raw with
  | none => .failed s
  | some d => (fixApk r d).map fun d' => { s with raw := some d' }

/-- `cp app-release-unsigned.apk <package>-unsigned-arm64-v8a.apk` -/
def cpRaw (P : Package) (v : CmdVerdict) : Script (CiDir σ) := fun s =>
  CiDir.jobDir.on (writeApk P.unsignedApk (fun _ => s.raw.map fun d => gradle.bytes d.apk)
    (fun _ b => [.packaged b]) v) s

/-- `chmod +x gradlew`, the build, the fix of the permissions, and the renaming copy. -/
def packageSteps (P : Package) (r : Run JobCmd) (rfix : Schedule FixCmd FixProgress) :
    Script (CiDir σ) :=
  seq [inert (r .chmodGradlew), assembleRelease gradle libs (r .gradlew), fixRaw rfix,
    cpRaw gradle P (r .cpUnsigned)]

variable (runner : Runner) (secrets : Secrets) (ev : Event)

/-- The steps of a job from `build` on, which packs the unsigned APK.  Of the runner, only
    the tools that sign matter here. -/
def publishSteps (P : Package) (build : Script (CiDir σ)) (r : Run JobCmd) :
    List (Step (CiDir σ)) :=
  [.always build, .always (CiDir.jobDir.on (signApk runner r secrets.signingEnv P)),
    .always (inert (r .upload)),
    .onSuccess (fun _ => P.releaseIf ev) (CiDir.jobDir.on (createRelease r P))]

end Steps

/-! ### A library in an archive -/

/-- The archive holds one entry of this name, with the bytes `b`. -/
def Packs (A : Archive) (name : String) (b : Bytes) : Prop :=
  ∃ e ∈ A, e.name = name ∧ e.data = b ∧ ∀ e' ∈ A, e'.name = name → e' = e

/-- The permissions to execute, in the Unix mode of an entry. -/
def Executable (attr : BitVec 32) : Prop := unixMode attr &&& 0o111 = 0o111

/-- What is read is the data of an entry. -/
theorem read_mem {A : Archive} {name : String} {b : Bytes} (h : read A name = some b) :
    ∃ e ∈ A, e.name = name ∧ e.data = b := by
  obtain ⟨e, hfind, hdata⟩ := Option.map_eq_some_iff.mp h
  refine ⟨e, List.mem_reverse.mp (List.mem_of_find?_eq_some hfind), ?_, hdata⟩
  simpa using List.find?_some hfind

/-- What an archive packs is read. -/
theorem Packs.read {A : Archive} {name : String} {b : Bytes} (h : Packs A name b) :
    read A name = some b := by
  obtain ⟨e, he, rfl, rfl, huniq⟩ := h
  obtain ⟨b, hb⟩ := read_eq_some he
  obtain ⟨e', he', hname, hdata⟩ := read_mem hb
  rw [hb, ← hdata, huniq e' he' hname]

/-- The repair keeps the libraries. -/
theorem packs_fix {A : Archive} {name : String} {b : Bytes} (h : Packs A name b) :
    Packs (fix A) name b := by
  have hread := h.read
  obtain ⟨e, he, rfl, -, huniq⟩ := h
  refine ⟨rewriteEntry fixInfo A e, List.mem_map_of_mem he, rfl, ?_, fun e' he' hname => ?_⟩
  · show (NamedEntries.read A e.name).getD e.data = b
    rw [hread, Option.getD_some]
  · obtain ⟨e₀, he₀, rfl⟩ := List.mem_map.mp he'
    rw [huniq e₀ he₀ hname]

/-- The permission fixer makes a file executable. -/
theorem newAttr_executable (a : BitVec 32) : Executable (newAttr a) := by
  ext i hi
  simp only [newAttr, unixMode, BitVec.getElem_and, BitVec.getElem_ushiftRight]
  interval_cases i <;> simp

/-- The repair makes a native library executable. -/
theorem executable_fix {A : Archive} {e : ZipEntry} (he : e ∈ fix A)
    (hname : rewrites e.name = true) : Executable e.info.externalAttr := by
  obtain ⟨e₀, -, rfl⟩ := List.mem_map.mp he
  have hfix : (rewriteEntry fixInfo A e₀).info.externalAttr = newAttr e₀.info.externalAttr := by
    show storedAttr (if rewrites e₀.name then _ else _) = _
    rw [if_pos (show rewrites e₀.name = true from hname), storedAttr_of_ne (newAttr_ne_zero _)]
  rw [hfix]
  exact newAttr_executable _

/-! ### From the libraries to the release -/

section Job

variable {σ Λ : Type} {gradle : Gradle Λ} {libs : σ → Λ} {L : Λ} {P : Package}
  {runner : Runner} {secrets : Secrets} {ev : Event} {r : Run JobCmd}
  {rfix : Schedule FixCmd FixProgress} {key : String} {u : Bytes}

/-- The unsigned APK of the libraries `L`. -/
def unsignedOf (gradle : Gradle Λ) (L : Λ) : Bytes :=
  gradle.bytes (.archive (fix (gradle.assembleRelease L)))

/-- Every published file is `u`, or has its provenance from `u` under the name of the signed
    APK. -/
def PublishedFrom (key : String) (P : Package) (u : Bytes) (s : JobDir) : Prop :=
  ∀ files, s.release = some files → ∀ a ∈ files,
    (a.name = P.unsignedApk ∧ a.bytes = u) ∨
    (a.name = P.signedApk ∧ Provenance key s.events u a.bytes)

/-- A job that has released nothing has published nothing wrong. -/
theorem Unreleased.publishedFrom {s : JobDir} (h : Unreleased s) : PublishedFrom key P u s := by
  intro files hfiles
  rw [show s.release = none from h] at hfiles
  cases hfiles

/-- Attaching some of the files, or all. -/
theorem SignedApk.publishedFrom {s : JobDir} (h : SignedApk key P u s) {files : List Asset}
    (hfiles : files ⊆ VideoPackages.assets P s) :
    PublishedFrom key P u { s with release := some files } := by
  obtain ⟨b, hassets, hprov⟩ := h.assets
  intro files' hf a ha
  cases hf
  have hmem := hfiles ha
  rw [hassets, List.mem_cons, List.mem_singleton] at hmem
  rcases hmem with rfl | rfl
  · exact .inr ⟨rfl, hprov⟩
  · exact .inl ⟨rfl, rfl⟩

/-- The release step publishes the APK and its signature. -/
theorem createRelease_published :
    Triple (SignedApk key P u) (ifThen (fun _ => P.releaseIf ev) (createRelease r P))
      (fun s => PublishedFrom key P u s ∧ Finished P ev s) (PublishedFrom key P u) := by
  have hfinished : Triple (SignedApk key P u)
      (ifThen (fun _ => P.releaseIf ev) (createRelease r P)) (Finished P ev) (fun _ => True) :=
    createRelease_triple.weaken (fun _ hs => hs.2) (fun _ _ => trivial)
  have hU : ∀ s, SignedApk key P u s → PublishedFrom key P u s :=
    fun s hs => Unreleased.publishedFrom hs.1.unreleased
  have hpublished : Triple (SignedApk key P u)
      (ifThen (fun _ => P.releaseIf ev) (createRelease r P)) (PublishedFrom key P u)
      (PublishedFrom key P u) := by
    refine Triple.ifThen (Triple.tool ?_ ?_) (fun s hs _ => hU s hs)
    · rintro s s' ⟨hs, -⟩ he
      cases he
      exact hs.publishedFrom fun _ h => h
    · rintro s ⟨hs, -⟩ -
      show PublishedFrom key P u (ite _ _ _)
      split
      · exact hs.publishedFrom (List.take_subset _ _)
      · exact hU s hs
  exact (hpublished.and hfinished).consequence (fun _ hs => ⟨hs, hs⟩) (fun _ hs => hs)
    (fun _ hs => hs.1)

/-- The libraries of the package directory are `L`, and nothing has been released. -/
def Built (libs : σ → Λ) (L : Λ) (s : CiDir σ) : Prop := libs s.pkg = L ∧ Unreleased s.job

/-- The APK of Gradle is the archive `A`. -/
def RawApk (A : Archive) (s : CiDir σ) : Prop :=
  (∃ d, s.raw = some d ∧ d.apk = .archive A) ∧ Unreleased s.job

/-- Gradle packs the libraries that were built. -/
theorem assembleRelease_triple {v : CmdVerdict} :
    Triple (Built libs L) (assembleRelease gradle libs v)
      (RawApk (gradle.assembleRelease L)) (fun s => Unreleased s.job) := by
  refine Triple.tool (fun s s' hs he => ?_) (fun s hs _ => ?_)
  · cases he
    refine ⟨⟨_, rfl, ?_⟩, hs.2⟩
    show ApkFile.archive (gradle.assembleRelease (libs s.pkg)) = _
    rw [hs.1]
  · show Unreleased (ite _ _ _ : CiDir σ).job
    split
    · exact hs.2
    · exact hs.2

/-- The fixer works on the APK only. -/
theorem fixRaw_triple {A : Archive} :
    Triple (RawApk A) (fixRaw (σ := σ) rfix) (RawApk (fix A)) (fun s => Unreleased s.job) := by
  rintro s ⟨⟨d, hd, hA⟩, hu⟩
  unfold fixRaw
  rw [hd]
  refine Outcome.Sat.map ((fixApk_triple A rfix d hA).mono (fun d' hd' => ?_) (fun _ _ => hu))
  exact ⟨⟨d', rfl, hd'⟩, hu⟩

/-- The APK is copied as it is. -/
theorem cpRaw_triple {A : Archive} {v : CmdVerdict} :
    Triple (RawApk A) (cpRaw (σ := σ) gradle P v)
      (fun s => Packaged P (gradle.bytes (.archive A)) s.job) (fun s => Unreleased s.job) := by
  rintro s ⟨⟨d, hd, hA⟩, hu⟩
  refine Outcome.Sat.map (f := fun t => CiDir.jobDir.set t s) ?_
  refine writeApk_triple (I := Unreleased) (J := Packaged P (gradle.bytes (.archive A)))
    (fun _ h => h) (fun t b ht hb => ?_) s.job hu
  rw [hd, Option.map_some, hA] at hb
  cases hb
  exact ⟨ht, FileTree.Tree.write_self _ _ _, List.mem_append_right _ List.mem_cons_self⟩

/-- **Packing the unsigned APK.** -/
theorem packageSteps_triple :
    Triple (Built libs L) (packageSteps gradle libs P r rfix)
      (fun s => Packaged P (unsignedOf gradle L) s.job) (fun s => Unreleased s.job) :=
  Triple.cons (Triple.inert (fun _ hs => hs) (fun _ hs => hs.2)) (Triple.cons
    assembleRelease_triple (Triple.cons fixRaw_triple (Triple.cons cpRaw_triple
    (Triple.nil fun _ hs => hs))))

/-- From the packing of the unsigned APK on, every job publishes that APK. -/
theorem publishSteps_triple {build : Script (CiDir σ)} {M : CiDir σ → Prop}
    (hbuild : Triple M build (fun s => Packaged P u s.job) (fun s => Unreleased s.job)) :
    Triple M (job (publishSteps runner secrets ev P build r))
      (fun s => PublishedFrom secrets.signingEnv.signingKey P u s.job ∧ Finished P ev s.job)
      (fun s => PublishedFrom secrets.signingEnv.signingKey P u s.job) := by
  have hU : ∀ s : CiDir σ, Unreleased s.job →
      PublishedFrom secrets.signingEnv.signingKey P u s.job :=
    fun s hs => Unreleased.publishedFrom hs
  -- signing and publishing work on the files of the job
  have hjob : ∀ {I J K : JobDir → Prop} {a : Script JobDir}, Triple I a J K →
      Triple (fun s : CiDir σ => I s.job) (CiDir.jobDir.on a) (fun s => J s.job)
        (fun s => K s.job) := fun h =>
    Triple.on CiDir.jobDir (fun _ _ => h) (fun _ hs => hs) (fun _ _ _ ht => ht)
      (fun _ _ _ ht => ht)
  refine Triple.job_always (hbuild.weaken (fun _ hs => hs) hU) (by simp)
    (Triple.job_always ((hjob signApk_triple).weaken (fun _ hs => hs) hU) (by simp)
    (Triple.job_always (Triple.inert (fun _ hs => hs) fun s hs => hU s hs.1.unreleased) (by simp)
    (Triple.job_cons ?_ (by simp) (Triple.job_nil fun _ hs => hs))))
  intro s hs
  have htriple : Triple (SignedApk secrets.signingEnv.signingKey P u)
      (ifThen (fun _ => P.releaseIf ev) (createRelease r P)) _ _ := createRelease_published
  have hrelease := htriple s.job hs
  unfold ifThen at hrelease ⊢
  by_cases hif : P.releaseIf ev = true
  · rw [if_pos hif] at hrelease ⊢
    exact Outcome.Sat.map (f := fun t => CiDir.jobDir.set t s) hrelease
  · rw [if_neg hif] at hrelease ⊢
    exact hrelease

end Job

/-! ### A job that compiles its package in one step -/

section OneStep

variable {σ Λ : Type}

/-- A job that compiles its package with a script, after steps that do not touch it. -/
def ciJob (P : Package) (before : List SetupStep) (compile : Script σ) (gradle : Gradle Λ)
    (libs : σ → Λ) (runner : Runner) (secrets : Secrets) (ev : Event) (r : Run JobCmd)
    (rfix : Schedule FixCmd FixProgress) : Script (CiDir σ) :=
  job (before.map (fun st => .always (inert (r (.setup st)))) ++
    .always (CiDir.pkgDir.on compile) ::
    publishSteps runner secrets ev P (packageSteps gradle libs P r rfix) r)

variable {P : Package} {before : List SetupStep} {compile : Script σ} {gradle : Gradle Λ}
  {libs : σ → Λ} {runner : Runner} {secrets : Secrets} {ev : Event} {r : Run JobCmd}
  {rfix : Schedule FixCmd FixProgress} {L : Λ} {Fresh : σ → Prop}

/-- Steps that touch nothing. -/
theorem before_triple {I R : CiDir σ → Prop} (hR : ∀ s, I s → R s) (sts : List SetupStep) :
    Triple I (job (sts.map fun st => Step.always (inert (r (.setup st))))) I R := by
  have hclean : ∀ sts : List SetupStep,
      CleansUp R (sts.map fun st => Step.always (inert (r (.setup st)))) := by
    intro sts
    induction sts with
    | nil => exact cleansUp_nil
    | cons st sts ih => exact (cleansUp_always _).mpr ih
  induction sts with
  | nil => exact Triple.job_nil fun _ hs => hs
  | cons st sts ih => exact Triple.job_always (Triple.inert (fun _ hs => hs) hR) (hclean sts) ih

/-- **A build job**, however it ends: whatever it publishes is made of the libraries `L` that
    a successful compilation leaves. -/
theorem ciJob_triple (hcompile : Triple Fresh compile (fun t => libs t = L) (fun _ => True)) :
    Triple (fun s => Fresh s.pkg ∧ Unreleased s.job)
      (ciJob P before compile gradle libs runner secrets ev r rfix)
      (fun s => PublishedFrom secrets.signingEnv.signingKey P (unsignedOf gradle L) s.job ∧
        Finished P ev s.job)
      (fun s => PublishedFrom secrets.signingEnv.signingKey P (unsignedOf gradle L) s.job) := by
  have hU : ∀ s : CiDir σ, Unreleased s.job →
      PublishedFrom secrets.signingEnv.signingKey P (unsignedOf gradle L) s.job :=
    fun s hs => Unreleased.publishedFrom hs
  have hbuilt : Triple (fun s : CiDir σ => Fresh s.pkg ∧ Unreleased s.job)
      (CiDir.pkgDir.on compile) (Built libs L)
      (fun s => PublishedFrom secrets.signingEnv.signingKey P (unsignedOf gradle L) s.job) :=
    Triple.on CiDir.pkgDir (fun _ _ => hcompile) (fun _ hs => hs.1)
      (fun s t hs ht => ⟨ht, hs.2⟩) (fun s _ hs _ => hU _ hs.2)
  refine Triple.job_append (before_triple (fun s hs => hU s hs.2) before) ?_
    (Triple.job_always hbuilt ?_ (publishSteps_triple packageSteps_triple))
  · simp [publishSteps]
  · simp [publishSteps]

/-- The same, for the files that stand in the release however the job has ended. -/
theorem ciJob_published (hcompile : Triple Fresh compile (fun t => libs t = L) (fun _ => True))
    {s : CiDir σ} (hs : Fresh s.pkg) (hu : s.job.release = none) {files : List Asset}
    (hfiles : (ciJob P before compile gradle libs runner secrets ev r rfix s).state.job.release
      = some files) :
    ∀ a ∈ files, (a.name = P.unsignedApk ∧ a.bytes = unsignedOf gradle L) ∨
      (a.name = P.signedApk ∧ Provenance secrets.signingEnv.signingKey
        (ciJob P before compile gradle libs runner secrets ev r rfix s).state.job.events
        (unsignedOf gradle L) a.bytes) :=
  ((ciJob_triple hcompile s ⟨hs, hu⟩).mono (fun _ h => h.1) (fun _ h => h)).state files hfiles

end OneStep

end VideoPackages
