import VideoPackages.Workflow

namespace VideoPackages

open Errexit FileTree Actions

/-!
# The build jobs of `master.yml`

A build job compiles its package, packs the unsigned APK, signs it, and attaches both to a
release.  Everything it does to an APK is recorded, so that one can say where the bytes of a
file come from.

* `packageApk` / `signApk` / `createRelease` — the steps that the three jobs share;
* `buildFfmpegJob` … — the three jobs;
* `Provenance` — what signing is to say about the asset: with a signing key it is the
  verified output of `apksigner sign`, without one it is the unsigned APK;
* `signApk_triple` / `createRelease_triple` — the steps;
* `buildJob_triple` — a whole job, however it ends.
-/

/-! ### The machine -/

/-- `apksigner`: what `sign` makes of an APK, if it can sign it with the keystore, its
    password, the alias and the password of the key; and the APKs that `verify` accepts. -/
structure Apksigner where
  sign : (keystore : Bytes) → (ksPass keyAlias keyPass : String) → (apk : Bytes) → Option Bytes
  verify : Bytes → Bool

/-- The machine of a build job: the APK that Gradle assembles, what
    `fix_apk_permissions.sh` makes of an APK, `base64 --decode`, and the `apksigner` that
    the search below `$ANDROID_HOME/build-tools` finds. -/
structure Runner where
  assembled : Bytes
  fixed : Bytes → Bytes
  base64Decode : String → Option Bytes
  buildTools : Option Apksigner

/-- The repository secrets; one that is not set is empty. -/
structure Secrets where
  SIGNING_KEY : String
  RELEASE_KEYSTORE_BASE64 : String
  KEYSTORE_PASSWORD : String
  RELEASE_STORE_PASSWORD : String
  KEY_ALIAS : String
  RELEASE_KEY_ALIAS : String
  KEY_PASSWORD : String
  RELEASE_KEY_PASSWORD : String

/-- The `env:` block of the signing step. -/
structure SigningEnv where
  signingKey : String
  keystorePassword : String
  keyAlias : String
  keyPassword : String

def Secrets.signingEnv (x : Secrets) : SigningEnv where
  signingKey := firstSet x.SIGNING_KEY x.RELEASE_KEYSTORE_BASE64
  keystorePassword := firstSet x.KEYSTORE_PASSWORD x.RELEASE_STORE_PASSWORD
  keyAlias := firstSet x.KEY_ALIAS x.RELEASE_KEY_ALIAS
  keyPassword := firstSet x.KEY_PASSWORD x.RELEASE_KEY_PASSWORD

/-- What has been done to an APK. -/
inductive ApkEvent where
  /-- It was copied to the name of the unsigned APK. -/
  | packaged (apk : Bytes)
  /-- `apksigner sign` made `out` of it. -/
  | signed (apk out : Bytes)
  /-- `apksigner verify` accepted it. -/
  | verified (apk : Bytes)
  deriving DecidableEq

/-- A file attached to a release. -/
structure Asset where
  name : String
  bytes : Bytes
  deriving DecidableEq

/-- The state of a build job. -/
structure JobDir where
  /-- the files in `app/build/outputs/apk/release` -/
  apks : Tree String UInt8
  /-- `release.jks` -/
  keystore : Option Bytes
  /-- `$APKSIGNER` -/
  apksigner : Option Apksigner
  events : List ApkEvent
  release : Option (List Asset)

/-- A fresh machine, on which `apks` come with the checkout. -/
def JobDir.fresh (apks : Tree String UInt8) : JobDir := ⟨apks, none, none, [], none⟩

/-! ### Commands -/

/-- Steps that do not touch the APKs; each counts as one command. -/
inductive SetupStep where
  | checkout | setupJava | setupNdk | mbedtls | x264 | libmp3lame | cloneFfmpeg | compile
  | printLog | hostDependencies
  deriving DecidableEq, Repr

/-- The commands of the build jobs. -/
inductive JobCmd where
  | setup (st : SetupStep)
  | mkdirJni | cpBinary | chmodGradlew | gradlew | fixApk | cpUnsigned
  | echo (line : ℕ) | cpSigned | decode | findApksigner | sign | verify | printCerts | rmKeystore
  | upload | release
  deriving DecidableEq, Repr

/-- `ffmpeg`, `python`, `quickjs` -/
def Package.name : Package → String
  | ffmpeg => "ffmpeg"
  | python => "python"
  | quickjs => "quickjs"

/-- `app-release-unsigned.apk` -/
def rawApk : String := "app-release-unsigned.apk"

/-- `<package>-unsigned-arm64-v8a.apk` -/
def Package.unsignedApk (P : Package) : String := P.name ++ "-unsigned-arm64-v8a.apk"

/-- `<package>-signed-arm64-v8a.apk` -/
def Package.signedApk (P : Package) : String := P.name ++ "-signed-arm64-v8a.apk"

/-- A command that writes an APK; a stopped one leaves a part of it. -/
def writeApk (name : String) (new : JobDir → Option Bytes)
    (event : JobDir → Bytes → List ApkEvent) (v : CmdVerdict) : Script JobDir :=
  tool v
    (fun s => (new s).map fun b =>
      { s with apks := s.apks.write name b, events := s.events ++ event s b })
    (fun k s => if k.begun then
        { s with apks := s.apks.write name (((new s).getD []).take k.bytes) }
      else s)

section Job

variable (runner : Runner) (secrets : Secrets) (ev : Event) (r : Run JobCmd)

/-- `echo` -/
def echo (line : ℕ) : Script JobDir := inert (r (.echo line))

/-- `./gradlew :app:assembleRelease` -/
def gradlew : Script JobDir :=
  writeApk rawApk (fun _ => some runner.assembled) (fun _ _ => []) (r .gradlew)

/-- `bash fix_apk_permissions.sh app-release-unsigned.apk <package>` -/
def fixPermissions : Script JobDir :=
  writeApk rawApk (fun s => (s.apks rawApk).map runner.fixed) (fun _ _ => []) (r .fixApk)

/-- `cp app-release-unsigned.apk <package>-unsigned-arm64-v8a.apk` -/
def cpUnsigned (P : Package) : Script JobDir :=
  writeApk P.unsignedApk (fun s => s.apks rawApk) (fun _ b => [.packaged b]) (r .cpUnsigned)

/-- `chmod +x gradlew`, the build, the fix of the permissions, and the renaming copy. -/
def packageApk (P : Package) : List (Script JobDir) :=
  [inert (r .chmodGradlew), gradlew runner r, fixPermissions runner r, cpUnsigned r P]

/-- `cp <package>-unsigned-arm64-v8a.apk <package>-signed-arm64-v8a.apk` -/
def cpSigned (P : Package) : Script JobDir :=
  writeApk P.signedApk (fun s => s.apks P.unsignedApk) (fun _ _ => []) (r .cpSigned)

/-- `echo "$SIGNING_KEY" | base64 --decode > release.jks`: the pipeline fails with
    `base64`. -/
def decodeKey (env : SigningEnv) : Script JobDir :=
  tool (r .decode)
    (fun s => (runner.base64Decode env.signingKey).map fun b => { s with keystore := some b })
    (fun k s =>
      -- `base64` has written what it could decode
      let part := ((runner.base64Decode env.signingKey).getD []).take k.bytes
      if k.begun then { s with keystore := some part } else s)

/-- `APKSIGNER=$(find … | sort -r | head -n 1)`, which is empty where nothing is found. -/
def findApksigner : Script JobDir :=
  tool (r .findApksigner) (fun s => some { s with apksigner := runner.buildTools })
    (fun _ s => s)

/-- What `$APKSIGNER sign` writes.  Without an `apksigner` there is no such command. -/
def signOutput (env : SigningEnv) (P : Package) (s : JobDir) : Option Bytes := do
  let apksigner ← s.apksigner
  let keystore ← s.keystore
  let apk ← s.apks P.unsignedApk
  apksigner.sign keystore env.keystorePassword env.keyAlias env.keyPassword apk

/-- `$APKSIGNER sign --ks release.jks … --out <signed> <unsigned>` -/
def signCmd (env : SigningEnv) (P : Package) : Script JobDir :=
  writeApk P.signedApk (signOutput env P)
    (fun s b => (s.apks P.unsignedApk).toList.map fun apk => .signed apk b) (r .sign)

/-- `$APKSIGNER verify <signed>` -/
def verifyCmd (P : Package) : Script JobDir :=
  tool (r .verify)
    (fun s => do
      let apksigner ← s.apksigner
      let apk ← s.apks P.signedApk
      if apksigner.verify apk then some { s with events := s.events ++ [.verified apk] }
      else none)
    (fun _ s => s)

/-- `rm -f release.jks` -/
def rmKeystore : Script JobDir :=
  tool (r .rmKeystore) (fun s => some { s with keystore := none }) (fun _ s => s)

/-- The step `Sign Android Release APK`.  The pipeline that prints the fingerprint ends as
    `grep` does. -/
def signApk (env : SigningEnv) (P : Package) : Script JobDir :=
  ifElse (fun _ => env.signingKey == "")
    -- the four lines of the warning
    (seq [echo r 0, echo r 1, echo r 2, echo r 3, cpSigned r P])
    (seq [echo r 4, decodeKey runner r env, findApksigner runner r, echo r 5, echo r 6,
      signCmd r env P, echo r 7, verifyCmd r P, echo r 8, inert (r .printCerts), echo r 9,
      rmKeystore r])

/-- The files that a release of the package is to have, as far as they exist. -/
def assets (P : Package) (s : JobDir) : List Asset :=
  [P.signedApk, P.unsignedApk].filterMap fun n => (s.apks n).map (Asset.mk n)

/-- The action `softprops/action-gh-release`; one that is stopped has attached some of the
    files. -/
def createRelease (P : Package) : Script JobDir :=
  tool (r .release) (fun s => some { s with release := some (assets P s) })
    (fun k s => if k.begun then { s with release := some ((assets P s).take k.bytes) } else s)

/-- A step that does not touch the APKs. -/
def setup (st : SetupStep) : Step JobDir := .always (inert (r (.setup st)))

/-- The steps of a job from `build` on, which packs the unsigned APK. -/
def releaseSteps (P : Package) (build : Script JobDir) : List (Step JobDir) :=
  [.always build, .always (signApk runner r secrets.signingEnv P),
    .always (inert (r .upload)), .onSuccess (fun _ => P.releaseIf ev) (createRelease r P)]

/-- The job `build-ffmpeg`. -/
def buildFfmpegJob : List (Step JobDir) :=
  [.checkout, .setupJava, .setupNdk, .mbedtls, .x264, .libmp3lame, .cloneFfmpeg,
    .compile].map (setup r) ++
  .onFailure (fun _ => true) (inert (r (.setup .printLog))) ::
  releaseSteps runner secrets ev r .ffmpeg
    (seq (inert (r .mkdirJni) :: inert (r .cpBinary) :: packageApk runner r .ffmpeg))

/-- The job `build-python`. -/
def buildPythonJob : List (Step JobDir) :=
  [.checkout, .setupJava, .setupNdk, .hostDependencies, .compile].map (setup r) ++
  releaseSteps runner secrets ev r .python (seq (packageApk runner r .python))

/-- The job `build-quickjs`. -/
def buildQuickjsJob : List (Step JobDir) :=
  [.checkout, .setupJava, .setupNdk, .compile].map (setup r) ++
  releaseSteps runner secrets ev r .quickjs (seq (packageApk runner r .quickjs))

/-- The build job of a package. -/
def buildJob : Package → Script JobDir
  | .ffmpeg => job (buildFfmpegJob runner secrets ev r)
  | .python => job (buildPythonJob runner secrets ev r)
  | .quickjs => job (buildQuickjsJob runner secrets ev r)

end Job

/-! ### From the unsigned APK to the release -/

/-- Nothing has been released. -/
def Unreleased (s : JobDir) : Prop := s.release = none

/-- The unsigned APK of this job is `u`. -/
structure Packaged (P : Package) (u : Bytes) (s : JobDir) : Prop where
  unreleased : s.release = none
  unsigned : s.apks P.unsignedApk = some u
  packaged : .packaged u ∈ s.events

/-- Where the bytes `b` come from that stand under the name of the signed APK: with a key,
    `apksigner sign` made them of `u` and `apksigner verify` accepted them; without a key,
    they are those of `u`. -/
def Provenance (key : String) (events : List ApkEvent) (u b : Bytes) : Prop :=
  (key = "" → b = u) ∧ (key ≠ "" → .signed u b ∈ events ∧ .verified b ∈ events)

/-- The APK under the name of the signed one has its provenance. -/
def SignedApk (key : String) (P : Package) (u : Bytes) (s : JobDir) : Prop :=
  Packaged P u s ∧ ∃ b, s.apks P.signedApk = some b ∧ Provenance key s.events u b

/-- Every asset under the name of the signed APK has its provenance. -/
def Honest (key : String) (P : Package) (s : JobDir) : Prop :=
  ∀ files, s.release = some files → ∀ b, ⟨P.signedApk, b⟩ ∈ files →
    ∃ u, s.apks P.unsignedApk = some u ∧ .packaged u ∈ s.events ∧
      Provenance key s.events u b

/-- The release holds both APKs if the tag selects the package, else there is none. -/
def Finished (P : Package) (ev : Event) (s : JobDir) : Prop :=
  if P.releaseIf ev then ∃ b u, s.release = some [⟨P.signedApk, b⟩, ⟨P.unsignedApk, u⟩]
  else s.release = none

/-- The signed APK has a name of its own. -/
theorem signedApk_ne (P : Package) : P.signedApk ≠ P.unsignedApk := by
  cases P <;> decide

/-- A job that has released nothing has published nothing wrong. -/
theorem Unreleased.honest {key : String} {P : Package} {s : JobDir} (h : Unreleased s) :
    Honest key P s := by
  intro files hfiles
  rw [show s.release = none from h] at hfiles
  cases hfiles

section Steps

variable {runner : Runner} {secrets : Secrets} {ev : Event} {r : Run JobCmd} {P : Package}
  {u : Bytes} {env : SigningEnv} {I J : JobDir → Prop} {v : CmdVerdict}

/-- A command that writes an APK releases nothing. -/
theorem writeApk_triple {name : String} {new : JobDir → Option Bytes}
    {event : JobDir → Bytes → List ApkEvent} (hI : ∀ s, I s → Unreleased s)
    (hdone : ∀ s b, I s → new s = some b →
      J { s with apks := s.apks.write name b, events := s.events ++ event s b }) :
    Triple I (writeApk name new event v) J Unreleased := by
  refine Triple.tool (fun s s' hs he => ?_) (fun s hs _ => ?_)
  · obtain ⟨b, hb, rfl⟩ := Option.map_eq_some_iff.mp he
    exact hdone s b hs hb
  · show Unreleased (ite _ _ _)
    split
    · exact hI s hs
    · exact hI s hs

/-- A command that does not touch the APKs keeps what is known of them. -/
theorem inert_keeps (hI : ∀ s, I s → Unreleased s) : Triple I (inert v) I Unreleased :=
  Triple.inert (fun _ hs => hs) hI

/-- The unsigned APK, packed in this job. -/
theorem packageApk_triple :
    Triple Unreleased (seq (packageApk runner r P)) (fun s => ∃ u, Packaged P u s)
      Unreleased := by
  have hI : ∀ s, Unreleased s → Unreleased s := fun _ hs => hs
  refine Triple.cons (inert_keeps hI) (Triple.cons (M := Unreleased) ?_
    (Triple.cons (M := Unreleased) ?_ (Triple.cons ?_ (Triple.nil fun _ hs => hs))))
  · exact writeApk_triple hI fun _ _ hs _ => hs
  · exact writeApk_triple hI fun _ _ hs _ => hs
  · refine writeApk_triple hI fun s b hs _ => ⟨b, hs, Tree.write_self _ _ _, ?_⟩
    exact List.mem_append_right _ List.mem_cons_self

/-- The signed APK is written beside the other one. -/
theorem Packaged.write {s : JobDir} (h : Packaged P u s) (b : Bytes) (es : List ApkEvent) :
    Packaged P u { s with apks := s.apks.write P.signedApk b, events := s.events ++ es } where
  unreleased := h.unreleased
  unsigned := (Tree.write_of_ne _ _ (signedApk_ne P).symm).trans h.unsigned
  packaged := List.mem_append_left _ h.packaged

/-- Without a key the unsigned APK is copied. -/
theorem cpSigned_triple (hkey : env.signingKey = "") :
    Triple (Packaged P u) (cpSigned r P) (SignedApk env.signingKey P u) Unreleased := by
  refine writeApk_triple (fun s hs => hs.unreleased) fun s b hs hb => ?_
  have hbu : b = u := Option.some.inj (hb.symm.trans hs.unsigned)
  exact ⟨hs.write b _, b, Tree.write_self _ _ _, fun _ => hbu, fun h => absurd hkey h⟩

/-- `apksigner sign` has written the signed APK. -/
def SignedOnly (P : Package) (u b : Bytes) (s : JobDir) : Prop :=
  Packaged P u s ∧ s.apks P.signedApk = some b ∧ .signed u b ∈ s.events

/-- The signing command reads the APK that was packaged, and writes the signed one. -/
theorem signCmd_triple :
    Triple (Packaged P u) (signCmd r env P) (fun s => ∃ b, SignedOnly P u b s)
      Unreleased := by
  refine writeApk_triple (fun s hs => hs.unreleased) fun s b hs hb => ?_
  refine ⟨b, hs.write b _, Tree.write_self _ _ _, List.mem_append_right _ ?_⟩
  -- what has been signed is the unsigned APK of this job
  rw [hs.unsigned]
  exact List.mem_cons_self

/-- `apksigner verify` exits 0 only for what it accepts. -/
theorem verifyCmd_triple (hkey : env.signingKey ≠ "") {b : Bytes} :
    Triple (SignedOnly P u b) (verifyCmd r P) (SignedApk env.signingKey P u) Unreleased := by
  refine Triple.tool (fun s s' hs he => ?_) (fun s hs _ => hs.1.unreleased)
  obtain ⟨hpack, hsigned, hevent⟩ := hs
  obtain ⟨apksigner, -, he⟩ := Option.bind_eq_some_iff.mp he
  obtain ⟨apk, hapk, he⟩ := Option.bind_eq_some_iff.mp he
  have hb : apk = b := Option.some.inj (hapk.symm.trans hsigned)
  subst hb
  split at he
  · cases he
    refine ⟨⟨hpack.unreleased, hpack.unsigned, List.mem_append_left _ hpack.packaged⟩, apk,
      hsigned, fun h => absurd h hkey, fun _ => ⟨List.mem_append_left _ hevent, ?_⟩⟩
    exact List.mem_append_right _ List.mem_cons_self
  · cases he

/-- Decoding the key, and looking for `apksigner`, does not touch the APKs. -/
theorem decodeKey_keeps : Triple (Packaged P u) (decodeKey runner r env) (Packaged P u)
    Unreleased := by
  refine Triple.tool (fun s s' hs he => ?_) (fun s hs _ => ?_)
  · obtain ⟨b, -, rfl⟩ := Option.map_eq_some_iff.mp he
    exact ⟨hs.unreleased, hs.unsigned, hs.packaged⟩
  · show Unreleased (ite _ _ _)
    split
    · exact hs.unreleased
    · exact hs.unreleased

/-- Looking for `apksigner` leaves the APKs alone. -/
theorem findApksigner_keeps : Triple (Packaged P u) (findApksigner runner r) (Packaged P u)
    Unreleased := by
  refine Triple.tool (fun s s' hs he => ?_) (fun s hs _ => hs.unreleased)
  cases he
  exact ⟨hs.unreleased, hs.unsigned, hs.packaged⟩

/-- So does removing the keystore. -/
theorem rmKeystore_keeps {key : String} :
    Triple (SignedApk key P u) (rmKeystore r) (SignedApk key P u) Unreleased := by
  refine Triple.tool (fun s s' hs he => ?_) (fun s hs _ => hs.1.unreleased)
  cases he
  exact ⟨⟨hs.1.unreleased, hs.1.unsigned, hs.1.packaged⟩, hs.2⟩

/-- **The signing step.** -/
theorem signApk_triple :
    Triple (Packaged P u) (signApk runner r env P) (SignedApk env.signingKey P u)
      Unreleased := by
  have hP : ∀ s, Packaged P u s → Unreleased s := fun s hs => hs.unreleased
  have hS : ∀ s, SignedApk env.signingKey P u s → Unreleased s := fun s hs => hs.1.unreleased
  have hO : ∀ s, (∃ b, SignedOnly P u b s) → Unreleased s := fun s ⟨_, hs⟩ => hs.1.unreleased
  apply Triple.ifElse
  · -- no key: four lines of warning and a copy
    rintro s ⟨hs, htest⟩
    have hkey : env.signingKey = "" := by simpa using htest
    have hwarn : Triple (Packaged P u) (seq [echo r 0, echo r 1, echo r 2, echo r 3,
        cpSigned r P]) (SignedApk env.signingKey P u) Unreleased :=
      Triple.cons (inert_keeps hP) (Triple.cons (inert_keeps hP) (Triple.cons
        (inert_keeps hP) (Triple.cons (inert_keeps hP) (Triple.cons (cpSigned_triple hkey)
        (Triple.nil fun _ h => h)))))
    exact hwarn s hs
  · -- a key: decode it, sign, verify, remove the keystore
    rintro s ⟨hs, htest⟩
    have hkey : env.signingKey ≠ "" := by simpa using htest
    have hverify : Triple (fun s => ∃ b, SignedOnly P u b s) (verifyCmd r P)
        (SignedApk env.signingKey P u) Unreleased := by
      rintro s ⟨b, hs⟩
      exact verifyCmd_triple hkey s hs
    have hsign : Triple (Packaged P u) (seq [echo r 4, decodeKey runner r env,
        findApksigner runner r, echo r 5, echo r 6, signCmd r env P, echo r 7, verifyCmd r P,
        echo r 8, inert (r .printCerts), echo r 9, rmKeystore r])
        (SignedApk env.signingKey P u) Unreleased :=
      Triple.cons (inert_keeps hP) (Triple.cons decodeKey_keeps (Triple.cons
        findApksigner_keeps (Triple.cons (inert_keeps hP) (Triple.cons (inert_keeps hP)
        (Triple.cons signCmd_triple (Triple.cons (inert_keeps hO) (Triple.cons hverify
        (Triple.cons (inert_keeps hS) (Triple.cons (inert_keeps hS) (Triple.cons
        (inert_keeps hS) (Triple.cons rmKeystore_keeps (Triple.nil fun _ h => h))))))))))))
    exact hsign s hs

/-- Both files are there, so the release gets both. -/
theorem SignedApk.assets {key : String} {s : JobDir} (h : SignedApk key P u s) :
    ∃ b, assets P s = [⟨P.signedApk, b⟩, ⟨P.unsignedApk, u⟩] ∧ Provenance key s.events u b := by
  obtain ⟨hpack, b, hb, hprov⟩ := h
  refine ⟨b, ?_, hprov⟩
  simp [VideoPackages.assets, hb, hpack.unsigned]

/-- Attaching some of the files, or all, is honest. -/
theorem SignedApk.honest {key : String} {s : JobDir} (h : SignedApk key P u s)
    {files : List Asset} (hfiles : files ⊆ VideoPackages.assets P s) :
    Honest key P { s with release := some files } := by
  obtain ⟨b, hassets, hprov⟩ := h.assets
  intro files' hf b' hb'
  cases hf
  have hmem := hfiles hb'
  rw [hassets, List.mem_cons, List.mem_singleton, Asset.mk.injEq, Asset.mk.injEq] at hmem
  -- of the two assets only the first has the name of the signed APK
  rcases hmem with ⟨-, rfl⟩ | ⟨hname, -⟩
  · exact ⟨u, h.1.unsigned, h.1.packaged, hprov⟩
  · exact absurd hname (signedApk_ne P)

/-- **The release step.** -/
theorem createRelease_triple {key : String} :
    Triple (SignedApk key P u) (ifThen (fun _ => P.releaseIf ev) (createRelease r P))
      (fun s => Honest key P s ∧ Finished P ev s) (Honest key P) := by
  have hU : ∀ s, SignedApk key P u s → Honest key P s := fun s hs =>
    Unreleased.honest hs.1.unreleased
  refine Triple.ifThen (Triple.tool ?_ ?_) ?_
  · -- everything is attached
    rintro s s' ⟨hs, hif⟩ he
    cases he
    obtain ⟨b, hassets, -⟩ := hs.assets
    refine ⟨hs.honest fun _ h => h, ?_⟩
    rw [Finished, if_pos hif]
    exact ⟨b, u, congrArg some hassets⟩
  · -- some of the files are, or none
    rintro s ⟨hs, -⟩ -
    show Honest key P (ite _ _ _)
    split
    · exact hs.honest (List.take_subset _ _)
    · exact hU s hs
  · -- the ref is no tag of this package
    intro s hs hif
    refine ⟨hU s hs, ?_⟩
    rw [Finished, if_neg (by simp [hif])]
    exact hs.1.unreleased

/-- From the packing of the unsigned APK on, the three jobs are alike. -/
theorem releaseSteps_triple {build : Script JobDir}
    (hbuild : Triple Unreleased build (fun s => ∃ u, Packaged P u s) Unreleased) :
    Triple Unreleased (job (releaseSteps runner secrets ev r P build))
      (fun s => Honest secrets.signingEnv.signingKey P s ∧ Finished P ev s)
      (Honest secrets.signingEnv.signingKey P) := by
  have hU : ∀ s, Unreleased s → Honest secrets.signingEnv.signingKey P s :=
    fun s hs => Unreleased.honest hs
  have hrest : ∀ u, Triple (Packaged P u)
      (job [.always (signApk runner r secrets.signingEnv P), .always (inert (r .upload)),
        .onSuccess (fun _ => P.releaseIf ev) (createRelease r P)])
      (fun s => Honest secrets.signingEnv.signingKey P s ∧ Finished P ev s)
      (Honest secrets.signingEnv.signingKey P) := fun u =>
    Triple.job_always (signApk_triple.weaken (fun _ h => h) hU) (by simp)
      (Triple.job_always (Triple.inert (fun _ h => h) (fun s hs => hU s hs.1.unreleased))
        (by simp) (Triple.job_cons createRelease_triple (by simp)
          (Triple.job_nil fun _ h => h)))
  refine Triple.job_always (hbuild.weaken (fun _ h => h) hU) (by simp) ?_
  rintro s ⟨u, hs⟩
  exact hrest u s hs

/-- The steps before the build release nothing. -/
theorem setup_keeps {R : JobDir → Prop} (hR : ∀ s, Unreleased s → R s)
    (sts : List SetupStep) :
    Triple Unreleased (job (sts.map (setup r))) Unreleased R := by
  have hclean : ∀ sts : List SetupStep, CleansUp R (sts.map (setup r)) := by
    intro sts
    induction sts with
    | nil => exact cleansUp_nil
    | cons st sts ih => exact (cleansUp_always _).mpr ih
  induction sts with
  | nil => exact Triple.job_nil fun _ hs => hs
  | cons st sts ih => exact Triple.job_always (Triple.inert (fun _ hs => hs) hR) (hclean sts) ih

/-- **A build job**, however it ends. -/
theorem buildJob_triple (P : Package) :
    Triple Unreleased (buildJob runner secrets ev r P)
      (fun s => Honest secrets.signingEnv.signingKey P s ∧ Finished P ev s)
      (Honest secrets.signingEnv.signingKey P) := by
  have hU : ∀ s, Unreleased s → Unreleased s := fun _ hs => hs
  have hH : ∀ s, Unreleased s → Honest secrets.signingEnv.signingKey P s :=
    fun s hs => Unreleased.honest hs
  cases P with
  | ffmpeg =>
    refine Triple.job_append (setup_keeps hH _) ?_ (Triple.job_failure (releaseSteps_triple ?_))
    · -- printing the configure log touches nothing
      simp only [cleansUp_onFailure, releaseSteps, cleansUp_always, cleansUp_onSuccess,
        cleansUp_nil, and_true]
      exact fun s hs => Triple.inert (fun _ h => h) (fun _ h => h) s hs
    · exact Triple.cons (inert_keeps hU) (Triple.cons (inert_keeps hU) packageApk_triple)
  | python | quickjs =>
    exact Triple.job_append (setup_keeps hH _) (by simp [releaseSteps])
      (releaseSteps_triple packageApk_triple)

end Steps

end VideoPackages
