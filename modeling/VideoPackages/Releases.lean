import VideoPackages.ReleaseJob

namespace VideoPackages

open Errexit FileTree Actions

/-!
# Whole runs of `master.yml`

* `WorkflowRun` — what a run depends on, and what becomes of its jobs;
* `signed_asset_provenance` — where the bytes of a published signed APK come from, in every
  run;
* `published_iff` — when a package is published, if every command succeeds;
* `release_gating` — when this is what the switches, the tag and the inputs say.
-/

/-- Everything a run depends on: its event, the switches, the outcomes of the path filters,
    the secrets, and for each build job its machine, the APKs that come with the checkout, and
    the fate of every command. -/
structure WorkflowRun where
  event : Event
  settings : Settings
  changed : Package → String
  secrets : Secrets
  checkCmds : Run CheckCmd
  runner : Package → Runner
  checkout : Package → Tree String UInt8
  cmds : Package → Run JobCmd

namespace WorkflowRun

/-- The job `check`. -/
def checked (w : WorkflowRun) : Outcome Outputs :=
  checkJob w.settings w.changed w.checkCmds .unset

/-- The build job of the package runs: its `needs` has succeeded, and its condition holds. -/
def runsJob (w : WorkflowRun) (P : Package) : Bool :=
  w.event.starts &&
    match w.checked with
    | .done out => P.jobIf out w.event
    | _ => false

/-- What becomes of the build job if it runs. -/
def jobOutcome (w : WorkflowRun) (P : Package) : Outcome JobDir :=
  buildJob (w.runner P) w.secrets w.event (w.cmds P) P (.fresh (w.checkout P))

/-- The state of the build job at the end of the run. -/
def final (w : WorkflowRun) (P : Package) : JobDir :=
  if w.runsJob P then (w.jobOutcome P).state else .fresh (w.checkout P)

/-- A release with both APKs of the package is published. -/
def Published (w : WorkflowRun) (P : Package) : Prop :=
  ∃ b u, (w.final P).release = some [⟨P.signedApk, b⟩, ⟨P.unsignedApk, u⟩]

/-- Every command of every job that runs succeeds. -/
def AllSucceed (w : WorkflowRun) : Prop :=
  w.checked.exitsZero = true ∧
    ∀ P, w.runsJob P = true → (w.jobOutcome P).exitsZero = true

end WorkflowRun

/-! ### Provenance of the signed APK -/

/-- **Provenance of the signed APK.**  In every run, an asset under the name of the signed APK
    comes from the unsigned APK that its job packed: with a signing key `apksigner sign` made it
    of that APK and `apksigner verify` accepted it, in this run; without one it is that APK. -/
theorem signed_asset_provenance (w : WorkflowRun) (P : Package) (files : List Asset)
    (hrel : (w.final P).release = some files) (b : Bytes) (hb : ⟨P.signedApk, b⟩ ∈ files) :
    ∃ u, (w.final P).apks P.unsignedApk = some u ∧ .packaged u ∈ (w.final P).events ∧
      (w.secrets.signingEnv.signingKey ≠ "" →
        .signed u b ∈ (w.final P).events ∧ .verified b ∈ (w.final P).events) ∧
      (w.secrets.signingEnv.signingKey = "" → b = u) := by
  have hfinal : Honest w.secrets.signingEnv.signingKey P (w.final P) := by
    unfold WorkflowRun.final
    split
    · -- the job has run, and may have ended in any way
      have hjob : (w.jobOutcome P).Sat _ _ :=
        buildJob_triple P (JobDir.fresh (w.checkout P)) rfl
      exact (hjob.mono (fun _ h => h.1) (fun _ h => h)).state
    · exact Unreleased.honest rfl
  obtain ⟨u, hu, hpack, hcopy, hsign⟩ := hfinal files hrel b hb
  exact ⟨u, hu, hpack, hsign, hcopy⟩

/-! ### Sample runs -/

/-- `'true'` and `'false'` -/
def onText : Setting := ⟨"true", by decide⟩
def offText : Setting := ⟨"false", by decide⟩

/-- A machine whose `apksigner` appends one byte, and accepts what ends in it. -/
def sampleRunner : Runner where
  assembled := [1]
  fixed := fun apk => apk
  base64Decode := fun key => if key = "AA==" then some [0] else none
  buildTools := some
    { sign := fun _ _ _ _ apk => some (apk ++ [9])
      verify := fun apk => apk.getLast? = some 9 }

/-- A run in which no command is stopped. -/
def sampleRun (event : Event) (tagReleases : Setting) (key : String) : WorkflowRun where
  event := event
  settings := fun
    | .enableTagReleases => tagReleases
    | _ => onText
  changed := fun _ => "true"
  secrets := ⟨"", key, "", "pass", "", "alias", "", "pass"⟩
  checkCmds := fun _ => unharmed
  runner := fun _ => sampleRunner
  checkout := fun _ => Tree.empty
  cmds := fun _ _ => unharmed

/-- The push of a Python tag. -/
def pythonTag : Event := .push "refs/tags/python-v3.11.0" false

/-- The push of a Python tag, with a keystore. -/
theorem signed_asset_provenance_sample :
    ∃ u, ((sampleRun pythonTag onText "AA==").final .python).apks
        Package.python.unsignedApk = some u ∧
      .packaged u ∈ ((sampleRun pythonTag onText "AA==").final .python).events ∧
      .signed u [1, 9] ∈ ((sampleRun pythonTag onText "AA==").final .python).events ∧
      .verified [1, 9] ∈ ((sampleRun pythonTag onText "AA==").final .python).events := by
  obtain ⟨u, hu, hpack, hsign, -⟩ :=
    signed_asset_provenance (sampleRun pythonTag onText "AA==") .python
      [⟨"python-signed-arm64-v8a.apk", [1, 9]⟩, ⟨"python-unsigned-arm64-v8a.apk", [1]⟩]
      (by decide +kernel) [1, 9] (by decide)
  exact ⟨u, hu, hpack, hsign (by decide)⟩

/-- Without the secrets, the run attaches an asset under the name of the signed APK that no
    `apksigner sign` has written. -/
theorem unsigned_asset_published :
    ((sampleRun pythonTag onText "").final .python).release =
        some [⟨"python-signed-arm64-v8a.apk", [1]⟩, ⟨"python-unsigned-arm64-v8a.apk", [1]⟩] ∧
      ((sampleRun pythonTag onText "").final .python).events = [.packaged [1]] := by
  decide +kernel

/-! ### Gating -/

/-- The switch is `'true'`, as GitHub compares. -/
def Setting.isTrue (x : Setting) : Bool := sameText x.text "true"

/-- Nothing in the event excludes the package: it is a push, or the input is ticked. -/
def Event.ticked : Event → Package → Bool
  | push .., _ => true
  | workflowDispatch _ inputs, P => inputs P

namespace WorkflowRun

/-- The package is to be published: it is enabled, tag releases are, the ref is a tag that
    selects it, and a manual run has it ticked. -/
def Intended (w : WorkflowRun) (P : Package) : Prop :=
  (w.settings (.enable P)).isTrue = true ∧ (w.settings .enableTagReleases).isTrue = true ∧
    P.selectedBy w.event.ref = true ∧ w.event.ticked P = true

/-- For an enabled package that the ref selects.  A manual run has it ticked exactly when tag
    releases are on.  A push is of a tag that the trigger filters match when they are on; when
    they are off, it starts no build of a changed package. -/
def gateHolds (w : WorkflowRun) (P : Package) : Bool :=
  match w.event with
  | .workflowDispatch _ inputs => inputs P == (w.settings .enableTagReleases).isTrue
  | .push ref pathsChanged =>
    if (w.settings .enableTagReleases).isTrue then (Event.push ref pathsChanged).starts
    else !((Event.push ref pathsChanged).starts && (w.settings .enablePushBuilds).isTrue &&
      sameText (w.changed P) "true")

variable {w : WorkflowRun} {P Q : Package}

/-- Which jobs run when everything succeeds. -/
theorem runsJob_eq (hok : w.AllSucceed) (P : Package) :
    w.runsJob P = (w.event.starts &&
      buildIf P P.selectedBy ⟨w.changed, fun x => (w.settings x).text⟩ w.event) := by
  have hcheck : w.checked.Sat _ _ := checkJob_outputs .unset trivial
  unfold runsJob
  cases hc : w.checked with
  | done out =>
    -- the outputs are the switches and the outcomes of the path filters
    rw [hc] at hcheck
    have hout : out = ⟨w.changed, fun x => (w.settings x).text⟩ := hcheck
    rw [hout]
    exact congrArg (w.event.starts && ·) (jobIf_eq P _ _)
  | failed out | killed out =>
    have hdone := hok.1
    rw [hc] at hdone
    cases hdone

/-- **When a package is published**: its job runs, and the tag selects it. -/
theorem published_iff (hok : w.AllSucceed) :
    w.Published P ↔ w.runsJob P = true ∧ P.selectedBy w.event.ref = true := by
  have hsat : (w.jobOutcome P).Sat _ _ := buildJob_triple P (JobDir.fresh (w.checkout P)) rfl
  unfold Published final
  cases hrun : w.runsJob P with
  | false =>
    -- no job, no release
    rw [if_neg Bool.false_ne_true]
    constructor
    · rintro ⟨b, u, h⟩; cases h
    · rintro ⟨h, -⟩; cases h
  | true =>
    rw [if_pos rfl]
    have hdone := hok.2 P hrun
    cases hjob : w.jobOutcome P with
    | done s =>
      rw [hjob] at hsat
      have hfin : Finished P w.event s := hsat.2
      rw [← releaseIf_eq]
      show (∃ b u, s.release = _) ↔ _
      unfold Finished at hfin
      split at hfin
      · next hif => exact ⟨fun _ => ⟨rfl, hif⟩, fun _ => hfin⟩
      · next hif =>
        constructor
        · rintro ⟨b, u, h⟩
          rw [hfin] at h; cases h
        · rintro ⟨-, h⟩; exact absurd h hif
    | failed s | killed s =>
      rw [hjob] at hdone
      cases hdone

/-- For one package: publication is what was intended, unless the gate lets it through or
    holds it back. -/
theorem published_iff_intended (hok : w.AllSucceed) (P : Package) :
    (w.Published P ↔ w.Intended P) ↔
      ((w.settings (.enable P)).isTrue = true → P.selectedBy w.event.ref = true →
        w.gateHolds P = true) := by
  rw [published_iff hok, runsJob_eq hok]
  unfold Intended gateHolds Setting.isTrue
  -- where the package is not enabled, or not selected, both sides are false
  cases w.event with
  | push ref pathsChanged =>
    rw [buildIf_push]
    simp only [Event.ref, Event.ticked]
    by_cases he : sameText (w.settings (.enable P)).text "true" = true
    · by_cases hs : P.selectedBy ref = true
      · by_cases ht : sameText (w.settings .enableTagReleases).text "true" = true
        · simp [he, hs, ht]
        · cases (Event.push ref pathsChanged).starts <;>
            cases sameText (w.settings .enablePushBuilds).text "true" <;> simp [he, hs, ht]
      · simp [hs]
    · simp [he]
  | workflowDispatch ref inputs =>
    rw [buildIf_workflowDispatch]
    simp only [Event.ref, Event.ticked, Event.starts]
    by_cases he : sameText (w.settings (.enable P)).text "true" = true
    · by_cases hs : P.selectedBy ref = true
      · by_cases ht : sameText (w.settings .enableTagReleases).text "true" = true
        · simp [he, hs, ht]
        · simp [he, hs, ht]
      · simp [hs]
    · simp [he]

/-- No run publishes two packages. -/
theorem published_unique (hok : w.AllSucceed) (hP : w.Published P) (hQ : w.Published Q) :
    P = Q :=
  selectedBy_unique ((published_iff hok).mp hP).2 ((published_iff hok).mp hQ).2

/-- A pushed tag that the filters match publishes a package when every switch is on. -/
theorem pushed_tag_publishes (hok : w.AllSucceed) {ref : String} {pathsChanged : Bool}
    (hev : w.event = .push ref pathsChanged) (htag : pushedTag ref = true)
    (hon : ∀ x, (w.settings x).isTrue = true) : ∃ P, w.Published P := by
  obtain ⟨P, hsel⟩ := pushedTag_selects htag
  have hstarts : w.event.starts = true := by
    rw [hev]
    show (pushedTag ref || _) = true
    rw [htag, Bool.true_or]
  have henable : sameText (w.settings (.enable P)).text "true" = true := hon _
  have hrelease : sameText (w.settings .enableTagReleases).text "true" = true := hon _
  refine ⟨P, (published_iff hok).mpr ⟨?_, by rw [hev]; exact hsel⟩⟩
  rw [runsJob_eq hok, hstarts, hev, buildIf_push]
  simp [henable, hrelease, hsel]

end WorkflowRun

/-- **Gating and routing.**  Let every command succeed.  Each package is published exactly when
    it is to be, if and only if the gate holds for every enabled package that the ref selects.
    No run publishes two packages; and a pushed tag that the trigger filters match publishes
    exactly one when all switches are on. -/
theorem release_gating (w : WorkflowRun) (hok : w.AllSucceed) :
    ((∀ P, w.Published P ↔ w.Intended P) ↔
      ∀ P, (w.settings (.enable P)).isTrue = true → P.selectedBy w.event.ref = true →
        w.gateHolds P = true) ∧
    (∀ P Q, w.Published P → w.Published Q → P = Q) ∧
    ∀ ref pathsChanged, w.event = .push ref pathsChanged → pushedTag ref = true →
      (∀ x, (w.settings x).isTrue = true) → ∃ P, ∀ Q, w.Published Q ↔ Q = P := by
  refine ⟨forall_congr' fun P => w.published_iff_intended hok P, fun P Q hP hQ =>
    WorkflowRun.published_unique hok hP hQ, fun ref pathsChanged hev htag hon => ?_⟩
  obtain ⟨P, hP⟩ := WorkflowRun.pushed_tag_publishes hok hev htag hon
  refine ⟨P, fun Q => ⟨fun hQ => WorkflowRun.published_unique hok hQ hP, ?_⟩⟩
  rintro rfl
  exact hP

/-- A sample run in which each job ends with 0 succeeds as a whole. -/
theorem sampleRun_succeeds {event : Event} {tagReleases : Setting}
    (h : ∀ P, ((sampleRun event tagReleases "").jobOutcome P).exitsZero = true) :
    (sampleRun event tagReleases "").AllSucceed :=
  ⟨rfl, fun P _ => h P⟩

/-- The push of a Python tag, with all switches on. -/
theorem release_gating_sample :
    (sampleRun pythonTag onText "").AllSucceed ∧
      ∃ P, ∀ Q, (sampleRun pythonTag onText "").Published Q ↔ Q = P := by
  have hok : (sampleRun pythonTag onText "").AllSucceed :=
    sampleRun_succeeds fun P => by cases P <;> decide +kernel
  refine ⟨hok, (release_gating _ hok).2.2 _ _ rfl (by decide +kernel) fun x => ?_⟩
  rcases x with ⟨_ | _ | _⟩ | _ | _ <;> decide

/-- A manual run on a tag that has nothing ticked. -/
def untickedTag : Event := .workflowDispatch "refs/tags/ffmpeg-v7.1.1" (fun _ => false)

/-- It publishes FFmpeg all the same; and so does a push of a Python tag whose files have
    changed, when tag releases are off. -/
theorem gate_overridden :
    ((sampleRun untickedTag onText "").AllSucceed ∧
      (sampleRun untickedTag onText "").Published .ffmpeg ∧
      ¬ (sampleRun untickedTag onText "").Intended .ffmpeg) ∧
    ((sampleRun pythonTag offText "").AllSucceed ∧
      (sampleRun pythonTag offText "").Published .python ∧
      ¬ (sampleRun pythonTag offText "").Intended .python) := by
  refine ⟨⟨?_, ⟨[1], [1], by decide +kernel⟩, ?_⟩, ?_, ⟨[1], [1], by decide +kernel⟩, ?_⟩
  · exact sampleRun_succeeds fun P => by cases P <;> decide +kernel
  · rintro ⟨-, -, -, hticked⟩
    exact absurd hticked Bool.false_ne_true
  · exact sampleRun_succeeds fun P => by cases P <;> decide +kernel
  · rintro ⟨-, htags, -⟩
    exact absurd htags (by decide)

end VideoPackages
