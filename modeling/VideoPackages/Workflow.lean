import VideoPackages.Lib.Actions
import VideoPackages.Lib.Glob
import VideoPackages.Shell

namespace VideoPackages

open Errexit Actions Glob

/-!
# `master.yml` — what starts a run, and which jobs it has

* `Event` / `Event.starts` — pushes and manual runs, and the trigger filters;
* `Settings` / `checkJob` — the `ENABLE_…` switches, and the job that forwards them;
* `buildFfmpegIf` … — the conditions of the three build jobs;
* `releaseFfmpegIf` … — the conditions of their release steps;
* `checkJob_outputs` — what the build jobs see when the first job succeeds;
* `releaseIf_eq` / `jobIf_eq` — both test for the tags that select the package;
* `selectedBy_unique` / `pushedTag_selects` — which tags those are.
-/

/-- The packages. -/
inductive Package where
  | ffmpeg | python | quickjs
  deriving DecidableEq, Repr

/-! ### Events -/

/-- An event.  A push tells whether one of the files under `paths` has changed; a manual run
    has the `build_…` inputs. -/
inductive Event where
  | push (ref : String) (pathsChanged : Bool)
  | workflowDispatch (ref : String) (inputs : Package → Bool)

namespace Event

/-- `github.event_name` -/
def name : Event → String
  | push .. => "push"
  | workflowDispatch .. => "workflow_dispatch"

/-- `github.ref` -/
def ref : Event → String
  | push ref _ => ref
  | workflowDispatch ref _ => ref

/-- `inputs.build_…`: a push has no inputs, and what is missing counts as false. -/
def input : Event → Package → Bool
  | push .., _ => false
  | workflowDispatch _ inputs, P => inputs P

end Event

/-- `on.push.branches` -/
def branchPatterns : List String := ["main"]

/-- `on.push.tags` -/
def tagPatterns : List String := ["ffmpeg-v*", "python-v*", "quickjs-v*", "v*"]

/-- One of the patterns matches what `ref` names below `dir`; `*` stops at `/`, and case
    matters. -/
def refMatch (dir : String) (patterns : List String) (ref : String) : Bool :=
  patterns.any fun x =>
    globMatch (fun c => c != '/') (dir.toList.map .lit ++ pattern x) ref.toList

/-- A pushed tag that the filters match. -/
def pushedTag : String → Bool := refMatch "refs/tags/" tagPatterns

/-- A pushed branch that the filters match. -/
def pushedBranch : String → Bool := refMatch "refs/heads/" branchPatterns

/-- The event starts the workflow.  The path filter does not apply to tags. -/
def Event.starts : Event → Bool
  | push ref pathsChanged => pushedTag ref || (pushedBranch ref && pathsChanged)
  | workflowDispatch .. => true

/-! ### Switches -/

/-- The switches: `ENABLE_FFMPEG` …, `ENABLE_TAG_RELEASES` and `ENABLE_PUSH_BUILDS`. -/
inductive Switch where
  | enable (P : Package)
  | enableTagReleases
  | enablePushBuilds
  deriving DecidableEq, Repr

/-- The value of a switch, such as `'true'`: a text that the double quotes of `echo "…=…"`
    leave as it is. -/
structure Setting where
  text : String
  quoted : text.toList.all (fun c => !"\"$\\`\n".toList.contains c) = true

/-- The `env:` block of the workflow. -/
abbrev Settings := Switch → Setting

/-! ### The job `check` -/

/-- The outputs of the job: of the path filters, and the forwarded switches. -/
structure Outputs where
  changed : Package → String
  config : Switch → String

/-- An output that has not been set is empty. -/
def Outputs.unset : Outputs := ⟨fun _ => "", fun _ => ""⟩

/-- The commands of the job. -/
inductive CheckCmd where
  | checkout | filter | echo (w : Switch)
  deriving DecidableEq, Repr

/-- The action `dorny/paths-filter`, for the outcomes `changed` of its filters. -/
def pathsFilter (changed : Package → String) (v : CmdVerdict) : Script Outputs :=
  tool v (fun s => some { s with changed := changed }) (fun _ s => s)

/-- `echo "enable_…=${{ env.ENABLE_… }}" >> $GITHUB_OUTPUT` -/
def forward (settings : Settings) (r : Run CheckCmd) (w : Switch) : Script Outputs :=
  tool (r (.echo w))
    (fun s => some { s with config := Function.update s.config w (settings w).text })
    (fun _ s => s)

/-- The job `check`. -/
def checkJob (settings : Settings) (changed : Package → String) (r : Run CheckCmd) :
    Script Outputs :=
  job [.always (inert (r .checkout)),
    .always (pathsFilter changed (r .filter)),
    .always (seq ([.enable .ffmpeg, .enable .python, .enable .quickjs, .enableTagReleases,
      .enablePushBuilds].map (forward settings r)))]

/-! ### Conditions -/

/-- The condition of a build job, with the tags of its package as `tag`. -/
def buildIf (P : Package) (tag : String → Bool) (out : Outputs) (ev : Event) : Bool :=
  sameText (out.config (.enable P)) "true" && (
    -- manual run; tag; push
    (sameText ev.name "workflow_dispatch" && ev.input P) ||
    (sameText (out.config .enableTagReleases) "true" && tag ev.ref) ||
    (sameText (out.config .enablePushBuilds) "true" && sameText ev.name "push" &&
      sameText (out.changed P) "true"))

/-- The condition of `build-ffmpeg`. -/
def buildFfmpegIf : Outputs → Event → Bool := buildIf .ffmpeg fun ref =>
  startsWith ref "refs/tags/ffmpeg-v" || startsWith ref "refs/tags/v"

/-- The condition of `build-python`. -/
def buildPythonIf : Outputs → Event → Bool := buildIf .python fun ref =>
  startsWith ref "refs/tags/python-v"

/-- The condition of `build-quickjs`. -/
def buildQuickjsIf : Outputs → Event → Bool := buildIf .quickjs fun ref =>
  startsWith ref "refs/tags/quickjs-v"

/-- The condition of the build job of a package. -/
def Package.jobIf : Package → Outputs → Event → Bool
  | ffmpeg => buildFfmpegIf
  | python => buildPythonIf
  | quickjs => buildQuickjsIf

/-- The condition of the step `Create GitHub Release` of `build-ffmpeg`. -/
def releaseFfmpegIf (ev : Event) : Bool :=
  startsWith ev.ref "refs/tags/ffmpeg-v" || startsWith ev.ref "refs/tags/v"

/-- The same of `build-python`. -/
def releasePythonIf (ev : Event) : Bool := startsWith ev.ref "refs/tags/python-v"

/-- The same of `build-quickjs`. -/
def releaseQuickjsIf (ev : Event) : Bool := startsWith ev.ref "refs/tags/quickjs-v"

/-- The condition of the release step of a package. -/
def Package.releaseIf : Package → Event → Bool
  | ffmpeg => releaseFfmpegIf
  | python => releasePythonIf
  | quickjs => releaseQuickjsIf

/-! ### What the conditions see -/

/-- The tags that select a package: their names start with one of these. -/
def Package.tagPrefixes : Package → List String
  | ffmpeg => ["ffmpeg-v", "v"]
  | python => ["python-v"]
  | quickjs => ["quickjs-v"]

/-- The ref is a tag that selects the package. -/
def Package.selectedBy (P : Package) (ref : String) : Bool :=
  P.tagPrefixes.any fun p => startsWith ref ("refs/tags/" ++ p)

/-- The release steps test for the tags that select their packages. -/
theorem releaseIf_eq (P : Package) (ev : Event) : P.releaseIf ev = P.selectedBy ev.ref := by
  cases P with
  | ffmpeg =>
    show (startsWith _ _ || startsWith _ _) = (startsWith _ _ || (startsWith _ _ || false))
    rw [Bool.or_false]; rfl
  | python | quickjs => exact (Bool.or_false _).symm

/-- And so do the build jobs. -/
theorem jobIf_eq (P : Package) (out : Outputs) (ev : Event) :
    P.jobIf out ev = buildIf P P.selectedBy out ev := by
  have htag : P.jobIf = buildIf P fun ref => P.releaseIf (.push ref false) := by
    cases P <;> rfl
  rw [htag]
  exact congrArg (fun tag => buildIf P tag out ev) (funext fun ref => releaseIf_eq P _)

/-- The condition of a build job after a push, and in a manual run. -/
theorem buildIf_push (P : Package) (tag : String → Bool) (out : Outputs) (ref : String)
    (pathsChanged : Bool) :
    buildIf P tag out (.push ref pathsChanged) = (sameText (out.config (.enable P)) "true" &&
      ((sameText (out.config .enableTagReleases) "true" && tag ref) ||
        (sameText (out.config .enablePushBuilds) "true" &&
          sameText (out.changed P) "true"))) := by
  have hmanual : sameText "push" "workflow_dispatch" = false := by decide
  have hpush : sameText "push" "push" = true := by decide
  simp [buildIf, Event.name, Event.ref, hmanual, hpush]

/-- When a job builds on `workflow_dispatch`: if it is enabled and asked for, or the ref is a tag of
    its own and tag releases are on. -/
theorem buildIf_workflowDispatch (P : Package) (tag : String → Bool) (out : Outputs)
    (ref : String) (inputs : Package → Bool) :
    buildIf P tag out (.workflowDispatch ref inputs) =
      (sameText (out.config (.enable P)) "true" &&
        (inputs P || (sameText (out.config .enableTagReleases) "true" && tag ref))) := by
  have hmanual : sameText "workflow_dispatch" "workflow_dispatch" = true := by decide
  have hpush : sameText "workflow_dispatch" "push" = false := by decide
  simp [buildIf, Event.name, Event.ref, Event.input, hmanual, hpush]

/-- No tag selects two packages. -/
theorem selectedBy_unique {P Q : Package} {ref : String} (hP : P.selectedBy ref = true)
    (hQ : Q.selectedBy ref = true) : P = Q := by
  obtain ⟨p, hp, hsp⟩ := List.any_eq_true.mp hP
  obtain ⟨q, hq, hsq⟩ := List.any_eq_true.mp hQ
  -- the prefixes of different packages differ in the first letter
  have hdiff : ∀ P Q : Package, ∀ p ∈ P.tagPrefixes, ∀ q ∈ Q.tagPrefixes,
      startsWith ("refs/tags/" ++ p) ("refs/tags/" ++ q) = true → P = Q := by
    intro P Q
    cases P <;> cases Q <;> decide
  rcases startsWith_unique hsp hsq with h | h
  · exact hdiff P Q p hp q hq h
  · exact (hdiff Q P q hq p hp h).symm

/-- A pushed tag that the filters match selects a package. -/
theorem pushedTag_selects {ref : String} (h : pushedTag ref = true) :
    ∃ P : Package, P.selectedBy ref = true := by
  obtain ⟨x, hx, hmatch⟩ := List.any_eq_true.mp h
  have hpat : ∀ x ∈ tagPatterns, ∃ P : Package, ∃ p ∈ P.tagPrefixes,
      pattern x = p.toList.map .lit ++ [.star] := by
    intro x hx
    simp only [tagPatterns, List.mem_cons, List.not_mem_nil, or_false] at hx
    rcases hx with rfl | rfl | rfl | rfl
    · exact ⟨.ffmpeg, "ffmpeg-v", by decide, by decide⟩
    · exact ⟨.python, "python-v", by decide, by decide⟩
    · exact ⟨.quickjs, "quickjs-v", by decide, by decide⟩
    · exact ⟨.ffmpeg, "v", by decide, by decide⟩
  obtain ⟨P, p, hp, hpx⟩ := hpat x hx
  rw [hpx, ← List.append_assoc, ← List.map_append, globMatch_lits_star] at hmatch
  obtain ⟨t, ht, -⟩ := hmatch
  refine ⟨P, List.any_eq_true.mpr ⟨p, hp, startsWith_append (t := t) ?_⟩⟩
  rw [ht, String.toList_append]

/-- The path filters have run, and the switches `ws` have been forwarded. -/
def Forwarded (settings : Settings) (changed : Package → String) (ws : List Switch)
    (out : Outputs) : Prop :=
  out.changed = changed ∧ ∀ w ∈ ws, out.config w = (settings w).text

variable {settings : Settings} {changed : Package → String} {r : Run CheckCmd}

/-- One output of the job `check`. -/
theorem forward_triple {w : Switch} {ws : List Switch} :
    Triple (Forwarded settings changed ws) (forward settings r w)
      (Forwarded settings changed (w :: ws)) (fun _ => True) := by
  refine Triple.tool (fun out out' hout he => ?_) (fun _ _ _ => trivial)
  cases he
  refine ⟨hout.1, fun w' hw' => ?_⟩
  show Function.update out.config w _ w' = _
  by_cases hww : w' = w
  · rw [hww, Function.update_self]
  · rw [Function.update_of_ne hww]
    exact hout.2 w' ((List.mem_cons.mp hw').resolve_left hww)

/-- All outputs, one after the other. -/
theorem forward_all {ws vs : List Switch} :
    Triple (Forwarded settings changed vs) (seq (ws.map (forward settings r)))
      (Forwarded settings changed (ws ++ vs)) (fun _ => True) := by
  induction ws generalizing vs with
  | nil => exact Triple.nil fun _ hout => hout
  | cons w ws ih =>
    refine Triple.cons forward_triple (ih.weaken (fun out hout => ?_) fun _ h => h)
    refine ⟨hout.1, fun w' hw' => hout.2 w' ?_⟩
    simp only [List.cons_append, List.mem_cons, List.mem_append] at hw' ⊢
    tauto

/-- **The job `check`.**  When it succeeds, the build jobs see the outcomes of the path
    filters and the switches. -/
theorem checkJob_outputs :
    Triple (fun _ => True) (checkJob settings changed r)
      (fun out => out = ⟨changed, fun w => (settings w).text⟩) (fun _ => True) := by
  refine Actions.Triple.job_always (M := fun _ => True) ?_ (by simp)
    (Actions.Triple.job_always (M := Forwarded settings changed []) ?_ (by simp)
    (Actions.Triple.job_always forward_all (by simp) (Actions.Triple.job_nil ?_)))
  · exact Triple.inert (fun _ _ => trivial) (fun _ _ => trivial)
  · refine Triple.tool (fun out out' _ he => ?_) (fun _ _ _ => trivial)
    cases he
    exact ⟨rfl, fun w hw => absurd hw List.not_mem_nil⟩
  · rintro ⟨c, f⟩ ⟨hc, hf⟩
    have hall : ∀ w : Switch, w ∈ [.enable .ffmpeg, .enable .python, .enable .quickjs,
        .enableTagReleases, .enablePushBuilds] ++ ([] : List Switch) := by
      rintro (⟨_ | _ | _⟩ | _ | _) <;> decide
    have hfw : f = fun w => (settings w).text := funext fun w => hf w (hall w)
    rw [show c = changed from hc, hfw]

end VideoPackages
