import VideoPackages.BuildPython

namespace VideoPackages

open Errexit FileTree DirTools

/-!
# The guards of `build_python.sh`

Four stages are behind the directory of their sources, which a rename commits; five are
behind one file out of many that they write.

* `PythonStage` — the nine stages, when the next run skips them and when they are complete;
* `PythonWindow` — the stops after which the file is there and the work is not done, and the
  failed copy that `|| true` hides;
* `libStage_triple` / `hostStage_triple` / `targetStage_triple` — the three shapes of a stage
  behind a file;
* `PythonInv` / `buildPython_triple` — the invariant between runs, and one run;
* `buildPython_guards_sound` — any history of runs.
-/

/-! ### Stages and windows -/

/-- What the build of the target Python reads when everything before it is complete. -/
def PythonEnv.inputs (env : PythonEnv) : TargetInputs := ⟨env.libs, env.host.installed ()⟩

/-- The guarded stages of the script. -/
inductive PythonStage where
  | zlibSource | zlibInstall | libffiSource | libffiInstall | opensslSource | opensslInstall
  | cpythonSource | hostPython | targetPython
  deriving DecidableEq, Repr

/-- The next run skips the stage. -/
def PythonStage.skipped : PythonStage → PythonDir → Bool
  | zlibSource, s => s.zlib.source.isSome
  | zlibInstall, s => hasFile s.install libzPath
  | libffiSource, s => s.libffi.source.isSome
  | libffiInstall, s => hasFile s.install libffiPath
  | opensslSource, s => s.openssl.source.isSome
  | opensslInstall, s => hasFile s.install libsslPath
  | cpythonSource, s => s.cpython.source.isSome
  | hostPython, s => hasFile s.hostInstall python3Path
  | targetPython, s => hasFile s.target pythonPath

/-- A directory is there, with every file of `u`, and `u`'s bytes in those that `new` does not
    write. -/
def Holds (d : Option Dir) (u new : Dir) : Prop := ∃ t, d = some t ∧ t.ExtendsOff u new

/-- Everything that the stage does has been done.  A source stage: every file of the release is
    there, with its bytes unless the library's build has written it anew (CPython is built in
    copies).  A build stage: the package is built, and installed. -/
def PythonStage.Completed (env : PythonEnv) : PythonStage → PythonDir → Prop
  | zlibSource, s => Holds s.zlib.source env.zlib.rel.tree (env.zlib.pkg.products ())
  | zlibInstall, s => env.zlib.pkg.Installed () ⟨s.zlib.source, s.install⟩
  | libffiSource, s => Holds s.libffi.source env.libffi.rel.tree (env.libffi.pkg.products ())
  | libffiInstall, s => env.libffi.pkg.Installed () ⟨s.libffi.source, s.install⟩
  | opensslSource, s => Holds s.openssl.source env.openssl.rel.tree (env.openssl.pkg.products ())
  | opensslInstall, s => env.openssl.pkg.Installed () ⟨s.openssl.source, s.install⟩
  | cpythonSource, s => Holds s.cpython.source env.cpython.tree Tree.empty
  | hostPython, s => env.host.Installed () ⟨s.host, s.hostInstall⟩
  | targetPython, s => env.target.Installed env.inputs ⟨s.target, s.pythonUsr⟩

/-- The stops after which the guard of a stage is wrong: in the `make install` of a library or
    of the host Python with the file of the guard written and others not; in the `make` of
    the target Python with `python` written, and in its `make install` before the last file.
    Besides, a `cp -R` that fails before it has copied every file. -/
def PythonWindow (env : PythonEnv) : PythonCmd → CmdVerdict → Prop
  | .zlibBuild .install, v => LeavesGuard (env.zlib.pkg.installed ()) libzPath v
  | .libffiBuild .install, v => LeavesGuard (env.libffi.pkg.installed ()) libffiPath v
  | .opensslBuild .install, v => LeavesGuard (env.openssl.pkg.installed ()) libsslPath v
  | .hostBuild .install, v => LeavesGuard (env.host.installed ()) python3Path v
  -- a copy that is killed ends the script; only a failure is swallowed by `|| true`
  | .cpHost, v | .cpTarget, v => v.ending = .fails ∧
    ¬ (v.progress.begun = true ∧ v.progress.Full (visible env.cpython.tree))
  | .targetBuild .make, v =>
    v.progress.begun = true ∧ (v.progress.files pythonPath).isSome = true
  | .targetBuild .install, v =>
    ¬ (v.progress.begun = true ∧ v.progress.Full (env.target.installed env.inputs))
  | _, _ => False

/-- A run that is not stopped at any of these points. -/
def PythonRun (env : PythonEnv) (r : Run PythonCmd) : Prop :=
  StopsIn (fun c v => ¬ PythonWindow env c v) r

/-! ### A static library -/

/-- The sources of a library are complete, up to what its build writes anew, and if its guard
    holds it is installed. -/
def LibSound {lib : Path} (l : StaticLib lib) (s : Site Path UInt8) : Prop :=
  (∀ t, s.source = some t → t.ExtendsOff l.rel.tree (l.pkg.products ())) ∧
    (hasFile s.dest lib = true → l.pkg.Installed () s)

/-- Between `d` and `d'`, only files that `new` writes may have changed. -/
def Touched (new : Dir) (d d' : Option Dir) : Prop :=
  ∀ w : Dir, w.Apart new → Tree.SameOn w (d.getD Tree.empty) (d'.getD Tree.empty)

section StaticLib

variable {lib : Path} {l : StaticLib lib}

/-- What another library does to the prefix does not matter. -/
theorem LibSound.touched {new : Dir} {source d d' : Option Dir} (h : LibSound l ⟨source, d⟩)
    (hapart : (l.pkg.installed ()).Apart new) (hd : Touched new d d') :
    LibSound l ⟨source, d'⟩ := by
  have hsame := hd _ hapart
  refine ⟨h.1, fun hg => Package.Installed.sameOn (h.2 ?_) hsame⟩
  show hasFile d lib = true
  rw [hasFile_eq, ← hsame lib l.installs_lib, ← hasFile_eq]
  exact hg

/-- The download stage runs only where there are no sources; a library that is installed
    without any was built from none. -/
theorem libDownload_triple {r : Run DownloadCmd} {d : Option Dir} :
    Triple (fun s => LibSound l ⟨s.source, d⟩) (untarStage l.rel r)
      (fun s => LibSound l ⟨s.source, d⟩ ∧ s.source.isSome)
      (fun s => LibSound l ⟨s.source, d⟩) := by
  intro s hs
  cases hsrc : s.source with
  | some t =>
    rw [untarStage, ifThen_neg (by simp [hsrc])]
    exact ⟨hs, by rw [hsrc]; rfl⟩
  | none =>
    -- an installed library stays installed whatever the download leaves
    have hinst : ∀ source, hasFile d lib = true → l.pkg.Installed () ⟨source, d⟩ := by
      intro source hg
      have h := hs.2 hg
      rw [hsrc] at h
      exact ⟨fun p b hp => absurd (h.1 p b hp) (by simp), h.2⟩
    have hstage := untarStage_sourceOk (Tree.Extends.refl l.rel.tree) r s (sourceIs_of_none hsrc)
    apply hstage.mono
    · rintro s' ⟨t, hst, ht⟩
      exact ⟨⟨sourceIs_of_some hst (ht.extendsOff _), hinst _⟩, by rw [hst]; rfl⟩
    · exact fun s' hs' => ⟨fun t ht => (hs' t ht).extendsOff _, hinst _⟩

/-- The stage of a static library, when its `make install` is not stopped with the guarded file
    written and another one missing. -/
theorem libStage_triple {r : Run BuildCmd} {d : Option Dir}
    (hr : (r .install).ending ≠ .exits →
      ¬ LeavesGuard (l.pkg.installed ()) lib (r .install)) :
    Triple (fun s => LibSound l s ∧ s.source.isSome ∧ s.dest = d) (libStage l r)
      (fun s => LibSound l s ∧ l.pkg.Installed () s ∧ Touched (l.pkg.installed ()) d s.dest)
      (fun s => LibSound l s ∧ Touched (l.pkg.installed ()) d s.dest) := by
  have hself : Touched (l.pkg.installed ()) d d := fun w _ => Tree.SameOn.refl _ _
  rintro ⟨source, dest⟩ ⟨hs, hsome, rfl⟩
  obtain ⟨t, rfl⟩ := Option.isSome_iff_exists.mp hsome
  have hsrc : t.ExtendsOff l.rel.tree (l.pkg.products ()) := hs.1 t rfl
  have ht : t.Extends l.pkg.files :=
    Package.extends_of_release (i := ()) (by rw [l.pkg_release]; exact hsrc)
  cases hg : hasFile dest lib with
  | true =>
    -- the guard skips the stage, and is right about it
    rw [libStage, ifThen_neg (by simp [hg])]
    exact ⟨hs, hs.2 hg, hself⟩
  | false =>
    have hbuild : Triple _ (l.pkg.build () r) _ _ :=
      Package.build_triple (i := ()) (d := dest) (r := r) ht
    rw [libStage, ifThen_pos (by simp [hg])]
    refine (hbuild ⟨some t, dest⟩ ⟨t, rfl, Tree.Over.refl _ _, trivial⟩).mono ?_ ?_
    · rintro s rfl
      have hinst : l.pkg.Installed () ⟨_, _⟩ := Package.installed_of_done (d := dest) ht
      refine ⟨⟨?_, fun _ => hinst⟩, hinst, fun w hw => fill_sameOn hw dest⟩
      rintro t' ht'
      cases ht'
      exact (Package.built_over t).extendsOff hsrc
    · intro s hun
      refine ⟨⟨?_, hun.guarded ht hg hr⟩, fun w hw => hun.sameOn hw⟩
      intro t' ht'
      -- a stopped build has written products only, and removed nothing
      obtain ⟨t'', ht'', hover⟩ := hun.source
      rw [Option.some.inj (ht'.symm.trans ht'')]
      exact hover.extendsOff hsrc

end StaticLib

/-! ### The copies of the CPython sources -/

section Copies

variable {G : Dir → Prop} {F : Option Dir → Prop} {v : CmdVerdict}

/-- `mkdir -p` gives an absent directory the property `G` of the empty one. -/
theorem mkdirSource_triple (hG : G Tree.empty) :
    Triple (fun s => (∀ t, s.source = some t → G t) ∧ F s.dest) (mkdirSource v)
      (fun s => ∃ t d, s = ⟨some t, d⟩ ∧ G t ∧ F d)
      (fun s => (∀ t, s.source = some t → G t) ∧ F s.dest) := by
  have hget : ∀ s : Site Path UInt8, (∀ t, s.source = some t → G t) →
      G (s.source.getD Tree.empty) := by
    intro s hs
    cases hsrc : s.source with
    | none => exact hG
    | some t => exact hs t hsrc
  apply fillTool_triple
  · intro s hs
    refine ⟨_, s.dest, rfl, ?_, hs.2⟩
    rw [Tree.overlay_empty]
    exact hget s hs.1
  · intro s hs _
    refine ⟨fun t ht => ?_, hs.2⟩
    rcases cutFill_some ht with h | rfl
    · exact hs.1 t h
    · rw [Tree.cutOverlay_empty]
      exact hget s hs.1

/-- `cp -R … || true`.  Unless the copy fails before its end, what it hands on is complete;
    one that is killed ends the script. -/
theorem copySources_triple (src : Dir) (hG : ∀ t k, G t → G (t.cutOverlay k (visible src)))
    (hv : v.ending = .fails → v.progress.begun = true ∧ v.progress.Full (visible src)) :
    Triple (fun s => ∃ t d, s = ⟨some t, d⟩ ∧ G t ∧ F d) (copySources (some src) v)
      (fun s => ∃ t d, s = ⟨some t, d⟩ ∧ (G t ∧ t.Extends (visible src)) ∧ F d)
      (fun s => (∀ t, s.source = some t → G t) ∧ F s.dest) := by
  apply Triple.orTrue_tool
  · -- the copy exits 0
    rintro s s' ⟨t, d, rfl, ht, hd⟩ he
    cases he
    refine ⟨_, d, rfl, ⟨?_, Tree.extends_overlay _ _⟩, hd⟩
    rw [Tree.overlay_eq_cutOverlay]
    exact hG t _ ht
  · -- it fails, and the script goes on
    rintro s ⟨t, d, rfl, ht, hd⟩ hstop hnot
    have hfails : v.ending = .fails := by
      cases h : v.ending with
      | exits => exact absurd (hstop h) (by simp)
      | fails => rfl
      | killed => exact absurd h hnot
    obtain ⟨hb, hfull⟩ := hv hfails
    refine ⟨t.overlay (visible src), d, ?_, ⟨?_, Tree.extends_overlay _ _⟩, hd⟩
    · exact congrArg (fun x => (⟨x, d⟩ : Site Path UInt8)) (cutFill_full hfull hb (some t))
    · rw [Tree.overlay_eq_cutOverlay]
      exact hG t _ ht
  · -- it is killed
    rintro s ⟨t, d, rfl, ht, hd⟩ -
    refine ⟨fun t' ht' => ?_, hd⟩
    rcases cutFill_some ht' with h | rfl
    · rw [← Option.some.inj h]; exact ht
    · exact hG t _ ht

end Copies

/-! ### The host Python and the target Python -/

/-- If the guard of the host Python holds, it is built and installed. -/
def HostSound (env : PythonEnv) (s : Site Path UInt8) : Prop :=
  hasFile s.dest python3Path = true → env.host.Installed () s

/-- If the guard of the target Python holds, it is built and installed, with everything
    before it complete; and nothing else has been written below `python_usr`. -/
def TargetSound (env : PythonEnv) (s : Site Path UInt8) : Prop :=
  (hasFile s.source pythonPath = true → env.target.Installed env.inputs s) ∧
    Tree.Over Tree.empty (env.target.installed env.inputs) (s.dest.getD Tree.empty)

section Pythons

variable {env : PythonEnv} {r : Run PythonCmd}

/-- A stop that the window allows does not hide an unfinished copy. -/
theorem copy_full {v : CmdVerdict}
    (h : v.ending ≠ .exits → ¬ (v.ending = .fails ∧
      ¬ (v.progress.begun = true ∧ v.progress.Full (visible env.cpython.tree))))
    (hv : v.ending = .fails) :
    v.progress.begun = true ∧ v.progress.Full (visible env.cpython.tree) := by
  by_contra hfull
  exact h (by simp [hv]) ⟨hv, hfull⟩

/-- The stage of the host Python. -/
theorem hostStage_triple (hr : PythonRun env r) :
    Triple (HostSound env) (hostStage env (some env.cpython.tree) r)
      (env.host.Installed ()) (HostSound env) := by
  -- as long as the file of the guard is not there, nothing is claimed
  have hskip : ∀ s : Site Path UInt8, hasFile s.dest python3Path = false → HostSound env s := by
    intro s hs hg
    rw [hs] at hg; cases hg
  have hcopy := copySources_triple (G := fun _ => True)
    (F := fun d => hasFile d python3Path = false) env.cpython.tree (fun _ _ _ => trivial)
    (copy_full (hr .cpHost))
  have hmkdir := (mkdirSource_triple (v := r .mkdirHost) (G := fun _ => True)
    (F := fun d => hasFile d python3Path = false) trivial).weaken (fun _ hs => hs)
    (fun s hs => hskip s hs.2)
  have hbuild : Triple
      (fun s => ∃ t d, s = ⟨some t, d⟩ ∧ (True ∧ t.Extends (visible env.cpython.tree)) ∧
        hasFile d python3Path = false)
      (env.host.build () (fun c => r (.hostBuild c))) (env.host.Installed ())
      (HostSound env) := by
    rintro s ⟨t, d, rfl, ⟨-, ht⟩, hd⟩
    have hfiles : t.Extends env.host.files := by
      rw [← env.host_release] at ht
      exact ht.trans (Package.release_extends ())
    have hrun : Triple _ (env.host.build () (fun c => r (.hostBuild c))) _ _ :=
      Package.build_triple (i := ()) (d := d) hfiles
    refine (hrun ⟨some t, d⟩ ⟨t, rfl, Tree.Over.refl _ _, trivial⟩).mono ?_ ?_
    · rintro s rfl
      exact Package.installed_of_done hfiles
    · exact fun s hun => hun.guarded hfiles hd (hr (.hostBuild .install))
  have hbody := Triple.cons hmkdir (Triple.cons
    (hcopy.weaken (fun s hs => hs) (fun s hs => hskip s hs.2)) (Triple.cons hbuild
    (Triple.nil fun s hs => hs)))
  refine Triple.ifThen (hbody.consequence (fun s hs => ?_) (fun s hs => hs) fun s hs => hs) ?_
  · exact ⟨fun _ _ => trivial, by simpa using hs.2⟩
  · exact fun s hs hg => hs (by simpa using hg)

/-- The release has no interpreter of its own. -/
theorem visible_python (env : PythonEnv) : visible env.cpython.tree pythonPath = none := by
  cases h : visible env.cpython.tree pythonPath with
  | none => rfl
  | some b => rw [← visible_some h]; exact env.sources_python

/-- `make` and `make install` of the target Python. -/
theorem targetSteps_triple (hr : PythonRun env r) :
    Triple (fun s => ∃ t d, s = ⟨some t, d⟩ ∧ (t pythonPath = none ∧ t.Extends env.target.files) ∧
        Tree.Over Tree.empty (env.target.installed env.inputs) (d.getD Tree.empty))
      (env.target.steps env.inputs (fun c => r (.targetBuild c)))
      (fun s => TargetSound env s ∧ env.target.Installed env.inputs s) (TargetSound env) := by
  rintro s ⟨t, d, rfl, ⟨hnone, ht⟩, hd⟩
  have hfill : Tree.Over Tree.empty (env.target.installed env.inputs)
      ((fill (env.target.installed env.inputs) d).getD Tree.empty) := hd.overlay fun _ hp => hp
  have hinst := Package.installed_of_done (i := env.inputs) (d := d) ht
  have hsteps : Triple _ (env.target.steps env.inputs (fun c => r (.targetBuild c))) _ _ :=
    Package.steps_triple (K := fun t => t pythonPath = none) (d := d) ht
      (fun t k h => by
        rw [Tree.cutOverlay_of_none (env.configure_python env.inputs)]; exact h)
      (fun hstop hb t h => by
        -- a stop that the window allows has not touched `python`
        have hidle : (r (.targetBuild .make)).progress.files pythonPath = none := by
          cases hk : (r (.targetBuild .make)).progress.files pythonPath with
          | none => rfl
          | some n => exact absurd ⟨hb, by rw [hk]; rfl⟩ (hr (.targetBuild .make) hstop)
        rw [Tree.cutOverlay_untouched hidle]; exact h)
  refine (hsteps ⟨some t, d⟩ ⟨t, rfl, Tree.Over.refl _ _, hnone⟩).mono ?_ ?_
  · rintro s rfl
    exact ⟨⟨fun _ => hinst, hfill⟩, hinst⟩
  · intro s hun
    cases hun with
    | building h =>
      -- stopped before `make` wrote `python`: the next run does not skip the stage
      obtain ⟨t', rfl, -, hpy⟩ := h
      refine ⟨fun hg => ?_, hd⟩
      rw [hasFile_some, hpy] at hg; cases hg
    | installing hstop =>
      -- stopped in `make install`, which is allowed only after its last file
      have hfull : (r (.targetBuild .install)).progress.begun = true ∧
          (r (.targetBuild .install)).progress.Full (env.target.installed env.inputs) := by
        by_contra h
        exact hr (.targetBuild .install) hstop h
      rw [cutFill_full hfull.2 hfull.1]
      exact ⟨fun _ => hinst, hfill⟩
    | installed => exact ⟨fun _ => hinst, hfill⟩

/-- The stage of the target Python. -/
theorem targetStage_triple (hr : PythonRun env r) :
    Triple (TargetSound env) (targetStage env (some env.cpython.tree) env.inputs r)
      (fun s => TargetSound env s ∧ env.target.Installed env.inputs s) (TargetSound env) := by
  let F : Option Dir → Prop := fun d =>
    Tree.Over Tree.empty (env.target.installed env.inputs) (d.getD Tree.empty)
  -- a tree without `python` meets the invariant: its guard does not skip the stage
  have hskip : ∀ s : Site Path UInt8, (∀ t, s.source = some t → t pythonPath = none) →
      F s.dest → TargetSound env s := by
    intro s hs hd
    refine ⟨fun hg => ?_, hd⟩
    cases hsrc : s.source with
    | none => rw [hsrc] at hg; cases hg
    | some t => rw [hsrc, hasFile_some, hs t hsrc] at hg; cases hg
  have hcopy := copySources_triple (G := fun t => t pythonPath = none) (F := F)
    env.cpython.tree
    (fun t k h => by rw [Tree.cutOverlay_of_none (visible_python env)]; exact h)
    (copy_full (hr .cpTarget))
  have hmkdir := mkdirSource_triple (v := r .mkdirTarget) (G := fun t => t pythonPath = none)
    (F := F) rfl
  -- `mkdir`, `cp || true`, `cd`, the write of Modules/Setup.local, then the build
  refine Triple.ifThen (Triple.cons (hmkdir.consequence ?_ (fun s hs => hs)
      (fun s hs => hskip s hs.1 hs.2))
    (Triple.cons (hcopy.weaken (fun s hs => hs) (fun s hs => hskip s hs.1 hs.2))
    (Triple.cons (cd_triple (fun s hs _ => hs) ?_)
    (Triple.cons (writeTool_triple ?_ ?_ ?_)
    (Triple.cons (targetSteps_triple hr) (Triple.nil fun s hs => hs)))))) ?_
  · rintro s ⟨hs, hg⟩
    refine ⟨fun t ht => ?_, hs.2⟩
    rw [ht] at hg
    simpa using hg
  · rintro s ⟨t, d, rfl, ⟨hnone, -⟩, hd⟩
    exact hskip _ (fun t' ht' => by rw [← Option.some.inj ht']; exact hnone) hd
  · -- Modules/Setup.local completes the files of the target
    rintro s t' b ⟨t, d, rfl, ⟨hnone, ht⟩, hd⟩ ht' hb
    have hb' : setupLocal = b := by
      split at hb
      · exact Option.some.inj hb
      · cases hb
    rw [← Option.some.inj ht', ← hb']
    refine ⟨_, d, rfl, ⟨?_, ?_⟩, hd⟩
    · rw [Tree.write_of_ne _ _ (by decide)]; exact hnone
    · have hrelease := ht.write_both setupLocalPath setupLocal
      rw [← env.target_release] at hrelease
      exact hrelease.trans (Package.release_extends env.inputs)
  · rintro s ⟨t, d, rfl, ⟨hnone, -⟩, hd⟩
    exact hskip _ (fun t' ht' => by rw [← Option.some.inj ht']; exact hnone) hd
  · rintro s t' b ⟨t, d, rfl, ⟨hnone, -⟩, hd⟩ ht'
    refine hskip _ (fun t'' ht'' => ?_) hd
    rw [← Option.some.inj ht'', ← Option.some.inj ht', Tree.write_of_ne _ _ (by decide)]
    exact hnone
  · -- the guard is false: what stands there is complete already
    exact fun s hs hg => ⟨hs, hs.1 (by simpa using hg)⟩

end Pythons

/-! ### The invariant between runs -/

/-- The archive that a complete build is packed into. -/
def PythonEnv.stdlibArchive (env : PythonEnv) : Dir :=
  packed (stdlib (env.target.installed env.inputs))

/-- **The invariant between runs**: the three libraries, the host Python and the target Python
    are sound, the CPython sources are those of the release, and the archive holds nothing
    but entries of a complete standard library. -/
structure PythonInv (env : PythonEnv) (s : PythonDir) : Prop where
  zlib : LibSound env.zlib ⟨s.zlib.source, s.install⟩
  libffi : LibSound env.libffi ⟨s.libffi.source, s.install⟩
  openssl : LibSound env.openssl ⟨s.openssl.source, s.install⟩
  cpython : SourceIs (· = env.cpython.tree) s.cpython
  unpacked : Tree.Over Tree.empty env.cpython.tree (s.cpython.unpacked.getD Tree.empty)
  host : HostSound env ⟨s.host, s.hostInstall⟩
  target : TargetSound env ⟨s.target, s.pythonUsr⟩
  zip : Tree.Over Tree.empty env.stdlibArchive (s.stdlibZip.getD Tree.empty)

/-- What a stage behind a guard leaves for the stages after it. -/
abbrev ZlibReady (env : PythonEnv) (s : PythonDir) : Prop :=
  PythonStage.zlibInstall.Completed env s
abbrev LibffiReady (env : PythonEnv) (s : PythonDir) : Prop :=
  ZlibReady env s ∧ PythonStage.libffiInstall.Completed env s
abbrev LibsReady (env : PythonEnv) (s : PythonDir) : Prop :=
  LibffiReady env s ∧ PythonStage.opensslInstall.Completed env s

section Script

variable {env : PythonEnv} {r : Run PythonCmd} {s : PythonDir} {t : Site Path UInt8}

/-- Building one library changes nothing for the other two. -/
theorem PythonInv.set_zlib (hs : PythonInv env s) (ht : LibSound env.zlib t)
    (hd : Touched (env.zlib.pkg.installed ()) s.install t.dest) :
    PythonInv env (PythonDir.zlibSite.set t s) :=
  { hs with
    zlib := ht
    libffi := hs.libffi.touched env.zlib_libffi.symm hd
    openssl := hs.openssl.touched env.zlib_openssl.symm hd }

/-- Another state of libffi, with the installation directory only added to. -/
theorem PythonInv.set_libffi (hs : PythonInv env s) (ht : LibSound env.libffi t)
    (hd : Touched (env.libffi.pkg.installed ()) s.install t.dest) :
    PythonInv env (PythonDir.libffiSite.set t s) :=
  { hs with
    zlib := hs.zlib.touched env.zlib_libffi hd
    libffi := ht
    openssl := hs.openssl.touched env.libffi_openssl.symm hd }

/-- Another state of OpenSSL. -/
theorem PythonInv.set_openssl (hs : PythonInv env s) (ht : LibSound env.openssl t)
    (hd : Touched (env.openssl.pkg.installed ()) s.install t.dest) :
    PythonInv env (PythonDir.opensslSite.set t s) :=
  { hs with
    zlib := hs.zlib.touched env.zlib_openssl hd
    libffi := hs.libffi.touched env.libffi_openssl hd
    openssl := ht }

/-- The build of zlib, -/
theorem zlibBuild_triple (hr : PythonRun env r) :
    Triple (fun s => PythonInv env s ∧ s.zlib.source.isSome)
      (PythonDir.zlibSite.on (libStage env.zlib (fun c => r (.zlibBuild c))))
      (fun s => PythonInv env s ∧ ZlibReady env s) (PythonInv env) := by
  refine Triple.on PythonDir.zlibSite
    (fun s _ => libStage_triple (d := s.install) (hr (.zlibBuild .install)))
    (fun s hs => ⟨hs.1.zlib, hs.2, rfl⟩) ?_ (fun s t hs ht => hs.1.set_zlib ht.1 ht.2)
  exact fun s t hs ht => ⟨hs.1.set_zlib ht.1 ht.2.2, ht.2.1⟩

/-- of libffi, with zlib installed, -/
theorem libffiBuild_triple (hr : PythonRun env r) :
    Triple (fun s => PythonInv env s ∧ ZlibReady env s ∧ s.libffi.source.isSome)
      (PythonDir.libffiSite.on (libStage env.libffi (fun c => r (.libffiBuild c))))
      (fun s => PythonInv env s ∧ LibffiReady env s) (PythonInv env) := by
  refine Triple.on PythonDir.libffiSite
    (fun s _ => libStage_triple (d := s.install) (hr (.libffiBuild .install)))
    (fun s hs => ⟨hs.1.libffi, hs.2.2, rfl⟩) ?_ (fun s t hs ht => hs.1.set_libffi ht.1 ht.2)
  rintro s t ⟨hs, hz, -⟩ ⟨ht, hinst, hd⟩
  exact ⟨hs.set_libffi ht hd, Package.Installed.sameOn hz (hd _ env.zlib_libffi), hinst⟩

/-- and of OpenSSL, with both installed. -/
theorem opensslBuild_triple (hr : PythonRun env r) :
    Triple (fun s => PythonInv env s ∧ LibffiReady env s ∧ s.openssl.source.isSome)
      (PythonDir.opensslSite.on (libStage env.openssl (fun c => r (.opensslBuild c))))
      (fun s => PythonInv env s ∧ LibsReady env s) (PythonInv env) := by
  refine Triple.on PythonDir.opensslSite
    (fun s _ => libStage_triple (d := s.install) (hr (.opensslBuild .install)))
    (fun s hs => ⟨hs.1.openssl, hs.2.2, rfl⟩) ?_ (fun s t hs ht => hs.1.set_openssl ht.1 ht.2)
  rintro s t ⟨hs, ⟨hz, hf⟩, -⟩ ⟨ht, hinst, hd⟩
  exact ⟨hs.set_openssl ht hd, ⟨Package.Installed.sameOn hz (hd _ env.zlib_openssl),
    Package.Installed.sameOn hf (hd _ env.libffi_openssl)⟩, hinst⟩

/-- With everything before it complete, the target is built from complete inputs. -/
theorem inputs_eq (hlibs : LibsReady env s)
    (hhost : PythonStage.hostPython.Completed env s) : s.inputs env = env.inputs := by
  have hext : (s.install.getD Tree.empty).Extends env.libs :=
    (hlibs.1.1.2.both hlibs.1.2.2).both hlibs.2.2
  show (⟨_, _⟩ : TargetInputs) = ⟨_, _⟩
  rw [hext.restrict_eq, hhost.2.restrict_eq]

/-- `mkdir -p` of the prefix adds no file to it. -/
theorem mkdirPrefix_triple :
    Triple (PythonInv env)
      (fillTool PythonDir.installDir (fun _ => Tree.empty) (r .mkdirPrefix))
      (PythonInv env) (PythonInv env) := by
  have hkeep : ∀ (s : PythonDir) (d : Option Dir), PythonInv env s →
      d.getD Tree.empty = s.install.getD Tree.empty →
      PythonInv env (PythonDir.installDir.set d s) := by
    intro s d hs hd
    have htouch : ∀ w : Dir, Touched w s.install d := fun w u _ p _ => by rw [hd]
    have hempty : ∀ u : Dir, u.Apart Tree.empty := fun _ _ _ => rfl
    exact { hs with
      zlib := hs.zlib.touched (hempty _) (htouch _)
      libffi := hs.libffi.touched (hempty _) (htouch _)
      openssl := hs.openssl.touched (hempty _) (htouch _) }
  refine fillTool_triple (fun s hs => hkeep s _ hs ?_) (fun s hs _ => hkeep s _ hs ?_)
  · exact Tree.overlay_empty _
  · cases hb : (r .mkdirPrefix).progress.begun with
    | false => rw [cutFill_idle hb]; rfl
    | true => rw [cutFill_begun hb]; exact Tree.cutOverlay_empty _ _

/-- The download stages of the three libraries. -/
theorem zlibDownload_triple :
    Triple (PythonInv env)
      (PythonDir.zlibDownload.on (untarStage env.zlib.rel (fun c => r (.zlibDownload c))))
      (fun s => PythonInv env s ∧ s.zlib.source.isSome) (PythonInv env) := by
  refine Triple.on _ (fun s _ => libDownload_triple (d := s.install)) (fun s hs => hs.zlib) ?_ ?_
  · intro s t hs ht
    exact ⟨{ hs with zlib := ht.1 }, ht.2⟩
  · intro s t hs ht
    exact { hs with zlib := ht }

/-- The download of libffi, with zlib installed. -/
theorem libffiDownload_triple :
    Triple (fun s => PythonInv env s ∧ ZlibReady env s)
      (PythonDir.libffiDownload.on (untarStage env.libffi.rel (fun c => r (.libffiDownload c))))
      (fun s => PythonInv env s ∧ ZlibReady env s ∧ s.libffi.source.isSome)
      (PythonInv env) := by
  refine Triple.on _ (fun s _ => libDownload_triple (d := s.install))
    (fun s hs => hs.1.libffi) ?_ ?_
  · intro s t hs ht
    exact ⟨{ hs.1 with libffi := ht.1 }, hs.2, ht.2⟩
  · intro s t hs ht
    exact { hs.1 with libffi := ht }

/-- The download of OpenSSL, with both installed. -/
theorem opensslDownload_triple :
    Triple (fun s => PythonInv env s ∧ LibffiReady env s)
      (PythonDir.opensslDownload.on
        (untarStage env.openssl.rel (fun c => r (.opensslDownload c))))
      (fun s => PythonInv env s ∧ LibffiReady env s ∧ s.openssl.source.isSome)
      (PythonInv env) := by
  refine Triple.on _ (fun s _ => libDownload_triple (d := s.install))
    (fun s hs => hs.1.openssl) ?_ ?_
  · intro s t hs ht
    exact ⟨{ hs.1 with openssl := ht.1 }, hs.2, ht.2⟩
  · intro s t hs ht
    exact { hs.1 with openssl := ht }

/-- The CPython sources are those of the release, and nothing else. -/
theorem cpythonDownload_triple :
    Triple (fun s => PythonInv env s ∧ LibsReady env s)
      (PythonDir.cpythonDownload.on (untarStage env.cpython (fun c => r (.cpythonDownload c))))
      (fun s => PythonInv env s ∧ LibsReady env s ∧ s.cpython.source = some env.cpython.tree)
      (PythonInv env) := by
  refine Triple.on _ (fun _ _ => untarStage_triple (unpacking_exact env.cpython) _)
    (fun s hs => ⟨hs.1.cpython, hs.1.unpacked⟩) ?_ ?_
  · rintro s t hs ⟨⟨u, hu, rfl⟩, hun⟩
    exact ⟨{ hs.1 with cpython := sourceIs_of_some hu rfl, unpacked := hun }, hs.2, hu⟩
  · intro s t hs ht
    exact { hs.1 with cpython := ht.1, unpacked := ht.2 }

/-- Everything that the host Python needs is there. -/
abbrev SourcesReady (env : PythonEnv) (s : PythonDir) : Prop :=
  PythonInv env s ∧ LibsReady env s ∧ s.cpython.source = some env.cpython.tree

/-- The host Python is built from the sources of the release. -/
theorem hostPython_triple (hr : PythonRun env r) :
    Triple (SourcesReady env)
      (fun s => PythonDir.hostSite.on (hostStage env s.cpython.source r) s)
      (fun s => SourcesReady env s ∧ PythonStage.hostPython.Completed env s)
      (PythonInv env) := by
  intro s hs
  show (PythonDir.hostSite.on (hostStage env s.cpython.source r) s).Sat _ _
  rw [hs.2.2]
  refine Triple.on (I := SourcesReady env) PythonDir.hostSite (fun _ _ => hostStage_triple hr)
    (fun s hs => hs.1.host) ?_ ?_ s hs
  · intro s t hs ht
    exact ⟨⟨{ hs.1 with host := fun _ => ht }, hs.2⟩, ht⟩
  · intro s t hs ht
    exact { hs.1 with host := ht }

/-- The target Python is built from complete inputs. -/
theorem targetPython_triple (hr : PythonRun env r) :
    Triple (fun s => SourcesReady env s ∧ PythonStage.hostPython.Completed env s)
      (fun s => PythonDir.targetSite.on
        (targetStage env s.cpython.source (s.inputs env) r) s)
      (fun s => PythonInv env s ∧ PythonStage.targetPython.Completed env s)
      (PythonInv env) := by
  rintro s ⟨⟨hs, hlibs, hsrc⟩, hhost⟩
  show (PythonDir.targetSite.on (targetStage env s.cpython.source (s.inputs env) r) s).Sat _ _
  rw [hsrc, inputs_eq hlibs hhost]
  refine Triple.on (I := PythonInv env) PythonDir.targetSite (fun _ _ => targetStage_triple hr)
    (fun s hs => hs.target) ?_ ?_ s hs
  · intro s t hs ht
    exact ⟨{ hs with target := ht.1 }, ht.2⟩
  · intro s t hs ht
    exact { hs with target := ht }

/-- **The nine stages.**  A run that is not stopped in the window keeps the invariant, and
    gets to the packaging only with a complete target Python. -/
theorem pythonStages_triple (hr : PythonRun env r) :
    Triple (PythonInv env) (pythonStages env r)
      (fun s => PythonInv env s ∧ PythonStage.targetPython.Completed env s)
      (PythonInv env) := by
  have hcheck : Triple (PythonInv env) (inert (r .checkNdk)) (PythonInv env) (PythonInv env) :=
    Triple.inert (fun _ hs => hs) (fun _ hs => hs)
  exact Triple.cons hcheck (Triple.cons mkdirPrefix_triple
    (Triple.cons zlibDownload_triple (Triple.cons (zlibBuild_triple hr)
    (Triple.cons libffiDownload_triple (Triple.cons (libffiBuild_triple hr)
    (Triple.cons opensslDownload_triple (Triple.cons (opensslBuild_triple hr)
    (Triple.cons cpythonDownload_triple (Triple.cons (hostPython_triple hr)
    (Triple.cons (targetPython_triple hr) (Triple.nil fun _ hs => hs)))))))))))

/-! ### The packaging -/

/-- The interpreter of a complete build. -/
theorem built_python (env : PythonEnv) :
    ∃ b, env.target.built env.inputs env.target.files pythonPath = some b := by
  obtain ⟨b, hb⟩ := Option.ne_none_iff_exists'.mp (env.make_python env.inputs)
  exact ⟨b, Tree.overlay_of_some (Tree.overlay_of_some hb)⟩

/-- Below `python_usr` stands exactly what the target Python installs. -/
theorem usr_eq (hs : PythonInv env s) (ht : PythonStage.targetPython.Completed env s) :
    s.pythonUsr.getD Tree.empty = env.target.installed env.inputs :=
  hs.target.2.eq_of_extends ht.2

/-- `zip` makes the archive that of a complete build, whatever it held. -/
theorem zipped_eq (hs : PythonInv env s) (ht : PythonStage.targetPython.Completed env s) :
    s.zipped = { s with stdlibZip := some env.stdlibArchive } := by
  have hzip : (s.stdlibZip.getD Tree.empty).overlay env.stdlibArchive = env.stdlibArchive :=
    hs.zip.overlay_eq.trans (Tree.empty_overlay _)
  have hinto : zipInto (s.stdlibZip.getD Tree.empty) (stdlib (s.pythonUsr.getD Tree.empty))
      = env.stdlibArchive := by
    rw [usr_eq hs ht]; exact hzip
  unfold PythonDir.zipped
  rw [hinto]

/-- The archive is none of the stages. -/
theorem PythonInv.set_zip (hs : PythonInv env s) :
    PythonInv env { s with stdlibZip := some env.stdlibArchive } :=
  { hs with zip := Tree.over_empty fun _ hp => hp }

/-- Everything is built, and perhaps a file of the JNI directory is written. -/
abbrev Complete (env : PythonEnv) (s : PythonDir) : Prop :=
  PythonInv env s ∧ PythonStage.targetPython.Completed env s

/-- Nor is the library in the JNI directory. -/
theorem Complete.set_lib (f : Option ModeFile) (s : PythonDir) (hs : Complete env s) :
    Complete env (PythonDir.lib.set f s) := ⟨{ hs.1 with }, hs.2⟩

/-- The interpreter is one of the files of a complete build. -/
theorem Complete.python {b : Bytes} (hs : Complete env s)
    (hb : env.target.built env.inputs env.target.files pythonPath = some b) :
    s.target.bind (· pythonPath) = some b := by
  have hpy : (s.target.getD Tree.empty) pythonPath = some b := hs.2.1 pythonPath b hb
  cases htarget : s.target with
  | none => rw [htarget] at hpy; cases hpy
  | some t => rwa [htarget] at hpy

/-- The interpreter in the JNI directory has the bytes `b`. -/
def Interpreter (b : Bytes) (s : PythonDir) : Prop :=
  ∃ f, PythonDir.lib.get s = some f ∧ f.bytes = b

/-- `zip` replaces the archive by a rename, so a stop leaves the old one or the new one. -/
theorem zipStdlib_triple {b : Bytes} {v : CmdVerdict} :
    Triple (fun s => Complete env s ∧ Interpreter b s) (zipStdlib v)
      (fun s => (Complete env s ∧ s.stdlibZip = some env.stdlibArchive) ∧ Interpreter b s)
      (PythonInv env) := by
  refine Triple.tool (fun s s' hs he => ?_) (fun s hs _ => ?_)
  · rw [zipped_eq hs.1.1 hs.1.2] at he
    cases he
    exact ⟨⟨⟨hs.1.1.set_zip, hs.1.2⟩, rfl⟩, hs.2⟩
  · show PythonInv env (ite _ _ _)
    split
    · rw [zipped_eq hs.1.1 hs.1.2]; exact hs.1.1.set_zip
    · exact hs.1.1

/-- The copy of the archive. -/
theorem cpZip_triple {b : Bytes} {v : CmdVerdict} :
    Triple (fun s => (Complete env s ∧ s.stdlibZip = some env.stdlibArchive) ∧ Interpreter b s)
      (cpZip v)
      (fun s => (PythonInv env s ∧ PythonStage.targetPython.Completed env s ∧
        s.jniZip = some (.archive env.stdlibArchive)) ∧ Interpreter b s) (PythonInv env) := by
  refine Triple.tool (fun s s' hs he => ?_) (fun s hs _ => ?_)
  · obtain ⟨z, hz, rfl⟩ := Option.map_eq_some_iff.mp he
    have harch : z = env.stdlibArchive := Option.some.inj (hz.symm.trans hs.1.2)
    exact ⟨⟨{ hs.1.1.1 with }, hs.1.1.2, by rw [harch]⟩, hs.2⟩
  · show PythonInv env (ite _ _ _)
    split
    · exact { hs.1.1.1 with }
    · exact hs.1.1.1

/-- **The packaging** of a complete build keeps the invariant; an exit 0 leaves the stripped
    interpreter and the packed standard library of that build in the JNI directory. -/
theorem packagePython_triple {b : Bytes}
    (hb : env.target.built env.inputs env.target.files pythonPath = some b) :
    Triple (Complete env) (packagePython env r)
      (fun s => (PythonInv env s ∧ PythonStage.targetPython.Completed env s ∧
        s.jniZip = some (.archive env.stdlibArchive)) ∧
        s.libpython = some ⟨env.strip b, 0o755⟩) (PythonInv env) := by
  have hmkdir : Triple (Complete env) (inert (r .mkdirJni)) (Complete env) (PythonInv env) :=
    Triple.inert (fun _ hs => hs) (fun _ hs => hs.1)
  -- the library is copied, stripped and chmodded, the archive made in between
  have hcp : Triple (Complete env)
      (cpLib PythonDir.lib (fun s => s.target.bind (· pythonPath)) env.newMode (r .cpPython))
      (fun s => Complete env s ∧ Interpreter b s) (PythonInv env) :=
    (cpLib_triple (b := b) Complete.set_lib).consequence (fun _ hs => ⟨hs, hs.python hb⟩)
      (fun _ hs => hs) (fun _ hs => hs.1)
  have hstrip : Triple (fun s => Complete env s ∧ Interpreter b s)
      (stripLib PythonDir.lib env.strip (r .strip))
      (fun s => Complete env s ∧ Interpreter (env.strip b) s) (PythonInv env) :=
    (stripLib_triple Complete.set_lib).weaken (fun _ hs => hs) (fun _ hs => hs.1)
  have hcd : Triple (fun s => Complete env s ∧ Interpreter (env.strip b) s)
      (cd (r .cdStdlib) PythonDir.pythonUsr)
      (fun s => Complete env s ∧ Interpreter (env.strip b) s) (PythonInv env) :=
    cd_triple (fun _ hs _ => hs) (fun _ hs => hs.1.1)
  have hback : Triple (fun s => (Complete env s ∧ s.stdlibZip = some env.stdlibArchive) ∧
      Interpreter (env.strip b) s) (inert (r .cdBack)) (fun s => (Complete env s ∧
      s.stdlibZip = some env.stdlibArchive) ∧ Interpreter (env.strip b) s) (PythonInv env) :=
    Triple.inert (fun _ hs => hs) (fun _ hs => hs.1.1.1)
  have hchmod : Triple (fun s => (PythonInv env s ∧ PythonStage.targetPython.Completed env s ∧
      s.jniZip = some (.archive env.stdlibArchive)) ∧ Interpreter (env.strip b) s)
      (chmodLib PythonDir.lib (r .chmod)) (fun s => (PythonInv env s ∧
      PythonStage.targetPython.Completed env s ∧ s.jniZip = some (.archive env.stdlibArchive)) ∧
      s.libpython = some ⟨env.strip b, 0o755⟩) (PythonInv env) :=
    (chmodLib_triple fun _ _ hs => ⟨{ hs.1 with }, hs.2⟩).weaken (fun _ hs => hs)
      (fun _ hs => hs.1)
  exact Triple.cons hmkdir (Triple.cons hcp (Triple.cons hstrip (Triple.cons hcd
    (Triple.cons zipStdlib_triple (Triple.cons hback (Triple.cons cpZip_triple
    (Triple.cons hchmod (Triple.nil fun _ hs => hs))))))))

/-- **One run** that is not stopped in the window keeps the invariant, and an exit 0 leaves a
    complete build, packaged. -/
theorem buildPython_triple (hr : PythonRun env r) {b : Bytes}
    (hb : env.target.built env.inputs env.target.files pythonPath = some b) :
    Triple (PythonInv env) (buildPython env r)
      (fun s => (PythonInv env s ∧ PythonStage.targetPython.Completed env s ∧
        s.jniZip = some (.archive env.stdlibArchive)) ∧
        s.libpython = some ⟨env.strip b, 0o755⟩) (PythonInv env) :=
  Triple.cons (pythonStages_triple hr) (Triple.cons (packagePython_triple hb)
    (Triple.nil fun _ hs => hs))

end Script

/-! ### Guard soundness -/

/-- A clean checkout: none of the files of the script is there. -/
def PythonDir.clean : PythonDir where
  zlib := ⟨none, [], none, none⟩
  libffi := ⟨none, [], none, none⟩
  openssl := ⟨none, [], none, none⟩
  cpython := ⟨none, [], none, none⟩
  install := none
  host := none
  hostInstall := none
  target := none
  pythonUsr := none
  stdlibZip := none
  libpython := none
  jniZip := none

/-- A clean checkout has nothing to be wrong about. -/
theorem clean_inv (env : PythonEnv) : PythonInv env PythonDir.clean where
  zlib := ⟨fun _ ht => (by cases ht), fun hg => (by cases hg)⟩
  libffi := ⟨fun _ ht => (by cases ht), fun hg => (by cases hg)⟩
  openssl := ⟨fun _ ht => (by cases ht), fun hg => (by cases hg)⟩
  cpython := fun _ ht => by cases ht
  unpacked := Tree.Over.refl _ _
  host := fun hg => by cases hg
  target := ⟨fun hg => (by cases hg), Tree.Over.refl _ _⟩
  zip := Tree.Over.refl _ _

/-- Under the invariant every guard is right. -/
theorem PythonInv.guards {env : PythonEnv} {s : PythonDir} (hs : PythonInv env s)
    (st : PythonStage) (hskip : st.skipped s = true) : st.Completed env s := by
  cases st with
  | zlibSource =>
    obtain ⟨t, ht⟩ := Option.isSome_iff_exists.mp hskip
    exact ⟨t, ht, hs.zlib.1 t ht⟩
  | zlibInstall => exact hs.zlib.2 hskip
  | libffiSource =>
    obtain ⟨t, ht⟩ := Option.isSome_iff_exists.mp hskip
    exact ⟨t, ht, hs.libffi.1 t ht⟩
  | libffiInstall => exact hs.libffi.2 hskip
  | opensslSource =>
    obtain ⟨t, ht⟩ := Option.isSome_iff_exists.mp hskip
    exact ⟨t, ht, hs.openssl.1 t ht⟩
  | opensslInstall => exact hs.openssl.2 hskip
  | cpythonSource =>
    obtain ⟨t, ht⟩ := Option.isSome_iff_exists.mp hskip
    exact ⟨t, ht, by rw [hs.cpython t ht]; exact (Tree.Extends.refl _).extendsOff _⟩
  | hostPython => exact hs.host hskip
  | targetPython => exact hs.target.1 hskip

/-- **Guard soundness of the Python build.**  Take any history of runs from a clean checkout
    in which no run is stopped in the window.  Then the next run skips a stage only if all
    its work has been done; and a run that exits 0 leaves the target Python completely built
    and installed, its interpreter stripped as `libpython.so`, and the archive of its
    standard library as `libpython.zip.so`. -/
theorem buildPython_guards_sound (env : PythonEnv) (hist : List (Run PythonCmd))
    (hhist : ∀ r ∈ hist, StopsIn (fun c v => ¬ PythonWindow env c v) r) :
    (∀ st : PythonStage, st.skipped (after (buildPython env) hist PythonDir.clean) = true →
      st.Completed env (after (buildPython env) hist PythonDir.clean)) ∧
    ∀ r, StopsIn (fun c v => ¬ PythonWindow env c v) r → ∀ s',
      buildPython env r (after (buildPython env) hist PythonDir.clean) = .done s' →
      PythonStage.targetPython.Completed env s' ∧
      (∃ b, env.target.built env.inputs env.target.files pythonPath = some b ∧
        s'.libpython = some ⟨env.strip b, 0o755⟩) ∧
      s'.jniZip = some (.archive (packed (stdlib (env.target.installed env.inputs)))) := by
  obtain ⟨b, hb⟩ := built_python env
  -- induction over the history
  have hinv : PythonInv env (after (buildPython env) hist PythonDir.clean) :=
    after_invariant (fun r hr => (buildPython_triple (hhist r hr) hb).weaken
      (fun _ hs => hs.1.1) (fun _ hs => hs)) (clean_inv env)
  refine ⟨hinv.guards, fun r hr s' hdone => ?_⟩
  have hrun := buildPython_triple hr hb _ hinv
  rw [hdone] at hrun
  exact ⟨hrun.1.2.1, ⟨b, hb, hrun.2⟩, hrun.1.2.2⟩

/-- `lib/python3.11/os.py` and `lib/python3.11/re.py` -/
def osPath : Path := stdlibPath ++ [⟨"os.py", by decide⟩]
def rePath : Path := stdlibPath ++ [⟨"re.py", by decide⟩]

/-- The file is there. -/
theorem oneFile_self (p : Path) (b : Bytes) : oneFile p b p ≠ none := by
  rw [oneFile, Tree.write_self]
  exact Option.some_ne_none b

/-- No other file is there. -/
theorem oneFile_of_ne {p q : Path} (h : q ≠ p) (b : Bytes) : oneFile p b q = none :=
  Tree.write_of_ne _ _ h

/-- Two directories of one file each. -/
theorem oneFile_apart {p q : Path} (h : q ≠ p) (b c : Bytes) :
    (oneFile p b).Apart (oneFile q c) := by
  intro x hx
  by_cases hxq : x = q
  · subst hxq
    exact absurd (oneFile_of_ne h b) hx
  · exact oneFile_of_ne hxq c

/-- `Makefile`, and `Modules/main.c` -/
def makefile : Path := [⟨"Makefile", by decide⟩]
def modulesMain : Path := [modulesName, ⟨"main.c", by decide⟩]

/-- A static library of two source files and one installed file.  Its `configure` writes the
    `Makefile` of the release anew. -/
def sampleLib (lib : Path) : StaticLib lib where
  rel := ⟨[1], (oneFile readme [1]).write makefile [2]⟩
  pkg :=
    { release := (oneFile readme [1]).write makefile [2]
      files := oneFile readme [1]
      configure := fun _ _ => oneFile makefile [9]
      make := fun _ _ => Tree.empty
      install := fun _ _ => oneFile lib [3]
      configure_apart := fun _ => oneFile_apart (by decide) _ _
      make_apart := fun _ _ _ => rfl
      files_release := by
        intro _ p hconf _
        have hp : p ≠ makefile := by
          rintro rfl
          exact oneFile_self makefile [9] hconf
        exact (Tree.write_of_ne _ _ hp).symm }
  pkg_release := rfl
  installs_lib := oneFile_self lib [3]

/-- CPython as two files. -/
def sampleCpython : Dir := (oneFile readme [1]).write modulesMain [2]

/-- The sample has one file in `Modules`. -/
theorem mem_sampleModules (p : Path) :
    p ∈ [modulesMain] ↔ sampleCpython p ≠ none ∧ ∃ c q, p = modulesName :: c :: q := by
  rw [List.mem_singleton]
  constructor
  · rintro rfl
    exact ⟨by decide, _, _, rfl⟩
  · rintro ⟨hp, c, q, rfl⟩
    by_contra hne
    refine hp ((Tree.write_of_ne _ _ hne).trans (oneFile_of_ne ?_ _))
    exact fun h => absurd (List.cons.inj h).1 (by decide)

/-- A machine on which the target Python is one file, with a standard library of two. -/
def samplePythonEnv : PythonEnv where
  zlib := sampleLib libzPath
  libffi := sampleLib libffiPath
  openssl := sampleLib libsslPath
  zlib_libffi := oneFile_apart (by decide) _ _
  zlib_openssl := oneFile_apart (by decide) _ _
  libffi_openssl := oneFile_apart (by decide) _ _
  cpython := ⟨[1], sampleCpython⟩
  host := .verbatim (visible sampleCpython) (oneFile python3Path [4])
  host_release := rfl
  target :=
    { release := (visible sampleCpython).write setupLocalPath setupLocal
      files := (visible sampleCpython).write setupLocalPath setupLocal
      configure := fun _ _ => Tree.empty
      make := fun _ _ => oneFile pythonPath [5]
      install := fun _ _ => (oneFile osPath [6]).overlay (oneFile rePath [7])
      configure_apart := fun _ _ _ => rfl
      make_apart := by
        intro i p hp
        by_cases h : p = pythonPath
        · subst h; exact absurd rfl hp
        · exact oneFile_of_ne h _
      files_release := fun _ _ _ _ => rfl }
  target_release := rfl
  modules := [modulesMain]
  mem_modules := mem_sampleModules
  sources_python := rfl
  configure_python := fun _ => rfl
  make_python := fun _ => oneFile_self pythonPath [5]
  strip := fun b => b
  newMode := 0o644

/-- A run killed in `make install` of the target Python, with one file of two written. -/
def sampleKilledInstall : Run PythonCmd :=
  stopAt (.targetBuild .install) ⟨.killed, ⟨true, 0, fun p => if p = osPath then some 1 else none⟩⟩

/-- After it, the next run skips the target Python, which is not installed; it exits 0, and
    packs a standard library without `re.py`. -/
theorem target_guard_unsound :
    PythonStage.targetPython.skipped
        (after (buildPython samplePythonEnv) [sampleKilledInstall] PythonDir.clean) = true ∧
      ¬ PythonStage.targetPython.Completed samplePythonEnv
        (after (buildPython samplePythonEnv) [sampleKilledInstall] PythonDir.clean) ∧
      (buildPython samplePythonEnv (fun _ => unharmed)
        (after (buildPython samplePythonEnv) [sampleKilledInstall] PythonDir.clean)).exitsZero
        = true := by
  refine ⟨by decide +kernel, ?_, by decide +kernel⟩
  rintro ⟨-, hinst⟩
  exact absurd (hinst rePath [7] rfl) (by decide +kernel)

/-- A run killed in `make` of the host Python, then one that is left alone. -/
theorem buildPython_guards_sound_sample :
    (buildPython samplePythonEnv (fun _ => unharmed) (after (buildPython samplePythonEnv)
      [stopAt (.hostBuild .make) killedIdle] PythonDir.clean)).exitsZero = true ∧
    ∀ s', buildPython samplePythonEnv (fun _ => unharmed) (after (buildPython samplePythonEnv)
        [stopAt (.hostBuild .make) killedIdle] PythonDir.clean) = .done s' →
      PythonStage.targetPython.Completed samplePythonEnv s' := by
  have hhist : ∀ r ∈ [stopAt (.hostBuild .make) killedIdle],
      StopsIn (fun c v => ¬ PythonWindow samplePythonEnv c v) r := by
    intro r hr
    rw [List.mem_singleton.mp hr]
    exact stopsIn_stopAt (fun h => h)
  refine ⟨by decide +kernel, fun s' hdone => ?_⟩
  exact ((buildPython_guards_sound samplePythonEnv _ hhist).2 (fun _ => unharmed)
    (fun _ h => absurd rfl h) s' hdone).1

end VideoPackages
