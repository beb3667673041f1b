import VideoPackages.Shell
import Mathlib.Data.List.Infix

namespace VideoPackages

open Errexit FileTree DirTools

/-!
# The download stages of the three build scripts

Five stages fetch a tarball, unpack it and commit the result by a rename:

    if [ ! -d NAME-source ]; then wget URL; tar; mv NAME-version NAME-source; rm -f; fi

The LAME stage of `build_ffmpeg.sh` has no rename: it unpacks straight into the directory
that its guard tests, and patches the sources there.

* `untarStage` / `lameStage` — the two shapes, command by command;
* `untarStage_triple` — whatever is stopped wherever, a source directory under its final
  name is a complete one;
* `lameStage_triple` — the same for LAME, but only if no run is stopped in `LameWindow`.
-/

/-! ### What is fetched -/

/-- A source release: the bytes of its tarball, and the files these unpack to. -/
structure Release where
  archive : Bytes
  tree : Dir

/-- ASCII text as bytes. -/
def ascii (s : String) : Bytes := s.toList.map (fun c => UInt8.ofNat c.toNat)

/-- `s/old/new/g` from the left; the counter skips what is left of an occurrence that has
    just been replaced. -/
def substAll (old new : Bytes) : ℕ → Bytes → Bytes
  | _, [] => []
  -- still inside the occurrence that has been replaced
  | n + 1, _ :: bs => substAll old new n bs
  | 0, b :: bs =>
    if old.isPrefixOf (b :: bs) then new ++ substAll old new (old.length - 1) bs
    else b :: substAll old new 0 bs

/-- `sed -i 's/ieee754_float32_t/float/g'` on one file. -/
def sedFloat (b : Bytes) : Bytes := substAll (ascii "ieee754_float32_t") (ascii "float") 0 b

/-- `find . -type f -exec sed -i … {} +`: the patch, on every file of the directory. -/
def patchTree (t : Dir) : Dir := fun p => (t p).map sedFloat

/-- The six releases the scripts fetch.  LAME is the one that needs the patch. -/
structure Upstream where
  zlib : Release
  libffi : Release
  openssl : Release
  cpython : Release
  quickjs : Release
  lame : Release
  lame_needs_patch : ∃ p b, lame.tree p = some b ∧ sedFloat b ≠ b

/-! ### The part of the working directory that one stage touches -/

/-- The tarball under its own name, the copies that `wget` saved as `NAME.1`, `NAME.2`, …
    because that name was taken, the directory the tarball unpacks to, and the directory
    under its final name. -/
structure Download where
  tarball : Option Bytes
  copies : List Bytes
  unpacked : Option Dir
  source : Option Dir

/-- `wget` saves to the first free name. -/
def Download.save (s : Download) (b : Bytes) : Download :=
  match s.tarball with
  | none => { s with tarball := some b }
  | some _ => { s with copies := s.copies ++ [b] }

/-- The commands of the download stages. -/
inductive DownloadCmd where
  | wget | tar | mv | rm
  | cd | sed | cdUp
  deriving DecidableEq, Repr

/-- `wget URL`.  An interrupted transfer leaves the bytes received so far. -/
def wget (rel : Release) (v : CmdVerdict) : Script Download :=
  tool v (fun s => some (s.save rel.archive))
    (fun k s => if k.begun then s.save (rel.archive.take k.bytes) else s)

/-- `tar -xzf NAME` where it unpacks beside the final name.  A tarball that is not the
    whole release makes it fail after some files. -/
def untar (rel : Release) (v : CmdVerdict) : Script Download :=
  tool v
    (fun s => if s.tarball = some rel.archive then
      some { s with unpacked := fill rel.tree s.unpacked } else none)
    (fun k s => if s.tarball.isSome then
      { s with unpacked := cutFill k rel.tree s.unpacked } else s)

/-- The rename `mv NAME-version NAME-source`, when it can be one. -/
def Download.renamed (s : Download) : Option Download :=
  match s.unpacked, s.source with
  | some t, none => some { s with unpacked := none, source := some t }
  | _, _ => none

/-- `mv NAME-version NAME-source`: done or not done, never half done.  The guard of the
    stage has tested that the target does not exist. -/
def mvSource (v : CmdVerdict) : Script Download :=
  tool v Download.renamed (fun k s => if k.begun then s.renamed.getD s else s)

/-- `rm -f NAME`. -/
def rmTarball (v : CmdVerdict) : Script Download :=
  tool v (fun s => some { s with tarball := none })
    (fun k s => if k.begun then { s with tarball := none } else s)

/-- `if [ ! -d NAME-source ]; then wget; tar; mv; rm -f; fi`. -/
def untarStage (rel : Release) (r : Run DownloadCmd) : Script Download :=
  ifThen (fun s => s.source.isNone)
    (seq [wget rel (r .wget), untar rel (r .tar), mvSource (r .mv), rmTarball (r .rm)])

/-- `tar -xzf lame_3.100.orig.tar.gz`: the directory it creates is the final one. -/
def untarLame (rel : Release) (v : CmdVerdict) : Script Download :=
  tool v
    (fun s => if s.tarball = some rel.archive then
      some { s with source := fill rel.tree s.source } else none)
    (fun k s => if s.tarball.isSome then
      { s with source := cutFill k rel.tree s.source } else s)

/-- The in-place patch of the LAME sources; `sed -i` replaces one file at a time. -/
def sedLame (v : CmdVerdict) : Script Download :=
  tool v (fun s => s.source.map (fun t => { s with source := some (patchTree t) }))
    -- each file is replaced as a whole: it is patched, or as it was
    (fun k s => { s with source := s.source.map (fun t p =>
      if (k.files p).isSome then (t p).map sedFloat else t p) })

/-- `if [ ! -d lame-3.100 ]; then wget; tar; cd; find … sed; cd ..; fi`. -/
def lameStage (rel : Release) (r : Run DownloadCmd) : Script Download :=
  ifThen (fun s => s.source.isNone)
    (seq [wget rel (r .wget), untarLame rel (r .tar), cd (r .cd) Download.source,
      sedLame (r .sed), inert (r .cdUp)])

/-! ### What the commands keep -/

@[simp] theorem save_source (s : Download) (b : Bytes) : (s.save b).source = s.source := by
  unfold Download.save; cases s.tarball <;> rfl

@[simp] theorem save_unpacked (s : Download) (b : Bytes) :
    (s.save b).unpacked = s.unpacked := by
  unfold Download.save; cases s.tarball <;> rfl

/-- A taken name keeps its contents: the new bytes go to `NAME.n`. -/
theorem save_tarball (s : Download) (b : Bytes) :
    (s.save b).tarball = some (s.tarball.getD b) := by
  unfold Download.save; cases s.tarball <;> rfl

/-- The tarball under its own name, if any, is the whole release. -/
def TarballOk (rel : Release) (s : Download) : Prop :=
  ∀ b, s.tarball = some b → b = rel.archive

/-- The whole archive is as good a tarball as there is. -/
theorem TarballOk.of_archive {rel : Release} {s : Download} (h : s.tarball = some rel.archive) :
    TarballOk rel s :=
  fun _ hb => (Option.some.inj (h.symm.trans hb)).symm

/-- `wget` is interrupted after it has created the file and before the last byte. -/
def Truncates (rel : Release) (v : CmdVerdict) : Prop :=
  v.progress.begun = true ∧ v.progress.bytes < rel.archive.length

/-- `wget` touches neither directory. -/
theorem wget_triple {rel : Release} {v : CmdVerdict} {F : Option Dir → Option Dir → Prop} :
    Triple (fun s => F s.source s.unpacked) (wget rel v) (fun s => F s.source s.unpacked)
      (fun s => F s.source s.unpacked) := by
  refine Triple.tool (fun s s' hs he => ?_) (fun s hs _ => ?_)
  · cases he; simpa using hs
  · show F (ite _ _ _ : Download).source (ite _ _ _ : Download).unpacked
    split
    · simpa using hs
    · exact hs

/-- A `wget` that is not cut short leaves the whole release under the tarball's name. -/
theorem wget_tarball {rel : Release} {v : CmdVerdict}
    (hv : v.ending ≠ .exits → ¬ Truncates rel v) :
    Triple (TarballOk rel) (wget rel v) (fun s => s.tarball = some rel.archive)
      (TarballOk rel) := by
  refine Triple.tool (fun s s' hs he => ?_) (fun s hs hstop => ?_)
  · cases he
    rw [save_tarball]
    -- the name is free, or holds the whole release already
    cases h : s.tarball with
    | none => rfl
    | some b => rw [hs b h]; rfl
  · -- `exec` always succeeds, so the environment stopped the command
    have hv' := hv (fun h => absurd (hstop h) (by simp))
    show TarballOk rel (ite _ _ _ : Download)
    split
    · next hb =>
      have hlen : rel.archive.length ≤ v.progress.bytes := by
        by_contra hlt
        exact hv' ⟨hb, by omega⟩
      intro b hb'
      rw [save_tarball, List.take_of_length_le hlen] at hb'
      cases h : s.tarball with
      | none => rw [h] at hb'; exact (Option.some.inj hb').symm
      | some c => rw [h] at hb'; rw [← Option.some.inj hb']; exact hs c h
    · exact hs

/-! ### The commands, undisturbed -/

section Undisturbed

variable {rel : Release} {v : CmdVerdict} {as : List (Script Download)} {s : Download}

/-- The run of `wget` when it exits 0. -/
theorem seq_wget (hv : v.ending = .exits) :
    seq (wget rel v :: as) s = seq as (s.save rel.archive) :=
  seq_tool_done hv rfl

/-- `tar` on the whole archive. -/
theorem seq_untar (hv : v.ending = .exits) (ht : s.tarball = some rel.archive) :
    seq (untar rel v :: as) s = seq as { s with unpacked := fill rel.tree s.unpacked } :=
  seq_tool_done hv (if_pos ht)

/-- `tar` on anything else fails. -/
theorem seq_untar_fails (hv : v.ending = .exits) (ht : s.tarball ≠ some rel.archive) :
    ∃ s', seq (untar rel v :: as) s = .failed s' :=
  ⟨_, seq_tool_none hv (if_neg ht)⟩

/-- The rename, when the name is free. -/
theorem seq_mvSource (hv : v.ending = .exits) {t : Dir} (hs : s.source = none)
    (hu : s.unpacked = some t) :
    seq (mvSource v :: as) s = seq as { s with unpacked := none, source := some t } :=
  seq_tool_done hv (by unfold Download.renamed; rw [hs, hu])

/-- The tarball is removed. -/
theorem seq_rmTarball (hv : v.ending = .exits) :
    seq (rmTarball v :: as) s = seq as { s with tarball := none } :=
  seq_tool_done hv rfl

/-- `tar` into the directory that `mkdir` has made. -/
theorem seq_untarLame (hv : v.ending = .exits) (ht : s.tarball = some rel.archive) :
    seq (untarLame rel v :: as) s = seq as { s with source := fill rel.tree s.source } :=
  seq_tool_done hv (if_pos ht)

/-- It fails on anything but the whole archive. -/
theorem seq_untarLame_fails (hv : v.ending = .exits) (ht : s.tarball ≠ some rel.archive) :
    ∃ s', seq (untarLame rel v :: as) s = .failed s' :=
  ⟨_, seq_tool_none hv (if_neg ht)⟩

/-- The patch, when it exits 0. -/
theorem seq_sedLame (hv : v.ending = .exits) {t : Dir} (hs : s.source = some t) :
    seq (sedLame v :: as) s = seq as { s with source := some (patchTree t) } :=
  seq_tool_done hv (by rw [hs]; rfl)

end Undisturbed

/-! ### The rename commits a complete tree -/

/-- A directory under the final name has the property `K`. -/
def SourceIs (K : Dir → Prop) (s : Download) : Prop := ∀ t, s.source = some t → K t

/-- A directory under the final name holds every file of `u`. -/
abbrev SourceOk (u : Dir) : Download → Prop := SourceIs (fun t => t.Extends u)

/-- No source directory, no condition. -/
theorem sourceIs_of_none {K : Dir → Prop} {s : Download} (h : s.source = none) :
    SourceIs K s := by
  intro t ht; rw [h] at ht; cases ht

/-- The source directory that is there. -/
theorem sourceIs_of_some {K : Dir → Prop} {t : Dir} {s : Download} (h : s.source = some t)
    (ht : K t) : SourceIs K s := by
  intro t' ht'; rw [h] at ht'; cases ht'; exact ht

/-- Where the guard skips a stage, there is a directory under the final name. -/
theorem SourceIs.of_skipped {K : Dir → Prop} {s : Download} (h : SourceIs K s)
    (hskip : s.source.isNone = false) : ∃ t, s.source = some t ∧ K t := by
  obtain ⟨t, ht⟩ := Option.isSome_iff_exists.mp (by simpa using hskip : s.source.isSome)
  exact ⟨t, ht, h t ht⟩

/-- What an untar stage needs to know of the directory it unpacks into: `U` survives an
    extraction that is stopped, and a complete one makes it `K`. -/
structure Unpacking (rel : Release) (U : Option Dir → Prop) (K : Dir → Prop) : Prop where
  absent : U none
  cut : ∀ k d, U d → U (cutFill k rel.tree d)
  full : ∀ d, U d → K ((d.getD Tree.empty).overlay rel.tree)

/-- Over whatever was there, tar extracts every file of the release. -/
theorem unpacking_extends {rel : Release} {u : Dir} (hu : rel.tree.Extends u) :
    Unpacking rel (fun _ => True) (fun t => t.Extends u) where
  absent := trivial
  cut := fun _ _ _ => trivial
  full := fun d _ => (Tree.extends_overlay (d.getD Tree.empty) rel.tree).trans hu

/-- Where nothing else was ever there, the directory is the release. -/
theorem unpacking_exact (rel : Release) :
    Unpacking rel (fun d => Tree.Over Tree.empty rel.tree (d.getD Tree.empty))
      (fun t => t = rel.tree) where
  absent := Tree.Over.refl _ _
  cut := by
    intro k d hd
    cases hb : k.begun with
    | false => rw [cutFill_idle hb]; exact hd
    | true => rw [cutFill_begun hb]; exact hd.cutOverlay (fun _ hp => hp) _
  full := fun d hd => hd.overlay_eq.trans (Tree.empty_overlay rel.tree)

section UntarStage

variable {rel : Release} {v : CmdVerdict} {U : Option Dir → Prop} {K : Dir → Prop}

/-- `tar` writes the whole release over whatever has been unpacked before. -/
theorem Unpacking.fill (hU : Unpacking rel U K) {d : Option Dir} (hd : U d) :
    U (fill rel.tree d) := by
  rw [fill_eq_cutFill]; exact hU.cut _ d hd

/-- `tar` that exits 0 has made a directory with `K`; one that is stopped has made no source
    directory. -/
theorem untar_triple (hU : Unpacking rel U K) :
    Triple (fun s => s.source = none ∧ U s.unpacked) (untar rel v)
      (fun s => s.source = none ∧ U s.unpacked ∧ ∃ t, s.unpacked = some t ∧ K t)
      (fun s => SourceIs K s ∧ U s.unpacked) := by
  refine Triple.tool (fun s s' hs he => ?_) (fun s hs _ => ?_)
  · split at he
    · cases he; exact ⟨hs.1, hU.fill hs.2, _, rfl, hU.full _ hs.2⟩
    · cases he
  · show SourceIs K (ite _ _ _ : Download) ∧ U (ite _ _ _ : Download).unpacked
    split
    · exact ⟨sourceIs_of_none hs.1, hU.cut _ _ hs.2⟩
    · exact ⟨sourceIs_of_none hs.1, hs.2⟩

/-- What the rename does. -/
theorem renamed_some {s : Download} {t : Dir} (hs : s.source = none)
    (hu : s.unpacked = some t) :
    s.renamed = some { s with unpacked := none, source := some t } := by
  unfold Download.renamed; rw [hs, hu]

/-- The rename is the only way to a source directory. -/
theorem mvSource_triple (hnone : U none) :
    Triple (fun s => s.source = none ∧ U s.unpacked ∧ ∃ t, s.unpacked = some t ∧ K t)
      (mvSource v) (fun s => (∃ t, s.source = some t ∧ K t) ∧ U s.unpacked)
      (fun s => SourceIs K s ∧ U s.unpacked) := by
  refine Triple.tool (fun s s' hs he => ?_) (fun s hs _ => ?_)
  · obtain ⟨hsrc, -, t, hu, ht⟩ := hs
    rw [renamed_some hsrc hu] at he
    cases he; exact ⟨⟨t, rfl, ht⟩, hnone⟩
  · obtain ⟨hsrc, hs, t, hu, ht⟩ := hs
    show SourceIs K (ite _ _ _ : Download) ∧ U (ite _ _ _ : Download).unpacked
    -- the rename had happened, or it had not
    split
    · rw [renamed_some hsrc hu]
      exact ⟨sourceIs_of_some rfl ht, hnone⟩
    · exact ⟨sourceIs_of_none hsrc, hs⟩

/-- `rm -f` touches neither directory. -/
theorem rmTarball_triple {F : Option Dir → Option Dir → Prop} :
    Triple (fun s => F s.source s.unpacked) (rmTarball v) (fun s => F s.source s.unpacked)
      (fun s => F s.source s.unpacked) := by
  refine Triple.tool (fun s s' hs he => ?_) (fun s hs _ => ?_)
  · cases he; exact hs
  · show F (ite _ _ _ : Download).source (ite _ _ _ : Download).unpacked
    split <;> exact hs

/-- **The untar stages.**  Whatever stops a run wherever, and whatever earlier runs left
    behind: a directory under the final name is `K`, and the stage only exits 0 with that
    directory there. -/
theorem untarStage_triple (hU : Unpacking rel U K) (r : Run DownloadCmd) :
    Triple (fun s => SourceIs K s ∧ U s.unpacked) (untarStage rel r)
      (fun s => (∃ t, s.source = some t ∧ K t) ∧ U s.unpacked)
      (fun s => SourceIs K s ∧ U s.unpacked) := by
  have hwget : Triple (fun s => s.source = none ∧ U s.unpacked) (wget rel (r .wget))
      (fun s => s.source = none ∧ U s.unpacked) (fun s => SourceIs K s ∧ U s.unpacked) :=
    (wget_triple (F := fun src d => src = none ∧ U d)).weaken (fun s hs => hs)
      (fun s hs => ⟨sourceIs_of_none hs.1, hs.2⟩)
  have hrm : Triple (fun s => (∃ t, s.source = some t ∧ K t) ∧ U s.unpacked)
      (rmTarball (r .rm)) (fun s => (∃ t, s.source = some t ∧ K t) ∧ U s.unpacked)
      (fun s => SourceIs K s ∧ U s.unpacked) :=
    (rmTarball_triple (F := fun src d => (∃ t, src = some t ∧ K t) ∧ U d)).weaken
      (fun s hs => hs) (fun s ⟨⟨t, hst, ht⟩, hs⟩ => ⟨sourceIs_of_some hst ht, hs⟩)
  have htar := untar_triple (v := r .tar) hU
  have hmv := mvSource_triple (v := r .mv) (K := K) hU.absent
  have hbody := Triple.cons hwget (Triple.cons htar (Triple.cons hmv (Triple.cons hrm
    (Triple.nil fun s hs => hs))))
  refine Triple.ifThen (hbody.consequence (fun s hs => ?_) (fun s hs => hs) fun s hs => hs) ?_
  · exact ⟨by simpa using hs.2, hs.1.2⟩
  · exact fun s hs hskip => ⟨hs.1.of_skipped hskip, hs.2⟩

/-- **The rename is the only way in.**  Let `u` be files of the release: a directory under the
    final name holds every file of `u`, however many runs were stopped wherever. -/
theorem untarStage_sourceOk {u : Dir} (hu : rel.tree.Extends u) (r : Run DownloadCmd) :
    Triple (SourceOk u) (untarStage rel r) (fun s => ∃ t, s.source = some t ∧ t.Extends u)
      (SourceOk u) :=
  (untarStage_triple (unpacking_extends hu) r).consequence (fun _ hs => ⟨hs, trivial⟩)
    (fun _ hs => hs.1) (fun _ hs => hs.1)

end UntarStage

/-! ### The LAME stage commits by creating the directory -/

/-- The LAME sources as the build stage needs them. -/
def lamePatched (rel : Release) : Dir := patchTree rel.tree

/-- Every file that the patch changes had been replaced when `sed` was stopped. -/
def SedFull (rel : Release) (k : Progress Path) : Prop :=
  ∀ p b, rel.tree p = some b → sedFloat b ≠ b → (k.files p).isSome

/-- The stops of the LAME stage that leave a directory which is not complete and patched:
    in `wget` with part of the tarball received (the next run's `tar` then fails after some
    files), in `tar` once it has created the directory, before `sed`, and in `sed` before
    the last file that needs it. -/
def LameWindow (rel : Release) : DownloadCmd → CmdVerdict → Prop
  | .wget, v => Truncates rel v
  | .tar, v => v.progress.begun = true
  | .cd, _ => True
  | .sed, v => ¬ SedFull rel v.progress
  | _, _ => False

/-- `sed` that has come to all files has made the patched release. -/
theorem sed_of_full {rel : Release} {k : Progress Path} (h : SedFull rel k) :
    (fun p => if (k.files p).isSome then (rel.tree p).map sedFloat else rel.tree p)
      = lamePatched rel := by
  funext p
  show _ = (rel.tree p).map sedFloat
  split
  · rfl
  · next hk =>
    cases hp : rel.tree p with
    | none => rfl
    | some b =>
      by_cases hb : sedFloat b = b
      · simp [hb]
      · exact absurd (h p b hp hb) hk

section LameStage

variable {rel : Release} {v : CmdVerdict} {K : Dir → Prop}

/-- `wget` for LAME, not cut short: an exit 0 leaves the whole release. -/
theorem wgetLame_triple (hv : v.ending ≠ .exits → ¬ Truncates rel v) :
    Triple (fun s => s.source = none ∧ TarballOk rel s) (wget rel v)
      (fun s => s.source = none ∧ s.tarball = some rel.archive)
      (fun s => SourceIs K s ∧ TarballOk rel s) := by
  have hsource : Triple (fun s => s.source = none) (wget rel v) (fun s => s.source = none)
      (fun s => s.source = none) := wget_triple (F := fun src _ => src = none)
  refine (hsource.and (wget_tarball hv)).weaken (fun s hs => hs) (fun s hs => ?_)
  exact ⟨sourceIs_of_none hs.1, hs.2⟩

/-- The tarball is whole, so `tar` is only stopped from outside. -/
theorem untarLame_triple (hv : v.ending ≠ .exits → v.progress.begun = false) :
    Triple (fun s => s.source = none ∧ s.tarball = some rel.archive) (untarLame rel v)
      (fun s => s.source = some rel.tree ∧ TarballOk rel s)
      (fun s => SourceIs K s ∧ TarballOk rel s) := by
  refine Triple.tool (fun s s' hs he => ?_) (fun s hs hstop => ?_)
  · rw [if_pos hs.2] at he
    cases he
    refine ⟨?_, TarballOk.of_archive hs.2⟩
    show some (Tree.overlay (s.source.getD _) _) = _
    rw [hs.1]; exact congrArg some (Tree.empty_overlay rel.tree)
  · have hidle : v.progress.begun = false := hv fun h => absurd (hstop h) (by simp [hs.2])
    show SourceIs K (ite _ _ _ : Download) ∧ TarballOk rel (ite _ _ _ : Download)
    rw [if_pos (by simp [hs.2]), cutFill_idle hidle]
    exact ⟨sourceIs_of_none hs.1, TarballOk.of_archive hs.2⟩

/-- A stop of `sed` after the last file that needs it leaves what `sed` leaves. -/
theorem sedLame_triple (hv : v.ending ≠ .exits → SedFull rel v.progress)
    (hK : K (lamePatched rel)) :
    Triple (fun s => s.source = some rel.tree ∧ TarballOk rel s) (sedLame v)
      (fun s => s.source = some (lamePatched rel) ∧ TarballOk rel s)
      (fun s => SourceIs K s ∧ TarballOk rel s) := by
  refine Triple.tool (fun s s' hs he => ?_) (fun s hs hstop => ?_)
  · rw [hs.1] at he
    cases he; exact ⟨rfl, hs.2⟩
  · have hfull : SedFull rel v.progress := hv fun h => absurd (hstop h) (by simp [hs.1])
    refine ⟨sourceIs_of_some (t := lamePatched rel) ?_ hK, hs.2⟩
    show s.source.map _ = _
    rw [hs.1]
    exact congrArg some (sed_of_full hfull)

/-- **The LAME stage.**  Let `K` hold of the complete, patched sources.  In runs that are
    not stopped in `LameWindow`, `K` holds of every LAME directory that the stage leaves,
    and no truncated tarball is ever left behind. -/
theorem lameStage_triple (rel : Release) (r : Run DownloadCmd) {K : Dir → Prop}
    (hK : K (lamePatched rel)) (hr : StopsIn (fun c v => ¬ LameWindow rel c v) r) :
    Triple (fun s => SourceIs K s ∧ TarballOk rel s) (lameStage rel r)
      (fun s => (∃ t, s.source = some t ∧ K t) ∧ TarballOk rel s)
      (fun s => SourceIs K s ∧ TarballOk rel s) := by
  have hwget := wgetLame_triple (K := K) (hr .wget)
  have hidle : (r .tar).ending ≠ .exits → (r .tar).progress.begun = false :=
    fun h => by simpa [LameWindow] using hr .tar h
  have hfull : (r .sed).ending ≠ .exits → SedFull rel (r .sed).progress :=
    fun h => by simpa [LameWindow] using hr .sed h
  -- a stop at `cd` is in the window
  have hcd : Triple (fun s => s.source = some rel.tree ∧ TarballOk rel s)
      (cd (r .cd) Download.source) (fun s => s.source = some rel.tree ∧ TarballOk rel s)
      (fun s => SourceIs K s ∧ TarballOk rel s) := by
    refine Triple.tool (fun s s' hs he => ?_) (fun s hs hstop => ?_)
    · rw [if_pos (by simp [hs.1])] at he
      cases he; exact hs
    · exact absurd trivial (hr .cd fun h => absurd (hstop h) (by simp [hs.1]))
  have hup : Triple (fun s => s.source = some (lamePatched rel) ∧ TarballOk rel s)
      (inert (r .cdUp)) (fun s => s.source = some (lamePatched rel) ∧ TarballOk rel s)
      (fun s => SourceIs K s ∧ TarballOk rel s) :=
    Triple.inert (fun s hs => hs) (fun s hs => ⟨sourceIs_of_some hs.1 hK, hs.2⟩)
  have hbody := Triple.cons hwget (Triple.cons (untarLame_triple hidle) (Triple.cons hcd
    (Triple.cons (sedLame_triple hfull hK) (Triple.cons hup (Triple.nil fun s hs => hs)))))
  refine Triple.ifThen (hbody.consequence (fun s hs => ?_) (fun s hs => ?_) fun s hs => hs) ?_
  · exact ⟨by simpa using hs.2, hs.1.2⟩
  · exact ⟨⟨_, hs.1, hK⟩, hs.2⟩
  · exact fun s hs hskip => ⟨hs.1.of_skipped hskip, hs.2⟩

end LameStage

end VideoPackages
