import VideoPackages.Lib.Errexit
import VideoPackages.Lib.FileTree

namespace VideoPackages.DirTools

open Errexit FileTree

/-!
# Tools that work on directories, and packages built with them

Most commands of a build script fill one directory with files that are computed from other
directories: a clone, a recursive copy, a `make`, a `make install`.  They differ in the
directory and in the files only.

* `cd` — fails where there is no directory;
* `fillTool dir new` — writes the tree `new s` into the directory `dir` of the state `s`, and
  `writeTool dir p new` — the one file `p`;
* `Package` — sources that are built in place by `configure` and `make`, which may write
  files of the release anew, and installed into another directory by `make install`;
  `Package.build`, the commands that do it;
* `Package.steps_triple` — whatever earlier, unfinished builds left among the sources, an
  exit 0 leaves what a first, undisturbed build leaves; and a build that is stopped has
  touched the other directory in `make install` only.

Whether a tool can do its work on what it finds is left to its verdict; what is assumed is
that an exit 0 means that all of the work is done.
-/

variable {P β ι κ σ τ : Type*}

/-! ### Single tools -/

/-- `cd dir`: fails where there is no such directory. -/
def cd (v : Verdict κ) (dir : σ → Option τ) : Script σ :=
  tool v (fun s => if (dir s).isSome then some s else none) (fun _ s => s)

/-- `cd` goes on only where the directory is there. -/
theorem cd_triple {v : Verdict κ} {dir : σ → Option τ} {P Q R : σ → Prop}
    (hQ : ∀ s, P s → (dir s).isSome → Q s) (hR : ∀ s, P s → R s) :
    Triple P (cd v dir) Q R := by
  refine Triple.tool (fun s s' hs he => ?_) (fun s hs _ => hR s hs)
  split at he
  · next hd => cases he; exact hQ s hs hd
  · cases he

/-- A `cd` into a directory that is there is passed over. -/
theorem seq_cd {v : Verdict κ} {dir : σ → Option τ} {as : List (Script σ)} {s : σ}
    (hv : v.ending = .exits) (hd : (dir s).isSome) : seq (cd v dir :: as) s = seq as s :=
  seq_tool_done hv (if_pos hd)

/-- A tool that fills the directory `dir` with `new`. -/
def fillTool (dir : Focus σ (Option (Tree P β))) (new : σ → Tree P β)
    (v : Verdict (Progress P)) : Script σ :=
  tool v (fun s => some (dir.set (fill (new s) (dir.get s)) s))
    (fun k s => dir.set (cutFill k (new s) (dir.get s)) s)

/-- A command that fills a directory: as a whole, or cut at any place. -/
theorem fillTool_triple {dir : Focus σ (Option (Tree P β))} {new : σ → Tree P β}
    {v : Verdict (Progress P)} {A B C : σ → Prop}
    (hdone : ∀ s, A s → B (dir.set (fill (new s) (dir.get s)) s))
    (hcut : ∀ s, A s → v.ending ≠ .exits →
      C (dir.set (cutFill v.progress (new s) (dir.get s)) s)) :
    Triple A (fillTool dir new v) B C := by
  refine Triple.tool (fun s s' hs he => ?_) (fun s hs hstop => ?_)
  · cases he; exact hdone s hs
  · exact hcut s hs (fun h => absurd (hstop h) (by simp))

/-- A tool that writes the file `p` of the directory `dir`.  It fails, and writes nothing,
    where there is no such directory, and where `new` is `none`, for want of something that it
    reads or of the directory that `p` is in. -/
def writeTool [DecidableEq P] (dir : Focus σ (Option (Tree P β))) (p : P)
    (new : σ → Option (List β)) (v : Verdict (Progress P)) : Script σ :=
  tool v
    (fun s => (dir.get s).bind fun t => (new s).map fun b => dir.set (some (t.write p b)) s)
    (fun k s => ((dir.get s).bind fun t => (new s).bind fun b =>
      if k.begun then some (dir.set (some (t.write p (b.take k.bytes))) s) else none).getD s)

/-- Stopped, it may leave anything in the one file it writes. -/
theorem writeTool_triple [DecidableEq P] {dir : Focus σ (Option (Tree P β))} {p : P}
    {new : σ → Option (List β)} {v : Verdict (Progress P)} {A B C : σ → Prop}
    (hdone : ∀ s t b, A s → dir.get s = some t → new s = some b →
      B (dir.set (some (t.write p b)) s))
    (hidle : ∀ s, A s → C s)
    (hcut : ∀ s t b, A s → dir.get s = some t → C (dir.set (some (t.write p b)) s)) :
    Triple A (writeTool dir p new v) B C := by
  refine Triple.tool (fun s s' hs he => ?_) (fun s hs _ => ?_)
  · obtain ⟨t, ht, he⟩ := Option.bind_eq_some_iff.mp he
    obtain ⟨b, hb, rfl⟩ := Option.map_eq_some_iff.mp he
    exact hdone s t b hs ht hb
  · show C (Option.getD _ s)
    cases ht : dir.get s with
    | none => exact hidle s hs
    | some t =>
      cases hb : new s with
      | none => exact hidle s hs
      | some b =>
        rw [Option.bind_some, Option.bind_some]
        split
        · exact hcut s t _ hs ht
        · exact hidle s hs

/-- The stop of a tool after it has created its directory and before it has written the
    last of `new`. -/
def LeavesPart (new : Tree P β) (v : Verdict (Progress P)) : Prop :=
  v.progress.begun = true ∧ ¬ v.progress.Full new

/-- The stop of a tool that has written the file `g` of `new`, and not all of `new`. -/
def LeavesGuard (new : Tree P β) (g : P) (v : Verdict (Progress P)) : Prop :=
  v.progress.begun = true ∧ (v.progress.files g).isSome = true ∧ ¬ v.progress.Full new

/-- A stop that leaves no part is all or nothing. -/
theorem cutFill_of_not_leavesPart {new : Tree P β} {v : Verdict (Progress P)}
    (h : ¬ LeavesPart new v) (d : Option (Tree P β)) :
    cutFill v.progress new d = d ∨ cutFill v.progress new d = fill new d := by
  cases hb : v.progress.begun with
  | false => exact .inl (cutFill_idle hb new d)
  | true =>
    have hfull : v.progress.Full new := by
      by_contra hf
      exact h ⟨hb, hf⟩
    exact .inr (cutFill_full hfull hb d)

/-! ### Packages -/

/-- A package: its release, and what `configure`, `make` and `make install` write, from the
    sources and from whatever else (`ι`) they read.  They may write files of the release anew
    (a `Makefile`, a generated header), whatever these held.  `files` are the files of the
    release that building leaves alone, which is what the tools read of it. -/
structure Package (P β ι : Type*) where
  release : Tree P β
  files : Tree P β
  configure : ι → Tree P β → Tree P β
  make : ι → Tree P β → Tree P β
  install : ι → Tree P β → Tree P β
  configure_apart : ∀ i, files.Apart (configure i files)
  make_apart : ∀ i, files.Apart (make i files)
  files_release : ∀ i p, configure i files p = none → make i files p = none →
    files p = release p

/-- A package that is installed without being built. -/
def Package.verbatim (files new : Tree P β) : Package P β ι where
  release := files
  files := files
  configure := fun _ _ => Tree.empty
  make := fun _ _ => Tree.empty
  install := fun _ _ => new
  configure_apart := fun _ _ _ => rfl
  make_apart := fun _ _ _ => rfl
  files_release := fun _ _ _ _ => rfl

/-- The directory a package is built in, and the one it is installed into. -/
structure Site (P β : Type*) where
  source : Option (Tree P β)
  dest : Option (Tree P β)

def Site.sourceDir : Focus (Site P β) (Option (Tree P β)) where
  get := Site.source
  set := fun d s => { s with source := d }
  get_set := fun _ _ => rfl
  set_get := fun _ => rfl

def Site.destDir : Focus (Site P β) (Option (Tree P β)) where
  get := Site.dest
  set := fun d s => { s with dest := d }
  get_set := fun _ _ => rfl
  set_get := fun _ => rfl

/-- The commands of a build. -/
inductive BuildCmd where
  | cd | configure | make | install | cdUp
  deriving DecidableEq, Repr

namespace Package

variable (pkg : Package P β ι) (i : ι)

/-- What the tools find of the files that building leaves alone. -/
def found (s : Site P β) : Tree P β := (s.source.getD Tree.empty).restrict pkg.files

/-- `./configure; make; make install; cd ..`, inside the source directory. -/
def steps (r : Schedule BuildCmd (Progress P)) : Script (Site P β) :=
  seq [fillTool Site.sourceDir (fun s => pkg.configure i (pkg.found s)) (r .configure),
    fillTool Site.sourceDir (fun s => pkg.make i (pkg.found s)) (r .make),
    fillTool Site.destDir (fun s => pkg.install i (pkg.found s)) (r .install),
    inert (r .cdUp)]

/-- `cd source; ./configure; make; make install; cd ..`. -/
def build (r : Schedule BuildCmd (Progress P)) : Script (Site P β) :=
  seq [cd (r .cd) Site.source, pkg.steps i r]

/-- What building complete sources adds to them. -/
def products : Tree P β := (pkg.configure i pkg.files).overlay (pkg.make i pkg.files)

/-- What installing them writes. -/
def installed : Tree P β := pkg.install i pkg.files

/-- The source directory `u`, built. -/
def built (u : Tree P β) : Tree P β := u.overlay (pkg.products i)

variable {pkg i}

/-- The files that building leaves alone are not among its products. -/
theorem products_apart : pkg.files.Apart (pkg.products i) :=
  (pkg.configure_apart i).overlay (pkg.make_apart i)

/-- What is no product is not written by `configure`. -/
theorem configure_none {p : P} (h : pkg.products i p = none) :
    pkg.configure i pkg.files p = none := by
  cases hm : pkg.make i pkg.files p with
  | some b => rw [products, Tree.overlay_of_some hm] at h; cases h
  | none => rwa [products, Tree.overlay_of_none hm] at h

/-- Nor by `make`. -/
theorem make_none {p : P} (h : pkg.products i p = none) : pkg.make i pkg.files p = none := by
  cases hm : pkg.make i pkg.files p with
  | some b => rw [products, Tree.overlay_of_some hm] at h; cases h
  | none => rfl

/-- Off the products, the files that building leaves alone are those of the release. -/
theorem files_eq {p : P} (h : pkg.products i p = none) : pkg.files p = pkg.release p :=
  pkg.files_release i p (configure_none h) (make_none h)

/-- The release has the files that building leaves alone. -/
theorem release_extends (i : ι) : pkg.release.Extends pkg.files := by
  intro p b hp
  -- a file that is left alone is no product
  have hnone : pkg.products i p = none := products_apart p (by simp [hp])
  rw [← files_eq hnone, hp]

/-- A directory with every file of the release, as building leaves them, has all that the tools
    read. -/
theorem extends_of_release {t : Tree P β} (h : t.ExtendsOff pkg.release (pkg.products i)) :
    t.Extends pkg.files := by
  intro p b hp
  exact (h p b (release_extends i p b hp)).2 (products_apart p (by simp [hp]))

/-- A tree that has been built differs only in the products. -/
theorem built_over (u : Tree P β) : Tree.Over u (pkg.products i) (pkg.built i u) :=
  (Tree.Over.refl _ _).overlay fun _ hp => hp

/-- Building leaves its files alone, as it should. -/
theorem built_extends {u : Tree P β} (hu : u.Extends pkg.files) :
    (pkg.built i u).Extends pkg.files := hu.overlay products_apart

/-- The tools find the files they read, whatever else is there. -/
theorem found_of_extends {s : Site P β} {t : Tree P β} (hs : s.source = some t)
    (ht : t.Extends pkg.files) : pkg.found s = pkg.files := by
  rw [found, hs]; exact ht.restrict_eq

/-- A tree that differs only in the products still has the files. -/
theorem over_extends {u t : Tree P β} (hu : u.Extends pkg.files)
    (ht : Tree.Over u (pkg.products i) t) : t.Extends pkg.files := fun p b hp => by
  rw [ht.off p (products_apart p (by simp [hp]))]; exact hu p b hp

/-! ### What a build leaves -/

/-- A build that started from the directory `u`, and has not touched the other directory:
    `t` is `u` up to products, and has kept the property `K`. -/
def Ready (pkg : Package P β ι) (i : ι) (u : Tree P β) (K : Tree P β → Prop)
    (d : Option (Tree P β)) (s : Site P β) : Prop :=
  ∃ t, s = ⟨some t, d⟩ ∧ Tree.Over u (pkg.products i) t ∧ K t

/-- What a build that is stopped may leave: `v` is the verdict of `make install`. -/
inductive Unfinished (pkg : Package P β ι) (i : ι) (u : Tree P β) (K : Tree P β → Prop)
    (d : Option (Tree P β)) (v : Verdict (Progress P)) : Site P β → Prop
  | building {s : Site P β} : Ready pkg i u K d s → Unfinished pkg i u K d v s
  | installing : v.ending ≠ .exits →
      Unfinished pkg i u K d v
        ⟨some (pkg.built i u), cutFill v.progress (pkg.installed i) d⟩
  | installed : Unfinished pkg i u K d v ⟨some (pkg.built i u), fill (pkg.installed i) d⟩

variable {u : Tree P β} {K : Tree P β → Prop} {d : Option (Tree P β)}
  {r : Schedule BuildCmd (Progress P)} {v w : Verdict (Progress P)}

/-- A stopped writer of products leaves a build that is not finished. -/
theorem Ready.cut {t new : Tree P β} {k : Progress P} (hover : Tree.Over u (pkg.products i) t)
    (hnew : ∀ p, pkg.products i p = none → new p = none) (hKt : K t)
    (hKcut : k.begun = true → K (t.cutOverlay k.files new)) :
    Ready pkg i u K d ⟨cutFill k new (some t), d⟩ := by
  cases hb : k.begun with
  | false =>
    rw [cutFill_idle hb]
    exact ⟨t, rfl, hover, hKt⟩
  | true =>
    rw [cutFill_begun hb]
    exact ⟨_, rfl, hover.cutOverlay hnew _, hKcut hb⟩

/-- `configure` writes products only. -/
theorem configure_triple (hu : u.Extends pkg.files)
    (hK : ∀ t k, K t → K (t.cutOverlay k (pkg.configure i pkg.files))) :
    Triple (Ready pkg i u K d)
      (fillTool Site.sourceDir (fun s => pkg.configure i (pkg.found s)) v)
      (fun s => ∃ t, s = ⟨some (t.overlay (pkg.configure i pkg.files)), d⟩ ∧
        Tree.Over u (pkg.products i) t ∧ K (t.overlay (pkg.configure i pkg.files)))
      (Unfinished pkg i u K d w) := by
  apply fillTool_triple
  · rintro s ⟨t, rfl, hover, hKt⟩
    rw [found_of_extends rfl (over_extends hu hover)]
    refine ⟨t, rfl, hover, ?_⟩
    rw [Tree.overlay_eq_cutOverlay]
    exact hK t _ hKt
  · rintro s ⟨t, rfl, hover, hKt⟩ -
    rw [found_of_extends rfl (over_extends hu hover)]
    exact .building (.cut hover (fun _ hp => configure_none hp) hKt (fun _ => hK t _ hKt))

/-- `make` completes the products, whatever was there of them. -/
theorem make_triple (hu : u.Extends pkg.files)
    (hK : v.ending ≠ .exits → v.progress.begun = true → ∀ t, K t →
      K (t.cutOverlay v.progress.files (pkg.make i pkg.files))) :
    Triple (fun s => ∃ t, s = ⟨some (t.overlay (pkg.configure i pkg.files)), d⟩ ∧
        Tree.Over u (pkg.products i) t ∧ K (t.overlay (pkg.configure i pkg.files)))
      (fillTool Site.sourceDir (fun s => pkg.make i (pkg.found s)) v)
      (fun s => s = ⟨some (pkg.built i u), d⟩) (Unfinished pkg i u K d w) := by
  apply fillTool_triple
  · rintro s ⟨t, rfl, hover, -⟩
    have hconf := hover.overlay (w := pkg.configure i pkg.files) fun _ hp => configure_none hp
    rw [found_of_extends rfl (over_extends hu hconf)]
    -- products that an earlier build left are written over
    have hbuilt : (t.overlay (pkg.configure i pkg.files)).overlay (pkg.make i pkg.files)
        = pkg.built i u := by
      rw [Tree.overlay_assoc]; exact hover.overlay_eq
    exact congrArg (fun t => (⟨some t, d⟩ : Site P β)) hbuilt
  · rintro s ⟨t, rfl, hover, hKt⟩ hv
    have hconf := hover.overlay (w := pkg.configure i pkg.files) fun _ hp => configure_none hp
    rw [found_of_extends rfl (over_extends hu hconf)]
    exact .building (.cut hconf (fun _ hp => make_none hp) hKt (fun hb => hK hv hb _ hKt))

/-- `make install` is the only command that touches the other directory. -/
theorem install_triple (hu : u.Extends pkg.files) :
    Triple (fun s => s = ⟨some (pkg.built i u), d⟩)
      (fillTool Site.destDir (fun s => pkg.install i (pkg.found s)) v)
      (fun s => s = ⟨some (pkg.built i u), fill (pkg.installed i) d⟩)
      (Unfinished pkg i u K d v) := by
  apply fillTool_triple
  · rintro s rfl
    rw [found_of_extends rfl (built_extends hu)]; rfl
  · rintro s rfl hv
    rw [found_of_extends rfl (built_extends hu)]
    exact .installing hv

/-- **Building and installing a package.**  From complete sources, in whatever state of
    building, an exit 0 leaves them built and installed; any other ending leaves them
    complete, with `make install` the only command that can have touched `dest`. -/
theorem steps_triple (hu : u.Extends pkg.files)
    (hconf : ∀ t k, K t → K (t.cutOverlay k (pkg.configure i pkg.files)))
    (hmake : (r .make).ending ≠ .exits → (r .make).progress.begun = true → ∀ t, K t →
      K (t.cutOverlay (r .make).progress.files (pkg.make i pkg.files))) :
    Triple (Ready pkg i u K d) (pkg.steps i r)
      (fun s => s = ⟨some (pkg.built i u), fill (pkg.installed i) d⟩)
      (Unfinished pkg i u K d (r .install)) := by
  refine Triple.cons (configure_triple hu hconf) (Triple.cons (make_triple hu hmake)
    (Triple.cons (install_triple hu) (Triple.cons ?_ (Triple.nil fun s hs => hs))))
  exact Triple.inert (fun s hs => hs) (fun s hs => by rw [hs]; exact .installed)

/-- The same from the outside of the directory, with nothing to keep among the sources. -/
theorem build_triple (hu : u.Extends pkg.files) :
    Triple (Ready pkg i u (fun _ => True) d) (pkg.build i r)
      (fun s => s = ⟨some (pkg.built i u), fill (pkg.installed i) d⟩)
      (Unfinished pkg i u (fun _ => True) d (r .install)) :=
  Triple.cons (cd_triple (fun _ hs _ => hs) (fun _ hs => .building hs)) (Triple.cons
    (steps_triple hu (fun _ _ _ => trivial) (fun _ _ _ _ => trivial)) (Triple.nil fun _ hs => hs))

/-! ### Built and installed -/

/-- Everything that building and installing the package writes is there. -/
def Installed (pkg : Package P β ι) (i : ι) (s : Site P β) : Prop :=
  (s.source.getD Tree.empty).Extends (pkg.built i pkg.files) ∧
    (s.dest.getD Tree.empty).Extends (pkg.installed i)

/-- An undisturbed build and install from the right files. -/
theorem installed_of_done (hu : u.Extends pkg.files) :
    pkg.Installed i ⟨some (pkg.built i u), fill (pkg.installed i) d⟩ :=
  ⟨hu.overlay_both _, Tree.extends_overlay _ _⟩

/-- What else happens to the directory does no harm. -/
theorem Installed.sameOn {source d' : Option (Tree P β)} (h : pkg.Installed i ⟨source, d⟩)
    (hd : Tree.SameOn (pkg.installed i) (d.getD Tree.empty) (d'.getD Tree.empty)) :
    pkg.Installed i ⟨source, d'⟩ := ⟨h.1, h.2.sameOn hd⟩

/-- An unfinished build has the sources that it started from, up to products. -/
theorem Unfinished.source {s : Site P β} (h : Unfinished pkg i u K d v s) :
    ∃ t, s.source = some t ∧ Tree.Over u (pkg.products i) t := by
  cases h with
  | building h =>
    obtain ⟨t, rfl, hover, -⟩ := h
    exact ⟨t, rfl, hover⟩
  | installing => exact ⟨_, rfl, built_over u⟩
  | installed => exact ⟨_, rfl, built_over u⟩

/-- It has written nothing into the other directory but files that the package installs. -/
theorem Unfinished.sameOn {s : Site P β} (h : Unfinished pkg i u K d v s) {w : Tree P β}
    (hw : w.Apart (pkg.installed i)) :
    Tree.SameOn w (d.getD Tree.empty) (s.dest.getD Tree.empty) := by
  cases h with
  | building h =>
    obtain ⟨t, rfl, -⟩ := h
    exact Tree.SameOn.refl _ _
  | installing => exact cutFill_sameOn hw _ _
  | installed => exact fill_sameOn hw _

/-- **A guard on one installed file.**  Without a stop of `make install` that leaves the file
    and not everything, an unfinished build is finished if the file is there. -/
theorem Unfinished.guarded {s : Site P β} {g : P} (h : Unfinished pkg i u K d v s)
    (hu : u.Extends pkg.files) (hd : hasFile d g = false)
    (hv : v.ending ≠ .exits → ¬ LeavesGuard (pkg.installed i) g v)
    (hg : hasFile s.dest g = true) : pkg.Installed i s := by
  cases h with
  | building h =>
    -- the other directory has not been touched, so the file cannot be there
    obtain ⟨t, rfl, -⟩ := h
    rw [show hasFile d g = true from hg] at hd; cases hd
  | installing hstop =>
    replace hg := (show hasFile (cutFill v.progress (pkg.installed i) d) g = true from hg)
    cases hb : v.progress.begun with
    | false => rw [cutFill_idle hb, hd] at hg; cases hg
    | true =>
      -- `make install` had begun: it had in fact finished, or `g` was still to come
      by_cases hfull : v.progress.Full (pkg.installed i)
      · rw [cutFill_full hfull hb]; exact installed_of_done hu
      · -- then `g` has not been touched, and was not there before
        have hnone : v.progress.files g = none := by
          cases hk : v.progress.files g with
          | none => rfl
          | some n => exact absurd ⟨hb, by rw [hk]; rfl, hfull⟩ (hv hstop)
        rw [cutFill_begun hb, hasFile_some, Tree.cutOverlay_untouched hnone] at hg
        rw [hasFile_eq, hg] at hd; cases hd
  | installed => exact installed_of_done hu

end Package

end VideoPackages.DirTools
