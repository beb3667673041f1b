import VideoPackages.Download

namespace VideoPackages

open Errexit FileTree DirTools

/-!
# Do the download stages heal?

A stage is recoverable in a state when every further run of it that nothing disturbs exits
0 with the complete tree under its final name.  `Strands` lists the stops after which that
is no longer so; `recoverable_iff` proves the list exact, for each of the six stages.
-/

/-- The six `wget`/`tar` stages: zlib, libffi, OpenSSL and CPython in `build_python.sh`,
    QuickJS in `build_quickjs.sh`, LAME in `build_ffmpeg.sh`. -/
inductive Stage where
  | zlib | libffi | openssl | cpython | quickjs | lame
  deriving DecidableEq, Repr

namespace Stage

/-- What the stage fetches. -/
def release (up : Upstream) : Stage → Release
  | zlib => up.zlib
  | libffi => up.libffi
  | openssl => up.openssl
  | cpython => up.cpython
  | quickjs => up.quickjs
  | lame => up.lame

/-- The commands of the stage. -/
def script (up : Upstream) : Stage → Run DownloadCmd → Script Download
  | zlib => untarStage up.zlib
  | libffi => untarStage up.libffi
  | openssl => untarStage up.openssl
  | cpython => untarStage up.cpython
  | quickjs => untarStage up.quickjs
  | lame => lameStage up.lame

/-- A clean checkout.  `quickjs-2024-01-13`, the name the QuickJS tarball unpacks to, is a
    directory of the repository; of the others nothing is there. -/
def Clean : Stage → Download → Prop
  | quickjs, s => s.tarball = none ∧ s.copies = [] ∧ s.source = none
  | _, s => s = ⟨none, [], none, none⟩

/-- The tree the stage is to leave under its final name. -/
def tree (up : Upstream) : Stage → Dir
  | lame => lamePatched up.lame
  | st => (st.release up).tree

/-- The complete tree stands under the final name. -/
def Complete (up : Upstream) (st : Stage) (s : Download) : Prop :=
  ∃ t, s.source = some t ∧ t.Extends (st.tree up)

/-- One further run that nothing disturbs completes the stage. -/
def Recoverable (up : Upstream) (st : Stage) (s : Download) : Prop :=
  ∀ r, Undisturbed r → ∃ s', st.script up r s = .done s' ∧ st.Complete up s'

/-- The stops after which no rerun heals: in `wget`, with the file created and not yet
    whole; and those that leave a LAME directory which the next run takes for finished. -/
def Strands (up : Upstream) : Stage → DownloadCmd → CmdVerdict → Prop
  | lame, c, v => LameWindow up.lame c v
  | st, .wget, v => Truncates (st.release up) v
  | _, _, _ => False

/-! ### The untar stages -/

section Tarball

variable {rel : Release} {v : CmdVerdict}

/-- `tar` reads the tarball. -/
theorem untar_tarball : Triple (TarballOk rel) (untar rel v) (TarballOk rel) (TarballOk rel) := by
  refine Triple.tool (fun s s' hs he => ?_) (fun s hs _ => ?_)
  · split at he
    · cases he; exact hs
    · cases he
  · show TarballOk rel (ite _ _ _)
    split <;> exact hs

/-- The rename moves a directory. -/
theorem mvSource_tarball : Triple (TarballOk rel) (mvSource v) (TarballOk rel) (TarballOk rel) := by
  have hren : ∀ s s' : Download, TarballOk rel s → s.renamed = some s' → TarballOk rel s' := by
    intro s s' hs he
    unfold Download.renamed at he
    split at he
    · cases he; exact hs
    · cases he
  refine Triple.tool (fun s s' hs he => hren s s' hs he) (fun s hs _ => ?_)
  show TarballOk rel (ite _ _ _)
  split
  · cases he : s.renamed with
    | none => exact hs
    | some s' => exact hren s s' hs he
  · exact hs

/-- Without a tarball there is no bad one. -/
theorem rmTarball_tarball :
    Triple (TarballOk rel) (rmTarball v) (TarballOk rel) (TarballOk rel) := by
  have hrm : ∀ s : Download, TarballOk rel { s with tarball := none } := by
    intro s b hb; cases hb
  refine Triple.tool (fun s s' hs he => ?_) (fun s hs _ => ?_)
  · cases he; exact hrm s
  · show TarballOk rel (ite _ _ _ : Download)
    split
    · exact hrm s
    · exact hs

end Tarball

/-- In runs whose `wget` is not cut short, sources and tarball are both whole. -/
theorem untarStage_keeps (rel : Release) (r : Run DownloadCmd)
    (hr : (r .wget).ending ≠ .exits → ¬ Truncates rel (r .wget)) :
    Triple (fun s => SourceOk rel.tree s ∧ TarballOk rel s) (untarStage rel r)
      (fun s => SourceOk rel.tree s ∧ TarballOk rel s)
      (fun s => SourceOk rel.tree s ∧ TarballOk rel s) := by
  have hsource := untarStage_sourceOk (Tree.Extends.refl rel.tree) r
  have hwget : Triple (TarballOk rel) (wget rel (r .wget)) (TarballOk rel) (TarballOk rel) :=
    (wget_tarball hr).weaken (fun _ hs => TarballOk.of_archive hs) (fun _ hs => hs)
  -- no later command writes the tarball
  have hbody := Triple.cons hwget (Triple.cons (untar_tarball (v := r .tar)) (Triple.cons
    (mvSource_tarball (v := r .mv)) (Triple.cons (rmTarball_tarball (v := r .rm))
    (Triple.nil fun _ hs => hs))))
  have htar : Triple (TarballOk rel) (untarStage rel r) (TarballOk rel) (TarballOk rel) :=
    Triple.ifThen (hbody.consequence (fun _ hs => hs.1) (fun _ hs => hs) (fun _ hs => hs))
      (fun _ hs _ => hs)
  exact (hsource.and htar).weaken
    (fun s ⟨⟨t, hst, ht⟩, h₂⟩ => ⟨sourceIs_of_some hst ht, h₂⟩) (fun s hs => hs)

/-- With a whole tarball, or none, an undisturbed run completes the stage. -/
theorem untarStage_completes (rel : Release) (r : Run DownloadCmd) (hr : Undisturbed r) :
    Triple (fun s => SourceOk rel.tree s ∧ TarballOk rel s) (untarStage rel r)
      (fun s => ∃ t, s.source = some t ∧ t.Extends rel.tree) (fun _ => False) := by
  intro s hs
  unfold untarStage
  cases hsrc : s.source with
  | some t =>
    -- the guard skips the stage, which is complete
    rw [ifThen_neg (by simp [hsrc])]
    exact ⟨t, hsrc, hs.1 t hsrc⟩
  | none =>
    have hsave : (s.save rel.archive).tarball = some rel.archive := by
      rw [save_tarball]
      cases h : s.tarball with
      | none => rfl
      | some b => rw [hs.2 b h]; rfl
    rw [ifThen_pos (by simp [hsrc]), seq_wget (hr .wget), seq_untar (hr .tar) hsave,
      seq_mvSource (hr .mv) (by simp [hsrc]) rfl, seq_rmTarball (hr .rm)]
    exact ⟨_, rfl, Tree.extends_overlay _ _⟩

/-- A truncated tarball is for ever: every run that starts the stage saves its download
    beside it and fails in `tar`. -/
theorem untarStage_stuck {rel : Release} {r : Run DownloadCmd} (hr : Undisturbed r)
    {s : Download} {b : Bytes} (hsrc : s.source = none) (hb : s.tarball = some b)
    (hne : b ≠ rel.archive) : ∃ s', untarStage rel r s = .failed s' := by
  have hsave : (s.save rel.archive).tarball ≠ some rel.archive := by
    rw [save_tarball, hb]
    exact fun h => hne (Option.some.inj h)
  rw [untarStage, ifThen_pos (by simp [hsrc]), seq_wget (hr .wget)]
  exact seq_untar_fails (hr .tar) hsave

/-! ### The LAME stage -/

/-- The same for LAME: complete with a whole tarball, stuck with a truncated one. -/
theorem lameStage_completes (rel : Release) (r : Run DownloadCmd) (hr : Undisturbed r) :
    Triple (fun s => SourceIs (· = lamePatched rel) s ∧ TarballOk rel s) (lameStage rel r)
      (fun s => s.source = some (lamePatched rel)) (fun _ => False) := by
  intro s hs
  unfold lameStage
  cases hsrc : s.source with
  | some t => rw [ifThen_neg (by simp [hsrc])]; exact hsrc.trans (congrArg some (hs.1 t hsrc))
  | none =>
    have hsave : (s.save rel.archive).tarball = some rel.archive := by
      rw [save_tarball]
      cases h : s.tarball with
      | none => rfl
      | some b => rw [hs.2 b h]; rfl
    rw [ifThen_pos (by simp [hsrc]), seq_wget (hr .wget), seq_untarLame (hr .tar) hsave,
      seq_cd (hr .cd) rfl, seq_sedLame (hr .sed) rfl, seq_inert (hr .cdUp)]
    show some (patchTree (Tree.overlay (((s.save rel.archive).source).getD _) _)) = _
    rw [save_source, hsrc]
    exact congrArg (fun t => some (patchTree t)) (Tree.empty_overlay rel.tree)

/-- A bad tarball of LAME stays where it is, and every run fails on it. -/
theorem lameStage_stuck {rel : Release} {r : Run DownloadCmd} (hr : Undisturbed r)
    {s : Download} {b : Bytes} (hsrc : s.source = none) (hb : s.tarball = some b)
    (hne : b ≠ rel.archive) : ∃ s', lameStage rel r s = .failed s' := by
  have hsave : (s.save rel.archive).tarball ≠ some rel.archive := by
    rw [save_tarball, hb]
    exact fun h => hne (Option.some.inj h)
  rw [lameStage, ifThen_pos (by simp [hsrc]), seq_wget (hr .wget)]
  exact seq_untarLame_fails (hr .tar) hsave

/-- A replacement that differs from the text it replaces in its first byte never turns a
    text into one of its own prefixes. -/
theorem substAll_ne_take {old new : Bytes} {a b : UInt8} {old' new' : Bytes}
    (hold : old = a :: old') (hnew : new = b :: new') (hab : a ≠ b) (bs : Bytes) (n : ℕ)
    (hne : substAll old new 0 bs ≠ bs) : bs.take n ≠ substAll old new 0 bs := by
  induction bs generalizing n with
  | nil => exact absurd rfl hne
  | cons x bs ih =>
    unfold substAll at hne ⊢
    split at hne
    · next hpre =>
      -- the text starts with `a`, its replacement with `b`
      rw [if_pos hpre, hnew]
      have hx : x = a := by
        rw [hold, List.isPrefixOf_iff_prefix, List.cons_prefix_cons] at hpre
        exact hpre.1.symm
      cases n with
      | zero => simp
      | succ n => intro h; exact hab (hx ▸ (List.cons.inj h).1)
    · next hpre =>
      rw [if_neg hpre]
      have htail : substAll old new 0 bs ≠ bs := fun h => hne (by rw [h])
      cases n with
      | zero => simp
      | succ n => intro h; exact ih n htail (List.cons.inj h).2

/-- A file that was cut is not the one that `sed` would have made. -/
theorem sedFloat_ne_take (b : Bytes) (n : ℕ) (h : sedFloat b ≠ b) : b.take n ≠ sedFloat b :=
  substAll_ne_take (a := 105) (b := 102) (show ascii "ieee754_float32_t" = 105 :: _ from rfl)
    (show ascii "float" = 102 :: _ from rfl) (by decide) b n h

theorem script_lame (up : Upstream) : lame.script up = lameStage up.lame := rfl

/-- All other stages commit with a rename. -/
theorem script_untar (up : Upstream) {st : Stage} (h : st ≠ lame) :
    st.script up = untarStage (st.release up) := by
  cases st <;> first | rfl | exact absurd rfl h

/-- The clean state in which not even the checked-in QuickJS directory is present. -/
def bare : Download := ⟨none, [], none, none⟩

/-- The bare directory is clean for each stage. -/
theorem clean_bare (st : Stage) : st.Clean bare := by
  cases st <;> first | rfl | exact ⟨rfl, rfl, rfl⟩

/-- A LAME directory in which a file still holds something else than its patched text is
    taken for finished by every later run. -/
theorem lame_unfinished {up : Upstream} {r : Run DownloadCmd} {s : Download} {t : Dir}
    {p : Path} {b : Bytes} (hs : s.source = some t) (hp : up.lame.tree p = some b)
    (ht : t p ≠ some (sedFloat b)) :
    ¬ ∃ s', lame.script up r s = .done s' ∧ lame.Complete up s' := by
  rintro ⟨s', hdone, t', hs', hext⟩
  have hskip : lame.script up r s = .done s := by
    rw [script_lame, lameStage, ifThen_neg (by simp [hs])]
  rw [hskip] at hdone
  cases hdone
  rw [hs] at hs'
  cases hs'
  refine ht (hext p _ ?_)
  show (up.lame.tree p).map sedFloat = _
  rw [hp]; rfl

/-- After an interrupted transfer, the next run cannot complete an untar stage. -/
theorem truncated_stuck {rel : Release} {v : CmdVerdict} {s₁ : Download}
    (hT : Truncates rel v) (hs₁ : s₁ = if v.progress.begun then
      bare.save (rel.archive.take v.progress.bytes) else bare) :
    s₁.source = none ∧ ∃ b, s₁.tarball = some b ∧ b ≠ rel.archive := by
  rw [if_pos hT.1] at hs₁
  refine ⟨by rw [hs₁]; rfl, _, by rw [hs₁]; rfl, fun h => ?_⟩
  have hlen := congrArg List.length h
  rw [List.length_take] at hlen
  have := hT.2
  omega

/-- The first run of the LAME stage from the bare state, up to its first stop. -/
theorem lame_first_run (up : Upstream) (r : Run DownloadCmd) :
    lame.script up r bare = seq [wget up.lame (r .wget), untarLame up.lame (r .tar),
      cd (r .cd) Download.source, sedLame (r .sed), inert (r .cdUp)] bare := by
  rw [script_lame, lameStage, ifThen_pos rfl]

/-- A stop in the LAME window leaves a state that no undisturbed run completes. -/
theorem lame_strands {up : Upstream} {c : DownloadCmd} {v : CmdVerdict} {r : Run DownloadCmd}
    (hr : Undisturbed r) (hv : v.ending ≠ .exits) (h : LameWindow up.lame c v) :
    ¬ ∃ s', lame.script up r (lame.script up (stopAt c v) bare).state = .done s' ∧
      lame.Complete up s' := by
  have hother : ∀ c', c' ≠ c → (stopAt c v c').ending = .exits := fun c' hc' =>
    stopAt_ending v hc'
  obtain ⟨p, b, hp, hb⟩ := up.lame_needs_patch
  have hpre : ∀ n, b.take n ≠ sedFloat b := fun n => sedFloat_ne_take b n hb
  rw [lame_first_run]
  cases c with
  | wget =>
    -- later runs save beside the truncated tarball, and `tar` fails on it
    rw [stopAt_self, wget, seq_tool_stopped hv]
    obtain ⟨hsrc, b', hb', hne⟩ := truncated_stuck h rfl
    rintro ⟨s', hdone, -⟩
    obtain ⟨s'', hfail⟩ := lameStage_stuck hr hsrc hb' hne
    rw [script_lame, hfail] at hdone; cases hdone
  | tar =>
    rw [seq_wget (hother _ (by decide)), stopAt_self, untarLame, seq_tool_stopped hv]
    refine lame_unfinished (t := Tree.cutOverlay v.progress.files Tree.empty up.lame.tree)
      (cutFill_begun h _ _) hp ?_
    rcases Tree.cutOverlay_cases v.progress.files Tree.empty up.lame.tree p with
      heq | ⟨n, b', -, hb', heq⟩
    · -- the file has not been extracted
      rw [heq]; simp
    · -- or a part of it has been, which is not the patched text
      rw [heq, Option.some.inj (hb'.symm.trans hp)]
      exact fun hc => hpre n (Option.some.inj hc)
  | cd =>
    -- everything is extracted and nothing is patched
    rw [seq_wget (hother _ (by decide)), seq_untarLame (hother _ (by decide)) rfl, stopAt_self,
      cd, seq_tool_stopped hv]
    refine lame_unfinished rfl hp ?_
    rw [Tree.overlay_of_some hp]
    exact fun hc => hb (Option.some.inj hc).symm
  | sed =>
    rw [seq_wget (hother _ (by decide)), seq_untarLame (hother _ (by decide)) rfl,
      seq_cd (hother _ (by decide)) rfl, stopAt_self, sedLame, seq_tool_stopped hv]
    -- some file that needs the patch had not been reached
    have hnot : ∃ p b, up.lame.tree p = some b ∧ sedFloat b ≠ b ∧
        v.progress.files p = none := by
      by_contra hall
      refine h fun p b hp hb => ?_
      cases hk : v.progress.files p with
      | none => exact absurd ⟨p, b, hp, hb, hk⟩ hall
      | some n => rfl
    obtain ⟨p, b, hp, hb, hk⟩ := hnot
    refine lame_unfinished rfl hp ?_
    show ite _ _ _ ≠ _
    rw [hk]
    show Tree.overlay _ _ p ≠ _
    rw [Tree.overlay_of_some hp]
    exact fun hc => hb (Option.some.inj hc).symm
  | mv | rm | cdUp => exact h.elim

/-- A truncated transfer leaves a state that no undisturbed run of an untar stage completes. -/
theorem untar_strands {rel : Release} {v : CmdVerdict} {r : Run DownloadCmd}
    (hr : Undisturbed r) (hv : v.ending ≠ .exits) (h : Truncates rel v) :
    ¬ ∃ s', untarStage rel r (untarStage rel (stopAt .wget v) bare).state = .done s' := by
  have hstop : (untarStage rel (stopAt .wget v) bare).state
      = if v.progress.begun then bare.save (rel.archive.take v.progress.bytes) else bare := by
    rw [untarStage, ifThen_pos rfl, stopAt_self, wget, seq_tool_stopped hv]
  obtain ⟨hsrc, b', hb', hne⟩ := truncated_stuck h hstop
  rintro ⟨s', hdone⟩
  obtain ⟨s'', hfail⟩ := untarStage_stuck hr hsrc hb' hne
  rw [hdone] at hfail; cases hfail

/-- **Every stop in `Strands` strands**: after it, no undisturbed run completes the stage. -/
theorem strands_not_recoverable {up : Upstream} {st : Stage} {c : DownloadCmd} {v : CmdVerdict}
    (hv : v.ending ≠ .exits) (h : st.Strands up c v) :
    ¬ st.Recoverable up (after (st.script up) [stopAt c v] bare) := by
  intro hrec
  have hquiet : Undisturbed (fun _ => { v with ending := .exits } : Run DownloadCmd) :=
    fun _ => rfl
  obtain ⟨s', hdone, hs'⟩ := hrec _ hquiet
  rw [after_cons, after_nil] at hdone
  by_cases hst : st = lame
  · subst hst
    exact lame_strands hquiet hv h ⟨s', hdone, hs'⟩
  · have hc : c = .wget ∧ Truncates (st.release up) v := by
      cases st <;> first
        | exact absurd rfl hst
        | (cases c <;> first | exact ⟨rfl, h⟩ | exact h.elim)
    obtain ⟨rfl, hT⟩ := hc
    rw [script_untar up hst] at hdone
    exact untar_strands hquiet hv hT ⟨s', hdone⟩

/-! ### Reachable states heal -/

/-- What holds of every state that runs outside `Strands` reach. -/
def Healthy (up : Upstream) : Stage → Download → Prop
  | lame, s => SourceIs (· = lamePatched up.lame) s ∧ TarballOk up.lame s
  | st, s => SourceOk (st.release up).tree s ∧ TarballOk (st.release up) s

/-- A clean stage is healthy. -/
theorem clean_healthy {up : Upstream} {st : Stage} {s : Download} (h : st.Clean s) :
    st.Healthy up s := by
  have hs : s.source = none ∧ s.tarball = none := by
    cases st <;> first | exact ⟨h.2.2, h.1⟩ | (cases h; exact ⟨rfl, rfl⟩)
  have hsrc : ∀ {Q : Dir → Prop}, ∀ t, s.source = some t → Q t := by
    intro Q t ht; rw [hs.1] at ht; cases ht
  have htar : ∀ rel, TarballOk rel s := by
    intro rel b hb; rw [hs.2] at hb; cases hb
  cases st <;> exact ⟨hsrc, htar _⟩

/-- One run outside `Strands` keeps the stage healthy, however it ends. -/
theorem script_keeps (up : Upstream) (st : Stage) (r : Run DownloadCmd)
    (hr : StopsIn (fun c v => ¬ st.Strands up c v) r) :
    Triple (st.Healthy up) (st.script up r) (st.Healthy up) (st.Healthy up) := by
  cases st with
  | lame =>
    exact (lameStage_triple (K := (· = lamePatched up.lame)) up.lame r rfl hr).weaken
      (fun s ⟨⟨t, hst, ht⟩, hs⟩ => ⟨sourceIs_of_some hst ht, hs⟩) (fun s hs => hs)
  | _ => exact untarStage_keeps _ r (hr .wget)

/-- A healthy stage is recoverable. -/
theorem healthy_recoverable {up : Upstream} {st : Stage} {s : Download}
    (h : st.Healthy up s) : st.Recoverable up s := by
  intro r hr
  cases st with
  | lame =>
    obtain ⟨s', hdone, hs'⟩ := (lameStage_completes up.lame r hr s h).exists_done
    exact ⟨s', hdone, _, hs', Tree.Extends.refl _⟩
  | _ => exact (untarStage_completes _ r hr s h).exists_done

/-- **Recoverability of the download stages, exactly.**  Allow the environment to stop runs
    at the points of `W`, any number of times.  In every state reached from a clean
    checkout one undisturbed run completes the stage, if and only if `W` contains no stop
    of `Strands`. -/
theorem recoverable_iff (up : Upstream) (st : Stage) (W : DownloadCmd → CmdVerdict → Prop) :
    (∀ s₀, st.Clean s₀ → ∀ hist : List (Run DownloadCmd), (∀ r ∈ hist, StopsIn W r) →
        st.Recoverable up (after (st.script up) hist s₀)) ↔
      ∀ c v, v.ending ≠ .exits → W c v → ¬ st.Strands up c v := by
  constructor
  · -- one such stop in the first run is enough
    intro h c v hv hW hstrand
    refine strands_not_recoverable hv hstrand (h bare (clean_bare st) [stopAt c v] ?_)
    intro r hr
    rw [List.mem_singleton] at hr
    rw [hr]; exact stopsIn_stopAt hW
  · -- induction over the history: every run keeps the stage healthy
    intro hW s₀ hclean hist hhist
    refine healthy_recoverable (after_invariant (I := st.Healthy up) ?_ (clean_healthy hclean))
    intro r hr
    exact script_keeps up st r (fun c hc => hW c (r c) hc (hhist r hr c hc))

/-- A release of one file. -/
def sampleRelease (text : String) : Release where
  archive := ascii text
  tree := oneFile readme (ascii text)

/-- An upstream of such releases. -/
def sampleUpstream : Upstream where
  zlib := sampleRelease "zlib"
  libffi := sampleRelease "libffi"
  openssl := sampleRelease "openssl"
  cpython := sampleRelease "cpython"
  quickjs := sampleRelease "quickjs"
  lame := sampleRelease "ieee754_float32_t"
  lame_needs_patch :=
    ⟨readme, ascii "ieee754_float32_t", Tree.write_self Tree.empty readme _, by decide⟩

/-- A run killed in `wget` after one byte of the zlib tarball: from then on no undisturbed
    run completes the stage. -/
theorem zlib_truncated_not_recoverable :
    zlib.Clean bare ∧
      ¬ zlib.Recoverable sampleUpstream (after (zlib.script sampleUpstream)
        [stopAt .wget ⟨.killed, ⟨true, 1, fun _ => none⟩⟩] bare) :=
  ⟨rfl, strands_not_recoverable (by decide) ⟨rfl, by decide⟩⟩

end Stage

end VideoPackages
