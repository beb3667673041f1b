import VideoPackages.Lib.Errexit
import VideoPackages.Lib.NamedEntries
import VideoPackages.Shell
import Mathlib.Tactic.IntervalCases

namespace VideoPackages

open Errexit NamedEntries

/-!
# `fix_apk_permissions.sh`

The script rewrites an APK next to itself with an embedded Python program, entry by entry,
and renames the result over the APK.

* `fixLoop` — the loop of the Python program: entries in order, contents by name;
* `fixApk` — the script: the program, then `mv`;
* `fixLoop_eq` — the loop computes `fix`, the rewriting pass of `NamedEntries`;
* `fixApk_converges` — whatever kills the script whenever, the APK is the original or the
  fixed one, and stays fixed once a run has exited 0;
* `fixApk_modes` / `fixApk_contents` — what one run makes of the modes and of the bytes of
  the entries, and for which archives that is what it is meant to be.
-/

/-! ### Archives as `zipfile` sees them -/

/-- Compression methods that `zipfile` can read back. -/
inductive CompressType where
  | stored | deflated | bzip2 | lzma
  deriving DecidableEq, Repr

/-- What a central-directory entry says besides name and contents. -/
structure ZipInfo where
  compressType : CompressType
  externalAttr : BitVec 32
  deriving DecidableEq

/-- One entry: `filename`, its uncompressed bytes, and its `ZipInfo`. -/
abbrev ZipEntry := Entry String Bytes ZipInfo

/-- An archive, as the list of its central directory. -/
abbrev Archive := List ZipEntry

/-! ### The Python program -/

abbrev S_IXUSR : BitVec 32 := 0o100
abbrev S_IXGRP : BitVec 32 := 0o010
abbrev S_IXOTH : BitVec 32 := 0o001
abbrev S_IFREG : BitVec 32 := 0o100000

/-- `s.startswith(p)` -/
def startswith (s p : String) : Bool := p.toList.isPrefixOf s.toList

/-- `s.endswith(p)` -/
def endswith (s p : String) : Bool := p.toList.isSuffixOf s.toList

/-- `p in s` -/
def contains (s p : String) : Bool := decide (p.toList <:+: s.toList)

/-- The test of the loop:
    `startswith('lib/') and endswith('.so') and 'zip.so' not in item.filename`. -/
def rewrites (filename : String) : Bool :=
  startswith filename "lib/" && endswith filename ".so" && !contains filename "zip.so"

/-- The new `external_attr` of an entry that passes the test. -/
def newAttr (externalAttr : BitVec 32) : BitVec 32 :=
  let oldMode := (externalAttr >>> 16) &&& 0x1FF
  let newMode := oldMode ||| S_IXUSR ||| S_IXGRP ||| S_IXOTH
  (newMode <<< 16) ||| S_IFREG

/-- `writestr` stores the `external_attr` it is given, but `0o600 << 16` for 0. -/
def storedAttr (externalAttr : BitVec 32) : BitVec 32 :=
  if externalAttr = 0 then (0o600 : BitVec 32) <<< 16 else externalAttr

/-- What becomes of the `ZipInfo` of an entry. -/
def fixInfo (filename : String) (i : ZipInfo) : ZipInfo :=
  { i with externalAttr :=
      storedAttr (if rewrites filename then newAttr i.externalAttr else i.externalAttr) }

/-- The loop over `zin.infolist()`: `todo` is still to be read, `zout` has been written.
    `zin.read` looks the contents up by name. -/
def fixLoop (zin : Archive) : (todo zout : Archive) → Option Archive
  | [], zout => some zout
  | item :: todo, zout => do
    let data ← read zin item.name
    fixLoop zin todo (zout ++ [⟨item.name, data, fixInfo item.name item.info⟩])

/-- The rewrite done by one undisturbed run. -/
def fix (zin : Archive) : Archive := rewrite fixInfo zin

/-! ### The script -/

/-- A file at a path: a readable archive, or bytes without a central directory. -/
inductive ApkFile where
  | archive (es : Archive)
  | torn
  deriving DecidableEq

/-- The two files of the script: `$APK` and `$APK.fixed`. -/
structure ApkDir where
  apk : ApkFile
  fixed : Option ApkFile
  deriving DecidableEq

/-- How far a command of the script got. -/
inductive FixProgress where
  /-- It had not begun. -/
  | idle
  /-- The process was killed while `$FIXED` was open. -/
  | torn
  /-- It was stopped after `n` entries with `$FIXED` closed: after an exception the context
      manager still writes the central directory of what has been written. -/
  | closed (n : ℕ)
  deriving DecidableEq, Repr

/-- The commands of the script. -/
inductive FixCmd where
  | checkArgs | python | mv | echo
  deriving DecidableEq, Repr

/-- The archive that the first `n` rounds of the loop have written. -/
def written (zin : Archive) (n : ℕ) : Archive := (fixLoop zin (zin.take n) []).getD []

/-- The Python program when it finishes.  Where `$APK` is no archive it raises before
    `$FIXED` is opened. -/
def ApkDir.rewritten (s : ApkDir) : Option ApkDir :=
  match s.apk with
  | .archive zin => (fixLoop zin zin []).map fun zout => { s with fixed := some (.archive zout) }
  | .torn => none

/-- The Python program when it does not. -/
def ApkDir.abandoned (k : FixProgress) (s : ApkDir) : ApkDir :=
  match s.apk, k with
  | .archive _, .torn => { s with fixed := some .torn }
  | .archive zin, .closed n => { s with fixed := some (.archive (written zin n)) }
  | _, _ => s

/-- `python3 -c "…"` -/
def runPython (v : Verdict FixProgress) : Script ApkDir :=
  tool v ApkDir.rewritten ApkDir.abandoned

/-- The rename `mv "$FIXED" "$APK"`. -/
def ApkDir.renamed (s : ApkDir) : Option ApkDir := s.fixed.map fun f => ⟨f, none⟩

/-- `mv "$FIXED" "$APK"`: done or not done, never half done. -/
def mvFixed (v : Verdict FixProgress) : Script ApkDir :=
  tool v ApkDir.renamed (fun k s => if k = .idle then s else s.renamed.getD s)

/-- `fix_apk_permissions.sh "$APK" …` on an APK that exists. -/
def fixApk (r : Schedule FixCmd FixProgress) : Script ApkDir :=
  seq [inert (r .checkArgs), runPython (r .python), mvFixed (r .mv), inert (r .echo)]

/-! ### The loop is the rewriting pass -/

/-- **Loop invariant.**  What has been written is the rewritten prefix, and no lookup can
    fail. -/
theorem fixLoop_eq (zin todo zout : Archive) (h : ∀ e ∈ todo, e ∈ zin) :
    fixLoop zin todo zout = some (zout ++ todo.map (rewriteEntry fixInfo zin)) := by
  induction todo generalizing zout with
  | nil => simp [fixLoop]
  | cons item todo ih =>
    obtain ⟨b, hb⟩ := read_eq_some (h item List.mem_cons_self)
    have hitem : (⟨item.name, b, fixInfo item.name item.info⟩ : ZipEntry)
        = rewriteEntry fixInfo zin item := by
      unfold rewriteEntry; rw [hb]; rfl
    rw [fixLoop, hb]
    show fixLoop zin todo (zout ++ [_]) = _
    rw [ih _ (fun e he => h e (List.mem_cons_of_mem item he)), hitem, List.map_cons,
      List.append_assoc, List.singleton_append]

/-- The loop over all entries, as one pass. -/
theorem fixLoop_self (zin : Archive) : fixLoop zin zin [] = some (fix zin) := by
  rw [fixLoop_eq zin zin [] (fun _ h => h)]; rfl

/-! ### Modes -/

/-- The Unix mode of an entry. -/
def unixMode (attr : BitVec 32) : BitVec 32 := attr >>> 16

/-- The MS-DOS attributes of an entry. -/
def dosAttr (attr : BitVec 32) : BitVec 32 := attr &&& 0xFFFF

/-- Once rewritten, an attribute is not changed again. -/
theorem newAttr_idem (a : BitVec 32) : newAttr (newAttr a) = newAttr a := by
  ext i hi
  simp only [newAttr, BitVec.getElem_or, BitVec.getElem_shiftLeft, BitVec.getElem_and,
    BitVec.getElem_ushiftRight]
  interval_cases i <;> simp

/-- The type bit lands in the low half, where MS-DOS attributes are. -/
theorem newAttr_bit15 (a : BitVec 32) : (newAttr a).getLsbD 15 = true := by
  simp [newAttr]

/-- A rewritten attribute has the bits for executing. -/
theorem newAttr_ne_zero (a : BitVec 32) : newAttr a ≠ 0 := by
  intro h
  have hbit := newAttr_bit15 a
  rw [h] at hbit
  simp at hbit

/-- So the Unix mode of a rewritten entry is never that of a regular file. -/
theorem newAttr_not_regular (a : BitVec 32) :
    unixMode (newAttr a) &&& 0o170000 ≠ S_IFREG := by
  intro h
  have hbit := congrArg (fun b : BitVec 32 => b.getLsbD 15) h
  simp [unixMode, newAttr] at hbit

theorem storedAttr_of_ne {a : BitVec 32} (h : a ≠ 0) : storedAttr a = a := if_neg h

/-- What `writestr` stores for 0 it stores again. -/
theorem storedAttr_idem (a : BitVec 32) : storedAttr (storedAttr a) = storedAttr a := by
  by_cases h : a = 0
  · subst h; decide
  · rw [storedAttr_of_ne h, storedAttr_of_ne h]

/-- `writestr` changes nothing but 0. -/
theorem storedAttr_eq_iff (a : BitVec 32) : storedAttr a = a ↔ a ≠ 0 := by
  constructor
  · rintro h rfl; exact absurd h (by decide)
  · exact storedAttr_of_ne

/-- The rewriting of an entry, twice, is the rewriting once. -/
theorem fixInfo_idem (n : String) (i : ZipInfo) : fixInfo n (fixInfo n i) = fixInfo n i := by
  unfold fixInfo
  cases hn : rewrites n with
  | true =>
    simp only [if_true]
    simp only [storedAttr_of_ne (newAttr_ne_zero _), newAttr_idem]
  | false =>
    simp only [Bool.false_eq_true, if_false]
    rw [storedAttr_idem]

/-- **`fix` is idempotent**, on every archive. -/
theorem fix_idem (zin : Archive) : fix (fix zin) = fix zin := rewrite_idem fixInfo_idem zin

/-! ### One run -/

/-- The run of Python on an archive, when it exits 0. -/
theorem rewritten_of_archive {zin : Archive} {s : ApkDir} (hs : s.apk = .archive zin) :
    s.rewritten = some ⟨.archive zin, some (.archive (fix zin))⟩ := by
  unfold ApkDir.rewritten
  rw [hs]
  show Option.map _ (fixLoop zin zin []) = _
  rw [fixLoop_self]; rfl

/-- Whatever is left of the program, only `$FIXED` has been written. -/
theorem abandoned_apk (k : FixProgress) (s : ApkDir) : (s.abandoned k).apk = s.apk := by
  obtain ⟨apk, fixed⟩ := s
  cases apk <;> cases k <;> rfl

/-- Python leaves the APK alone. -/
theorem runPython_triple {zin : Archive} {v : Verdict FixProgress} :
    Triple (fun s => s.apk = .archive zin) (runPython v)
      (fun s => s.apk = .archive zin ∧ s.fixed = some (.archive (fix zin)))
      (fun s => s.apk = .archive zin) := by
  refine Triple.tool (fun s s' hs he => ?_) (fun s hs _ => ?_)
  · rw [rewritten_of_archive hs] at he
    cases he; exact ⟨rfl, rfl⟩
  · exact (abandoned_apk _ s).trans hs

/-- The rename is atomic. -/
theorem mvFixed_triple {zin : Archive} {v : Verdict FixProgress} :
    Triple (fun s => s.apk = .archive zin ∧ s.fixed = some (.archive (fix zin))) (mvFixed v)
      (fun s => s.apk = .archive (fix zin))
      (fun s => s.apk = .archive zin ∨ s.apk = .archive (fix zin)) := by
  have hren : ∀ s : ApkDir, s.fixed = some (.archive (fix zin)) →
      s.renamed = some ⟨.archive (fix zin), none⟩ := by
    intro s hs; unfold ApkDir.renamed; rw [hs]; rfl
  refine Triple.tool (fun s s' hs he => ?_) (fun s hs _ => ?_)
  · rw [hren s hs.2] at he
    cases he; rfl
  · show (ite _ _ _ : ApkDir).apk = _ ∨ (ite _ _ _ : ApkDir).apk = _
    split
    · exact .inl hs.1
    · rw [hren s hs.2]; exact .inr rfl

/-- **One run of the fixer.**  An exit 0 leaves the fixed archive; any other ending leaves
    the archive as it was, or fixed. -/
theorem fixApk_triple (zin : Archive) (r : Schedule FixCmd FixProgress) :
    Triple (fun s => s.apk = .archive zin) (fixApk r) (fun s => s.apk = .archive (fix zin))
      (fun s => s.apk = .archive zin ∨ s.apk = .archive (fix zin)) := by
  refine Triple.cons (M := fun s => s.apk = .archive zin) ?_ (Triple.cons
    (runPython_triple.weaken (fun s hs => hs) (fun s hs => .inl hs)) (Triple.cons
    mvFixed_triple (Triple.cons ?_ (Triple.nil fun s hs => hs))))
  · exact Triple.inert (fun s hs => hs) (fun s hs => .inl hs)
  · exact Triple.inert (fun s hs => hs) (fun s hs => .inr hs)

/-- An undisturbed run exits 0. -/
theorem fixApk_exits {zin : Archive} {r : Schedule FixCmd FixProgress} (hr : Undisturbed r)
    {s : ApkDir} (hs : s.apk = .archive zin) :
    fixApk r s = .done ⟨.archive (fix zin), none⟩ := by
  rw [fixApk, seq_inert (hr .checkArgs), runPython,
    seq_tool_done (hr .python) (rewritten_of_archive hs), mvFixed]
  have hmv : ApkDir.renamed ⟨.archive zin, some (.archive (fix zin))⟩
      = some ⟨.archive (fix zin), none⟩ := rfl
  rw [seq_tool_done (hr .mv) hmv, seq_inert (hr .echo), seq_nil]

/-- What stands at `$FIXED` before a run has no influence on the APK it leaves. -/
theorem fixApk_ignores_leftover {zin : Archive} {s₁ s₂ : ApkDir} (h₁ : s₁.apk = .archive zin)
    (h₂ : s₂.apk = .archive zin) (r : Schedule FixCmd FixProgress) :
    (fixApk r s₁).state.apk = (fixApk r s₂).state.apk := by
  by_cases hcheck : (r .checkArgs).ending = .exits
  · rw [fixApk, seq_inert hcheck, seq_inert hcheck]
    by_cases hpy : (r .python).ending = .exits
    · -- the program truncates `$FIXED` first, so both runs go on from one state
      rw [runPython, seq_tool_done hpy (rewritten_of_archive h₁),
        seq_tool_done hpy (rewritten_of_archive h₂)]
    · rw [runPython, seq_tool_stopped hpy, seq_tool_stopped hpy, abandoned_apk, abandoned_apk,
        h₁, h₂]
  · rw [fixApk, inert, seq_tool_stopped hcheck, seq_tool_stopped hcheck, h₁, h₂]

/-! ### Any history of runs -/

/-- The APK is the original or the fixed archive. -/
def Converging (A : Archive) (s : ApkDir) : Prop :=
  s.apk = .archive A ∨ s.apk = .archive (fix A)

/-- A fixed APK stays fixed, however a run ends. -/
theorem fixApk_keeps_fixed (A : Archive) (r : Schedule FixCmd FixProgress) :
    Triple (fun s => s.apk = .archive (fix A)) (fixApk r) (fun s => s.apk = .archive (fix A))
      (fun s => s.apk = .archive (fix A)) := by
  have h := fixApk_triple (fix A) r
  rw [fix_idem] at h
  exact h.weaken (fun s hs => hs) (fun s hs => hs.elim id id)

/-- A run that is stopped leaves the APK as it was, or fixed. -/
theorem fixApk_keeps_converging (A : Archive) (r : Schedule FixCmd FixProgress) :
    Triple (Converging A) (fixApk r) (fun s => s.apk = .archive (fix A)) (Converging A) := by
  rintro s (hs | hs)
  · exact fixApk_triple A r s hs
  · exact (fixApk_keeps_fixed A r s hs).mono (fun _ h => h) (fun _ h => .inr h)

/-- So does any history of runs. -/
theorem after_converging {A : Archive} {s₀ : ApkDir} (h₀ : s₀.apk = .archive A)
    (hist : List (Schedule FixCmd FixProgress)) : Converging A (after fixApk hist s₀) :=
  after_invariant (fun r _ => (fixApk_keeps_converging A r).weaken (fun _ h => .inr h)
    (fun _ h => h)) (.inl h₀)

/-- A leftover `$FIXED` has no influence over a whole history either. -/
theorem after_ignores_leftover {A : Archive} (hist : List (Schedule FixCmd FixProgress))
    {s₁ s₂ : ApkDir} (h₁ : Converging A s₁) (h : s₂.apk = s₁.apk) :
    (after fixApk hist s₂).apk = (after fixApk hist s₁).apk := by
  induction hist generalizing s₁ s₂ with
  | nil => exact h
  | cons r hist ih =>
    rw [after_cons, after_cons]
    have hrun : Converging A (fixApk r s₁).state :=
      ((fixApk_keeps_converging A r s₁ h₁).mono (fun _ h => .inr h) (fun _ h => h)).state
    refine ih hrun ?_
    rcases h₁ with h₁ | h₁ <;> exact fixApk_ignores_leftover (h.trans h₁) h₁ r

/-- **Crash-safe convergence.**  Let the APK be the archive `A`, and take any history of
    runs, stopped anywhere, over any leftover `$FIXED`.  The APK is then `A` or `fix A`, the
    archive that an undisturbed run leaves; once a run exits 0 it is `fix A`, and stays so
    through any further history; and the leftover never matters. -/
theorem fixApk_converges (A : Archive) (s₀ : ApkDir) (h₀ : s₀.apk = .archive A)
    (hist : List (Schedule FixCmd FixProgress)) :
    ((after fixApk hist s₀).apk = .archive A ∨ (after fixApk hist s₀).apk = .archive (fix A)) ∧
    (∀ r, Undisturbed r → fixApk r s₀ = .done ⟨.archive (fix A), none⟩) ∧
    (∀ r s', fixApk r (after fixApk hist s₀) = .done s' → s'.apk = .archive (fix A) ∧
      ∀ more, (after fixApk more s').apk = .archive (fix A)) ∧
    (∀ s₁ : ApkDir, s₁.apk = s₀.apk →
      (after fixApk hist s₁).apk = (after fixApk hist s₀).apk) ∧
    fix (fix A) = fix A := by
  refine ⟨after_converging h₀ hist, fun r hr => fixApk_exits hr h₀, fun r s' hdone => ?_,
    fun s₁ hs₁ => after_ignores_leftover hist (.inl h₀) hs₁, fix_idem A⟩
  have hrun := fixApk_keeps_converging A r _ (after_converging h₀ hist)
  rw [hdone] at hrun
  exact ⟨hrun, fun more => after_invariant (fun r _ => fixApk_keeps_fixed A r) hrun⟩

/-- An archive with a duplicate name, a zero attribute, and a library that needs the fix. -/
def sampleApk : Archive :=
  [⟨"lib/arm64-v8a/libqjs.so", [1], ⟨.deflated, (0o100644 : BitVec 32) <<< 16⟩⟩,
   ⟨"assets/a", [2], ⟨.stored, 0⟩⟩,
   ⟨"assets/a", [3], ⟨.stored, 0⟩⟩]

/-- The run that is left alone. -/
def quiet : Schedule FixCmd FixProgress := fun _ => ⟨.exits, .idle⟩

/-- A first run is killed after one entry, a second one just after the rename. -/
theorem fixApk_converges_sample :
    let hist := [stopAt .python ⟨.fails, .closed 1⟩, stopAt .mv ⟨.killed, .torn⟩]
    (after fixApk hist ⟨.archive sampleApk, some .torn⟩).apk = .archive sampleApk ∨
      (after fixApk hist ⟨.archive sampleApk, some .torn⟩).apk = .archive (fix sampleApk) :=
  (fixApk_converges sampleApk ⟨.archive sampleApk, some .torn⟩ rfl _).1

/-! ### The modes one run leaves -/

/-- A native library: below `lib/`, named `….so`, and not a data archive `….zip.so`. -/
def nativeLib (filename : String) : Bool :=
  startswith filename "lib/" && endswith filename ".so" && !endswith filename ".zip.so"

/-- The Unix mode is that of a regular file with at least the permissions 0755. -/
def Mode755 (attr : BitVec 32) : Prop :=
  unixMode attr &&& 0o170000 = S_IFREG ∧ unixMode attr &&& 0o755 = 0o755

instance (attr : BitVec 32) : Decidable (Mode755 attr) :=
  inferInstanceAs (Decidable (_ ∧ _))

/-- The mode law for one entry, before and after. -/
def EntryModeLaw (a b : ZipEntry) : Prop :=
  if nativeLib a.name then
    Mode755 b.info.externalAttr ∧ dosAttr b.info.externalAttr = dosAttr a.info.externalAttr
  else b.info.externalAttr = a.info.externalAttr

instance (a b : ZipEntry) : Decidable (EntryModeLaw a b) :=
  inferInstanceAs (Decidable (ite _ _ _))

/-- The mode law, entry by entry. -/
def ModeLaw (A B : Archive) : Prop := List.Forall₂ EntryModeLaw A B

instance (A B : Archive) : Decidable (ModeLaw A B) :=
  inferInstanceAs (Decidable (List.Forall₂ _ _ _))

/-- What an entry must be for the law to hold of it: not one that the script rewrites; with
    mode 0755 or more already, if it is a native library whose name contains `zip.so`; with
    some nonzero `external_attr`, if it is no native library. -/
def ModeOk (e : ZipEntry) : Prop :=
  rewrites e.name = false ∧
    (nativeLib e.name = true → Mode755 e.info.externalAttr) ∧
    (nativeLib e.name = false → e.info.externalAttr ≠ 0)

/-- The script rewrites native libraries only: a name that ends in `.zip.so` contains
    `zip.so`. -/
theorem nativeLib_of_rewrites {n : String} (h : rewrites n = true) : nativeLib n = true := by
  unfold rewrites at h
  unfold nativeLib
  rw [Bool.and_eq_true] at h ⊢
  refine ⟨h.1, ?_⟩
  have hcontains : contains n "zip.so" = false := by rw [← Bool.not_eq_true']; exact h.2
  have hsub : ¬ "zip.so".toList <:+: n.toList := of_decide_eq_false hcontains
  rw [Bool.not_eq_true']
  by_contra hend
  have hsuf : ".zip.so".toList <:+ n.toList := by
    simpa [endswith, List.isSuffixOf_iff_suffix] using hend
  exact hsub ((show "zip.so".toList <:+: ".zip.so".toList by decide).trans hsuf.isInfix)

/-- The law holds of an entry exactly when the entry meets `ModeOk`. -/
theorem entryModeLaw_iff (A : Archive) (e : ZipEntry) :
    EntryModeLaw e (rewriteEntry fixInfo A e) ↔ ModeOk e := by
  show (if nativeLib e.name then _ ∧ _ else _) ↔ _
  show (if nativeLib e.name then
      Mode755 (fixInfo e.name e.info).externalAttr ∧
        dosAttr (fixInfo e.name e.info).externalAttr = dosAttr e.info.externalAttr
    else (fixInfo e.name e.info).externalAttr = e.info.externalAttr) ↔ _
  unfold ModeOk fixInfo
  cases hr : rewrites e.name with
  | true =>
    -- a rewritten entry is a native library, and its mode is never that of a regular file
    simp only [if_true, nativeLib_of_rewrites hr, storedAttr_of_ne (newAttr_ne_zero _)]
    refine ⟨fun h => absurd h.1.1 (newAttr_not_regular _), fun h => ?_⟩
    exact absurd h.1 (by simp)
  | false =>
    cases hn : nativeLib e.name with
    | true =>
      simp only [if_true, Bool.false_eq_true, if_false, true_and, true_implies,
        Bool.true_eq_false, false_implies, and_true]
      by_cases h0 : e.info.externalAttr = 0
      · rw [h0]; exact ⟨fun h => absurd h.1 (by decide), fun h => absurd h (by decide)⟩
      · rw [storedAttr_of_ne h0]; simp
    | false =>
      simp [storedAttr_eq_iff]

/-- **Mode law, exactly.**  After an exit 0 the archive obeys the mode law if and only if
    every entry of the original was one for which the script need not have done anything. -/
theorem fixApk_modes (A : Archive) (r : Schedule FixCmd FixProgress) (s s' : ApkDir)
    (hs : s.apk = .archive A) (hdone : fixApk r s = .done s') :
    ∃ B, s'.apk = .archive B ∧ (ModeLaw A B ↔ ∀ e ∈ A, ModeOk e) := by
  have hrun := fixApk_triple A r s hs
  rw [hdone] at hrun
  refine ⟨fix A, hrun, ?_⟩
  unfold ModeLaw fix rewrite
  rw [List.forall₂_map_right_iff, List.forall₂_same]
  exact forall₂_congr fun e _ => entryModeLaw_iff A e

/-- A native library as Gradle packages it: a regular file, without execute permission. -/
def plainLib : Archive :=
  [⟨"lib/arm64-v8a/libffmpeg.so", [1], ⟨.stored, (0o100644 : BitVec 32) <<< 16⟩⟩]

/-- What the script makes of it: mode 0755 without a file type, and the type bit of a
    regular file among the MS-DOS attributes. -/
def plainLibFixed : Archive :=
  [⟨"lib/arm64-v8a/libffmpeg.so", [1],
    ⟨.stored, (0o755 : BitVec 32) <<< 16 ||| S_IFREG⟩⟩]

/-- The mode law fails on the most common entry there is. -/
theorem fixApk_modes_fail :
    fixApk quiet ⟨.archive plainLib, none⟩ = .done ⟨.archive plainLibFixed, none⟩ ∧
      ¬ ModeLaw plainLib plainLibFixed := by
  decide

/-- The quiet run on that archive. -/
theorem fixApk_modes_sample :
    ∃ B, ApkFile.archive (fix plainLib) = .archive B ∧
      (ModeLaw plainLib B ↔ ∀ e ∈ plainLib, ModeOk e) :=
  fixApk_modes plainLib quiet ⟨.archive plainLib, none⟩ ⟨.archive (fix plainLib), none⟩ rfl
    (fixApk_exits (fun _ => rfl) rfl)

/-! ### The contents one run leaves -/

/-- Position by position: the same name, the same bytes, the same compression method. -/
def SameContents (A B : Archive) : Prop :=
  List.Forall₂ (fun a b => b.name = a.name ∧ b.data = a.data ∧
    b.info.compressType = a.info.compressType) A B

instance (A B : Archive) : Decidable (SameContents A B) :=
  inferInstanceAs (Decidable (List.Forall₂ _ _ _))

/-- **Contents, exactly.**  After an exit 0 the archive has the entries of the original, in
    order, with their names and compression methods; they also have their bytes if and only
    if every entry agrees with the last one of its name. -/
theorem fixApk_contents (A : Archive) (r : Schedule FixCmd FixProgress) (s s' : ApkDir)
    (hs : s.apk = .archive A) (hdone : fixApk r s = .done s') :
    ∃ B, s'.apk = .archive B ∧
      List.Forall₂ (fun a b => b.name = a.name ∧
        b.info.compressType = a.info.compressType) A B ∧
      (SameContents A B ↔ ∀ e ∈ A, read A e.name = some e.data) := by
  have hrun := fixApk_triple A r s hs
  rw [hdone] at hrun
  refine ⟨fix A, hrun, ?_, ?_⟩
  · unfold fix rewrite
    rw [List.forall₂_map_right_iff, List.forall₂_same]
    exact fun e _ => ⟨rfl, rfl⟩
  · rw [← rewrite_data_iff fixInfo A]
    unfold SameContents fix rewrite
    rw [List.forall₂_map_right_iff, List.forall₂_same, List.map_map, List.map_inj_left]
    exact forall₂_congr fun e _ => ⟨fun h => h.2.1, fun h => ⟨rfl, h, rfl⟩⟩

/-- Two entries of one name. -/
def twins : Archive := [⟨"a", [1], ⟨.stored, 0x20⟩⟩, ⟨"a", [2], ⟨.stored, 0x20⟩⟩]

/-- Both end up with the bytes of the second. -/
theorem fixApk_contents_fail :
    fixApk quiet ⟨.archive twins, none⟩ = .done ⟨.archive
      [⟨"a", [2], ⟨.stored, 0x20⟩⟩, ⟨"a", [2], ⟨.stored, 0x20⟩⟩], none⟩ ∧
      ¬ SameContents twins [⟨"a", [2], ⟨.stored, 0x20⟩⟩, ⟨"a", [2], ⟨.stored, 0x20⟩⟩] := by
  decide

/-- The quiet run on that archive. -/
theorem fixApk_contents_sample :
    ∃ B, ApkFile.archive (fix twins) = .archive B ∧
      List.Forall₂ (fun a b => b.name = a.name ∧
        b.info.compressType = a.info.compressType) twins B ∧
      (SameContents twins B ↔ ∀ e ∈ twins, read twins e.name = some e.data) :=
  fixApk_contents twins quiet ⟨.archive twins, none⟩ ⟨.archive (fix twins), none⟩ rfl
    (fixApk_exits (fun _ => rfl) rfl)

end VideoPackages
