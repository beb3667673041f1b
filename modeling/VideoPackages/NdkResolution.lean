import VideoPackages.Ndk
import VideoPackages.BuildFfmpeg
import VideoPackages.BuildPython
import VideoPackages.BuildQuickjs

namespace VideoPackages

open Words Lines Errexit
open Glob (joined)

/-!
# When the right NDK is found

The scripts stop at the first property file that is there, look for their pattern anywhere in
its lines, and read what they find there with `xargs`.

* `PropsFile.ReadRight` — what is needed of the file at which the scripts stop;
* `ndkDir_iff` — the path of the NDK property is read, with and without the other lines,
  exactly when it is plain and the other lines that match are silent;
* `ReadRight.right` — a file that is read right gives the right path;
* `Telling.readRight` — where a file names a directory, the right path is found in no other
  way;
* `pathRight_iff` — the induction over the property files;
* `buildPython_without_ndk` and its siblings — what a script does when its check fails.
-/

/-! ### What a file must be like -/

/-- The lines that match the pattern without being an NDK property. -/
def PropsFile.strays (f : PropsFile) : List Text := f.grepNdk.filter fun l => (ndkValue l).isNone

/-- Nothing but white space stands in the second field of these. -/
def PropsFile.Silent (f : PropsFile) : Prop :=
  ∀ l ∈ f.strays, ∀ c ∈ cutField2 '=' l, xargs.skip c = true

instance (f : PropsFile) : Decidable f.Silent :=
  inferInstanceAs (Decidable (∀ l ∈ f.strays, ∀ c ∈ cutField2 '=' l, xargs.skip c = true))

/-- The path of the property, if there is one, is left as it is by `cut` and `xargs`. -/
def PropsFile.PlainPath (f : PropsFile) : Prop := ∀ v ∈ f.ndkValues, '=' ∉ v ∧ xargs.Plain v

/-- The property of the file names a directory. -/
def PropsFile.NamesDir (isDir : Text → Bool) (f : PropsFile) : Prop :=
  ∃ v ∈ f.ndkValues, isDir v = true

/-- The first directory that the files name. -/
def firstDir (isDir : Text → Bool) (fs : List PropsFile) : Option Text :=
  (fs.filterMap PropsFile.named).find? isDir

/-- The file at which the script stops has a plain path and no other lines that speak, and
    there is no need to look into the files `fs` behind it. -/
structure PropsFile.ReadRight (isDir : Text → Bool) (f : PropsFile) (fs : List PropsFile) :
    Prop where
  plain : f.PlainPath
  silent : f.Silent
  here : f.NamesDir isDir ∨ firstDir isDir fs = none

/-- `echo` is given no word that could be an option. -/
def PropsFile.NoOption (f : PropsFile) : Prop :=
  ∀ ws, f.ndkWords = some ws → (joined ' ' ws).head? ≠ some '-'

/-- One of the files names a directory: the one at which the script stops, and then `echo` is
    given no option; or only one behind it, and then the path of the first is plain. -/
def PropsFile.Telling (isDir : Text → Bool) (f : PropsFile) (fs : List PropsFile) : Prop :=
  f.NamesDir isDir ∧ f.NoOption ∨
    ¬ f.NamesDir isDir ∧ firstDir isDir fs ≠ none ∧ f.PlainPath

/-- The first of the files that is there, and the files behind it. -/
def firstFile : List PropsFile → Option (PropsFile × List PropsFile)
  | [] => none
  | f :: fs => if f.isFile then some (f, fs) else firstFile fs

/-- A variable names a directory. -/
def Machine.varNamesDir (m : Machine) : Prop :=
  m.isDir (m.expand "ANDROID_NDK_HOME") = true ∨ m.isDir (m.expand "ANDROID_NDK_ROOT") = true

/-- A variable names a directory, or the first property file that is there is read right. -/
def NdkCheck.ReadRight (c : NdkCheck) (m : Machine) : Prop :=
  m.varNamesDir ∨ ∀ f fs, firstFile (c.props.map m.file) = some (f, fs) → f.ReadRight m.isDir fs

/-- A variable names a directory, or the first property file that is there is telling. -/
def NdkCheck.Telling (c : NdkCheck) (m : Machine) : Prop :=
  m.varNamesDir ∨ ∀ f fs, firstFile (c.props.map m.file) = some (f, fs) → f.Telling m.isDir fs

/-! ### The line of the property -/

/-- A text that begins with the pattern's own characters matches it. -/
theorem matchesAt_ere (s : String) (t : Text) : matchesAt (ere s) (s.toList ++ t) = true := by
  unfold ere
  induction s.toList with
  | nil => rfl
  | cons c l ih =>
    rw [List.map_cons, List.cons_append]
    split
    · exact ih
    · simpa [matchesAt] using ih

/-- The value comes after the first `=` and blanks, and the line matches the pattern. -/
theorem ndkValue_some {l v : Text} (h : ndkValue l = some v) :
    (∃ k b, l = k ++ '=' :: (b ++ v) ∧ '=' ∉ k ∧ ∀ c ∈ b, isBlank c = true) ∧
      grepMatch ndkPattern l = true := by
  unfold ndkValue at h
  split at h
  · cases h
  split at h
  · next hprop =>
    obtain ⟨hmem, hkey⟩ := hprop
    obtain ⟨k, s, rfl, hk⟩ := List.eq_append_cons_of_mem hmem
    rw [takeWhile_ne hk] at hkey
    rw [dropWhile_ne hk] at h
    have hv : s.dropWhile isBlank = v := Option.some.inj h
    -- with its blanks back, the line is the key, '=', the blanks and the value
    constructor
    · refine ⟨k, s.takeWhile isBlank, ?_, hk, fun c hc => List.mem_takeWhile_imp hc⟩
      rw [← hv, List.takeWhile_append_dropWhile]
    · -- the key stands somewhere in `k`
      obtain ⟨y, hy⟩ := List.rdropWhile_prefix isBlank (k.dropWhile isBlank)
      have hk' : k = k.takeWhile isBlank ++
          ((k.dropWhile isBlank).rdropWhile isBlank ++ y) := by
        rw [hy, List.takeWhile_append_dropWhile]
      generalize (k.dropWhile isBlank).rdropWhile isBlank = key at hkey hk'
      rw [hk', List.append_assoc, List.append_assoc]
      rcases List.mem_cons.mp hkey with rfl | hkey
      · exact grepMatch_of_mem (p := ere "ndk.dir") (by simp [ndkPattern]) (matchesAt_ere _ _)
      · cases List.mem_singleton.mp hkey
        exact grepMatch_of_mem (p := ere "android.ndk") (by simp [ndkPattern]) (matchesAt_ere _ _)
  · cases h

/-- `cut` prints the blanks and the value, up to an `=` in it. -/
theorem cutField2_value {k b v : Text} (hk : '=' ∉ k) (hb : ∀ c ∈ b, isBlank c = true) :
    cutField2 '=' (k ++ '=' :: (b ++ v)) = b ++ v.takeWhile (· ≠ '=') := by
  rw [cutField2_append hk, List.takeWhile_append_of_pos]
  intro c hc
  rw [decide_eq_true_eq]
  rintro rfl
  exact absurd (hb _ hc) (by decide)

/-! ### The lines of a file -/

/-- Blanks are white space. -/
theorem skip_of_isBlank {c : Char} (hc : isBlank c = true) : xargs.skip c = true := by
  show isSpace c = true
  simp [isSpace, hc]

/-- Lines of fields are skipped when the fields are. -/
theorem fields_skip_iff {ls : List Text} :
    (∀ c ∈ unlines '\n' (ls.map (cutField2 '=')), xargs.skip c = true) ↔
      ∀ l ∈ ls, ∀ c ∈ cutField2 '=' l, xargs.skip c = true := by
  constructor
  · intro h l hl c hc
    exact h c (mem_unlines.mpr ⟨_, List.mem_map_of_mem hl, .inl hc⟩)
  · intro h c hc
    obtain ⟨_, hmem, hc⟩ := mem_unlines.mp hc
    obtain ⟨l, hl, rfl⟩ := List.mem_map.mp hmem
    rcases hc with hc | rfl
    · exact h l hl c hc
    · rfl

/-- A file with one property: the lines before it and after it are others. -/
theorem PropsFile.Proper.split {f : PropsFile} (hf : f.Proper) {v : Text}
    (hv : f.named = some v) :
    ∃ l₁ l l₂, f.lines = l₁ ++ l :: l₂ ∧ ndkValue l = some v ∧
      ∀ x ∈ l₁ ++ l₂, ndkValue x = none := by
  obtain ⟨vs, hvs⟩ : ∃ vs, f.ndkValues = v :: vs := by
    unfold PropsFile.named at hv
    cases hvals : f.ndkValues with
    | nil => rw [hvals] at hv; cases hv
    | cons u us => rw [hvals] at hv; cases hv; exact ⟨us, rfl⟩
  have hone := hf.one
  rw [hvs] at hone
  obtain ⟨l₁, l, l₂, hlines, h₁, hl, h₂⟩ := List.filterMap_eq_cons_iff.mp hvs
  have hnil : vs = [] := List.length_eq_zero_iff.mp (by simpa using hone)
  rw [hnil, List.filterMap_eq_nil_iff] at h₂
  refine ⟨l₁, l, l₂, hlines, hl, fun x hx => ?_⟩
  rcases List.mem_append.mp hx with hx | hx
  · exact h₁ x hx
  · exact h₂ x hx

/-- What is left of a file are its NDK properties. -/
theorem bare_lines (f : PropsFile) :
    f.bare.lines = f.lines.filter fun l => (ndkValue l).isSome := by
  cases f with
  | missing => rfl
  | unreadable => rfl
  | text t =>
    refine lines_unlines fun l hl => ?_
    exact lines_eol_notMem (List.mem_of_mem_filter hl)

/-- What `grep` prints for such a file: the property among the strays, and alone without the
    other lines. -/
theorem PropsFile.Proper.grepNdk_split {f : PropsFile} (hf : f.Proper) {v : Text}
    (hv : f.named = some v) :
    ∃ l₁ l l₂, f.grepNdk = l₁ ++ l :: l₂ ∧ f.strays = l₁ ++ l₂ ∧ f.bare.grepNdk = [l] ∧
      ndkValue l = some v := by
  obtain ⟨l₁, l, l₂, hlines, hl, hothers⟩ := hf.split hv
  -- the line of the value is one of those `grep` prints
  have hgrep : f.grepNdk = l₁.filter (grepMatch ndkPattern) ++
      l :: l₂.filter (grepMatch ndkPattern) := by
    rw [PropsFile.grepNdk, hlines, List.filter_append, List.filter_cons_of_pos (ndkValue_some hl).2]
  rw [List.forall_mem_append] at hothers
  -- none of the other lines names a value, so `bare` drops them all
  have hnone : ∀ ls : List Text, (∀ x ∈ ls, ndkValue x = none) →
      (ls.filter fun x => (ndkValue x).isSome) = [] := by
    intro ls hls
    rw [List.filter_eq_nil_iff]
    intro x hx; simp [hls x hx]
  have hall : ∀ ls : List Text, (∀ x ∈ ls, ndkValue x = none) →
      ((ls.filter (grepMatch ndkPattern)).filter fun x => (ndkValue x).isNone)
        = ls.filter (grepMatch ndkPattern) := by
    intro ls hls
    rw [List.filter_eq_self]
    intro x hx; simp [hls x (List.mem_of_mem_filter hx)]
  -- what `grep` prints beside `l` is the strays
  refine ⟨_, l, _, hgrep, ?_, ?_, hl⟩
  · rw [PropsFile.strays, hgrep, List.filter_append, List.filter_cons_of_neg (by simp [hl]),
      hall l₁ hothers.1, hall l₂ hothers.2]
  · rw [PropsFile.grepNdk, bare_lines, hlines, List.filter_append,
      List.filter_cons_of_pos (by simp [hl]), hnone l₁ hothers.1, hnone l₂ hothers.2,
      List.nil_append, List.filter_cons_of_pos (ndkValue_some hl).2, List.filter_nil]

/-! ### What the tools read -/

section Read

variable {m : Machine} {f : PropsFile}

/-- Without options, `echo` prints the words. -/
theorem ndkDir_of_noOption (h : f.NoOption) :
    m.ndkDir f = xargs.printed (unlines '\n' f.ndkFields) := by
  rw [Machine.ndkDir, Quoting.printed, ← PropsFile.ndkWords]
  cases hws : f.ndkWords with
  | none => rfl
  | some ws =>
    rw [Option.map_some, Option.map_some, Machine.echo, if_neg (h ws hws)]; rfl

/-- Words that are printed with another beginning are no options. -/
theorem noOption_of_printed {v : Text} (h : xargs.printed (unlines '\n' f.ndkFields) = some v)
    (hv : v.head? ≠ some '-') : f.NoOption := by
  intro ws hws hhead
  obtain ⟨r, z, hrun, hshown, hz⟩ := Quoting.printed_some h
  obtain ⟨r', hrun', hfin⟩ := Option.bind_eq_some_iff.mp hws
  cases hrun.symm.trans hrun'
  -- nothing but ends of lines has been taken off what `echo` prints
  have hjoined : joined ' ' ws = v ++ z := by
    rw [Quoting.finish_words hfin]; exact hshown
  rw [hjoined] at hhead
  cases v with
  | cons c v => exact hv hhead
  | nil => exact absurd (hz '-' (List.mem_of_mem_head? hhead)) (by decide)

/-- Where all fields are skipped, an empty path is printed. -/
theorem ndkDir_of_skip (h : ∀ c ∈ unlines '\n' f.ndkFields, xargs.skip c = true) :
    m.ndkDir f = some [] := by
  have hws : f.ndkWords = some [] := by
    rw [PropsFile.ndkWords, Quoting.words, Quoting.run_skip h]; rfl
  rw [Machine.ndkDir, hws]; rfl

/-- Without a property, all lines that match are strays, and nothing is left without these. -/
theorem grepNdk_of_named_none (h : f.named = none) :
    f.strays = f.grepNdk ∧ f.bare.grepNdk = [] := by
  have hnone : ∀ l ∈ f.lines, ndkValue l = none :=
    List.filterMap_eq_nil_iff.mp (List.head?_eq_none_iff.mp h)
  constructor
  · rw [PropsFile.strays, List.filter_eq_self]
    intro l hl; simp [hnone l (List.mem_of_mem_filter hl)]
  · rw [PropsFile.grepNdk, bare_lines, List.filter_eq_nil_iff]
    intro l hl
    obtain ⟨hl, hv⟩ := List.mem_filter.mp hl
    rw [hnone l hl] at hv; cases hv

/-- Without a property and with silent strays, an empty path is read. -/
theorem ndkDir_of_named_none (h : f.named = none) :
    m.ndkDir f.bare = some [] ∧ (f.Silent → m.ndkDir f = some []) := by
  obtain ⟨hstrays, hbare⟩ := grepNdk_of_named_none h
  refine ⟨ndkDir_of_skip ?_, fun hs => ndkDir_of_skip (fields_skip_iff.mpr ?_)⟩
  · rw [PropsFile.ndkFields, hbare]; simp
  · rw [← hstrays]; exact hs

/-- What `cut` prints of the property is blanks and the value, up to an `=` in it; and among the
    strays it is a line of its own. -/
theorem PropsFile.Proper.fields {v : Text} (hf : f.Proper) (hv : f.named = some v) :
    ∃ l₁ b l₂, f.strays = l₁ ++ l₂ ∧ (∀ c ∈ b, isBlank c = true) ∧
      unlines '\n' f.bare.ndkFields = b ++ v.takeWhile (· ≠ '=') ++ ['\n'] ∧
      unlines '\n' f.ndkFields = unlines '\n' (l₁.map (cutField2 '=')) ++
        (b ++ v.takeWhile (· ≠ '=') ++ ['\n']) ++ unlines '\n' (l₂.map (cutField2 '=')) := by
  obtain ⟨l₁, l, l₂, hgrep, hstrays, hbare, hl⟩ := hf.grepNdk_split hv
  obtain ⟨⟨k, b, rfl, hk, hb⟩, -⟩ := ndkValue_some hl
  refine ⟨l₁, b, l₂, hstrays, hb, ?_, ?_⟩
  · rw [PropsFile.ndkFields, hbare, List.map_singleton, cutField2_value hk hb, unlines_cons,
      unlines_nil, List.append_nil]
  · rw [PropsFile.ndkFields, hgrep, List.map_append, List.map_cons, cutField2_value hk hb,
      unlines_append, unlines_cons, ← List.append_assoc]

/-- The path of a property is absolute. -/
theorem PropsFile.Proper.begins {v : Text} (hf : f.Proper) (hv : f.named = some v) :
    ∃ u, v = '/' :: u := by
  have habs := hf.absolute v (List.mem_of_mem_head? hv)
  cases v with
  | nil => cases habs
  | cons c u => cases habs; exact ⟨u, rfl⟩

/-- The path of a property is absolute, and no option of `echo`. -/
theorem PropsFile.Proper.bare_noOption (hf : f.Proper) {v : Text} (hv : f.named = some v) :
    f.bare.NoOption := by
  obtain ⟨-, b, -, -, hb, hstream, -⟩ := hf.fields hv
  obtain ⟨u, rfl⟩ := hf.begins hv
  intro ws hws
  have hhead : (joined ' ' ws).head? = some '/' := by
    refine Quoting.words_head (fun c hc => skip_of_isBlank (hb c hc)) (by decide) (?_ :
      xargs.words (b ++ '/' :: (u.takeWhile (· ≠ '=') ++ ['\n'])) = some ws)
    rw [← hws, PropsFile.ndkWords, hstream]
    simp
  rw [hhead]; decide

/-- `cut` leaves a value without `=` as it is. -/
theorem takeWhile_eq_self {v : Text} : v.takeWhile (· ≠ '=') = v ↔ '=' ∉ v := by
  rw [List.takeWhile_eq_self_iff]
  exact ⟨fun h hmem => by simpa using h '=' hmem,
    fun h c hc => by simpa using fun hce : c = '=' => h (hce ▸ hc)⟩

/-- Alone, the property is read back exactly when `cut` and `xargs` leave its path as it is. -/
theorem bare_ndkDir_iff (hf : f.Proper) {v : Text} (hv : f.named = some v) :
    m.ndkDir f.bare = some v ↔ '=' ∉ v ∧ xargs.Plain v := by
  obtain ⟨-, b, -, -, hb, hstream, -⟩ := hf.fields hv
  rw [ndkDir_of_noOption (hf.bare_noOption hv), hstream, ← takeWhile_eq_self]
  exact Quoting.printed_alone_iff (fun c hc => skip_of_isBlank (hb c hc)) (List.takeWhile_prefix _)

/-- Among the strays, a plain path is read back exactly when they are silent. -/
theorem printed_iff_silent (hf : f.Proper) {v : Text} (hv : f.named = some v) (heq : '=' ∉ v)
    (hplain : xargs.Plain v) :
    xargs.printed (unlines '\n' f.ndkFields) = some v ↔ f.Silent := by
  obtain ⟨l₁, b, l₂, hstrays, hb, -, hstream⟩ := hf.fields hv
  obtain ⟨u, rfl⟩ := hf.begins hv
  rw [hstream, takeWhile_eq_self.mpr heq, PropsFile.Silent, hstrays, List.forall_mem_append,
    ← fields_skip_iff, ← fields_skip_iff]
  exact Quoting.printed_between_iff hplain (by simp) (unlines_ended _)
    fun c hc => skip_of_isBlank (hb c hc)

/-- **The path of the property.**  It is read back, with the other lines and without them,
    exactly when it is plain, has no `=`, and the strays are silent. -/
theorem ndkDir_iff (hf : f.Proper) {v : Text} (hv : f.named = some v) (hopt : f.NoOption) :
    (m.ndkDir f = some v ∧ m.ndkDir f.bare = some v) ↔
      ('=' ∉ v ∧ xargs.Plain v) ∧ f.Silent := by
  rw [ndkDir_of_noOption hopt, bare_ndkDir_iff hf hv, and_comm, and_congr_right_iff]
  exact fun ⟨heq, hplain⟩ => printed_iff_silent hf hv heq hplain

/-- Then the words are those of the path, and `echo` prints them. -/
theorem ndkDir_of_plain (hf : f.Proper) {v : Text} (hv : f.named = some v)
    (hplain : '=' ∉ v ∧ xargs.Plain v) (hs : f.Silent) :
    m.ndkDir f = some v ∧ m.ndkDir f.bare = some v := by
  obtain ⟨u, rfl⟩ := hf.begins hv
  have hprinted := (printed_iff_silent hf hv hplain.1 hplain.2).mpr hs
  exact (ndkDir_iff hf hv (noOption_of_printed hprinted (by simp))).mpr ⟨hplain, hs⟩

end Read

/-! ### The files one after the other -/

section Files

variable {m : Machine} {f : PropsFile} {fs : List PropsFile}

/-- At `f`, the script finds the directory that is the first one named by `f` and the files `fs`
    behind it, and it finds the same without the other lines of `f`. -/
structure Machine.Finds (m : Machine) (f : PropsFile) (fs : List PropsFile) : Prop where
  first : (m.ndkDir f).filter m.isDir = (f.named.filter m.isDir).or (firstDir m.isDir fs)
  bare : (m.ndkDir f.bare).filter m.isDir = (m.ndkDir f).filter m.isDir

/-- The empty path names no directory. -/
theorem filter_nil (m : Machine) : (some []).filter m.isDir = none := by
  rw [Option.filter_some, if_neg (by simp [m.isDir_nil])]

/-- A file with one property at most names what the property says. -/
theorem PropsFile.Proper.mem_ndkValues (hf : f.Proper) {v : Text} :
    v ∈ f.ndkValues ↔ f.named = some v := by
  refine ⟨fun hv => ?_, fun hv => List.mem_of_mem_head? hv⟩
  obtain ⟨w, hw⟩ := List.length_eq_one_iff.mp
    (Nat.le_antisymm hf.one (List.length_pos_of_mem hv))
  rw [hw, List.mem_singleton] at hv
  rw [PropsFile.named, hw, hv]; rfl

/-- **A file that is read right.**  Its path is printed as it is, and whatever the files behind
    it name is not needed. -/
theorem PropsFile.ReadRight.finds (hf : f.Proper) (h : f.ReadRight m.isDir fs) :
    m.Finds f fs := by
  cases hv : f.named with
  | none =>
    obtain ⟨hbare, hall⟩ := ndkDir_of_named_none (m := m) hv
    have hlater : firstDir m.isDir fs = none := by
      apply h.here.resolve_left
      rintro ⟨v, hmem, -⟩
      cases hv.symm.trans (hf.mem_ndkValues.mp hmem)
    have hread := hall h.silent
    exact ⟨by rw [hread, filter_nil, hv, hlater]; rfl, by rw [hread, hbare]⟩
  | some v =>
    obtain ⟨hread, hbare⟩ :=
      ndkDir_of_plain (m := m) hf hv (h.plain v (hf.mem_ndkValues.mpr hv)) h.silent
    refine ⟨?_, by rw [hread, hbare]⟩
    rw [hread, hv]
    rcases h.here with ⟨w, hmem, hdir⟩ | hlater
    · cases hv.symm.trans (hf.mem_ndkValues.mp hmem)
      rw [Option.filter_some, if_pos hdir]; rfl
    · rw [hlater, Option.or_none]

/-- **Where a file names a directory**, the right one is found in no other way. -/
theorem PropsFile.Telling.readRight (hf : f.Proper) (ht : f.Telling m.isDir fs)
    (h : m.Finds f fs) : f.ReadRight m.isDir fs := by
  rcases ht with ⟨⟨v, hmem, hdir⟩, hopt⟩ | ⟨hnot, hlater, hplain⟩
  · -- the file names a directory: `NDK_PATH` is its value, with its comments and without
    have hv := hf.mem_ndkValues.mp hmem
    have hfirst := h.first
    rw [hv, Option.filter_some, if_pos hdir] at hfirst
    have hread := (Option.filter_eq_some_iff.mp hfirst).1
    have hbare := (Option.filter_eq_some_iff.mp (h.bare.trans hfirst)).1
    obtain ⟨hplain, hsilent⟩ := (ndkDir_iff hf hv hopt).mp ⟨hread, hbare⟩
    refine ⟨fun w hw => ?_, hsilent, .inl ⟨v, hmem, hdir⟩⟩
    cases hv.symm.trans (hf.mem_ndkValues.mp hw)
    exact hplain
  · -- without the other lines, the file is read and names no directory; but one behind it does
    exfalso
    have hnone : f.named.filter m.isDir = none := by
      rw [Option.filter_eq_none_iff]
      exact fun v hv hdir => hnot ⟨v, hf.mem_ndkValues.mpr hv, hdir⟩
    have hbare : m.ndkDir f.bare = some [] ∨ m.ndkDir f.bare = f.named := by
      cases hv : f.named with
      | none => exact .inl (ndkDir_of_named_none hv).1
      | some v => exact .inr ((bare_ndkDir_iff hf hv).mpr (hplain v (hf.mem_ndkValues.mpr hv)))
    have hfound : (m.ndkDir f.bare).filter m.isDir = none := by
      rcases hbare with hbare | hbare
      · rw [hbare, filter_nil]
      · rw [hbare, hnone]
    have hfirst := h.bare.trans h.first
    rw [hfound, hnone, Option.none_or] at hfirst
    exact hlater hfirst.symm

/-- The first file comes first. -/
theorem firstDir_cons (isDir : Text → Bool) (f : PropsFile) (fs : List PropsFile) :
    firstDir isDir (f :: fs) = (f.named.filter isDir).or (firstDir isDir fs) := by
  unfold firstDir
  cases hv : f.named with
  | none => rw [List.filterMap_cons_none hv]; rfl
  | some v =>
    rw [List.filterMap_cons_some hv, List.find?_cons]
    cases hd : isDir v <;> simp [Option.filter, hd]

/-- The first file that is there is one of the files. -/
theorem mem_of_firstFile {gs : List PropsFile} (h : firstFile fs = some (f, gs)) : f ∈ fs := by
  induction fs with
  | nil => cases h
  | cons g fs ih =>
    rw [firstFile] at h
    split at h
    · cases h; exact List.mem_cons_self
    · exact List.mem_cons_of_mem g (ih h)

/-- **The property files.**  By induction over the list: a file that is not there is passed
    over, and the first one that is there decides. -/
theorem pathRight_iff :
    ((m.pathFromProps fs).filter m.isDir = firstDir m.isDir fs ∧
        (m.pathFromProps (fs.map PropsFile.bare)).filter m.isDir =
          (m.pathFromProps fs).filter m.isDir) ↔
      ∀ f gs, firstFile fs = some (f, gs) → m.Finds f gs := by
  induction fs with
  | nil => simp [Machine.pathFromProps, firstDir, firstFile, filter_nil]
  | cons f fs ih =>
    -- the loop looks at the first file only, and `bare` keeps which one that is
    have hbare : f.bare.isFile = f.isFile := by cases f <;> rfl
    rw [List.map_cons, Machine.pathFromProps, Machine.pathFromProps, hbare, firstFile,
      firstDir_cons]
    cases hfile : f.isFile with
    | true =>
      constructor
      · rintro ⟨hfirst, hsame⟩ _ _ hf
        cases hf; exact ⟨hfirst, hsame⟩
      · intro h
        obtain ⟨hfirst, hsame⟩ := h f fs rfl
        exact ⟨hfirst, hsame⟩
    | false =>
      have hnamed : f.named = none := by
        cases f <;> first | rfl | cases hfile
      rw [hnamed]
      exact ih

end Files

/-! ### The check -/

section Check

variable {c : NdkCheck} {m : Machine}

/-- The check succeeds with a path that is a directory. -/
theorem resolve_iff {p : Text} : c.resolve m = .ok p ↔ (c.path m).filter m.isDir = some p := by
  rw [Option.filter_eq_some_iff, NdkCheck.resolve]
  cases c.path m with
  | none => simp
  | some q =>
    show (if q = [] ∨ m.isDir q = false then Except.error c.notFound else .ok q) = .ok p ↔ _
    -- the script stops on an empty path too, and `isDir` holds of no empty path
    split
    · next hq =>
      have hd : m.isDir q = false := by
        rcases hq with rfl | hq
        · exact m.isDir_nil
        · exact hq
      constructor
      · intro h; cases h
      · rintro ⟨h, hp⟩
        rw [← Option.some.inj h, hd] at hp; cases hp
    · next hq =>
      have hd : m.isDir q = true := by
        by_contra hd
        exact hq (.inr (by simpa using hd))
      constructor
      · intro h; cases h; exact ⟨rfl, hd⟩
      · rintro ⟨h, -⟩
        rw [Option.some.inj h]

/-- A variable that names a directory is taken, and the files are not looked at. -/
theorem path_eq (c : NdkCheck) (m : Machine) : c.path m =
    if m.isDir (m.expand "ANDROID_NDK_HOME") then some (m.expand "ANDROID_NDK_HOME")
    else if m.isDir (m.expand "ANDROID_NDK_ROOT") then some (m.expand "ANDROID_NDK_ROOT")
    else m.pathFromProps (c.props.map m.file) := by
  have hne : ∀ p, (p ≠ [] ∧ m.isDir p = true) ↔ m.isDir p = true := by
    refine fun p => and_iff_right_of_imp ?_
    rintro hd rfl
    rw [m.isDir_nil] at hd; cases hd
  simp only [NdkCheck.path, hne]

/-- The same without comments and other properties. -/
theorem path_bare (c : NdkCheck) (m : Machine) : c.path m.bare =
    if m.isDir (m.expand "ANDROID_NDK_HOME") then some (m.expand "ANDROID_NDK_HOME")
    else if m.isDir (m.expand "ANDROID_NDK_ROOT") then some (m.expand "ANDROID_NDK_ROOT")
    else m.pathFromProps ((c.props.map m.file).map PropsFile.bare) := by
  have hprops : ∀ fs, m.bare.pathFromProps fs = m.pathFromProps fs := by
    intro fs
    induction fs with
    | nil => rfl
    | cons f fs ih => rw [Machine.pathFromProps, Machine.pathFromProps, ih]; rfl
  rw [path_eq, hprops, List.map_map]; rfl

/-- The first directory that the sources name, in the order of the script. -/
theorem sources_find (c : NdkCheck) (m : Machine) : (c.sources m).find? m.isDir =
    if m.isDir (m.expand "ANDROID_NDK_HOME") then some (m.expand "ANDROID_NDK_HOME")
    else if m.isDir (m.expand "ANDROID_NDK_ROOT") then some (m.expand "ANDROID_NDK_ROOT")
    else firstDir m.isDir (c.props.map m.file) := by
  -- the empty path is no directory, so it need not be filtered out
  have hfilter :
      (fun p : Text => decide (decide (p ≠ []) = true ∧ m.isDir p = true)) = m.isDir := by
    funext p
    cases p with
    | nil => simp [m.isDir_nil]
    | cons a p => simp
  rw [NdkCheck.sources, List.find?_append, List.find?_filter, hfilter, firstDir]
  cases hhome : m.isDir (m.expand "ANDROID_NDK_HOME") with
  | true => rw [List.find?_cons_of_pos hhome]; rfl
  | false =>
    rw [List.find?_cons_of_neg (by simp [hhome])]
    cases hroot : m.isDir (m.expand "ANDROID_NDK_ROOT") with
    | true => rw [List.find?_cons_of_pos hroot]; rfl
    | false => rw [List.find?_cons_of_neg (by simp [hroot])]; rfl

/-- The claims of `Right`, as two equations. -/
theorem NdkCheck.right_iff : c.Right m ↔
    (c.path m).filter m.isDir = (c.sources m).find? m.isDir ∧
      (c.path m.bare).filter m.isDir = (c.path m).filter m.isDir := by
  constructor
  · intro h
    constructor
    · ext p
      rw [← resolve_iff]
      refine ⟨h.first p, fun hp => ?_⟩
      obtain ⟨q, hq⟩ := h.passes.mpr ⟨p, List.mem_of_find?_eq_some hp, List.find?_some hp⟩
      cases (h.first q hq).symm.trans hp
      exact hq
    · ext p
      rw [← resolve_iff (m := m)]
      exact resolve_iff.symm.trans (h.comments p)
  · rintro ⟨hfirst, hbare⟩
    -- `resolve` returns exactly the first directory of the sources
    have hok : ∀ p, c.resolve m = .ok p ↔ (c.sources m).find? m.isDir = some p := by
      intro p; rw [resolve_iff, hfirst]
    refine ⟨?_, fun p => (hok p).mp, fun p => ?_⟩
    · rw [← List.find?_isSome, Option.isSome_iff_exists]
      exact exists_congr hok
    · rw [resolve_iff (m := m), ← hbare]
      exact resolve_iff

/-- The variables come first, and behind them the first property file that is there. -/
theorem NdkCheck.right_iff_finds : c.Right m ↔
    m.varNamesDir ∨ ∀ f fs, firstFile (c.props.map m.file) = some (f, fs) → m.Finds f fs := by
  rw [NdkCheck.right_iff, sources_find, path_bare, path_eq, Machine.varNamesDir]
  cases hhome : m.isDir (m.expand "ANDROID_NDK_HOME") with
  | true => simp [hhome]
  | false =>
    cases hroot : m.isDir (m.expand "ANDROID_NDK_ROOT") with
    | true => simp [hroot]
    | false =>
      have hpath := @pathRight_iff m (c.props.map m.file)
      simpa using hpath

/-- The first file that is there is as proper as all are. -/
theorem proper_of_firstFile (hm : ∀ x ∈ c.props, (m.file x).Proper) {f : PropsFile}
    {fs : List PropsFile} (hf : firstFile (c.props.map m.file) = some (f, fs)) : f.Proper := by
  obtain ⟨x, hx, rfl⟩ := List.mem_map.mp (mem_of_firstFile hf)
  exact hm x hx

/-- **A check that reads its files right is right**, whatever their comments and other
    properties say. -/
theorem NdkCheck.ReadRight.right (hm : ∀ x ∈ c.props, (m.file x).Proper) (h : c.ReadRight m) :
    c.Right m :=
  NdkCheck.right_iff_finds.mpr
    (h.imp_right fun h f fs hf => (h f fs hf).finds (proper_of_firstFile hm hf))

/-- **And where a source names a directory, it is right in no other way.** -/
theorem NdkCheck.Telling.readRight (hm : ∀ x ∈ c.props, (m.file x).Proper) (ht : c.Telling m)
    (h : c.Right m) : c.ReadRight m := by
  rcases ht with hvar | ht
  · exact .inl hvar
  · exact (NdkCheck.right_iff_finds.mp h).imp_right fun h f fs hf =>
      (ht f fs hf).readRight (proper_of_firstFile hm hf) (h f fs hf)

end Check

/-! ### The check as the first command of the scripts -/

/-- How the check ends.  It writes nothing. -/
def NdkCheck.verdict (c : NdkCheck) (m : Machine) : CmdVerdict where
  ending := match c.resolve m with
    | .ok _ => .exits
    | .error _ => .fails
  progress := ⟨false, 0, fun _ => none⟩

section Scripts

variable {σ : Type} {c : NdkCheck} {m : Machine} {e : List String}

/-- A script ends with its check when that fails. -/
theorem seq_checkNdk (h : c.resolve m = .error e) (as : List (Script σ)) (s : σ) :
    seq (inert (c.verdict m) :: as) s = .failed s := by
  have hend : (c.verdict m).ending = .fails := by
    rw [NdkCheck.verdict, h]
  rw [seq_cons, inert, tool, hend, Outcome.bind_failed]

/-- Without an NDK the scripts leave the working directory as it is. -/
theorem buildPython_without_ndk {r : Run PythonCmd}
    (hr : r .checkNdk = buildPythonNdk.verdict m) (h : buildPythonNdk.resolve m = .error e)
    (env : PythonEnv) (s : PythonDir) : buildPython env r s = .failed s := by
  rw [buildPython, seq_cons, pythonStages, hr, seq_checkNdk h, Outcome.bind_failed]

theorem buildQuickjs_without_ndk {r : QuickjsRun}
    (hr : r.verdict .checkNdk = buildQuickjsNdk.verdict m)
    (h : buildQuickjsNdk.resolve m = .error e) (env : QuickjsEnv) (s : QuickjsDir) :
    buildQuickjs env r s = .failed s := by
  rw [buildQuickjs, hr, seq_checkNdk h]

theorem buildFfmpeg_without_ndk {r : Run FfmpegCmd}
    (hr : r .checkNdk = buildFfmpegNdk.verdict m) (h : buildFfmpegNdk.resolve m = .error e)
    (env : FfmpegEnv) (s : FfmpegDir) : buildFfmpeg env r s = .failed s := by
  rw [buildFfmpeg, seq_cons, ffmpegDeps, hr, seq_checkNdk h, Outcome.bind_failed]

end Scripts

/-! ### The two scripts with four sources -/

/-- **NDK resolution.**  Let both property files hold at most one NDK property, an absolute
    path, among any comments and other properties.  The checks of `build_python.sh` and
    `build_quickjs.sh` are right if a variable names a directory or the first property file that
    is there is read right; and only then, unless no file names a directory, or `echo` is given
    an option, or the path of the first file is not plain and names no directory. -/
theorem ndk_resolution (m : Machine) (hlocal : (m.file "local.properties").Proper)
    (hffmpeg : (m.file "../ffmpeg_package/local.properties").Proper) :
    ((buildPythonNdk.ReadRight m → buildPythonNdk.Right m) ∧
        (buildQuickjsNdk.ReadRight m → buildQuickjsNdk.Right m)) ∧
      (buildPythonNdk.Telling m → (buildPythonNdk.Right m ↔ buildPythonNdk.ReadRight m)) ∧
        (buildQuickjsNdk.Telling m → (buildQuickjsNdk.Right m ↔ buildQuickjsNdk.ReadRight m)) := by
  have hprops : ∀ x ∈ ["local.properties", "../ffmpeg_package/local.properties"],
      (m.file x).Proper := by
    intro x hx
    rcases List.mem_cons.mp hx with rfl | hx
    · exact hlocal
    · cases List.mem_singleton.mp hx
      exact hffmpeg
  have hpython : buildPythonNdk.ReadRight m → buildPythonNdk.Right m :=
    NdkCheck.ReadRight.right hprops
  have hquickjs : buildQuickjsNdk.ReadRight m → buildQuickjsNdk.Right m :=
    NdkCheck.ReadRight.right hprops
  exact ⟨⟨hpython, hquickjs⟩, fun ht => ⟨ht.readRight hprops, hpython⟩,
    fun ht => ⟨ht.readRight hprops, hquickjs⟩⟩

/-- A file that is not there has no properties. -/
theorem missing_proper : PropsFile.missing.Proper := ⟨Nat.zero_le 1, fun _ hv => by cases hv⟩

/-- A `local.properties` with a comment, another property and the NDK property. -/
def sampleProps : TextFile where
  chars := "# The NDK\nsdk.dir=/opt/sdk\nndk.dir = /opt/my ndk\n".toList
  noNul := by decide

/-- `ANDROID_NDK_HOME` names no directory, there is no `local.properties`, and the file of the
    FFmpeg package names one. -/
def sampleMachine : Machine where
  var := fun x => if x = "ANDROID_NDK_HOME" then some "/gone".toList else none
  file := fun x => if x = "../ffmpeg_package/local.properties" then .text sampleProps else .missing
  isDir := fun p => decide (p = "/opt/my ndk".toList)
  isDir_nil := by decide
  echoOptions := fun ws => joined ' ' ws

/-- The path of the sample is plain, and its comment is no stray. -/
theorem sample_readRight : (PropsFile.text sampleProps).ReadRight sampleMachine.isDir [] where
  plain := by
    have hplain : xargs.Plain "/opt/my ndk".toList :=
      ⟨["/opt/my".toList, "ndk".toList], by decide, fun w hw => by
        rcases List.mem_cons.mp hw with rfl | hw
        · exact ⟨⟨'/', rfl, rfl⟩, List.all_eq_true.mp rfl⟩
        · cases List.mem_singleton.mp hw
          exact ⟨⟨'n', rfl, rfl⟩, List.all_eq_true.mp rfl⟩⟩
    have hvalues : (PropsFile.text sampleProps).ndkValues = ["/opt/my ndk".toList] := by decide
    intro v hv
    rw [hvalues] at hv
    cases List.mem_singleton.mp hv
    exact ⟨by decide, hplain⟩
  silent := by decide
  here := .inl ⟨"/opt/my ndk".toList, by decide, by decide⟩

/-- The path of the FFmpeg package is found. -/
theorem ndk_resolution_sample :
    buildPythonNdk.Right sampleMachine ∧ buildQuickjsNdk.Right sampleMachine := by
  have hprops : (PropsFile.text sampleProps).Proper := ⟨by decide, by decide⟩
  have hread : ∀ f fs, firstFile [sampleMachine.file "local.properties",
      sampleMachine.file "../ffmpeg_package/local.properties"] = some (f, fs) →
      f.ReadRight sampleMachine.isDir fs := by
    intro f fs h
    cases h; exact sample_readRight
  obtain ⟨⟨hpython, hquickjs⟩, -⟩ := ndk_resolution sampleMachine missing_proper hprops
  exact ⟨hpython (.inr hread), hquickjs (.inr hread)⟩

/-- A `local.properties` in which an older path has been commented out. -/
def commentedProps : TextFile where
  chars := "# ndk.dir=/old/ndk\nndk.dir=/new/ndk\n".toList
  noNul := by decide

def commentedMachine : Machine where
  var := fun _ => none
  file := fun x => if x = "local.properties" then .text commentedProps else .missing
  isDir := fun p => decide (p = "/new/ndk".toList)
  isDir_nil := by decide
  echoOptions := fun ws => joined ' ' ws

/-- The comment is read as part of the path, and no NDK is found although the property names
    one. -/
theorem comment_hides_ndk :
    (∀ x, (commentedMachine.file x).Proper) ∧
      ¬ buildPythonNdk.Right commentedMachine ∧ ¬ buildQuickjsNdk.Right commentedMachine := by
  have hnamed : buildPythonNdk.sources commentedMachine = ["/new/ndk".toList] := by decide
  have herror : buildPythonNdk.resolve commentedMachine = .error ndkNotFound := by decide
  have hright : ¬ buildPythonNdk.Right commentedMachine := by
    intro h
    obtain ⟨p, hp⟩ := h.passes.mpr ⟨"/new/ndk".toList, by rw [hnamed]; simp, by decide⟩
    rw [herror] at hp; cases hp
  refine ⟨fun x => ?_, hright, hright⟩
  unfold commentedMachine
  dsimp only
  split
  · exact ⟨by decide, by decide⟩
  · exact missing_proper

end VideoPackages
