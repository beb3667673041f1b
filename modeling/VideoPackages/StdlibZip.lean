import VideoPackages.Lib.Glob
import VideoPackages.Shell

namespace VideoPackages

open FileTree Glob

/-!
# The archive of the Python standard library

`build_python.sh` packs the standard library with

    zip -rq …/libpython.zip.so ./* -x "test/*" … "**/__pycache__/*" "lib-dynload/*"

* `zipExcludes` / `packed` — the patterns, and the files that the command adds;
* `zipInto` — the archive after it: entries that are there already stay;
* `Wanted` / `PacksExactly` — what the archive is meant to hold;
* `excluded_iff` — the paths that the patterns exclude;
* `zipInto_exact_iff` — when the archive holds what it is meant to.
-/

/-! ### The command -/

/-- The arguments of `-x`. -/
def zipExcludes : List String :=
  ["test/*", "idlelib/*", "tkinter/*", "turtledemo/*", "ensurepip/*",
    "config-3.11-aarch64-linux-android/*", "lib2to3/*", "unittest/*", "pydoc_data/*",
    "sqlite3/*", "distutils/*", "**/__pycache__/*", "lib-dynload/*"]

/-- A path as `zip` spells it. -/
def relName (p : Path) : List Char := joined '/' (p.map fun c => c.name.toList)

/-- `zip` lets `*` stand for any text, with `/` or without. -/
def zipMatch (x : String) (p : Path) : Bool :=
  globMatch (fun _ => true) (pattern x) (relName p)

/-- Some pattern of `-x` matches the path. -/
def excluded (p : Path) : Bool := zipExcludes.any fun x => zipMatch x p

/-- The files that `zip -r ARCHIVE ./* -x …` adds, in the directory `t`. -/
def packed (t : Dir) : Dir := fun p => if excluded p then none else visible t p

/-- The archive after `zip -r`: it adds or replaces entries, and deletes none. -/
def zipInto (old t : Dir) : Dir := old.overlay (packed t)

/-! ### What the archive is meant to hold -/

/-- The directories that are left out. -/
def excludedDirs : List Component :=
  [⟨"test", by decide⟩, ⟨"idlelib", by decide⟩, ⟨"tkinter", by decide⟩,
    ⟨"turtledemo", by decide⟩, ⟨"ensurepip", by decide⟩,
    ⟨"config-3.11-aarch64-linux-android", by decide⟩, ⟨"lib2to3", by decide⟩,
    ⟨"unittest", by decide⟩, ⟨"pydoc_data", by decide⟩, ⟨"sqlite3", by decide⟩,
    ⟨"distutils", by decide⟩, ⟨"lib-dynload", by decide⟩]

/-- `__pycache__` -/
def pycache : Component := ⟨"__pycache__", by decide⟩

/-- The path lies below a top-level directory that is left out. -/
def UnderExcluded (p : Path) : Prop := ∃ d ∈ excludedDirs, ∃ q, q ≠ [] ∧ p = d :: q

/-- The file belongs into the archive. -/
def Wanted (p : Path) : Prop := ¬ UnderExcluded p ∧ pycache ∉ p

/-- The archive holds exactly the wanted files of `t`, with their bytes. -/
def PacksExactly (t z : Dir) : Prop := ∀ p b, z p = some b ↔ t p = some b ∧ Wanted p

/-- No name at the top level starts with a dot. -/
def NoTopDots (t : Dir) : Prop :=
  ∀ p, t p ≠ none → ∃ c q, p = c :: q ∧ c.name.toList.head? ≠ some '.'

/-- `w` is a component of the path, neither the first nor the last. -/
def InMiddle (w : Component) (p : Path) : Prop := ∃ a b, a ≠ [] ∧ b ≠ [] ∧ p = a ++ w :: b

/-! ### What the patterns exclude -/

/-- Components are told apart by their characters. -/
theorem toList_injective : Function.Injective (fun c : Component => c.name.toList) := by
  rintro ⟨m, hm⟩ ⟨n, hn⟩ h
  have hname : m = n := String.toList_inj.mp h
  subst hname; rfl

/-- No component has a slash in it. -/
theorem slash_notMem (p : Path) : ∀ c ∈ p.map (fun c => c.name.toList), '/' ∉ c := by
  intro c hc
  obtain ⟨d, -, rfl⟩ := List.mem_map.mp hc
  exact d.proper.2

/-- The patterns: one for each directory, and the one for `__pycache__`. -/
theorem mem_zipExcludes (x : String) :
    x ∈ zipExcludes ↔ x = "**/__pycache__/*" ∨ ∃ d ∈ excludedDirs, x = d.name ++ "/*" := by
  have hperm : zipExcludes.Perm
      ("**/__pycache__/*" :: excludedDirs.map fun d => d.name ++ "/*") := by decide
  rw [hperm.mem_iff, List.mem_cons, List.mem_map]
  simp only [eq_comm]

/-- The pattern for an excluded directory: its name, a slash, and anything. -/
theorem pattern_dir : ∀ d ∈ excludedDirs, pattern (d.name ++ "/*")
    = (d.name.toList ++ ['/']).map .lit ++ [.star] := by decide

/-- The pattern for `__pycache__`: anything, and the name between slashes. -/
theorem pattern_pycache : pattern "**/__pycache__/*"
    = .star :: .star :: (('/' :: (pycache.name.toList ++ ['/'])).map .lit ++ [.star]) := by
  decide

/-- `d/*` -/
theorem zipMatch_dir {d : Component} (hd : d ∈ excludedDirs) (p : Path) :
    zipMatch (d.name ++ "/*") p = true ↔ ∃ q, q ≠ [] ∧ p = d :: q := by
  rw [zipMatch, pattern_dir d hd, globMatch_lits_star]
  simp only [implies_true, and_true]
  refine Iff.trans (prefix_iff (slash_notMem p) d.proper.2) ?_
  constructor
  · rintro ⟨q, hq, hp⟩
    obtain ⟨c, cs, rfl, hc, rfl⟩ := List.map_eq_cons_iff.mp hp
    have hcd : c = d := toList_injective hc
    exact ⟨cs, by simpa using hq, by rw [hcd]⟩
  · rintro ⟨q, hq, rfl⟩
    exact ⟨_, by simpa using hq, rfl⟩

/-- `**/__pycache__/*` -/
theorem zipMatch_pycache (p : Path) :
    zipMatch "**/__pycache__/*" p = true ↔ InMiddle pycache p := by
  rw [zipMatch, pattern_pycache, globMatch_infix]
  refine Iff.trans (infix_iff (slash_notMem p) pycache.proper.2) ?_
  constructor
  · rintro ⟨a, b, ha, hb, hp⟩
    obtain ⟨a', t, rfl, rfl, ht⟩ := List.map_eq_append_iff.mp hp
    obtain ⟨c, cs, rfl, hc, rfl⟩ := List.map_eq_cons_iff.mp ht
    have hcw : c = pycache := toList_injective hc
    exact ⟨a', cs, by simpa using ha, by simpa using hb, by rw [hcw]⟩
  · rintro ⟨a, b, ha, hb, rfl⟩
    refine ⟨_, _, ?_, ?_, by rw [List.map_append, List.map_cons]⟩
    · simpa using ha
    · simpa using hb

/-- **What `-x` excludes**: the paths below one of the directories, and the paths with
    `__pycache__` in the middle. -/
theorem excluded_iff (p : Path) :
    excluded p = true ↔ UnderExcluded p ∨ InMiddle pycache p := by
  rw [excluded, List.any_eq_true]
  constructor
  · rintro ⟨x, hx, hmatch⟩
    rcases (mem_zipExcludes x).mp hx with rfl | ⟨d, hd, rfl⟩
    · exact .inr ((zipMatch_pycache p).mp hmatch)
    · exact .inl ⟨d, hd, (zipMatch_dir hd p).mp hmatch⟩
  · rintro (⟨d, hd, hq⟩ | hmid)
    · exact ⟨_, (mem_zipExcludes _).mpr (.inr ⟨d, hd, rfl⟩), (zipMatch_dir hd p).mpr hq⟩
    · exact ⟨_, (mem_zipExcludes _).mpr (.inl rfl), (zipMatch_pycache p).mpr hmid⟩

/-- A directory on the way to a file is one of its components. -/
theorem InMiddle.mem {w : Component} {p : Path} (h : InMiddle w p) : w ∈ p := by
  obtain ⟨a, b, -, -, rfl⟩ := h
  simp

/-- A wanted file is never excluded. -/
theorem Wanted.not_excluded {p : Path} (h : Wanted p) : excluded p = false := by
  rw [Bool.eq_false_iff]
  intro hex
  rcases (excluded_iff p).mp hex with hu | hm
  · exact h.1 hu
  · exact h.2 hm.mem

/-! ### When the archive is right -/

/-- Without names that begin with a dot at the top, `*` matches everything. -/
theorem visible_eq {t : Dir} (ht : NoTopDots t) {p : Path} (hp : t p ≠ none) :
    visible t p = t p := by
  obtain ⟨c, q, rfl, hc⟩ := ht p hp
  exact if_neg hc

/-- A file that is not excluded is packed as it is. -/
theorem packed_of_kept {t : Dir} (ht : NoTopDots t) {p : Path} (hp : t p ≠ none)
    (h : excluded p = false) : packed t p = t p := by
  rw [packed, h]
  exact visible_eq ht hp

/-- What is packed is not excluded, and was there. -/
theorem packed_some {t : Dir} {p : Path} {b : Bytes} (h : packed t p = some b) :
    excluded p = false ∧ t p = some b := by
  unfold packed at h
  split at h
  · cases h
  · next hex => exact ⟨by simpa using hex, visible_some h⟩

/-- **When the archive is right.**  `zip` leaves exactly the wanted files in it, if and only
    if no file outside the left-out directories has `__pycache__` as first or last component
    only, and everything that was in the archive is a wanted file of the directory. -/
theorem zipInto_exact_iff {old t : Dir} (ht : NoTopDots t) :
    PacksExactly t (zipInto old t) ↔
      (∀ p, t p ≠ none → ¬ UnderExcluded p → pycache ∈ p → InMiddle pycache p) ∧
      ∀ p, old p ≠ none → t p ≠ none ∧ Wanted p := by
  constructor
  · intro h
    constructor
    · intro p hp hu hmem
      by_contra hmid
      have hkept : excluded p = false := by
        rw [Bool.eq_false_iff]
        intro hex
        exact ((excluded_iff p).mp hex).elim hu hmid
      obtain ⟨b, hb⟩ := Option.ne_none_iff_exists'.mp hp
      -- the file is packed, and it is not wanted
      have hz : zipInto old t p = some b :=
        Tree.overlay_of_some ((packed_of_kept ht hp hkept).trans hb)
      exact ((h p b).mp hz).2.2 hmem
    · intro p hp
      obtain ⟨b, hb⟩ := Option.ne_none_iff_exists'.mp hp
      have hz : ∃ c, zipInto old t p = some c := by
        cases hpack : packed t p with
        | none => exact ⟨b, (Tree.overlay_of_none hpack).trans hb⟩
        | some c => exact ⟨c, Tree.overlay_of_some hpack⟩
      obtain ⟨c, hc⟩ := hz
      obtain ⟨htp, hw⟩ := (h p c).mp hc
      exact ⟨by simp [htp], hw⟩
  · rintro ⟨hcache, hold⟩ p b
    constructor
    · intro hz
      cases hpack : packed t p with
      | some c =>
        rw [zipInto, Tree.overlay_of_some hpack] at hz
        cases hz
        obtain ⟨hkept, htp⟩ := packed_some hpack
        have hu : ¬ UnderExcluded p := fun hu => by
          rw [(excluded_iff p).mpr (.inl hu)] at hkept; cases hkept
        refine ⟨htp, hu, fun hmem => ?_⟩
        rw [(excluded_iff p).mpr (.inr (hcache p (by simp [htp]) hu hmem))] at hkept
        cases hkept
      | none =>
        -- an old entry is a wanted file, so it has been packed
        rw [zipInto, Tree.overlay_of_none hpack] at hz
        obtain ⟨htp, hw⟩ := hold p (by simp [hz])
        rw [packed_of_kept ht htp hw.not_excluded] at hpack
        exact absurd hpack htp
    · rintro ⟨htp, hw⟩
      apply Tree.overlay_of_some
      rw [packed_of_kept ht (by simp [htp]) hw.not_excluded, htp]

end VideoPackages
