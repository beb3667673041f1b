import Mathlib.Data.List.Basic
import Mathlib.Data.List.Infix
import Mathlib.Tactic.Common

namespace VideoPackages.NamedEntries

/-!
# Lists of named entries, read by name

An archive format lists its entries in order and allows a name to occur twice; a reader
that looks an entry up by name gets the last one.  A rewriting pass copies the list entry
by entry, but takes the contents of each by name.

* `read` — the contents of the last entry of a name;
* `rewrite f` — the pass, with `f` applied to what each entry carries besides;
* `rewrite_idem` — twice is once, duplicates included;
* `rewrite_data_iff` — an entry keeps its own contents exactly when the last entry of its
  name has them.
-/

variable {ν δ μ : Type*} [DecidableEq ν]

/-- An entry: its name, its contents, and the rest of what the archive records of it. -/
structure Entry (ν δ μ : Type*) where
  name : ν
  data : δ
  info : μ
  deriving DecidableEq

/-- The contents of the last entry named `n`. -/
def read (es : List (Entry ν δ μ)) (n : ν) : Option δ :=
  (es.reverse.find? (fun e => e.name = n)).map Entry.data

/-- One entry of the pass: contents by name (its own, if the name were unknown). -/
def rewriteEntry (f : ν → μ → μ) (es : List (Entry ν δ μ)) (e : Entry ν δ μ) : Entry ν δ μ :=
  ⟨e.name, (read es e.name).getD e.data, f e.name e.info⟩

/-- The pass over the whole list. -/
def rewrite (f : ν → μ → μ) (es : List (Entry ν δ μ)) : List (Entry ν δ μ) :=
  es.map (rewriteEntry f es)

/-- Every name in the list can be read. -/
theorem read_isSome {es : List (Entry ν δ μ)} {e : Entry ν δ μ} (h : e ∈ es) :
    (read es e.name).isSome := by
  unfold read
  rw [Option.isSome_map, List.find?_isSome]
  exact ⟨e, List.mem_reverse.mpr h, by simp⟩

/-- An entry is read by its name. -/
theorem read_eq_some {es : List (Entry ν δ μ)} {e : Entry ν δ μ} (h : e ∈ es) :
    ∃ b, read es e.name = some b := Option.isSome_iff_exists.mp (read_isSome h)

/-- The pass changes what no name reads as. -/
theorem read_rewrite (f : ν → μ → μ) (es : List (Entry ν δ μ)) (n : ν) :
    read (rewrite f es) n = read es n := by
  have hfind : (rewrite f es).reverse.find? (fun e => e.name = n)
      = (es.reverse.find? (fun e => e.name = n)).map (rewriteEntry f es) := by
    rw [rewrite, ← List.map_reverse, List.find?_map]
    rfl
  unfold read
  rw [hfind, Option.map_map]
  cases h : es.reverse.find? (fun e => e.name = n) with
  | none => rfl
  | some e =>
    -- the entry found reads as itself
    have hname : e.name = n := by simpa using List.find?_some h
    show some ((read es e.name).getD e.data) = some e.data
    rw [hname, read, h]
    rfl

/-- **The pass is idempotent** when `f` is. -/
theorem rewrite_idem {f : ν → μ → μ} (hf : ∀ n i, f n (f n i) = f n i)
    (es : List (Entry ν δ μ)) : rewrite f (rewrite f es) = rewrite f es := by
  show (es.map (rewriteEntry f es)).map (rewriteEntry f (rewrite f es)) = _
  rw [List.map_map]
  refine List.map_congr_left fun e he => ?_
  obtain ⟨b, hb⟩ := read_eq_some he
  simp only [Function.comp_apply, rewriteEntry, read_rewrite, hb, Option.getD_some, hf]

/-- **Whose bytes an entry gets.**  The pass leaves every entry its own contents exactly
    when each of them agrees with the last entry of its name. -/
theorem rewrite_data_iff (f : ν → μ → μ) (es : List (Entry ν δ μ)) :
    (rewrite f es).map Entry.data = es.map Entry.data ↔
      ∀ e ∈ es, read es e.name = some e.data := by
  rw [rewrite, List.map_map, List.map_inj_left]
  refine forall₂_congr fun e he => ?_
  obtain ⟨b, hb⟩ := read_eq_some he
  show (read es e.name).getD e.data = e.data ↔ _
  rw [hb, Option.getD_some, Option.some.injEq]

end VideoPackages.NamedEntries
