import Mathlib.Data.List.Basic
import Mathlib.Data.List.Infix
import Mathlib.Data.List.TakeWhile

namespace VideoPackages.Lines

/-!
# Lines, patterns and fields

Texts as the line-oriented tools see them: a list of characters in which one character ends
a line.

* `lines` / `unlines` — the lines of a text; the last one need not be ended;
* `Atom` and `grepMatch` — a pattern of literal and arbitrary characters, looked for anywhere
  in a line;
* `cutField2` — what stands between the first and the second delimiter.
-/

variable {α : Type*}

/-- The lines of a text. -/
def lines [DecidableEq α] (eol : α) : List α → List (List α)
  | [] => []
  | c :: s =>
    if c = eol then [] :: lines eol s
    else match lines eol s with
      | [] => [[c]]
      | l :: ls => (c :: l) :: ls

/-- Lines, each one ended. -/
def unlines (eol : α) (ls : List (List α)) : List α := ls.flatMap (· ++ [eol])

/-- One place of a pattern: a character, or `.`, which stands for any character. -/
inductive Atom (α : Type*) where
  | lit (a : α)
  | any
  deriving DecidableEq

/-- The text begins with the pattern. -/
def matchesAt [DecidableEq α] : List (Atom α) → List α → Bool
  | [], _ => true
  | _ :: _, [] => false
  | .lit a :: p, c :: s => decide (a = c) && matchesAt p s
  | .any :: p, _ :: s => matchesAt p s

/-- One of the patterns occurs somewhere in the line. -/
def grepMatch [DecidableEq α] (ps : List (List (Atom α))) (l : List α) : Bool :=
  l.tails.any fun t => ps.any (matchesAt · t)

/-- The second field of a line; a line without the delimiter is printed as it is. -/
def cutField2 [DecidableEq α] (d : α) (l : List α) : List α :=
  if d ∈ l then ((l.dropWhile (· ≠ d)).drop 1).takeWhile (· ≠ d) else l

/-! ### Lines -/

section Lines

variable {eol : α}

@[simp] theorem unlines_nil : unlines eol [] = [] := rfl

@[simp] theorem unlines_cons (l : List α) (ls : List (List α)) :
    unlines eol (l :: ls) = l ++ [eol] ++ unlines eol ls := List.flatMap_cons

@[simp] theorem unlines_append (ls ms : List (List α)) :
    unlines eol (ls ++ ms) = unlines eol ls ++ unlines eol ms := List.flatMap_append

/-- A text of whole lines is empty or ends with the end of a line. -/
theorem unlines_ended (ls : List (List α)) :
    unlines eol ls = [] ∨ ∃ u, unlines eol ls = u ++ [eol] := by
  induction ls using List.reverseRecOn with
  | nil => exact .inl rfl
  | append_singleton ls l _ =>
    exact .inr ⟨unlines eol ls ++ l, by simp⟩

/-- The characters of lines that have been ended. -/
theorem mem_unlines {ls : List (List α)} {c : α} :
    c ∈ unlines eol ls ↔ ∃ l ∈ ls, c ∈ l ∨ c = eol := by
  simp [unlines]

variable [DecidableEq α]

/-- A line does not hold the end of a line. -/
theorem lines_eol_notMem {s l : List α} (h : l ∈ lines eol s) : eol ∉ l := by
  induction s generalizing l with
  | nil => cases h
  | cons c s ih =>
    rw [lines] at h
    split at h
    · rcases List.mem_cons.mp h with rfl | h
      · simp
      · exact ih h
    · next hc =>
      split at h
      · cases List.mem_singleton.mp h
        simpa using fun h => hc h.symm
      · next m ms hm =>
        rcases List.mem_cons.mp h with rfl | h
        · simp only [List.mem_cons, not_or]
          exact ⟨fun h => hc h.symm, ih (by rw [hm]; exact List.mem_cons_self)⟩
        · exact ih (by rw [hm]; exact List.mem_cons_of_mem m h)

/-- A line that is ended is read off. -/
theorem lines_append {l s : List α} (hl : eol ∉ l) :
    lines eol (l ++ eol :: s) = l :: lines eol s := by
  induction l with
  | nil => rw [List.nil_append, lines, if_pos rfl]
  | cons c l ih =>
    rw [List.mem_cons, not_or] at hl
    rw [List.cons_append, lines, if_neg (fun h => hl.1 h.symm), ih hl.2]

/-- Ended lines are read back. -/
theorem lines_unlines {ls : List (List α)} (h : ∀ l ∈ ls, eol ∉ l) :
    lines eol (unlines eol ls) = ls := by
  induction ls with
  | nil => rfl
  | cons l ls ih =>
    rw [List.forall_mem_cons] at h
    rw [unlines_cons, List.append_assoc, List.singleton_append, lines_append h.1, ih h.2]

/-- The characters of the lines are those of the text. -/
theorem mem_of_mem_lines {s l : List α} {c : α} (h : l ∈ lines eol s) (hc : c ∈ l) : c ∈ s := by
  induction s generalizing l with
  | nil => cases h
  | cons a s ih =>
    rw [lines] at h
    split at h
    · rcases List.mem_cons.mp h with rfl | h
      · cases hc
      · exact List.mem_cons_of_mem a (ih h hc)
    · split at h
      · cases List.mem_singleton.mp h
        cases List.mem_singleton.mp hc
        exact List.mem_cons_self
      · next m ms hm =>
        rcases List.mem_cons.mp h with rfl | h
        · rcases List.mem_cons.mp hc with rfl | hc
          · exact List.mem_cons_self
          · exact List.mem_cons_of_mem a (ih (by rw [hm]; exact List.mem_cons_self) hc)
        · exact List.mem_cons_of_mem a (ih (by rw [hm]; exact List.mem_cons_of_mem m h) hc)

end Lines

/-! ### Patterns and fields -/

section Fields

variable [DecidableEq α]

/-- A pattern is found wherever it stands. -/
theorem grepMatch_of_mem {ps : List (List (Atom α))} {p : List (Atom α)} (hp : p ∈ ps)
    {u t : List α} (h : matchesAt p t = true) : grepMatch ps (u ++ t) = true := by
  rw [grepMatch, List.any_eq_true]
  refine ⟨t, by simp, ?_⟩
  exact List.any_eq_true.mpr ⟨p, hp, h⟩

/-- What stands from the first delimiter on. -/
theorem dropWhile_ne {d : α} {k s : List α} (hk : d ∉ k) :
    (k ++ d :: s).dropWhile (· ≠ d) = d :: s := by
  rw [List.dropWhile_append_of_pos (by intro c hc; simpa using fun h : c = d => hk (h ▸ hc)),
    List.dropWhile_cons_of_neg (by simp)]

/-- What stands in front of it. -/
theorem takeWhile_ne {d : α} {k s : List α} (hk : d ∉ k) :
    (k ++ d :: s).takeWhile (· ≠ d) = k := by
  rw [List.takeWhile_append_of_pos (by intro c hc; simpa using fun h : c = d => hk (h ▸ hc)),
    List.takeWhile_cons_of_neg (by simp), List.append_nil]

/-- The second field begins behind the first delimiter. -/
theorem cutField2_append {d : α} {k s : List α} (hk : d ∉ k) :
    cutField2 d (k ++ d :: s) = s.takeWhile (· ≠ d) := by
  rw [cutField2, if_pos (by simp), dropWhile_ne hk]; rfl

end Fields

end VideoPackages.Lines
