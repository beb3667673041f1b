import VideoPackages.Lib.Glob
import Mathlib.Data.List.DropRight

namespace VideoPackages.Words

open Glob (joined)

/-!
# Words, quotes and backslashes

A text is split into words: a separator ends a word, and between two words more characters are
skipped than these.  A quote makes everything up to the same quote part of the word, an escape
character makes the next character part of it.  What has been read is written out again with
one joining character between the words.

* `Quoting` — the meaning of the characters;
* `step` / `run` / `words` — the splitter, one character at a time;
* `printed` — the words joined, without the ends of lines that stand last;
* `ordinary` / `inner` — the characters that stand for themselves, anywhere or within a word.
-/

/-- What the characters of a text mean. -/
structure Quoting (α : Type*) where
  /-- What ends a word. -/
  sep : α → Bool
  /-- What does not begin a word. -/
  skip : α → Bool
  quote : α → Bool
  esc : α
  eol : α
  join : α
  sep_eol : sep eol = true
  sep_join : sep join = true
  join_ne_eol : join ≠ eol
  skip_sep : ∀ c, sep c = true → skip c = true
  skip_quote : ∀ c, quote c = true → skip c = false

/-- Where the splitter stands: between two words, or with the beginning `w` of a word read. -/
inductive Mode {α : Type*} (σ : Quoting α) where
  | between
  | word (w : List α)
  | quoted (q : α) (hq : σ.quote q = true) (w : List α)
  | escaped (w : List α)

/-- The word that has been begun. -/
def Mode.current {α : Type*} {σ : Quoting α} : Mode σ → List (List α)
  | .between => []
  | .word w | .quoted _ _ w | .escaped w => [w]

/-- The words that are complete, and where the splitter stands. -/
structure Reader {α : Type*} (σ : Quoting α) where
  done : List (List α)
  mode : Mode σ

/-- All that has been read. -/
def Reader.words {α : Type*} {σ : Quoting α} (r : Reader σ) : List (List α) :=
  r.done ++ r.mode.current

namespace Quoting

variable {α : Type*} [DecidableEq α] (σ : Quoting α)

/-- The character stands for itself wherever it occurs. -/
def ordinary (c : α) : Bool := !σ.skip c && !σ.quote c && decide (c ≠ σ.esc)

/-- The character stands for itself within a word. -/
def inner (c : α) : Bool := !σ.sep c && !σ.quote c && decide (c ≠ σ.esc)

/-- A character of a word, outside of quotes. -/
def take (w : List α) (c : α) : Mode σ :=
  if c = σ.esc then .escaped w
  else if hc : σ.quote c = true then .quoted c hc w else .word (w ++ [c])

/-- One character; a quoted part does not go on over the end of a line. -/
def step (r : Reader σ) (c : α) : Option (Reader σ) :=
  match r.mode with
  | .between => if σ.skip c then some r else some ⟨r.done, σ.take [] c⟩
  | .word w => if σ.sep c then some ⟨r.done ++ [w], .between⟩ else some ⟨r.done, σ.take w c⟩
  | .quoted q hq w =>
    if c = q then some ⟨r.done, .word w⟩
    else if c = σ.eol then none else some ⟨r.done, .quoted q hq (w ++ [c])⟩
  | .escaped w => some ⟨r.done, .word (w ++ [c])⟩

/-- One character after the other. -/
def run (r : Reader σ) (s : List α) : Option (Reader σ) := s.foldlM σ.step r

/-- The end of the text: an open quote is an error. -/
def finish (r : Reader σ) : Option (List (List α)) :=
  match r.mode with
  | .quoted _ _ _ => none
  | _ => some r.words

/-- The words of a text. -/
def words (s : List α) : Option (List (List α)) := (σ.run ⟨[], .between⟩ s).bind σ.finish

/-- The text without the ends of lines that stand last. -/
def chomp (v : List α) : List α := v.rdropWhile fun c => decide (c = σ.eol)

/-- The words with one `join` between them. -/
def printed (s : List α) : Option (List α) :=
  (σ.words s).map fun ws => σ.chomp (joined σ.join ws)

variable {σ} {r r' : Reader σ} {c : α} {s t : List α}

/-- A character between two words. -/
theorem step_between (d : List (List α)) (c : α) : σ.step ⟨d, .between⟩ c =
    if σ.skip c then some ⟨d, .between⟩ else some ⟨d, σ.take [] c⟩ := rfl

/-- A character behind a part of a word. -/
theorem step_word (d : List (List α)) (w : List α) (c : α) : σ.step ⟨d, .word w⟩ c =
    if σ.sep c then some ⟨d ++ [w], .between⟩ else some ⟨d, σ.take w c⟩ := rfl

/-- A character within quotes. -/
theorem step_quoted (d : List (List α)) {q : α} (hq : σ.quote q = true) (w : List α) (c : α) :
    σ.step ⟨d, .quoted q hq w⟩ c =
      if c = q then some ⟨d, .word w⟩
      else if c = σ.eol then none else some ⟨d, .quoted q hq (w ++ [c])⟩ := rfl

@[simp] theorem run_nil : σ.run r [] = some r := rfl

/-- The first character, and the rest. -/
theorem run_cons : σ.run r (c :: s) = (σ.step r c).bind (σ.run · s) := rfl

/-- One text and another. -/
theorem run_append : σ.run r (s ++ t) = (σ.run r s).bind (σ.run · t) := List.foldlM_append

/-- The first character, and the rest, without an error. -/
theorem run_cons_some :
    σ.run r (c :: s) = some r' ↔ ∃ r₁, σ.step r c = some r₁ ∧ σ.run r₁ s = some r' := by
  rw [run_cons, Option.bind_eq_some_iff]

/-- One text and another, without an error. -/
theorem run_append_some :
    σ.run r (s ++ t) = some r' ↔ ∃ r₁, σ.run r s = some r₁ ∧ σ.run r₁ t = some r' := by
  rw [run_append, Option.bind_eq_some_iff]

/-- A text of one character. -/
theorem run_singleton : σ.run r [c] = σ.step r c := by
  rw [run_cons]
  cases σ.step r c <;> rfl

/-- A character that stands for itself anywhere. -/
theorem ordinary_iff :
    σ.ordinary c = true ↔ σ.skip c = false ∧ σ.quote c = false ∧ c ≠ σ.esc := by
  simp [ordinary, and_assoc]

/-- A character that stands for itself within a word. -/
theorem inner_iff : σ.inner c = true ↔ σ.sep c = false ∧ σ.quote c = false ∧ c ≠ σ.esc := by
  simp [inner, and_assoc]

omit [DecidableEq α] in
/-- What begins a word separates none. -/
theorem sep_of_not_skip (h : σ.skip c = false) : σ.sep c = false := by
  by_contra hsep
  rw [σ.skip_sep c (by simpa using hsep)] at h; cases h

/-- An ordinary character is one that may stand within a word and may begin it. -/
theorem ordinary_iff_inner : σ.ordinary c = true ↔ σ.skip c = false ∧ σ.inner c = true := by
  rw [ordinary_iff, inner_iff]
  exact ⟨fun ⟨hskip, h⟩ => ⟨hskip, sep_of_not_skip hskip, h⟩, fun ⟨hskip, _, h⟩ => ⟨hskip, h⟩⟩

/-- Such a character is added to the word. -/
theorem take_inner (hc : σ.inner c = true) (w : List α) : σ.take w c = .word (w ++ [c]) := by
  obtain ⟨-, hquote, hesc⟩ := inner_iff.mp hc
  rw [take, if_neg hesc, dif_neg (by simp [hquote])]

omit [DecidableEq α] in
/-- At the end of the text, the words are those that have been read. -/
theorem finish_words {ws : List (List α)} (h : σ.finish r = some ws) : ws = r.words := by
  unfold finish at h
  split at h
  · cases h
  · exact (Option.some.inj h).symm

omit [DecidableEq α] in
/-- The end of a line is no quote. -/
theorem eol_ne_quote {q : α} (hq : σ.quote q = true) : σ.eol ≠ q := by
  rintro rfl
  have hskip := σ.skip_quote _ hq
  rw [σ.skip_sep _ σ.sep_eol] at hskip; cases hskip

/-- After the end of a line the splitter stands between two words, or the end of the line
    has been escaped and is part of a word. -/
theorem step_eol (h : σ.step r σ.eol = some r') :
    (r'.mode = .between ∧ r'.words = r.words) ∨
      ∃ d w, r.words = d ++ [w] ∧ r' = ⟨d, .word (w ++ [σ.eol])⟩ := by
  obtain ⟨done, mode⟩ := r
  cases mode with
  | between =>
    rw [step_between, if_pos (σ.skip_sep _ σ.sep_eol)] at h
    cases h; exact .inl ⟨rfl, rfl⟩
  | word w =>
    rw [step_word, if_pos σ.sep_eol] at h
    cases h; exact .inl ⟨rfl, by simp [Reader.words, Mode.current]⟩
  | quoted q hq w =>
    rw [step_quoted, if_neg (eol_ne_quote hq), if_pos rfl] at h
    cases h
  | escaped w =>
    cases h
    exact .inr ⟨done, w, rfl, rfl⟩

/-- Between two words, what is skipped makes no difference. -/
theorem run_skip {d : List (List α)} (hs : ∀ c ∈ s, σ.skip c = true) :
    σ.run ⟨d, .between⟩ s = some ⟨d, .between⟩ := by
  induction s with
  | nil => rfl
  | cons c s ih =>
    rw [List.forall_mem_cons] at hs
    rw [run_cons, step_between, if_pos hs.1]
    exact ih hs.2

/-- Within a word, inner characters are added to it. -/
theorem run_inner {d : List (List α)} {w : List α} (hs : ∀ c ∈ s, σ.inner c = true) :
    σ.run ⟨d, .word w⟩ s = some ⟨d, .word (w ++ s)⟩ := by
  induction s generalizing w with
  | nil => rw [List.append_nil]; rfl
  | cons c s ih =>
    rw [List.forall_mem_cons] at hs
    rw [run_cons, step_word, if_neg (by simp [(inner_iff.mp hs.1).1]), take_inner hs.1]
    show σ.run ⟨d, .word (w ++ [c])⟩ s = _
    rw [ih hs.2, List.append_assoc]; rfl

end Quoting

end VideoPackages.Words
