import Mathlib.Data.Option.Basic
import Mathlib.Data.List.Basic
import Mathlib.Tactic.Common

namespace VideoPackages.FileTree

/-!
# Directory trees and half-finished work on them

A `Tree` gives the bytes of each regular file of a directory by its path.  Every tool that
fills a directory (an untar, a recursive copy, a `make install`) writes a tree `new` over
the tree that is there: `overlay`.  Stopped half-way it leaves `cutOverlay`: each file is
as it was, or holds the first bytes of its new contents.

* `Extends t u` — `t` holds every file of `u` with `u`'s bytes, and perhaps more;
* `ExtendsOff t u new` — the same, but for the bytes of files that `new` writes;
* `Over u new t` — `t` is `u` up to files that `new` writes: all that an unfinished
  writer of `new` can have changed;
* `Over.overlay_eq` — redoing interrupted work heals it;
* `Progress.Full` — the writer had in fact written everything when it was stopped.
-/

variable {P β : Type*}

/-- A directory tree: the bytes of each regular file, by path. -/
abbrev Tree (P β : Type*) := P → Option (List β)

/-- How far a command got before it was stopped: whether its target had been created, how
    many bytes of a single target file were written, and, for a target tree, which files
    had been begun and with how many bytes. -/
structure Progress (P : Type*) where
  begun : Bool
  bytes : ℕ
  files : P → Option ℕ

namespace Tree

/-- The empty directory. -/
def empty : Tree P β := fun _ => none

/-- Write every file of `new` over `t`. -/
def overlay (t new : Tree P β) : Tree P β := fun p => (new p).or (t p)

/-- Write `new` over `t` and stop: file `p` is untouched, or holds its first `n` bytes. -/
def cutOverlay (k : P → Option ℕ) (t new : Tree P β) : Tree P β := fun p =>
  match k p, new p with
  | some n, some b => some (b.take n)
  -- not begun, or no file of `new`
  | _, _ => t p

/-- The files of `t` that are also files of `u`. -/
def restrict (t u : Tree P β) : Tree P β := fun p => if (u p).isSome then t p else none

/-- Write one file. -/
def write [DecidableEq P] (t : Tree P β) (p : P) (b : List β) : Tree P β :=
  Function.update t p (some b)

/-- `t` holds every file of `u` with its bytes. -/
def Extends (t u : Tree P β) : Prop := ∀ p b, u p = some b → t p = some b

/-- `t` holds every file of `u`, with its bytes unless it is a file of `new`. -/
def ExtendsOff (t u new : Tree P β) : Prop :=
  ∀ p b, u p = some b → t p ≠ none ∧ (new p = none → t p = some b)

/-- No file of `u` is a file of `w`. -/
def Apart (u w : Tree P β) : Prop := ∀ p, u p ≠ none → w p = none

/-- On the files of `u`, `t'` is `t`. -/
def SameOn (u t t' : Tree P β) : Prop := ∀ p, u p ≠ none → t' p = t p

/-- Off the files of `new`, `t` is `u`; and no file of `u` is missing. -/
structure Over (u new t : Tree P β) : Prop where
  off : ∀ p, new p = none → t p = u p
  present : ∀ p, u p ≠ none → t p ≠ none

/-! ### Pointwise reading -/

@[simp] theorem empty_apply (p : P) : (empty : Tree P β) p = none := rfl

theorem overlay_apply (t new : Tree P β) (p : P) : t.overlay new p = (new p).or (t p) := rfl

/-- A new file is found as it is. -/
theorem overlay_of_some {t new : Tree P β} {p : P} {b : List β} (h : new p = some b) :
    t.overlay new p = some b := by
  rw [overlay_apply, h]; rfl

/-- Elsewhere the old tree is found. -/
theorem overlay_of_none {t new : Tree P β} {p : P} (h : new p = none) :
    t.overlay new p = t p := by
  rw [overlay_apply, h]; rfl

/-- A write that was cut has not touched other files. -/
theorem cutOverlay_of_none {k : P → Option ℕ} {t new : Tree P β} {p : P} (h : new p = none) :
    t.cutOverlay k new p = t p := by
  unfold cutOverlay; rw [h]; cases k p <;> rfl

/-- Nor those it has not come to. -/
theorem cutOverlay_untouched {k : P → Option ℕ} {t new : Tree P β} {p : P} (h : k p = none) :
    t.cutOverlay k new p = t p := by
  unfold cutOverlay; rw [h]

/-- A file that it has come to is a beginning of the new one. -/
theorem cutOverlay_touched {k : P → Option ℕ} {t new : Tree P β} {p : P} {n : ℕ} {b : List β}
    (hk : k p = some n) (h : new p = some b) : t.cutOverlay k new p = some (b.take n) := by
  unfold cutOverlay; rw [hk, h]

/-- A stopped writer leaves each file as it was, or with a prefix of its new contents. -/
theorem cutOverlay_cases (k : P → Option ℕ) (t new : Tree P β) (p : P) :
    t.cutOverlay k new p = t p ∨
      ∃ n b, k p = some n ∧ new p = some b ∧ t.cutOverlay k new p = some (b.take n) := by
  cases hk : k p with
  | none => exact .inl (cutOverlay_untouched hk)
  | some n =>
    cases hn : new p with
    | none => exact .inl (cutOverlay_of_none hn)
    | some b => exact .inr ⟨n, b, rfl, rfl, cutOverlay_touched hk hn⟩

/-- A writer that gets to the end of every file. -/
theorem overlay_eq_cutOverlay (t new : Tree P β) :
    t.overlay new = t.cutOverlay (fun p => (new p).map List.length) new := by
  funext p
  cases hp : new p with
  | none => rw [overlay_of_none hp, cutOverlay_of_none hp]
  | some b =>
    rw [overlay_of_some hp, cutOverlay_touched (by rw [hp]; rfl) hp, List.take_length]

@[simp] theorem write_self [DecidableEq P] (t : Tree P β) (p : P) (b : List β) :
    t.write p b p = some b := by
  rw [write, Function.update_self]

/-- Other files stay as they are. -/
theorem write_of_ne [DecidableEq P] (t : Tree P β) {p q : P} (b : List β) (h : q ≠ p) :
    t.write p b q = t q := by
  rw [write, Function.update_of_ne h]

/-- Written into an empty directory, a tree is all there is. -/
theorem empty_overlay (t : Tree P β) : Tree.empty.overlay t = t := by
  funext p
  cases h : t p with
  | none => exact overlay_of_none h
  | some b => exact overlay_of_some h

/-- Nothing that is written leaves the tree as it is. -/
theorem overlay_empty (t : Tree P β) : t.overlay Tree.empty = t := by
  funext p
  exact overlay_of_none rfl

/-- Nor can it be cut. -/
theorem cutOverlay_empty (k : P → Option ℕ) (t : Tree P β) :
    t.cutOverlay k Tree.empty = t := by
  funext p
  exact cutOverlay_of_none rfl

/-! ### `Extends` -/

theorem Extends.refl (t : Tree P β) : t.Extends t := fun _ _ h => h

/-- Extensions of extensions. -/
theorem Extends.trans {t u w : Tree P β} (h₁ : t.Extends u) (h₂ : u.Extends w) :
    t.Extends w := fun p b h => h₁ p b (h₂ p b h)

/-- What has been written is there. -/
theorem extends_overlay (t new : Tree P β) : (t.overlay new).Extends new :=
  fun _ _ h => overlay_of_some h

/-- Files that are written elsewhere do no harm. -/
theorem Extends.overlay {t u new : Tree P β} (h : t.Extends u) (hd : u.Apart new) :
    (t.overlay new).Extends u := fun p b hp => by
  rw [overlay_of_none (hd p (by simp [hp]))]; exact h p b hp

/-- Nor do they when the write is cut. -/
theorem Extends.cutOverlay {t u new : Tree P β} (h : t.Extends u) (hd : u.Apart new)
    (k : P → Option ℕ) : (t.cutOverlay k new).Extends u := fun p b hp => by
  rw [cutOverlay_of_none (hd p (by simp [hp]))]; exact h p b hp

/-- The same files written on both sides. -/
theorem Extends.overlay_both {t u : Tree P β} (h : t.Extends u) (new : Tree P β) :
    (t.overlay new).Extends (u.overlay new) := by
  intro p b hp
  cases hn : new p with
  | none =>
    rw [overlay_of_none hn] at hp ⊢
    exact h p b hp
  | some c => rwa [overlay_of_some hn] at hp ⊢

/-- Two trees that do not share a file. -/
theorem Extends.both {t u w : Tree P β} (hu : t.Extends u) (hw : t.Extends w) :
    t.Extends (u.overlay w) := by
  intro p b hp
  -- a file of both is in `t` with its bytes in `w`
  cases hn : w p with
  | none => rw [overlay_of_none hn] at hp; exact hu p b hp
  | some c => rw [overlay_of_some hn] at hp; exact hw p b (hn.trans hp)

/-- Trees that agree on `u` extend it both or not at all. -/
theorem Extends.sameOn {t t' u : Tree P β} (h : t.Extends u) (hs : SameOn u t t') :
    t'.Extends u := fun p b hp => by
  rw [hs p (by simp [hp])]; exact h p b hp

theorem SameOn.refl (u t : Tree P β) : SameOn u t t := fun _ _ => rfl

/-- A tree that extends `u` has exactly `u` at its places. -/
theorem Extends.restrict_eq {t u : Tree P β} (h : t.Extends u) : t.restrict u = u := by
  funext p
  unfold restrict
  cases hp : u p with
  | none => simp
  | some b => simpa using h p b hp

/-- A file written at another place. -/
theorem Extends.write [DecidableEq P] {t u : Tree P β} (h : t.Extends u) {p : P}
    (hp : u p = none) (b : List β) : (t.write p b).Extends u := by
  intro q c hq
  have hne : q ≠ p := by rintro rfl; rw [hp] at hq; cases hq
  rw [write_of_ne t b hne]; exact h q c hq

/-- The same file written on both sides. -/
theorem Extends.write_both [DecidableEq P] {t u : Tree P β} (h : t.Extends u) (p : P)
    (b : List β) : (t.write p b).Extends (u.write p b) := by
  intro q c hq
  by_cases hqp : q = p
  · subst hqp; rwa [write_self] at hq ⊢
  · rw [write_of_ne _ b hqp] at hq ⊢; exact h q c hq

/-- Trees are apart in both directions. -/
theorem Apart.symm {u w : Tree P β} (h : u.Apart w) : w.Apart u := by
  intro p hp
  by_contra hu
  exact hp (h p hu)

/-- A tree that is apart from two is apart from both together. -/
theorem Apart.overlay {u v w : Tree P β} (hv : u.Apart v) (hw : u.Apart w) :
    u.Apart (v.overlay w) := fun p hp => by
  rw [overlay_of_none (hw p hp), hv p hp]

/-! ### Interrupted work, redone -/

/-- What is written last is found first. -/
theorem overlay_assoc (t a b : Tree P β) :
    (t.overlay a).overlay b = t.overlay (a.overlay b) := by
  funext p
  simp only [overlay_apply, Option.or_assoc]

theorem Over.refl (u new : Tree P β) : Over u new u := ⟨fun _ _ => rfl, fun _ h => h⟩

/-- The empty directory has no file that could be missing. -/
theorem over_empty {new t : Tree P β} (h : ∀ p, new p = none → t p = none) :
    Over Tree.empty new t := ⟨h, fun _ hp => absurd rfl hp⟩

/-- **Redoing interrupted work heals it.**  Once `new` is written in full, it no longer matters
    what an unfinished writer of it had left behind. -/
theorem Over.overlay_eq {u new t : Tree P β} (h : Over u new t) :
    t.overlay new = u.overlay new := by
  funext p
  cases hp : new p with
  | none => rw [overlay_of_none hp, overlay_of_none hp, h.off p hp]
  | some b => rw [overlay_of_some hp, overlay_of_some hp]

/-- A file that a stopped writer found is still there. -/
theorem cutOverlay_present {k : P → Option ℕ} {t new : Tree P β} {p : P} (h : t p ≠ none) :
    t.cutOverlay k new p ≠ none := by
  rcases cutOverlay_cases k t new p with hp | ⟨n, b, -, -, hp⟩
  · rwa [hp]
  · rw [hp]; exact Option.some_ne_none _

/-- Writing part of what `new` writes keeps `Over`, also when the writer is stopped. -/
theorem Over.cutOverlay {u new w t : Tree P β} (h : Over u new t)
    (hw : ∀ p, new p = none → w p = none) (k : P → Option ℕ) :
    Over u new (t.cutOverlay k w) where
  off := fun p hp => by rw [cutOverlay_of_none (hw p hp), h.off p hp]
  present := fun p hp => cutOverlay_present (h.present p hp)

/-- More files written where `new` has some. -/
theorem Over.overlay {u new w t : Tree P β} (h : Over u new t)
    (hw : ∀ p, new p = none → w p = none) : Over u new (t.overlay w) := by
  rw [overlay_eq_cutOverlay]; exact h.cutOverlay hw _

/-- A tree that only `new` has been written into, and all of it, is `new`. -/
theorem Over.eq_of_extends {new t : Tree P β} (h : Over Tree.empty new t)
    (ht : t.Extends new) : t = new := by
  funext p
  cases hp : new p with
  | none => exact h.off p hp
  | some b => exact ht p b hp

/-- One file written where `new` has one. -/
theorem Over.write [DecidableEq P] {u new t : Tree P β} (h : Over u new t) {p : P}
    (hp : new p ≠ none) (b : List β) : Over u new (t.write p b) := by
  refine ⟨fun q hq => ?_, fun q hq => ?_⟩
  · have hne : q ≠ p := by rintro rfl; exact hp hq
    rw [write_of_ne t b hne, h.off q hq]
  · by_cases hqp : q = p
    · subst hqp; rw [write_self]; exact Option.some_ne_none b
    · rw [write_of_ne t b hqp]; exact h.present q hq

/-! ### `ExtendsOff` -/

/-- An extension is one apart from any places. -/
theorem Extends.extendsOff {t u : Tree P β} (h : t.Extends u) (new : Tree P β) :
    t.ExtendsOff u new := fun p b hp =>
  ⟨by rw [h p b hp]; exact Option.some_ne_none b, fun _ => h p b hp⟩

/-- Where nothing is written, every file has its bytes. -/
theorem ExtendsOff.extends {t u : Tree P β} (h : t.ExtendsOff u Tree.empty) : t.Extends u :=
  fun p b hp => (h p b hp).2 rfl

/-- A writer of `new`, stopped or not, leaves the files of `u` as they have to be. -/
theorem Over.extendsOff {u w new t : Tree P β} (h : Over w new t) (hw : w.ExtendsOff u new) :
    t.ExtendsOff u new := fun p b hp =>
  ⟨h.present p (hw p b hp).1, fun hn => by rw [h.off p hn]; exact (hw p b hp).2 hn⟩

end Tree

/-! ### Progress -/

/-- The stopped writer of `new` had written every byte of it. -/
def Progress.Full (k : Progress P) (new : Tree P β) : Prop :=
  ∀ p b, new p = some b → ∃ n, k.files p = some n ∧ b.length ≤ n

/-- A write that has come to the end of all files is a whole one. -/
theorem Progress.Full.cutOverlay_eq {k : Progress P} {new : Tree P β} (h : k.Full new)
    (t : Tree P β) : t.cutOverlay k.files new = t.overlay new := by
  funext p
  cases hp : new p with
  | none => rw [Tree.cutOverlay_of_none hp, Tree.overlay_of_none hp]
  | some b =>
    obtain ⟨n, hk, hn⟩ := h p b hp
    rw [Tree.cutOverlay_touched hk hp, Tree.overlay_of_some hp, List.take_of_length_le hn]

/-! ### Directories that may be absent -/

/-- Write `new` into a directory, creating it if need be. -/
def fill (new : Tree P β) (d : Option (Tree P β)) : Option (Tree P β) :=
  some ((d.getD Tree.empty).overlay new)

/-- `fill`, stopped: before the directory was created, nothing happened. -/
def cutFill (k : Progress P) (new : Tree P β) (d : Option (Tree P β)) : Option (Tree P β) :=
  if k.begun then some ((d.getD Tree.empty).cutOverlay k.files new) else d

/-- `[ -f dir/p ]`. -/
def hasFile (d : Option (Tree P β)) (p : P) : Bool := ((d.bind (· p)).isSome)

/-- A write that has begun has made the directory. -/
theorem cutFill_begun {k : Progress P} (h : k.begun = true) (new : Tree P β)
    (d : Option (Tree P β)) :
    cutFill k new d = some ((d.getD Tree.empty).cutOverlay k.files new) := by
  unfold cutFill; rw [if_pos h]

/-- One that has not has made nothing. -/
theorem cutFill_idle {k : Progress P} (h : k.begun = false) (new : Tree P β)
    (d : Option (Tree P β)) : cutFill k new d = d := by
  unfold cutFill; simp [h]

/-- What a stopped writer leaves of a directory. -/
theorem cutFill_some {k : Progress P} {new t : Tree P β} {d : Option (Tree P β)}
    (h : cutFill k new d = some t) :
    d = some t ∨ t = (d.getD Tree.empty).cutOverlay k.files new := by
  cases hb : k.begun with
  | false => rw [cutFill_idle hb] at h; exact .inl h
  | true => rw [cutFill_begun hb] at h; exact .inr (Option.some.inj h).symm

/-- Writing no files leaves a directory as it is. -/
theorem cutFill_empty (k : Progress P) (t : Tree P β) :
    cutFill k Tree.empty (some t) = some t := by
  cases hb : k.begun with
  | false => rw [cutFill_idle hb]
  | true => rw [cutFill_begun hb]; exact congrArg some (Tree.cutOverlay_empty _ t)

/-- A write that has come to the end is a whole one. -/
theorem cutFill_full {k : Progress P} {new : Tree P β} (h : k.Full new)
    (hb : k.begun = true) (d : Option (Tree P β)) : cutFill k new d = fill new d := by
  rw [cutFill_begun hb, h.cutOverlay_eq]; rfl

/-- A writer that creates its directory and gets to the end of every file. -/
theorem fill_eq_cutFill (new : Tree P β) (d : Option (Tree P β)) :
    fill new d = cutFill ⟨true, 0, fun p => (new p).map List.length⟩ new d := by
  rw [cutFill_begun rfl]
  exact congrArg some (Tree.overlay_eq_cutOverlay _ _)

/-- Files that are apart from what is written stay as they are. -/
theorem fill_sameOn {u new : Tree P β} (h : u.Apart new) (d : Option (Tree P β)) :
    Tree.SameOn u (d.getD Tree.empty) ((fill new d).getD Tree.empty) := fun p hp =>
  Tree.overlay_of_none (h p hp)

/-- Also when the write is cut. -/
theorem cutFill_sameOn {u new : Tree P β} (h : u.Apart new) (k : Progress P)
    (d : Option (Tree P β)) :
    Tree.SameOn u (d.getD Tree.empty) ((cutFill k new d).getD Tree.empty) := by
  intro p hp
  cases hb : k.begun with
  | false => rw [cutFill_idle hb]
  | true => rw [cutFill_begun hb]; exact Tree.cutOverlay_of_none (h p hp)

/-- `[ -f … ]` in a directory that may be missing. -/
theorem hasFile_eq (d : Option (Tree P β)) (p : P) :
    hasFile d p = ((d.getD Tree.empty) p).isSome := by
  cases d <;> rfl

@[simp] theorem hasFile_some (t : Tree P β) (p : P) : hasFile (some t) p = (t p).isSome := rfl

end VideoPackages.FileTree
