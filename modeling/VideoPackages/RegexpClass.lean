import VideoPackages.CharRange
import VideoPackages.RegexpCode

namespace VideoPackages.Regexp

open Boundaries Bytes Unicode

/-!
# Character classes of `libregexp.c`

A class such as `[^a-z\d]` is compiled to one instruction, which has the intervals of the class in
increasing order, in 16 or in 32 bits; the interpreter looks for the character by bisection.

* `reParseClass` — the ranges of the atoms are united, inverted after `^`, and emitted
  (`reEmitRange`);
* `charOp` — the interpreter on an instruction that matches one character;
* `REOp.Tests` — what characters an instruction matches; `reParseClass_tests` — **the compiled
  class matches exactly the characters of the class**.

Characters are matched as they are: the flag `i` is left out.  The ranges of Unicode properties
are given.
-/

/-! ### The compiler -/

/-- The intervals of the points. -/
def intervals : List ℕ → List (ℕ × ℕ)
  | a :: b :: rest => (a, b) :: intervals rest
  | _ => []

/-- The bounds of an interval, both inclusive, in 16 bits: `0xffff` is infinity. -/
def bounds16 (i : ℕ × ℕ) : ℕ × ℕ := (i.1, if i.2 - 1 = uint32Max - 1 then 0xffff else i.2 - 1)

/-- The bounds of an interval, both inclusive, in 32 bits. -/
def bounds32 (i : ℕ × ℕ) : ℕ × ℕ := (i.1, i.2 - 1)

/-- Two bounds of `w` bytes. -/
def putBounds (w : ℕ) (b : ℕ × ℕ) : List ℕ := putLE w b.1 ++ putLE w b.2

/-- An instruction with the number of intervals, and their bounds in `w` bytes. -/
def rangeOp (op : REOPCodeEnum) (w : ℕ) (bs : List (ℕ × ℕ)) : REOp :=
  ⟨op, putLE 2 bs.length ++ bs.flatMap (putBounds w)⟩

/-- `re_emit_range`. -/
def reEmitRange (cr : List ℕ) : Except String REOp :=
  let len := cr.length / 2
  if 65535 ≤ len then .error "too many ranges"
  else if len = 0 then .ok (reEmitOpU32 .char32 uint32Max)
  else
    let high := cr.getD (cr.length - 1) 0
    let high := if high = uint32Max then cr.getD (cr.length - 2) 0 else high
    if high ≤ 0xffff then .ok (rangeOp .range 2 ((intervals cr).map bounds16))
    else .ok (rangeOp .range32 4 ((intervals cr).map bounds32))

/-- `CHAR_RANGE_*`. -/
inductive CharRangeEnum where
  | d
  | D
  | s
  | S
  | w
  | W
  deriving DecidableEq, Repr

/-- `char_range_d`, `char_range_s` and `char_range_w`, with the number of intervals first. -/
def CharRangeEnum.table : CharRangeEnum → List ℕ
  | .d | .D => [1, 0x0030, 0x0039 + 1]
  | .s | .S => [10, 0x0009, 0x000D + 1, 0x0020, 0x0020 + 1, 0x00A0, 0x00A0 + 1, 0x1680, 0x1680 + 1,
      0x2000, 0x200A + 1, 0x2028, 0x2029 + 1, 0x202F, 0x202F + 1, 0x205F, 0x205F + 1, 0x3000,
      0x3000 + 1, 0xFEFF, 0xFEFF + 1]
  | .w | .W => [4, 0x0030, 0x0039 + 1, 0x0041, 0x005A + 1, 0x005F, 0x005F + 1, 0x0061, 0x007A + 1]

/-- `c & 1`. -/
def CharRangeEnum.inverted : CharRangeEnum → Bool
  | .d | .s | .w => false
  | .D | .S | .W => true

/-- The points that the loop of `cr_init_char_range` adds. -/
def CharRangeEnum.points (e : CharRangeEnum) : List ℕ := e.table.tail.take (e.table.headD 0 * 2)

/-- `cr_init_char_range`. -/
def crInitCharRange (e : CharRangeEnum) : List ℕ :=
  if e.inverted then crInvert e.points else e.points

/-- What stands in a class: a character or a range of characters, `\d` and the like, or a Unicode
    property with its ranges. -/
inductive ClassAtom where
  | chars (c₁ c₂ : ℕ)
  | escape (e : CharRangeEnum)
  | property (r : CharRange)

/-- The body of the loop of `re_parse_char_class`, after an atom is read. -/
def reClassAtom (cr : List ℕ) : ClassAtom → Except String (List ℕ)
  | .chars c₁ c₂ =>
    if c₂ < c₁ then .error "invalid class range" else .ok (crUnionInterval cr c₁ c₂)
  | .escape e => .ok (crUnion1 cr (crInitCharRange e))
  | .property r => .ok (crUnion1 cr r.points)

/-- `re_parse_char_class`; `invert` after `^`. -/
def reParseClass (atoms : List ClassAtom) (invert : Bool) : Except String REOp := do
  let cr ← atoms.foldlM reClassAtom []
  reEmitRange (if invert then crInvert cr else cr)

/-! ### The interpreter -/

/-- The bisection of `REOP_range` and `REOP_range32`; the indices are `uint32_t`. -/
def bisect (w : ℕ) (pc : List ℕ) (c : ℕ) : ℕ → ℕ → ℕ → Bool
  | 0, _, _ => false
  | fuel + 1, idxMin, idxMax =>
    if idxMin ≤ idxMax then
      let idx := (idxMin + idxMax) / 2
      let low := getLE w (pc.drop (idx * (w + w)))
      let high := getLE w (pc.drop (idx * (w + w) + w))
      if c < low then bisect w pc c fuel idxMin (if idx = 0 then uint32Max else idx - 1)
      else if high < c then bisect w pc c fuel (idx + 1) idxMax
      else true
    else false

/-- `REOP_range`, where `0xffff` at the end is infinity, and `REOP_range32`, on `n` intervals. -/
def execRange (w : ℕ) (infinity : Bool) (n : ℕ) (pc : List ℕ) (c : ℕ) : Bool :=
  if c < getLE w (pc.drop 0) then false
  else
    let high := getLE w (pc.drop ((n - 1) * (w + w) + w))
    if infinity ∧ 0xffff ≤ c ∧ high = 0xffff then true
    else if high < c then false
    else bisect w pc c n 0 (n - 1)

/-- `is_line_terminator`. -/
def isLineTerminator (c : ℕ) : Bool :=
  decide (c = 0x0a) || decide (c = 0x0d) || decide (c = 0x2028) || decide (c = 0x2029)

/-- The instructions that match one character: the size of the operand at `pc`, and whether the
    character is matched. -/
def charOp (op : REOPCodeEnum) (pc : List ℕ) : Option (ℕ × (ℕ → Bool)) :=
  match op with
  | .char32 => some (4, fun c => decide (getLE 4 pc = c))
  | .char => some (2, fun c => decide (getLE 2 pc = c))
  | .dot => some (0, fun c => !isLineTerminator c)
  | .any => some (0, fun _ => true)
  | .range => some (2 + 4 * getLE 2 pc, execRange 2 true (getLE 2 pc) (pc.drop 2))
  | .range32 => some (2 + 8 * getLE 2 pc, execRange 4 false (getLE 2 pc) (pc.drop 2))
  | _ => none

/-- The instruction matches the characters of `p`, whatever follows it. -/
def REOp.Tests (i : REOp) (p : ℕ → Bool) : Prop :=
  ∀ rest, ∃ test, charOp i.opcode (i.operand ++ rest) = some (i.operand.length, test) ∧
    ∀ c, c < uint32Max → test c = p c

/-! ### Bisection -/

section Bisect

variable {w c fuel idxMin idxMax n : ℕ} {pc : List ℕ}

/-- The bounds at an index. -/
def boundsAt (w : ℕ) (pc : List ℕ) (i : ℕ) : ℕ × ℕ :=
  (getLE w (pc.drop (i * (w + w))), getLE w (pc.drop (i * (w + w) + w)))

/-- Bounds in increasing order. -/
structure Increasing (at' : ℕ → ℕ × ℕ) (n : ℕ) : Prop where
  le : ∀ i, i < n → (at' i).1 ≤ (at' i).2
  lt : ∀ i j, i < j → j < n → (at' i).2 < (at' j).1

/-- **The bisection finds the interval.**  The index does not underflow, since the character is
    not below the first bound. -/
theorem bisect_iff (hb : Increasing (boundsAt w pc) n) (hfirst : (boundsAt w pc 0).1 ≤ c)
    (hmax : idxMax < n) (hfuel : idxMax + 1 ≤ idxMin + fuel) :
    bisect w pc c fuel idxMin idxMax = true ↔
      ∃ i, idxMin ≤ i ∧ i ≤ idxMax ∧ (boundsAt w pc i).1 ≤ c ∧ c ≤ (boundsAt w pc i).2 := by
  induction fuel generalizing idxMin idxMax with
  | zero =>
    refine ⟨fun h => absurd h Bool.false_ne_true, ?_⟩
    rintro ⟨i, hmin, hmax, -⟩
    omega
  | succ fuel ih =>
    rw [bisect]
    by_cases hle : idxMin ≤ idxMax
    · rw [if_pos hle]
      generalize hidx : (idxMin + idxMax) / 2 = idx
      have hge : idxMin ≤ idx := by omega
      have hub : idx ≤ idxMax := by omega
      have hlh := hb.le idx (by omega)
      show (if c < (boundsAt w pc idx).1 then _ else if (boundsAt w pc idx).2 < c then _ else _)
        = true ↔ _
      -- the intervals increase: none from `idx` on begins at or below `c`
      by_cases hlow : c < (boundsAt w pc idx).1
      · have hpos : idx ≠ 0 := fun h => by rw [h] at hlow; omega
        rw [if_pos hlow, if_neg hpos, ih (by omega) (by omega)]
        refine exists_congr fun i => and_congr_right fun _ => ?_
        constructor
        · rintro ⟨h₁, h₂⟩
          exact ⟨by omega, h₂⟩
        · rintro ⟨h₁, h₂, h₃⟩
          refine ⟨?_, h₂, h₃⟩
          by_contra hi
          rcases Nat.eq_or_lt_of_le (show idx ≤ i by omega) with rfl | hlt
          · omega
          · have := hb.lt idx i hlt (by omega)
            omega
      rw [if_neg hlow]
      -- none up to `idx` ends at or above `c`
      by_cases hhigh : (boundsAt w pc idx).2 < c
      · rw [if_pos hhigh, ih hmax (by omega)]
        refine exists_congr fun i => ?_
        constructor
        · rintro ⟨h₁, h₂⟩
          exact ⟨by omega, h₂⟩
        · rintro ⟨h₁, h₂, h₃, h₄⟩
          refine ⟨?_, h₂, h₃, h₄⟩
          by_contra hi
          rcases Nat.eq_or_lt_of_le (show i ≤ idx by omega) with rfl | hlt
          · omega
          · have := hb.lt i idx hlt (by omega)
            omega
      · rw [if_neg hhigh]
        exact ⟨fun _ => ⟨idx, hge, hub, by omega, by omega⟩, fun _ => rfl⟩
    · rw [if_neg hle]
      refine ⟨fun h => absurd h Bool.false_ne_true, ?_⟩
      rintro ⟨i, h₁, h₂, -⟩
      omega

end Bisect

/-! ### One instruction -/

section Exec

variable {w c i : ℕ} {es : List (ℕ × ℕ)} {rest : List ℕ}

/-- Bounds as they are emitted: in increasing order, of `w` bytes each. -/
structure Emitted (w : ℕ) (es : List (ℕ × ℕ)) : Prop where
  le : ∀ e ∈ es, e.1 ≤ e.2
  lt : es.Pairwise fun x y => x.2 < y.1
  fits : ∀ e ∈ es, e.2 < 256 ^ w

@[simp] theorem length_putBounds (w : ℕ) (b : ℕ × ℕ) : (putBounds w b).length = w + w := by
  rw [putBounds, List.length_append, length_putLE, length_putLE]

/-- The bounds are read back as they were written, whatever code comes after them. -/
theorem boundsAt_records (he : Emitted w es) (hi : i < es.length) :
    boundsAt w (es.flatMap (putBounds w) ++ rest) i = es[i] := by
  have hmem := List.getElem_mem hi
  have hfits := he.fits _ hmem
  have hlow := Nat.lt_of_le_of_lt (he.le _ hmem) hfits
  rw [boundsAt, ← List.drop_drop, drop_flatMap (length_putBounds w) hi.le,
    List.drop_eq_getElem_cons hi, List.flatMap_cons, putBounds, List.append_assoc,
    List.append_assoc,
    getLE_putLE hlow, List.drop_left' (length_putLE _ _), getLE_putLE hfits]

/-- Bounds that were emitted increase, as the bisection needs them to. -/
theorem Emitted.increasing (he : Emitted w es) (rest : List ℕ) :
    Increasing (boundsAt w (es.flatMap (putBounds w) ++ rest)) es.length where
  le i hi := by
    rw [boundsAt_records he hi]
    exact he.le _ (List.getElem_mem hi)
  lt i j hij hj := by
    rw [boundsAt_records he hj, boundsAt_records he (hij.trans hj)]
    exact List.pairwise_iff_getElem.mp he.lt i j (hij.trans hj) hj hij

/-- **`REOP_range` and `REOP_range32`.**  The character is matched by an interval, or by
    infinity. -/
theorem execRange_spec (he : Emitted w es) (infinity : Bool) (hne : 0 < es.length) :
    execRange w infinity es.length (es.flatMap (putBounds w) ++ rest) c = true ↔
      es[0].1 ≤ c ∧ ((infinity ∧ 0xffff ≤ c ∧ es[es.length - 1].2 = 0xffff) ∨
        ∃ e ∈ es, e.1 ≤ c ∧ c ≤ e.2) := by
  have hlast : es.length - 1 < es.length := by omega
  have hlow : getLE w ((es.flatMap (putBounds w) ++ rest).drop 0) = es[0].1 := by
    have hat : (boundsAt w (es.flatMap (putBounds w) ++ rest) 0).1 = es[0].1 := by
      rw [boundsAt_records he hne]
    rwa [boundsAt, Nat.zero_mul] at hat
  have hhigh : getLE w ((es.flatMap (putBounds w) ++ rest).drop ((es.length - 1) * (w + w) + w))
      = es[es.length - 1].2 := by
    have hat : (boundsAt w (es.flatMap (putBounds w) ++ rest) (es.length - 1)).2
        = es[es.length - 1].2 := by rw [boundsAt_records he hlast]
    exact hat
  have hinc := he.increasing rest
  simp only [execRange, hlow, hhigh]
  -- below the first interval the test fails at once
  by_cases hfirst : c < es[0].1
  · rw [if_pos hfirst]
    exact ⟨fun h => absurd h Bool.false_ne_true, fun h => by omega⟩
  rw [if_neg hfirst]
  -- a last bound of 0xffff stands for no bound
  by_cases hinf : infinity ∧ 0xffff ≤ c ∧ es[es.length - 1].2 = 0xffff
  · rw [if_pos hinf]
    exact ⟨fun _ => ⟨by omega, .inl hinf⟩, fun _ => rfl⟩
  rw [if_neg hinf]
  have hsearch : (bisect w (es.flatMap (putBounds w) ++ rest) c es.length 0 (es.length - 1) = true)
      ↔ ∃ e ∈ es, e.1 ≤ c ∧ c ≤ e.2 := by
    rw [bisect_iff hinc (by rw [boundsAt_records he hne]; omega) hlast (by omega)]
    constructor
    · rintro ⟨i, -, hi, hic⟩
      have hi' : i < es.length := by omega
      rw [boundsAt_records he hi'] at hic
      exact ⟨es[i], List.getElem_mem hi', hic⟩
    · rintro ⟨e, hmem, hec⟩
      obtain ⟨i, hi, rfl⟩ := List.getElem_of_mem hmem
      exact ⟨i, Nat.zero_le i, by omega, by rwa [boundsAt_records he hi]⟩
  -- beyond the last interval it fails too, otherwise the bisection decides
  by_cases hbeyond : es[es.length - 1].2 < c
  · have hnone : ¬ ∃ e ∈ es, e.1 ≤ c ∧ c ≤ e.2 := by
      rintro ⟨e, hmem, -, hec⟩
      obtain ⟨i, hi, rfl⟩ := List.getElem_of_mem hmem
      have hi' : i ≤ es.length - 1 := Nat.le_sub_one_of_lt hi
      rcases Nat.eq_or_lt_of_le hi' with rfl | hlt
      · omega
      · have := List.pairwise_iff_getElem.mp he.lt i (es.length - 1) hi hlast hlt
        have := he.le _ (List.getElem_mem hlast)
        omega
    rw [if_pos hbeyond]
    exact ⟨fun h => absurd h Bool.false_ne_true, fun h => (h.2.elim hinf hnone).elim⟩
  · rw [if_neg hbeyond, hsearch]
    exact ⟨fun h => ⟨by omega, .inr h⟩, fun h => h.2.resolve_left hinf⟩

end Exec

/-! ### The intervals of a range -/

section Intervals

variable {pts : List ℕ} {c : ℕ}

/-- The intervals of strictly sorted points. -/
structure Intervals (pts : List ℕ) : Prop where
  lt : ∀ i ∈ intervals pts, i.1 < i.2 ∧ i.1 ∈ pts ∧ i.2 ∈ pts
  sorted : (intervals pts).Pairwise fun x y => x.2 < y.1
  length : (intervals pts).length = pts.length / 2
  inside : ∀ c, inside pts c = true ↔ ∃ i ∈ intervals pts, i.1 ≤ c ∧ c < i.2
  last : ∀ i ∈ (intervals pts).getLast?,
    i = (pts.getD (pts.length - 2) 0, pts.getD (pts.length - 1) 0)

/-- Points that increase, an even number of them, bound intervals one after the other. -/
theorem intervals_spec (hsorted : pts.Pairwise (· < ·)) (heven : pts.length % 2 = 0) :
    Intervals pts := by
  induction pts using List.twoStepInduction with
  | nil => exact ⟨nofun, .nil, rfl, by simp [inside, intervals], nofun⟩
  | singleton x => simp at heven
  | cons_cons a b pts ih _ =>
    obtain ⟨ha, hsorted₁⟩ := List.pairwise_cons.mp hsorted
    obtain ⟨hb, hsorted₂⟩ := List.pairwise_cons.mp hsorted₁
    have h := ih hsorted₂ (by simp only [List.length_cons] at heven; omega)
    have hab := ha b List.mem_cons_self
    refine ⟨fun i hi => ?_, List.pairwise_cons.mpr ⟨fun i hi => ?_, h.sorted⟩, ?_, fun c => ?_,
      fun i hi => ?_⟩
    · rcases List.mem_cons.mp hi with rfl | hi
      · exact ⟨hab, by simp, by simp⟩
      · obtain ⟨hlt, h₁, h₂⟩ := h.lt i hi
        exact ⟨hlt, by simp [h₁], by simp [h₂]⟩
    · exact hb _ (h.lt i hi).2.1
    · rw [intervals, List.length_cons, h.length, List.length_cons, List.length_cons]
      omega
    · -- inside the first interval, or an even number of points passed
      rw [inside_pair hab.le fun p hp => (hb p hp).le, h.inside, intervals]
      simp
    · rcases pts with _ | ⟨x, _ | ⟨y, pts⟩⟩
      · simpa [intervals, eq_comm] using hi
      · simp at heven
      · rw [intervals, intervals, List.getLast?_cons_cons] at hi
        exact h.last i (by rwa [intervals])

end Intervals

/-! ### Compiled ranges -/

section Emit

variable {r : CharRange} {c : ℕ}

/-- A range has what one of its intervals has. -/
theorem has_iff (r : CharRange) (c : ℕ) :
    r.has c = true ↔ ∃ i ∈ intervals r.points, i.1 ≤ c ∧ c < i.2 :=
  (intervals_spec r.sorted r.even).inside c

/-- No interval is empty, and none goes beyond the last code point of a range. -/
theorem bounded_intervals (r : CharRange) {i : ℕ × ℕ} (hi : i ∈ intervals r.points) :
    i.1 < i.2 ∧ i.2 ≤ uint32Max :=
  have hlt := (intervals_spec r.sorted r.even).lt i hi
  ⟨hlt.1, r.bounded _ hlt.2.2⟩

/-- The intervals of any range can be emitted with operands of 32 bits. -/
theorem emitted32 (r : CharRange) : Emitted 4 ((intervals r.points).map bounds32) where
  le e he := by
    obtain ⟨i, hi, rfl⟩ := List.mem_map.mp he
    have := (bounded_intervals r hi).1
    show i.1 ≤ i.2 - 1
    omega
  lt := by
    refine List.pairwise_map.mpr ((intervals_spec r.sorted r.even).sorted.imp fun {x y} hlt => ?_)
    show x.2 - 1 < y.1
    omega
  fits e he := by
    obtain ⟨i, hi, rfl⟩ := List.mem_map.mp he
    have := (bounded_intervals r hi).2
    have : uint32Max < 256 ^ 4 := by decide
    show i.2 - 1 < 256 ^ 4
    omega

/-- What `re_emit_range` checks for 16 bits: every interval but the last ends at or below
    `0xffff`, and the last one does, or has no end. -/
theorem short_intervals (r : CharRange) {l : ℕ × ℕ} (hl : l ∈ (intervals r.points).getLast?)
    (hshort : (if l.2 = uint32Max then l.1 else l.2) ≤ 0xffff) {i : ℕ × ℕ}
    (hi : i ∈ intervals r.points) :
    i.1 ≤ 0xffff ∧ (i.2 ≤ 0xffff ∨ i.2 = uint32Max ∧ l.2 = uint32Max) := by
  have hlast : l.1 < l.2 ∧ l.2 ≤ uint32Max := bounded_intervals r (List.mem_of_getLast? hl)
  have hi₁ := bounded_intervals r hi
  have hmax : 0xffff < uint32Max := by decide
  obtain ⟨front, hfront⟩ := List.getLast?_eq_some_iff.mp hl
  rw [hfront] at hi
  have hsorted := (intervals_spec r.sorted r.even).sorted
  rw [hfront] at hsorted
  rcases List.mem_append.mp hi with hi | hi
  · have hlt := (List.pairwise_append.mp hsorted).2.2 i hi l List.mem_cons_self
    split at hshort <;> omega
  · obtain rfl := List.mem_singleton.mp hi
    split at hshort
    · rename_i heq
      exact ⟨hshort, .inr ⟨heq, heq⟩⟩
    · exact ⟨by omega, .inl hshort⟩

/-- The upper bound in 16 bits: 0xffff stands for no bound at all. -/
theorem bounds16_snd {i : ℕ × ℕ} (hi : i.1 < i.2) :
    (bounds16 i).2 = if i.2 = uint32Max then 0xffff else i.2 - 1 := by
  have : 0 < uint32Max := by decide
  have hiff : i.2 - 1 = uint32Max - 1 ↔ i.2 = uint32Max := by omega
  simp only [bounds16, hiff]

/-- With operands of 16 bits it takes intervals within 16 bits, or without an upper bound. -/
theorem emitted16 (r : CharRange)
    (hshort : ∀ i ∈ intervals r.points, i.1 ≤ 0xffff ∧ (i.2 ≤ 0xffff ∨ i.2 = uint32Max)) :
    Emitted 2 ((intervals r.points).map bounds16) where
  le e he := by
    obtain ⟨i, hi, rfl⟩ := List.mem_map.mp he
    have hlt := (bounded_intervals r hi).1
    have := (hshort i hi).1
    rw [bounds16_snd hlt]
    show i.1 ≤ _
    split <;> omega
  lt := by
    have hmax : 0xffff < uint32Max := by decide
    refine List.pairwise_map.mpr ((intervals_spec r.sorted r.even).sorted.imp_of_mem
      fun {x y} hx hy hlt => ?_)
    have := (hshort y hy).1
    rw [bounds16_snd (bounded_intervals r hx).1]
    show _ < y.1
    split <;> omega
  fits e he := by
    obtain ⟨i, hi, rfl⟩ := List.mem_map.mp he
    have := (hshort i hi).2
    rw [bounds16_snd (bounded_intervals r hi).1]
    split <;> omega

/-- The instruction `char32` tests for its operand. -/
theorem tests_char32 (p : ℕ → Bool) {val : ℕ} (hval : val < 256 ^ 4)
    (hp : ∀ c, c < uint32Max → p c = decide (val = c)) : (reEmitOpU32 .char32 val).Tests p := by
  intro rest
  have hget : getLE 4 ((reEmitOpU32 .char32 val).operand ++ rest) = val := getLE_putLE hval rest
  refine ⟨fun c => decide (val = c), ?_, fun c hc => (hp c hc).symm⟩
  rw [reEmitOpU32, charOp]
  simp only [reEmitOpU32] at hget
  rw [hget]
  rfl

/-- The instruction `char` tests for its operand, which has to fit into 16 bits. -/
theorem tests_char (p : ℕ → Bool) {val : ℕ} (hval : val < 256 ^ 2)
    (hp : ∀ c, c < uint32Max → p c = decide (val = c)) : (reEmitOpU16 .char val).Tests p := by
  intro rest
  have hget : getLE 2 ((reEmitOpU16 .char val).operand ++ rest) = val := getLE_putLE hval rest
  refine ⟨fun c => decide (val = c), ?_, fun c hc => (hp c hc).symm⟩
  rw [reEmitOpU16, charOp]
  simp only [reEmitOpU16] at hget
  rw [hget]
  rfl

/-- The operand of a range, as `charOp` reads it. -/
theorem range_operand (op : REOPCodeEnum) (w : ℕ) {es : List (ℕ × ℕ)} (hlen : es.length < 65536)
    (rest : List ℕ) :
    getLE 2 ((rangeOp op w es).operand ++ rest) = es.length ∧
      ((rangeOp op w es).operand ++ rest).drop 2 = es.flatMap (putBounds w) ++ rest ∧
      (rangeOp op w es).operand.length = 2 + (w + w) * es.length := by
  rw [rangeOp, List.append_assoc]
  refine ⟨getLE_putLE (by omega) _, List.drop_left' (length_putLE 2 _), ?_⟩
  rw [List.length_append, length_putLE, length_flatMap (length_putBounds w), Nat.mul_comm]

/-- The bisection of `range`: from the lower bound of the first interval on, it finds the interval
    that has the character; beyond 16 bits only an interval without an upper bound has it. -/
theorem tests_range (p : ℕ → Bool) {es : List (ℕ × ℕ)} (he : Emitted 2 es)
    (hlen : es.length < 65536) (hne : 0 < es.length)
    (hp : ∀ c, c < uint32Max → (p c = true ↔ es[0].1 ≤ c ∧
      ((0xffff ≤ c ∧ es[es.length - 1].2 = 0xffff) ∨ ∃ e ∈ es, e.1 ≤ c ∧ c ≤ e.2))) :
    (rangeOp .range 2 es).Tests p := by
  intro rest
  obtain ⟨hnum, hdrop, hsize⟩ := range_operand .range 2 hlen rest
  refine ⟨execRange 2 true es.length (es.flatMap (putBounds 2) ++ rest), ?_, fun c hc => ?_⟩
  · rw [hsize, ← hdrop]
    simp only [charOp, rangeOp] at hnum ⊢
    rw [hnum]
  · rw [Bool.eq_iff_iff, execRange_spec he true hne, hp c hc]
    simp only [true_and]

/-- The bisection of `range32`, in which every upper bound counts as it is. -/
theorem tests_range32 (p : ℕ → Bool) {es : List (ℕ × ℕ)} (he : Emitted 4 es)
    (hlen : es.length < 65536) (hne : 0 < es.length)
    (hp : ∀ c, c < uint32Max → (p c = true ↔ es[0].1 ≤ c ∧ ∃ e ∈ es, e.1 ≤ c ∧ c ≤ e.2)) :
    (rangeOp .range32 4 es).Tests p := by
  intro rest
  obtain ⟨hnum, hdrop, hsize⟩ := range_operand .range32 4 hlen rest
  refine ⟨execRange 4 false es.length (es.flatMap (putBounds 4) ++ rest), ?_, fun c hc => ?_⟩
  · rw [hsize, ← hdrop]
    simp only [charOp, rangeOp] at hnum ⊢
    rw [hnum]
  · rw [Bool.eq_iff_iff, execRange_spec he false hne, hp c hc]
    simp only [Bool.false_eq_true, false_and, false_or]

/-- **A compiled range matches its characters.** -/
theorem reEmitRange_spec (r : CharRange) (hlen : r.points.length / 2 < 65535) :
    ∃ i, reEmitRange r.points = .ok i ∧ i.Tests r.has := by
  have hi := intervals_spec r.sorted r.even
  rw [reEmitRange, if_neg (Nat.not_le_of_lt hlen)]
  -- no interval: a character no subject contains
  by_cases hnone : r.points.length / 2 = 0
  · rw [if_pos hnone]
    refine ⟨_, rfl, tests_char32 r.has (by decide) fun c hc => ?_⟩
    rw [decide_eq_false (by omega)]
    refine Bool.eq_false_iff.mpr fun h => ?_
    obtain ⟨i, hmem, -⟩ := (has_iff r c).mp h
    have := List.length_pos_of_mem hmem
    have := hi.length
    omega
  rw [if_neg hnone]
  have hpos : 0 < (intervals r.points).length := by rw [hi.length]; omega
  -- the last interval chooses the width of the operands
  obtain ⟨l, hl⟩ : ∃ l, l ∈ (intervals r.points).getLast? :=
    ⟨_, List.getLast?_eq_some_getLast (List.ne_nil_of_length_pos hpos)⟩
  have hlast := hi.last l hl
  have hgetLast : (intervals r.points)[(intervals r.points).length - 1] = l := by
    rw [List.getLast?_eq_getElem?, Option.mem_def] at hl
    exact Option.some.inj ((List.getElem?_eq_getElem _).symm.trans hl)
  have hfirst : ∀ i ∈ intervals r.points, (intervals r.points)[0].1 ≤ i.1 := fun i hmem => by
    obtain ⟨k, hk, rfl⟩ := List.getElem_of_mem hmem
    rcases Nat.eq_zero_or_pos k with rfl | hkpos
    · exact le_rfl
    · have := List.pairwise_iff_getElem.mp hi.sorted 0 k hpos hk hkpos
      have := (bounded_intervals r (List.getElem_mem hpos)).1
      omega
  have hhigh : (if r.points.getD (r.points.length - 1) 0 = uint32Max
      then r.points.getD (r.points.length - 2) 0 else r.points.getD (r.points.length - 1) 0)
      = if l.2 = uint32Max then l.1 else l.2 := by rw [hlast]
  have hsize : ∀ f : ℕ × ℕ → ℕ × ℕ,
      ((intervals r.points).map f).length < 65536 ∧ 0 < ((intervals r.points).map f).length :=
    fun f => by rw [List.length_map, hi.length]; omega
  simp only [hhigh]
  -- 16 bits: an endless last interval is written as one up to 0xffff
  by_cases hshort : (if l.2 = uint32Max then l.1 else l.2) ≤ 0xffff
  · rw [if_pos hshort]
    have hmax : 0xffff < uint32Max := by decide
    have hall := fun i hmem => short_intervals r hl hshort (i := i) hmem
    have hemit := emitted16 r fun i hmem => ⟨(hall i hmem).1, (hall i hmem).2.imp_right And.left⟩
    refine ⟨_, rfl, tests_range r.has hemit (hsize bounds16).1 (hsize bounds16).2 fun c hc => ?_⟩
    rw [has_iff]
    simp only [List.getElem_map, List.length_map, hgetLast, List.mem_map]
    have hlbound := bounded_intervals r (List.mem_of_getLast? hl)
    have hlshort := hall l (List.mem_of_getLast? hl)
    constructor
    · rintro ⟨i, hmem, hic⟩
      have hib := bounded_intervals r hmem
      have hfst := hfirst i hmem
      refine ⟨le_trans hfst hic.1, ?_⟩
      by_cases hend : i.2 = uint32Max ∧ 0xffff ≤ c
      · refine .inl ⟨hend.2, ?_⟩
        rw [bounds16_snd hlbound.1, if_pos]
        have := (hall i hmem).2
        omega
      · refine .inr ⟨_, ⟨i, hmem, rfl⟩, hic.1, ?_⟩
        rw [bounds16_snd hib.1]
        split <;> omega
    · rintro ⟨hc₀, hinf | ⟨e, ⟨i, hmem, rfl⟩, he⟩⟩
      · -- infinity: the last interval has no end, and begins at or below `0xffff`
        have := hinf.2
        rw [bounds16_snd hlbound.1] at this
        refine ⟨l, List.mem_of_getLast? hl, ?_⟩
        split at this <;> omega
      · have hib := bounded_intervals r hmem
        rw [bounds16_snd hib.1] at he
        have hle : i.1 ≤ c := he.1
        refine ⟨i, hmem, hle, ?_⟩
        split at he <;> omega
  · -- 32 bits: every bound is written as it is
    rw [if_neg hshort]
    refine ⟨_, rfl,
      tests_range32 r.has (emitted32 r) (hsize bounds32).1 (hsize bounds32).2 fun c hc => ?_⟩
    rw [has_iff]
    simp only [List.getElem_map, List.mem_map]
    constructor
    · rintro ⟨i, hmem, hic⟩
      refine ⟨le_trans (hfirst i hmem) hic.1, _, ⟨i, hmem, rfl⟩, hic.1, ?_⟩
      show c ≤ i.2 - 1
      omega
    · rintro ⟨-, e, ⟨i, hmem, rfl⟩, hlow, hhigh⟩
      have := (bounded_intervals r hmem).1
      have hle : i.1 ≤ c := hlow
      have hge : c ≤ i.2 - 1 := hhigh
      exact ⟨i, hmem, hle, by omega⟩

end Emit

/-! ### Compiled classes -/

section Class

/-- The characters of an atom. -/
def ClassAtom.has : ClassAtom → ℕ → Bool
  | .chars c₁ c₂, c => decide (c₁ ≤ c ∧ c ≤ c₂)
  | .escape e, c => inside e.points c ^^ e.inverted
  | .property r, c => r.has c

/-- The points of an atom. -/
def ClassAtom.size : ClassAtom → ℕ
  | .chars _ _ => 2
  | .escape e => (crInitCharRange e).length
  | .property r => r.points.length

/-- Characters in order. -/
def ClassAtom.Valid : ClassAtom → Prop
  | .chars c₁ c₂ => c₁ ≤ c₂ ∧ c₂ < uint32Max
  | .escape _ | .property _ => True

/-- The range of an interval. -/
def intervalRange (c₁ c₂ : ℕ) (hle : c₁ ≤ c₂) (hmax : c₂ < uint32Max) : CharRange where
  points := [c₁, c₂ + 1]
  sorted := by simpa using Nat.lt_succ_of_le hle
  even := Nat.mod_self 2
  bounded p hp := by
    simp only [List.mem_cons, List.not_mem_nil, or_false] at hp
    omega

/-- The range of `\d`, `\s` or `\w`. -/
def tableRange (e : CharRangeEnum) : CharRange where
  points := e.points
  sorted := by cases e <;> decide
  even := by cases e <;> rfl
  bounded := by cases e <;> decide

/-- The table of an escape is a range, which has the characters that the escape stands for. -/
theorem exists_escape (e : CharRangeEnum) :
    ∃ s : CharRange, s.points = crInitCharRange e ∧
      ∀ c, c < uint32Max → s.has c = (ClassAtom.escape e).has c := by
  by_cases hinv : e.inverted = true
  · refine ⟨(tableRange e).invert, (if_pos hinv).symm, fun c hc => ?_⟩
    rw [CharRange.has_invert, decide_eq_true hc, Bool.true_and, ClassAtom.has, hinv, Bool.xor_true]
    rfl
  · refine ⟨tableRange e, (if_neg hinv).symm, fun c _ => ?_⟩
    rw [ClassAtom.has, Bool.eq_false_iff.mpr hinv, Bool.xor_false]
    rfl

/-- An atom of a class adds a range to what was read before it. -/
theorem exists_range (r : CharRange) {atom : ClassAtom} (hvalid : atom.Valid) :
    ∃ s : CharRange, reClassAtom r.points atom = .ok (CharRange.op .union r s).points ∧
      s.points.length = atom.size ∧ ∀ c, c < uint32Max → s.has c = atom.has c := by
  cases atom with
  | chars c₁ c₂ =>
    refine ⟨intervalRange c₁ c₂ hvalid.1 hvalid.2, ?_, by simp [intervalRange, ClassAtom.size],
      fun c _ => ?_⟩
    · rw [reClassAtom, if_neg (Nat.not_lt_of_le hvalid.1)]
      rfl
    · show (decide (c₁ ≤ c) ^^ (decide (c₂ + 1 ≤ c) ^^ false)) = decide (c₁ ≤ c ∧ c ≤ c₂)
      have := hvalid.1
      by_cases h₁ : c₁ ≤ c <;> by_cases h₂ : c₂ + 1 ≤ c <;>
        simp only [h₁, h₂, decide_true, decide_false, Bool.xor_false, Bool.xor_self,
          Bool.xor_true, Bool.not_false] <;>
        simp <;> omega
  | escape e =>
    obtain ⟨s, hpoints, hhas⟩ := exists_escape e
    refine ⟨s, ?_, by rw [hpoints]; rfl, hhas⟩
    rw [reClassAtom, CharRange.points_op, hpoints]
    rfl
  | property s => exact ⟨s, rfl, rfl, fun _ _ => rfl⟩

/-- The atoms one after the other: the class has what one of its atoms has. -/
theorem foldlM_reClassAtom {atoms : List ClassAtom} (r : CharRange)
    (hvalid : ∀ atom ∈ atoms, atom.Valid) :
    ∃ s : CharRange, atoms.foldlM reClassAtom r.points = .ok s.points ∧
      s.points.length ≤ r.points.length + (atoms.map ClassAtom.size).sum ∧
      ∀ c, c < uint32Max → s.has c = (r.has c || atoms.any (·.has c)) := by
  induction atoms generalizing r with
  | nil => exact ⟨r, rfl, by simp, fun c _ => by simp⟩
  | cons atom atoms ih =>
    obtain ⟨s, hstep, hsize, hs⟩ := exists_range r (hvalid atom List.mem_cons_self)
    obtain ⟨t, hrun, hlen, ht⟩ :=
      ih (CharRange.op .union r s) fun a ha => hvalid a (List.mem_cons_of_mem _ ha)
    refine ⟨t, ?_, ?_, fun c hc => ?_⟩
    · rw [List.foldlM_cons, hstep]
      exact hrun
    · have := CharRange.length_op .union r s
      rw [List.map_cons, List.sum_cons]
      omega
    · rw [ht c hc, CharRange.has_op, hs c hc, List.any_cons, CharRangeOpEnum.isIn, Bool.or_assoc]

/-- The range of a class. -/
theorem exists_classRange (atoms : List ClassAtom) (invert : Bool)
    (hvalid : ∀ atom ∈ atoms, atom.Valid) :
    ∃ s : CharRange, reParseClass atoms invert = reEmitRange s.points ∧
      s.points.length ≤ (atoms.map ClassAtom.size).sum + 2 ∧
      ∀ c, c < uint32Max → s.has c = (atoms.any (·.has c) ^^ invert) := by
  obtain ⟨s, hrun, hsize, hs⟩ := foldlM_reClassAtom .empty hvalid
  have hrun' : atoms.foldlM reClassAtom [] = .ok s.points := hrun
  have hsize' : s.points.length ≤ (atoms.map ClassAtom.size).sum := by
    rwa [show CharRange.empty.points.length = 0 from rfl, Nat.zero_add] at hsize
  have hsc : ∀ c, c < uint32Max → s.has c = atoms.any (·.has c) := fun c hc => by
    rw [hs c hc, CharRange.has_empty, Bool.false_or]
  cases invert with
  | false =>
    refine ⟨s, ?_, by omega, fun c hc => by rw [hsc c hc, Bool.xor_false]⟩
    rw [reParseClass, hrun']
    rfl
  | true =>
    have hinvert := s.length_invert
    refine ⟨s.invert, ?_, by omega, fun c hc => ?_⟩
    · rw [reParseClass, hrun']
      rfl
    · rw [CharRange.has_invert, decide_eq_true hc, Bool.true_and, hsc c hc, Bool.xor_true]

/-- Only the tests of code points count. -/
theorem REOp.Tests.congr {i : REOp} {p q : ℕ → Bool} (h : i.Tests p)
    (hpq : ∀ c, c < uint32Max → p c = q c) : i.Tests q := by
  intro rest
  obtain ⟨test, hop, htest⟩ := h rest
  exact ⟨test, hop, fun c hc => (htest c hc).trans (hpq c hc)⟩

/-- A range that is accepted matches its characters. -/
theorem tests_accepted (r : CharRange) {i : REOp} (h : reEmitRange r.points = .ok i) :
    i.Tests r.has := by
  by_cases hlen : r.points.length / 2 < 65535
  · obtain ⟨i', hi', htests⟩ := reEmitRange_spec r hlen
    obtain rfl : i' = i := Except.ok.inj (hi'.symm.trans h)
    exact htests
  · rw [reEmitRange, if_pos (Nat.le_of_not_lt hlen)] at h
    exact absurd h (by simp)

/-- A class that is accepted matches its characters. -/
theorem tests_class {atoms : List ClassAtom} {invert : Bool} {i : REOp}
    (hvalid : ∀ atom ∈ atoms, atom.Valid) (h : reParseClass atoms invert = .ok i) :
    i.Tests fun c => atoms.any (·.has c) ^^ invert := by
  obtain ⟨s, hs, -, hhas⟩ := exists_classRange atoms invert hvalid
  exact (tests_accepted s (hs ▸ h)).congr hhas

/-- The instruction for an escape outside a class tests for what the escape stands for. -/
theorem tests_escape {e : CharRangeEnum} {i : REOp} (h : reEmitRange (crInitCharRange e) = .ok i) :
    i.Tests (ClassAtom.escape e).has := by
  obtain ⟨s, hpoints, hhas⟩ := exists_escape e
  exact (tests_accepted s (hpoints ▸ h)).congr hhas

/-- **A compiled class matches exactly its characters**, or after `^` exactly the others: it is
    accepted when it is not too long, and whatever instructions follow, the interpreter reads the
    whole operand and matches a character when it is in the class. -/
theorem reParseClass_tests (atoms : List ClassAtom) (invert : Bool)
    (hvalid : ∀ atom ∈ atoms, atom.Valid)
    (hlen : (atoms.map ClassAtom.size).sum + 2 < 2 * 65535) :
    ∃ i, reParseClass atoms invert = .ok i ∧ ∀ rest, ∃ test,
      charOp i.opcode (i.operand ++ rest) = some (i.operand.length, test) ∧
      ∀ c, c < uint32Max → test c = (atoms.any (·.has c) ^^ invert) := by
  obtain ⟨s, hs, hsize, hhas⟩ := exists_classRange atoms invert hvalid
  obtain ⟨i, hi, htests⟩ := reEmitRange_spec s (by omega)
  exact ⟨i, hs.trans hi, htests.congr hhas⟩

/-- `[^a-z\d]`. -/
theorem reParseClass_tests_sample :
    ∃ i, reParseClass [.chars 0x61 0x7a, .escape .d] true = .ok i ∧ ∀ rest, ∃ test,
      charOp i.opcode (i.operand ++ rest) = some (i.operand.length, test) ∧
      ∀ c, c < uint32Max →
        test c = ([ClassAtom.chars 0x61 0x7a, .escape .d].any (·.has c) ^^ true) :=
  reParseClass_tests [.chars 0x61 0x7a, .escape .d] true
    (by simp [ClassAtom.Valid, uint32Max]) (by decide)

end Class

end VideoPackages.Regexp
