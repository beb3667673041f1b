import Mathlib.Data.List.GetD
import Mathlib.Order.Nat
import VideoPackages.Lib.Boundaries

namespace VideoPackages.Unicode

open Boundaries

/-!
# The character ranges of `libunicode.c`

A set of characters is a sorted array of points; the first two are its first interval, and so on.

* `crCompress` — the array is compressed in place; `crCompress_eq`: nothing is overwritten before it
  is read;
* `crOp` / `crInvert` / `crUnion1` — the operations on sets, point by point;
* `CharRange` — a well-formed array: strictly sorted, of even length, of 32-bit values;
* `CharRange.has_op` / `CharRange.has_invert` — what the operations mean;
* `CharRange.ext_has` — a set has one array, so that the laws of sets hold for the arrays
  (`CharRange.invert_laws`).

That memory runs out is left out.
-/

/-- `UINT32_MAX`. -/
def uint32Max : ℕ := 4294967295

/-! ### `cr_compress` -/

/-- `while ((j + 3) < len && pt[j + 1] == pt[j + 2]) j += 2`. -/
def crScan (pt : List ℕ) : ℕ → ℕ → ℕ
  | 0, j => j
  | fuel + 1, j =>
    if j + 3 < pt.length ∧ pt.getD (j + 1) 0 = pt.getD (j + 2) 0 then crScan pt fuel (j + 2) else j

/-- The loop of `cr_compress`: the array, and the length that is kept of it. -/
def crCompressLoop : ℕ → List ℕ → ℕ → ℕ → List ℕ × ℕ
  | 0, pt, _, k => (pt, k)
  | fuel + 1, pt, i, k =>
    if i + 1 < pt.length then
      if pt.getD i 0 = pt.getD (i + 1) 0 then crCompressLoop fuel pt (i + 2) k
      else
        let j := crScan pt pt.length i
        let pt := pt.set k (pt.getD i 0)
        let pt := pt.set (k + 1) (pt.getD (j + 1) 0)
        crCompressLoop fuel pt (j + 2) (k + 2)
    else (pt, k)

/-- `cr_compress`. -/
def crCompress (pt : List ℕ) : List ℕ :=
  let (pt, k) := crCompressLoop pt.length pt 0 0
  pt.take k

section Compress

variable {pt : List ℕ} {i j k fuel : ℕ}

/-- The points from the `i`th on. -/
theorem drop_eq_getD (h : i < pt.length) : pt.drop i = pt.getD i 0 :: pt.drop (i + 1) := by
  rw [List.getD_eq_getElem _ _ h, ← List.drop_eq_getElem_cons h]

/-- Two points that are written one behind the other. -/
theorem take_set_set (x y : ℕ) (h : k + 1 < pt.length) :
    ((pt.set k x).set (k + 1) y).take (k + 2) = pt.take k ++ [x, y] := by
  rw [List.take_add_one, List.take_add_one, List.take_set_of_le (Nat.le_succ k),
    List.take_set_of_le le_rfl, List.getElem?_set_self (by rw [List.length_set]; exact h),
    List.getElem?_set_ne (by omega), List.getElem?_set_self (by omega), List.append_assoc]
  rfl

/-- What the scan stops at. -/
theorem crScan_spec (s : ℕ) (hj : j + 1 < pt.length) (hfuel : pt.length ≤ j + 2 * fuel) :
    j ≤ crScan pt fuel j ∧ crScan pt fuel j + 1 < pt.length ∧
      compressFrom s (pt.getD (j + 1) 0) (pt.drop (j + 2))
        = s :: pt.getD (crScan pt fuel j + 1) 0 :: compress (pt.drop (crScan pt fuel j + 2)) := by
  induction fuel generalizing j with
  | zero => omega
  | succ fuel ih =>
    rw [crScan]
    by_cases hlong : j + 3 < pt.length
    · rw [drop_eq_getD (show j + 2 < pt.length by omega), drop_eq_getD hlong,
        compressFrom_cons_cons]
      by_cases heq : pt.getD (j + 1) 0 = pt.getD (j + 2) 0
      · rw [if_pos ⟨hlong, heq⟩, if_pos heq]
        obtain ⟨hle, hlt, hrun⟩ := ih (j := j + 2) hlong (by omega)
        exact ⟨by omega, hlt, hrun⟩
      · rw [if_neg fun h => heq h.2, if_neg heq]
        refine ⟨le_rfl, hj, ?_⟩
        rw [drop_eq_getD (show j + 2 < pt.length by omega), drop_eq_getD hlong]
    · rw [if_neg fun h => hlong h.1]
      refine ⟨le_rfl, hj, ?_⟩
      have hshort : (pt.drop (j + 2)).length ≤ 1 := by rw [List.length_drop]; omega
      rw [compressFrom_short _ _ hshort, compress_short hshort]

/-- **Nothing is overwritten before it is read.** -/
theorem crCompressLoop_spec (hk : k ≤ i) (hi : i ≤ pt.length) (hfuel : pt.length ≤ i + 2 * fuel) :
    (crCompressLoop fuel pt i k).1.take (crCompressLoop fuel pt i k).2
      = pt.take k ++ compress (pt.drop i) := by
  induction fuel generalizing pt i k with
  | zero =>
    rw [crCompressLoop, List.drop_eq_nil_of_le (by omega)]
    simp [compress]
  | succ fuel ih =>
    rw [crCompressLoop]
    by_cases hlong : i + 1 < pt.length
    · rw [if_pos hlong, drop_eq_getD (show i < pt.length by omega), drop_eq_getD hlong, compress]
      by_cases heq : pt.getD i 0 = pt.getD (i + 1) 0
      · -- an empty interval is left out
        rw [if_pos heq, if_pos heq]
        exact ih (by omega) (by omega) (by omega)
      · rw [if_neg heq, if_neg heq]
        -- the scan joins what touches, up to the pair that ends behind `j`
        obtain ⟨hle, hlt, hrun⟩ := crScan_spec (pt.getD i 0) hlong
          (show pt.length ≤ i + 2 * pt.length by omega)
        rw [hrun]
        generalize crScan pt pt.length i = j at hle hlt
        -- the bounds are written in front of `j`, so what is read later is untouched
        have hread : (pt.set k (pt.getD i 0)).getD (j + 1) 0 = pt.getD (j + 1) 0 := by
          rw [List.getD_eq_getElem?_getD, List.getElem?_set_ne (by omega),
            ← List.getD_eq_getElem?_getD]
        have hlength : ((pt.set k (pt.getD i 0)).set (k + 1) (pt.getD (j + 1) 0)).length
            = pt.length := by rw [List.length_set, List.length_set]
        simp only [hread]
        rw [ih (by omega) (by omega) (by omega), List.drop_set_of_lt (by omega),
          List.drop_set_of_lt (by omega), take_set_set _ _ (by omega), List.append_assoc]
        rfl
    · rw [if_neg hlong]
      have hshort : (pt.drop i).length ≤ 1 := by rw [List.length_drop]; omega
      rw [compress_short hshort, List.append_nil]

/-- The loop in place is the function on lists. -/
theorem crCompress_eq (pt : List ℕ) : crCompress pt = compress pt := by
  have hfuel : pt.length ≤ 0 + 2 * pt.length := by omega
  have hrun := crCompressLoop_spec (le_refl 0) (Nat.zero_le _) hfuel
  rwa [List.take_zero, List.nil_append, List.drop_zero] at hrun

end Compress

/-! ### `cr_op` -/

/-- `CR_OP_*`. -/
inductive CharRangeOpEnum where
  | union
  | inter
  | xor
  deriving DecidableEq, Repr

/-- The `switch` of `cr_op`. -/
def CharRangeOpEnum.isIn : CharRangeOpEnum → Bool → Bool → Bool
  | .union, a, b => a || b
  | .inter, a, b => a && b
  | .xor, a, b => a ^^ b

/-- `n & 1`. -/
def odd (n : ℕ) : Bool := decide (n % 2 = 1)

/-- The end of the loop body of `cr_op`: the point is added if the status changes. -/
def crPoint (op : CharRangeOpEnum) (aIdx bIdx v : ℕ) (cr : List ℕ) : List ℕ :=
  if op.isIn (odd aIdx) (odd bIdx) ≠ odd cr.length then cr ++ [v] else cr

/-- The loop of `cr_op`, with what is left of the arrays and the indices so far. -/
def crOpLoop (op : CharRangeOpEnum) : ℕ → List ℕ → ℕ → List ℕ → ℕ → List ℕ → List ℕ
  | 0, _, _, _, _, cr => cr
  | _ + 1, [], _, [], _, cr => cr
  | fuel + 1, v :: a, aIdx, [], bIdx, cr =>
    crOpLoop op fuel a (aIdx + 1) [] bIdx (crPoint op (aIdx + 1) bIdx v cr)
  | fuel + 1, [], aIdx, v :: b, bIdx, cr =>
    crOpLoop op fuel [] aIdx b (bIdx + 1) (crPoint op aIdx (bIdx + 1) v cr)
  | fuel + 1, x :: a, aIdx, y :: b, bIdx, cr =>
    if x < y then
      crOpLoop op fuel a (aIdx + 1) (y :: b) bIdx (crPoint op (aIdx + 1) bIdx x cr)
    else if x = y then
      crOpLoop op fuel a (aIdx + 1) b (bIdx + 1) (crPoint op (aIdx + 1) (bIdx + 1) x cr)
    else
      crOpLoop op fuel (x :: a) aIdx b (bIdx + 1) (crPoint op aIdx (bIdx + 1) y cr)

/-- `cr_op`, into an empty range. -/
def crOp (op : CharRangeOpEnum) (a b : List ℕ) : List ℕ :=
  crCompress (crOpLoop op (a.length + b.length) a 0 b 0 [])

/-- `cr_union1`. -/
def crUnion1 (cr b : List ℕ) : List ℕ := crOp .union cr b

/-- `cr_union_interval`. -/
def crUnionInterval (cr : List ℕ) (c₁ c₂ : ℕ) : List ℕ := crUnion1 cr [c₁, c₂ + 1]

/-- `cr_invert`. -/
def crInvert (cr : List ℕ) : List ℕ := crCompress (0 :: cr ++ [uint32Max])

section Op

variable {op : CharRangeOpEnum} {a b a' b' cr out : List ℕ} {aIdx bIdx aIdx' bIdx' v : ℕ}

/-- What the loop of `cr_op` adds to `cr`: the points at which the status changes. -/
structure OpLoop (op : CharRangeOpEnum) (a : List ℕ) (aIdx : ℕ) (b : List ℕ) (bIdx : ℕ)
    (cr out : List ℕ) : Prop where
  added : ∃ new, out = cr ++ new ∧ new.length ≤ a.length + b.length ∧ new.Pairwise (· ≤ ·) ∧
    (∀ p ∈ new, p ∈ a ∨ p ∈ b) ∧ ∀ c, inside new c = (op.isIn (odd aIdx) (odd bIdx)
      ^^ op.isIn (odd aIdx ^^ inside a c) (odd bIdx ^^ inside b c))
  status : odd out.length = op.isIn (odd (aIdx + a.length)) (odd (bIdx + b.length))

/-- One point: what is left of the arrays is at or above it, and the status below it is that of
    before. -/
structure OpStep (v : ℕ) (a a' : List ℕ) (aIdx aIdx' : ℕ) : Prop where
  below : ∀ c, c < v → inside a c = false
  above : ∀ c, v ≤ c → (odd aIdx' ^^ inside a' c) = (odd aIdx ^^ inside a c)
  rest : ∀ p ∈ a', p ∈ a ∧ v ≤ p
  le : aIdx ≤ aIdx'
  size : aIdx' + a'.length = aIdx + a.length

/-- The first point is the next one, and is taken. -/
theorem OpStep.take (hv : (v :: a).Pairwise (· ≤ ·)) : OpStep v (v :: a) a aIdx (aIdx + 1) where
  below c hc := inside_below fun p hp => by
    rcases List.mem_cons.mp hp with rfl | hp
    · exact hc
    · exact lt_of_lt_of_le hc ((List.pairwise_cons.mp hv).1 p hp)
  above _ hc := by
    have hodd : odd (aIdx + 1) = !odd aIdx := by
      rw [odd, odd]
      by_cases h : aIdx % 2 = 1
      · rw [decide_eq_true h, decide_eq_false (by omega)]; rfl
      · rw [decide_eq_false h, decide_eq_true (by omega)]; rfl
    rw [inside, decide_eq_true hc, hodd]
    cases odd aIdx <;> simp
  rest p hp := ⟨List.mem_cons_of_mem _ hp, (List.pairwise_cons.mp hv).1 p hp⟩
  le := Nat.le_succ _
  size := by rw [List.length_cons]; omega

/-- All points are behind the next one. -/
theorem OpStep.stay (hv : ∀ p ∈ a, v ≤ p) : OpStep v a a aIdx aIdx where
  below _ hc := inside_below fun p hp => lt_of_lt_of_le hc (hv p hp)
  above _ _ := rfl
  rest p hp := ⟨hp, hv p hp⟩
  le := le_rfl
  size := rfl

/-- One iteration of `cr_op`: the point `v` is passed in both ranges. -/
theorem OpLoop.step (ha : OpStep v a a' aIdx aIdx') (hb : OpStep v b b' bIdx bIdx')
    (hv : v ∈ a ∨ v ∈ b) (hidx : aIdx + bIdx < aIdx' + bIdx')
    (hcr : odd cr.length = op.isIn (odd aIdx) (odd bIdx))
    (h : OpLoop op a' aIdx' b' bIdx' (crPoint op aIdx' bIdx' v cr) out) :
    OpLoop op a aIdx b bIdx cr out := by
  obtain ⟨⟨new, hout, hlen, hsorted, hmem, hinside⟩, hstatus⟩ := h
  have hasize := ha.size
  have hbsize := hb.size
  have hale := ha.le
  have hble := hb.le
  -- what the rest of the loop adds lies at or above `v`
  have hnew : ∀ p ∈ new, (p ∈ a ∨ p ∈ b) ∧ v ≤ p := fun p hp =>
    (hmem p hp).elim (fun hp => ⟨.inl (ha.rest p hp).1, (ha.rest p hp).2⟩)
      fun hp => ⟨.inr (hb.rest p hp).1, (hb.rest p hp).2⟩
  -- from `v` on the rest of the points decides, below it the status so far
  have habove : ∀ c, v ≤ c → inside new c = (op.isIn (odd aIdx') (odd bIdx')
      ^^ op.isIn (odd aIdx ^^ inside a c) (odd bIdx ^^ inside b c)) := fun c hc => by
    rw [hinside c, ha.above c hc, hb.above c hc]
  have hbelow : ∀ c, c < v → inside new c = false ∧ (op.isIn (odd aIdx) (odd bIdx)
      ^^ op.isIn (odd aIdx ^^ inside a c) (odd bIdx ^^ inside b c)) = false := fun c hc => by
    rw [ha.below c hc, hb.below c hc, Bool.xor_false, Bool.xor_false, Bool.xor_self]
    exact ⟨inside_below fun p hp => lt_of_lt_of_le hc (hnew p hp).2, rfl⟩
  refine ⟨?_, by rw [hstatus, ha.size, hb.size]⟩
  rw [crPoint, hcr] at hout
  -- `v` is a point of the result exactly when it changes the status
  by_cases hchange : op.isIn (odd aIdx') (odd bIdx') ≠ op.isIn (odd aIdx) (odd bIdx)
  · rw [if_pos hchange, List.append_assoc, List.singleton_append] at hout
    refine ⟨v :: new, hout, by rw [List.length_cons]; omega,
      List.pairwise_cons.mpr ⟨fun p hp => (hnew p hp).2, hsorted⟩,
      fun p hp => ?_, fun c => ?_⟩
    · rcases List.mem_cons.mp hp with rfl | hp
      · exact hv
      · exact (hnew p hp).1
    · rcases le_or_gt v c with hc | hc
      · rw [inside, habove c hc, decide_eq_true hc, Bool.eq_not.mpr hchange]
        cases op.isIn (odd aIdx) (odd bIdx) <;> simp
      · rw [inside, (hbelow c hc).1, (hbelow c hc).2, decide_eq_false (not_le_of_gt hc)]
        rfl
  · rw [if_neg hchange] at hout
    refine ⟨new, hout, by omega, hsorted, fun p hp => (hnew p hp).1, fun c => ?_⟩
    rcases le_or_gt v c with hc | hc
    · rw [habove c hc, not_not.mp hchange]
    · rw [(hbelow c hc).1, (hbelow c hc).2]

/-- A point is added where the status of the result changes. -/
theorem crPoint_status (op : CharRangeOpEnum) (aIdx bIdx v : ℕ) (cr : List ℕ) :
    odd (crPoint op aIdx bIdx v cr).length = op.isIn (odd aIdx) (odd bIdx) := by
  rw [crPoint]
  split
  · rename_i hne
    have hodd : odd (cr ++ [v]).length = !odd cr.length := by
      rw [List.length_append, List.length_singleton, odd, odd]
      by_cases h : cr.length % 2 = 1
      · rw [decide_eq_true h, decide_eq_false (by omega)]; rfl
      · rw [decide_eq_false h, decide_eq_true (by omega)]; rfl
    rw [hodd]
    exact (Bool.eq_not.mpr hne).symm
  · rename_i heq
    exact (not_not.mp heq).symm

/-- Both ranges are at their end. -/
theorem OpLoop.done (hcr : odd cr.length = op.isIn (odd aIdx) (odd bIdx)) :
    OpLoop op [] aIdx [] bIdx cr cr :=
  ⟨⟨[], (List.append_nil cr).symm, le_rfl, .nil, nofun, fun c => by
    rw [inside, Bool.xor_false, Bool.xor_false, Bool.xor_self]⟩, hcr⟩

/-- The loop of `cr_op`, by induction on what is left of the two ranges. -/
theorem crOpLoop_spec {fuel : ℕ} (ha : a.Pairwise (· ≤ ·)) (hb : b.Pairwise (· ≤ ·))
    (hfuel : a.length + b.length ≤ fuel)
    (hcr : odd cr.length = op.isIn (odd aIdx) (odd bIdx)) :
    OpLoop op a aIdx b bIdx cr (crOpLoop op fuel a aIdx b bIdx cr) := by
  have htail : ∀ {x : ℕ} {l : List ℕ}, (x :: l).Pairwise (· ≤ ·) → l.Pairwise (· ≤ ·) :=
    fun h => (List.pairwise_cons.mp h).2
  have hhead : ∀ {v x : ℕ} {l : List ℕ}, v ≤ x → (x :: l).Pairwise (· ≤ ·) → ∀ p ∈ x :: l, v ≤ p :=
    fun hvx h p hp => by
      rcases List.mem_cons.mp hp with rfl | hp
      · exact hvx
      · exact le_trans hvx ((List.pairwise_cons.mp h).1 p hp)
  induction fuel generalizing a aIdx b bIdx cr with
  | zero =>
    obtain ⟨rfl, rfl⟩ : a = [] ∧ b = [] :=
      ⟨List.length_eq_zero_iff.mp (by omega), List.length_eq_zero_iff.mp (by omega)⟩
    exact .done hcr
  | succ fuel ih =>
    -- the next point is the smaller of the two first ones, or both when they are equal
    match a, b with
    | [], [] => exact .done hcr
    | v :: a, [] =>
      rw [crOpLoop]
      refine OpLoop.step (.take ha) (.stay nofun) (.inl List.mem_cons_self) (by omega) hcr
        (ih (htail ha) .nil ?_ (crPoint_status ..))
      simp only [List.length_cons] at hfuel ⊢
      omega
    | [], v :: b =>
      rw [crOpLoop]
      refine OpLoop.step (.stay nofun) (.take hb) (.inr List.mem_cons_self) (by omega) hcr
        (ih .nil (htail hb) ?_ (crPoint_status ..))
      simp only [List.length_cons] at hfuel ⊢
      omega
    | x :: a, y :: b =>
      simp only [List.length_cons] at hfuel
      rw [crOpLoop]
      by_cases hlt : x < y
      · rw [if_pos hlt]
        exact OpLoop.step (.take ha) (.stay (hhead (le_of_lt hlt) hb)) (.inl List.mem_cons_self)
          (by omega) hcr
          (ih (htail ha) hb (by rw [List.length_cons]; omega) (crPoint_status ..))
      rw [if_neg hlt]
      by_cases heq : x = y
      · rw [if_pos heq]
        subst heq
        exact OpLoop.step (.take ha) (.take hb) (.inl List.mem_cons_self) (by omega) hcr
          (ih (htail ha) (htail hb) (by omega) (crPoint_status ..))
      · rw [if_neg heq]
        exact OpLoop.step (.stay (hhead (le_of_not_gt hlt) ha)) (.take hb)
          (.inr List.mem_cons_self) (by omega) hcr
          (ih ha (htail hb) (by rw [List.length_cons]; omega) (crPoint_status ..))

/-- **What `cr_op` computes.**  From sorted arrays of even length, empty and touching intervals
    allowed: a strictly sorted array of even length for the union, the intersection or the
    symmetric difference of the sets. -/
theorem crOp_spec (op : CharRangeOpEnum) (ha : a.Pairwise (· ≤ ·)) (hb : b.Pairwise (· ≤ ·))
    (hae : a.length % 2 = 0) (hbe : b.length % 2 = 0) :
    (crOp op a b).Pairwise (· < ·) ∧ (crOp op a b).length % 2 = 0 ∧
      (∀ p ∈ crOp op a b, p ∈ a ∨ p ∈ b) ∧ (crOp op a b).length ≤ a.length + b.length ∧
      ∀ c, inside (crOp op a b) c = op.isIn (inside a c) (inside b c) := by
  have hzero : odd 0 = false := rfl
  have hoff : op.isIn false false = false := by cases op <;> rfl
  have hloop : OpLoop op a 0 b 0 [] (crOpLoop op (a.length + b.length) a 0 b 0 []) :=
    crOpLoop_spec ha hb le_rfl hoff.symm
  obtain ⟨⟨new, hnew, hlen, hsorted, hmem, hinside⟩, hstatus⟩ := hloop
  rw [List.nil_append] at hnew
  have heven : new.length % 2 = 0 := by
    have hoa : odd (0 + a.length) = false := decide_eq_false (by omega)
    have hob : odd (0 + b.length) = false := decide_eq_false (by omega)
    rw [hnew, hoa, hob, hoff] at hstatus
    have := of_decide_eq_false hstatus
    omega
  have hc := compressed heven
  rw [crOp, crCompress_eq, hnew]
  refine ⟨hc.sorted hsorted, hc.even, fun p hp => hmem p (hc.mem p hp), le_trans hc.length hlen,
    fun c => ?_⟩
  rw [hc.inside, hinside, hzero, hoff, Bool.false_xor, Bool.false_xor, Bool.false_xor]

/-- **What `cr_invert` computes**: the complement, up to `UINT32_MAX`, which is in no set. -/
theorem crInvert_spec (ha : a.Pairwise (· ≤ ·)) (hae : a.length % 2 = 0)
    (hmax : ∀ p ∈ a, p ≤ uint32Max) :
    (crInvert a).Pairwise (· < ·) ∧ (crInvert a).length % 2 = 0 ∧
      (∀ p ∈ crInvert a, p ≤ uint32Max) ∧ (crInvert a).length ≤ a.length + 2 ∧
      ∀ c, inside (crInvert a) c = (decide (c < uint32Max) && !inside a c) := by
  -- the complement is the list between 0 and the maximum, compressed
  have hsorted : (0 :: a ++ [uint32Max]).Pairwise (· ≤ ·) := by
    refine List.pairwise_append.mpr ⟨List.pairwise_cons.mpr ⟨fun p _ => Nat.zero_le p, ha⟩,
      List.pairwise_singleton _ _, fun p hp q hq => ?_⟩
    rw [List.mem_singleton.mp hq]
    rcases List.mem_cons.mp hp with rfl | hp
    · exact Nat.zero_le _
    · exact hmax p hp
  have heven : (0 :: a ++ [uint32Max]).length % 2 = 0 := by
    rw [List.length_append, List.length_cons, List.length_singleton]
    omega
  have hc := compressed heven
  rw [crInvert, crCompress_eq]
  refine ⟨hc.sorted hsorted, hc.even, fun p hp => ?_, le_trans hc.length (by simp), fun c => ?_⟩
  · rcases List.mem_append.mp (hc.mem p hp) with hp | hp
    · rcases List.mem_cons.mp hp with rfl | hp
      · exact Nat.zero_le _
      · exact hmax p hp
    · rw [List.mem_singleton.mp hp]
  · rw [hc.inside, inside_append, inside, inside, decide_eq_true (Nat.zero_le c), Bool.true_xor,
      inside, Bool.xor_false]
    -- behind the maximum all points have been passed, an even number of them
    by_cases hlt : c < uint32Max
    · rw [decide_eq_true hlt, decide_eq_false (not_le_of_gt hlt), Bool.xor_false, Bool.true_and]
    · have hle := le_of_not_gt hlt
      rw [inside_above fun p hp => le_trans (hmax p hp) hle, decide_eq_true hle,
        decide_eq_false hlt, decide_eq_false (by omega)]
      rfl

end Op

/-! ### Well-formed ranges -/

/-- `CharRange`: sorted points, in pairs. -/
structure CharRange where
  points : List ℕ
  sorted : points.Pairwise (· < ·)
  even : points.length % 2 = 0
  bounded : ∀ p ∈ points, p ≤ uint32Max

namespace CharRange

/-- Whether a character is in the range. -/
def has (r : CharRange) (c : ℕ) : Bool := inside r.points c

theorem sorted_le (r : CharRange) : r.points.Pairwise (· ≤ ·) := r.sorted.imp le_of_lt

/-- `cr_op`. -/
def op (o : CharRangeOpEnum) (a b : CharRange) : CharRange where
  points := crOp o a.points b.points
  sorted := (crOp_spec o a.sorted_le b.sorted_le a.even b.even).1
  even := (crOp_spec o a.sorted_le b.sorted_le a.even b.even).2.1
  bounded p hp := ((crOp_spec o a.sorted_le b.sorted_le a.even b.even).2.2.1 p hp).elim
    (a.bounded p) (b.bounded p)

/-- `cr_invert`. -/
def invert (a : CharRange) : CharRange where
  points := crInvert a.points
  sorted := (crInvert_spec a.sorted_le a.even a.bounded).1
  even := (crInvert_spec a.sorted_le a.even a.bounded).2.1
  bounded := (crInvert_spec a.sorted_le a.even a.bounded).2.2.1

/-- `cr_init`. -/
def empty : CharRange := ⟨[], .nil, rfl, nofun⟩

theorem points_op (o : CharRangeOpEnum) (a b : CharRange) :
    (op o a b).points = crOp o a.points b.points := rfl

theorem points_invert (a : CharRange) : a.invert.points = crInvert a.points := rfl

/-- The result has no more points than both ranges. -/
theorem length_op (o : CharRangeOpEnum) (a b : CharRange) :
    (op o a b).points.length ≤ a.points.length + b.points.length :=
  (crOp_spec o a.sorted_le b.sorted_le a.even b.even).2.2.2.1

/-- The complement has two points more at most. -/
theorem length_invert (a : CharRange) : a.invert.points.length ≤ a.points.length + 2 :=
  (crInvert_spec a.sorted_le a.even a.bounded).2.2.2.1

@[simp] theorem has_op (o : CharRangeOpEnum) (a b : CharRange) (c : ℕ) :
    (op o a b).has c = o.isIn (a.has c) (b.has c) :=
  (crOp_spec o a.sorted_le b.sorted_le a.even b.even).2.2.2.2 c

@[simp] theorem has_invert (a : CharRange) (c : ℕ) :
    a.invert.has c = (decide (c < uint32Max) && !a.has c) :=
  (crInvert_spec a.sorted_le a.even a.bounded).2.2.2.2 c

@[simp] theorem has_empty (c : ℕ) : empty.has c = false := rfl

/-- No code point is beyond the last one. -/
theorem lt_of_has {a : CharRange} {c : ℕ} (h : a.has c = true) : c < uint32Max := by
  by_contra hlt
  have heven := a.even
  rw [has, inside_above fun p hp => le_trans (a.bounded p hp) (le_of_not_gt hlt)] at h
  have := of_decide_eq_true h
  omega

/-- **Canonical form.**  Ranges with the same characters have the same points. -/
theorem ext_has {a b : CharRange} (h : ∀ c, a.has c = b.has c) : a = b := by
  have hpoints := inside_ext a.sorted b.sorted h
  cases a
  cases b
  exact CharRange.mk.injEq .. ▸ hpoints

/-- **The laws of sets hold for the arrays**: inverting twice gives the array back, and inverting
    a union or an intersection, point by point, is the dual operation on the inverses. -/
theorem invert_laws (a b : CharRange) :
    crInvert (crInvert a.points) = a.points ∧
      crInvert (crOp .union a.points b.points)
        = crOp .inter (crInvert a.points) (crInvert b.points) ∧
      crInvert (crOp .inter a.points b.points)
        = crOp .union (crInvert a.points) (crInvert b.points) ∧
      crOp .xor a.points b.points
        = crOp .inter (crOp .union a.points b.points)
          (crInvert (crOp .inter a.points b.points)) := by
  -- ranges with the same code points are the same lists, so each law holds point by point
  have hout : ∀ {r : CharRange} {c : ℕ}, ¬ c < uint32Max → r.has c = false := fun hc =>
    Bool.eq_false_iff.mpr fun hhas => hc (lt_of_has hhas)
  have hlaw : ∀ {r s : CharRange}, (∀ c, c < uint32Max → r.has c = s.has c) → r.points = s.points :=
    fun h => congrArg points (ext_has fun c => by
      by_cases hc : c < uint32Max
      · exact h c hc
      · rw [hout hc, hout hc])
  have htwice : a.invert.invert.points = a.points := hlaw fun c hc => by simp [hc]
  have hunion : (op .union a b).invert.points = (op .inter a.invert b.invert).points :=
    hlaw fun c hc => by
      simp only [has_op, has_invert, CharRangeOpEnum.isIn, hc, decide_true, Bool.true_and,
        Bool.not_or]
  have hinter : (op .inter a b).invert.points = (op .union a.invert b.invert).points :=
    hlaw fun c hc => by
      simp only [has_op, has_invert, CharRangeOpEnum.isIn, hc, decide_true, Bool.true_and,
        Bool.not_and]
  have hxor : (op .xor a b).points
      = (op .inter (op .union a b) (op .inter a b).invert).points :=
    hlaw fun c hc => by
      simp only [has_op, has_invert, CharRangeOpEnum.isIn, hc, decide_true, Bool.true_and]
      cases a.has c <;> cases b.has c <;> rfl
  simp only [points_op, points_invert] at htwice hunion hinter hxor
  exact ⟨htwice, hunion, hinter, hxor⟩

end CharRange

end VideoPackages.Unicode
