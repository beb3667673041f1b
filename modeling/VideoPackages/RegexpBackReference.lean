import VideoPackages.RegexpLoops

namespace VideoPackages.Regexp

open Backtracking Bytes

/-!
# Back references

* `backReferenceLoop_eq`, `backwardBackReferenceLoop_eq` — the loops find a text again;
* `Implements.backReference` — `REOP_back_reference` and `REOP_backward_back_reference`.
-/

section BackReferences

variable {s : REExecContext} {i : ℕ}

/-- The loop of `REOP_back_reference`. -/
theorem backReferenceLoop_eq (n a pos : ℕ) (ha : a + n ≤ s.cbuf.length) :
    backReferenceLoop s n a pos
      = if (s.cbuf.drop a).take n <+: s.cbuf.drop pos then some (pos + n) else none := by
  induction n generalizing a pos with
  | zero =>
    rw [backReferenceLoop, List.take_zero, if_pos List.nil_prefix]
    rfl
  | succ n ih =>
    have hlt : a < s.cbuf.length := by omega
    rw [backReferenceLoop, List.drop_eq_getElem_cons hlt, List.take_succ_cons]
    -- at the end of the subject the loop fails, as no character is a prefix of nothing
    by_cases hpos : s.cbuf.length ≤ pos
    · rw [if_pos hpos, List.drop_eq_nil_of_le hpos, if_neg (by simp)]
    · have hpos' : pos < s.cbuf.length := by omega
      rw [if_neg hpos, List.drop_eq_getElem_cons hpos', ih _ _ (by omega)]
      have ha' : s.charAt a = s.cbuf[a] := List.getD_eq_getElem _ _ hlt
      have hp' : s.charAt pos = s.cbuf[pos] := List.getD_eq_getElem _ _ hpos'
      rw [ha', hp']
      -- both lists go on with the character compared
      by_cases heq : s.cbuf[a] = s.cbuf[pos]
      · rw [if_pos heq]
        refine if_congr ?_ (by rw [Nat.add_assoc, Nat.add_comm 1]) rfl
        rw [List.cons_prefix_cons]
        exact (and_iff_right heq).symm
      · rw [if_neg heq, if_neg fun h => heq (List.cons_prefix_cons.mp h).1]

/-- Two texts that end with a character each. -/
theorem concat_suffix_concat {l m : List ℕ} {c d : ℕ} :
    l ++ [c] <:+ m ++ [d] ↔ c = d ∧ l <:+ m := by
  rw [← List.reverse_prefix, List.reverse_append, List.reverse_append, List.reverse_singleton,
    List.reverse_singleton, List.singleton_append, List.singleton_append, List.cons_prefix_cons,
    List.reverse_prefix]

/-- The loop of `REOP_backward_back_reference`. -/
theorem backwardBackReferenceLoop_eq (n b pos : ℕ) (hb : b + n ≤ s.cbuf.length)
    (hpos : pos ≤ s.cbuf.length) :
    backwardBackReferenceLoop s n (b + n) pos
      = if (s.cbuf.take (b + n)).drop b <:+ s.cbuf.take pos then some (pos - n) else none := by
  induction n generalizing pos with
  | zero =>
    rw [backwardBackReferenceLoop, Nat.add_zero,
      List.drop_eq_nil_of_le (List.length_take_le b s.cbuf), if_pos (List.nil_suffix)]
    rfl
  | succ n ih =>
    have hlt : b + n < s.cbuf.length := by omega
    have htake : ∀ p (hp : p < s.cbuf.length), s.cbuf.take (p + 1) = s.cbuf.take p ++ [s.cbuf[p]] :=
      fun p hp => (List.take_append_getElem hp).symm
    -- the loop compares from the right: the last character of both is split off
    have hdrop : (s.cbuf.take (b + (n + 1))).drop b
        = (s.cbuf.take (b + n)).drop b ++ [s.cbuf[b + n]] := by
      rw [← Nat.add_assoc, htake _ hlt, List.drop_append_of_le_length]
      rw [List.length_take]
      omega
    rw [backwardBackReferenceLoop, hdrop]
    cases pos with
    | zero => rw [if_pos rfl, List.take_zero, if_neg (by simp)]
    | succ pos =>
      have hpos' : pos < s.cbuf.length := by omega
      rw [if_neg pos.succ_ne_zero, htake _ hpos']
      have hb' : s.charAt (b + (n + 1) - 1) = s.cbuf[b + n] := List.getD_eq_getElem _ _ hlt
      have hp' : s.charAt (pos + 1 - 1) = s.cbuf[pos] := List.getD_eq_getElem _ _ hpos'
      have hsub : b + (n + 1) - 1 = b + n := rfl
      rw [hb', hp', hsub, Nat.add_sub_cancel, ih _ (by omega) (by omega)]
      by_cases heq : s.cbuf[b + n] = s.cbuf[pos]
      · rw [if_pos heq]
        refine if_congr ?_ (by rw [Nat.add_sub_add_right]) rfl
        rw [concat_suffix_concat]
        exact (and_iff_right heq).symm
      · rw [if_neg heq, if_neg fun h => heq (concat_suffix_concat.mp h).1]

section Text

variable {a b : ℕ}

/-- The text of a group has the length of its capture. -/
theorem length_text (hb : b ≤ s.cbuf.length) : ((s.cbuf.take b).drop a).length = b - a := by
  rw [List.length_drop, List.length_take, Nat.min_eq_left hb]

/-- The text of a group, from `a` to `b`, is found again. -/
theorem backReferenceLoop_text (pos : ℕ) (ha : a ≤ s.cbuf.length) (hb : b ≤ s.cbuf.length) :
    backReferenceLoop s (b - a) a pos = if (s.cbuf.take b).drop a <+: s.cbuf.drop pos then
      some (pos + ((s.cbuf.take b).drop a).length) else none := by
  rw [backReferenceLoop_eq _ _ _ (by omega), length_text hb, List.drop_take]

/-- Read backwards, the loop compares the text of the group with what ends at `pos`. -/
theorem backwardBackReferenceLoop_text {pos : ℕ} (hb : b ≤ s.cbuf.length)
    (hpos : pos ≤ s.cbuf.length) :
    backwardBackReferenceLoop s (b - a) b pos = if (s.cbuf.take b).drop a <:+ s.cbuf.take pos then
      some (pos - ((s.cbuf.take b).drop a).length) else none := by
  rw [length_text hb]
  by_cases hab : a ≤ b
  · obtain ⟨n, rfl⟩ := Nat.exists_eq_add_of_le hab
    rw [Nat.add_sub_cancel_left, backwardBackReferenceLoop_eq n a pos hb hpos]
  · have hnil : (s.cbuf.take b).drop a = [] :=
      List.drop_eq_nil_of_le ((List.length_take_le b s.cbuf).trans (Nat.le_of_not_le hab))
    have hzero : b - a = 0 := by omega
    rw [hnil, hzero, backwardBackReferenceLoop, if_pos List.nil_suffix]
    rfl

end Text

/-- What a back reference moves to is within the input. -/
theorem sameAsGroup_valid (i : ℕ) (isBackwardDir : Bool) {x y : MatchState} (hx : s.Valid x)
    (hy : y ∈ sameAsGroup s.toSubject i isBackwardDir x) : s.Valid y := by
  rw [sameAsGroup] at hy
  split at hy
  · rename_i a b hfirst hlast
    cases isBackwardDir with
    | false =>
      simp only [Bool.false_eq_true, if_false] at hy
      split at hy
      · rename_i hprefix
        rw [List.mem_singleton.mp hy]
        refine Valid.withPos hx ?_
        have hlen := hprefix.length_le
        have hpos := hx.pos
        rw [List.length_drop (l := s.cbuf)] at hlen
        omega
      · exact absurd hy List.not_mem_nil
    | true =>
      simp only [if_true] at hy
      split at hy
      · rw [List.mem_singleton.mp hy]
        exact Valid.withPos hx ((Nat.sub_le _ _).trans hx.pos)
      · exact absurd hy List.not_mem_nil
  · exact List.mem_singleton.mp hy ▸ hx
  · exact absurd hy List.not_mem_nil

/-- **`REOP_back_reference`** and `REOP_backward_back_reference`. -/
theorem Implements.backReference (hi : i < 256) (isBackwardDir : Bool) :
    Implements s [reEmitOpU8 (if isBackwardDir then .backwardBackReference else .backReference) i]
      (sameAsGroup s.toSubject i isBackwardDir) where
  balanced _ := by cases isBackwardDir <;> rfl
  valid x hx y hy := sameAsGroup_valid i isBackwardDir hx hy
  tries pc stack x K hcode _ hx := by
    have hbyte := u8_operand hcode hi
    have hstep : step s (.run (x.toState pc stack) K)
        = execOp s (if isBackwardDir then .backwardBackReference else .backReference) (pc + 1)
          (x.toState pc stack) K := by
      refine step_exec hcode ?_
      cases isBackwardDir <;> rfl
    rw [sameAsGroup]
    -- a group that does not exist never matches
    by_cases hcount : s.captureCount ≤ i
    · rw [List.getElem?_eq_none (by rw [hx.length]; omega)]
      refine .none (.one ?_)
      rw [hstep]
      cases isBackwardDir <;>
        simp only [execOp, hbyte, hcount, if_true, if_false, Bool.false_eq_true]
    have hfirst : 2 * i < x.caps.length := by rw [hx.length]; omega
    have hlast : 2 * i + 1 < x.caps.length := by rw [hx.length]; omega
    have hgetD : ∀ j (hj : j < x.caps.length),
        (x.toState pc stack).capture.getD j none = x.caps.get ⟨j, hj⟩ :=
      fun j hj => List.getD_eq_getElem _ _ hj
    have hbound : ∀ j (hj : j < x.caps.length) p, x.caps.get ⟨j, hj⟩ = some p → p ≤ s.cbuf.length :=
      fun j hj p h => hx.caps p (h ▸ List.get_mem _ _)
    rw [List.getElem?_eq_getElem hfirst, List.getElem?_eq_getElem hlast]
    cases isBackwardDir with
    | false =>
      simp only [execOp, hbyte, hcount, if_false, Bool.false_eq_true, hgetD _ hfirst,
        hgetD _ hlast] at hstep
      -- a group that has not matched reads nothing, one that has is compared
      cases hcap₁ : x.caps.get ⟨2 * i, hfirst⟩ <;> cases hcap₂ : x.caps.get ⟨2 * i + 1, hlast⟩ <;>
        simp only [List.get_eq_getElem] at hcap₁ hcap₂ <;>
        simp only [List.get_eq_getElem, hcap₁, hcap₂] at hstep ⊢
      case some.some a b =>
        have hloop := backReferenceLoop_text x.pos (hbound _ hfirst _ hcap₁)
          (hbound _ hlast _ hcap₂)
        have hcptr : (x.toState pc stack).cptr = x.pos := rfl
        rw [hcptr, hloop] at hstep
        simp only [Bool.false_eq_true, if_false]
        by_cases hprefix : (s.cbuf.take b).drop a <+: s.cbuf.drop x.pos
        · rw [if_pos hprefix] at hstep ⊢
          exact .one (.one hstep)
        · rw [if_neg hprefix] at hstep ⊢
          exact .none (.one hstep)
      all_goals exact .one (.one hstep)
    | true =>
      simp only [execOp, hbyte, hcount, if_false, if_true, hgetD _ hfirst, hgetD _ hlast] at hstep
      cases hcap₁ : x.caps.get ⟨2 * i, hfirst⟩ <;> cases hcap₂ : x.caps.get ⟨2 * i + 1, hlast⟩ <;>
        simp only [List.get_eq_getElem] at hcap₁ hcap₂ <;>
        simp only [List.get_eq_getElem, hcap₁, hcap₂] at hstep ⊢
      case some.some a b =>
        have hloop := backwardBackReferenceLoop_text (a := a) (hbound _ hlast _ hcap₂) hx.pos
        have hcptr : (x.toState pc stack).cptr = x.pos := rfl
        rw [hcptr, hloop] at hstep
        simp only [if_true]
        by_cases hsuffix : (s.cbuf.take b).drop a <:+ s.cbuf.take x.pos
        · rw [if_pos hsuffix] at hstep ⊢
          exact .one (.one hstep)
        · rw [if_neg hsuffix] at hstep ⊢
          exact .none (.one hstep)
      all_goals exact .one (.one hstep)

end BackReferences

end VideoPackages.Regexp
