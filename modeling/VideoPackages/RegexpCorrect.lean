import VideoPackages.RegexpBackReference
import VideoPackages.RegexpQuant

namespace VideoPackages.Regexp

open Backtracking Bytes Unicode

/-!
# Regular expressions are compiled correctly

* `RegExp.Valid` — what the parser makes sure of, and that lazy quantifiers come to an end;
* `Compiled` — the code of an expression tries its matches;
* `lreExec_correct` — the interpreter, run on a compiled expression, finds the first match.
-/

/-- Operands within their limits.  The code of a lazy quantifier does not check that its atom
    advances: without a maximum, the atom has to. -/
def RegExp.Valid : RegExp → Prop
  | .seq a b | .alt a b => a.Valid ∧ b.Valid
  | .char c => c < uint32Max
  | .charClass atoms _ => ∀ atom ∈ atoms, atom.Valid
  | .backReference i => i < 256
  | .group r | .capture r | .look _ _ r => r.Valid
  | .quant r _ quantMax greedy =>
    r.Valid ∧ quantMax ≤ int32Max ∧ (greedy = false → quantMax = int32Max → r.moves = true)
  | _ => True

/-! ### Code that is accepted -/

section Accepted

/-- A computation that succeeds has succeeded in both its parts. -/
theorem except_bind {α β : Type} {x : Except String α} {f : α → Except String β} {b : β}
    (h : (x >>= f) = .ok b) : ∃ a, x = .ok a ∧ f a = .ok b := by
  cases x with
  | error e => exact absurd h (by simp [bind, Except.bind])
  | ok a => exact ⟨a, rfl, h⟩

variable {dotall isBackwardDir : Bool} {n : ℕ} {code : List REOp}

/-- The parts of a sequence have been accepted; backwards their codes change places. -/
theorem reParse_seq {a b : RegExp}
    (h : reParse dotall (.seq a b) isBackwardDir n = .ok code) :
    ∃ is js, reParse dotall a isBackwardDir n = .ok is ∧
      reParse dotall b isBackwardDir (n + a.captures) = .ok js ∧
      code = if isBackwardDir then js ++ is else is ++ js := by
  rw [reParse] at h
  obtain ⟨is, his, h⟩ := except_bind h
  obtain ⟨js, hjs, h⟩ := except_bind h
  exact ⟨is, js, his, hjs, (Except.ok.inj h).symm⟩

/-- Both alternatives have been accepted, and the captures are counted through. -/
theorem reParse_alt {a b : RegExp}
    (h : reParse dotall (.alt a b) isBackwardDir n = .ok code) :
    ∃ is js, reParse dotall a isBackwardDir n = .ok is ∧
      reParse dotall b isBackwardDir (n + a.captures) = .ok js ∧ code = altCode is js := by
  rw [reParse] at h
  obtain ⟨is, his, h⟩ := except_bind h
  obtain ⟨js, hjs, h⟩ := except_bind h
  exact ⟨is, js, his, hjs, (Except.ok.inj h).symm⟩

/-- There was a capture left for the group, and its code stands between two `save`s. -/
theorem reParse_capture {r : RegExp}
    (h : reParse dotall (.capture r) isBackwardDir n = .ok code) :
    n < captureCountMax ∧ ∃ is, reParse dotall r isBackwardDir (n + 1) = .ok is ∧
      code = captureCode isBackwardDir n is := by
  rw [reParse] at h
  split at h
  · exact absurd h (by simp)
  · rename_i hlt
    obtain ⟨is, his, h⟩ := except_bind h
    exact ⟨Nat.lt_of_not_le hlt, is, his, (Except.ok.inj h).symm⟩

/-- What is looked for has been accepted, in the direction of the lookaround. -/
theorem reParse_look {r : RegExp} {isBackward isNeg : Bool}
    (h : reParse dotall (.look isBackward isNeg r) isBackwardDir n = .ok code) :
    ∃ is, reParse dotall r isBackward n = .ok is ∧ code = lookCode isNeg is := by
  rw [reParse] at h
  obtain ⟨is, his, h⟩ := except_bind h
  exact ⟨is, his, (Except.ok.inj h).symm⟩

/-- The bounds are in order, and the atom has been accepted. -/
theorem reParse_quant {r : RegExp} {quantMin quantMax : ℕ} {greedy : Bool}
    (h : reParse dotall (.quant r quantMin quantMax greedy) isBackwardDir n = .ok code) :
    quantMin ≤ quantMax ∧ ∃ is, reParse dotall r isBackwardDir n = .ok is ∧
      code = reQuantifier quantMin quantMax greedy n (n + r.captures) is := by
  rw [reParse] at h
  obtain ⟨is, his, h⟩ := except_bind h
  split at h
  · exact absurd h (by simp)
  · split at h
    · exact absurd h (by simp)
    · rename_i hle
      exact ⟨Nat.le_of_not_lt hle, is, his, (Except.ok.inj h).symm⟩

/-- There are never more groups than `CAPTURE_COUNT_MAX`. -/
theorem reParse_captures {r : RegExp} (h : reParse dotall r isBackwardDir n = .ok code)
    (hn : n ≤ captureCountMax) : n + r.captures ≤ captureCountMax := by
  induction r generalizing isBackwardDir n code with
  | seq a b iha ihb =>
    obtain ⟨is, js, his, hjs, -⟩ := reParse_seq h
    rw [RegExp.captures, ← Nat.add_assoc]
    exact ihb hjs (iha his hn)
  | alt a b iha ihb =>
    obtain ⟨is, js, his, hjs, -⟩ := reParse_alt h
    rw [RegExp.captures, ← Nat.add_assoc]
    exact ihb hjs (iha his hn)
  | group r ih => exact ih (show reParse dotall r isBackwardDir n = .ok code from h) hn
  | capture r ih =>
    obtain ⟨hlt, is, his, -⟩ := reParse_capture h
    have := ih his hlt
    rw [RegExp.captures]
    omega
  | look isBackward isNeg r ih =>
    obtain ⟨is, his, -⟩ := reParse_look h
    exact ih his hn
  | quant r quantMin quantMax greedy ih =>
    obtain ⟨-, is, his, -⟩ := reParse_quant h
    exact ih his hn
  | _ => exact hn

end Accepted

/-! ### The code of an expression -/

/-- The code of an expression tries its matches, and what the checks of an atom make of the code is
    true of the expression. -/
structure Compiled (s : REExecContext) (dotall : Bool) (r : RegExp) (isBackwardDir : Bool) (n : ℕ)
    (code : List REOp) : Prop where
  implements : Implements s code (outcomes s.toSubject dotall r isBackwardDir n)
  simple : IsSimple code → SimpleRun s code (outcomes s.toSubject dotall r isBackwardDir n)
  captures : IsSimple code → r.captures = 0
  moves : (∀ i ∈ code, i.opcode.kind ≠ .other) → (∃ i ∈ code, i.opcode.kind = .simpleChar) →
    r.moves = true

section Compiled

variable {s : REExecContext} {dotall isBackwardDir : Bool} {n : ℕ} {is js : List REOp}

/-- Code with an instruction that is neither a character nor a condition is not simple. -/
theorem not_isSimple {i : REOp} {kind : OpKind} (hi : i ∈ is) (hkind : i.opcode.kind = kind)
    (hchar : kind ≠ .simpleChar) (hassertion : kind ≠ .assertion) : ¬ IsSimple is := fun h =>
  (h i hi).elim (fun h => hchar (hkind.symm.trans h)) fun h => hassertion (hkind.symm.trans h)

/-- An expression for one character, whose instruction tests for it. -/
theorem Compiled.oneChar {r : RegExp} {i : REOp} {p : ℕ → Bool} (hs : s.Ok) (hi : i.Tests p)
    (hr : ∀ x, outcomes s.toSubject dotall r isBackwardDir n x
      = oneChar s.toSubject p isBackwardDir x)
    (hcaptures : r.captures = 0) (hmoves : r.moves = true) :
    Compiled s dotall r isBackwardDir n (charTerm isBackwardDir i) where
  implements := (Implements.charTerm hs hi isBackwardDir).congr fun x _ => (hr x).symm
  simple hsimple := by
    cases isBackwardDir with
    | false => exact (SimpleRun.tests hs hi).congr fun x _ => (hr x).symm
    | true =>
      exact absurd hsimple (not_isSimple List.mem_cons_self rfl (by decide) (by decide))
  captures _ := hcaptures
  moves _ _ := hmoves

/-- An expression that is an instruction without an operand and moves nowhere. -/
theorem Compiled.assertion {r : RegExp} {op : REOPCodeEnum} {p : ℕ → Bool}
    (hkind : op.kind = .assertion) (hbalanced : ∀ m, op.stackAfter m = m)
    (hop : ∀ pc q, simpleOp s op pc q = checkThat pc q (p q))
    (hr : ∀ x, outcomes s.toSubject dotall r isBackwardDir n x = assertion p x)
    (hcaptures : r.captures = 0) : Compiled s dotall r isBackwardDir n [reEmitOp op] where
  implements := (Implements.assertion hbalanced hop).congr fun x _ => (hr x).symm
  simple _ := (SimpleRun.assertion hkind hop).congr fun x _ => (hr x).symm
  captures _ := hcaptures
  moves _ := by
    rintro ⟨i, hi, hchar⟩
    rw [List.mem_singleton.mp hi] at hchar
    exact absurd (hkind.symm.trans hchar) (by decide)

/-- A sequence is compiled when its parts are; the second part has its captures behind those of the
    first. -/
theorem Compiled.seq {a b : RegExp} (ha : Compiled s dotall a isBackwardDir n is)
    (hb : Compiled s dotall b isBackwardDir (n + a.captures) js) :
    Compiled s dotall (.seq a b) isBackwardDir n
      (if isBackwardDir then js ++ is else is ++ js) where
  implements := by
    -- backward, the code of the second factor comes first
    cases isBackwardDir with
    | false => exact ha.implements.append hb.implements
    | true => exact hb.implements.append ha.implements
  simple hsimple := by
    cases isBackwardDir with
    | false =>
      obtain ⟨hsa, hsb⟩ := isSimple_append.mp hsimple
      exact (ha.simple hsa).append ha.implements.valid (hb.simple hsb)
    | true =>
      obtain ⟨hsb, hsa⟩ := isSimple_append.mp hsimple
      exact (hb.simple hsb).append hb.implements.valid (ha.simple hsa)
  captures hsimple := by
    have hboth : IsSimple is ∧ IsSimple js := by
      cases isBackwardDir with
      | false => exact isSimple_append.mp hsimple
      | true => exact (isSimple_append.mp hsimple).symm
    rw [RegExp.captures, ha.captures hboth.1, hb.captures hboth.2]
  moves hall hex := by
    have hmem : ∀ i, i ∈ (if isBackwardDir then js ++ is else is ++ js) ↔ i ∈ is ∨ i ∈ js := by
      intro i
      cases isBackwardDir with
      | false => exact List.mem_append
      | true => exact List.mem_append.trans or_comm
    obtain ⟨i, hi, hkind⟩ := hex
    apply Bool.or_eq_true_iff.mpr
    rcases (hmem i).mp hi with hi | hi
    · exact .inl (ha.moves (fun j hj => hall j ((hmem j).mpr (.inl hj))) ⟨i, hi, hkind⟩)
    · exact .inr (hb.moves (fun j hj => hall j ((hmem j).mpr (.inr hj))) ⟨i, hi, hkind⟩)

/-- Code with an instruction that the checks do not know. -/
theorem Compiled.ofOther {r : RegExp} {i : REOp} (hi : i ∈ is) (hkind : i.opcode.kind = .other)
    (himp : Implements s is (outcomes s.toSubject dotall r isBackwardDir n)) :
    Compiled s dotall r isBackwardDir n is where
  implements := himp
  simple hsimple := absurd hsimple (not_isSimple hi hkind (by decide) (by decide))
  captures hsimple := absurd hsimple (not_isSimple hi hkind (by decide) (by decide))
  moves hall := absurd hkind (hall i hi)

/-- The quantifiers whose code has only instructions that the checks know. -/
theorem reQuantifier_known {quantMin quantMax m : ℕ} {greedy : Bool} (hle : quantMin ≤ quantMax)
    (hall : ∀ i ∈ reQuantifier quantMin quantMax greedy n m is, i.opcode.kind ≠ .other) :
    (quantMin = 0 ∧ quantMax = 0 ∧ reQuantifier quantMin quantMax greedy n m is = resetCode n m) ∨
      (quantMin = 1 ∧ quantMax = 1 ∧ reQuantifier quantMin quantMax greedy n m is = is) := by
  have hsplit : ∀ greedy, (splitOp greedy).kind = .other := fun greedy => by cases greedy <;> rfl
  -- a loop needs a split or a counter, neither of them known to advance
  have hloop : ∀ check, (∀ i ∈ loopCode quantMin quantMax greedy check n m is,
        i.opcode.kind ≠ .other) →
      (quantMin = 0 ∧ quantMax = 0 ∧
        loopCode quantMin quantMax greedy check n m is = resetCode n m) ∨
      (quantMin = 1 ∧ quantMax = 1 ∧ loopCode quantMin quantMax greedy check n m is = is) := by
    intro check hall
    rw [loopCode] at hall ⊢
    by_cases hzero : quantMin = 0
    · rw [if_pos hzero] at hall ⊢
      by_cases hnone : quantMax = 0
      · rw [if_pos hnone, List.append_nil]
        exact .inl ⟨hzero, hnone, rfl⟩
      · rw [if_neg hnone] at hall
        have hrest := fun i hi => hall i (List.mem_append_right _ hi)
        split at hrest
        · exact absurd (hsplit greedy) (hrest _ List.mem_cons_self)
        · split at hrest
          · exact absurd (hsplit greedy) (hrest _ List.mem_cons_self)
          · exact absurd (hsplit greedy) (hrest _ (List.mem_cons_of_mem _ List.mem_cons_self))
    rw [if_neg hzero] at hall ⊢
    -- `+` splits at its end
    by_cases hplus : quantMin = 1 ∧ quantMax = int32Max ∧ check = false
    · rw [if_pos hplus] at hall
      exact absurd (hsplit !greedy) (hall _ (List.mem_append_right _ List.mem_cons_self))
    rw [if_neg hplus] at hall ⊢
    -- `{n,}` splits behind the copies
    by_cases hinf : quantMax = int32Max
    · rw [if_pos hinf] at hall
      exact absurd (hsplit greedy) (hall _ (List.mem_append_right _ List.mem_cons_self))
    rw [if_neg hinf] at hall ⊢
    -- `{n,m}` counts down, with a split at each turn
    by_cases hmore : quantMin < quantMax
    · rw [if_pos hmore] at hall
      exact absurd (hsplit greedy)
        (hall _ (List.mem_append_right _ (List.mem_cons_of_mem _ List.mem_cons_self)))
    rw [if_neg hmore, List.append_nil] at hall ⊢
    rw [timesCode] at hall ⊢
    -- `{n}` counts down unless there is one copy only
    by_cases hone : quantMin = 1
    · rw [if_pos hone]
      exact .inr ⟨hone, by omega, rfl⟩
    · rw [if_neg hone] at hall
      exact absurd rfl (hall (reEmitJump .loop (-(codeSize is + 5))) (by simp))
  rw [reQuantifier] at hall ⊢
  cases greedy with
  | false =>
    rw [if_neg Bool.false_ne_true] at hall ⊢
    exact hloop false hall
  | true =>
    rw [if_pos rfl] at hall ⊢
    cases hquant : reIsSimpleQuantifier is with
    | none =>
      rw [hquant] at hall
      exact hloop _ hall
    | some len =>
      cases len with
      | zero =>
        rw [hquant] at hall
        exact hloop _ hall
      | succ len =>
        rw [hquant] at hall
        by_cases hpos : 0 < quantMax
        · simp only [if_pos hpos] at hall
          exact absurd rfl (hall _ List.mem_cons_self)
        · simp only [if_neg hpos] at hall ⊢
          exact hloop _ hall

/-- A captured group is compiled when its body is. -/
theorem Compiled.capture {r : RegExp} (hs : s.Ok) (hn : n < s.captureCount)
    (hr : Compiled s dotall r isBackwardDir (n + 1) is) :
    Compiled s dotall (.capture r) isBackwardDir n (captureCode isBackwardDir n is) := by
  have hfirst : (reEmitOpU8 (if isBackwardDir then .saveEnd else .saveStart) n).opcode.kind
      = .noEffect := by cases isBackwardDir <;> rfl
  have hlast : (reEmitOpU8 (if isBackwardDir then .saveStart else .saveEnd) n).opcode.kind
      = .noEffect := by cases isBackwardDir <;> rfl
  have hnot : ¬ IsSimple (captureCode isBackwardDir n is) :=
    not_isSimple List.mem_cons_self hfirst (by decide) (by decide)
  refine ⟨.capture hs hn isBackwardDir hr.implements, fun h => absurd h hnot,
    fun h => absurd h hnot, fun hall ⟨i, hi, hkind⟩ => ?_⟩
  have hmem : ∀ j ∈ is, j ∈ captureCode isBackwardDir n is := fun j hj =>
    List.mem_cons_of_mem _ (List.mem_append_left _ hj)
  refine hr.moves (fun j hj => hall j (hmem j hj)) ⟨i, ?_, hkind⟩
  rw [captureCode, List.cons_append] at hi
  rcases List.mem_cons.mp hi with rfl | hi
  · exact absurd (hfirst.symm.trans hkind) (by decide)
  rcases List.mem_append.mp hi with hi | hi
  · exact hi
  · rw [List.mem_singleton.mp hi] at hkind
    exact absurd (hlast.symm.trans hkind) (by decide)

/-- A back reference is one instruction, in each direction. -/
theorem Compiled.backReference {i : ℕ} (hi : i < 256) :
    Compiled s dotall (.backReference i) isBackwardDir n
      [reEmitOpU8 (if isBackwardDir then .backwardBackReference else .backReference) i] := by
  have hkind : (reEmitOpU8 (if isBackwardDir then .backwardBackReference else .backReference)
      i).opcode.kind = .noEffect := by cases isBackwardDir <;> rfl
  have hnot := not_isSimple (List.mem_singleton_self _) hkind (by decide) (by decide)
  refine ⟨.backReference hi isBackwardDir, fun h => absurd h hnot, fun h => absurd h hnot,
    fun _ ⟨j, hj, hchar⟩ => ?_⟩
  rw [List.mem_singleton.mp hj] at hchar
  exact absurd (hkind.symm.trans hchar) (by decide)

/-- A quantifier is compiled when its atom is, with bounds in order; a lazy one without a maximum
    needs an atom that moves. -/
theorem Compiled.quant {r : RegExp} {quantMin quantMax : ℕ} {greedy : Bool} (hs : s.Ok)
    (hr : Compiled s dotall r isBackwardDir n is) (hle : quantMin ≤ quantMax)
    (hmax : quantMax ≤ int32Max) (hlazy : greedy = false → quantMax = int32Max → r.moves = true)
    (hcount : n + r.captures ≤ s.captureCount) :
    Compiled s dotall (.quant r quantMin quantMax greedy) isBackwardDir n
      (reQuantifier quantMin quantMax greedy n (n + r.captures) is) := by
  have hadv := outcomes_advances s.toSubject dotall r isBackwardDir n
  have himp := Implements.reQuantifier hs hr.implements hr.simple hadv hr.moves hlazy hle hmax
    hcount hr.captures
  -- the operation that resets captures is none that the tests for simple atoms know
  have hreset : ∀ i ∈ resetCode n (n + r.captures), i.opcode.kind = .noEffect := fun i hi => by
    rw [resetCode] at hi
    split at hi
    · rw [List.mem_singleton.mp hi]
      rfl
    · exact absurd hi List.not_mem_nil
  have hother : IsSimple (reQuantifier quantMin quantMax greedy n (n + r.captures) is) →
      ∀ i ∈ reQuantifier quantMin quantMax greedy n (n + r.captures) is, i.opcode.kind ≠ .other :=
    fun h i hi => by rcases h i hi with hkind | hkind <;> simp [hkind]
  -- so where the code is simple, there are no captures to reset
  have hzero : IsSimple (resetCode n (n + r.captures)) → r.captures = 0 := fun h => by
    by_contra hne
    have hmem : ∃ i, i ∈ resetCode n (n + r.captures) := by
      rw [resetCode, if_pos (by omega)]
      exact ⟨_, List.mem_cons_self⟩
    obtain ⟨i, hi⟩ := hmem
    rcases h i hi with hkind | hkind <;> exact absurd ((hreset i hi).symm.trans hkind) (by decide)
  refine ⟨himp, fun hsimple => ?_, fun hsimple => ?_, fun hall hex => ?_⟩
  · rcases reQuantifier_known hle (hother hsimple) with ⟨rfl, rfl, hcode⟩ | ⟨rfl, rfl, hcode⟩
    · rw [hcode] at hsimple ⊢
      have hcaptures := hzero hsimple
      rw [hcaptures, Nat.add_zero, resetCode, if_neg fun h => h rfl]
      refine (SimpleRun.nil s).congr fun x _ => ?_
      rw [outcomes, if_pos rfl, hcaptures, forget_zero]
      rfl
    · rw [hcode] at hsimple ⊢
      refine (hr.simple hsimple).congr fun x _ => ?_
      have hself : ∀ g, repeatUpTo g greedy 0 = fun x => [x] := fun _ => rfl
      rw [outcomes, if_neg Nat.one_ne_zero, quantified, if_neg (show 1 ≠ int32Max by decide),
        Nat.sub_self, hself, List.flatMap_singleton']
      exact (List.flatMap_singleton' _).symm
  · rcases reQuantifier_known hle (hother hsimple) with ⟨rfl, rfl, hcode⟩ | ⟨rfl, rfl, hcode⟩
    · exact hzero (hcode ▸ hsimple)
    · exact hr.captures (hcode ▸ hsimple)
  · rcases reQuantifier_known hle hall with ⟨rfl, rfl, hcode⟩ | ⟨rfl, rfl, hcode⟩
    · obtain ⟨i, hi, hkind⟩ := hex
      rw [hcode] at hi
      exact absurd ((hreset i hi).symm.trans hkind) (by decide)
    · rw [hcode] at hall hex
      exact hr.moves hall hex

/-- **Accepted code tries the matches of its expression.** -/
theorem reParse_compiled (hs : s.Ok) {r : RegExp} {code : List REOp} (hvalid : r.Valid)
    (h : reParse dotall r isBackwardDir n = .ok code) (hcount : n + r.captures ≤ s.captureCount) :
    Compiled s dotall r isBackwardDir n code := by
  induction r generalizing isBackwardDir n code with
  | empty =>
    obtain rfl := Except.ok.inj h
    exact ⟨.nil s, fun _ => .nil s, fun _ => rfl, fun _ ⟨i, hi, _⟩ => absurd hi List.not_mem_nil⟩
  | seq a b iha ihb =>
    obtain ⟨is, js, his, hjs, rfl⟩ := reParse_seq h
    rw [RegExp.captures] at hcount
    exact (iha hvalid.1 his (by omega)).seq (ihb hvalid.2 hjs (by omega))
  | alt a b iha ihb =>
    obtain ⟨is, js, his, hjs, rfl⟩ := reParse_alt h
    rw [RegExp.captures] at hcount
    have ha := iha hvalid.1 his (by omega)
    have hb := ihb hvalid.2 hjs (by omega)
    -- the split in front keeps the alternative from being simple
    exact .ofOther List.mem_cons_self rfl (.alt hs ha.implements hb.implements)
  | lineStart =>
    obtain rfl := Except.ok.inj h
    exact .assertion rfl (fun _ => rfl) (fun _ _ => rfl) (fun _ => rfl) rfl
  | lineEnd =>
    obtain rfl := Except.ok.inj h
    exact .assertion rfl (fun _ => rfl) (fun _ _ => rfl) (fun _ => rfl) rfl
  | dot =>
    obtain rfl := Except.ok.inj h
    refine .oneChar hs (p := fun c => dotall || !isLineTerminator c) (fun rest => ?_) (fun _ => rfl)
      rfl rfl
    cases dotall with
    | false => exact ⟨_, rfl, fun _ _ => rfl⟩
    | true => exact ⟨_, rfl, fun _ _ => rfl⟩
  | char c =>
    obtain rfl := Except.ok.inj h
    refine .oneChar hs (p := fun c' => decide (c = c')) ?_ (fun _ => rfl) rfl rfl
    -- characters up to 0xffff take the short form
    split
    · exact tests_char _ (by omega) fun _ _ => rfl
    · have hlt : c < 4294967295 := hvalid
      exact tests_char32 _ (by omega) fun _ _ => rfl
  | escape e =>
    obtain ⟨i, hi, hcode⟩ := except_bind h
    obtain rfl := Except.ok.inj hcode
    exact .oneChar hs (tests_escape hi) (fun _ => rfl) rfl rfl
  | charClass atoms invert =>
    obtain ⟨i, hi, hcode⟩ := except_bind h
    obtain rfl := Except.ok.inj hcode
    exact .oneChar hs (tests_class hvalid hi) (fun _ => rfl) rfl rfl
  | wordBoundary isNot =>
    obtain rfl := Except.ok.inj h
    cases isNot with
    | false =>
      exact .assertion rfl (fun _ => rfl) (p := fun q => s.isWordBoundary q ^^ false)
        (fun pc q => by rw [Bool.xor_false]; rfl) (fun _ => rfl) rfl
    | true =>
      exact .assertion rfl (fun _ => rfl) (p := fun q => s.isWordBoundary q ^^ true)
        (fun pc q => by rw [Bool.xor_true]; rfl) (fun _ => rfl) rfl
  | backReference i =>
    obtain rfl := Except.ok.inj h
    exact .backReference hvalid
  | group r ih =>
    have hr := ih hvalid (show reParse dotall r isBackwardDir n = .ok code from h) hcount
    exact ⟨hr.implements, hr.simple, hr.captures, hr.moves⟩
  | capture r ih =>
    obtain ⟨hlt, is, his, rfl⟩ := reParse_capture h
    rw [RegExp.captures] at hcount
    exact (ih hvalid his (by omega)).capture hs (by omega)
  | look isBackward isNeg r ih =>
    obtain ⟨is, his, rfl⟩ := reParse_look h
    have hr := ih hvalid his hcount
    refine .ofOther List.mem_cons_self ?_ (.look hs hr.implements isNeg)
    cases isNeg <;> rfl
  | quant r quantMin quantMax greedy ih =>
    obtain ⟨hle, is, his, rfl⟩ := reParse_quant h
    exact .quant hs (ih hvalid.1 his hcount) hle hvalid.2.1 hvalid.2.2 hcount

end Compiled

/-! ### The whole program -/

/-- What the interpreter makes of the matches: the first one counts. -/
def firstMatch : List MatchState → ExecResult
  | [] => .notFound
  | x :: _ => .found x.caps

/-- The matches that a compiled expression looks for: at `cindex`, or from there on. -/
def matchesFrom (f : LreFlags) (re : RegExp) (cbuf : List ℕ) (cindex : ℕ) : List MatchState :=
  let t : Subject := ⟨cbuf, f.multiline⟩
  let x : MatchState := ⟨cindex, List.replicate (2 * (re.captures + 1)) none⟩
  if f.sticky then matchesAt t f.dotall re x
  else search t f.dotall re (cbuf.length - cindex) x

section Program

variable {s : REExecContext} {dotall : Bool} {re : RegExp} {body : List REOp} {x : MatchState}

/-- The code that iterates through all positions. -/
theorem tries_search (hs : s.Ok) (hbody : Implements s body (matchesAt s.toSubject dotall re))
    (hcode : CodeAt s.bcBuf 0 (searchCode ++ body)) (hfits : Fits s.stackSizeMax 0 body) (n : ℕ)
    (hx : s.Valid x) (hn : x.pos + n = s.cbuf.length) (K : List REExecState) :
    Tries s (11 + codeSize body) [] K (.run (x.toState 0 []) K)
      (search s.toSubject dotall re n x) := by
  have hend := hcode.left.le (by simp [searchCode])
  have hsize : codeSize searchCode = 11 := by decide
  rw [hsize] at hend
  have hcode₁ : CodeAt s.bcBuf 5 ([reEmitOp .any] ++ [reEmitJump .goto (-(5 + 1 + 5))]) :=
    hcode.left.tail
  have hcode₂ : CodeAt s.bcBuf 11 body := by
    have h := hcode.right
    rwa [hsize] at h
  have hany : (reEmitOp .any).Tests fun _ => true := fun rest => ⟨_, rfl, fun _ _ => rfl⟩
  have hread : ∀ x K, s.Valid x → Tries s 6 [] K (.run (x.toState 5 []) K)
      (oneChar s.toSubject (fun _ => true) false x) := fun x K hx =>
    (Implements.tests hs hany).tries 5 [] x K hcode₁.left ⟨Nat.zero_le _, Nat.zero_le _⟩ hx
  -- one turn: try the body here, else read a character and go back to the split
  have hsplit : ∀ x L K, s.Valid x →
      (∀ K, Tries s (11 + codeSize body) [] K (.run (x.toState 5 []) K) L) →
      Tries s (11 + codeSize body) [] K (.run (x.toState 0 []) K)
        (matchesAt s.toSubject dotall re x ++ L) := fun x L K hx hgo =>
    have hjump : CodeAt s.bcBuf 0 (reEmitJump (splitOp false) (1 + 5) :: _) := hcode.left
    tries_split 11 hs hjump (by decide) (by omega) hgo fun K =>
      hbody.tries 11 [] x K hcode₂ hfits hx
  induction n generalizing x K with
  | zero =>
    -- at the end no character is left, so the search fails after the body
    have hend : oneChar s.toSubject (fun _ => true) false x = [] := by
      rw [oneChar, if_neg Bool.false_ne_true, if_neg fun h => by omega]
    have h := hsplit x [] K hx fun K => .none (hend ▸ hread x K hx).none_left
    rwa [List.append_nil] at h
  | succ n ih =>
    have hlt : x.pos < s.cbuf.length := by omega
    have hnext : oneChar s.toSubject (fun _ => true) false x = [{ x with pos := x.pos + 1 }] := by
      rw [oneChar, if_neg Bool.false_ne_true, if_pos ⟨hlt, rfl⟩]
    refine hsplit x _ K hx fun K => ?_
    have hlist : (oneChar s.toSubject (fun _ => true) false x).flatMap
          (search s.toSubject dotall re n)
        = search s.toSubject dotall re n { x with pos := x.pos + 1 } := by
      rw [hnext, List.flatMap_singleton]
    rw [← hlist]
    refine (hread x K hx).bind fun y hy K' => ?_
    rw [hnext] at hy
    obtain rfl := List.mem_singleton.mp hy
    -- `goto` leads back to the split, one character further
    refine .next (step_goto 0 hs hcode₁.right (by decide) (Nat.zero_le _)) ?_
    exact ih (Valid.withPos hx hlt) (by simp only; omega) _

/-- At the end, the first match is returned. -/
theorem returns_firstMatch {pc : ℕ} {L : List MatchState} {c : Config}
    (hmatch : CodeAt s.bcBuf pc [reEmitOp .match']) (h : Tries s pc [] [] c L) :
    Returns (step s) c (firstMatch L) := by
  cases L with
  | nil => exact h.none_left.returns (.halt rfl)
  | cons y L =>
    obtain ⟨K', hchoice, hlead⟩ := h.first
    refine hlead.returns (.next (step_match hmatch) ?_)
    exact (leads_drop hchoice).returns (.halt rfl)

end Program

/-- The context that a compiled expression makes. -/
def programContext (f : LreFlags) (captureCount stackSize : ℕ) (code : List REOp)
    (cbuf : List ℕ) : REExecContext :=
  ⟨⟨cbuf, f.multiline⟩, codeBytes code, captureCount, stackSize⟩

/-- What `lre_exec` makes of the header is what `lre_compile` has put there. -/
theorem execContext_compiled (f : LreFlags) (captureCount stackSize size : ℕ) (code : List REOp)
    (cbuf : List ℕ) :
    execContext (lreHeader f captureCount stackSize size ++ codeBytes code) cbuf
      = programContext f captureCount stackSize code cbuf := by
  have hmultiline : decide (f.toByte / 4 % 2 = 1) = f.multiline := by
    obtain ⟨multiline, dotall, sticky⟩ := f
    cases multiline <;> cases dotall <;> cases sticky <;> rfl
  have hdrop : (lreHeader f captureCount stackSize size ++ codeBytes code).drop 7
      = codeBytes code := List.drop_left' rfl
  rw [execContext, hdrop]
  show REExecContext.mk ⟨cbuf, decide (f.toByte / 4 % 2 = 1)⟩ _ _ _ = _
  rw [hmultiline]
  rfl

/-- What the interpreter is run on, when an expression is accepted. -/
structure Runs (f : LreFlags) (re : RegExp) (body : List REOp) (cindex : ℕ) (s : REExecContext) :
    Prop where
  ok : s.Ok
  captures : s.captureCount = re.captures + 1
  code : CodeAt s.bcBuf 0 (programCode f.sticky body)
  fits : Fits s.stackSizeMax 0 (programCode f.sticky body)
  valid : s.Valid ⟨cindex, List.replicate (2 * (re.captures + 1)) none⟩

/-- An expression that is accepted: its code, and the context in which it is run. -/
theorem lreCompile_runs {f : LreFlags} {re : RegExp} {bcBuf cbuf : List ℕ} {cindex : ℕ}
    (hcompile : lreCompile f re = .ok bcBuf) (hsize : bcBuf.length < 2147483648)
    (hchars : ∀ c ∈ cbuf, c < uint32Max) (hindex : cindex ≤ cbuf.length) :
    ∃ body stackSize, reParse f.dotall re false 1 = .ok body ∧
      execContext bcBuf cbuf
        = programContext f (re.captures + 1) stackSize (programCode f.sticky body) cbuf ∧
      Runs f re body cindex (execContext bcBuf cbuf) := by
  rw [lreCompile] at hcompile
  obtain ⟨body, hbody, hcompile⟩ := except_bind hcompile
  cases hstack : computeStackSize 0 0 (programCode f.sticky body) with
  | none => simp [hstack] at hcompile
  | some stackSize =>
    simp only [hstack] at hcompile
    obtain rfl := Except.ok.inj hcompile
    have hcount : 1 + re.captures ≤ captureCountMax := reParse_captures hbody (by decide)
    rw [List.length_append] at hsize
    refine ⟨body, stackSize, hbody, execContext_compiled .., ?_⟩
    rw [execContext_compiled]
    -- the context after `lre_exec`'s setup fits the program
    exact {
      ok := ⟨show (codeBytes _).length < _ by omega, hchars, show re.captures + 1 ≤ _ by omega⟩
      captures := rfl
      code := ⟨[], (List.append_nil _).symm⟩
      fits := (computeStackSize_fits hstack le_rfl).2
      valid := ⟨hindex, List.length_replicate,
        fun p hp => absurd (List.eq_of_mem_replicate hp) (by simp)⟩ }

/-- The program: the search unless it is sticky, the match as capture 0, and `match`. -/
theorem programCode_eq (sticky : Bool) (body : List REOp) :
    programCode sticky body
      = (if sticky then [] else searchCode) ++ captureCode false 0 body ++ [reEmitOp .match'] := by
  rw [List.append_assoc, programCode, captureCode, List.append_assoc]
  rfl

/-- The run of a program. -/
theorem returns_program {s : REExecContext} {f : LreFlags} {re : RegExp} {body : List REOp}
    {x : MatchState} (hs : s.Ok)
    (hbody : Implements s (captureCode false 0 body) (matchesAt s.toSubject f.dotall re))
    (hcode : CodeAt s.bcBuf 0 (programCode f.sticky body))
    (hfits : Fits s.stackSizeMax 0 (programCode f.sticky body)) (hx : s.Valid x) :
    Returns (step s) (.run (x.toState 0 []) []) (firstMatch
      (if f.sticky then matchesAt s.toSubject f.dotall re x
        else search s.toSubject f.dotall re (s.cbuf.length - x.pos) x)) := by
  have hmatch := hcode
  rw [programCode_eq] at hcode hfits hmatch
  have hfits₁ := (fits_append.mp hfits).1
  cases hsticky : f.sticky with
  | true =>
    -- sticky: the body only
    rw [hsticky, if_pos rfl, List.nil_append] at hcode hfits₁ hmatch
    rw [if_pos rfl]
    exact returns_firstMatch hmatch.right (hbody.tries 0 [] x [] hcode.left hfits₁ hx)
  | false =>
    -- otherwise the search loop stands in front of it
    rw [hsticky, if_neg Bool.false_ne_true] at hcode hfits₁ hmatch
    rw [if_neg Bool.false_ne_true]
    have hsize : 0 + codeSize (searchCode ++ captureCode false 0 body)
        = 11 + codeSize (captureCode false 0 body) := by
      rw [codeSize_append, Nat.zero_add]
      rfl
    have hpos := hx.pos
    refine returns_firstMatch (hsize ▸ hmatch.right) ?_
    exact tries_search hs hbody hcode.left (fits_append.mp hfits₁).2 _ hx (by omega) []

/-- The run on a compiled expression. -/
theorem lreCompile_returns (f : LreFlags) (re : RegExp) (bcBuf cbuf : List ℕ) (cindex : ℕ)
    (hvalid : re.Valid) (hcompile : lreCompile f re = .ok bcBuf) (hsize : bcBuf.length < 2147483648)
    (hchars : ∀ c ∈ cbuf, c < uint32Max) (hindex : cindex ≤ cbuf.length) :
    Returns (step (execContext bcBuf cbuf)) (.run (startState (execContext bcBuf cbuf) cindex) [])
      (firstMatch (matchesFrom f re cbuf cindex)) := by
  obtain ⟨body, stackSize, hbody, hcontext, hruns⟩ := lreCompile_runs hcompile hsize hchars hindex
  have hcompiled := reParse_compiled hruns.ok hvalid hbody (by rw [hruns.captures, Nat.add_comm])
  have hreturns := returns_program hruns.ok
    (.capture hruns.ok (hruns.captures ▸ Nat.succ_pos _) false hcompiled.implements) hruns.code
    hruns.fits hruns.valid
  rw [hcontext] at hreturns ⊢
  exact hreturns

/-- **The interpreter finds the first match** of a compiled expression: the first of those at
    `cindex` that the expression has, or, without the flag `y`, of those at the first position from
    there on that has one.  It always comes to an end.  The bytecode is shorter than 2^31 bytes,
    so that displacements fit; and captures are those of the library (`outcomes` sets and resets
    them where the compiled code does), which is not everywhere what ECMAScript asks for. -/
theorem lreExec_correct (f : LreFlags) (re : RegExp) (bcBuf cbuf : List ℕ) (cindex : ℕ)
    (hvalid : re.Valid) (hcompile : lreCompile f re = .ok bcBuf) (hsize : bcBuf.length < 2147483648)
    (hchars : ∀ c ∈ cbuf, c < uint32Max) (hindex : cindex ≤ cbuf.length) :
    ∃ n₀, ∀ fuel, n₀ ≤ fuel →
      lreExec fuel bcBuf cbuf cindex = some (firstMatch (matchesFrom f re cbuf cindex)) :=
  lreCompile_returns f re bcBuf cbuf cindex hvalid hcompile hsize hchars hindex

/-- `/(a*)b\1/` in `xaabaa`. -/
theorem lreExec_correct_sample :
    ∃ n₀, ∀ fuel, n₀ ≤ fuel →
      lreExec fuel
        [0, 2, 0, 46, 0, 0, 0, 8, 6, 0, 0, 0, 4, 7, 245, 255, 255, 255, 11, 0, 11, 1, 28, 4, 0,
          0, 0, 0, 0, 0, 0, 255, 255, 255, 127, 1, 0, 0, 0, 1, 97, 0, 10, 12, 1, 1, 98, 0, 19,
          1, 12, 0, 10]
        [0x78, 0x61, 0x61, 0x62, 0x61, 0x61] 0
      = some (.found [some 1, some 6, some 1, some 3]) :=
  lreExec_correct ⟨false, false, false⟩
    (.seq (.seq (.capture (.quant (.char 0x61) 0 int32Max true)) (.char 0x62)) (.backReference 1))
    _ _ 0 (by simp [RegExp.Valid, uint32Max]) rfl (by decide) (by decide) (by decide)

end VideoPackages.Regexp
