import VideoPackages.Lib.Languages
import VideoPackages.RegexpCorrect

namespace VideoPackages.Regexp

open Backtracking Computability Languages Unicode

/-!
# Regular languages

Without assertions, lookarounds and back references, an expression has a language, and the
interpreter decides whether a text in it occurs in the input.

* `RegExp.language` — the language of an expression;
* `Reads` — the matches read the texts of a language;
* `outcomes_reads` — those of an expression, its language;
* `lreExec_language` — the interpreter finds a match when there is a text of the language.
-/

/-- Texts of one character. -/
def oneCharLanguage (p : ℕ → Bool) : Language ℕ := {w | ∃ c, p c = true ∧ w = [c]}

/-- The language of a regular expression proper. -/
def RegExp.language (dotall : Bool) : RegExp → Language ℕ
  | .empty => 1
  | .seq a b => a.language dotall * b.language dotall
  | .alt a b => a.language dotall + b.language dotall
  | .dot => oneCharLanguage fun c => dotall || !isLineTerminator c
  | .char c => oneCharLanguage fun c' => decide (c = c')
  | .escape e => oneCharLanguage (ClassAtom.escape e).has
  | .charClass atoms invert => oneCharLanguage fun c => atoms.any (·.has c) ^^ invert
  | .group r | .capture r => r.language dotall
  | .quant r quantMin quantMax _ => r.language dotall ^ quantMin *
    if quantMax = int32Max then (r.language dotall)∗
    else upTo (r.language dotall) (quantMax - quantMin)
  | _ => 0

/-- No assertions, lookarounds and back references. -/
def RegExp.isRegular : RegExp → Bool
  | .empty | .dot | .char _ | .escape _ | .charClass _ _ => true
  | .seq a b | .alt a b => a.isRegular && b.isRegular
  | .group r | .capture r | .quant r _ _ _ => r.isRegular
  | _ => false

/-- The matches read the texts of a language, from where they are. -/
def Reads (t : Subject) (f : MatchState → List MatchState) (L : Language ℕ) : Prop :=
  ∀ x, x.pos ≤ t.cbuf.length → ∀ p,
    (∃ y ∈ f x, y.pos = p) ↔ ∃ w ∈ L, w <+: t.cbuf.drop x.pos ∧ p = x.pos + w.length

section Reads

variable {t : Subject} {f g : MatchState → List MatchState} {L M : Language ℕ} {n : ℕ}

/-- Only texts that fit into the input count. -/
theorem Reads.congr (h : Reads t f L) (hLM : ∀ w, w.length ≤ t.cbuf.length → (w ∈ L ↔ w ∈ M)) :
    Reads t f M := by
  intro x hx p
  rw [h x hx p]
  have hlen : ∀ w, w <+: t.cbuf.drop x.pos → w.length ≤ t.cbuf.length := fun w hw =>
    hw.length_le.trans (by rw [List.length_drop]; exact Nat.sub_le _ _)
  exact ⟨fun ⟨w, hw, hpre, hp⟩ => ⟨w, (hLM w (hlen w hpre)).mp hw, hpre, hp⟩,
    fun ⟨w, hw, hpre, hp⟩ => ⟨w, (hLM w (hlen w hpre)).mpr hw, hpre, hp⟩⟩

theorem Reads.nil (t : Subject) : Reads t (fun x => [x]) 1 := by
  intro x _ p
  constructor
  · rintro ⟨y, hy, rfl⟩
    rw [List.mem_singleton.mp hy]
    exact ⟨[], Language.nil_mem_one, List.nil_prefix, rfl⟩
  · rintro ⟨w, hw, -, rfl⟩
    rw [Language.mem_one] at hw
    subst hw
    exact ⟨x, List.mem_singleton_self x, rfl⟩

/-- A product of texts stands in front when one does, and the other behind it. -/
theorem append_prefix {w v l : List ℕ} :
    w ++ v <+: l ↔ w <+: l ∧ v <+: l.drop w.length := by
  constructor
  · rintro ⟨u, rfl⟩
    rw [List.append_assoc]
    exact ⟨List.prefix_append _ _, by rw [List.drop_left]; exact List.prefix_append _ _⟩
  · rintro ⟨⟨u, rfl⟩, hv⟩
    rw [List.drop_left] at hv
    exact (List.prefix_append_right_inj w).mpr hv

/-- A sequence reads the product. -/
theorem Reads.seq (hf : Reads t f L) (hg : Reads t g M) :
    Reads t (fun x => (f x).flatMap g) (L * M) := by
  intro x hx p
  -- what is read lies within the subject
  have hle : ∀ w, w <+: t.cbuf.drop x.pos → x.pos + w.length ≤ t.cbuf.length := fun w hw => by
    have := hw.length_le
    rw [List.length_drop] at this
    omega
  constructor
  · rintro ⟨y, hy, rfl⟩
    obtain ⟨z, hz, hy⟩ := List.mem_flatMap.mp hy
    obtain ⟨w, hw, hpre, hzpos⟩ := (hf x hx z.pos).mp ⟨z, hz, rfl⟩
    obtain ⟨v, hv, hpre', hypos⟩ := (hg z (hzpos ▸ hle w hpre) y.pos).mp ⟨y, hy, rfl⟩
    rw [hzpos, ← List.drop_drop] at hpre'
    refine ⟨w ++ v, Language.append_mem_mul hw hv, append_prefix.mpr ⟨hpre, hpre'⟩, ?_⟩
    rw [hypos, hzpos, List.length_append, Nat.add_assoc]
  · rintro ⟨u, hu, hpre, rfl⟩
    -- a word of the product is read in two parts
    obtain ⟨w, hw, v, hv, rfl⟩ := Language.mem_mul.mp hu
    obtain ⟨hpre₁, hpre₂⟩ := append_prefix.mp hpre
    obtain ⟨z, hz, hzpos⟩ := (hf x hx _).mpr ⟨w, hw, hpre₁, rfl⟩
    rw [List.drop_drop, ← hzpos] at hpre₂
    obtain ⟨y, hy, hypos⟩ := (hg z (hzpos ▸ hle w hpre₁) _).mpr ⟨v, hv, hpre₂, rfl⟩
    refine ⟨y, List.mem_flatMap.mpr ⟨z, hz, hy⟩, ?_⟩
    rw [hypos, hzpos, List.length_append, Nat.add_assoc]

/-- An alternative reads the union. -/
theorem Reads.alt (hf : Reads t f L) (hg : Reads t g M) :
    Reads t (fun x => f x ++ g x) (L + M) := by
  intro x hx p
  constructor
  · rintro ⟨y, hy, hp⟩
    rcases List.mem_append.mp hy with hy | hy
    · obtain ⟨w, hw, h⟩ := (hf x hx p).mp ⟨y, hy, hp⟩
      exact ⟨w, .inl hw, h⟩
    · obtain ⟨w, hw, h⟩ := (hg x hx p).mp ⟨y, hy, hp⟩
      exact ⟨w, .inr hw, h⟩
  · rintro ⟨w, hw | hw, h⟩
    · obtain ⟨y, hy, hp⟩ := (hf x hx p).mpr ⟨w, hw, h⟩
      exact ⟨y, List.mem_append_left _ hy, hp⟩
    · obtain ⟨y, hy, hp⟩ := (hg x hx p).mpr ⟨w, hw, h⟩
      exact ⟨y, List.mem_append_right _ hy, hp⟩

/-- A character reads the texts of that one character. -/
theorem Reads.oneChar (p : ℕ → Bool) : Reads t (oneChar t p false) (oneCharLanguage p) := by
  intro x hx q
  rw [Regexp.oneChar, if_neg Bool.false_ne_true]
  constructor
  · rintro ⟨y, hy, rfl⟩
    split at hy
    · rename_i hchar
      rw [List.mem_singleton.mp hy, List.drop_eq_getElem_cons hchar.1]
      have hget : t.charAt x.pos = t.cbuf[x.pos] := List.getD_eq_getElem _ _ hchar.1
      exact ⟨[t.cbuf[x.pos]], ⟨_, hget ▸ hchar.2, rfl⟩, List.prefix_append [_] _, rfl⟩
    · exact absurd hy List.not_mem_nil
  · rintro ⟨w, ⟨c, hc, rfl⟩, hpre, rfl⟩
    have hlt : x.pos < t.cbuf.length := by
      have := hpre.length_le
      rw [List.length_drop, List.length_singleton] at this
      omega
    rw [List.drop_eq_getElem_cons hlt] at hpre
    have hget : t.charAt x.pos = t.cbuf[x.pos] := List.getD_eq_getElem _ _ hlt
    rw [if_pos ⟨hlt, by rw [hget, ← (List.cons_prefix_cons.mp hpre).1, hc]⟩]
    exact ⟨_, List.mem_singleton_self _, rfl⟩

/-- The captures make no difference to what is read. -/
theorem Reads.captured (hf : Reads t f L) (i : ℕ) : Reads t (captured i false f) L := by
  intro x hx p
  rw [← hf { x with caps := x.caps.set (2 * i) (some x.pos) } hx p]
  constructor
  · rintro ⟨y, hy, rfl⟩
    obtain ⟨z, hz, rfl⟩ := List.mem_map.mp hy
    exact ⟨z, hz, rfl⟩
  · rintro ⟨z, hz, rfl⟩
    exact ⟨_, List.mem_map_of_mem hz, rfl⟩

/-- Without empty matches, the empty text is not read. -/
theorem Reads.moving (hf : Reads t f L) : Reads t (moving f) (L - 1) := by
  intro x hx p
  constructor
  · rintro ⟨y, hy, rfl⟩
    obtain ⟨hy, hne⟩ := List.mem_filter.mp hy
    obtain ⟨w, hw, hpre, hpos⟩ := (hf x hx y.pos).mp ⟨y, hy, rfl⟩
    refine ⟨w, mem_sub_one.mpr ⟨hw, fun hnil => of_decide_eq_true hne ?_⟩, hpre, hpos⟩
    rw [hpos, hnil]
    rfl
  · rintro ⟨w, hw, hpre, rfl⟩
    obtain ⟨y, hy, hpos⟩ := (hf x hx _).mpr ⟨w, (mem_sub_one.mp hw).1, hpre, rfl⟩
    have hlen := List.length_pos_iff.mpr (mem_sub_one.mp hw).2
    exact ⟨y, List.mem_filter.mpr ⟨hy, decide_eq_true (by omega)⟩, hpos⟩

/-- A number of times reads the power. -/
theorem Reads.repeatTimes (hf : Reads t f L) (n : ℕ) : Reads t (repeatTimes f n) (L ^ n) := by
  induction n with
  | zero =>
    rw [pow_zero]
    exact .nil t
  | succ n ih =>
    rw [pow_succ']
    exact hf.seq ih

/-- Up to a number of times, greedy or lazy. -/
theorem Reads.repeatUpTo (hf : Reads t f L) (greedy : Bool) (n : ℕ) :
    Reads t (repeatUpTo f greedy n) (upTo L n) := by
  induction n with
  | zero =>
    rw [upTo_zero]
    exact .nil t
  | succ n ih =>
    rw [upTo_succ]
    cases greedy with
    | true =>
      rw [add_comm (1 : Language ℕ)]
      exact (hf.seq ih).alt (.nil t)
    | false => exact Reads.alt (.nil t) (hf.seq ih)

/-- A quantifier reads the power of its minimum, and as much more as its maximum allows. -/
theorem Reads.quantified (hf : Reads t f L) (quantMin quantMax : ℕ) (greedy : Bool) :
    Reads t (quantified t quantMin quantMax greedy f)
      (L ^ quantMin * if quantMax = int32Max then L∗ else upTo L (quantMax - quantMin)) := by
  refine (hf.repeatTimes quantMin).seq ?_
  have hmoving : ∀ n, Reads t (Regexp.repeatUpTo (Regexp.moving f) greedy n) (upTo L n) := fun n =>
    upTo_sub_one L n ▸ hf.moving.repeatUpTo greedy n
  have hagain : ∀ n, Reads t (Regexp.repeatUpTo (if greedy then Regexp.moving f else f) greedy n)
      (upTo L n) := fun n => by
    cases greedy with
    | true => exact hmoving n
    | false => exact hf.repeatUpTo false n
  by_cases hinf : quantMax = int32Max
  · rw [if_pos hinf, if_pos hinf]
    exact (hagain _).congr fun w hw => (mem_kstar_iff_upTo hw).symm
  · rw [if_neg hinf, if_neg hinf]
    exact hagain _

end Reads

/-- **The matches of a regular expression** read the texts of its language. -/
theorem outcomes_reads (t : Subject) (dotall : Bool) {r : RegExp} (hregular : r.isRegular = true)
    (n : ℕ) : Reads t (outcomes t dotall r false n) (r.language dotall) := by
  induction r generalizing n with
  | empty => exact .nil t
  | seq a b iha ihb =>
    obtain ⟨ha, hb⟩ := Bool.and_eq_true_iff.mp hregular
    exact (iha ha n).seq (ihb hb _)
  | alt a b iha ihb =>
    obtain ⟨ha, hb⟩ := Bool.and_eq_true_iff.mp hregular
    exact (iha ha n).alt (ihb hb _)
  | dot => exact .oneChar _
  | char c => exact .oneChar _
  | escape e => exact .oneChar _
  | charClass atoms invert => exact .oneChar _
  | group r ih => exact ih hregular n
  | capture r ih => exact (ih hregular (n + 1)).captured n
  | quant r quantMin quantMax greedy ih =>
    have h := (ih hregular n).quantified quantMin quantMax greedy
    intro x hx p
    rw [outcomes]
    -- captures that are forgotten do not change what is read
    by_cases hzero : quantMin = 0
    · rw [if_pos hzero]
      exact h (forget n r.captures x) hx p
    · rw [if_neg hzero]
      exact h x hx p
  | _ => exact absurd hregular Bool.false_ne_true

/-- A text of a language occurs at a position. -/
def OccursAt (L : Language ℕ) (cbuf : List ℕ) (p : ℕ) : Prop :=
  p ≤ cbuf.length ∧ ∃ w ∈ L, w <+: cbuf.drop p

section Search

variable {t : Subject} {dotall : Bool} {re : RegExp} {x : MatchState}

/-- At one position, there is a match exactly when a text of the language occurs there. -/
theorem exists_matchesAt (t : Subject) (dotall : Bool) (hregular : re.isRegular = true)
    (hx : x.pos ≤ t.cbuf.length) :
    (∃ y, y ∈ matchesAt t dotall re x) ↔ OccursAt (re.language dotall) t.cbuf x.pos := by
  have h := ((outcomes_reads t dotall hregular 1).captured 0) x hx
  constructor
  · rintro ⟨y, hy⟩
    obtain ⟨w, hw, hpre, -⟩ := (h y.pos).mp ⟨y, hy, rfl⟩
    exact ⟨hx, w, hw, hpre⟩
  · rintro ⟨-, w, hw, hpre⟩
    obtain ⟨y, hy, -⟩ := (h _).mpr ⟨w, hw, hpre, rfl⟩
    exact ⟨y, hy⟩

/-- The search finds the language wherever it occurs behind the position. -/
theorem exists_search (hregular : re.isRegular = true) (n : ℕ) (hx : x.pos + n = t.cbuf.length) :
    (∃ y, y ∈ search t dotall re n x) ↔
      ∃ p, x.pos ≤ p ∧ OccursAt (re.language dotall) t.cbuf p := by
  induction n generalizing x with
  | zero =>
    rw [search, exists_matchesAt _ _ hregular (by omega)]
    refine ⟨fun h => ⟨x.pos, le_rfl, h⟩, fun ⟨p, hle, h⟩ => ?_⟩
    obtain rfl : p = x.pos := le_antisymm (by have := h.1; omega) hle
    exact h
  | succ n ih =>
    have hhere := exists_matchesAt t dotall hregular (show x.pos ≤ _ by omega)
    have hnext := ih (x := { x with pos := x.pos + 1 }) (by simp only; omega)
    rw [search]
    simp only [List.mem_append, exists_or, hhere, hnext]
    constructor
    · rintro (h | ⟨p, hle, h⟩)
      · exact ⟨x.pos, le_rfl, h⟩
      · exact ⟨p, (Nat.le_succ _).trans hle, h⟩
    · rintro ⟨p, hle, h⟩
      rcases Nat.eq_or_lt_of_le hle with rfl | hlt
      · exact .inl h
      · exact .inr ⟨p, hlt, h⟩

/-- There is a first match exactly when there is one. -/
theorem firstMatch_ne {L : List MatchState} : firstMatch L ≠ .notFound ↔ ∃ y, y ∈ L := by
  cases L with
  | nil => exact ⟨fun h => absurd rfl h, fun ⟨y, hy⟩ => absurd hy List.not_mem_nil⟩
  | cons y L => exact ⟨fun _ => ⟨y, List.mem_cons_self⟩, fun _ => by simp [firstMatch]⟩

end Search

/-- **The interpreter decides a language**: run on a compiled regular expression, in which the
    atom of a lazy quantifier without a maximum always moves, it comes to an end, and it finds a
    match if and only if a text of the language occurs in the input, at `cindex`, or, without the
    flag `y`, there or later.  The bytecode is shorter than 2^31 bytes. -/
theorem lreExec_language (f : LreFlags) (re : RegExp) (bcBuf cbuf : List ℕ) (cindex : ℕ)
    (hvalid : re.Valid) (hregular : re.isRegular = true) (hcompile : lreCompile f re = .ok bcBuf)
    (hsize : bcBuf.length < 2147483648) (hchars : ∀ c ∈ cbuf, c < uint32Max)
    (hindex : cindex ≤ cbuf.length) :
    ∃ n₀ result, (∀ fuel, n₀ ≤ fuel → lreExec fuel bcBuf cbuf cindex = some result) ∧
      result ≠ .fault ∧ (result ≠ .notFound ↔
        ∃ p, cindex ≤ p ∧ (f.sticky = true → p = cindex) ∧
          OccursAt (re.language f.dotall) cbuf p) := by
  obtain ⟨n₀, hrun⟩ := lreCompile_returns f re bcBuf cbuf cindex hvalid hcompile hsize hchars hindex
  refine ⟨n₀, _, hrun, ?_, ?_⟩
  · cases matchesFrom f re cbuf cindex <;> simp [firstMatch]
  rw [firstMatch_ne, matchesFrom]
  cases hsticky : f.sticky with
  | true =>
    rw [if_pos rfl, exists_matchesAt _ _ hregular hindex]
    refine ⟨fun h => ⟨cindex, le_rfl, fun _ => rfl, h⟩, fun ⟨p, _, hp, h⟩ => ?_⟩
    exact hp rfl ▸ h
  | false =>
    rw [if_neg Bool.false_ne_true, exists_search hregular _ (by simp only; omega)]
    exact ⟨fun ⟨p, hle, h⟩ => ⟨p, hle, fun hfalse => absurd hfalse Bool.false_ne_true, h⟩,
      fun ⟨p, hle, _, h⟩ => ⟨p, hle, h⟩⟩

/-- `/a*b/` in `xaab`. -/
theorem lreExec_language_sample :
    ∃ n₀ result, (∀ fuel, n₀ ≤ fuel →
      lreExec fuel
        [0, 1, 0, 40, 0, 0, 0, 8, 6, 0, 0, 0, 4, 7, 245, 255, 255, 255, 11, 0, 28, 4, 0, 0, 0, 0, 0,
          0, 0, 255, 255, 255, 127, 1, 0, 0, 0, 1, 97, 0, 10, 1, 98, 0, 12, 0, 10]
        [0x78, 0x61, 0x61, 0x62] 0 = some result) ∧
      result ≠ .fault ∧ (result ≠ .notFound ↔
        ∃ p, 0 ≤ p ∧ (false = true → p = 0) ∧
          OccursAt ((RegExp.seq (.quant (.char 0x61) 0 int32Max true) (.char 0x62)).language false)
            [0x78, 0x61, 0x61, 0x62] p) :=
  lreExec_language ⟨false, false, false⟩
    (.seq (.quant (.char 0x61) 0 int32Max true) (.char 0x62)) _ _ 0
    (by simp [RegExp.Valid, uint32Max]) rfl rfl (by decide) (by decide) (by decide)

end VideoPackages.Regexp
