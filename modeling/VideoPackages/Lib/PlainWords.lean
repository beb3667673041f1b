import VideoPackages.Lib.Words

namespace VideoPackages.Words

open Glob (joined)

/-!
# What is read back unchanged

A text that is split into words and printed again has lost its quotes, its escape characters
and all separators but one between two words.

* `run_countP` — an ordinary character is neither lost nor made up;
* `printed_alone_iff` — a line is printed as it is exactly when it is `Plain`: words of
  characters that stand for themselves, with one joining character between them;
* `printed_between_iff` — a plain line is printed as it is from among other lines exactly when
  these hold nothing but what is skipped.
-/

/-! ### Joined words -/

section Joined

variable {α : Type*} {sp : α}

/-- One word more. -/
theorem joined_concat (ws : List (List α)) (w : List α) :
    joined sp (ws ++ [w]) = if ws = [] then w else joined sp ws ++ sp :: w := by
  induction ws with
  | nil => rfl
  | cons v ws ih =>
    cases ws with
    | nil => rfl
    | cons u ws =>
      show v ++ sp :: joined sp (u :: ws ++ [w]) = _
      rw [ih, if_neg (by simp), if_neg (by simp)]
      simp [joined]

/-- A character of the last word is the last character. -/
theorem joined_snoc (ws : List (List α)) (w : List α) (c : α) :
    joined sp (ws ++ [w ++ [c]]) = joined sp (ws ++ [w]) ++ [c] := by
  rw [joined_concat, joined_concat]
  split <;> simp

/-- The last word has no `join` behind it, the others have one. -/
theorem joined_eq_flatMap (ws : List (List α)) (w : List α) :
    joined sp (ws ++ [w]) = ws.flatMap (· ++ [sp]) ++ w := by
  induction ws using List.reverseRecOn generalizing w with
  | nil => rfl
  | append_singleton ws v ih =>
    rw [joined_concat, if_neg (by simp), ih]
    simp

/-- One word more is written behind the others. -/
theorem joined_prefix_concat (ws : List (List α)) (w : List α) :
    joined sp ws <+: joined sp (ws ++ [w]) := by
  rw [joined_concat]
  split
  · next h => rw [h]; exact List.nil_prefix
  · exact List.prefix_append _ _

/-- Characters are counted word by word, if `join` does not count. -/
theorem countP_joined_concat {p : α → Bool} (hp : p sp = false) (ws : List (List α))
    (w : List α) :
    (joined sp (ws ++ [w])).countP p = (joined sp ws).countP p + w.countP p := by
  rw [joined_concat]
  split
  · next h => simp [h, joined]
  · simp [hp]

end Joined

namespace Quoting

variable {α : Type*} [DecidableEq α] {σ : Quoting α} {r r' : Reader σ} {c : α} {s t : List α}

/-! ### What one character does -/

/-- One character is dropped, joins the word that has been begun, or begins a word. -/
theorem step_words (h : σ.step r c = some r') :
    r'.words = r.words ∨ (∃ d w, r.words = d ++ [w] ∧ r'.words = d ++ [w ++ [c]]) ∨
      r'.words = r.words ++ [[]] ∨ r'.words = r.words ++ [[c]] := by
  obtain ⟨done, mode⟩ := r
  cases mode with
  | between =>
    rw [step_between] at h
    split at h
    · cases h; exact .inl rfl
    · cases h
      -- an escape or a quote begins an empty word, any other character begins a word
      unfold take
      split
      · exact .inr (.inr (.inl (by simp [Reader.words, Mode.current])))
      · split
        · exact .inr (.inr (.inl (by simp [Reader.words, Mode.current])))
        · exact .inr (.inr (.inr (by simp [Reader.words, Mode.current])))
  | word w =>
    rw [step_word] at h
    split at h
    · cases h; exact .inl (by simp [Reader.words, Mode.current])
    · cases h
      unfold take
      split
      · exact .inl rfl
      · split
        · exact .inl rfl
        · exact .inr (.inl ⟨done, w, rfl, rfl⟩)
  | quoted q hq w =>
    rw [step_quoted] at h
    split at h
    · cases h; exact .inl rfl
    · split at h
      · cases h
      · cases h; exact .inr (.inl ⟨done, w, rfl, rfl⟩)
  | escaped w =>
    cases h
    exact .inr (.inl ⟨done, w, rfl, rfl⟩)

/-- What has been read so far, as it will be printed. -/
def shown (σ : Quoting α) (r : Reader σ) : List α := joined σ.join r.words

/-- A character adds to what is shown, or leaves it as it is. -/
theorem step_shown (h : σ.step r c = some r') : σ.shown r <+: σ.shown r' := by
  unfold shown
  rcases step_words h with h | ⟨d, w, hr, hr'⟩ | h | h
  · rw [h]
  · rw [hr, hr', joined_snoc]
    exact List.prefix_append _ _
  · rw [h]; exact joined_prefix_concat _ _
  · rw [h]; exact joined_prefix_concat _ _

/-- **Nothing is taken back.** -/
theorem run_shown (h : σ.run r s = some r') : σ.shown r <+: σ.shown r' := by
  induction s generalizing r with
  | nil => cases h; exact List.prefix_rfl
  | cons c s ih =>
    obtain ⟨r₁, h₁, h₂⟩ := run_cons_some.mp h
    exact (step_shown h₁).trans (ih h₂)

/-- An ordinary character is never dropped. -/
theorem step_ordinary (hc : σ.ordinary c = true) (h : σ.step r c = some r') :
    (∃ d w, r.words = d ++ [w] ∧ r'.words = d ++ [w ++ [c]]) ∨
      r'.words = r.words ++ [[c]] := by
  obtain ⟨hskip, hinner⟩ := ordinary_iff_inner.mp hc
  obtain ⟨hsep, hquote, -⟩ := inner_iff.mp hinner
  obtain ⟨done, mode⟩ := r
  cases mode with
  | between =>
    rw [step_between, if_neg (by simp [hskip]), take_inner hinner] at h
    cases h; exact .inr (by simp [Reader.words, Mode.current])
  | word w =>
    rw [step_word, if_neg (by simp [hsep]), take_inner hinner] at h
    cases h; exact .inl ⟨done, w, rfl, rfl⟩
  | quoted q hq w =>
    rw [step_quoted] at h
    split at h
    · -- an ordinary character ends no quote
      next hcq => rw [hcq, hq] at hquote; cases hquote
    · split at h
      · cases h
      · cases h; exact .inl ⟨done, w, rfl, rfl⟩
  | escaped w =>
    cases h
    exact .inl ⟨done, w, rfl, rfl⟩

/-- Ordinary characters, one at a time. -/
theorem step_countP {p : α → Bool} (hp : ∀ a, p a = true → σ.ordinary a = true)
    (h : σ.step r c = some r') :
    (σ.shown r').countP p = (σ.shown r).countP p + [c].countP p := by
  have hjoin : p σ.join = false := by
    by_contra hj
    have hskip := (ordinary_iff.mp (hp _ (by simpa using hj))).1
    rw [σ.skip_sep _ σ.sep_join] at hskip; cases hskip
  unfold shown
  by_cases hc : p c = true
  · rcases step_ordinary (hp c hc) h with ⟨d, w, hr, hr'⟩ | hr'
    · rw [hr, hr', joined_snoc, List.countP_append]
    · rw [hr', countP_joined_concat hjoin]
  · have hzero : [c].countP p = 0 := by simp [hc]
    rcases step_words h with hr' | ⟨d, w, hr, hr'⟩ | hr' | hr'
    · rw [hr', hzero]; rfl
    · rw [hr, hr', joined_snoc, List.countP_append]
    · rw [hr', countP_joined_concat hjoin, hzero]; rfl
    · rw [hr', countP_joined_concat hjoin]

/-- **Ordinary characters are neither lost nor made up.** -/
theorem run_countP {p : α → Bool} (hp : ∀ a, p a = true → σ.ordinary a = true)
    (h : σ.run r s = some r') :
    (σ.shown r').countP p = (σ.shown r).countP p + s.countP p := by
  induction s generalizing r with
  | nil => cases h; rfl
  | cons c s ih =>
    obtain ⟨r₁, h₁, h₂⟩ := run_cons_some.mp h
    have hcons : ([c] ++ s).countP p = [c].countP p + s.countP p := List.countP_append
    rw [List.singleton_append] at hcons
    rw [ih h₂, step_countP hp h₁, hcons, Nat.add_assoc]

/-! ### Texts that are read back unchanged -/

/-- A word that stands for itself: the character that begins it is not skipped. -/
structure PlainWord (σ : Quoting α) (w : List α) : Prop where
  head : ∃ c, w.head? = some c ∧ σ.skip c = false
  inner : ∀ c ∈ w, σ.inner c = true

/-- Such words, with one `join` between two words and none at the ends. -/
def Plain (σ : Quoting α) (v : List α) : Prop :=
  ∃ ws, v = joined σ.join ws ∧ ∀ w ∈ ws, σ.PlainWord w

/-- Only characters that stand for themselves are being read, so far. -/
structure Clean (σ : Quoting α) (r : Reader σ) : Prop where
  words : ∀ w ∈ r.words, σ.PlainWord w
  mode : r.mode = .between ∨ ∃ w, r.mode = .word w

/-- A character for every character read, and one for the separator after each word. -/
def weight (r : Reader σ) : ℕ :=
  (r.done.flatMap (· ++ [σ.join])).length + r.mode.current.flatten.length

omit [DecidableEq α] in
/-- What is shown is no longer than its weight. -/
theorem shown_length_le (r : Reader σ) : (σ.shown r).length ≤ σ.weight r := by
  obtain ⟨done, mode⟩ := r
  unfold shown weight Reader.words
  cases mode with
  | between =>
    cases done using List.reverseRecOn with
    | nil => exact Nat.le_refl _
    | append_singleton ws w =>
      rw [Mode.current, List.append_nil, joined_eq_flatMap]
      simp
  | word w => simp [Mode.current, joined_eq_flatMap]
  | quoted q hq w => simp [Mode.current, joined_eq_flatMap]
  | escaped w => simp [Mode.current, joined_eq_flatMap]

/-- A character of a word adds one at most, and exactly one if it stands for itself. -/
theorem take_weight (d : List (List α)) (w : List α) (c : α) :
    σ.weight ⟨d, σ.take w c⟩ ≤ σ.weight ⟨d, .word w⟩ + 1 ∧
      (σ.weight ⟨d, σ.take w c⟩ = σ.weight ⟨d, .word w⟩ + 1 →
        σ.take w c = .word (w ++ [c]) ∧ σ.quote c = false ∧ c ≠ σ.esc) := by
  unfold take
  split
  · simp [weight, Mode.current]
  · next hesc =>
    split
    · simp [weight, Mode.current]
    · next hquote =>
      exact ⟨by simp [weight, Mode.current]; omega, fun _ => ⟨rfl, by simpa using hquote, hesc⟩⟩

/-- A plain word begins with a character that is not skipped. -/
theorem PlainWord.begun (hskip : σ.skip c = false) (hc : σ.inner c = true) : σ.PlainWord [c] :=
  ⟨⟨c, rfl, hskip⟩, by simpa using hc⟩

/-- A plain word goes on with a character that stands for itself. -/
theorem PlainWord.concat {w : List α} (hw : σ.PlainWord w) (hc : σ.inner c = true) :
    σ.PlainWord (w ++ [c]) := by
  obtain ⟨a, ha, hskip⟩ := hw.head
  refine ⟨⟨a, by rw [List.head?_append, ha]; rfl, hskip⟩, fun b hb => ?_⟩
  rcases List.mem_append.mp hb with hb | hb
  · exact hw.inner b hb
  · cases List.mem_singleton.mp hb; exact hc

/-- After plain words, and with a plain word begun, all has stood for itself. -/
theorem clean_word {d : List (List α)} {w : List α} (hd : ∀ v ∈ d, σ.PlainWord v)
    (hw : σ.PlainWord w) : σ.Clean ⟨d, .word w⟩ := by
  refine ⟨fun v hv => ?_, .inr ⟨_, rfl⟩⟩
  rcases List.mem_append.mp hv with hv | hv
  · exact hd v hv
  · cases List.mem_singleton.mp hv; exact hw

/-- A character adds one at most, and where each adds one, each has stood for itself. -/
theorem step_weight (h : σ.step r c = some r') :
    σ.weight r' ≤ σ.weight r + 1 ∧
      (σ.weight r' = σ.weight r + 1 → σ.Clean r → σ.Clean r') := by
  obtain ⟨done, mode⟩ := r
  cases mode with
  | between =>
    rw [step_between] at h
    split at h
    · cases h
      exact ⟨Nat.le_succ _, fun hw => absurd hw (by omega)⟩
    · next hskip =>
      cases h
      have hskip : σ.skip c = false := by simpa using hskip
      -- between two words, nothing has been begun yet
      have hempty : σ.weight ⟨done, .word []⟩ = σ.weight ⟨done, .between⟩ := rfl
      obtain ⟨hle, heq⟩ := take_weight (σ := σ) done [] c
      refine ⟨hempty ▸ hle, fun hw hr => ?_⟩
      obtain ⟨htake, hquote, hesc⟩ := heq (hempty ▸ hw)
      have hc : σ.inner c = true := inner_iff.mpr ⟨sep_of_not_skip hskip, hquote, hesc⟩
      rw [htake]
      exact clean_word (fun v hv => hr.words v (List.mem_append_left _ hv)) (.begun hskip hc)
  | word w =>
    rw [step_word] at h
    split at h
    · cases h
      -- the separator pays for the `join` behind its word
      refine ⟨by simp [weight, Mode.current]; omega, fun _ hr => ⟨?_, .inl rfl⟩⟩
      simpa [Reader.words, Mode.current] using hr.words
    · next hsep =>
      cases h
      obtain ⟨hle, heq⟩ := take_weight (σ := σ) done w c
      refine ⟨hle, fun hw hr => ?_⟩
      obtain ⟨htake, hquote, hesc⟩ := heq hw
      have hc : σ.inner c = true := inner_iff.mpr ⟨by simpa using hsep, hquote, hesc⟩
      have hword := hr.words w (List.mem_append_right _ (List.mem_singleton_self w))
      rw [htake]
      exact clean_word (fun v hv => hr.words v (List.mem_append_left _ hv)) (hword.concat hc)
  | quoted q hq w =>
    -- within quotes, and behind an escape, the text is not clean any more
    refine ⟨?_, fun _ hr => ?_⟩
    · rw [step_quoted] at h
      split at h
      · cases h; simp [weight, Mode.current]
      · split at h
        · cases h
        · cases h; simp [weight, Mode.current]; omega
    · rcases hr.mode with hm | ⟨_, hm⟩ <;> cases hm
  | escaped w =>
    refine ⟨?_, fun _ hr => ?_⟩
    · cases h; simp [weight, Mode.current]; omega
    · rcases hr.mode with hm | ⟨_, hm⟩ <;> cases hm

/-- So for a text: its length bounds the weight. -/
theorem run_weight (h : σ.run r s = some r') :
    σ.weight r' ≤ σ.weight r + s.length ∧
      (σ.weight r' = σ.weight r + s.length → σ.Clean r → σ.Clean r') := by
  induction s generalizing r with
  | nil => cases h; exact ⟨Nat.le_refl _, fun _ hr => hr⟩
  | cons c s ih =>
    obtain ⟨r₁, h₁, h₂⟩ := run_cons_some.mp h
    obtain ⟨hstep, hclean⟩ := step_weight h₁
    obtain ⟨hle, hrest⟩ := ih h₂
    rw [List.length_cons]
    refine ⟨by omega, fun hw hr => hrest (by omega) (hclean (by omega) hr)⟩

/-- An end of a line that is read last adds nothing but itself, if it was escaped. -/
theorem finish_eol {ws : List (List α)} (h : σ.step r σ.eol = some r')
    (hws : σ.finish r' = some ws) :
    joined σ.join ws = σ.shown r ∨ joined σ.join ws = σ.shown r ++ [σ.eol] := by
  rw [finish_words hws, shown]
  rcases step_eol h with ⟨-, hw⟩ | ⟨d, w, hr, rfl⟩
  · exact .inl (by rw [hw])
  · rw [hr]
    exact .inr (joined_snoc d w σ.eol)

/-- **Reading does not add.**  What is printed for a line is no longer than the line; and if
    it is not shorter, it is plain. -/
theorem printed_length {v : List α} (h : σ.printed (s ++ [σ.eol]) = some v) :
    v.length ≤ s.length ∧ (v.length = s.length → σ.Plain v) := by
  obtain ⟨ws, hws, rfl⟩ := Option.map_eq_some_iff.mp h
  obtain ⟨r', hrun, hfin⟩ := Option.bind_eq_some_iff.mp hws
  obtain ⟨r, hr, hr'⟩ := run_append_some.mp hrun
  rw [run_singleton] at hr'
  have hchomp : σ.chomp (joined σ.join ws) = σ.chomp (σ.shown r) := by
    rcases finish_eol hr' hfin with h | h
    · rw [h]
    · rw [h, chomp, List.rdropWhile_concat_pos _ _ _ (by simp)]; rfl
  have hprefix : σ.chomp (σ.shown r) <+: σ.shown r := List.rdropWhile_prefix _ _
  have hshown := shown_length_le r
  obtain ⟨hweight, hclean⟩ := run_weight hr
  have hstart : σ.weight ⟨[], .between⟩ = 0 := rfl
  have hle := hprefix.length_le
  rw [hchomp]
  refine ⟨by omega, fun heq => ⟨r.words, ?_, ?_⟩⟩
  · exact hprefix.eq_of_length (by omega)
  · have hstartClean : σ.Clean ⟨[], .between⟩ := ⟨by simp [Reader.words, Mode.current], .inl rfl⟩
    exact (hclean (by omega) hstartClean).words

/-! ### Plain texts, and what stands around them -/

/-- A plain word, up to the separator behind it. -/
theorem run_plainWord {d : List (List α)} {w : List α} (hw : σ.PlainWord w)
    (hc : σ.sep c = true) :
    σ.run ⟨d, .between⟩ (w ++ [c]) = some ⟨d ++ [w], .between⟩ := by
  obtain ⟨a, ha, hskip⟩ := hw.head
  have hword : σ.run ⟨d, .between⟩ w = some ⟨d, .word w⟩ := by
    obtain ⟨w, rfl⟩ : ∃ t, w = a :: t := by
      cases w <;> cases ha; exact ⟨_, rfl⟩
    have hall := List.forall_mem_cons.mp hw.inner
    rw [run_cons, step_between, if_neg (by simp [hskip]), take_inner hall.1]
    exact run_inner hall.2
  rw [run_append, hword]
  show σ.run ⟨d, .word w⟩ [c] = _
  rw [run_singleton, step_word, if_pos hc]

/-- A line of plain words is read as these words. -/
theorem run_plain {d ws : List (List α)} (hws : ∀ w ∈ ws, σ.PlainWord w) :
    σ.run ⟨d, .between⟩ (joined σ.join ws ++ [σ.eol]) = some ⟨d ++ ws, .between⟩ := by
  induction ws generalizing d with
  | nil => rw [List.append_nil]; exact run_skip (by simp [joined, σ.skip_sep _ σ.sep_eol])
  | cons w ws ih =>
    rw [List.forall_mem_cons] at hws
    cases ws with
    | nil => exact run_plainWord hws.1 σ.sep_eol
    | cons v ws =>
      have hsplit : joined σ.join (w :: v :: ws) ++ [σ.eol]
          = (w ++ [σ.join]) ++ (joined σ.join (v :: ws) ++ [σ.eol]) := by simp [joined]
      rw [hsplit, run_append, run_plainWord hws.1 σ.sep_join]
      show σ.run ⟨d ++ [w], .between⟩ _ = _
      rw [ih hws.2, List.append_assoc]; rfl

/-- A plain text is one line. -/
theorem Plain.eol_notMem {v : List α} (hv : σ.Plain v) : σ.eol ∉ v := by
  obtain ⟨ws, rfl, hws⟩ := hv
  induction ws with
  | nil => simp [joined]
  | cons w ws ih =>
    rw [List.forall_mem_cons] at hws
    have hw : σ.eol ∉ w := by
      intro hmem
      have hsep := (inner_iff.mp (hws.1.inner _ hmem)).1
      rw [σ.sep_eol] at hsep; cases hsep
    cases ws with
    | nil => exact hw
    | cons v ws => simp [joined, hw, σ.join_ne_eol.symm, ih hws.2]

/-- A plain text begins with an ordinary character. -/
theorem Plain.head {v : List α} (hv : σ.Plain v) (hne : v ≠ []) :
    ∃ c, v.head? = some c ∧ σ.ordinary c = true := by
  obtain ⟨ws, rfl, hws⟩ := hv
  cases ws with
  | nil => exact absurd rfl hne
  | cons w ws =>
    have hw := hws w List.mem_cons_self
    obtain ⟨c, hc, hskip⟩ := hw.head
    refine ⟨c, ?_, ordinary_iff_inner.mpr ⟨hskip, hw.inner c (List.mem_of_mem_head? hc)⟩⟩
    cases ws with
    | nil => exact hc
    | cons v ws => rw [joined, List.head?_append, hc]; rfl

/-- A text without an end of a line is left as it is. -/
theorem chomp_self {v : List α} (h : σ.eol ∉ v) : σ.chomp v = v := by
  rw [chomp, List.rdropWhile_eq_self_iff]
  intro hne heq
  exact h (of_decide_eq_true heq ▸ List.getLast_mem hne)

/-- A plain text is printed as it is, whatever is skipped around it. -/
theorem printed_plain {b l a v : List α} (hv : σ.Plain v) (hb : ∀ c ∈ b, σ.skip c = true)
    (hl : ∀ c ∈ l, σ.skip c = true) (ha : ∀ c ∈ a, σ.skip c = true) :
    σ.printed (b ++ (l ++ v ++ [σ.eol]) ++ a) = some v := by
  have heol := hv.eol_notMem
  obtain ⟨ws, rfl, hws⟩ := hv
  have hrun : σ.run ⟨[], .between⟩ (b ++ (l ++ joined σ.join ws ++ [σ.eol]) ++ a)
      = some ⟨ws, .between⟩ := by
    refine run_append_some.mpr ⟨_, run_append_some.mpr ⟨_, run_skip hb, ?_⟩, run_skip ha⟩
    rw [List.append_assoc]
    exact run_append_some.mpr ⟨_, run_skip hl, run_plain hws⟩
  have hwords : σ.words (b ++ (l ++ joined σ.join ws ++ [σ.eol]) ++ a) = some ws := by
    rw [words, hrun]
    exact congrArg some (List.append_nil ws)
  rw [printed, hwords]
  exact congrArg some (chomp_self heol)

/-- What is skipped in front of a text makes no difference. -/
theorem printed_skip_append {l : List α} (hl : ∀ c ∈ l, σ.skip c = true) (s : List α) :
    σ.printed (l ++ s) = σ.printed s := by
  have hrun : σ.run ⟨[], .between⟩ (l ++ s) = σ.run ⟨[], .between⟩ s := by
    rw [run_append, run_skip hl]; rfl
  rw [printed, printed, words, words, hrun]

/-- **A line alone.**  A line that begins `v` is printed as `v` exactly when it is `v`, and
    plain. -/
theorem printed_alone_iff {l u v : List α} (hl : ∀ c ∈ l, σ.skip c = true) (hu : u <+: v) :
    σ.printed (l ++ u ++ [σ.eol]) = some v ↔ u = v ∧ σ.Plain v := by
  constructor
  · intro h
    rw [List.append_assoc, printed_skip_append hl] at h
    obtain ⟨hle, hplain⟩ := printed_length h
    have huv : u = v := hu.eq_of_length (Nat.le_antisymm hu.length_le hle)
    exact ⟨huv, hplain (by rw [huv])⟩
  · rintro ⟨rfl, hv⟩
    simpa using printed_plain (b := []) (a := []) hv (by simp) hl (by simp)

/-- No word is taken back. -/
theorem run_length (h : σ.run r s = some r') : r.words.length ≤ r'.words.length := by
  induction s generalizing r with
  | nil => cases h; exact Nat.le_refl _
  | cons c s ih =>
    obtain ⟨r₁, h₁, h₂⟩ := run_cons_some.mp h
    refine Nat.le_trans ?_ (ih h₂)
    rcases step_words h₁ with hr | ⟨d, w, hr, hr'⟩ | hr | hr
    · rw [hr]
    · simp [hr, hr']
    · simp [hr]
    · simp [hr]

/-- Between two words, what follows is all skipped, or begins another word. -/
theorem run_between {d : List (List α)} (h : σ.run ⟨d, .between⟩ s = some r') :
    ((∀ c ∈ s, σ.skip c = true) ∧ r' = ⟨d, .between⟩) ∨
      ∃ w, σ.shown ⟨d ++ [w], .between⟩ <+: σ.shown r' ∧ d.length < r'.words.length := by
  induction s with
  | nil => cases h; exact .inl ⟨by simp, rfl⟩
  | cons c s ih =>
    obtain ⟨r₁, h₁, h₂⟩ := run_cons_some.mp h
    rw [step_between] at h₁
    split at h₁
    · next hc =>
      cases h₁
      rcases ih h₂ with ⟨hs, hr'⟩ | hmore
      · exact .inl ⟨List.forall_mem_cons.mpr ⟨hc, hs⟩, hr'⟩
      · exact .inr hmore
    · cases h₁
      -- whatever the character is, it has begun a word
      have hbegun : ∃ w, (⟨d, σ.take [] c⟩ : Reader σ).words = d ++ [w] := by
        unfold take
        split
        · exact ⟨_, rfl⟩
        · split <;> exact ⟨_, rfl⟩
      obtain ⟨w, hw⟩ := hbegun
      refine .inr ⟨w, ?_, ?_⟩
      · have hshown : σ.shown ⟨d ++ [w], .between⟩ = σ.shown ⟨d, σ.take [] c⟩ := by
          unfold shown
          rw [hw]
          simp [Reader.words, Mode.current]
        rw [hshown]
        exact run_shown h₂
      · have hlen := run_length h₂
        rw [hw] at hlen
        simp at hlen; omega

/-- If nothing has been shown at the end of a line, and what is shown later begins with an
    ordinary character, then all has been skipped: an empty word would have shown `join`. -/
theorem skip_of_shown_nil (h : σ.run ⟨[], .between⟩ s = some r) (hnil : σ.shown r = [])
    (hs : s = [] ∨ ∃ u, s = u ++ [σ.eol]) (hrun : σ.run r t = some r')
    (hc : (σ.shown r').head? = some c) (hord : σ.ordinary c = true) :
    ∀ a ∈ s, σ.skip a = true := by
  rcases hs with rfl | ⟨u, rfl⟩
  · simp
  · obtain ⟨r₀, -, h₁⟩ := run_append_some.mp h
    rw [run_singleton] at h₁
    obtain ⟨done, mode⟩ := r
    -- had the end of the line been escaped, it would have been shown
    have hmode : mode = .between := by
      rcases step_eol h₁ with ⟨hm, -⟩ | ⟨d, w, -, hr⟩
      · exact hm
      · rw [hr] at hnil
        exact absurd (hnil.symm.trans (joined_snoc d w σ.eol)) (by simp)
    subst hmode
    rcases run_between h with ⟨hsep, -⟩ | ⟨-, -, hlen⟩
    · exact hsep
    · -- one word has been read, the empty one, and the next one comes after `join`
      exfalso
      have hdone : done = [[]] := by
        unfold shown Reader.words at hnil
        simp only [Mode.current, List.append_nil] at hnil
        cases done with
        | nil => exact absurd hlen (by simp [Reader.words, Mode.current])
        | cons w ws =>
          cases ws with
          | nil => rw [show w = [] from hnil]
          | cons v ws => exact absurd hnil (by simp [joined])
      subst hdone
      rcases run_between hrun with ⟨-, rfl⟩ | ⟨w, ⟨x, hx⟩, -⟩
      · cases hc
      · rw [← hx] at hc
        cases hc
        have hj := (ordinary_iff.mp hord).1
        rw [σ.skip_sep _ σ.sep_join] at hj; cases hj

/-- What is printed has been shown, with nothing after it but ends of lines. -/
theorem printed_some {v : List α} (h : σ.printed s = some v) :
    ∃ r z, σ.run ⟨[], .between⟩ s = some r ∧ σ.shown r = v ++ z ∧ ∀ c ∈ z, c = σ.eol := by
  obtain ⟨ws, hws, hstrip⟩ := Option.map_eq_some_iff.mp h
  obtain ⟨r, hrun, hfin⟩ := Option.bind_eq_some_iff.mp hws
  rw [finish_words hfin] at hstrip
  have hsplit : v ++ (σ.shown r).rtakeWhile (fun c => decide (c = σ.eol)) = σ.shown r := by
    rw [← hstrip]
    exact List.rdropWhile_append_rtakeWhile
  refine ⟨r, _, hrun, hsplit.symm, fun c hc => ?_⟩
  simpa using List.mem_rtakeWhile_imp hc

/-- What is shown of a text begins with its first ordinary character, if all in front of it is
    skipped. -/
theorem words_head {l : List α} {ws : List (List α)} (hl : ∀ a ∈ l, σ.skip a = true)
    (hc : σ.ordinary c = true) (h : σ.words (l ++ c :: s) = some ws) :
    (joined σ.join ws).head? = some c := by
  obtain ⟨r, hrun, hfin⟩ := Option.bind_eq_some_iff.mp h
  obtain ⟨hskip, hinner⟩ := ordinary_iff_inner.mp hc
  rw [run_append, run_skip hl] at hrun
  obtain ⟨r₁, h₁, h₂⟩ := run_cons_some.mp hrun
  rw [step_between, if_neg (by simp [hskip]), take_inner hinner] at h₁
  cases h₁
  obtain ⟨x, hx⟩ := run_shown h₂
  rw [finish_words hfin, ← shown, ← hx]; rfl

/-- Printing keeps the ordinary characters. -/
theorem printed_countP {v : List α} (h : σ.printed s = some v) :
    v.countP σ.ordinary = s.countP σ.ordinary := by
  obtain ⟨r, z, hrun, hshown, hz⟩ := printed_some h
  have hzero : z.countP σ.ordinary = 0 := by
    rw [List.countP_eq_zero]
    intro a ha hord
    have hskip := (ordinary_iff.mp hord).1
    rw [hz a ha, σ.skip_sep _ σ.sep_eol] at hskip; cases hskip
  have hcount := run_countP (fun _ h => h) hrun
  have hstart : (σ.shown ⟨[], .between⟩).countP σ.ordinary = 0 := rfl
  rw [hshown, List.countP_append, hzero, hstart] at hcount
  omega

/-- What stands in front of a text that is printed from an ordinary character on. -/
theorem skip_before {b v : List α} (h : σ.printed (b ++ s) = some v)
    (hb : b = [] ∨ ∃ u, b = u ++ [σ.eol]) (hcount : b.countP σ.ordinary = 0)
    (hc : v.head? = some c) (hord : σ.ordinary c = true) : ∀ a ∈ b, σ.skip a = true := by
  obtain ⟨r', z, hrun, hshown, -⟩ := printed_some h
  obtain ⟨r, hrunb, hruns⟩ := run_append_some.mp hrun
  have hhead : (σ.shown r').head? = some c := by
    rw [hshown, List.head?_append, hc]; rfl
  -- what has been shown so far has no ordinary character, and yet begins what is printed
  have hzero := run_countP (fun _ h => h) hrunb
  have hstart : (σ.shown ⟨[], .between⟩).countP σ.ordinary = 0 := rfl
  rw [hstart, hcount, Nat.add_zero, List.countP_eq_zero] at hzero
  have hnil : σ.shown r = [] := by
    obtain ⟨x, hx⟩ := run_shown hruns
    cases hr : σ.shown r with
    | nil => rfl
    | cons e t =>
      rw [← hx, hr] at hhead
      have he : e = c := Option.some.inj hhead
      exact absurd hord (hzero c (by rw [hr, he]; exact List.mem_cons_self))
  exact skip_of_shown_nil hrunb hnil hb hruns hhead hord

/-- What stands behind a plain line that is printed as it is. -/
theorem skip_after {l v a : List α} (hv : σ.Plain v) (hne : v ≠ [])
    (hl : ∀ c ∈ l, σ.skip c = true) (h : σ.printed ((l ++ v ++ [σ.eol]) ++ a) = some v) :
    ∀ c ∈ a, σ.skip c = true := by
  obtain ⟨r', z, hrun, hshown, hz⟩ := printed_some h
  obtain ⟨r, hline, ha⟩ := run_append_some.mp hrun
  -- the splitter is where the plain text leaves it
  obtain ⟨ws, rfl, hws⟩ := hv
  rw [List.append_assoc, run_append, run_skip hl] at hline
  cases (run_plain hws).symm.trans hline
  rcases run_between ha with ⟨hsep, -⟩ | ⟨w, ⟨x, hx⟩, -⟩
  · exact hsep
  · -- another word would have put `join` after the text
    exfalso
    have hwsne : ws ≠ [] := by
      rintro rfl; exact hne rfl
    have hjoin : σ.shown ⟨[] ++ ws ++ [w], .between⟩ = joined σ.join ws ++ σ.join :: w := by
      unfold shown
      simp [Reader.words, Mode.current, joined_concat, hwsne]
    rw [hshown, hjoin, List.append_assoc, List.append_cancel_left_eq] at hx
    exact σ.join_ne_eol (hz _ (by rw [← hx]; exact List.mem_cons_self))

/-- **A line among others.**  A plain text is printed as it is exactly when the other lines
    are skipped: what is quoted or escaped there cannot make up for anything. -/
theorem printed_between_iff {b l v a : List α} (hv : σ.Plain v) (hne : v ≠ [])
    (hb : b = [] ∨ ∃ u, b = u ++ [σ.eol]) (hl : ∀ c ∈ l, σ.skip c = true) :
    σ.printed (b ++ (l ++ v ++ [σ.eol]) ++ a) = some v ↔
      (∀ c ∈ b, σ.skip c = true) ∧ ∀ c ∈ a, σ.skip c = true := by
  refine ⟨fun h => ?_, fun ⟨hbs, has⟩ => printed_plain hv hbs hl has⟩
  obtain ⟨c, hc, hord⟩ := hv.head hne
  -- the ordinary characters are those of `v`, so the other lines have none
  have hcount := printed_countP h
  simp only [List.countP_append] at hcount
  rw [List.append_assoc] at h
  have hbs := skip_before h hb (by omega) hc hord
  rw [printed_skip_append hbs] at h
  exact ⟨hbs, skip_after hv hne hl h⟩

end Quoting

end VideoPackages.Words
