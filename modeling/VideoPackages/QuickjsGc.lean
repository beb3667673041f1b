import Mathlib.Logic.Function.Basic
import VideoPackages.Lib.RefGraph
import VideoPackages.Lib.Traverse

namespace VideoPackages.Gc

open RefGraph Traverse

/-!
# The garbage collector of QuickJS: what is garbage

QuickJS counts references, and now and then looks for cycles: `gc_decref` takes away the
references that GC objects have to each other, and moves what has none left to `tmp_obj_list`;
`gc_scan` gives the references back, first those of the objects that are kept, so that what they
refer to is kept as well.

* `JSRuntime` — the part of the runtime that the collector works on.  The objects are of any type
  `N`; `Layout` says what kind each is of, and which objects it refers to;
* `gcDecref_spec` — what is left in the counts are the references from outside;
* `gcScan_spec` — exactly what can be reached from outside is kept, and the counts are restored.

An assertion that does not hold, a list walked from an element that is not in it, and a reference
to what was freed are `none`.  Counts are natural numbers: they are taken to fit into an `int`.
No object is the key of a `WeakMap` or in a `WeakSet`: `first_weak_ref` is `NULL` throughout.
-/

/-- `JS_GC_OBJ_TYPE_*`. -/
inductive JSGCObjectTypeEnum where
  | jsObject
  | functionBytecode
  | shape
  | varRef
  | asyncFunction
  | jsContext
  deriving DecidableEq, Repr

/-- `JS_GC_PHASE_*`. -/
inductive JSGCPhaseEnum where
  | none
  | decref
  | removeCycles
  deriving DecidableEq, Repr

/-- The GC objects: what `mark_children` calls `mark_func` on, and what is given up, one reference
    after the other, when an object is freed (without weak references). -/
structure Layout (N : Type*) where
  gcObjType : N → JSGCObjectTypeEnum
  markChildren : N → List N
  freeChildren : N → List N

/-- What the collector uses of the runtime. -/
structure JSRuntime (N : Type*) where
  refCount : N → ℕ
  mark : N → Bool
  gcObjList : List N
  tmpObjList : List N
  gcZeroRefCountList : List N
  gcPhase : JSGCPhaseEnum
  /-- What was given back with `js_free_rt`. -/
  freed : List N

section Model

variable {N : Type*} [DecidableEq N] (L : Layout N)

/-- `list_del(&p->link)`: the links of an object are those of the list it is in. -/
def JSRuntime.listDel (rt : JSRuntime N) (p : N) : JSRuntime N :=
  { rt with
    gcObjList := rt.gcObjList.erase p
    tmpObjList := rt.tmpObjList.erase p
    gcZeroRefCountList := rt.gcZeroRefCountList.erase p }

/-- `list_del`, and `list_add_tail` to `tmp_obj_list`. -/
def JSRuntime.toTmp (rt : JSRuntime N) (p : N) : JSRuntime N :=
  { rt.listDel p with tmpObjList := rt.tmpObjList.erase p ++ [p] }

/-- `list_del`, and `list_add_tail` to `gc_obj_list`. -/
def JSRuntime.toObj (rt : JSRuntime N) (p : N) : JSRuntime N :=
  { rt.listDel p with gcObjList := rt.gcObjList.erase p ++ [p] }

/-- A count that changes. -/
def JSRuntime.setRefCount (rt : JSRuntime N) (p : N) (c : ℕ) : JSRuntime N :=
  { rt with refCount := Function.update rt.refCount p c }

/-- A mark that changes. -/
def JSRuntime.setMark (rt : JSRuntime N) (p : N) (b : Bool) : JSRuntime N :=
  { rt with mark := Function.update rt.mark p b }

/-- `gc_decref_child`. -/
def gcDecrefChild (rt : JSRuntime N) (p : N) : Option (JSRuntime N) :=
  if 0 < rt.refCount p then
    let rt := rt.setRefCount p (rt.refCount p - 1)
    some (if rt.refCount p = 0 ∧ rt.mark p = true then rt.toTmp p else rt)
  else none

/-- The body of the loop of `gc_decref`. -/
def gcDecrefStep (rt : JSRuntime N) (p : N) : Option (JSRuntime N) :=
  if rt.mark p = false then
    ((L.markChildren p).foldlM gcDecrefChild rt).map fun rt =>
      let rt := rt.setMark p true
      if rt.refCount p = 0 then rt.toTmp p else rt
  else none

/-- `gc_decref`. -/
def gcDecref (rt : JSRuntime N) : Option (JSRuntime N) :=
  forEachSafe JSRuntime.gcObjList (gcDecrefStep L) rt.gcObjList.length rt.gcObjList.head?
    { rt with tmpObjList := [] }

/-- `gc_scan_incref_child`. -/
def gcScanIncrefChild (rt : JSRuntime N) (p : N) : JSRuntime N :=
  let rt := rt.setRefCount p (rt.refCount p + 1)
  if rt.refCount p = 1 then (rt.toObj p).setMark p false else rt

/-- `gc_scan_incref_child2`. -/
def gcScanIncrefChild2 (rt : JSRuntime N) (p : N) : JSRuntime N :=
  rt.setRefCount p (rt.refCount p + 1)

/-- The body of the first loop of `gc_scan`. -/
def gcScanStep (rt : JSRuntime N) (p : N) : Option (JSRuntime N) :=
  if 0 < rt.refCount p then
    some ((L.markChildren p).foldl gcScanIncrefChild (rt.setMark p false))
  else none

/-- The body of the second loop of `gc_scan`. -/
def gcScanStep2 (rt : JSRuntime N) (p : N) : Option (JSRuntime N) :=
  some ((L.markChildren p).foldl gcScanIncrefChild2 rt)

/-- `gc_scan`.  No loop goes on longer than there are objects. -/
def gcScan (rt : JSRuntime N) : Option (JSRuntime N) :=
  let count := rt.gcObjList.length + rt.tmpObjList.length
  (forEach JSRuntime.gcObjList (gcScanStep L) count rt.gcObjList.head? rt).bind fun rt =>
    forEach JSRuntime.tmpObjList (gcScanStep2 L) count rt.tmpObjList.head? rt

end Model

section Lemmas

variable {N : Type*} [DecidableEq N] (rt : JSRuntime N) (p : N) (c : ℕ) (b : Bool)

@[simp] theorem setRefCount_refCount (n : N) :
    (rt.setRefCount p c).refCount n = if n = p then c else rt.refCount n :=
  Function.update_apply ..

@[simp] theorem setRefCount_mark : (rt.setRefCount p c).mark = rt.mark := rfl

@[simp] theorem setRefCount_gcObjList : (rt.setRefCount p c).gcObjList = rt.gcObjList := rfl

@[simp] theorem setRefCount_tmpObjList : (rt.setRefCount p c).tmpObjList = rt.tmpObjList := rfl

@[simp] theorem setRefCount_gcZeroRefCountList :
    (rt.setRefCount p c).gcZeroRefCountList = rt.gcZeroRefCountList := rfl

@[simp] theorem setRefCount_gcPhase : (rt.setRefCount p c).gcPhase = rt.gcPhase := rfl

@[simp] theorem setRefCount_freed : (rt.setRefCount p c).freed = rt.freed := rfl

@[simp] theorem setMark_mark (n : N) :
    (rt.setMark p b).mark n = if n = p then b else rt.mark n := Function.update_apply ..

@[simp] theorem setMark_refCount : (rt.setMark p b).refCount = rt.refCount := rfl

@[simp] theorem setMark_gcObjList : (rt.setMark p b).gcObjList = rt.gcObjList := rfl

@[simp] theorem setMark_tmpObjList : (rt.setMark p b).tmpObjList = rt.tmpObjList := rfl

@[simp] theorem setMark_gcZeroRefCountList :
    (rt.setMark p b).gcZeroRefCountList = rt.gcZeroRefCountList := rfl

@[simp] theorem setMark_gcPhase : (rt.setMark p b).gcPhase = rt.gcPhase := rfl

@[simp] theorem setMark_freed : (rt.setMark p b).freed = rt.freed := rfl

end Lemmas

/-! ### `gc_decref` -/

section Decref

variable {N : Type*} [DecidableEq N] {L : Layout N} {rt₀ rt : JSRuntime N} {es todo R : List N}
  {p : N}

/-- `gc_decref`, with `es` done and `todo` to do, when the references `R` are taken away. -/
structure Decref (rt₀ : JSRuntime N) (es todo R : List N) (rt : JSRuntime N) : Prop where
  split : es ++ todo = rt₀.gcObjList
  list : ∃ kept, rt.gcObjList = kept ++ todo ∧ ∀ n, n ∈ kept ↔ n ∈ es ∧ rt.refCount n ≠ 0
  tmp : ∀ n, n ∈ rt.tmpObjList ↔ n ∈ es ∧ rt.refCount n = 0
  perm : (rt.gcObjList ++ rt.tmpObjList).Perm rt₀.gcObjList
  mark : ∀ n ∈ rt₀.gcObjList, rt.mark n = true ↔ n ∈ es
  count : ∀ n, rt.refCount n + R.count n = rt₀.refCount n
  zero : rt.gcZeroRefCountList = []
  phase : rt.gcPhase = rt₀.gcPhase
  freed : rt.freed = rt₀.freed

/-- One reference to a child is taken away; the assertion of `gc_decref_child` holds because the
    counts count at least the references of the objects. -/
theorem Decref.child (h : Decref rt₀ es todo R rt) (hnodup : rt₀.gcObjList.Nodup)
    (hp : p ∈ rt₀.gcObjList) (hR : R.count p < rt₀.refCount p) :
    ∃ rt', gcDecrefChild rt p = some rt' ∧ Decref rt₀ es todo (R ++ [p]) rt' := by
  obtain ⟨kept, hlist, hkept⟩ := h.list
  have hcount := h.count p
  have hpos : 0 < rt.refCount p := by omega
  have hcount' : ∀ n, (rt.setRefCount p (rt.refCount p - 1)).refCount n + (R ++ [p]).count n
      = rt₀.refCount n := by
    intro n
    have hn := h.count n
    rw [setRefCount_refCount, List.count_append, List.count_singleton]
    by_cases hnp : n = p
    · subst hnp; simp; omega
    · simp [hnp, Ne.symm hnp]; omega
  rw [gcDecrefChild, if_pos hpos]
  refine ⟨_, rfl, ?_⟩
  by_cases hmove : rt.refCount p - 1 = 0 ∧ rt.mark p = true
  · -- the last reference of an object that the loop has passed
    have hes : p ∈ es := (h.mark p hp).mp hmove.2
    have hpk : p ∈ kept := (hkept p).mpr ⟨hes, by omega⟩
    have hdup : (kept ++ todo ++ rt.tmpObjList).Nodup := by
      rw [← hlist]; exact h.perm.nodup_iff.mpr hnodup
    have hkn : kept.Nodup := (List.nodup_append.mp (List.nodup_append.mp hdup).1).1
    have hpt : p ∉ rt.tmpObjList := fun hpt => by
      have := ((h.tmp p).mp hpt).2; omega
    rw [if_pos (by simpa using hmove)]
    refine ⟨h.split, ⟨kept.erase p, ?_, fun n => ?_⟩, fun n => ?_, ?_, h.mark, hcount', ?_, h.phase,
      h.freed⟩
    · show rt.gcObjList.erase p = _
      rw [hlist, List.erase_append_left _ hpk]
    · show n ∈ kept.erase p ↔ n ∈ es ∧ (rt.setRefCount p _).refCount n ≠ 0
      rw [hkn.mem_erase_iff, hkept n, setRefCount_refCount]
      by_cases hnp : n = p
      · simp [hnp, hmove.1]
      · simp [hnp]
    · show n ∈ rt.tmpObjList.erase p ++ [p] ↔ n ∈ es ∧ (rt.setRefCount p _).refCount n = 0
      rw [List.erase_of_not_mem hpt, List.mem_append, List.mem_singleton, h.tmp n,
        setRefCount_refCount]
      by_cases hnp : n = p
      · simp [hnp, hmove.1, hes]
      · simp [hnp]
    · show (rt.gcObjList.erase p ++ (rt.tmpObjList.erase p ++ [p])).Perm _
      rw [List.erase_of_not_mem hpt, ← List.append_assoc]
      refine List.Perm.trans ?_ h.perm
      have hpo : p ∈ rt.gcObjList := hlist ▸ List.mem_append_left _ hpk
      exact (List.perm_append_singleton _ _).trans ((List.perm_cons_erase hpo).symm.append_right _)
    · show rt.gcZeroRefCountList.erase p = []
      rw [h.zero]; rfl
  · rw [if_neg (by simpa using hmove)]
    -- where the count is zero now, the loop has not come to the object yet
    have hback : p ∈ es → rt.refCount p - 1 ≠ 0 := fun hes hz =>
      hmove ⟨hz, (h.mark p hp).mpr hes⟩
    refine ⟨h.split, ⟨kept, hlist, fun n => ?_⟩, fun n => ?_, h.perm, h.mark, hcount', h.zero,
      h.phase, h.freed⟩
    · rw [hkept n, setRefCount_refCount]
      by_cases hnp : n = p
      · subst hnp
        rw [if_pos rfl]
        exact and_congr_right fun hes => by have := hback hes; omega
      · rw [if_neg hnp]
    · rw [setRefCount_tmpObjList, h.tmp n, setRefCount_refCount]
      by_cases hnp : n = p
      · subst hnp
        rw [if_pos rfl]
        exact and_congr_right fun hes => by have := hback hes; omega
      · rw [if_neg hnp]

/-- The object itself: it is marked, and moved if nothing refers to it any more. -/
theorem Decref.passed (h : Decref rt₀ es (p :: todo) R rt) (hnodup : rt₀.gcObjList.Nodup) :
    Decref rt₀ (es ++ [p]) todo R
      (if (rt.setMark p true).refCount p = 0 then (rt.setMark p true).toTmp p
        else rt.setMark p true) := by
  obtain ⟨kept, hlist, hkept⟩ := h.list
  have hp : p ∈ rt₀.gcObjList := by rw [← h.split]; simp
  have hpe : p ∉ es := by
    rw [← h.split, List.nodup_append] at hnodup
    exact fun hpe => hnodup.2.2 p hpe p (by simp) rfl
  have hpk : p ∉ kept := fun hpk => hpe ((hkept p).mp hpk).1
  have hpt : p ∉ rt.tmpObjList := fun hpt => hpe ((h.tmp p).mp hpt).1
  have hsplit : es ++ [p] ++ todo = rt₀.gcObjList := by
    rw [List.append_assoc, List.singleton_append, h.split]
  -- the mark of `p` joins those of the objects passed before it
  have hmark : ∀ n ∈ rt₀.gcObjList, (rt.setMark p true).mark n = true ↔ n ∈ es ++ [p] := by
    intro n hn
    rw [setMark_mark, List.mem_append, List.mem_singleton, ← h.mark n hn]
    by_cases hnp : n = p <;> simp [hnp]
  -- a zero count moves `p` to `tmpObjList`, otherwise it stays where it is
  by_cases hzero : rt.refCount p = 0
  · rw [if_pos (by simpa using hzero)]
    -- no reference left: `p` leaves the list it is in for the end of `tmpObjList`
    refine ⟨hsplit, ⟨kept, ?_, fun n => ?_⟩, fun n => ?_, ?_, hmark, h.count, ?_, h.phase, h.freed⟩
    · show rt.gcObjList.erase p = _
      rw [hlist, List.erase_append_right _ hpk, List.erase_cons_head]
    · show n ∈ kept ↔ n ∈ es ++ [p] ∧ rt.refCount n ≠ 0
      rw [hkept n, List.mem_append, List.mem_singleton]
      by_cases hnp : n = p
      · simp [hnp, hzero]
      · simp [hnp]
    · show n ∈ rt.tmpObjList.erase p ++ [p] ↔ n ∈ es ++ [p] ∧ rt.refCount n = 0
      rw [List.erase_of_not_mem hpt, List.mem_append, List.mem_append, List.mem_singleton, h.tmp n]
      by_cases hnp : n = p
      · simp [hnp, hzero]
      · simp [hnp]
    · show (rt.gcObjList.erase p ++ (rt.tmpObjList.erase p ++ [p])).Perm _
      rw [List.erase_of_not_mem hpt, ← List.append_assoc]
      refine List.Perm.trans ?_ h.perm
      have hpo : p ∈ rt.gcObjList := by rw [hlist]; simp
      exact (List.perm_append_singleton _ _).trans ((List.perm_cons_erase hpo).symm.append_right _)
    · show rt.gcZeroRefCountList.erase p = []
      rw [h.zero]; rfl
  · rw [if_neg (by simpa using hzero)]
    -- a reference of some other holder: `p` is kept
    refine ⟨hsplit, ⟨kept ++ [p], ?_, fun n => ?_⟩, fun n => ?_, h.perm, hmark, h.count, h.zero,
      h.phase, h.freed⟩
    · rw [List.append_assoc, List.singleton_append]; exact hlist
    · show n ∈ kept ++ [p] ↔ n ∈ es ++ [p] ∧ rt.refCount n ≠ 0
      rw [List.mem_append, List.mem_append, List.mem_singleton, hkept n]
      by_cases hnp : n = p
      · simp [hnp, hzero]
      · simp [hnp]
    · show n ∈ rt.tmpObjList ↔ n ∈ es ++ [p] ∧ rt.refCount n = 0
      rw [h.tmp n, List.mem_append, List.mem_singleton]
      by_cases hnp : n = p
      · simp [hnp, hpe, hzero]
      · simp [hnp]

/-- Between collections: no object is marked, objects refer to objects only, and no object has
    more references from objects than its count says. -/
structure Counted (L : Layout N) (rt : JSRuntime N) : Prop where
  nodup : rt.gcObjList.Nodup
  marks : ∀ n ∈ rt.gcObjList, rt.mark n = false
  closed : Closed L.markChildren rt.gcObjList
  count : ∀ n, refs L.markChildren rt.gcObjList n ≤ rt.refCount n
  zero : rt.gcZeroRefCountList = []

/-- The references to an object that no object has. -/
def JSRuntime.external (L : Layout N) (rt : JSRuntime N) (n : N) : ℕ :=
  rt.refCount n - refs L.markChildren rt.gcObjList n

/-- One iteration of `gc_decref`. -/
theorem Decref.step (hrt : Counted L rt₀)
    (h : Decref rt₀ es (p :: todo) (es.flatMap L.markChildren) rt) :
    ∃ rt', gcDecrefStep L rt p = some rt' ∧
      Decref rt₀ (es ++ [p]) todo ((es ++ [p]).flatMap L.markChildren) rt' := by
  have hp : p ∈ rt₀.gcObjList := by rw [← h.split]; simp
  have hpe : p ∉ es := by
    have hnodup := hrt.nodup
    rw [← h.split, List.nodup_append] at hnodup
    exact fun hpe => hnodup.2.2 p hpe p (by simp) rfl
  have hmark : rt.mark p = false := Bool.eq_false_iff.mpr fun hm => hpe ((h.mark p hp).mp hm)
  -- the invariant of the loop over the children: those of `p` so far are taken away, too
  obtain ⟨rt', hfold, hrt'⟩ := foldlM_run (f := gcDecrefChild)
    (I := fun cs rt => Decref rt₀ es (p :: todo) (es.flatMap L.markChildren ++ cs) rt)
    (fun cs c rest rt (hcs : cs ++ c :: rest = L.markChildren p) hrt' => by
      have hc : c ∈ L.markChildren p := hcs ▸ (by simp)
      have hle := hrt.count c
      rw [← h.split, refs_append, refs, refs, List.flatMap_cons, List.count_append, ← hcs,
        List.count_append, List.count_cons_self] at hle
      rw [← List.append_assoc]
      exact hrt'.child hrt.nodup (hrt.closed p hp c hc) (by rw [List.count_append]; omega))
    (List.nil_append _) (by rwa [List.append_nil])
  rw [gcDecrefStep, if_pos hmark, hfold]
  refine ⟨_, rfl, ?_⟩
  rw [List.flatMap_append, List.flatMap_singleton]
  exact hrt'.passed hrt.nodup

/-- **What `gc_decref` leaves.**  No assertion fails; every object is marked, its count is that of
    the references from outside, and it is in the temporary list when there are none. -/
theorem gcDecref_spec (hrt : Counted L rt) :
    ∃ rt', gcDecref L rt = some rt' ∧
      Decref rt rt.gcObjList [] (rt.gcObjList.flatMap L.markChildren) rt' := by
  have hstart : Decref rt [] rt.gcObjList ([].flatMap L.markChildren)
      { rt with tmpObjList := [] } :=
    { split := rfl
      list := ⟨[], rfl, by simp⟩
      tmp := by simp
      perm := by simp
      mark := fun n hn => by simp [hrt.marks n hn]
      count := by simp
      zero := hrt.zero
      phase := rfl
      freed := rfl }
  refine forEachSafe_run _ _ (I := fun es todo => Decref rt es todo (es.flatMap L.markChildren))
    (fun es p todo rt' h => ?_) (fun es p todo rt' h => h.step hrt) hstart (Nat.le_refl _)
  obtain ⟨kept, hlist, hkept⟩ := h.list
  refine ⟨kept, hlist, fun hpk => ?_⟩
  have hnodup := hrt.nodup
  rw [← h.split, List.nodup_append] at hnodup
  exact hnodup.2.2 p ((hkept p).mp hpk).1 p (by simp) rfl

end Decref

/-! ### `gc_scan` -/

section Scan

variable {N : Type*} [DecidableEq N] {L : Layout N} {rt₀ rt : JSRuntime N}
  {es todo R cs : List N} {p c : N}

/-- `gc_scan`, with `es` done and `todo` to do, when the references `R` are given back. -/
structure Scan (L : Layout N) (rt₀ : JSRuntime N) (es todo R : List N) (rt : JSRuntime N) :
    Prop where
  list : rt.gcObjList = es ++ todo
  perm : (rt.gcObjList ++ rt.tmpObjList).Perm rt₀.gcObjList
  tmp : ∀ n ∈ rt₀.gcObjList, n ∈ rt.tmpObjList ↔ rt.refCount n = 0
  count : ∀ n, rt.refCount n = rt₀.external L n + R.count n
  live : ∀ n ∈ rt.gcObjList, Live L.markChildren rt₀.gcObjList (rt₀.external L) n
  marks : ∀ n ∈ es, rt.mark n = false
  zero : rt.gcZeroRefCountList = []
  phase : rt.gcPhase = rt₀.gcPhase
  freed : rt.freed = rt₀.freed

/-- No object is in both lists, or in one of them twice. -/
theorem Scan.nodup (h : Scan L rt₀ es todo R rt) (hrt : Counted L rt₀) :
    (rt.gcObjList ++ rt.tmpObjList).Nodup := h.perm.nodup_iff.mpr hrt.nodup

/-- In `gc_obj_list` are the objects that have references. -/
theorem Scan.mem_objs (h : Scan L rt₀ es todo R rt) (hrt : Counted L rt₀) :
    c ∈ rt.gcObjList ↔ c ∈ rt₀.gcObjList ∧ rt.refCount c ≠ 0 := by
  have hdisj := (List.nodup_append.mp (h.nodup hrt)).2.2
  constructor
  · intro hc
    have hc₀ : c ∈ rt₀.gcObjList := h.perm.subset (List.mem_append_left _ hc)
    exact ⟨hc₀, fun hz => hdisj c hc c ((h.tmp c hc₀).mpr hz) rfl⟩
  · rintro ⟨hc₀, hne⟩
    rcases List.mem_append.mp (h.perm.symm.subset hc₀) with hc | hc
    · exact hc
    · exact absurd ((h.tmp c hc₀).mp hc) hne

/-- A reference to a live object is given back; an object that had none left comes back to
    `gc_obj_list`. -/
theorem Scan.child (h : Scan L rt₀ es todo R rt) (hrt : Counted L rt₀) (hc : c ∈ rt₀.gcObjList)
    (hlive : Live L.markChildren rt₀.gcObjList (rt₀.external L) c) :
    ∃ new, Scan L rt₀ es (todo ++ new) (R ++ [c]) (gcScanIncrefChild rt c) := by
  -- the count goes up by one for the reference that is found
  have hcount' : ∀ n, (rt.setRefCount c (rt.refCount c + 1)).refCount n
      = rt₀.external L n + (R ++ [c]).count n := by
    intro n
    have hn := h.count n
    rw [setRefCount_refCount, List.count_append, List.count_singleton]
    by_cases hnc : n = c
    · subst hnc; simp; omega
    · simp [hnc, Ne.symm hnc]; omega
  rw [gcScanIncrefChild]
  by_cases hzero : rt.refCount c = 0
  · -- the first reference that is found: the object moves to the end of the list
    rw [if_pos (by simpa using hzero)]
    have hct : c ∈ rt.tmpObjList := (h.tmp c hc).mpr hzero
    have hco : c ∉ rt.gcObjList := fun hco => ((h.mem_objs hrt).mp hco).2 hzero
    have htn : rt.tmpObjList.Nodup := (List.nodup_append.mp (h.nodup hrt)).2.1
    refine ⟨[c], ⟨?_, ?_, fun n hn => ?_, hcount', fun n hn => ?_, fun n hn => ?_, ?_, h.phase,
      h.freed⟩⟩
    · show rt.gcObjList.erase c ++ [c] = _
      rw [List.erase_of_not_mem hco, h.list, List.append_assoc]
    · show ((rt.gcObjList.erase c ++ [c]) ++ rt.tmpObjList.erase c).Perm _
      rw [List.erase_of_not_mem hco, List.append_assoc, List.singleton_append]
      exact ((List.perm_cons_erase hct).symm.append_left _).trans h.perm
    · show n ∈ rt.tmpObjList.erase c ↔ (rt.setRefCount c _).refCount n = 0
      rw [htn.mem_erase_iff, h.tmp n hn, setRefCount_refCount]
      by_cases hnc : n = c <;> simp [hnc]
    · rw [setMark_gcObjList] at hn
      have hn' : n ∈ rt.gcObjList.erase c ++ [c] := hn
      rw [List.erase_of_not_mem hco, List.mem_append, List.mem_singleton] at hn'
      rcases hn' with hn' | rfl
      · exact h.live n hn'
      · exact hlive
    · rw [setMark_mark]
      split
      · rfl
      · exact h.marks n hn
    · show rt.gcZeroRefCountList.erase c = []
      rw [h.zero]; rfl
  · rw [if_neg (by simpa using hzero)]
    refine ⟨[], ⟨by rw [List.append_nil]; exact h.list, h.perm, fun n hn => ?_, hcount', h.live,
      h.marks, h.zero, h.phase, h.freed⟩⟩
    rw [setRefCount_tmpObjList, h.tmp n hn, setRefCount_refCount]
    by_cases hnc : n = c
    · subst hnc; simp [hzero]
    · simp [hnc]

/-- So for all children. -/
theorem Scan.children (h : Scan L rt₀ es todo R rt) (hrt : Counted L rt₀)
    (hcs : ∀ c ∈ cs, c ∈ rt₀.gcObjList ∧
      Live L.markChildren rt₀.gcObjList (rt₀.external L) c) :
    ∃ new, Scan L rt₀ es (todo ++ new) (R ++ cs) (cs.foldl gcScanIncrefChild rt) := by
  induction cs generalizing todo R rt with
  | nil => exact ⟨[], by simpa using h⟩
  | cons c cs ih =>
    obtain ⟨hc, hlive⟩ := hcs c List.mem_cons_self
    obtain ⟨new, h₁⟩ := h.child hrt hc hlive
    obtain ⟨new', h₂⟩ := ih h₁ fun c' hc' => hcs c' (List.mem_cons_of_mem _ hc')
    refine ⟨new ++ new', ?_⟩
    rwa [List.append_assoc, List.append_assoc, List.singleton_append] at h₂

/-- One iteration of the first loop of `gc_scan`, which may add objects at the end of its own list.
    -/
theorem Scan.step (h : Scan L rt₀ es (p :: todo) (es.flatMap L.markChildren) rt)
    (hrt : Counted L rt₀) :
    ∃ rt' new, gcScanStep L rt p = some rt' ∧
      Scan L rt₀ (es ++ [p]) (todo ++ new) ((es ++ [p]).flatMap L.markChildren) rt' := by
  have hpo : p ∈ rt.gcObjList := by rw [h.list]; simp
  obtain ⟨hp, hne⟩ := (h.mem_objs hrt).mp hpo
  have hmark : Scan L rt₀ (es ++ [p]) todo (es.flatMap L.markChildren) (rt.setMark p false) := by
    refine ⟨?_, h.perm, h.tmp, h.count, h.live, fun n hn => ?_, h.zero, h.phase, h.freed⟩
    · rw [List.append_assoc, List.singleton_append]; exact h.list
    · rw [setMark_mark]
      by_cases hnp : n = p
      · rw [if_pos hnp]
      · rw [if_neg hnp]
        exact h.marks n (by simpa [hnp] using hn)
  obtain ⟨new, h'⟩ := hmark.children hrt fun c (hc : c ∈ L.markChildren p) =>
    ⟨hrt.closed p hp c hc, .kid (h.live p hpo) hc⟩
  rw [gcScanStep, if_pos (Nat.pos_of_ne_zero hne), List.flatMap_append, List.flatMap_singleton]
  exact ⟨_, new, rfl, h'⟩

/-- The second loop gives references back and does nothing else. -/
theorem foldl_gcScanIncrefChild2 (cs : List N) (rt : JSRuntime N) :
    cs.foldl gcScanIncrefChild2 rt
      = { rt with refCount := fun n => rt.refCount n + cs.count n } := by
  induction cs generalizing rt with
  | nil => rfl
  | cons c cs ih =>
    rw [List.foldl_cons, ih]
    refine congrArg (fun f => { rt with refCount := f }) (funext fun n => ?_)
    rw [gcScanIncrefChild2, setRefCount_refCount, List.count_cons]
    by_cases hnc : n = c
    · subst hnc; simp; omega
    · simp [hnc, Ne.symm hnc]

/-- The second loop: the objects to be deleted get their references back as well. -/
theorem gcScan_restore (rt : JSRuntime N) {k : ℕ} (hnodup : rt.tmpObjList.Nodup)
    (hk : rt.tmpObjList.length ≤ k) :
    forEach JSRuntime.tmpObjList (gcScanStep2 L) k rt.tmpObjList.head? rt
      = some { rt with
          refCount := fun n => rt.refCount n + refs L.markChildren rt.tmpObjList n } := by
  let after (es : List N) : JSRuntime N :=
    { rt with refCount := fun n => rt.refCount n + refs L.markChildren es n }
  obtain ⟨rt', es, hrun, hes, rfl⟩ := forEach_run JSRuntime.tmpObjList
    (gcScanStep2 L) (k := k) (s := rt) rt.tmpObjList.length
    (I := fun es todo rt' => es ++ todo = rt.tmpObjList ∧ rt' = after es)
    (by rintro es todo _ ⟨hes, rfl⟩; exact ⟨hes.symm, hnodup, Nat.le_refl _⟩)
    (by
      rintro es el todo _ ⟨hes, rfl⟩
      refine ⟨_, [], rfl, by simpa using hes, ?_⟩
      rw [foldl_gcScanIncrefChild2]
      refine congrArg (fun f => { rt with refCount := f }) (funext fun n => ?_)
      rw [refs_append, refs_singleton, Nat.add_assoc])
    ⟨List.nil_append _, rfl⟩ (by simpa using hk)
  rw [List.append_nil] at hes
  rw [hrun, hes]

/-- What `gc_scan` leaves: what is kept, and what is to be deleted. -/
structure Scanned (L : Layout N) (rt₀ rt : JSRuntime N) : Prop where
  perm : (rt.gcObjList ++ rt.tmpObjList).Perm rt₀.gcObjList
  kept : ∀ n, n ∈ rt.gcObjList ↔ Live L.markChildren rt₀.gcObjList (rt₀.external L) n
  count : rt.refCount = rt₀.refCount
  marks : ∀ n ∈ rt.gcObjList, rt.mark n = false
  zero : rt.gcZeroRefCountList = []
  phase : rt.gcPhase = rt₀.gcPhase
  freed : rt.freed = rt₀.freed

/-- At the end of the first loop the objects of `gc_obj_list` are the live ones. -/
theorem Scan.kept (h : Scan L rt₀ es [] (es.flatMap L.markChildren) rt) (hrt : Counted L rt₀)
    (n : N) :
    n ∈ rt.gcObjList ↔ Live L.markChildren rt₀.gcObjList (rt₀.external L) n := by
  have hlist : rt.gcObjList = es := by rw [h.list, List.append_nil]
  refine ⟨h.live n, fun hn => hn.mem (fun n hn hext => ?_) fun p hp c hc => ?_⟩
  · have := h.count n
    exact (h.mem_objs hrt).mpr ⟨hn, by omega⟩
  · have hp₀ := ((h.mem_objs hrt).mp hp).1
    have hpos : 0 < (es.flatMap L.markChildren).count c := by
      rw [List.count_pos_iff, List.mem_flatMap]
      exact ⟨p, hlist ▸ hp, hc⟩
    have := h.count c
    exact (h.mem_objs hrt).mpr ⟨hrt.closed p hp₀ c hc, by omega⟩

/-- **What `gc_scan` keeps.**  After `gc_decref`, no assertion fails; exactly the objects that can
    be reached from a reference from outside are kept, and every count is what it was. -/
theorem gcScan_spec (hrt : Counted L rt₀)
    (h : Decref rt₀ rt₀.gcObjList [] (rt₀.gcObjList.flatMap L.markChildren) rt) :
    ∃ rt', gcScan L rt = some rt' ∧ Scanned L rt₀ rt' := by
  -- after the first pass each count is what the outside holds
  have hext : ∀ n, rt.refCount n = rt₀.external L n := fun n => by
    have := h.count n
    rw [JSRuntime.external, refs]; omega
  -- so the pass starts at the objects with outside references, all of them live
  have hstart : Scan L rt₀ [] rt.gcObjList ([].flatMap L.markChildren) rt :=
    { list := rfl
      perm := h.perm
      tmp := fun n hn => by rw [h.tmp n]; exact and_iff_right hn
      count := fun n => by rw [hext n]; simp
      live := fun n hn => by
        have hn₀ : n ∈ rt₀.gcObjList := h.perm.subset (List.mem_append_left _ hn)
        obtain ⟨kept, hlist, hkept⟩ := h.list
        rw [hlist, List.append_nil, hkept n, hext n] at hn
        exact .root hn₀ (Nat.pos_of_ne_zero hn.2)
      marks := by simp
      zero := h.zero
      phase := h.phase
      freed := h.freed }
  -- and no step changes how many objects the two lists hold
  have hlength : ∀ {es todo R rt'}, Scan L rt₀ es todo R rt' →
      rt'.gcObjList.length + rt'.tmpObjList.length = rt.gcObjList.length + rt.tmpObjList.length :=
    fun h' => by
      rw [← List.length_append, ← List.length_append, h'.perm.length_eq, h.perm.length_eq]
  -- the first loop of `gc_scan`: it ends when no object of the list is left
  obtain ⟨rt₁, es, hrun, h₁⟩ := forEach_run JSRuntime.gcObjList (gcScanStep L)
    (rt.gcObjList.length + rt.tmpObjList.length)
    (k := rt.gcObjList.length + rt.tmpObjList.length)
    (I := fun es todo => Scan L rt₀ es todo (es.flatMap L.markChildren))
    (fun es todo rt' h' => ⟨h'.list, (List.nodup_append.mp (h'.nodup hrt)).1, by
      have := hlength h'; omega⟩)
    (fun es p todo rt' h' => by
      obtain ⟨rt'', new, hrun, h''⟩ := h'.step hrt
      exact ⟨rt'', new, hrun, h''⟩)
    hstart (by simp)
  have hlist : rt₁.gcObjList = es := by rw [h₁.list, List.append_nil]
  -- the second loop gives the objects in `tmpObjList` their counts back
  rw [gcScan, hrun, Option.bind_some, gcScan_restore rt₁ (List.nodup_append.mp (h₁.nodup hrt)).2.1
    (by have := hlength h₁; omega)]
  refine ⟨_, rfl, h₁.perm, h₁.kept hrt, funext fun n => ?_, fun n hn => h₁.marks n (hlist ▸ hn),
    h₁.zero, h₁.phase, h₁.freed⟩
  show rt₁.refCount n + refs L.markChildren rt₁.tmpObjList n = rt₀.refCount n
  have hsplit := refs_append L.markChildren rt₁.gcObjList rt₁.tmpObjList n
  rw [refs_perm h₁.perm, hlist] at hsplit
  have hcount := h₁.count n
  have hle := hrt.count n
  rw [JSRuntime.external,
    show (es.flatMap L.markChildren).count n = refs L.markChildren es n from rfl]
    at hcount
  omega

end Scan

end VideoPackages.Gc
