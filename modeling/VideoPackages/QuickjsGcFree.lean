import Mathlib.Data.List.Count
import Mathlib.Data.List.Nodup
import Mathlib.Data.List.Perm.Basic
import VideoPackages.QuickjsGc

namespace VideoPackages.Gc

open RefGraph Traverse

/-!
# The garbage collector of QuickJS: freeing objects

To free an object is to give up its references, which may leave other objects with none.  What
happens to those depends on the phase: a JS value waits in `gc_zero_ref_count_list`, or, while
cycles are removed, is left where it is, since `gc_free_cycles` will come to it; a shape, a
variable reference or a context is freed at once.

* `dropRef` — one reference is given up;
* `gcFreeCycles` / `jsRunGC` — the collector; `freeZeroRefcount` — what freeing a value starts;
* `Tearing` — the accounting that holds at every moment: a count is what the objects that have not
  given up their references, the references about to be given up and the outside have;
* `Tearing.dropRef` / `Tearing.freeGcObject` — giving up a reference, and freeing a value, keep it,
  in every phase; `freeTmp_run` / `freeZeroRefcount_frees` — the loops that do so.

Not modelled: weak references (what `reset_weak_ref` gives up of the records of a `WeakMap` when
their key is freed), and what the finalizers of classes do beyond giving up references.
-/

/-- The kinds that `free_gc_object` frees: JS values, and async functions. -/
def JSGCObjectTypeEnum.isValue : JSGCObjectTypeEnum → Bool
  | .jsObject | .functionBytecode | .asyncFunction => true
  | .shape | .varRef | .jsContext => false

theorem none_ne_removeCycles : JSGCPhaseEnum.none ≠ .removeCycles := by decide

/-- How deep freeing goes without the lists: a context has shapes and variable references, and
    those have values. -/
def JSGCObjectTypeEnum.rank : JSGCObjectTypeEnum → ℕ
  | .jsObject | .functionBytecode | .asyncFunction => 0
  | .shape | .varRef => 1
  | .jsContext => 2

section Model

variable {N : Type*} [DecidableEq N] (L : Layout N)

/-- An object that `free_gc_object` frees. -/
def Layout.isValue (p : N) : Bool := (L.gcObjType p).isValue

/-- `list_del`, and `list_add` to `gc_zero_ref_count_list`, at its head. -/
def JSRuntime.toZero (rt : JSRuntime N) (p : N) : JSRuntime N :=
  { rt.listDel p with gcZeroRefCountList := p :: rt.gcZeroRefCountList.erase p }

/-- `list_del`, and `list_add_tail` to `gc_zero_ref_count_list`. -/
def JSRuntime.toZeroTail (rt : JSRuntime N) (p : N) : JSRuntime N :=
  { rt.listDel p with gcZeroRefCountList := rt.gcZeroRefCountList.erase p ++ [p] }

/-- `remove_gc_object` and `js_free_rt`. -/
def JSRuntime.release (rt : JSRuntime N) (p : N) : JSRuntime N :=
  { rt.listDel p with freed := rt.freed ++ [p] }

/-- A phase that begins. -/
def JSRuntime.setPhase (rt : JSRuntime N) (ph : JSGCPhaseEnum) : JSRuntime N :=
  { rt with gcPhase := ph }

/-- What `__JS_FreeValueRT` and `async_func_free` do with an object that has no reference left. -/
def freeValueZero (freeZero : JSRuntime N → Option (JSRuntime N)) (rt : JSRuntime N) (p : N) :
    Option (JSRuntime N) :=
  match rt.gcPhase with
  | .removeCycles => some rt
  | .decref => some (rt.toZero p)
  | .none => freeZero (rt.toZero p)

/-- One reference is given up: `JS_FreeValueRT`, `async_func_free`, `js_free_shape`,
    `free_var_ref` or `JS_FreeContext`, by the kind of the object.  `freeZero` is
    `free_zero_refcount`, for a phase in which it is called. -/
def dropRef (freeZero : JSRuntime N → Option (JSRuntime N)) :
    ℕ → JSRuntime N → N → Option (JSRuntime N)
  | 0, _, _ => none
  | depth + 1, rt, p =>
    if p ∈ rt.freed ∨ rt.refCount p = 0 then none
    else
      let rt := rt.setRefCount p (rt.refCount p - 1)
      if rt.refCount p ≠ 0 then some rt
      else if L.isValue p then freeValueZero freeZero rt p
      else ((L.freeChildren p).foldlM (dropRef freeZero depth) rt).map (·.release p)

/-- One reference is given up while objects are freed. -/
def dropNested : JSRuntime N → N → Option (JSRuntime N) := dropRef L (fun _ => none) 3

/-- `free_gc_object`: `free_object` of an object without weak references, which does not come to
    `reset_weak_ref`; `free_function_bytecode` and `__async_func_free`. -/
def freeGcObject (rt : JSRuntime N) (p : N) : Option (JSRuntime N) :=
  if L.isValue p then
    ((L.freeChildren p).foldlM (dropNested L) rt).map fun rt =>
      if rt.gcPhase = .removeCycles ∧ rt.refCount p ≠ 0 then rt.toZeroTail p else rt.release p
  else none

/-- The loop of `gc_free_cycles` over `tmp_obj_list`. -/
def freeTmp : ℕ → JSRuntime N → Option (JSRuntime N)
  | 0, rt => if rt.tmpObjList = [] then some rt else none
  | k + 1, rt =>
    match rt.tmpObjList with
    | [] => some rt
    | p :: _ =>
      (if L.isValue p then freeGcObject L rt p else some (rt.toZeroTail p)).bind (freeTmp k)

/-- The loop of `gc_free_cycles` over `gc_zero_ref_count_list`. -/
def freeZombie (rt : JSRuntime N) (p : N) : Option (JSRuntime N) :=
  if L.isValue p then some { rt with freed := rt.freed ++ [p] } else none

/-- `gc_free_cycles`. -/
def gcFreeCycles (rt : JSRuntime N) : Option (JSRuntime N) :=
  (freeTmp L rt.tmpObjList.length (rt.setPhase .removeCycles)).bind fun rt =>
    (rt.gcZeroRefCountList.foldlM (freeZombie L) (rt.setPhase .none)).map fun rt =>
      { rt with gcZeroRefCountList := [] }

/-- `JS_RunGC`. -/
def jsRunGC (rt : JSRuntime N) : Option (JSRuntime N) :=
  (gcDecref L rt).bind fun rt => (gcScan L rt).bind (gcFreeCycles L)

/-- The loop of `free_zero_refcount`. -/
def freeZeroLoop : ℕ → JSRuntime N → Option (JSRuntime N)
  | 0, rt => if rt.gcZeroRefCountList = [] then some rt else none
  | k + 1, rt =>
    match rt.gcZeroRefCountList with
    | [] => some rt
    | p :: _ =>
      if rt.refCount p = 0 then (freeGcObject L rt p).bind (freeZeroLoop k) else none

/-- `free_zero_refcount`. -/
def freeZeroRefcount (rt : JSRuntime N) : Option (JSRuntime N) :=
  (freeZeroLoop L (rt.gcObjList.length + rt.gcZeroRefCountList.length) (rt.setPhase .decref)).map
    (·.setPhase .none)

/-- One reference is given up by the program. -/
def jsFreeRef : JSRuntime N → N → Option (JSRuntime N) := dropRef L (freeZeroRefcount L) 3

end Model

/-! ### Accounting -/

section Accounting

variable {N : Type*} [DecidableEq N] {L : Layout N} {rt rt' : JSRuntime N} {D P total : List N}
  {ph : JSGCPhaseEnum} {base : N → ℕ} {freed₀ : List N} {p c a : N}

/-- The objects in the lists. -/
def JSRuntime.linked (rt : JSRuntime N) : List N :=
  rt.gcObjList ++ rt.tmpObjList ++ rt.gcZeroRefCountList

/-- The objects that can be freed in a phase, and have not given up their references.  While
    cycles are removed, a value in `gc_zero_ref_count_list` has. -/
def holders (L : Layout N) (ph : JSGCPhaseEnum) (rt : JSRuntime N) : List N :=
  match ph with
  | .removeCycles => rt.tmpObjList ++ rt.gcZeroRefCountList.filter (fun p => !L.isValue p)
  | _ => rt.gcObjList ++ rt.gcZeroRefCountList

/-- The same without the objects `D`, which are giving up their references. -/
def untorn (L : Layout N) (ph : JSGCPhaseEnum) (D : List N) (rt : JSRuntime N) : List N :=
  (holders L ph rt).filter (· ∉ D)

theorem count_filter_ite (q : N → Bool) (l : List N) (a : N) :
    (l.filter q).count a = if q a then l.count a else 0 := by
  split
  · rename_i h; exact List.count_filter h
  · rename_i h; exact List.count_eq_zero_of_not_mem fun hmem => h (List.mem_filter.mp hmem).2

/-- The references of those that still have them all. -/
theorem count_untorn (L : Layout N) (D : List N) (rt : JSRuntime N) (a : N) :
    (untorn L ph D rt).count a = if a ∈ D then 0 else (holders L ph rt).count a := by
  rw [untorn, count_filter_ite]
  by_cases h : a ∈ D <;> simp [h]

/-- An object that leaves its list is no longer linked. -/
theorem linked_listDel (hp : p ∈ rt.linked) (hnodup : rt.linked.Nodup) :
    rt.linked.Perm (p :: (rt.listDel p).linked) := by
  rw [List.perm_iff_count]
  intro a
  have hone : rt.linked.count p = 1 := List.nodup_iff_count_eq_one.mp hnodup p hp
  simp only [JSRuntime.linked, JSRuntime.listDel, List.count_append, List.count_cons,
    List.count_erase] at hone ⊢
  by_cases hap : a = p
  · subst hap; simp; omega
  · simp [Ne.symm hap]

/-- Nor does it hold references. -/
theorem holders_listDel (hp : p ∈ holders L ph rt) (hnodup : (holders L ph rt).Nodup) :
    (holders L ph rt).Perm (p :: holders L ph (rt.listDel p)) := by
  rw [List.perm_iff_count]
  intro a
  have hone : (holders L ph rt).count p = 1 := List.nodup_iff_count_eq_one.mp hnodup p hp
  cases ph <;>
    simp only [holders, JSRuntime.listDel, List.count_append, List.count_cons, List.count_erase,
      count_filter_ite] at hone ⊢ <;>
    by_cases hap : a = p <;> grind

/-- What a run of the collector can rely on: `total` are the objects there are, `freed₀` what was
    freed before. -/
structure Sound (L : Layout N) (freed₀ total : List N) : Prop where
  nodup : total.Nodup
  fresh : ∀ n ∈ total, n ∉ freed₀
  closed : Closed L.freeChildren total
  ranked : ∀ n ∈ total, L.isValue n = false → ∀ c ∈ L.freeChildren n,
    (L.gcObjType c).rank < (L.gcObjType n).rank

/-- **Accounting.**  While objects are freed, with the objects `D` giving up their references, of
    which `P` are still to be given up: a count is what the outside (`base`), the objects that
    have not begun and `P` have. -/
structure Tearing (L : Layout N) (ph : JSGCPhaseEnum) (base : N → ℕ) (freed₀ total D P : List N)
    (rt : JSRuntime N) : Prop where
  phase : rt.gcPhase = ph
  place : ∃ new, rt.freed = freed₀ ++ new ∧ (rt.linked ++ new).Perm total ∧
    ∀ n ∈ new, rt.refCount n = 0
  count : ∀ n, rt.refCount n = base n + refs L.freeChildren (untorn L ph D rt) n + P.count n
  aux : ∀ n ∈ rt.linked, L.isValue n = false → (rt.refCount n = 0 ↔ n ∈ D)
  held : ∀ n ∈ D, n ∈ rt.linked
  pending : ∀ n ∈ P, n ∈ total
  kept : ph = .removeCycles → ∀ n ∈ rt.gcObjList, 0 < base n
  waiting : ph ≠ .removeCycles → rt.tmpObjList = [] ∧
    ∀ n ∈ rt.gcZeroRefCountList, L.isValue n = true ∧ rt.refCount n = 0
  quiet : ph = .none → rt.gcZeroRefCountList = []
  alive : ph ≠ .removeCycles → ∀ n ∈ rt.gcObjList, L.isValue n = true → 0 < rt.refCount n

/-- What giving up references leaves alone. -/
structure Frame (ph : JSGCPhaseEnum) (rt rt' : JSRuntime N) : Prop where
  mark : rt'.mark = rt.mark
  tmp : ∀ n ∈ rt'.tmpObjList, n ∈ rt.tmpObjList
  objs : ∀ n ∈ rt'.gcObjList, n ∈ rt.gcObjList
  kept : ph = .removeCycles → rt'.gcObjList = rt.gcObjList ∧
    ∀ n ∈ rt'.gcZeroRefCountList, n ∈ rt.gcZeroRefCountList
  freed : rt.freed <+: rt'.freed
  le : ∀ n, rt'.refCount n ≤ rt.refCount n

omit [DecidableEq N] in
/-- Doing nothing changes nothing. -/
theorem Frame.refl (ph : JSGCPhaseEnum) (rt : JSRuntime N) : Frame ph rt rt :=
  ⟨rfl, fun _ => id, fun _ => id, fun _ => ⟨rfl, fun _ => id⟩, List.prefix_refl _,
    fun _ => Nat.le_refl _⟩

omit [DecidableEq N] in
/-- What two steps leave alone, both together do. -/
theorem Frame.trans {rt'' : JSRuntime N} (h : Frame ph rt rt') (h' : Frame ph rt' rt'') :
    Frame ph rt rt'' :=
  ⟨h'.mark.trans h.mark, fun n hn => h.tmp n (h'.tmp n hn), fun n hn => h.objs n (h'.objs n hn),
    fun hph => ⟨(h'.kept hph).1.trans (h.kept hph).1,
      fun n hn => (h.kept hph).2 n ((h'.kept hph).2 n hn)⟩,
    h.freed.trans h'.freed, fun n => Nat.le_trans (h'.le n) (h.le n)⟩

/-- A count that goes down is within the frame. -/
theorem frame_dec (ph : JSGCPhaseEnum) (rt : JSRuntime N) (c : N) :
    Frame ph rt (rt.setRefCount c (rt.refCount c - 1)) :=
  ⟨rfl, fun _ => id, fun _ => id, fun _ => ⟨rfl, fun _ => id⟩, List.prefix_refl _, fun n => by
    rw [setRefCount_refCount]
    split
    · rename_i hnc; rw [hnc]; exact Nat.sub_le _ _
    · exact Nat.le_refl _⟩

/-- No object is linked twice while objects are torn down. -/
theorem Tearing.linked_nodup (h : Tearing L ph base freed₀ total D P rt)
    (hs : Sound L freed₀ total) : rt.linked.Nodup := by
  obtain ⟨new, -, hperm, -⟩ := h.place
  exact (List.nodup_append.mp (hperm.nodup_iff.mpr hs.nodup)).1

/-- What is linked is an object. -/
theorem Tearing.mem_total (h : Tearing L ph base freed₀ total D P rt) (hp : p ∈ rt.linked) :
    p ∈ total := by
  obtain ⟨new, -, hperm, -⟩ := h.place
  exact hperm.subset (List.mem_append_left _ hp)

/-- What is referred to is not freed. -/
theorem Tearing.mem_linked (h : Tearing L ph base freed₀ total D P rt)
    (hs : Sound L freed₀ total) (hp : p ∈ total) (hpos : 0 < rt.refCount p) :
    p ∈ rt.linked ∧ p ∉ rt.freed := by
  obtain ⟨new, hfreed, hperm, hnew⟩ := h.place
  have hpn : p ∉ new := fun hpn => by have := hnew p hpn; omega
  refine ⟨(List.mem_append.mp (hperm.symm.subset hp)).resolve_right hpn, ?_⟩
  rw [hfreed, List.mem_append]
  rintro (hmem | hmem)
  · exact hs.fresh p hp hmem
  · exact hpn hmem

omit [DecidableEq N] in
/-- Those that hold references are linked. -/
theorem holders_sublist (L : Layout N) (ph : JSGCPhaseEnum) (rt : JSRuntime N) :
    (holders L ph rt).Sublist rt.linked := by
  cases ph with
  | removeCycles =>
    rw [JSRuntime.linked, List.append_assoc]
    exact (List.Sublist.append_left List.filter_sublist _).trans (List.sublist_append_right _ _)
  | none | decref => exact List.Sublist.append_right (List.sublist_append_left _ _) _

omit [DecidableEq N] in
/-- No one holds references twice. -/
theorem holders_nodup (hnodup : rt.linked.Nodup) : (holders L ph rt).Nodup :=
  (holders_sublist L ph rt).nodup hnodup

omit [DecidableEq N] in
/-- An object that is no value holds its references until it is freed. -/
theorem mem_holders (hp : p ∈ rt.linked) (hval : L.isValue p = false)
    (hkept : ph = .removeCycles → p ∉ rt.gcObjList)
    (htmp : ph ≠ .removeCycles → rt.tmpObjList = []) : p ∈ holders L ph rt := by
  rw [JSRuntime.linked, List.mem_append, List.mem_append] at hp
  cases ph with
  | removeCycles =>
    have := hkept rfl
    simpa [holders, hval, this] using hp
  | none | decref =>
    rw [htmp nofun] at hp
    simpa [holders] using hp

/-- An object that begins to give up its references. -/
theorem untorn_perm (hp : p ∈ holders L ph rt) (hpD : p ∉ D) (hnodup : (holders L ph rt).Nodup) :
    (untorn L ph D rt).Perm (p :: untorn L ph (p :: D) rt) := by
  rw [List.perm_iff_count]
  intro a
  have hone := List.nodup_iff_count_eq_one.mp hnodup p hp
  rw [List.count_cons, count_untorn, count_untorn]
  by_cases hap : a = p
  · subst hap; simp [hpD, hone]
  · simp [hap, Ne.symm hap]

/-- An object that has given up its references. -/
theorem untorn_listDel (hp : p ∈ holders L ph rt) (hnodup : (holders L ph rt).Nodup)
    (hpD : p ∉ D) : (untorn L ph D (rt.listDel p)).Perm (untorn L ph (p :: D) rt) := by
  rw [List.perm_iff_count]
  intro a
  have hone := List.nodup_iff_count_eq_one.mp hnodup p hp
  have hperm := (holders_listDel hp hnodup).count_eq a
  rw [List.count_cons] at hperm
  rw [count_untorn, count_untorn]
  by_cases hap : a = p
  · subst hap; simp [hpD]; simp at hperm; omega
  · simp [hap, Ne.symm hap] at hperm ⊢
    rw [hperm]

/-- An object that is referred to has a count. -/
theorem Tearing.pos (h : Tearing L ph base freed₀ total D (c :: P) rt) : 0 < rt.refCount c := by
  have := h.count c
  rw [List.count_cons_self] at this
  omega

/-- The count that is one less. -/
theorem Tearing.count_dec (h : Tearing L ph base freed₀ total D (c :: P) rt) (n : N) :
    (rt.setRefCount c (rt.refCount c - 1)).refCount n
      = base n + refs L.freeChildren (untorn L ph D rt) n + P.count n := by
  have hn := h.count n
  have hpos := h.pos
  rw [setRefCount_refCount]
  rw [List.count_cons] at hn
  by_cases hnc : n = c
  · subst hnc; simp at hn ⊢; omega
  · simp [hnc, Ne.symm hnc] at hn ⊢; omega

/-- A count that goes down puts no object elsewhere. -/
theorem Tearing.place_dec (h : Tearing L ph base freed₀ total D (c :: P) rt) :
    ∃ new, rt.freed = freed₀ ++ new ∧ (rt.linked ++ new).Perm total ∧
      ∀ n ∈ new, (rt.setRefCount c (rt.refCount c - 1)).refCount n = 0 := by
  obtain ⟨new, hfreed, hperm, hnew⟩ := h.place
  refine ⟨new, hfreed, hperm, fun n hn => ?_⟩
  rw [setRefCount_refCount, hnew n hn]
  split
  · rename_i hnc; rw [← hnc, hnew n hn]
  · rfl

/-- The objects that wait to be freed have no references, and so they are not the one that loses
    one. -/
theorem Tearing.waiting_dec (h : Tearing L ph base freed₀ total D (c :: P) rt)
    (hph : ph ≠ .removeCycles) : rt.tmpObjList = [] ∧ ∀ n ∈ rt.gcZeroRefCountList,
      L.isValue n = true ∧ (rt.setRefCount c (rt.refCount c - 1)).refCount n = 0 := by
  obtain ⟨htmp, hzero⟩ := h.waiting hph
  refine ⟨htmp, fun n hn => ⟨(hzero n hn).1, ?_⟩⟩
  rw [setRefCount_refCount, (hzero n hn).2]
  split
  · rename_i hnc; rw [← hnc, (hzero n hn).2]
  · rfl

/-- An object that is no value has no references exactly while it is torn down. -/
theorem Tearing.aux_dec (h : Tearing L ph base freed₀ total D (c :: P) rt)
    (hstay : rt.refCount c - 1 ≠ 0 ∨ L.isValue c = true) {n : N} (hn : n ∈ rt.linked)
    (hval : L.isValue n = false) :
    (rt.setRefCount c (rt.refCount c - 1)).refCount n = 0 ↔ n ∈ D := by
  have hpos := h.pos
  rw [← h.aux n hn hval, setRefCount_refCount]
  by_cases hnc : n = c
  · subst hnc
    rw [hval] at hstay
    have := hstay.resolve_right Bool.false_ne_true
    simp; omega
  · rw [if_neg hnc]

/-- A reference is given up, and the object stays. -/
theorem Tearing.stay (h : Tearing L ph base freed₀ total D (c :: P) rt)
    (hstay : rt.refCount c - 1 ≠ 0 ∨ L.isValue c = true ∧ ph = .removeCycles) :
    Tearing L ph base freed₀ total D P (rt.setRefCount c (rt.refCount c - 1)) where
  phase := h.phase
  place := h.place_dec
  count := h.count_dec
  aux n hn hval := h.aux_dec (hstay.imp_right And.left) hn hval
  alive hph n hn hval := by
    have hdec := hstay.resolve_right fun hc => hph hc.2
    have := h.alive hph n hn hval
    rw [setRefCount_refCount]
    split <;> omega
  held := h.held
  pending n hn := h.pending n (List.mem_cons_of_mem _ hn)
  kept := h.kept
  waiting := h.waiting_dec
  quiet := h.quiet

/-- The last reference to a value is given up, which waits for its turn. -/
theorem Tearing.wait (h : Tearing L .decref base freed₀ total D (c :: P) rt)
    (hs : Sound L freed₀ total) (hval : L.isValue c = true) (hzero : rt.refCount c - 1 = 0) :
    Tearing L .decref base freed₀ total D P
      ((rt.setRefCount c (rt.refCount c - 1)).toZero c) := by
  have hpos := h.pos
  have hlinked := (h.mem_linked hs (h.pending c List.mem_cons_self) hpos).1
  obtain ⟨htmp, hwait⟩ := h.waiting nofun
  -- a waiting object has count zero, while this one still had a reference
  have hcz : c ∉ rt.gcZeroRefCountList := fun hcz => by have := (hwait c hcz).2; omega
  have hco : c ∈ rt.gcObjList := by
    rw [JSRuntime.linked, htmp, List.append_nil, List.mem_append] at hlinked
    exact hlinked.resolve_right hcz
  -- it moves from one list to the other, so the linked objects are the same
  have hperm : (rt.gcObjList.erase c ++ c :: rt.gcZeroRefCountList.erase c).Perm
      (rt.gcObjList ++ rt.gcZeroRefCountList) := by
    rw [List.erase_of_not_mem hcz]
    exact List.perm_middle.trans ((List.perm_cons_erase hco).symm.append_right _)
  have hlinked' : ((rt.setRefCount c (rt.refCount c - 1)).toZero c).linked.Perm rt.linked := by
    simp only [JSRuntime.linked, JSRuntime.toZero, JSRuntime.listDel, JSRuntime.setRefCount, htmp,
      List.erase_nil, List.append_nil]
    exact hperm
  obtain ⟨new, hfreed, hplace, hnew⟩ := h.place_dec
  refine ⟨h.phase, ⟨new, hfreed, (hlinked'.append_right _).trans hplace, hnew⟩, fun n => ?_,
    fun n hn hn' => ?_, fun n hn => hlinked'.symm.subset (h.held n hn),
    fun n hn => h.pending n (List.mem_cons_of_mem _ hn), nofun, fun _ => ⟨?_, fun n hn => ?_⟩,
    nofun,
    fun _ n hn hn' => ?_⟩
  · have huntorn : (untorn L .decref D ((rt.setRefCount c (rt.refCount c - 1)).toZero c)).Perm
        (untorn L .decref D rt) := hperm.filter _
    rw [refs_perm huntorn]
    exact h.count_dec n
  · exact h.aux_dec (.inr hval) (hlinked'.subset hn) hn'
  · show rt.tmpObjList.erase c = []
    rw [htmp]; rfl
  · rcases List.mem_cons.mp (show n ∈ c :: rt.gcZeroRefCountList.erase c from hn) with rfl | hn
    · refine ⟨hval, ?_⟩
      show (rt.setRefCount n _).refCount n = 0
      rw [setRefCount_refCount, if_pos rfl, hzero]
    · exact (h.waiting_dec nofun).2 n (List.mem_of_mem_erase hn)
  · have hdup : rt.gcObjList.Nodup :=
      (List.nodup_append.mp (List.nodup_append.mp (h.linked_nodup hs)).1).1
    obtain ⟨hnc, hn⟩ := hdup.mem_erase_iff.mp hn
    show 0 < (rt.setRefCount c _).refCount n
    rw [setRefCount_refCount, if_neg hnc]
    exact h.alive nofun n hn hn'

/-- An object whose last reference has gone still holds its own. -/
theorem Tearing.mem_holders_of_zero (h : Tearing L ph base freed₀ total D P rt)
    (hc : c ∈ rt.linked) (hval : L.isValue c = false) (hzero : rt.refCount c = 0) :
    c ∈ holders L ph rt := by
  refine mem_holders hc hval (fun hph hco => ?_) fun hph => (h.waiting hph).1
  have := h.kept hph c hco
  have := h.count c
  omega

/-- The last reference to an object that is freed at once: it begins to give up its own. -/
theorem Tearing.begin (h : Tearing L ph base freed₀ total D (c :: P) rt)
    (hs : Sound L freed₀ total) (hval : L.isValue c = false) (hzero : rt.refCount c - 1 = 0) :
    c ∉ D ∧ Tearing L ph base freed₀ total (c :: D) (L.freeChildren c ++ P)
      (rt.setRefCount c (rt.refCount c - 1)) := by
  have hpos := h.pos
  have htotal := h.pending c List.mem_cons_self
  have hlinked := (h.mem_linked hs htotal hpos).1
  -- an object that is torn down has count zero, while this one had a reference
  have hcD : c ∉ D := fun hcD => by have := (h.aux c hlinked hval).mpr hcD; omega
  -- so until now its children counted as held
  have hholds : c ∈ holders L ph rt := by
    refine mem_holders hlinked hval (fun hph hco => ?_) fun hph => (h.waiting hph).1
    have := h.kept hph c hco
    have := h.count_dec c
    rw [setRefCount_refCount, if_pos rfl] at this
    omega
  refine ⟨hcD, h.phase, h.place_dec, fun n => ?_, fun n hn hn' => ?_, fun n hn => ?_,
    fun n hn => ?_, h.kept, h.waiting_dec, h.quiet, fun hph n hn hn' => ?_⟩
  · -- its own references leave `untorn` and become pending drops
    rw [h.count_dec n, refs_perm (untorn_perm hholds hcD (holders_nodup (h.linked_nodup hs))),
      show ∀ l, c :: l = [c] ++ l from fun _ => rfl, refs_append, refs_singleton,
      List.count_append]
    show _ = base n + refs L.freeChildren (untorn L ph (c :: D) rt) n + _
    omega
  · rw [setRefCount_refCount, List.mem_cons, ← h.aux n hn hn']
    by_cases hnc : n = c <;> simp [hnc, hzero]
  · rcases List.mem_cons.mp hn with rfl | hn
    · exact hlinked
    · exact h.held n hn
  · rcases List.mem_append.mp hn with hn | hn
    · exact hs.closed c htotal n hn
    · exact h.pending n (List.mem_cons_of_mem _ hn)
  · have hnc : n ≠ c := fun hnc => by rw [hnc, hval] at hn'; exact nomatch hn'
    rw [setRefCount_refCount, if_neg hnc]
    exact h.alive hph n hn hn'

/-- An object that is freed goes from the lists to those freed. -/
theorem release_linked (hp : p ∈ rt.linked) (hnodup : rt.linked.Nodup) (new : List N) :
    ((rt.release p).linked ++ (new ++ [p])).Perm (rt.linked ++ new) := by
  rw [← List.append_assoc]
  refine (List.perm_append_singleton _ _).trans ?_
  exact ((linked_listDel hp hnodup).symm.append_right _)

/-- An object without references has given up its own, and is released. -/
theorem Tearing.release (h : Tearing L ph base freed₀ total (c :: D) P rt)
    (hs : Sound L freed₀ total) (hcD : c ∉ D) (hholds : c ∈ holders L ph rt)
    (hzero : rt.refCount c = 0) :
    Tearing L ph base freed₀ total D P (rt.release c) := by
  have hlinked := h.held c List.mem_cons_self
  have hnodup := h.linked_nodup hs
  obtain ⟨new, hfreed, hperm, hnew⟩ := h.place
  -- `release` unlinks `c` and nothing else
  have hback : ∀ n, n ∈ (rt.release c).linked ↔ n ∈ rt.linked ∧ n ≠ c := by
    intro n
    have hp := linked_listDel hlinked hnodup
    have hcl : c ∉ (rt.listDel c).linked := (List.nodup_cons.mp (hp.nodup_iff.mp hnodup)).1
    have hmem : n ∈ rt.linked ↔ n = c ∨ n ∈ (rt.listDel c).linked :=
      hp.mem_iff.trans List.mem_cons
    show n ∈ (rt.listDel c).linked ↔ _
    rw [hmem]
    constructor
    · exact fun hn => ⟨.inr hn, fun hnc => hcl (hnc ▸ hn)⟩
    · exact fun hn => hn.1.resolve_left hn.2
  refine ⟨h.phase,
    ⟨new ++ [c], ?_, (release_linked hlinked hnodup new).trans hperm, fun n hn => ?_⟩,
    fun n => ?_, fun n hn hval => ?_, fun n hn => ?_, h.pending, fun hph n hn => ?_, fun hph => ?_,
    fun hph => ?_, fun hph n hn => h.alive hph n (List.mem_of_mem_erase hn)⟩
  · show rt.freed ++ [c] = _
    rw [hfreed, List.append_assoc]
  · rcases List.mem_append.mp hn with hn | hn
    · exact hnew n hn
    · rw [List.mem_singleton.mp hn]; exact hzero
  · -- `c` was torn down already, so `untorn` does not change
    refine (h.count n).trans ?_
    rw [refs_perm (untorn_listDel hholds (holders_nodup hnodup) hcD).symm]
    cases ph <;> rfl
  · obtain ⟨hn, hnc⟩ := (hback n).mp hn
    exact (h.aux n hn hval).trans (by simp [hnc])
  · exact (hback n).mpr ⟨h.held n (List.mem_cons_of_mem _ hn), fun hnc => hcD (hnc ▸ hn)⟩
  · exact h.kept hph n (List.mem_of_mem_erase hn)
  · obtain ⟨htmp, hwait⟩ := h.waiting hph
    refine ⟨?_, fun n hn => hwait n (List.mem_of_mem_erase hn)⟩
    show rt.tmpObjList.erase c = []
    rw [htmp]; rfl
  · show rt.gcZeroRefCountList.erase c = []
    rw [h.quiet hph]; rfl

/-- References given up one after the other. -/
theorem Tearing.fold {f : JSRuntime N → N → Option (JSRuntime N)} {cs : List N}
    (step : ∀ rt c P, c ∈ cs → Tearing L ph base freed₀ total D (c :: P) rt →
      ∃ rt', f rt c = some rt' ∧ Tearing L ph base freed₀ total D P rt' ∧ Frame ph rt rt')
    (h : Tearing L ph base freed₀ total D (cs ++ P) rt) :
    ∃ rt', cs.foldlM f rt = some rt' ∧ Tearing L ph base freed₀ total D P rt' ∧
      Frame ph rt rt' := by
  induction cs generalizing rt with
  | nil => exact ⟨rt, rfl, h, .refl ph rt⟩
  | cons c cs ih =>
    obtain ⟨rt₁, h₁, ht₁, hf₁⟩ := step rt c (cs ++ P) List.mem_cons_self h
    obtain ⟨rt₂, h₂, ht₂, hf₂⟩ :=
      ih (fun rt c P hc => step rt c P (List.mem_cons_of_mem _ hc)) ht₁
    exact ⟨rt₂, by rw [List.foldlM_cons, h₁]; exact h₂, ht₂, hf₁.trans hf₂⟩

/-- Freeing an object that is not kept is within the frame. -/
theorem frame_release (ph : JSGCPhaseEnum) (hkept : ph = .removeCycles → p ∉ rt.gcObjList) :
    Frame ph rt (rt.release p) :=
  ⟨rfl, fun _ => List.mem_of_mem_erase, fun _ => List.mem_of_mem_erase,
    fun hph => ⟨List.erase_of_not_mem (hkept hph), fun _ => List.mem_of_mem_erase⟩,
    List.prefix_append _ _, fun _ => Nat.le_refl _⟩

/-- Another phase, when no cycles are removed. -/
theorem Tearing.setPhase (h : Tearing L ph base freed₀ total D P rt) {ph' : JSGCPhaseEnum}
    (hph : ph ≠ .removeCycles) (hph' : ph' ≠ .removeCycles)
    (hquiet : ph' = .none → rt.gcZeroRefCountList = []) :
    Tearing L ph' base freed₀ total D P (rt.setPhase ph') where
  phase := rfl
  place := h.place
  count n := by
    have : untorn L ph' D (rt.setPhase ph') = untorn L ph D rt := by
      cases ph <;> cases ph' <;> first | rfl | exact absurd rfl hph | exact absurd rfl hph'
    rw [this]
    exact h.count n
  aux := h.aux
  held := h.held
  pending := h.pending
  kept hr := absurd hr hph'
  waiting _ := h.waiting hph
  quiet := hquiet
  alive _ := h.alive hph

/-- What `free_zero_refcount` has to do where it is called: free what waits. -/
def FreesZero (L : Layout N) (base : N → ℕ) (freed₀ total : List N)
    (freeZero : JSRuntime N → Option (JSRuntime N)) : Prop :=
  ∀ D P rt, (∀ n ∈ D, L.isValue n = false) →
    Tearing L .decref base freed₀ total D P (rt.setPhase .decref) →
    ∃ rt', freeZero rt = some rt' ∧ Tearing L .none base freed₀ total D P rt' ∧ Frame .none rt rt'

/-- **A reference is given up.**  No assertion fails, nothing that was freed is looked at, and the
    accounting goes on. -/
theorem Tearing.dropRef (hs : Sound L freed₀ total)
    {freeZero : JSRuntime N → Option (JSRuntime N)}
    (hz : ph = .none → FreesZero L base freed₀ total freeZero) {depth : ℕ}
    (hD : ph = .none → ∀ n ∈ D, L.isValue n = false)
    (hdepth : (L.gcObjType c).rank < depth) (h : Tearing L ph base freed₀ total D (c :: P) rt) :
    ∃ rt', dropRef L freeZero depth rt c = some rt' ∧
      Tearing L ph base freed₀ total D P rt' ∧ Frame ph rt rt' := by
  induction depth generalizing rt c D P with
  | zero => exact absurd hdepth (Nat.not_lt_zero _)
  | succ depth ih =>
    have hpos := h.pos
    have htotal := h.pending c List.mem_cons_self
    obtain ⟨hlinked, hfreed⟩ := h.mem_linked hs htotal hpos
    -- a reference is still to be dropped, so the count is positive and `c` not deleted
    have hguard : ¬ (c ∈ rt.freed ∨ rt.refCount c = 0) := fun hor =>
      hor.elim hfreed fun hz => by omega
    rw [Gc.dropRef, if_neg hguard]
    -- the count stays above zero, or it reaches zero and the kind of `c` decides
    by_cases hstay : rt.refCount c - 1 ≠ 0
    · refine ⟨_, if_pos (by simpa using hstay), h.stay (.inl hstay), frame_dec ph rt c⟩
    rw [if_neg (by simpa using hstay)]
    rw [not_not] at hstay
    by_cases hval : L.isValue c = true
    · rw [if_pos hval, freeValueZero, setRefCount_gcPhase, h.phase]
      cases ph with
      | none =>
        -- outside of a collection the value waits, and the loop is entered at once
        have hdecref : Tearing L .decref base freed₀ total D (c :: P) (rt.setPhase .decref) :=
          h.setPhase nofun nofun nofun
        have hwait := hdecref.wait hs hval hstay
        obtain ⟨rt', hrun, hrt', hframe⟩ :=
          hz rfl D P ((rt.setRefCount c (rt.refCount c - 1)).toZero c) (hD rfl) hwait
        refine ⟨rt', hrun, hrt', .trans ?_ hframe⟩
        exact (frame_dec .none rt c).trans ⟨rfl, fun _ => List.mem_of_mem_erase,
          fun _ => List.mem_of_mem_erase, nofun, List.prefix_refl _, fun _ => Nat.le_refl _⟩
      -- `gc_free_cycles` has torn it down or is about to
      | removeCycles => exact ⟨_, rfl, h.stay (.inr ⟨hval, rfl⟩), frame_dec _ rt c⟩
      | decref =>
        -- the loop is running already: the value joins the list
        refine ⟨_, rfl, h.wait hs hval hstay, .trans (frame_dec _ rt c) ?_⟩
        exact ⟨rfl, fun _ => List.mem_of_mem_erase, fun _ => List.mem_of_mem_erase, nofun,
          List.prefix_refl _, fun _ => Nat.le_refl _⟩
    · rw [Bool.not_eq_true] at hval
      rw [if_neg (by rw [hval]; exact Bool.false_ne_true)]
      -- no value: its children go first, by induction on the rank
      obtain ⟨hcD, hbegin⟩ := h.begin hs hval hstay
      obtain ⟨rt', hfold, hrt', hframe⟩ := hbegin.fold fun rt c' P hc' h' =>
        ih (fun hph n hn => (List.mem_cons.mp hn).elim (fun hnc => hnc ▸ hval) (hD hph n))
          (Nat.lt_of_lt_of_le (hs.ranked c htotal hval c' hc') (Nat.lt_succ_iff.mp hdepth)) h'
      have hlinked' := hrt'.held c List.mem_cons_self
      have hzero := (hrt'.aux c hlinked' hval).mpr List.mem_cons_self
      have hholds := hrt'.mem_holders_of_zero hlinked' hval hzero
      refine ⟨_, by rw [hfold]; rfl, hrt'.release hs hcD hholds hzero, ?_⟩
      refine ((frame_dec ph rt c).trans hframe).trans (frame_release ph fun hph hco => ?_)
      have := hrt'.kept hph c hco
      have := hrt'.count c
      omega

theorem rank_lt (t : JSGCObjectTypeEnum) : t.rank < 3 := by cases t <;> decide

/-- A reference given up while objects are freed. -/
theorem Tearing.dropNested (hs : Sound L freed₀ total) (hne : ph ≠ .none)
    (h : Tearing L ph base freed₀ total D (c :: P) rt) :
    ∃ rt', dropNested L rt c = some rt' ∧
      Tearing L ph base freed₀ total D P rt' ∧ Frame ph rt rt' :=
  h.dropRef hs (fun hph => absurd hph hne) (fun hph => absurd hph hne) (rank_lt _)

/-! ### Values -/

/-- A value that begins to give up its references. -/
theorem Tearing.beginValue (h : Tearing L ph base freed₀ total D P rt) (hs : Sound L freed₀ total)
    (hval : L.isValue p = true) (hp : p ∈ holders L ph rt) (hpD : p ∉ D) :
    Tearing L ph base freed₀ total (p :: D) (L.freeChildren p ++ P) rt where
  phase := h.phase
  place := h.place
  count n := by
    rw [h.count n, refs_perm (untorn_perm hp hpD (holders_nodup (h.linked_nodup hs))),
      show ∀ l, p :: l = [p] ++ l from fun _ => rfl, refs_append, refs_singleton,
      List.count_append]
    omega
  aux n hn hval' := by
    have hnp : n ≠ p := fun hnp => by rw [hnp, hval] at hval'; exact nomatch hval'
    rw [h.aux n hn hval', List.mem_cons]
    exact (or_iff_right hnp).symm
  held n hn := by
    rcases List.mem_cons.mp hn with rfl | hn
    · exact (holders_sublist L ph rt).subset hp
    · exact h.held n hn
  pending n hn := by
    rcases List.mem_append.mp hn with hn | hn
    · exact hs.closed p (h.mem_total ((holders_sublist L ph rt).subset hp)) n hn
    · exact h.pending n hn
  kept := h.kept
  waiting := h.waiting
  quiet := h.quiet
  alive := h.alive

/-- An object that waits for the second loop stays linked. -/
theorem toZeroTail_linked (hp : p ∈ rt.linked) (hnodup : rt.linked.Nodup) :
    (rt.toZeroTail p).linked.Perm rt.linked := by
  have happ : (rt.toZeroTail p).linked = (rt.listDel p).linked ++ [p] :=
    (List.append_assoc ..).symm
  rw [happ]
  exact (List.perm_append_singleton _ _).trans (linked_listDel hp hnodup).symm

/-- An object moves to `gc_zero_ref_count_list` while cycles are removed. -/
theorem Tearing.toZeroTail {D' : List N}
    (h : Tearing L .removeCycles base freed₀ total D' P rt)
    (hs : Sound L freed₀ total) (hp : p ∈ rt.linked)
    (hperm : (untorn L .removeCycles D (rt.toZeroTail p)).Perm (untorn L .removeCycles D' rt))
    (haux : ∀ n, L.isValue n = false → (n ∈ D ↔ n ∈ D')) (hD : ∀ n ∈ D, n ∈ D') :
    Tearing L .removeCycles base freed₀ total D P (rt.toZeroTail p) := by
  have hlinked := toZeroTail_linked hp (h.linked_nodup hs)
  obtain ⟨new, hfreed, hplace, hnew⟩ := h.place
  refine ⟨h.phase, ⟨new, hfreed, (hlinked.append_right _).trans hplace, hnew⟩, fun n => ?_,
    fun n hn hval => ?_, fun n hn => hlinked.symm.subset (h.held n (hD n hn)), h.pending,
    fun _ n hn => h.kept rfl n (List.mem_of_mem_erase hn), fun hph => absurd rfl hph, nofun,
    fun hph => absurd rfl hph⟩
  · rw [refs_perm hperm]
    exact h.count n
  · exact (h.aux n (hlinked.subset hn) hval).trans (haux n hval).symm

/-- What the freeing of `p` leaves alone. -/
structure FreedOne (ph : JSGCPhaseEnum) (p : N) (rt rt' : JSRuntime N) : Prop where
  mark : rt'.mark = rt.mark
  tmp : ∀ n ∈ rt'.tmpObjList, n ∈ rt.tmpObjList ∧ n ≠ p
  objs : ∀ n ∈ rt'.gcObjList, n ∈ rt.gcObjList
  kept : ph = .removeCycles → rt'.gcObjList = rt.gcObjList
  freed : rt.freed <+: rt'.freed
  grows : ph = .decref → rt.freed.length < rt'.freed.length
  le : ∀ n, rt'.refCount n ≤ rt.refCount n

/-- While cycles are removed, a value that holds references is still in `tmp_obj_list`. -/
theorem mem_tmp_of_holders (hval : L.isValue p = true) (hp : p ∈ holders L .removeCycles rt)
    (hnodup : rt.linked.Nodup) :
    p ∈ rt.tmpObjList ∧ p ∉ rt.gcObjList ∧ p ∉ rt.gcZeroRefCountList := by
  have htmp : p ∈ rt.tmpObjList := by simpa [holders, hval] using hp
  have hone := List.nodup_iff_count_eq_one.mp hnodup p ((holders_sublist L _ rt).subset hp)
  have hpos := List.count_pos_iff.mpr htmp
  rw [JSRuntime.linked, List.count_append, List.count_append] at hone
  refine ⟨htmp, fun hmem => ?_, fun hmem => ?_⟩ <;>
    · have := List.count_pos_iff.mpr hmem
      omega

/-- **A value is freed.** -/
theorem Tearing.freeGcObject (h : Tearing L ph base freed₀ total D P rt)
    (hs : Sound L freed₀ total) (hne : ph ≠ .none) (hval : L.isValue p = true)
    (hp : p ∈ holders L ph rt) (hpD : p ∉ D) (hzero : ph = .decref → rt.refCount p = 0) :
    ∃ rt', freeGcObject L rt p = some rt' ∧ Tearing L ph base freed₀ total D P rt' ∧
      FreedOne ph p rt rt' := by
  obtain ⟨rt₁, hfold, h₁, hframe⟩ :=
    (h.beginValue hs hval hp hpD).fold fun rt c P _ h' => h'.dropNested hs hne
  have hlinked := h₁.held p List.mem_cons_self
  have hnodup := h₁.linked_nodup hs
  -- dropping the children only takes objects out of `tmpObjList`
  have htmp₁ : ∀ n ∈ rt₁.tmpObjList.erase p, n ∈ rt.tmpObjList ∧ n ≠ p := fun n hn =>
    have hn' := ((List.nodup_append.mp (List.nodup_append.mp hnodup).1).2.1.mem_erase_iff).mp hn
    ⟨hframe.tmp n hn'.2, hn'.1⟩
  -- `p` is still there when its children are dropped
  have hholds : p ∈ holders L ph rt₁ := by
    cases ph with
    | none => exact absurd rfl hne
    | decref =>
      rw [JSRuntime.linked, (h₁.waiting nofun).1, List.append_nil] at hlinked
      exact hlinked
    | removeCycles =>
      obtain ⟨-, hpo, hpz⟩ := mem_tmp_of_holders hval hp (h.linked_nodup hs)
      obtain ⟨hobjs, hsub⟩ := hframe.kept rfl
      rw [JSRuntime.linked, hobjs, List.mem_append, List.mem_append] at hlinked
      exact List.mem_append_left _ ((hlinked.resolve_right fun hz => hpz (hsub p hz)).resolve_left
        hpo)
  have hkept : ph = .removeCycles → rt₁.gcObjList.erase p = rt.gcObjList := by
    rintro rfl
    have hpo := (mem_tmp_of_holders hval hp (h.linked_nodup hs)).2.1
    rw [(hframe.kept rfl).1, List.erase_of_not_mem hpo]
  rw [Gc.freeGcObject, if_pos hval, hfold]
  -- a value that others still refer to is kept until the end of the collection
  by_cases hzombie : rt₁.gcPhase = .removeCycles ∧ rt₁.refCount p ≠ 0
  · refine ⟨rt₁.toZeroTail p, by rw [Option.map_some, if_pos hzombie], ?_, hframe.mark, htmp₁,
      fun n hn => hframe.objs n (List.mem_of_mem_erase hn), hkept, hframe.freed, fun hph => ?_,
      hframe.le⟩
    · obtain rfl : ph = .removeCycles := h₁.phase.symm.trans hzombie.1
      refine h₁.toZeroTail hs hlinked ?_ (fun n hn => ?_) fun n => List.mem_cons_of_mem _
      · have hholders : holders L .removeCycles (rt₁.toZeroTail p)
            = holders L .removeCycles (rt₁.listDel p) := by
          show rt₁.tmpObjList.erase p ++ (rt₁.gcZeroRefCountList.erase p ++ [p]).filter _ = _
          rw [List.filter_append, List.filter_singleton, hval]
          exact congrArg _ (List.append_nil _)
        rw [untorn, hholders]
        exact untorn_listDel hholds (holders_nodup hnodup) hpD
      · have hnp : n ≠ p := fun hnp => by rw [hnp, hval] at hn; exact nomatch hn
        rw [List.mem_cons, or_iff_right hnp]
    · rw [hph] at h₁
      rw [h₁.phase] at hzombie
      exact nomatch hzombie.1
  · refine ⟨rt₁.release p, by rw [Option.map_some, if_neg hzombie], h₁.release hs hpD hholds ?_,
      hframe.mark, htmp₁, fun n hn => hframe.objs n (List.mem_of_mem_erase hn), hkept,
      hframe.freed.trans (List.prefix_append _ _), fun _ => ?_, hframe.le⟩
    · cases ph with
      | none => exact absurd rfl hne
      | decref => have := hframe.le p; have := hzero rfl; omega
      | removeCycles =>
        by_contra hnz
        exact hzombie ⟨h₁.phase, hnz⟩
    · show rt.freed.length < (rt₁.freed ++ [p]).length
      rw [List.length_append, List.length_singleton]
      exact Nat.lt_succ_of_le hframe.freed.length_le

/-! ### The loops -/

/-- One iteration of the loop over `tmp_obj_list`. -/
theorem Tearing.freeTmpStep (h : Tearing L .removeCycles base freed₀ total [] [] rt)
    (hs : Sound L freed₀ total) (hp : p ∈ rt.tmpObjList) :
    ∃ rt', (if L.isValue p then Gc.freeGcObject L rt p else some (rt.toZeroTail p)) = some rt' ∧
      Tearing L .removeCycles base freed₀ total [] [] rt' ∧ FreedOne .removeCycles p rt rt' := by
  have hnodup := h.linked_nodup hs
  have hholds : p ∈ holders L .removeCycles rt := List.mem_append_left _ hp
  by_cases hval : L.isValue p = true
  · rw [if_pos hval]
    exact h.freeGcObject hs nofun hval hholds List.not_mem_nil nofun
  · rw [if_neg hval]
    -- auxiliary objects wait at the end of the zero list until their owner goes
    have hlinked := (holders_sublist L _ rt).subset hholds
    have hpo : p ∉ rt.gcObjList := fun hpo =>
      (List.nodup_append.mp (List.nodup_append.mp hnodup).1).2.2 p hpo p hp rfl
    have htmp := (List.nodup_append.mp (List.nodup_append.mp hnodup).1).2.1
    refine ⟨_, rfl, h.toZeroTail hs hlinked (List.Perm.filter _ ?_) (fun _ _ => Iff.rfl)
      (fun _ => id), rfl, fun n hn => (htmp.mem_erase_iff.mp hn).symm,
      fun n hn => List.mem_of_mem_erase hn, fun _ => List.erase_of_not_mem hpo,
      List.prefix_refl _, nofun, fun _ => Nat.le_refl _⟩
    refine List.Perm.trans ?_ (holders_listDel hholds (holders_nodup hnodup)).symm
    have hholders : holders L .removeCycles (rt.toZeroTail p)
        = holders L .removeCycles (rt.listDel p) ++ [p] := by
      show rt.tmpObjList.erase p ++ (rt.gcZeroRefCountList.erase p ++ [p]).filter _ = _
      rw [List.filter_append, List.filter_singleton, Bool.eq_false_iff.mpr hval]
      exact (List.append_assoc ..).symm
    rw [hholders]
    exact List.perm_append_singleton _ _

/-- The loop ends with its list. -/
theorem freeTmp_nil (k : ℕ) (h : rt.tmpObjList = []) : freeTmp L k rt = some rt := by
  cases k with
  | zero => exact if_pos h
  | succ k => rw [freeTmp, h]

/-- The loop takes the first object of its list. -/
theorem freeTmp_cons {rest : List N} (k : ℕ) (h : rt.tmpObjList = p :: rest) :
    freeTmp L (k + 1) rt
      = (if L.isValue p then Gc.freeGcObject L rt p else some (rt.toZeroTail p)).bind
          (freeTmp L k) := by
  rw [freeTmp, h]

/-- The loop over `tmp_obj_list`: each iteration takes an object from the list, and the accounting
    is kept. -/
theorem freeTmp_run (hs : Sound L freed₀ total) {k : ℕ}
    (h : Tearing L .removeCycles base freed₀ total [] [] rt) (hk : rt.tmpObjList.length ≤ k) :
    ∃ rt', freeTmp L k rt = some rt' ∧ Tearing L .removeCycles base freed₀ total [] [] rt' ∧
      rt'.tmpObjList = [] ∧ rt'.gcObjList = rt.gcObjList ∧ rt'.mark = rt.mark := by
  induction k generalizing rt with
  | zero =>
    have hnil := List.length_eq_zero_iff.mp (Nat.le_zero.mp hk)
    exact ⟨rt, freeTmp_nil _ hnil, h, hnil, rfl, rfl⟩
  | succ k ih =>
    cases htmp : rt.tmpObjList with
    | nil => exact ⟨rt, freeTmp_nil _ htmp, h, htmp, rfl, rfl⟩
    | cons p rest =>
      obtain ⟨rt₁, hstep, h₁, hone⟩ := h.freeTmpStep hs (htmp ▸ List.mem_cons_self)
      -- each turn takes its object out of the list
      have hlen : rt₁.tmpObjList.length ≤ k := by
        have hsub : rt₁.tmpObjList ⊆ rest := fun n hn => by
          obtain ⟨hn, hnp⟩ := hone.tmp n hn
          rw [htmp] at hn
          exact (List.mem_cons.mp hn).resolve_left hnp
        have hnodup :=
          (List.nodup_append.mp (List.nodup_append.mp (h₁.linked_nodup hs)).1).2.1
        have hle := (List.subperm_of_subset hnodup hsub).length_le
        rw [htmp, List.length_cons] at hk
        omega
      obtain ⟨rt', hrun, h', hnil, hobjs, hmark⟩ := ih h₁ hlen
      refine ⟨rt', ?_, h', hnil, hobjs.trans (hone.kept rfl), hmark.trans hone.mark⟩
      rw [freeTmp_cons k htmp, hstep, Option.bind_some, hrun]

/-- The loop ends with its list. -/
theorem freeZeroLoop_nil (k : ℕ) (h : rt.gcZeroRefCountList = []) :
    freeZeroLoop L k rt = some rt := by
  cases k with
  | zero => exact if_pos h
  | succ k => rw [freeZeroLoop, h]

/-- The loop takes the first object of its list, which has no references. -/
theorem freeZeroLoop_cons {rest : List N} (k : ℕ) (h : rt.gcZeroRefCountList = p :: rest) :
    freeZeroLoop L (k + 1) rt
      = if rt.refCount p = 0 then (Gc.freeGcObject L rt p).bind (freeZeroLoop L k) else none := by
  rw [freeZeroLoop, h]

/-- Objects are linked or freed, and their number does not change. -/
theorem Tearing.size (h : Tearing L ph base freed₀ total D P rt) :
    rt.linked.length + rt.freed.length = total.length + freed₀.length := by
  obtain ⟨new, hfreed, hperm, -⟩ := h.place
  have hlen := hperm.length_eq
  rw [List.length_append] at hlen
  rw [hfreed, List.length_append]
  omega

/-- The loop of `free_zero_refcount`: what an iteration frees may add objects to its list, but each
    object is freed once. -/
theorem freeZeroLoop_run (hs : Sound L freed₀ total) {k : ℕ} (hD : ∀ n ∈ D, L.isValue n = false)
    (h : Tearing L .decref base freed₀ total D P rt) (hk : rt.linked.length ≤ k) :
    ∃ rt', freeZeroLoop L k rt = some rt' ∧ Tearing L .decref base freed₀ total D P rt' ∧
      rt'.gcZeroRefCountList = [] ∧ Frame .none rt rt' := by
  induction k generalizing rt with
  | zero =>
    have hnil := List.append_eq_nil_iff.mp (List.length_eq_zero_iff.mp (Nat.le_zero.mp hk))
    exact ⟨rt, freeZeroLoop_nil _ hnil.2, h, hnil.2, .refl _ _⟩
  | succ k ih =>
    cases hzero : rt.gcZeroRefCountList with
    | nil => exact ⟨rt, freeZeroLoop_nil _ hzero, h, hzero, .refl _ _⟩
    | cons p rest =>
      have hp : p ∈ rt.gcZeroRefCountList := hzero ▸ List.mem_cons_self
      obtain ⟨hval, hcount⟩ := (h.waiting nofun).2 p hp
      have hpD : p ∉ D := fun hpD => by rw [hD p hpD] at hval; exact nomatch hval
      obtain ⟨rt₁, hstep, h₁, hone⟩ :=
        h.freeGcObject hs nofun hval (List.mem_append_right _ hp) hpD fun _ => hcount
      -- each turn frees an object, so fewer are linked
      have hlen : rt₁.linked.length ≤ k := by
        have := h.size
        have := h₁.size
        have := hone.grows rfl
        omega
      obtain ⟨rt', hrun, h', hnil, hframe⟩ := ih h₁ hlen
      refine ⟨rt', ?_, h', hnil, .trans ⟨hone.mark, fun n hn => (hone.tmp n hn).1, hone.objs,
        nofun, hone.freed, hone.le⟩ hframe⟩
      rw [freeZeroLoop_cons k hzero, if_pos hcount, hstep, Option.bind_some, hrun]

/-- **`free_zero_refcount`** frees what waits, and what that leaves without references. -/
theorem freeZeroRefcount_frees (hs : Sound L freed₀ total) :
    FreesZero L base freed₀ total (freeZeroRefcount L) := by
  intro D P rt hD h
  have hlen : (rt.setPhase .decref).linked.length
      ≤ rt.gcObjList.length + rt.gcZeroRefCountList.length := by
    rw [JSRuntime.linked, (h.waiting nofun).1, List.append_nil, List.length_append]
    exact Nat.le_refl _
  obtain ⟨rt', hrun, h', hnil, hframe⟩ := freeZeroLoop_run hs hD h hlen
  refine ⟨rt'.setPhase .none, by rw [freeZeroRefcount, hrun, Option.map_some],
    h'.setPhase nofun nofun fun _ => hnil, ?_⟩
  exact ⟨hframe.mark, hframe.tmp, hframe.objs, nofun, hframe.freed, hframe.le⟩

end Accounting

end VideoPackages.Gc
