import VideoPackages.QuickjsGcFree

namespace VideoPackages.Gc

open RefGraph Traverse

/-!
# The heap of QuickJS over whole runs

* `jsRunGC_spec` — a collection frees exactly the objects that cannot be reached, each once, and
  leaves the references of the others as they were;
* `Heap` / `Heap.exec` — the heap, and what a program does with it: objects are made, references
  are copied, stored, taken and given up, and a collection may come at any time;
* `heap_safe` — in a run that gives up only references it has, no assertion fails, and nothing that
  can be reached is ever freed;
* `heap_prompt` — without cycles of references nothing is left for a collection to free;
* `heap_empty` — when no reference is left, a collection leaves no object.

An object that was freed is not made again: an address that is used twice is two objects.
All of this is about heaps without weak references, as in the modules before: with a `WeakMap`,
the value of a key that a collection frees may be left to the next collection.
-/

section Collection

variable {N : Type*} [DecidableEq N] {L : Layout N} {rt rt₁ : JSRuntime N}

/-- Between the operations, in a heap without weak references: nothing waits to be freed, and
    every object has a reference.  `mark_children` may miss references of an object that is
    referred to from outside (those on the stack of an async function that runs), of no other. -/
structure Quiescent (L : Layout N) (rt : JSRuntime N) : Prop where
  sound : Sound L rt.freed rt.gcObjList
  marks : ∀ n ∈ rt.gcObjList, rt.mark n = false
  zero : rt.gcZeroRefCountList = []
  phase : rt.gcPhase = .none
  pos : ∀ n ∈ rt.gcObjList, 0 < rt.refCount n
  count : ∀ n, refs L.freeChildren rt.gcObjList n ≤ rt.refCount n
  seen : ∀ n ∈ rt.gcObjList, (L.markChildren n).Subperm (L.freeChildren n)
  complete : ∀ n ∈ rt.gcObjList, rt.external L n = 0 → (L.markChildren n).Perm (L.freeChildren n)

/-- What `mark_children` visits is referred to. -/
theorem Quiescent.refs_le (h : Quiescent L rt) {K : List N} (hK : ∀ p ∈ K, p ∈ rt.gcObjList)
    (n : N) : refs L.markChildren K n ≤ refs L.freeChildren K n :=
  RefGraph.refs_mono fun p hp => (h.seen p (hK p hp)).count_le n

/-- A quiescent heap is one that the collector can count in. -/
theorem Quiescent.counted (h : Quiescent L rt) : Counted L rt where
  nodup := h.sound.nodup
  marks := h.marks
  closed p hp c hc := h.sound.closed p hp c ((h.seen p hp).subset hc)
  count n := Nat.le_trans (h.refs_le (fun _ => id) n) (h.count n)
  zero := h.zero

/-- What can be reached from outside. -/
abbrev Reached (L : Layout N) (rt : JSRuntime N) : N → Prop :=
  Live L.markChildren rt.gcObjList (rt.external L)

theorem Scanned.dead (h : Quiescent L rt) (hscan : Scanned L rt rt₁) {p : N}
    (hp : p ∈ rt₁.tmpObjList) : p ∈ rt.gcObjList ∧ ¬ Reached L rt p := by
  have hp₀ : p ∈ rt.gcObjList := hscan.perm.subset (List.mem_append_right _ hp)
  have hdisj := (List.nodup_append.mp (hscan.perm.nodup_iff.mpr h.sound.nodup)).2.2
  exact ⟨hp₀, fun hlive => hdisj p ((hscan.kept p).mpr hlive) p hp rfl⟩

/-- `mark_children` misses no reference of an object that is to be deleted. -/
theorem Quiescent.refs_tmp (h : Quiescent L rt) (hscan : Scanned L rt rt₁) (n : N) :
    refs L.markChildren rt₁.tmpObjList n = refs L.freeChildren rt₁.tmpObjList n :=
  refs_congr fun p hp => by
    obtain ⟨hp₀, hdead⟩ := hscan.dead h hp
    refine h.complete p hp₀ ?_
    by_contra hne
    exact hdead (.root hp₀ (Nat.pos_of_ne_zero hne))

/-- Before `gc_free_cycles`: what `gc_scan` does not keep has no other references than those of
    the objects that are to be deleted. -/
theorem Quiescent.dropped (h : Quiescent L rt) (hscan : Scanned L rt rt₁) {n : N}
    (hn : n ∈ rt.gcObjList) (hn₁ : n ∉ rt₁.gcObjList) :
    refs L.freeChildren rt₁.tmpObjList n = rt.refCount n := by
  have hdead : ¬ Reached L rt n := fun hlive => hn₁ ((hscan.kept n).mpr hlive)
  have hext : rt.external L n = 0 := by
    by_contra hne
    exact hdead (.root hn (Nat.pos_of_ne_zero hne))
  have hkept : refs L.markChildren rt₁.gcObjList n = 0 :=
    refs_eq_zero fun p hp => not_kid_of_not_live hdead ((hscan.kept p).mp hp)
  have hsum := refs_append L.markChildren rt₁.gcObjList rt₁.tmpObjList n
  have hle := h.counted.count n
  rw [refs_perm hscan.perm] at hsum
  rw [← h.refs_tmp hscan]
  rw [JSRuntime.external] at hext
  omega

/-- Before `gc_free_cycles`: what `gc_scan` keeps has other references. -/
theorem Quiescent.kept (h : Quiescent L rt) (hscan : Scanned L rt rt₁) {n : N}
    (hn : n ∈ rt₁.gcObjList) : refs L.freeChildren rt₁.tmpObjList n < rt.refCount n := by
  have hsum := refs_append L.markChildren rt₁.gcObjList rt₁.tmpObjList n
  have hle := h.counted.count n
  rw [refs_perm hscan.perm] at hsum
  rw [← h.refs_tmp hscan]
  cases (hscan.kept n).mp hn with
  | root _ hext => rw [JSRuntime.external] at hext; omega
  | kid hp hc =>
    have := refs_pos.mpr ⟨_, (hscan.kept _).mpr hp, hc⟩
    omega

/-- What is left when the objects `dead` are freed. -/
structure Collected (dead : List N) (base : N → ℕ) (rt rt' : JSRuntime N) : Prop where
  objs : rt'.gcObjList = rt.gcObjList
  mark : rt'.mark = rt.mark
  tmp : rt'.tmpObjList = []
  zero : rt'.gcZeroRefCountList = []
  phase : rt'.gcPhase = .none
  count : rt'.refCount = base
  freed : ∃ new, rt'.freed = rt.freed ++ new ∧ new.Perm dead

omit [DecidableEq N] in
/-- The second loop of `gc_free_cycles` frees the values that have waited for it. -/
theorem foldlM_freeZombie {zs : List N} (rt : JSRuntime N) (hzs : ∀ p ∈ zs, L.isValue p = true) :
    zs.foldlM (freeZombie L) rt = some { rt with freed := rt.freed ++ zs } := by
  induction zs generalizing rt with
  | nil => rw [List.append_nil]; rfl
  | cons p zs ih =>
    rw [List.foldlM_cons, freeZombie, if_pos (hzs p List.mem_cons_self)]
    refine (ih _ fun q hq => hzs q (List.mem_cons_of_mem _ hq)).trans ?_
    rw [List.append_assoc, List.singleton_append]

/-- A shape, variable reference or context that is still there at the end would be referred to by
    another one, of a higher rank. -/
theorem Tearing.zombies {base : N → ℕ} {freed₀ total : List N} (hs : Sound L freed₀ total)
    (h : Tearing L .removeCycles base freed₀ total [] [] rt) (htmp : rt.tmpObjList = [])
    (hbase : ∀ n ∈ total, n ∉ rt.gcObjList → base n = 0) :
    ∀ p ∈ rt.gcZeroRefCountList, L.isValue p = true := by
  have huntorn : untorn L .removeCycles [] rt
      = rt.gcZeroRefCountList.filter (fun p => !L.isValue p) := by
    rw [untorn, holders, htmp]; simp
  -- an auxiliary object left over is held by another of a higher rank, and ranks end
  have hup : ∀ p ∈ rt.gcZeroRefCountList, L.isValue p = false →
      ∃ q ∈ rt.gcZeroRefCountList, L.isValue q = false ∧
        (L.gcObjType p).rank < (L.gcObjType q).rank := by
    intro p hp hval
    have hlinked : p ∈ rt.linked := List.mem_append_right _ hp
    have htotal := h.mem_total hlinked
    have hpo : p ∉ rt.gcObjList := fun hpo =>
      (List.nodup_append.mp (h.linked_nodup hs)).2.2 p (List.mem_append_left _ hpo) p hp rfl
    have hne : rt.refCount p ≠ 0 := fun hz => List.not_mem_nil ((h.aux p hlinked hval).mp hz)
    have hcount := h.count p
    rw [hbase p htotal hpo, List.count_nil] at hcount
    obtain ⟨q, hq, hpq⟩ := refs_pos.mp
      (show 0 < refs L.freeChildren (untorn L .removeCycles [] rt) p by omega)
    rw [huntorn, List.mem_filter, Bool.not_eq_true'] at hq
    exact ⟨q, hq.1, hq.2, hs.ranked q (h.mem_total (List.mem_append_right _ hq.1)) hq.2 p hpq⟩
  intro p hp
  by_contra hval
  rw [Bool.not_eq_true] at hval
  obtain ⟨q, hq, hqval, hpq⟩ := hup p hp hval
  obtain ⟨r, hr, hrval, hqr⟩ := hup q hq hqval
  obtain ⟨s, -, -, hrs⟩ := hup r hr hrval
  have := rank_lt (L.gcObjType s)
  omega

/-- `gc_free_cycles` frees all that `gc_scan` has not kept, and nothing else. -/
theorem gcFreeCycles_spec {base : N → ℕ} {total : List N} (hs : Sound L rt.freed total)
    (h : Tearing L .removeCycles base rt.freed total [] [] (rt.setPhase .removeCycles))
    (hzero : rt.gcZeroRefCountList = [])
    (hbase : ∀ n ∈ total, n ∉ rt.gcObjList → base n = 0) :
    ∃ rt', gcFreeCycles L rt = some rt' ∧ Collected rt.tmpObjList base rt rt' := by
  -- the first loop empties `tmpObjList`, the second deletes the values that wait
  obtain ⟨rt₁, hrun, h₁, htmp, hobjs, hmark⟩ := freeTmp_run hs h (Nat.le_refl _)
  have hobjs' : rt₁.gcObjList = rt.gcObjList := hobjs
  have hvals := h₁.zombies hs htmp (by rw [hobjs']; exact hbase)
  obtain ⟨new, hfreed, hperm, -⟩ := h₁.place
  have hold : ∃ old, rt.freed = rt.freed ++ old ∧ (rt.linked ++ old).Perm total := by
    obtain ⟨old, hold, hperm, -⟩ := h.place
    exact ⟨old, hold, hperm⟩
  obtain ⟨old, hold, hperm₀⟩ := hold
  obtain rfl : old = [] := by simpa using hold
  refine ⟨{ rt₁.setPhase .none with
      freed := rt₁.freed ++ rt₁.gcZeroRefCountList
      gcZeroRefCountList := [] }, ?_, hobjs', hmark, htmp, rfl, rfl, funext fun n => ?_,
    new ++ rt₁.gcZeroRefCountList, ?_, ?_⟩
  · have hloop : freeTmp L rt.tmpObjList.length (rt.setPhase .removeCycles) = some rt₁ := hrun
    rw [gcFreeCycles, hloop, Option.bind_some, foldlM_freeZombie _ hvals]
    rfl
  · have hcount := h₁.count n
    have huntorn : untorn L .removeCycles [] rt₁ = [] := by
      rw [untorn, holders, htmp, List.nil_append, List.filter_filter, List.filter_eq_nil_iff]
      intro p hp
      simp [hvals p hp]
    rw [huntorn] at hcount
    show rt₁.refCount n = base n
    simpa [refs] using hcount
  · show rt₁.freed ++ _ = _
    rw [hfreed, List.append_assoc]
  · rw [JSRuntime.linked, htmp, hobjs', List.append_nil, List.append_assoc] at hperm
    rw [List.append_nil, JSRuntime.linked, hzero, List.append_nil] at hperm₀
    have hcancel := (List.perm_append_left_iff _).mp (hperm.trans hperm₀.symm)
    exact List.perm_append_comm.trans hcancel

/-- **A collection.**  No assertion fails; exactly what can be reached from outside is kept; every
    other object is freed, once; the counts of what is kept lose the references of what is freed,
    and its references from outside stay. -/
theorem jsRunGC_spec (h : Quiescent L rt) :
    ∃ rt' dead, jsRunGC L rt = some rt' ∧
      (∀ n, n ∈ rt'.gcObjList ↔ Reached L rt n) ∧
      (rt'.gcObjList ++ dead).Perm rt.gcObjList ∧
      (∃ new, rt'.freed = rt.freed ++ new ∧ new.Perm dead) ∧
      (∀ n, rt'.refCount n + refs L.freeChildren dead n = rt.refCount n) ∧
      (∀ n ∈ rt'.gcObjList, rt'.external L n = rt.external L n) ∧
      rt'.tmpObjList = [] ∧ Quiescent L rt' := by
  obtain ⟨rt₀, hdecref, hrt₀⟩ := gcDecref_spec h.counted
  obtain ⟨rt₁, hscan, hrt₁⟩ := gcScan_spec h.counted hrt₀
  have hle : ∀ n, refs L.freeChildren rt₁.gcObjList n + refs L.freeChildren rt₁.tmpObjList n
      ≤ rt.refCount n := fun n => by
    rw [← refs_append, refs_perm hrt₁.perm]
    exact h.count n
  have htear : Tearing L .removeCycles
      (fun n => rt.refCount n - refs L.freeChildren rt₁.tmpObjList n)
      rt₁.freed rt.gcObjList [] [] (rt₁.setPhase .removeCycles) :=
    { phase := rfl
      place := ⟨[], (List.append_nil _).symm, by
        show (rt₁.gcObjList ++ rt₁.tmpObjList ++ rt₁.gcZeroRefCountList ++ []).Perm _
        rw [hrt₁.zero, List.append_nil, List.append_nil]
        exact hrt₁.perm, by simp⟩
      count := fun n => by
        have huntorn : untorn L .removeCycles [] (rt₁.setPhase .removeCycles) = rt₁.tmpObjList := by
          show List.filter _ (rt₁.tmpObjList ++ rt₁.gcZeroRefCountList.filter _) = _
          rw [hrt₁.zero]; simp
        have := hle n
        rw [huntorn, List.count_nil]
        show rt₁.refCount n = _ - _ + _ + 0
        rw [hrt₁.count]
        omega
      aux := fun n hn _ => by
        have hn' : n ∈ rt₁.gcObjList ++ rt₁.tmpObjList ++ rt₁.gcZeroRefCountList := hn
        rw [hrt₁.zero, List.append_nil] at hn'
        have := h.pos n (hrt₁.perm.subset hn')
        show rt₁.refCount n = 0 ↔ _
        rw [hrt₁.count]
        simp; omega
      held := by simp
      pending := by simp
      kept := fun _ n hn => by
        have := h.kept hrt₁ (show n ∈ rt₁.gcObjList from hn)
        omega
      waiting := fun hph => absurd rfl hph
      quiet := nofun
      alive := fun hph => absurd rfl hph }
  obtain ⟨rt', hfree, hrt'⟩ := gcFreeCycles_spec (by rw [hrt₁.freed]; exact h.sound) htear hrt₁.zero
    fun n hn hn₁ => by rw [h.dropped hrt₁ hn hn₁, Nat.sub_self]
  obtain ⟨new, hnew, hperm⟩ := hrt'.freed
  have hcount : ∀ n, rt'.refCount n + refs L.freeChildren rt₁.tmpObjList n = rt.refCount n :=
    fun n => by
      have := hle n
      rw [hrt'.count]
      show rt.refCount n - refs L.freeChildren rt₁.tmpObjList n + _ = _
      omega
  have hobjs : ∀ n ∈ rt'.gcObjList, n ∈ rt.gcObjList := fun n hn =>
    hrt₁.perm.subset (List.mem_append_left _ (hrt'.objs ▸ hn))
  have hexternal : ∀ n, rt'.external L n = rt.external L n := fun n => by
    have hsum := refs_append L.markChildren rt₁.gcObjList rt₁.tmpObjList n
    have hn := hcount n
    rw [refs_perm hrt₁.perm] at hsum
    rw [← h.refs_tmp hrt₁] at hn
    rw [JSRuntime.external, JSRuntime.external, hrt'.objs]
    omega
  have hdup := hrt₁.perm.nodup_iff.mpr h.sound.nodup
  refine ⟨rt', rt₁.tmpObjList, ?_, fun n => hrt'.objs ▸ hrt₁.kept n, hrt'.objs ▸ hrt₁.perm,
    ⟨new, by rw [hnew, hrt₁.freed], hperm⟩, hcount, fun n _ => hexternal n, hrt'.tmp, ⟨?_, ?_,
    fun p hp c hc => ?_, fun n hn => h.sound.ranked n (hobjs n hn)⟩, fun n hn => ?_, hrt'.zero,
    hrt'.phase, fun n hn => ?_, fun n => ?_, fun n hn => h.seen n (hobjs n hn),
    fun n hn hext => h.complete n (hobjs n hn) (by rwa [← hexternal n])⟩
  · rw [jsRunGC, hdecref, Option.bind_some, hscan, Option.bind_some, hfree]
  · rw [hrt'.objs]
    exact (List.nodup_append.mp hdup).1
  · intro n hn
    rw [hnew, List.mem_append, hrt₁.freed]
    rintro (hmem | hmem)
    · exact h.sound.fresh n (hobjs n hn) hmem
    · exact (List.nodup_append.mp hdup).2.2 n (hrt'.objs ▸ hn) n (hperm.subset hmem) rfl
  · -- what an object that stays refers to has a reference that no deleted object has
    rw [hrt'.objs] at hp ⊢
    have hp₀ : p ∈ rt.gcObjList := hrt₁.perm.subset (List.mem_append_left _ hp)
    by_contra hc₁
    have hdrop := h.dropped hrt₁ (h.sound.closed p hp₀ c hc) hc₁
    have := hle c
    have := refs_pos.mpr ⟨p, hp, hc⟩
    omega
  · rw [hrt'.mark]
    exact hrt₁.marks n (hrt'.objs ▸ hn)
  · have := h.kept hrt₁ (hrt'.objs ▸ hn)
    have := hcount n
    omega
  · have := hle n
    have := hcount n
    rw [hrt'.objs]
    omega

/-- **Exactly the garbage.**  In a heap without weak references, a collection frees an object if
    and only if it cannot be reached from outside, and then once; the references from outside to
    the others stay; and a second collection would find nothing to free. -/
theorem jsRunGC_exact (h : Quiescent L rt) :
    ∃ rt', jsRunGC L rt = some rt' ∧ Quiescent L rt' ∧
      (∀ n ∈ rt.gcObjList, Reached L rt n →
        n ∈ rt'.gcObjList ∧ n ∉ rt'.freed ∧ rt'.external L n = rt.external L n) ∧
      (∀ n ∈ rt.gcObjList, ¬ Reached L rt n → n ∉ rt'.gcObjList ∧ rt'.freed.count n = 1) ∧
      ∃ rt'', jsRunGC L rt' = some rt'' ∧ rt''.freed = rt'.freed := by
  obtain ⟨rt', dead, hrun, hobjs, hperm, ⟨new, hfreed, hnew⟩, -, hext, -, hrt'⟩ := jsRunGC_spec h
  have hdup := hperm.nodup_iff.mpr h.sound.nodup
  -- outside counts are the same after the run, so all that is left is live again
  have hagain : ∀ n ∈ rt'.gcObjList, Reached L rt' n := fun n hn =>
    ((hobjs n).mp hn).mono fun m hm hpos => by
      have hm' := (hobjs m).mpr (.root hm hpos)
      exact ⟨hm', by rwa [hext m hm']⟩
  refine ⟨rt', hrun, hrt', fun n hn hlive => ?_, fun n hn hdead => ?_, ?_⟩
  · have hn' := (hobjs n).mpr hlive
    exact ⟨hn', hrt'.sound.fresh n hn', hext n hn'⟩
  · have hn' : n ∉ rt'.gcObjList := fun hn' => hdead ((hobjs n).mp hn')
    have hnd : n ∈ dead := (List.mem_append.mp (hperm.symm.subset hn)).resolve_left hn'
    refine ⟨hn', ?_⟩
    rw [hfreed, List.count_append, List.count_eq_zero_of_not_mem (h.sound.fresh n hn),
      hnew.count_eq, List.nodup_iff_count_eq_one.mp (List.nodup_append.mp hdup).2.1 n hnd]
  · obtain ⟨rt'', dead', hrun', hobjs', hperm', ⟨new', hfreed', hnew'⟩, -⟩ := jsRunGC_spec hrt'
    refine ⟨rt'', hrun', ?_⟩
    have hdup' := hperm'.nodup_iff.mpr hrt'.sound.nodup
    -- nothing is left to delete
    obtain rfl : dead' = [] := List.eq_nil_iff_forall_not_mem.mpr fun n hn =>
      (List.nodup_append.mp hdup').2.2 n
        ((hobjs' n).mpr (hagain n (hperm'.subset (List.mem_append_right _ hn)))) n hn rfl
    rw [hfreed', List.perm_nil.mp hnew', List.append_nil]

end Collection

/-! ### Runs -/

section Model

variable {N : Type*} [DecidableEq N]

/-- The heap: the objects with their kinds and the references they have, and the references `ext`
    that the program has. -/
structure Heap (N : Type*) where
  kind : N → JSGCObjectTypeEnum
  kids : N → List N
  ext : N → ℕ
  rt : JSRuntime N

/-- What the collector sees of the heap. -/
def Heap.layout (h : Heap N) : Layout N := ⟨h.kind, h.kids, h.kids⟩

/-- What a program does with the heap. -/
inductive HeapOp (N : Type*) where
  /-- A GC object of a kind is made, and takes over references. -/
  | new (p : N) (kind : JSGCObjectTypeEnum) (cs : List N)
  /-- `JS_DupValue` and the like. -/
  | dup (p : N)
  /-- `JS_FreeValue` and the like. -/
  | free (p : N)
  /-- A field takes over a reference of the program. -/
  | store (p c : N)
  /-- The program takes over a reference of a field. -/
  | take (p c : N)
  /-- `JS_RunGC`. -/
  | runGC

/-- `add_gc_object`, with a first reference. -/
def JSRuntime.addGcObject (rt : JSRuntime N) (p : N) : JSRuntime N :=
  { (rt.setRefCount p 1).setMark p false with gcObjList := rt.gcObjList ++ [p] }

/-- One operation. -/
def Heap.exec : HeapOp N → Heap N → Option (Heap N)
  | .new p kind cs, h => some
    { kind := Function.update h.kind p kind
      kids := Function.update h.kids p cs
      ext := fun n => h.ext n - cs.count n + [p].count n
      rt := h.rt.addGcObject p }
  | .dup p, h => some
    { h with
      ext := fun n => h.ext n + [p].count n
      rt := h.rt.setRefCount p (h.rt.refCount p + 1) }
  | .free p, h => (jsFreeRef h.layout h.rt p).map fun rt =>
    { h with ext := fun n => h.ext n - [p].count n, rt := rt }
  | .store p c, h => some
    { h with
      kids := Function.update h.kids p (h.kids p ++ [c])
      ext := fun n => h.ext n - [c].count n }
  | .take p c, h => some
    { h with
      kids := Function.update h.kids p ((h.kids p).erase c)
      ext := fun n => h.ext n + [c].count n }
  | .runGC, h => (jsRunGC h.layout h.rt).map fun rt => { h with rt := rt }

/-- The runtime at its start. -/
def Heap.init : Heap N where
  kind _ := .jsObject
  kids _ := []
  ext _ := 0
  rt := ⟨fun _ => 0, fun _ => false, [], [], [], .none, []⟩

/-- What the program can get hold of. -/
abbrev Heap.Live (h : Heap N) : N → Prop := RefGraph.Live h.kids h.rt.gcObjList h.ext

/-- A shape, a variable reference or a context refers to objects of a lower rank only. -/
def Ranked (kind : N → JSGCObjectTypeEnum) (p c : N) : Prop :=
  (kind p).isValue = false → (kind c).rank < (kind p).rank

/-- What a program may do: it gives away only references that it has, and gets hold of objects
    through references. -/
def Heap.Allowed (h : Heap N) : HeapOp N → Prop
  | .new p kind cs => p ∉ h.rt.gcObjList ∧ p ∉ h.rt.freed ∧ (∀ n, cs.count n ≤ h.ext n) ∧
    (kind.isValue = false → ∀ c ∈ cs, (h.kind c).rank < kind.rank)
  | .dup p => h.Live p
  | .free p => 0 < h.ext p
  | .store p c => h.Live p ∧ 0 < h.ext c ∧ Ranked h.kind p c
  | .take p c => h.Live p ∧ c ∈ h.kids p
  | .runGC => True

/-- Several operations. -/
def Heap.run (ops : List (HeapOp N)) (h : Heap N) : Option (Heap N) :=
  ops.foldlM (fun h op => h.exec op) h

/-- The heaps of all runs. -/
inductive Heap.Reachable : Heap N → Prop where
  | init : Reachable .init
  | step {h h' : Heap N} {op : HeapOp N} (hr : Reachable h) (hop : h.Allowed op)
      (hexec : h.exec op = some h') : Reachable h'

end Model

section Runs

variable {N : Type*} [DecidableEq N] {h h' : Heap N} {p c n : N} {cs : List N}
  {kind : JSGCObjectTypeEnum}

/-- **Invariant of all runs.**  The counts are exact. -/
structure Heap.Inv (h : Heap N) : Prop where
  sound : Sound h.layout h.rt.freed h.rt.gcObjList
  marks : ∀ n ∈ h.rt.gcObjList, h.rt.mark n = false
  tmp : h.rt.tmpObjList = []
  zero : h.rt.gcZeroRefCountList = []
  phase : h.rt.gcPhase = .none
  pos : ∀ n ∈ h.rt.gcObjList, 0 < h.rt.refCount n
  count : ∀ n, h.rt.refCount n = h.ext n + refs h.kids h.rt.gcObjList n
  ext : ∀ n, n ∉ h.rt.gcObjList → h.ext n = 0
  once : h.rt.freed.Nodup

/-- The references of an object, after one object has got others. -/
theorem mem_update {kids : N → List N} {q : N} (hc : c ∈ Function.update kids p cs q) :
    q = p ∧ c ∈ cs ∨ q ≠ p ∧ c ∈ kids q := by
  by_cases hqp : q = p
  · subst hqp
    rw [Function.update_self] at hc
    exact .inl ⟨rfl, hc⟩
  · rw [Function.update_of_ne hqp] at hc
    exact .inr ⟨hqp, hc⟩

/-- What the program has a reference to is there. -/
theorem Heap.Inv.mem_of_ext (hi : h.Inv) (hn : 0 < h.ext n) : n ∈ h.rt.gcObjList := by
  by_contra hne
  have := hi.ext n hne
  omega

/-- So is all that can be reached from it. -/
theorem Heap.Inv.mem_of_live (hi : h.Inv) (hn : h.Live n) : n ∈ h.rt.gcObjList :=
  hn.mem (fun _ hm _ => hm) hi.sound.closed

/-- There are no objects at the beginning. -/
theorem Heap.Inv.init : (Heap.init : Heap N).Inv where
  sound := ⟨List.nodup_nil, nofun, nofun, nofun⟩
  marks := nofun
  tmp := rfl
  zero := rfl
  phase := rfl
  pos := nofun
  count _ := rfl
  ext _ _ := rfl
  once := List.nodup_nil

/-- An object that is made takes over references that the program has. -/
theorem Heap.Inv.new (hi : h.Inv) (ha : h.Allowed (.new p kind cs))
    (he : h.exec (.new p kind cs) = some h') : h'.Inv := by
  obtain ⟨hpo, hpf, hcs, hrank⟩ := ha
  obtain rfl := Option.some.inj he
  have hmem : ∀ c ∈ cs, c ∈ h.rt.gcObjList := fun c hc => by
    have := hcs c
    have := List.count_pos_iff.mpr hc
    exact hi.mem_of_ext (by omega)
  have hold : ∀ n ∈ h.rt.gcObjList, n ≠ p := fun n hn hnp => hpo (hnp ▸ hn)
  -- `p` is new: no other object's references change
  have hrefs : ∀ n, refs (Function.update h.kids p cs) (h.rt.gcObjList ++ [p]) n
      = refs h.kids h.rt.gcObjList n + cs.count n := fun n => by
    rw [refs_append, refs_singleton, Function.update_self]
    refine congrArg (· + _) (refs_congr fun q hq => ?_)
    rw [Function.update_of_ne (hold q hq)]
  -- nobody refers to `p` yet
  have hnone : refs h.kids h.rt.gcObjList p = 0 :=
    refs_eq_zero fun q hq hc => hpo (hi.sound.closed q hq p hc)
  have hp₀ : cs.count p = 0 := List.count_eq_zero_of_not_mem fun hc => hpo (hmem p hc)
  -- the outside hands over `cs` and holds the one reference to `p`
  have hcount : ∀ n, ((h.rt.setRefCount p 1).refCount n)
      = h.ext n - cs.count n + [p].count n
        + refs (Function.update h.kids p cs) (h.rt.gcObjList ++ [p]) n := fun n => by
    have := hi.count n
    have := hcs n
    rw [setRefCount_refCount, hrefs, List.count_singleton]
    by_cases hnp : n = p
    · subst hnp
      have := hi.ext n hpo
      simp; omega
    · simp [hnp, Ne.symm hnp]; omega
  refine ⟨⟨?_, fun n hn => ?_, fun q hq c hc => ?_, fun q hq hval c hc => ?_⟩, fun n hn => ?_,
    hi.tmp, hi.zero, hi.phase, fun n hn => ?_, hcount, fun n hn => ?_, hi.once⟩
  · exact List.nodup_append.mpr ⟨hi.sound.nodup, List.nodup_singleton p, fun n hn m hm hnm =>
      hold n hn (hnm.trans (List.mem_singleton.mp hm))⟩
  · rcases List.mem_append.mp hn with hn | hn
    · exact hi.sound.fresh n hn
    · rw [List.mem_singleton.mp hn]; exact hpf
  · refine List.mem_append_left _ ?_
    rcases mem_update hc with ⟨-, hc⟩ | ⟨hqp, hc⟩
    · exact hmem c hc
    · refine hi.sound.closed q ?_ c hc
      exact (List.mem_append.mp hq).resolve_right fun hq => hqp (List.mem_singleton.mp hq)
  · have hval' : (Function.update h.kind p kind q).isValue = false := hval
    show (Function.update h.kind p kind c).rank < (Function.update h.kind p kind q).rank
    rcases mem_update hc with ⟨rfl, hc'⟩ | ⟨hqp, hc⟩
    · rw [Function.update_self] at hval'
      rw [Function.update_self, Function.update_of_ne (hold c (hmem c hc'))]
      exact hrank hval' c hc'
    · have hq' : q ∈ h.rt.gcObjList :=
        (List.mem_append.mp hq).resolve_right fun hq => hqp (List.mem_singleton.mp hq)
      rw [Function.update_of_ne hqp] at hval' ⊢
      rw [Function.update_of_ne (hold c (hi.sound.closed q hq' c hc))]
      exact hi.sound.ranked q hq' hval' c hc
  · show ((h.rt.setRefCount p 1).setMark p false).mark n = false
    rw [setMark_mark]
    split
    · rfl
    · rename_i hnp
      exact hi.marks n
        ((List.mem_append.mp hn).resolve_right fun hn => hnp (List.mem_singleton.mp hn))
  · show 0 < (h.rt.setRefCount p 1).refCount n
    rw [setRefCount_refCount]
    split
    · exact Nat.one_pos
    · rename_i hnp
      exact hi.pos n
        ((List.mem_append.mp hn).resolve_right fun hn => hnp (List.mem_singleton.mp hn))
  · have hn' : n ∉ h.rt.gcObjList ++ [p] := hn
    rw [List.mem_append, not_or, List.mem_singleton] at hn'
    have := hi.ext n hn'.1
    show h.ext n - cs.count n + [p].count n = 0
    rw [List.count_singleton]
    simp [Ne.symm hn'.2]; omega

/-- A reference that is copied. -/
theorem Heap.Inv.dup (hi : h.Inv) (ha : h.Allowed (.dup p)) (he : h.exec (.dup p) = some h') :
    h'.Inv := by
  obtain rfl := Option.some.inj he
  have hp := hi.mem_of_live ha
  refine ⟨hi.sound, hi.marks, hi.tmp, hi.zero, hi.phase, fun n hn => ?_, fun n => ?_,
    fun n hn => ?_, hi.once⟩
  · have := hi.pos n hn
    show 0 < (h.rt.setRefCount p _).refCount n
    rw [setRefCount_refCount]
    split <;> omega
  · have := hi.count n
    show (h.rt.setRefCount p _).refCount n = h.ext n + [p].count n + refs h.kids h.rt.gcObjList n
    rw [setRefCount_refCount, List.count_singleton]
    by_cases hnp : n = p
    · subst hnp; simp; omega
    · simp [hnp, Ne.symm hnp]; omega
  · have hnp : ¬ p = n := fun hpn => hn (hpn ▸ hp)
    have := hi.ext n hn
    show h.ext n + [p].count n = 0
    rw [List.count_singleton]
    simp [hnp]; omega

/-- The references of an object change, and those of the program with them. -/
theorem Heap.Inv.setKids {ext : N → ℕ} (hi : h.Inv) (hp : p ∈ h.rt.gcObjList)
    (hcs : ∀ c ∈ cs, c ∈ h.rt.gcObjList) (hrank : ∀ c ∈ cs, Ranked h.kind p c)
    (hext : ∀ n, ext n + cs.count n = h.ext n + (h.kids p).count n) :
    Heap.Inv { h with kids := Function.update h.kids p cs, ext := ext } where
  sound :=
    { nodup := hi.sound.nodup
      fresh := hi.sound.fresh
      closed := fun q hq c hc => by
        rcases mem_update hc with ⟨-, hc⟩ | ⟨-, hc⟩
        · exact hcs c hc
        · exact hi.sound.closed q hq c hc
      ranked := fun q hq hval c hc => by
        rcases mem_update hc with ⟨rfl, hc'⟩ | ⟨-, hc⟩
        · exact hrank c hc' hval
        · exact hi.sound.ranked q hq hval c hc }
  marks := hi.marks
  tmp := hi.tmp
  zero := hi.zero
  phase := hi.phase
  pos := hi.pos
  count n := by
    have := hi.count n
    have := hext n
    -- the references of `p` are exchanged, all others stay
    have := refs_update h.kids cs hp hi.sound.nodup n
    show h.rt.refCount n = ext n + refs (Function.update h.kids p cs) h.rt.gcObjList n
    omega
  ext n hn := by
    have hkid : (h.kids p).count n = 0 :=
      List.count_eq_zero_of_not_mem fun hc => hn (hi.sound.closed p hp n hc)
    have := hext n
    have := hi.ext n hn
    show ext n = 0
    omega
  once := hi.once

/-- A reference that the program stores in an object. -/
theorem Heap.Inv.store (hi : h.Inv) (ha : h.Allowed (.store p c))
    (he : h.exec (.store p c) = some h') : h'.Inv := by
  obtain ⟨hlive, hc, hrank⟩ := ha
  obtain rfl := Option.some.inj he
  have hp := hi.mem_of_live hlive
  refine hi.setKids hp (fun c' hc' => ?_) (fun c' hc' => ?_) fun n => ?_
  · rcases List.mem_append.mp hc' with hc' | hc'
    · exact hi.sound.closed p hp c' hc'
    · rw [List.mem_singleton.mp hc']
      exact hi.mem_of_ext hc
  · rcases List.mem_append.mp hc' with hc' | hc'
    · exact fun hval => hi.sound.ranked p hp hval c' hc'
    · rw [List.mem_singleton.mp hc']
      exact hrank
  · rw [List.count_append, List.count_singleton]
    by_cases hcn : c = n
    · subst hcn; simp; omega
    · simp [hcn]

/-- A reference that the program takes out of an object. -/
theorem Heap.Inv.take (hi : h.Inv) (ha : h.Allowed (.take p c))
    (he : h.exec (.take p c) = some h') : h'.Inv := by
  obtain ⟨hlive, hc⟩ := ha
  obtain rfl := Option.some.inj he
  have hp := hi.mem_of_live hlive
  refine hi.setKids hp (fun c' hc' => hi.sound.closed p hp c' (List.mem_of_mem_erase hc'))
    (fun c' hc' hval => hi.sound.ranked p hp hval c' (List.mem_of_mem_erase hc')) fun n => ?_
  have hpos := List.count_pos_iff.mpr hc
  rw [List.count_erase, List.count_singleton]
  by_cases hcn : c = n
  · subst hcn; simp; omega
  · simp [hcn]

/-- The references from outside are those of the program. -/
theorem Heap.Inv.external (hi : h.Inv) : h.rt.external h.layout = h.ext := funext fun n => by
  have := hi.count n
  show h.rt.refCount n - refs h.kids h.rt.gcObjList n = h.ext n
  omega

/-- Between two operations the heap is quiescent. -/
theorem Heap.Inv.quiescent (hi : h.Inv) : Quiescent h.layout h.rt where
  sound := hi.sound
  marks := hi.marks
  zero := hi.zero
  phase := hi.phase
  pos := hi.pos
  count n := by
    have := hi.count n
    show refs h.kids h.rt.gcObjList n ≤ _
    omega
  seen _ _ := .refl _
  complete _ _ _ := .refl _

/-- A collection, and what it keeps. -/
theorem Heap.Inv.runGC (hi : h.Inv) :
    ∃ h', h.exec .runGC = some h' ∧ h'.Inv ∧ ∀ n, n ∈ h'.rt.gcObjList ↔ h.Live n := by
  obtain ⟨rt, dead, hrun, hobjs, hperm, ⟨new, hfreed, hnew⟩, hcount, -, htmp, hq⟩ :=
    jsRunGC_spec hi.quiescent
  -- the objects that stay are the live ones
  have hobjs' : ∀ n, n ∈ rt.gcObjList ↔ h.Live n := fun n => by
    rw [hobjs n, Reached, hi.external]
    rfl
  have hdup := hperm.nodup_iff.mpr hi.sound.nodup
  refine ⟨{ h with rt := rt }, by rw [Heap.exec, hrun, Option.map_some],
    ⟨hq.sound, hq.marks, htmp, hq.zero, hq.phase, hq.pos, fun n => ?_, fun n hn => ?_, ?_⟩, hobjs'⟩
  · have h₁ := hcount n
    have h₂ := hi.count n
    have h₃ := refs_append h.kids rt.gcObjList dead n
    rw [refs_perm hperm] at h₃
    show rt.refCount n = h.ext n + refs h.kids rt.gcObjList n
    have h₄ : refs h.layout.freeChildren dead n = refs h.kids dead n := rfl
    omega
  · by_contra hne
    have hpos := Nat.pos_of_ne_zero hne
    exact hn ((hobjs' n).mpr (.root (hi.mem_of_ext hpos) hpos))
  · show rt.freed.Nodup
    rw [hfreed]
    refine List.nodup_append.mpr ⟨hi.once, hnew.nodup_iff.mpr (List.nodup_append.mp hdup).2.1,
      fun n hn m hm hnm => ?_⟩
    subst hnm
    exact hi.sound.fresh n (hperm.subset (List.mem_append_right _ (hnew.subset hm))) hn

/-- A reference that the program gives up. -/
theorem Heap.Inv.free (hi : h.Inv) (ha : h.Allowed (.free p)) :
    ∃ h', h.exec (.free p) = some h' ∧ h'.Inv := by
  have hp := hi.mem_of_ext ha
  have hcount : ∀ n, h.ext n - [p].count n + [p].count n = h.ext n := fun n => by
    rw [List.count_singleton]
    by_cases hpn : p = n
    · subst hpn; have : 0 < h.ext p := ha; simp; omega
    · simp [hpn]
  -- the heap with one reference on its way out: nothing is torn down or waits
  have htear : Tearing h.layout .none (fun n => h.ext n - [p].count n) h.rt.freed h.rt.gcObjList []
      [p] h.rt :=
    { phase := hi.phase
      place := ⟨[], (List.append_nil _).symm, by
        rw [JSRuntime.linked, hi.tmp, hi.zero, List.append_nil, List.append_nil, List.append_nil],
        by simp⟩
      count := fun n => by
        have huntorn : untorn h.layout .none [] h.rt = h.rt.gcObjList := by
          show List.filter _ (h.rt.gcObjList ++ h.rt.gcZeroRefCountList) = _
          rw [hi.zero]; simp
        have := hcount n
        have := hi.count n
        rw [huntorn]
        show _ = h.ext n - [p].count n + refs h.kids _ n + _
        omega
      aux := fun n hn _ => by
        rw [JSRuntime.linked, hi.tmp, hi.zero, List.append_nil, List.append_nil] at hn
        have := hi.pos n hn
        simp; omega
      held := by simp
      pending := fun n hn => by rw [List.mem_singleton.mp hn]; exact hp
      kept := fun hph => absurd hph none_ne_removeCycles
      waiting := fun _ => ⟨hi.tmp, by rw [hi.zero]; simp⟩
      quiet := fun _ => hi.zero
      alive := fun _ n hn _ => hi.pos n hn }
  -- the cascade ends, and leaves no drop pending
  obtain ⟨rt, hrun, hrt, hframe⟩ := htear.dropRef hi.sound
    (fun _ => freeZeroRefcount_frees hi.sound) (by simp) (rank_lt _)
  -- all lists but `gcObjList` are empty again
  have hlinked : rt.linked = rt.gcObjList := by
    rw [JSRuntime.linked, (hrt.waiting none_ne_removeCycles).1, hrt.quiet rfl, List.append_nil,
      List.append_nil]
  have huntorn : untorn h.layout .none [] rt = rt.gcObjList := by
    show List.filter _ (rt.gcObjList ++ rt.gcZeroRefCountList) = _
    rw [hrt.quiet rfl]; simp
  have hcount' : ∀ n, rt.refCount n = h.ext n - [p].count n + refs h.kids rt.gcObjList n :=
    fun n => by
      have := hrt.count n
      rwa [huntorn] at this
  obtain ⟨new, hfreed, hperm, hnew⟩ := hrt.place
  rw [hlinked] at hperm
  have hdup := hperm.nodup_iff.mpr hi.sound.nodup
  refine ⟨{ h with ext := fun n => h.ext n - [p].count n, rt := rt }, ?_, ⟨⟨?_, fun n hn => ?_,
    fun q hq c hc => ?_, fun q hq => hi.sound.ranked q (hframe.objs q hq)⟩, fun n hn => ?_,
    (hrt.waiting none_ne_removeCycles).1, hrt.quiet rfl, hrt.phase, fun n hn => ?_, hcount',
    fun n hn => ?_, ?_⟩⟩
  · rw [Heap.exec, show jsFreeRef h.layout h.rt p = some rt from hrun, Option.map_some]
  · exact (List.nodup_append.mp hdup).1
  · show n ∉ rt.freed
    rw [hfreed, List.mem_append]
    rintro (hmem | hmem)
    · exact hi.sound.fresh n (hframe.objs n hn) hmem
    · exact (List.nodup_append.mp hdup).2.2 n hn n hmem rfl
  · -- a child of an object that stays has its reference, so it stays too
    have hpos := refs_pos.mpr ⟨q, hq, hc⟩
    have hc₀ := hi.sound.closed q (hframe.objs q hq) c hc
    have hrc : 0 < rt.refCount c := by
      rw [hcount' c]
      exact Nat.add_pos_right _ hpos
    exact hlinked ▸ (hrt.mem_linked hi.sound hc₀ hrc).1
  · show rt.mark n = false
    rw [hframe.mark]
    exact hi.marks n (hframe.objs n hn)
  · have hn' : n ∈ rt.gcObjList := hn
    by_cases hval : h.layout.isValue n = true
    · exact hrt.alive none_ne_removeCycles n hn' hval
    · rw [Bool.not_eq_true] at hval
      exact Nat.pos_of_ne_zero fun hz => List.not_mem_nil ((hrt.aux n (hlinked ▸ hn') hval).mp hz)
  · -- an object that went has count zero, so the outside holds no reference
    show h.ext n - [p].count n = 0
    by_cases hn₀ : n ∈ h.rt.gcObjList
    · have hz := hnew n ((List.mem_append.mp (hperm.symm.subset hn₀)).resolve_left hn)
      have := hcount' n
      omega
    · rw [hi.ext n hn₀, Nat.zero_sub]
  · show rt.freed.Nodup
    rw [hfreed]
    refine List.nodup_append.mpr ⟨hi.once, (List.nodup_append.mp hdup).2.1, fun n hn m hm hnm => ?_⟩
    subst hnm
    exact hi.sound.fresh n (hperm.subset (List.mem_append_right _ hm)) hn

/-- **Step lemma.**  What a program may do goes well. -/
theorem Heap.Inv.step (hi : h.Inv) {op : HeapOp N} (ha : h.Allowed op) :
    ∃ h', h.exec op = some h' ∧ h'.Inv := by
  cases op with
  | new p kind cs => exact ⟨_, rfl, hi.new ha rfl⟩
  | dup p => exact ⟨_, rfl, hi.dup ha rfl⟩
  | free p => exact hi.free ha
  | store p c => exact ⟨_, rfl, hi.store ha rfl⟩
  | take p c => exact ⟨_, rfl, hi.take ha rfl⟩
  | runGC =>
    obtain ⟨h', he, hi', -⟩ := hi.runGC
    exact ⟨h', he, hi'⟩

/-- **Run lemma.** -/
theorem Heap.Reachable.inv (hr : h.Reachable) : h.Inv := by
  induction hr with
  | init => exact .init
  | step hr hop hexec ih =>
    obtain ⟨h', he, hi'⟩ := ih.step hop
    rwa [Option.some.inj (hexec.symm.trans he)]

/-- **Safety of all runs.**  In every heap that a run comes to, what the program can get hold of
    is there and was not freed; nothing was freed twice; the counts are exact; and whatever the
    program may do next, no assertion fails and nothing that was freed is looked at.  Runs have
    no weak references, and few enough others for the counts to fit into an `int`. -/
theorem heap_safe (hr : h.Reachable) :
    (∀ n, h.Live n → n ∈ h.rt.gcObjList ∧ n ∉ h.rt.freed) ∧ h.rt.freed.Nodup ∧
      (∀ n, h.rt.refCount n = h.ext n + refs h.kids h.rt.gcObjList n) ∧
      ∀ op, h.Allowed op → ∃ h', h.exec op = some h' := by
  have hi := hr.inv
  refine ⟨fun n hn => ?_, hi.once, hi.count, fun op hop => ?_⟩
  · have hmem := hi.mem_of_live hn
    exact ⟨hmem, hi.sound.fresh n hmem⟩
  · obtain ⟨h', he, -⟩ := hi.step hop
    exact ⟨h', he⟩

/-- **Counting is enough without cycles.**  In every heap that a run without weak references
    comes to, between the operations, every object can be reached, unless there are cycles of
    references. -/
theorem heap_prompt (hr : h.Reachable)
    (hacyclic : WellFounded fun p c => p ∈ h.rt.gcObjList ∧ c ∈ h.kids p)
    (hn : n ∈ h.rt.gcObjList) : h.Live n := by
  have hi := hr.inv
  induction n using hacyclic.induction with
  | h n ih =>
    by_cases hext : 0 < h.ext n
    · exact .root hn hext
    · have hpos := hi.pos n hn
      have hcount := hi.count n
      obtain ⟨p, hp, hc⟩ := refs_pos.mp (show 0 < refs h.kids h.rt.gcObjList n by omega)
      exact .kid (ih p ⟨hp, hc⟩ hp) hc

/-- **No leak.**  When the program has given up all its references, in a run without weak
    references, a collection leaves no object, cycles or not, as `JS_FreeRuntime` asserts; each
    has been freed once. -/
theorem heap_empty (hr : h.Reachable) (hext : ∀ n, h.ext n = 0) :
    ∃ h', h.exec .runGC = some h' ∧ h'.rt.gcObjList = [] ∧
      ∀ n ∈ h.rt.gcObjList, h'.rt.freed.count n = 1 := by
  have hi := hr.inv
  obtain ⟨rt, dead, hrun, hobjs, hperm, ⟨new, hfreed, hnew⟩, -⟩ := jsRunGC_spec hi.quiescent
  have hnil : rt.gcObjList = [] := List.eq_nil_iff_forall_not_mem.mpr fun n hn => by
    have hlive := (hobjs n).mp hn
    rw [Reached, hi.external] at hlive
    exact not_live hext n hlive
  refine ⟨{ h with rt := rt }, by rw [Heap.exec, hrun, Option.map_some], hnil, fun n hn => ?_⟩
  rw [hnil, List.nil_append] at hperm
  show rt.freed.count n = 1
  rw [hfreed, List.count_append, List.count_eq_zero_of_not_mem (hi.sound.fresh n hn),
    (hnew.trans hperm).count_eq, List.nodup_iff_count_eq_one.mp hi.sound.nodup n hn]

end Runs

/-! ### A run -/

/-- An object with its shape. -/
def objectWithShape : List (HeapOp ℕ) := [.new 0 .shape [], .new 1 .jsObject [0]]

/-- The same object, which keeps the last reference to itself. -/
def selfReference : List (HeapOp ℕ) := objectWithShape ++ [.store 1 1]

/-- The run makes a shape and an object, which takes it over. -/
theorem objectWithShape_reachable :
    ∃ h : Heap ℕ, Heap.run objectWithShape .init = some h ∧ h.Reachable ∧
      h.kind 1 = .jsObject ∧ h.kids 0 = [] ∧ h.kids 1 = [0] ∧ h.ext 0 = 0 ∧ h.ext 1 = 1 ∧
      (∀ n, h.ext (n + 2) = 0) ∧ h.rt.gcObjList = [0, 1] := by
  have hshape : Heap.init.Allowed (.new 0 .shape []) :=
    ⟨List.not_mem_nil, List.not_mem_nil, fun _ => Nat.zero_le _, nofun⟩
  have hr := Heap.Reachable.step .init hshape rfl
  refine ⟨_, rfl, .step hr (show Heap.Allowed _ (.new 1 .jsObject [0]) from
    ⟨by decide, by decide, fun n => ?_, nofun⟩) rfl, rfl, rfl, rfl, rfl, rfl, fun n => rfl, rfl⟩
  cases n with
  | zero => decide
  | succ n => simp

/-- The run leaves an object that refers to itself, and no reference to it. -/
theorem selfReference_reachable :
    ∃ h : Heap ℕ, Heap.run selfReference .init = some h ∧ h.Reachable ∧ (∀ n, h.ext n = 0) ∧
      h.rt.gcObjList = [0, 1] := by
  obtain ⟨h, hrun, hr, hkind, -, -, hext₀, hext₁, hext, hobjs⟩ := objectWithShape_reachable
  have hpos : 0 < h.ext 1 := by rw [hext₁]; exact Nat.one_pos
  have hlive : h.Live 1 := .root (by rw [hobjs]; decide) hpos
  have hall : h.Allowed (.store 1 1) := ⟨hlive, hpos, fun hval => by
    rw [hkind] at hval; exact nomatch hval⟩
  refine ⟨_, ?_, .step hr hall rfl, fun n => ?_, hobjs⟩
  · rw [Heap.run, selfReference, List.foldlM_append, ← Heap.run, hrun]
    rfl
  · show h.ext n - [1].count n = 0
    match n with
    | 0 => rw [hext₀, Nat.zero_sub]
    | 1 => rw [hext₁]; rfl
    | n + 2 => rw [hext n, Nat.zero_sub]

/-- An object with its shape. -/
theorem heap_safe_sample :
    ∃ h : Heap ℕ, Heap.run objectWithShape .init = some h ∧
      (∀ n, h.Live n → n ∈ h.rt.gcObjList ∧ n ∉ h.rt.freed) ∧ h.rt.freed.Nodup ∧
      (∀ n, h.rt.refCount n = h.ext n + refs h.kids h.rt.gcObjList n) ∧
      ∀ op, h.Allowed op → ∃ h', h.exec op = some h' := by
  obtain ⟨h, hrun, hr, -⟩ := objectWithShape_reachable
  exact ⟨h, hrun, heap_safe hr⟩

/-- The shape is reached through the object. -/
theorem heap_prompt_sample :
    ∃ h : Heap ℕ, Heap.run objectWithShape .init = some h ∧ h.ext 0 = 0 ∧ h.Live 0 := by
  obtain ⟨h, hrun, hr, -, hkids₀, hkids₁, hext, -, -, hobjs⟩ := objectWithShape_reachable
  refine ⟨h, hrun, hext, heap_prompt hr ?_ (by rw [hobjs]; decide)⟩
  -- the object refers to its shape only
  refine Subrelation.wf (r := fun p c => c < p ∧ p < 2) (fun {p c} ⟨hp, hc⟩ => ?_)
    (Subrelation.wf (r := fun p c => 2 - p < 2 - c) (fun hlt => by omega)
      (measure fun n => 2 - n).wf)
  rw [hobjs] at hp
  simp only [List.mem_cons, List.not_mem_nil, or_false] at hp
  rcases hp with rfl | rfl
  · rw [hkids₀] at hc
    exact absurd hc List.not_mem_nil
  · rw [hkids₁, List.mem_singleton] at hc
    exact ⟨by omega, by decide⟩

/-- An object that refers to itself is collected, with its shape. -/
theorem heap_empty_sample :
    ∃ h h' : Heap ℕ, Heap.run selfReference .init = some h ∧ h.exec .runGC = some h' ∧
      h'.rt.gcObjList = [] ∧ ∀ n ∈ h.rt.gcObjList, h'.rt.freed.count n = 1 := by
  obtain ⟨h, hrun, hr, hext, -⟩ := selfReference_reachable
  obtain ⟨h', hgc⟩ := heap_empty hr hext
  exact ⟨h, h', hrun, hgc⟩

/-- The same collection, by what it frees. -/
theorem jsRunGC_exact_sample :
    ∃ (h : Heap ℕ) (rt' : JSRuntime ℕ), Heap.run selfReference .init = some h ∧
      jsRunGC h.layout h.rt = some rt' ∧ 1 ∉ rt'.gcObjList ∧ rt'.freed.count 1 = 1 := by
  obtain ⟨h, hrun, hr, hext, hobjs⟩ := selfReference_reachable
  obtain ⟨rt', hgc, -, -, hdead, -⟩ := jsRunGC_exact hr.inv.quiescent
  refine ⟨h, rt', hrun, hgc, hdead 1 (by rw [hobjs]; decide) fun hlive => ?_⟩
  rw [Reached, hr.inv.external] at hlive
  exact not_live hext 1 hlive

end VideoPackages.Gc
