import Mathlib.Data.List.Basic
import Mathlib.Data.List.Count
import Mathlib.Data.List.Nodup
import Mathlib.Data.List.Perm.Basic
import Mathlib.Logic.Function.Basic
import Mathlib.Tactic.Common

namespace VideoPackages.RefGraph

/-!
# Graphs of counted references

A node refers to other nodes, possibly several times to one, and some references come from
outside the graph.  Nothing here knows what a node is.

* `refs` — how many references the nodes of a list have to a node;
* `Live` — what can be reached from the references from outside; `Live.mem` and `refs_eq_zero`
  describe a set of nodes that is closed under references, and the rest.
-/

variable {N : Type*}

/-! ### References -/

section Refs

variable [DecidableEq N] {kids : N → List N} {K U O : List N} {n : N}

/-- The references of the nodes of `L` to `n`. -/
def refs (kids : N → List N) (L : List N) (n : N) : ℕ := (L.flatMap kids).count n

/-- References from two groups of nodes add up. -/
theorem refs_append (kids : N → List N) (K U : List N) (n : N) :
    refs kids (K ++ U) n = refs kids K n + refs kids U n := by
  rw [refs, List.flatMap_append, List.count_append, refs, refs]

theorem refs_singleton (kids : N → List N) (p n : N) : refs kids [p] n = (kids p).count n := by
  rw [refs, List.flatMap_singleton]

/-- Their order makes no difference. -/
theorem refs_perm (h : K.Perm U) : refs kids K n = refs kids U n :=
  (h.flatMap_right kids).count_eq n

/-- Nor does that of the references of a node. -/
theorem refs_congr {kids' : N → List N} (h : ∀ p ∈ K, (kids p).Perm (kids' p)) :
    refs kids K n = refs kids' K n := by
  induction K with
  | nil => rfl
  | cons p K ih =>
    rw [refs, refs, List.flatMap_cons, List.flatMap_cons, List.count_append, List.count_append,
      (h p List.mem_cons_self).count_eq]
    exact congrArg _ (ih fun q hq => h q (List.mem_cons_of_mem _ hq))

/-- More references from each node are more in all. -/
theorem refs_mono {kids' : N → List N} (h : ∀ p ∈ K, (kids p).count n ≤ (kids' p).count n) :
    refs kids K n ≤ refs kids' K n := by
  induction K with
  | nil => exact Nat.le_refl _
  | cons p K ih =>
    rw [refs, refs, List.flatMap_cons, List.flatMap_cons, List.count_append, List.count_append]
    exact Nat.add_le_add (h p List.mem_cons_self) (ih fun q hq => h q (List.mem_cons_of_mem _ hq))

/-- The references of one node change. -/
theorem refs_update (kids : N → List N) {p : N} (cs : List N) (hp : p ∈ K) (hK : K.Nodup) (n : N) :
    refs (Function.update kids p cs) K n + (kids p).count n = refs kids K n + cs.count n := by
  have hperm := List.perm_cons_erase hp
  have hsame : refs (Function.update kids p cs) (K.erase p) n = refs kids (K.erase p) n :=
    refs_congr fun q hq => by
      rw [Function.update_of_ne (hK.mem_erase_iff.mp hq).1]
  have hsplit : ∀ ks : N → List N, refs ks K n = (ks p).count n + refs ks (K.erase p) n :=
    fun ks => by
      rw [refs_perm hperm, show p :: K.erase p = [p] ++ K.erase p from rfl, refs_append,
        refs_singleton]
  rw [hsplit, hsplit kids, hsame, Function.update_self]
  omega

/-- There are references where one node has one. -/
theorem refs_pos : 0 < refs kids K n ↔ ∃ p ∈ K, n ∈ kids p := by
  rw [refs, List.count_pos_iff, List.mem_flatMap]

/-- There are none where no node has one. -/
theorem refs_eq_zero (h : ∀ p ∈ K, n ∉ kids p) : refs kids K n = 0 := by
  by_contra hne
  obtain ⟨p, hp, hn⟩ := refs_pos.mp (Nat.pos_of_ne_zero hne)
  exact h p hp hn

end Refs

/-! ### Reachability -/

section Live

variable {kids : N → List N} {O K : List N} {ext : N → ℕ} {n : N}

/-- What can be reached from the nodes of `O` with references `ext` from outside. -/
inductive Live (kids : N → List N) (O : List N) (ext : N → ℕ) : N → Prop where
  | root {n : N} (hn : n ∈ O) (hext : 0 < ext n) : Live kids O ext n
  | kid {p c : N} (hp : Live kids O ext p) (hc : c ∈ kids p) : Live kids O ext c

/-- No reference of the nodes of `K` leaves `K`. -/
def Closed (kids : N → List N) (K : List N) : Prop := ∀ p ∈ K, ∀ c ∈ kids p, c ∈ K

/-- A closed set with all the roots has everything that is live. -/
theorem Live.mem (h : Live kids O ext n) (hroots : ∀ n ∈ O, 0 < ext n → n ∈ K)
    (hclosed : Closed kids K) : n ∈ K := by
  induction h with
  | root hn hext => exact hroots _ hn hext
  | kid hp hc ih => exact hclosed _ ih _ hc

/-- What is live stays live when the roots do. -/
theorem Live.mono {ext' : N → ℕ} {O' : List N} (h : Live kids O ext n)
    (hroots : ∀ n ∈ O, 0 < ext n → n ∈ O' ∧ 0 < ext' n) : Live kids O' ext' n := by
  induction h with
  | root hn hext => exact .root (hroots _ hn hext).1 (hroots _ hn hext).2
  | kid _ hc ih => exact .kid ih hc

/-- Without references from outside nothing is live. -/
theorem not_live (hext : ∀ n, ext n = 0) (n : N) : ¬ Live kids O ext n := fun h => by
  induction h with
  | root _ hpos => rw [hext] at hpos; exact absurd hpos (Nat.lt_irrefl 0)
  | kid _ _ ih => exact ih

/-- Only live nodes refer to what is not live: none. -/
theorem not_kid_of_not_live {p : N} (hn : ¬ Live kids O ext n) (hp : Live kids O ext p) :
    n ∉ kids p := fun hc => hn (.kid hp hc)

end Live

end VideoPackages.RefGraph
