import Mathlib.Data.List.MinMax
import Mathlib.Data.List.Sort

namespace PathForge.Selection

variable {α β : Type} [LinearOrder β]

/-- The stable sort `l.sort_by(cmp)`. -/
def sortBy (cmp : α → α → Ordering) (l : List α) : List α := l.insertionSort fun a b => (cmp a b).isLE = true

def first (cmp : α → α → Ordering) (l : List α) : Option α := (sortBy cmp l).head?

def RankedBy (cmp : α → α → Ordering) (rank : α → β) : Prop := ∀ a b, (cmp a b).isLE = true ↔ rank a ≤ rank b

variable {cmp : α → α → Ordering} {rank : α → β}

theorem pairwise_sortBy (h : RankedBy cmp rank) (l : List α) :
    (sortBy cmp l).Pairwise fun a b => rank a ≤ rank b := by
  have htotal : Std.Total fun a b => (cmp a b).isLE = true :=
    ⟨fun a b => by rw [h a b, h b a]; exact le_total _ _⟩
  have htrans : IsTrans α fun a b => (cmp a b).isLE = true :=
    ⟨fun a b c => by rw [h a b, h b c, h a c]; exact le_trans⟩
  apply (List.pairwise_insertionSort _ l).imp
  intro a b
  exact (h a b).mp

theorem first_eq_none {l : List α} : first cmp l = none ↔ l = [] := by
  rw [first, List.head?_eq_none_iff, ← List.length_eq_zero_iff, sortBy, List.length_insertionSort,
    List.length_eq_zero_iff]

theorem first_mem {l : List α} {b : α} (hb : first cmp l = some b) : b ∈ l :=
  (List.mem_insertionSort _).mp (List.mem_of_head? hb)

theorem first_le (h : RankedBy cmp rank) {l : List α} {b : α} (hb : first cmp l = some b) :
    ∀ a ∈ l, rank b ≤ rank a := by
  intro a ha
  obtain ⟨rest, hs⟩ := List.head?_eq_some_iff.mp hb
  have hp := pairwise_sortBy h l
  rw [hs, List.pairwise_cons] at hp
  have hmem : a ∈ sortBy cmp l := (List.mem_insertionSort _).mpr ha
  rw [hs] at hmem
  rcases List.mem_cons.mp hmem with rfl | hmem
  · exact le_rfl
  · exact hp.1 a hmem

theorem first_cons (h : RankedBy cmp rank) {l : List α} {a b : α} (hb : first cmp (a :: l) = some b) :
    b = a ∨ rank b < rank a := by
  change ((sortBy cmp l).orderedInsert (fun a b => (cmp a b).isLE = true) a).head? = some b at hb
  rcases hl : sortBy cmp l with _ | ⟨c, cs⟩
  · rw [hl] at hb
    exact .inl (Option.some.inj hb).symm
  · rw [hl, List.orderedInsert_cons] at hb
    split_ifs at hb with hle
    · exact .inl (Option.some.inj hb).symm
    · obtain rfl := Option.some.inj hb
      rw [h, not_le] at hle
      exact .inr hle

theorem first_congr (h : RankedBy cmp rank) {l l' : List α} (hl : ∀ a, a ∈ l ↔ a ∈ l')
    (hr : ∀ a ∈ l, ∀ b ∈ l, rank a = rank b → a = b) : first cmp l = first cmp l' := by
  rcases hb : first cmp l with _ | b
  · have hn : l' = [] := by
      apply List.eq_nil_iff_forall_not_mem.mpr
      intro a ha
      exact List.not_mem_nil (first_eq_none.mp hb ▸ (hl a).mpr ha)
    exact (first_eq_none.mpr hn).symm
  · have hm := first_mem hb
    rcases hb' : first cmp l' with _ | b'
    · exact absurd (first_eq_none.mp hb' ▸ (hl b).mp hm) List.not_mem_nil
    · have hm' := (hl b').mpr (first_mem hb')
      rw [hr b hm b' hm' (le_antisymm (first_le h hb b' hm') (first_le h hb' b ((hl b).mp hm)))]

/-- `l.max_by_key(rank)`: the last of the elements of greatest rank. -/
def maxByKey (rank : α → β) (l : List α) : Option α := l.reverse.argmax rank

theorem maxByKey_eq_none {l : List α} : maxByKey rank l = none ↔ l = [] := by
  rw [maxByKey, List.argmax_eq_none, List.reverse_eq_nil_iff]

theorem maxByKey_mem {l : List α} {b : α} (h : maxByKey rank l = some b) : b ∈ l :=
  List.mem_reverse.mp (List.argmax_mem h)

theorem le_maxByKey {l : List α} {a b : α} (h : maxByKey rank l = some b) (ha : a ∈ l) : rank a ≤ rank b :=
  List.le_of_mem_argmax (List.mem_reverse.mpr ha) h

end PathForge.Selection
