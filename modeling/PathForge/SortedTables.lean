import PathForge.HashTables
import Mathlib.Data.List.Sort

namespace PathForge.Tables

variable {α κ ν γ : Type} [LinearOrder γ]

/-- `sort_by_key`, which is stable. -/
def sortByKey (key : α → γ) (l : List α) : List α := l.insertionSort fun a b => key a ≤ key b

theorem mem_sortByKey {key : α → γ} {l : List α} {a : α} : a ∈ sortByKey key l ↔ a ∈ l :=
  List.mem_insertionSort _

theorem pairwise_sortByKey {key : α → γ} {l : List α} (h : (l.map key).Nodup) :
    (sortByKey key l).Pairwise fun a b => key a < key b := by
  let le : α → α → Prop := fun a b => key a ≤ key b
  have : Std.Total le := ⟨fun a b => le_total (key a) (key b)⟩
  have : IsTrans α le := ⟨fun a b c => le_trans⟩
  have hle : (sortByKey key l).Pairwise le := List.pairwise_insertionSort le l
  have hne : (sortByKey key l).Pairwise fun a b => key a ≠ key b := by
    rw [← List.pairwise_map]
    exact ((List.perm_insertionSort le l).map key).nodup_iff.mpr h
  apply (List.pairwise_and_iff.mpr ⟨hle, hne⟩).imp
  intro a b hab
  exact lt_of_le_of_ne hab.1 hab.2

theorem eq_of_pairwise_lt (key : α → γ) {l l' : List α} (hl : l.Pairwise fun a b => key a < key b)
    (hl' : l'.Pairwise fun a b => key a < key b) (h : ∀ a, a ∈ l ↔ a ∈ l') : l = l' := by
  let lt : α → α → Prop := fun a b => key a < key b
  have : Std.Irrefl lt := ⟨fun a => lt_irrefl (key a)⟩
  have : Std.Antisymm lt := ⟨fun a b hab hba => absurd hba (lt_asymm hab)⟩
  exact List.Pairwise.eq_of_mem_iff (r := lt) hl hl' h

namespace HashMap

variable [DecidableEq κ] {m m' : HashMap κ ν} {o o' : IterOrder κ} {rank : κ → γ}

def listing (m : HashMap κ ν) (o : IterOrder κ) (rank : κ → γ) (p : κ × ν → Bool) : List (κ × ν) :=
  sortByKey (fun e => rank e.1) ((m.iterBy o).filter p)

section Listing

variable (hrank : Function.Injective rank) {p : κ × ν → Bool}

include hrank

theorem pairwise_listing : (m.listing o rank p).Pairwise fun e e' => rank e.1 < rank e'.1 := by
  apply pairwise_sortByKey
  have hkeys : ((m.iterBy o).map Prod.fst).Nodup := by
    rw [map_fst_iterBy]
    exact m.nodup_keysBy o
  have hall := hkeys.map hrank
  rw [List.map_map] at hall
  exact hall.sublist (List.filter_sublist.map _)

omit hrank in
theorem mem_listing {e : κ × ν} : e ∈ m.listing o rank p ↔ m.lookup e.1 = some e.2 ∧ p e = true := by
  rw [listing, mem_sortByKey, List.mem_filter, mem_iterBy]

theorem listing_eq (h : ∀ k, m.lookup k = m'.lookup k) : m.listing o rank p = m'.listing o' rank p := by
  apply eq_of_pairwise_lt fun e : κ × ν => rank e.1
  · exact pairwise_listing hrank
  · exact pairwise_listing hrank
  · intro e
    rw [mem_listing, mem_listing, h]

end Listing

end HashMap

end PathForge.Tables
