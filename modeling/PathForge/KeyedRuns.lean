import PathForge.Fallible
import Mathlib.Data.List.Forall2

namespace PathForge.Keyed

variable {σ ο κ : Type}

/-- Steps that work for one owner each: a step leaves what the other owners see as it was, and what its own
owner sees afterwards depends on what that owner saw before. -/
structure Local (step : σ → ο → Option σ) (owner : ο → κ) (Alike : ο → ο → Prop) (Same : κ → σ → σ → Prop) :
    Prop where
  refl : ∀ k s, Same k s s
  symm : ∀ {k s t}, Same k s t → Same k t s
  trans : ∀ {k s t u}, Same k s t → Same k t u → Same k s u
  owner_eq : ∀ {a b}, Alike a b → owner a = owner b
  frame : ∀ {k s a t}, step s a = some t → k ≠ owner a → Same k s t
  congr : ∀ {s s' a b t}, Alike a b → Same (owner a) s s' → step s a = some t →
    ∃ t', step s' b = some t' ∧ Same (owner a) t t'

variable {step : σ → ο → Option σ} {owner : ο → κ} {Alike : ο → ο → Prop} {Same : κ → σ → σ → Prop}

theorem Local.step_erase (hl : Local step owner Alike Same) {k : κ} {s s' t : σ} {a : ο}
    (hs : ∀ k', k' ≠ k → Same k' s s') (ha : owner a = k) (ht : step s a = some t) :
    ∀ k', k' ≠ k → Same k' t s' := by
  intro k' hk
  exact hl.trans (hl.symm (hl.frame ht (ha ▸ hk))) (hs k' hk)

theorem Local.step_keep (hl : Local step owner Alike Same) {k : κ} {s s' t : σ} {a b : ο}
    (hs : ∀ k', k' ≠ k → Same k' s s') (ha : owner a ≠ k) (hab : Alike a b) (ht : step s a = some t) :
    ∃ t', step s' b = some t' ∧ ∀ k', k' ≠ k → Same k' t t' := by
  obtain ⟨t', ht', ho⟩ := hl.congr hab (hs _ ha) ht
  refine ⟨t', ht', ?_⟩
  intro k' hk
  by_cases hown : k' = owner a
  · rw [hown]
    exact ho
  · have hown' : k' ≠ owner b := hl.owner_eq hab ▸ hown
    exact hl.trans (hl.symm (hl.frame ht hown)) (hl.trans (hs k' hk) (hl.frame ht' hown'))

theorem Local.run_erase [DecidableEq κ] (hl : Local step owner Alike Same) {k : κ} {l l' : List ο} {s s' t : σ}
    (h : List.Forall₂ Alike (l.filter fun a => owner a ≠ k) l') (hs : ∀ k', k' ≠ k → Same k' s s')
    (ht : l.foldlM step s = some t) :
    ∃ t', l'.foldlM step s' = some t' ∧ (∀ k', k' ≠ k → Same k' t t') ∧ Same k s' t' := by
  induction l generalizing l' s s' with
  | nil =>
    obtain rfl := Option.some.inj ht
    cases h
    exact ⟨s', rfl, hs, hl.refl k s'⟩
  | cons a l ih =>
    rw [List.foldlM_cons] at ht
    obtain ⟨u, hu, ht⟩ := Option.bind_eq_some_iff.mp ht
    rw [List.filter_cons] at h
    by_cases ha : owner a = k
    · rw [if_neg (by simp [ha])] at h
      exact ih h (hl.step_erase hs ha hu) ht
    · rw [if_pos (by simp [ha])] at h
      cases h with
      | @cons _ b _ l' hab h =>
        obtain ⟨u', hu', hs'⟩ := hl.step_keep hs ha hab hu
        obtain ⟨t', ht', hothers, hown⟩ := ih h hs' ht
        have hb : k ≠ owner b := hl.owner_eq hab ▸ Ne.symm ha
        refine ⟨t', ?_, hothers, hl.trans (hl.frame hu' hb) hown⟩
        rw [List.foldlM_cons, hu']
        exact ht'

theorem Local.comm (hl : Local step owner Alike Same) {a a' b b' : ο} {s t u : σ} (ha : Alike a a')
    (hb : Alike b b') (hab : owner a ≠ owner b) (ht : step s a = some t) (hu : step t b = some u) :
    ∃ t' u', step s b' = some t' ∧ step t' a' = some u' ∧ ∀ k, Same k u u' := by
  obtain ⟨t', ht', hbt⟩ := hl.congr hb (hl.symm (hl.frame ht hab.symm)) hu
  have hab' : owner a ≠ owner b' := hl.owner_eq hb ▸ hab
  obtain ⟨u', hu', hau⟩ := hl.congr ha (hl.frame ht' hab') ht
  refine ⟨t', u', ht', hu', ?_⟩
  intro k
  by_cases hka : k = owner a
  · subst hka
    exact hl.trans (hl.symm (hl.frame hu hab)) hau
  · have hka' : k ≠ owner a' := hl.owner_eq ha ▸ hka
    by_cases hkb : k = owner b
    · subst hkb
      exact hl.trans hbt (hl.frame hu' hka')
    · have hkb' : k ≠ owner b' := hl.owner_eq hb ▸ hkb
      exact hl.trans (hl.symm (hl.trans (hl.frame ht hka) (hl.frame hu hkb)))
        (hl.trans (hl.frame ht' hkb') (hl.frame hu' hka'))

section Interleavings

variable [DecidableEq κ]

theorem Local.run_project (hl : Local step owner Alike Same) {k : κ} {l l' : List ο} {s s' t : σ}
    (h : List.Forall₂ Alike (l.filter fun a => owner a = k) l') (hs : Same k s s')
    (ht : l.foldlM step s = some t) :
    ∃ t', l'.foldlM step s' = some t' ∧ Same k t t' := by
  induction l generalizing l' s s' with
  | nil =>
    obtain rfl := Option.some.inj ht
    cases h
    exact ⟨s', rfl, hs⟩
  | cons a l ih =>
    rw [List.foldlM_cons] at ht
    obtain ⟨u, hu, ht⟩ := Option.bind_eq_some_iff.mp ht
    rw [List.filter_cons] at h
    by_cases ha : owner a = k
    · rw [if_pos (by simp [ha])] at h
      cases h with
      | @cons _ b _ l' hab h =>
        obtain ⟨u', hu', hs'⟩ := hl.congr hab (ha ▸ hs) hu
        obtain ⟨t', ht', hfin⟩ := ih h (ha ▸ hs') ht
        refine ⟨t', ?_, hfin⟩
        rw [List.foldlM_cons, hu']
        exact ht'
    · rw [if_neg (by simp [ha])] at h
      exact ih h (hl.trans (hl.symm (hl.frame hu (Ne.symm ha))) hs) ht

theorem Local.exists_run (hl : Local step owner Alike Same) (hrefl : ∀ a, Alike a a) {l : List ο} {s : σ}
    (h : ∀ k, ∃ t, (l.filter fun a => owner a = k).foldlM step s = some t) : ∃ t, l.foldlM step s = some t := by
  induction l generalizing s with
  | nil => exact ⟨s, rfl⟩
  | cons a l ih =>
    obtain ⟨t, ht⟩ := h (owner a)
    rw [List.filter_cons_of_pos (by simp), List.foldlM_cons] at ht
    obtain ⟨u, hu, ht⟩ := Option.bind_eq_some_iff.mp ht
    have hrest (k : κ) : ∃ t, (l.filter fun a => owner a = k).foldlM step u = some t := by
      by_cases hk : k = owner a
      · subst hk
        exact ⟨t, ht⟩
      · obtain ⟨v, hv⟩ := h k
        rw [List.filter_cons_of_neg (by simp [Ne.symm hk])] at hv
        have hself : List.Forall₂ Alike ((l.filter fun a => owner a = k).filter fun a => owner a = k)
            (l.filter fun a => owner a = k) := by
          simp only [List.filter_filter, Bool.and_self]
          exact List.forall₂_same.mpr fun a _ => hrefl a
        obtain ⟨w, hw, -⟩ := hl.run_project hself (hl.frame hu hk) hv
        exact ⟨w, hw⟩
    obtain ⟨w, hw⟩ := ih hrest
    refine ⟨w, ?_⟩
    rw [List.foldlM_cons, hu]
    exact hw

theorem Local.run_interleave (hl : Local step owner Alike Same) (hrefl : ∀ a, Alike a a) {l l' : List ο} {s t : σ}
    (h : ∀ k, List.Forall₂ Alike (l.filter fun a => owner a = k) (l'.filter fun a => owner a = k))
    (ht : l.foldlM step s = some t) : ∃ t', l'.foldlM step s = some t' ∧ ∀ k, Same k t t' := by
  have hproject (k : κ) := hl.run_project (h k) (hl.refl k s) ht
  obtain ⟨t', ht'⟩ := hl.exists_run hrefl fun k => (hproject k).imp fun _ hu => hu.1
  refine ⟨t', ht', ?_⟩
  intro k
  obtain ⟨u, hu, htu⟩ := hproject k
  have hself : List.Forall₂ Alike (l'.filter fun a => owner a = k) (l'.filter fun a => owner a = k) :=
    List.forall₂_same.mpr fun a _ => hrefl a
  obtain ⟨u', hu', htu'⟩ := hl.run_project hself (hl.refl k s) ht'
  obtain rfl := Option.some.inj (hu.symm.trans hu')
  exact hl.trans htu (hl.symm htu')

end Interleavings

theorem view_foldl {τ : Type} {step : σ → ο → σ} {V : σ → τ} {next : τ → ο → τ} {concerns : ο → Bool}
    {I : σ → Prop} (hI : ∀ s a, I s → I (step s a))
    (hv : ∀ s a, I s → V (step s a) = if concerns a then next (V s) a else V s) (l : List ο) {s : σ} (hs : I s) :
    V (l.foldl step s) = (l.filter concerns).foldl next (V s) := by
  induction l generalizing s with
  | nil => rfl
  | cons a l ih =>
    rw [List.foldl_cons, ih (hI s a hs), hv s a hs, List.filter_cons]
    split_ifs <;> rfl

end PathForge.Keyed
