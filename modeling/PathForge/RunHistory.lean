import PathForge.Fallible
import Mathlib.Algebra.Order.Ring.Nat
import Mathlib.Data.List.Induction

namespace PathForge.History

variable {σ α : Type} {f : σ → α → Option σ} {on : σ → α → Prop} {off : α → Prop} {s t u : σ} {l : List α} {a : α}

theorem foldlM_snoc : (l ++ [a]).foldlM f s = some t ↔ ∃ u, l.foldlM f s = some u ∧ f u a = some t := by
  rw [List.foldlM_append]
  change (l.foldlM f s).bind (fun u => [a].foldlM f u) = some t ↔ _
  rw [Option.bind_eq_some_iff]
  simp only [List.foldlM_cons, List.foldlM_nil, Option.bind_eq_bind, Option.pure_def, Option.bind_fun_some]

theorem snoc_eq_append {before after : List α} {x : α} :
    l ++ [a] = before ++ x :: after ↔
      (l = before ∧ a = x ∧ after = []) ∨ ∃ rest, after = rest ++ [a] ∧ l = before ++ x :: rest := by
  constructor
  · intro h
    rcases List.eq_nil_or_concat after with rfl | ⟨rest, b, rfl⟩
    · obtain ⟨rfl, rfl⟩ := List.append_singleton_inj.mp h
      exact .inl ⟨rfl, rfl, rfl⟩
    · rw [List.concat_eq_append] at h ⊢
      rw [← List.cons_append, ← List.append_assoc] at h
      obtain ⟨rfl, rfl⟩ := List.append_singleton_inj.mp h
      exact .inr ⟨rest, rfl, rfl⟩
  · rintro (⟨rfl, rfl, rfl⟩ | ⟨rest, rfl, rfl⟩)
    · rfl
    · simp

def Once (f : σ → α → Option σ) (on : σ → α → Prop) (s : σ) (l : List α) : Prop :=
  ∃ before a after u, l = before ++ a :: after ∧ before.foldlM f s = some u ∧ on u a

def Since (f : σ → α → Option σ) (on : σ → α → Prop) (off : α → Prop) (s : σ) (l : List α) : Prop :=
  ∃ before a after u, l = before ++ a :: after ∧ before.foldlM f s = some u ∧ on u a ∧ ∀ b ∈ a :: after, ¬ off b

theorem not_once_nil : ¬ Once f on s [] := by
  rintro ⟨before, a, after, u, h, -⟩
  simp at h

theorem once_snoc (hu : l.foldlM f s = some u) : Once f on s (l ++ [a]) ↔ Once f on s l ∨ on u a := by
  constructor
  · rintro ⟨before, b, after, v, hl, hv, hb⟩
    rcases snoc_eq_append.mp hl with ⟨rfl, rfl, -⟩ | ⟨rest, -, rfl⟩
    · obtain rfl := Option.some.inj (hu.symm.trans hv)
      exact .inr hb
    · exact .inl ⟨before, b, rest, v, rfl, hv, hb⟩
  · rintro (⟨before, b, after, v, rfl, hv, hb⟩ | ha)
    · exact ⟨before, b, after ++ [a], v, by simp, hv, hb⟩
    · exact ⟨l, a, [], u, rfl, hu, ha⟩

theorem since_snoc (hu : l.foldlM f s = some u) :
    Since f on off s (l ++ [a]) ↔ ¬ off a ∧ (Since f on off s l ∨ on u a) := by
  constructor
  · rintro ⟨before, b, after, v, hl, hv, hb, hoff⟩
    rcases snoc_eq_append.mp hl with ⟨rfl, rfl, rfl⟩ | ⟨rest, rfl, rfl⟩
    · obtain rfl := Option.some.inj (hu.symm.trans hv)
      exact ⟨hoff a List.mem_cons_self, .inr hb⟩
    · rw [← List.cons_append, List.forall_mem_append] at hoff
      exact ⟨hoff.2 a List.mem_cons_self, .inl ⟨before, b, rest, v, rfl, hv, hb, hoff.1⟩⟩
  · rintro ⟨hoff, ⟨before, b, after, v, rfl, hv, hb, hrest⟩ | ha⟩
    · refine ⟨before, b, after ++ [a], v, by simp, hv, hb, ?_⟩
      rw [← List.cons_append, List.forall_mem_append]
      exact ⟨hrest, by simpa using hoff⟩
    · exact ⟨l, a, [], u, rfl, hu, ha, by simpa using hoff⟩

section Always

variable {step : σ → α → σ} {I P : σ → Prop} {C : σ → α → Prop}

def Always (step : σ → α → σ) (P : σ → Prop) (s : σ) (l : List α) : Prop :=
  ∀ before after, l = before ++ after → P (before.foldl step s)

def Each (step : σ → α → σ) (C : σ → α → Prop) (s : σ) (l : List α) : Prop :=
  ∀ before a after, l = before ++ a :: after → C (before.foldl step s) a

theorem foldl_invariant (hs : I s) (hI : ∀ u a, I u → I (step u a)) (l : List α) : I (l.foldl step s) := by
  induction l generalizing s with
  | nil => exact hs
  | cons a l ih => exact ih (hI s a hs)

theorem always_iff_each (hs : I s) (hI : ∀ u a, I u → I (step u a)) (hP : P s)
    (hstep : ∀ u a, I u → P u → (P (step u a) ↔ C u a)) : Always step P s l ↔ Each step C s l := by
  constructor
  · intro hall before a after hl
    have hnext : P ((before ++ [a]).foldl step s) := hall (before ++ [a]) after (by simp [hl])
    rw [List.foldl_append] at hnext
    exact (hstep _ a (foldl_invariant hs hI before) (hall before (a :: after) hl)).mp hnext
  · intro heach before after hl
    induction before using List.reverseRecOn generalizing after with
    | nil => exact hP
    | append_singleton before a ih =>
      have hl' : l = before ++ a :: after := by simp [hl]
      rw [List.foldl_append]
      exact (hstep _ a (foldl_invariant hs hI before) (ih _ hl')).mpr (heach before a after hl')

end Always

section Last

variable {τ : Type} {step : σ → α → σ} {C : σ → α → Prop} {before after : List α}

structure Last (step : σ → α → σ) (C : σ → α → Prop) (s : σ) (l before : List α) (a : α)
    (after : List α) : Prop where
  split : l = before ++ a :: after
  meets : C (before.foldl step s) a
  since : Each step (fun u b => ¬ C u b) (step (before.foldl step s) a) after

theorem each_concat : Each step C s (l ++ [a]) ↔ Each step C s l ∧ C (l.foldl step s) a := by
  constructor
  · intro h
    refine ⟨?_, h l a [] rfl⟩
    rintro before b after rfl
    exact h before b (after ++ [a]) (by simp)
  · rintro ⟨h, ha⟩ before b after hl
    rcases snoc_eq_append.mp hl with ⟨rfl, rfl, -⟩ | ⟨rest, -, hl⟩
    · exact ha
    · exact h before b rest hl

theorem exists_last_or_never (step : σ → α → σ) (C : σ → α → Prop) (s : σ) (l : List α) :
    (∃ before a after, Last step C s l before a after) ∨ Each step (fun u b => ¬ C u b) s l := by
  induction l using List.reverseRecOn with
  | nil =>
    right
    intro before b after hl
    simp at hl
  | append_singleton l a ih =>
    by_cases ha : C (l.foldl step s) a
    · left
      refine ⟨l, a, [], rfl, ha, ?_⟩
      intro before b after hl
      simp at hl
    · rcases ih with ⟨before, b, after, h⟩ | h
      · left
        refine ⟨before, b, after ++ [a], by simp [h.split], h.meets, each_concat.mpr ⟨h.since, ?_⟩⟩
        rwa [h.split, List.foldl_append, List.foldl_cons] at ha
      · exact .inr (each_concat.mpr ⟨h, ha⟩)

variable {V : σ → τ}

theorem Each.value_eq (hkeep : ∀ u b, ¬ C u b → V (step u b) = V u) (h : Each step (fun u b => ¬ C u b) s l) :
    V (l.foldl step s) = V s := by
  induction l using List.reverseRecOn with
  | nil => rfl
  | append_singleton l a ih =>
    rw [each_concat] at h
    rw [List.foldl_append, List.foldl_cons, List.foldl_nil, hkeep _ _ h.2, ih h.1]

theorem Last.value_eq (hkeep : ∀ u b, ¬ C u b → V (step u b) = V u) (h : Last step C s l before a after) :
    V (l.foldl step s) = V (step (before.foldl step s) a) := by
  rw [h.split, List.foldl_append, List.foldl_cons]
  exact Each.value_eq hkeep h.since

end Last

section Tally

variable {step : σ → α → σ} {count : σ → α → ℕ} {I : σ → Prop}

def tally (step : σ → α → σ) (count : σ → α → ℕ) (s : σ) : List α → ℕ
  | [] => 0
  | a :: l => count s a + tally step count (step s a) l

theorem counter_foldl {get : σ → UInt64} (h : ∀ s a, get (step s a) = get s + UInt64.ofNat (count s a)) (s : σ)
    (l : List α) : get (l.foldl step s) = get s + UInt64.ofNat (tally step count s l) := by
  induction l generalizing s with
  | nil => exact (UInt64.add_zero _).symm
  | cons a l ih => rw [List.foldl_cons, ih, h, tally, UInt64.ofNat_add, UInt64.add_assoc]

theorem tally_add_le {potential : σ → ℕ} {gain : α → ℕ} (hI : ∀ s a, I s → I (step s a))
    (h : ∀ s a, I s → count s a + potential (step s a) ≤ potential s + gain a) {s : σ} (hs : I s) (l : List α) :
    tally step count s l + potential (l.foldl step s) ≤ potential s + (l.map gain).sum := by
  induction l generalizing s with
  | nil =>
    rw [tally, List.foldl_nil, List.map_nil, List.sum_nil]
    omega
  | cons a l ih =>
    have hstep := h s a hs
    have hrest := ih (hI s a hs)
    rw [tally, List.foldl_cons, List.map_cons, List.sum_cons]
    omega

end Tally

section Partial

variable {I P : σ → Prop} {C : σ → α → Prop}

def AlwaysM (f : σ → α → Option σ) (P : σ → Prop) (s : σ) (l : List α) : Prop :=
  ∀ before after t, l = before ++ after → before.foldlM f s = some t → P t

def EachM (f : σ → α → Option σ) (C : σ → α → Prop) (s : σ) (l : List α) : Prop :=
  ∀ before a after u t, l = before ++ a :: after → before.foldlM f s = some u → f u a = some t → C u a

theorem alwaysM_iff_eachM (hs : I s) (hI : ∀ u a t, I u → f u a = some t → I t) (hP : P s)
    (hstep : ∀ u a t, I u → P u → f u a = some t → (P t ↔ C u a)) : AlwaysM f P s l ↔ EachM f C s l := by
  constructor
  · intro hall before a after u t hl hu ht
    have hnext : P t := hall (before ++ [a]) after t (by simp [hl]) (foldlM_snoc.mpr ⟨u, hu, ht⟩)
    exact (hstep u a t (Fallible.foldlM_invariant hI hs hu) (hall before (a :: after) u hl hu) ht).mp hnext
  · intro heach before after t hl ht
    induction before using List.reverseRecOn generalizing after t with
    | nil =>
      obtain rfl := Option.some.inj ht
      exact hP
    | append_singleton before a ih =>
      obtain ⟨u, hu, ht⟩ := foldlM_snoc.mp ht
      have hl' : l = before ++ a :: after := by simp [hl]
      exact (hstep u a t (Fallible.foldlM_invariant hI hs hu) (ih _ u hl' hu) ht).mpr
        (heach before a after u t hl' hu ht)

end Partial

end PathForge.History
