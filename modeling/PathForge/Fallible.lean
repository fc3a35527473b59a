import Mathlib.Data.Nat.Init
import Mathlib.Tactic.Common

namespace PathForge.Fallible

/-- A computation over a state: it returns, fails with an error, or panics (`none`). A failure keeps the state
that was reached. -/
structure Prog (σ ε α : Type) where
  run : σ → Option (Except ε α × σ)

variable {σ τ ε α β : Type}

def Prog.outcome (x : Prog σ ε α) (s : σ) : Option (Except ε α) := (x.run s).map Prod.fst

instance : Monad (Prog σ ε) where
  pure a := ⟨fun s => some (.ok a, s)⟩
  bind x f := ⟨fun s => match x.run s with
    | none => none
    | some (.error e, t) => some (.error e, t)
    | some (.ok a, t) => (f a).run t⟩

def fail (e : ε) : Prog σ ε α := ⟨fun s => some (.error e, s)⟩

def ensure (p : σ → Prop) [DecidablePred p] (e : σ → ε) : Prog σ ε Unit :=
  ⟨fun s => if p s then some (.ok (), s) else some (.error (e s), s)⟩

def ofExcept (r : Except ε α) : Prog σ ε α := ⟨fun s => some (r, s)⟩

def within (b : σ) (x : Prog σ ε α) : Prog τ ε α := ⟨fun s => (x.outcome b).map (fun r => (r, s))⟩

def mapError {ε' : Type} (f : ε → ε') (x : Prog σ ε α) : Prog σ ε' α :=
  ⟨fun s => (x.run s).map (fun r => (r.1.mapError f, r.2))⟩

def subtract (a b : ℕ) : Prog σ ε ℕ := ⟨fun s => if b ≤ a then some (.ok (a - b), s) else none⟩

@[simp] theorem run_pure (a : α) (s : σ) : (pure a : Prog σ ε α).run s = some (.ok a, s) := rfl

@[simp] theorem run_fail (e : ε) (s : σ) : (fail e : Prog σ ε α).run s = some (.error e, s) := rfl

@[simp] theorem run_ofExcept (r : Except ε α) (s : σ) : (ofExcept r : Prog σ ε α).run s = some (r, s) := rfl

theorem run_pure_eq_ok {a b : α} {s t : σ} :
    (pure a : Prog σ ε α).run s = some (.ok b, t) ↔ a = b ∧ s = t := by simp

theorem run_bind (x : Prog σ ε α) (f : α → Prog σ ε β) (s : σ) :
    (x >>= f).run s = match x.run s with
      | none => none
      | some (.error e, t) => some (.error e, t)
      | some (.ok a, t) => (f a).run t := rfl

theorem run_bind_ok {x : Prog σ ε α} {s t : σ} {a : α} (f : α → Prog σ ε β)
    (h : x.run s = some (.ok a, t)) : (x >>= f).run s = (f a).run t := by rw [run_bind, h]

theorem run_bind_error {x : Prog σ ε α} {s t : σ} {e : ε} (f : α → Prog σ ε β)
    (h : x.run s = some (.error e, t)) : (x >>= f).run s = some (.error e, t) := by rw [run_bind, h]

theorem run_bind_panic {x : Prog σ ε α} {s : σ} (f : α → Prog σ ε β)
    (h : x.run s = none) : (x >>= f).run s = none := by rw [run_bind, h]

theorem run_bind_eq_ok {x : Prog σ ε α} {f : α → Prog σ ε β} {s u : σ} {b : β} :
    (x >>= f).run s = some (.ok b, u) ↔
      ∃ a t, x.run s = some (.ok a, t) ∧ (f a).run t = some (.ok b, u) := by
  rw [run_bind]
  rcases hx : x.run s with _ | ⟨_ | a, t⟩ <;> simp

theorem run_bind_congr {x : Prog σ ε α} {f g : α → Prog σ ε β} {s : σ}
    (h : ∀ a t, x.run s = some (.ok a, t) → (f a).run t = (g a).run t) : (x >>= f).run s = (x >>= g).run s := by
  rcases hx : x.run s with _ | ⟨_ | a, t⟩
  · rw [run_bind_panic _ hx, run_bind_panic _ hx]
  · rw [run_bind_error _ hx, run_bind_error _ hx]
  · rw [run_bind_ok _ hx, run_bind_ok _ hx]
    exact h a t hx

theorem run_subtract {a b : ℕ} (h : b ≤ a) (s : σ) :
    (subtract a b : Prog σ ε ℕ).run s = some (.ok (a - b), s) := if_pos h

theorem run_ensure_pos {p : σ → Prop} [DecidablePred p] {e : σ → ε} {s : σ} (h : p s) :
    (ensure p e).run s = some (.ok (), s) := if_pos h

theorem run_ensure_neg {p : σ → Prop} [DecidablePred p] {e : σ → ε} {s : σ} (h : ¬ p s) :
    (ensure p e).run s = some (.error (e s), s) := if_neg h

theorem run_ensure_eq_ok {p : σ → Prop} [DecidablePred p] {e : σ → ε} {s t : σ} {u : Unit} :
    (ensure p e).run s = some (.ok u, t) ↔ p s ∧ s = t := by
  by_cases h : p s
  · simp [run_ensure_pos h, h]
  · simp [run_ensure_neg h, h]

theorem outcome_eq_some {x : Prog σ ε α} {s : σ} {r : Except ε α} :
    x.outcome s = some r ↔ ∃ t, x.run s = some (r, t) := by
  simp [Prog.outcome]

theorem outcome_eq_none {x : Prog σ ε α} {s : σ} : x.outcome s = none ↔ x.run s = none := by
  simp [Prog.outcome]

theorem exists_outcome_iff {x : Prog σ ε α} {s : σ} : (∃ r, x.outcome s = some r) ↔ x.run s ≠ none := by
  rw [ne_eq, ← outcome_eq_none, ← ne_eq]
  exact Option.ne_none_iff_exists'.symm

theorem outcome_mapError_eq_ok {ε' : Type} {f : ε → ε'} {x : Prog σ ε α} {s : σ} {a : α} :
    (mapError f x).outcome s = some (.ok a) ↔ x.outcome s = some (.ok a) := by
  simp only [Prog.outcome, mapError]
  rcases x.run s with _ | ⟨_ | _, _⟩ <;> simp [Except.mapError]

theorem run_within_ok {b : σ} {x : Prog σ ε α} {a : α} (s : τ) (h : x.outcome b = some (.ok a)) :
    (within b x).run s = some (.ok a, s) := by simp [within, h]

theorem run_within_eq_ok {b : σ} {x : Prog σ ε α} {a : α} {s t : τ} :
    (within b x).run s = some (.ok a, t) ↔ s = t ∧ x.outcome b = some (.ok a) := by
  simp only [within, Option.map_eq_some_iff, Prod.mk.injEq]
  constructor
  · rintro ⟨r, h, rfl, rfl⟩
    exact ⟨rfl, h⟩
  · rintro ⟨rfl, h⟩
    exact ⟨_, h, rfl, rfl⟩

section Triples

def Ends (x : Prog σ ε α) (Q : Except ε α → σ → Prop) (s : σ) : Prop :=
  ∃ r t, x.run s = some (r, t) ∧ Q r t

def onOk (Q : α → σ → Prop) : Except ε α → σ → Prop
  | .ok a, t => Q a t
  | .error _, _ => True

theorem Ends.mono {x : Prog σ ε α} {Q R : α → σ → Prop} {s : σ}
    (h : Ends x (onOk Q) s) (hQ : ∀ a t, Q a t → R a t) : Ends x (onOk R) s := by
  obtain ⟨r, t, hx, hr⟩ := h
  refine ⟨r, t, hx, ?_⟩
  cases r with
  | error e => trivial
  | ok a => exact hQ a t hr

theorem Ends.ne_none {x : Prog σ ε α} {Q : Except ε α → σ → Prop} {s : σ}
    (h : Ends x Q s) : x.run s ≠ none := by
  obtain ⟨r, t, hx, _⟩ := h
  simp [hx]

theorem ends_pure {a : α} {Q : α → σ → Prop} {s : σ} (h : Q a s) :
    Ends (pure a : Prog σ ε α) (onOk Q) s := ⟨_, _, rfl, h⟩

theorem ends_fail {e : ε} {Q : α → σ → Prop} {s : σ} : Ends (fail e) (onOk Q) s := ⟨_, _, rfl, trivial⟩

theorem ends_bind {x : Prog σ ε α} {f : α → Prog σ ε β} {Q : β → σ → Prop}
    {R : α → σ → Prop} {s : σ} (hx : Ends x (onOk R) s)
    (hf : ∀ a t, R a t → Ends (f a) (onOk Q) t) : Ends (x >>= f) (onOk Q) s := by
  obtain ⟨r, t, hr, hR⟩ := hx
  cases r with
  | error e => exact ⟨_, _, run_bind_error f hr, trivial⟩
  | ok a =>
    obtain ⟨r', u, hf', hQ⟩ := hf a t hR
    exact ⟨r', u, (run_bind_ok f hr).trans hf', hQ⟩

theorem ends_ensure {p : σ → Prop} [DecidablePred p] {e : σ → ε} {s : σ} :
    Ends (ensure p e) (onOk fun _ t => p s ∧ t = s) s := by
  by_cases h : p s
  · exact ⟨_, _, run_ensure_pos h, h, rfl⟩
  · exact ⟨_, _, run_ensure_neg h, trivial⟩

theorem ends_within {b : σ} {x : Prog σ ε α} {s : τ} (h : x.run b ≠ none) :
    Ends (within b x) (onOk fun _ t => t = s) s := by
  rcases hx : x.run b with _ | ⟨r, b'⟩
  · exact absurd hx h
  · refine ⟨r, s, by simp [within, Prog.outcome, hx], ?_⟩
    cases r <;> trivial

end Triples

section Loops

variable (μ : σ → ℕ) (cond : α → σ → Bool) (body : α → Prog σ ε α)

def loopFuel : ℕ → α → Prog σ ε α
  | 0, _ => ⟨fun _ => none⟩
  | n + 1, a => ⟨fun s => if cond a s then (body a >>= loopFuel n).run s else some (.ok a, s)⟩

/-- The loop `while cond { body }`; the measure of the state gives enough fuel (`loop_eq`). -/
def loop (a : α) : Prog σ ε α := ⟨fun s => (loopFuel cond body (μ s + 1) a).run s⟩

def Decreases : Prop :=
  ∀ a s a' t, cond a s = true → (body a).run s = some (.ok a', t) → μ t < μ s

variable {μ cond body}

theorem loopFuel_eq (hd : Decreases μ cond body) (n m : ℕ) (a : α) (s : σ) (hn : μ s < n) (hm : μ s < m) :
    (loopFuel cond body n a).run s = (loopFuel cond body m a).run s := by
  induction n generalizing m a s with
  | zero => omega
  | succ n ih =>
    obtain ⟨m, rfl⟩ : ∃ k, m = k + 1 := ⟨m - 1, by omega⟩
    simp only [loopFuel]
    split_ifs with hc
    · rcases hb : (body a).run s with _ | ⟨_ | a', t⟩
      · rw [run_bind_panic _ hb, run_bind_panic _ hb]
      · rw [run_bind_error _ hb, run_bind_error _ hb]
      · have ht := hd a s a' t hc hb
        rw [run_bind_ok _ hb, run_bind_ok _ hb]
        exact ih m a' t (by omega) (by omega)
    · rfl

theorem loop_eq (hd : Decreases μ cond body) (a : α) (s : σ) :
    (loop μ cond body a).run s =
      if cond a s then (body a >>= loop μ cond body).run s else some (.ok a, s) := by
  simp only [loop, loopFuel]
  split_ifs with hc
  · rcases hb : (body a).run s with _ | ⟨_ | a', t⟩
    · rw [run_bind_panic _ hb, run_bind_panic _ hb]
    · rw [run_bind_error _ hb, run_bind_error _ hb]
    · have ht := hd a s a' t hc hb
      rw [run_bind_ok _ hb, run_bind_ok _ hb]
      exact loopFuel_eq hd (μ s) (μ t + 1) a' t (by omega) (by omega)
  · rfl

theorem loop_stop (hd : Decreases μ cond body) {a : α} {s : σ} (hc : cond a s = false) :
    (loop μ cond body a).run s = some (.ok a, s) := by simp [loop_eq hd, hc]

theorem loop_step (hd : Decreases μ cond body) {a a' : α} {s t : σ} (hc : cond a s = true)
    (hb : (body a).run s = some (.ok a', t)) :
    (loop μ cond body a).run s = (loop μ cond body a').run t := by
  rw [loop_eq hd, if_pos hc, run_bind_ok _ hb]

theorem loop_congr {body' : α → Prog σ ε α} (h : ∀ a s, cond a s = true → (body a).run s = (body' a).run s) (a : α)
    (s : σ) : (loop μ cond body a).run s = (loop μ cond body' a).run s := by
  have rounds (n : ℕ) (a : α) (s : σ) : (loopFuel cond body n a).run s = (loopFuel cond body' n a).run s := by
    induction n generalizing a s with
    | zero => rfl
    | succ n ih =>
      simp only [loopFuel]
      split_ifs with hc
      · calc (body a >>= loopFuel cond body n).run s
          _ = (body a >>= loopFuel cond body' n).run s := run_bind_congr fun a' t _ => ih a' t
          _ = (body' a >>= loopFuel cond body' n).run s := by rw [run_bind, run_bind, h a s hc]
      · rfl
  exact rounds (μ s + 1) a s

theorem ends_loop {I : α → σ → Prop} {a : α} {s : σ}
    (hb : ∀ a s, I a s → cond a s = true → Ends (body a) (onOk fun a' t => I a' t ∧ μ t < μ s) s)
    (hI : I a s) : Ends (loop μ cond body a) (onOk fun a' t => I a' t ∧ cond a' t = false) s := by
  have rounds (n : ℕ) (a : α) (s : σ) (hn : μ s < n) (hI : I a s) :
      Ends (loopFuel cond body n a) (onOk fun a' t => I a' t ∧ cond a' t = false) s := by
    induction n generalizing a s with
    | zero => omega
    | succ n ih =>
      by_cases hc : cond a s = true
      · have hround : Ends (body a >>= loopFuel cond body n)
            (onOk fun a' t => I a' t ∧ cond a' t = false) s := by
          apply ends_bind (hb a s hI hc)
          intro a' t h
          exact ih a' t (by omega) h.1
        obtain ⟨r, t, hr, hQ⟩ := hround
        exact ⟨r, t, by simpa [loopFuel, hc] using hr, hQ⟩
      · exact ⟨.ok a, s, by simp [loopFuel, hc], hI, by simpa using hc⟩
  exact rounds _ a s (Nat.lt_succ_self _) hI

theorem loop_invariant {I : α → σ → Prop} (hd : Decreases μ cond body)
    (hb : ∀ a s a' t, I a s → cond a s = true → (body a).run s = some (.ok a', t) → I a' t)
    {a a' : α} {s t : σ} (hI : I a s) (h : (loop μ cond body a).run s = some (.ok a', t)) :
    I a' t ∧ cond a' t = false := by
  induction hn : μ s using Nat.strong_induction_on generalizing a s with
  | _ n ih =>
    rw [loop_eq hd] at h
    split_ifs at h with hc
    · obtain ⟨a₁, s₁, h₁, h₂⟩ := run_bind_eq_ok.mp h
      exact ih (μ s₁) (hn ▸ hd a s a₁ s₁ hc h₁) (hb a s a₁ s₁ hI hc h₁) h₂ rfl
    · simp only [Option.some.injEq, Prod.mk.injEq, Except.ok.injEq] at h
      obtain ⟨rfl, rfl⟩ := h
      exact ⟨hI, by simpa using hc⟩

end Loops

section Polling

variable (μ : σ → ℕ) (next : Prog σ ε (Option α)) (body : α → Prog σ ε Unit)

def whileSomeFuel : ℕ → Prog σ ε Unit
  | 0 => ⟨fun _ => none⟩
  | n + 1 => do
    match ← next with
    | none => return ()
    | some x => do
      body x
      whileSomeFuel n

def whileSome : Prog σ ε Unit := ⟨fun s => (whileSomeFuel next body (μ s + 1)).run s⟩

def Progresses : Prop :=
  ∀ s x t u r, next.run s = some (.ok (some x), t) → (body x).run t = some (r, u) → μ u < μ s

variable {μ next body}

theorem whileSomeFuel_eq (hp : Progresses μ next body) (n m : ℕ) (s : σ) (hn : μ s < n) (hm : μ s < m) :
    (whileSomeFuel next body n).run s = (whileSomeFuel next body m).run s := by
  induction n generalizing m s with
  | zero => omega
  | succ n ih =>
    obtain ⟨m, rfl⟩ : ∃ k, m = k + 1 := ⟨m - 1, by omega⟩
    simp only [whileSomeFuel]
    rcases hx : next.run s with _ | ⟨_ | _ | x, t⟩
    · rw [run_bind_panic _ hx, run_bind_panic _ hx]
    · rw [run_bind_error _ hx, run_bind_error _ hx]
    · rw [run_bind_ok _ hx, run_bind_ok _ hx]
    · rw [run_bind_ok _ hx, run_bind_ok _ hx]
      rcases hb : (body x).run t with _ | ⟨_ | _, u⟩
      · rw [run_bind_panic _ hb, run_bind_panic _ hb]
      · rw [run_bind_error _ hb, run_bind_error _ hb]
      · have hu := hp s x t u _ hx hb
        rw [run_bind_ok _ hb, run_bind_ok _ hb]
        exact ih m u (by omega) (by omega)

theorem whileSome_stop {s t : σ} (hx : next.run s = some (.ok none, t)) :
    (whileSome μ next body).run s = some (.ok (), t) := run_bind_ok _ hx

theorem whileSome_error {s t : σ} {e : ε} (hx : next.run s = some (.error e, t)) :
    (whileSome μ next body).run s = some (.error e, t) := run_bind_error _ hx

theorem whileSome_step (hp : Progresses μ next body) {s t u : σ} {x : α}
    (hx : next.run s = some (.ok (some x), t)) (hb : (body x).run t = some (.ok (), u)) :
    (whileSome μ next body).run s = (whileSome μ next body).run u := by
  have hu := hp s x t u _ hx hb
  change (whileSomeFuel next body (μ s + 1)).run s = (whileSomeFuel next body (μ u + 1)).run u
  rw [whileSomeFuel, run_bind_ok _ hx, run_bind_ok _ hb]
  exact whileSomeFuel_eq hp _ _ u hu (by omega)

end Polling

section Runs

variable {f : σ → α → Option σ}

theorem foldlM_invariant {I : σ → Prop} (hf : ∀ s a t, I s → f s a = some t → I t) {l : List α} {s t : σ}
    (hI : I s) (h : l.foldlM f s = some t) : I t := by
  induction l generalizing s with
  | nil =>
    rw [List.foldlM_nil, Option.pure_def, Option.some.injEq] at h
    exact h ▸ hI
  | cons a l ih =>
    rw [List.foldlM_cons] at h
    obtain ⟨u, hu, ht⟩ := Option.bind_eq_some_iff.mp h
    exact ih (hf s a u hI hu) ht

theorem foldlM_invariant_mem {I : σ → Prop} {l : List α}
    (hf : ∀ s, ∀ a ∈ l, ∀ t, I s → f s a = some t → I t) {s t : σ}
    (hI : I s) (h : l.foldlM f s = some t) : I t := by
  induction l generalizing s with
  | nil => exact Option.some.inj h ▸ hI
  | cons a l ih =>
    rw [List.foldlM_cons] at h
    obtain ⟨u, hu, ht⟩ := Option.bind_eq_some_iff.mp h
    exact ih (fun s b hb => hf s b (List.mem_cons_of_mem a hb)) (hf s a List.mem_cons_self u hI hu) ht

theorem exists_foldlM_of_mem {I : σ → Prop} {l : List α}
    (hf : ∀ a ∈ l, ∀ s, I s → ∃ t, f s a = some t ∧ I t) {s : σ}
    (hI : I s) : ∃ t, l.foldlM f s = some t ∧ I t := by
  induction l generalizing s with
  | nil => exact ⟨s, rfl, hI⟩
  | cons a l ih =>
    rw [List.forall_mem_cons] at hf
    obtain ⟨u, hu, hu'⟩ := hf.1 s hI
    obtain ⟨t, ht, ht'⟩ := ih hf.2 hu'
    exact ⟨t, by rw [List.foldlM_cons, hu]; exact ht, ht'⟩

theorem exists_foldlM {I : σ → Prop} (hf : ∀ s a, I s → ∃ t, f s a = some t ∧ I t) (l : List α) {s : σ}
    (hI : I s) : ∃ t, l.foldlM f s = some t ∧ I t := exists_foldlM_of_mem (fun a _ s => hf s a) hI

theorem mem_filterAuxM {g : α → Option Bool} {l acc l' : List α} (h : l.filterAuxM g acc = some l') (x : α) :
    x ∈ l' ↔ x ∈ acc ∨ x ∈ l ∧ g x = some true := by
  induction l generalizing acc with
  | nil =>
    obtain rfl := Option.some.inj h
    simp
  | cons a l ih =>
    rw [List.filterAuxM] at h
    obtain ⟨b, hb, h⟩ := Option.bind_eq_some_iff.mp h
    rw [ih h]
    cases b with
    | false => grind
    | true => grind

theorem filterAuxM_eq {g : α → Option Bool} {p : α → Bool} {l : List α} (h : ∀ x ∈ l, g x = some (p x))
    (acc : List α) :
    l.filterAuxM g acc = some ((l.filter p).reverse ++ acc) := by
  induction l generalizing acc with
  | nil => rfl
  | cons a l ih =>
    rw [List.filterAuxM, h a List.mem_cons_self]
    simp only [Option.bind_eq_bind, Option.bind_some]
    rw [ih fun x hx => h x (List.mem_cons_of_mem a hx)]
    cases hp : p a with
    | false => simp [hp]
    | true => simp [hp]

theorem filterM_eq {g : α → Option Bool} {p : α → Bool} {l : List α} (h : ∀ x ∈ l, g x = some (p x)) :
    l.filterM g = some (l.filter p) := by
  rw [List.filterM, filterAuxM_eq h]
  simp

theorem forall_of_filterAuxM {g : α → Option Bool} {l acc l' : List α} (h : l.filterAuxM g acc = some l') :
    ∀ x ∈ l, g x ≠ none := by
  induction l generalizing acc with
  | nil => exact fun x hx => absurd hx List.not_mem_nil
  | cons a l ih =>
    rw [List.filterAuxM] at h
    obtain ⟨b, hb, h⟩ := Option.bind_eq_some_iff.mp h
    intro x hx
    rcases List.mem_cons.mp hx with rfl | hx
    · simp [hb]
    · exact ih h x hx

theorem exists_filterM_iff {g : α → Option Bool} {l : List α} :
    (∃ l', l.filterM g = some l') ↔ ∀ x ∈ l, g x ≠ none := by
  constructor
  · rintro ⟨l', h⟩
    obtain ⟨acc, hacc, -⟩ := Option.bind_eq_some_iff.mp h
    exact forall_of_filterAuxM hacc
  · intro h
    refine ⟨_, filterM_eq (p := fun x => (g x).getD false) ?_⟩
    intro x hx
    obtain ⟨b, hb⟩ := Option.ne_none_iff_exists'.mp (h x hx)
    rw [hb, Option.getD_some]

theorem mem_filterM {g : α → Option Bool} {l l' : List α} (h : l.filterM g = some l') (x : α) :
    x ∈ l' ↔ x ∈ l ∧ g x = some true := by
  obtain ⟨acc, hacc, h⟩ := Option.bind_eq_some_iff.mp h
  obtain rfl := Option.some.inj h
  rw [List.mem_reverse, mem_filterAuxM hacc]
  simp

theorem mapM_eq_some_map {f : α → Option β} {g : α → β} {l : List α} (h : ∀ x ∈ l, f x = some (g x)) :
    l.mapM f = some (l.map g) := by
  induction l with
  | nil => rfl
  | cons x l ih =>
    rw [List.forall_mem_cons] at h
    rw [List.mapM_cons, h.1, ih h.2]
    rfl

end Runs

end PathForge.Fallible
