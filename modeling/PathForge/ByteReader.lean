import PathForge.Fallible
import Mathlib.Algebra.Order.Ring.Nat
import Mathlib.Data.List.Induction
import Mathlib.Tactic.Ring

namespace PathForge.ByteReader

open Fallible

abbrev Bytes := List UInt8
abbrev Reader (ε α : Type) := Prog Bytes ε α

variable {ε α β : Type}

section BigEndian

def beNat (b : Bytes) : ℕ := b.foldl (fun n x => n * 256 + x.toNat) 0

/-- The `k` big-endian octets of `n`; what does not fit is cut off, as in a narrowing cast. -/
def natBe : ℕ → ℕ → Bytes
  | 0, _ => []
  | k + 1, n => natBe k (n / 256) ++ [UInt8.ofNat n]

@[simp] theorem natBe_length (k n : ℕ) : (natBe k n).length = k := by
  induction k generalizing n with
  | zero => rfl
  | succ k ih => simp [natBe, ih]

@[simp] theorem beNat_concat (b : Bytes) (x : UInt8) : beNat (b ++ [x]) = beNat b * 256 + x.toNat := by
  simp [beNat]

theorem beNat_natBe (k n : ℕ) : beNat (natBe k n) = n % 256 ^ k := by
  induction k generalizing n with
  | zero => simp [natBe, beNat, Nat.mod_one]
  | succ k ih =>
    rw [natBe, beNat_concat, ih, pow_succ', Nat.mod_mul, UInt8.toNat_ofNat']
    ring

theorem beNat_lt (b : Bytes) : beNat b < 256 ^ b.length := by
  induction b using List.reverseRecOn with
  | nil => simp [beNat]
  | append_singleton b x ih =>
    have hx := x.toNat_lt
    rw [beNat_concat, List.length_append, List.length_singleton, pow_succ]
    omega

theorem natBe_beNat (b : Bytes) : natBe b.length (beNat b) = b := by
  induction b using List.reverseRecOn with
  | nil => rfl
  | append_singleton b x ih =>
    have hx := x.toNat_lt
    have hdiv : (beNat b * 256 + x.toNat) / 256 = beNat b := by omega
    have hmod : UInt8.ofNat (beNat b * 256 + x.toNat) = x := by
      apply UInt8.toNat_inj.mp
      rw [UInt8.toNat_ofNat']
      omega
    rw [List.length_append, List.length_singleton, natBe, beNat_concat, hdiv, hmod, ih]

end BigEndian

section Getters

def remaining : Reader ε ℕ := ⟨fun b => some (.ok b.length, b)⟩

def copyToBytes (n : ℕ) : Reader ε Bytes :=
  ⟨fun b => if n ≤ b.length then some (.ok (b.take n), b.drop n) else none⟩

def advance (n : ℕ) : Reader ε Unit := do
  let _ ← copyToBytes n
  return ()

def peek (x : Reader ε α) : Reader ε α := ⟨fun b => (within b x).run b⟩

def getU8 : Reader ε UInt8 := ⟨fun
  | [] => none
  | x :: b => some (.ok x, b)⟩

def getU16 : Reader ε UInt16 := do
  let b ← copyToBytes 2
  return UInt16.ofNat (beNat b)

def getU32 : Reader ε UInt32 := do
  let b ← copyToBytes 4
  return UInt32.ofNat (beNat b)

def checkRemaining (n : ℕ) (e : ℕ → ε) : Reader ε Unit :=
  ensure (fun b => n ≤ b.length) (fun b => e b.length)

def repeatRead : ℕ → Reader ε α → Reader ε (List α)
  | 0, _ => pure []
  | n + 1, item => do
    let x ← item
    let xs ← repeatRead n item
    return x :: xs

def push (item : Reader ε α) (acc : List α) : Reader ε (List α) := do
  let x ← item
  return acc ++ [x]

def pushWhile (k : ℕ) (item : Reader ε α) : List α → Reader ε (List α) :=
  loop List.length (fun _ b => decide (k ≤ b.length)) (push item)

def putU16 (n : UInt16) : Bytes := natBe 2 n.toNat

def putU32 (n : UInt32) : Bytes := natBe 4 n.toNat

@[simp] theorem putU16_length (n : UInt16) : (putU16 n).length = 2 := natBe_length _ _

@[simp] theorem putU32_length (n : UInt32) : (putU32 n).length = 4 := natBe_length _ _

theorem flatMap_putU32_length (f : α → UInt32) (xs : List α) :
    (xs.flatMap fun x => putU32 (f x)).length = 4 * xs.length := by
  induction xs with
  | nil => rfl
  | cons x xs ih => simp only [List.flatMap_cons, List.length_append, putU32_length, List.length_cons, ih]; omega

end Getters

section Exact

def Reads (x : Reader ε α) (b : Bytes) (a : α) : Prop := ∀ rest, x.run (b ++ rest) = some (.ok a, rest)

theorem reads_pure (a : α) : Reads (pure a : Reader ε α) [] a := fun _ => rfl

theorem Reads.bind {x : Reader ε α} {f : α → Reader ε β} {b c : Bytes} {a : α} {y : β}
    (hx : Reads x b a) (hf : Reads (f a) c y) : Reads (x >>= f) (b ++ c) y := by
  intro rest
  rw [List.append_assoc, run_bind_ok f (hx _)]
  exact hf rest

theorem Reads.map {x : Reader ε α} {g : α → β} {b : Bytes} {a : α} (hx : Reads x b a) :
    Reads (x >>= fun a => pure (g a)) b (g a) := by
  have h := hx.bind (f := fun a => pure (g a)) (reads_pure (g a))
  rwa [List.append_nil] at h

theorem run_check {n : ℕ} {e : ℕ → ε} {b : Bytes} (h : n ≤ b.length) :
    (checkRemaining n e).run b = some (.ok (), b) := run_ensure_pos h

theorem Reads.check {n : ℕ} {e : ℕ → ε} {x : Reader ε α} {b : Bytes} {a : α} (hn : n ≤ b.length)
    (hx : Reads x b a) : Reads (checkRemaining n e >>= fun _ => x) b a := by
  intro rest
  rw [run_bind_ok _ (run_check (by simp; omega))]
  exact hx rest

theorem run_remaining (b : Bytes) : (remaining : Reader ε ℕ).run b = some (.ok b.length, b) := rfl

theorem run_getU8_cons (x : UInt8) (b : Bytes) :
    (getU8 : Reader ε UInt8).run (x :: b) = some (.ok x, b) := rfl

theorem reads_getU8 (x : UInt8) : Reads (getU8 : Reader ε UInt8) [x] x := fun _ => rfl

theorem reads_copyToBytes (b : Bytes) : Reads (copyToBytes b.length : Reader ε Bytes) b b := by
  intro rest
  simp [copyToBytes]

theorem ofNat_beNat_putU16 (n : UInt16) : UInt16.ofNat (beNat (putU16 n)) = n := by
  have hn := n.toNat_lt
  apply UInt16.toNat_inj.mp
  rw [putU16, beNat_natBe, UInt16.toNat_ofNat']
  omega

theorem reads_getU16 (n : UInt16) : Reads (getU16 : Reader ε UInt16) (putU16 n) n := by
  have h := (reads_copyToBytes (ε := ε) (putU16 n)).map (g := fun b => UInt16.ofNat (beNat b))
  rwa [putU16_length, ofNat_beNat_putU16] at h

theorem ofNat_beNat_putU32 (n : UInt32) : UInt32.ofNat (beNat (putU32 n)) = n := by
  have hn := n.toNat_lt
  apply UInt32.toNat_inj.mp
  rw [putU32, beNat_natBe, UInt32.toNat_ofNat']
  omega

theorem reads_getU32 (n : UInt32) : Reads (getU32 : Reader ε UInt32) (putU32 n) n := by
  have h := (reads_copyToBytes (ε := ε) (putU32 n)).map (g := fun b => UInt32.ofNat (beNat b))
  rwa [putU32_length, ofNat_beNat_putU32] at h

theorem reads_repeatRead {item : Reader ε α} {enc : α → Bytes} (xs : List α)
    (h : ∀ x ∈ xs, Reads item (enc x) x) : Reads (repeatRead xs.length item) (xs.flatMap enc) xs := by
  induction xs with
  | nil => exact reads_pure []
  | cons x xs ih =>
    have hx := h x (by simp)
    have hxs := ih (fun y hy => h y (List.mem_cons_of_mem _ hy))
    exact hx.bind hxs.map

theorem loop_flatMap {cond : α → Bytes → Bool} {body : α → Reader ε α} {enc : β → Bytes}
    {step : α → β → α} (hd : Decreases List.length cond body) {xs : List β} {acc : α} {rest : Bytes}
    (hx : ∀ x ∈ xs, ∀ acc b, cond acc (enc x ++ b) = true ∧
      (body acc).run (enc x ++ b) = some (.ok (step acc x), b))
    (hrest : ∀ acc, cond acc rest = false) :
    (loop List.length cond body acc).run (xs.flatMap enc ++ rest) =
      some (.ok (xs.foldl step acc), rest) := by
  induction xs generalizing acc with
  | nil => exact loop_stop hd (hrest acc)
  | cons x xs ih =>
    obtain ⟨hc, hb⟩ := hx x (by simp) acc (xs.flatMap enc ++ rest)
    rw [List.flatMap_cons, List.append_assoc, loop_step hd hc hb]
    exact ih (fun y hy => hx y (List.mem_cons_of_mem _ hy))

end Exact

section Bounds

def Consumes (x : Reader ε α) : Prop :=
  ∀ s a t, x.run s = some (.ok a, t) → t.length < s.length

theorem run_copyToBytes_eq_ok {n : ℕ} {s t c : Bytes} :
    (copyToBytes n : Reader ε Bytes).run s = some (.ok c, t) ↔ s = c ++ t ∧ c.length = n := by
  simp only [copyToBytes]
  split_ifs with h
  · simp only [Option.some.injEq, Prod.mk.injEq, Except.ok.injEq]
    constructor
    · rintro ⟨rfl, rfl⟩
      exact ⟨(List.take_append_drop n s).symm, by simp [h]⟩
    · rintro ⟨rfl, rfl⟩
      simp
  · simp only [false_iff, not_and]
    rintro rfl
    simp only [List.length_append] at h
    omega

theorem run_advance_eq_ok {n : ℕ} {s t : Bytes} {u : Unit} :
    (advance n : Reader ε Unit).run s = some (.ok u, t) ↔ n ≤ s.length ∧ t = s.drop n := by
  rw [advance, run_bind]
  simp only [copyToBytes]
  split_ifs with h
  · simp [h, eq_comm]
  · simp [h]

theorem run_peek_eq_ok {x : Reader ε α} {s t : Bytes} {a : α} :
    (peek x).run s = some (.ok a, t) ↔ s = t ∧ x.outcome s = some (.ok a) := run_within_eq_ok

theorem run_getU8_eq_ok {s t : Bytes} {x : UInt8} :
    (getU8 : Reader ε UInt8).run s = some (.ok x, t) ↔ s = x :: t := by
  cases s <;> simp [getU8]

theorem run_getU16_eq_ok {s t : Bytes} {n : UInt16} :
    (getU16 : Reader ε UInt16).run s = some (.ok n, t) ↔ s = putU16 n ++ t := by
  constructor
  · intro h
    obtain ⟨c, u, hc, hp⟩ := run_bind_eq_ok.mp h
    obtain ⟨rfl, hl⟩ := run_copyToBytes_eq_ok.mp hc
    obtain ⟨rfl, rfl⟩ := run_pure_eq_ok.mp hp
    have hb := beNat_lt c
    rw [putU16, UInt16.toNat_ofNat', Nat.mod_eq_of_lt (by simpa [hl] using hb), ← hl, natBe_beNat]
  · rintro rfl
    exact reads_getU16 n t

theorem run_getU32_eq_ok {s t : Bytes} {n : UInt32} :
    (getU32 : Reader ε UInt32).run s = some (.ok n, t) ↔ s = putU32 n ++ t := by
  constructor
  · intro h
    obtain ⟨c, u, hc, hp⟩ := run_bind_eq_ok.mp h
    obtain ⟨rfl, hl⟩ := run_copyToBytes_eq_ok.mp hc
    obtain ⟨rfl, rfl⟩ := run_pure_eq_ok.mp hp
    have hb := beNat_lt c
    rw [putU32, UInt32.toNat_ofNat', Nat.mod_eq_of_lt (by simpa [hl] using hb), ← hl, natBe_beNat]
  · rintro rfl
    exact reads_getU32 n t

theorem run_repeatRead_eq_ok {item : Reader ε α} {enc : α → Bytes}
    (hi : ∀ s x t, item.run s = some (.ok x, t) ↔ s = enc x ++ t) {n : ℕ} {s t : Bytes} {xs : List α} :
    (repeatRead n item).run s = some (.ok xs, t) ↔ xs.length = n ∧ s = xs.flatMap enc ++ t := by
  constructor
  · intro h
    induction n generalizing s xs with
    | zero =>
      obtain ⟨rfl, rfl⟩ := run_pure_eq_ok.mp h
      simp
    | succ n ih =>
      obtain ⟨x, s₁, h₁, h⟩ := run_bind_eq_ok.mp h
      obtain ⟨ys, s₂, h₂, hp⟩ := run_bind_eq_ok.mp h
      obtain ⟨rfl, rfl⟩ := run_pure_eq_ok.mp hp
      obtain ⟨hl, rfl⟩ := ih h₂
      simp [(hi _ _ _).mp h₁, hl]
  · rintro ⟨rfl, rfl⟩
    exact reads_repeatRead xs (fun x _ rest => (hi _ _ _).mpr rfl) t

theorem ends_copyToBytes {n : ℕ} {s : Bytes} (h : n ≤ s.length) :
    Ends (copyToBytes n : Reader ε Bytes) (onOk fun c t => s = c ++ t ∧ c.length = n) s :=
  ⟨_, _, if_pos h, (List.take_append_drop n s).symm, by simp [h]⟩

theorem ends_getU8 {s : Bytes} (h : 1 ≤ s.length) :
    Ends (getU8 : Reader ε UInt8) (onOk fun x t => s = x :: t) s := by
  cases s with
  | nil => simp at h
  | cons x t => exact ⟨_, _, rfl, rfl⟩

theorem ends_getU16 {s : Bytes} (h : 2 ≤ s.length) :
    Ends (getU16 : Reader ε UInt16) (onOk fun n t => s = putU16 n ++ t) s := by
  have hr : (getU16 : Reader ε UInt16).run s = some (.ok (UInt16.ofNat (beNat (s.take 2))), s.drop 2) :=
    run_bind_ok _ (if_pos h)
  exact ⟨_, _, hr, run_getU16_eq_ok.mp hr⟩

theorem ends_getU32 {s : Bytes} (h : 4 ≤ s.length) :
    Ends (getU32 : Reader ε UInt32) (onOk fun n t => s = putU32 n ++ t) s := by
  have hr : (getU32 : Reader ε UInt32).run s = some (.ok (UInt32.ofNat (beNat (s.take 4))), s.drop 4) :=
    run_bind_ok _ (if_pos h)
  exact ⟨_, _, hr, run_getU32_eq_ok.mp hr⟩

theorem ends_remaining {s : Bytes} : Ends (remaining : Reader ε ℕ) (onOk fun n t => n = s.length ∧ t = s) s :=
  ⟨_, _, run_remaining s, rfl, rfl⟩

theorem ends_check {n : ℕ} {e : ℕ → ε} {s : Bytes} :
    Ends (checkRemaining n e) (onOk fun _ t => n ≤ s.length ∧ t = s) s := ends_ensure

theorem ends_repeatRead {item : Reader ε α} {w n : ℕ} {s : Bytes} (h : n * w ≤ s.length)
    (hi : ∀ s : Bytes, w ≤ s.length → Ends item (onOk fun _ t => s.length = w + t.length) s) :
    Ends (repeatRead n item) (onOk fun _ t => s.length = n * w + t.length) s := by
  induction n generalizing s with
  | zero => exact ends_pure (by simp)
  | succ n ih =>
    rw [Nat.succ_mul] at h
    apply ends_bind (hi s (by omega))
    intro x t ht
    apply ends_bind (ih (s := t) (by omega))
    intro xs u hu
    exact ends_pure (by rw [Nat.succ_mul]; omega)

theorem pushWhile_decreases {k : ℕ} {item : Reader ε α} (hi : Consumes item) :
    Decreases List.length (fun (_ : List α) b => decide (k ≤ b.length)) (push item) := by
  intro acc s acc' t _ h
  obtain ⟨x, u, hx, hp⟩ := run_bind_eq_ok.mp h
  obtain ⟨_, rfl⟩ := run_pure_eq_ok.mp hp
  exact hi s x u hx

theorem ends_pushWhile {k : ℕ} {item : Reader ε α} {acc : List α} {s : Bytes}
    (hi : ∀ s : Bytes, k ≤ s.length → Ends item (onOk fun _ t => t.length < s.length) s) :
    Ends (pushWhile k item acc) (onOk fun _ t => t.length < k) s := by
  have h : Ends (pushWhile k item acc) (onOk fun _ t => True ∧ decide (k ≤ t.length) = false) s := by
    apply ends_loop (I := fun _ _ => True) _ trivial
    intro acc s _ hc
    apply ends_bind (hi s (by simpa using hc))
    intro x t ht
    exact ends_pure ⟨trivial, ht⟩
  exact h.mono fun _ t ht => by simpa using ht.2

theorem exists_pushWhile {k : ℕ} {item : Reader ε α} (hc : Consumes item)
    (hi : ∀ s : Bytes, k ≤ s.length → ∃ x t, item.run s = some (.ok x, t)) (acc : List α) (s : Bytes) :
    ∃ l t, (pushWhile k item acc).run s = some (.ok l, t) := by
  have hd := pushWhile_decreases (k := k) hc
  induction hn : s.length using Nat.strong_induction_on generalizing acc s with
  | _ n ih =>
    by_cases hk : k ≤ s.length
    · obtain ⟨x, t, hx⟩ := hi s hk
      obtain ⟨l, u, hu⟩ := ih t.length (hn ▸ hc s x t hx) (acc ++ [x]) t rfl
      refine ⟨l, u, ?_⟩
      rw [pushWhile, loop_step hd (decide_eq_true hk) (by rw [push, run_bind_ok _ hx, run_pure])]
      exact hu
    · exact ⟨acc, s, loop_stop hd (decide_eq_false hk)⟩

theorem pushWhile_sound {k : ℕ} {item : Reader ε α} {enc : α → Bytes} {P : α → Prop} (hc : Consumes item)
    (hi : ∀ s x t, item.run s = some (.ok x, t) → s = enc x ++ t ∧ P x) {acc r : List α} {s t : Bytes}
    (h : (pushWhile k item acc).run s = some (.ok r, t)) :
    t.length < k ∧ ∃ xs, r = acc ++ xs ∧ s = xs.flatMap enc ++ t ∧ ∀ x ∈ xs, P x := by
  have hinv := loop_invariant (I := fun r t => ∃ xs, r = acc ++ xs ∧ s = xs.flatMap enc ++ t ∧ ∀ x ∈ xs, P x)
    (pushWhile_decreases hc) ?_ ⟨[], by simp⟩ h
  · exact ⟨by simpa using hinv.2, hinv.1⟩
  · rintro _ s₁ a' t' ⟨xs, rfl, rfl, hP⟩ _ hb
    obtain ⟨x, u, hx, hp⟩ := run_bind_eq_ok.mp hb
    obtain ⟨rfl, rfl⟩ := run_pure_eq_ok.mp hp
    obtain ⟨rfl, hPx⟩ := hi _ _ _ hx
    refine ⟨xs ++ [x], by simp, by simp, ?_⟩
    intro y hy
    rcases List.mem_append.mp hy with hy | hy
    · exact hP y hy
    · rw [List.mem_singleton.mp hy]; exact hPx

theorem length_lt_of_pushWhile_nil {k : ℕ} {item : Reader ε α} {s t : Bytes} (hc : Consumes item)
    (h : (pushWhile k item []).run s = some (.ok [], t)) : s.length < k := by
  by_contra hk
  rw [pushWhile, loop_eq (pushWhile_decreases hc), if_pos (by simpa using hk)] at h
  obtain ⟨acc, u, hb, hl⟩ := run_bind_eq_ok.mp h
  obtain ⟨x, v, -, hp⟩ := run_bind_eq_ok.mp hb
  obtain ⟨rfl, rfl⟩ := run_pure_eq_ok.mp hp
  -- what has been pushed once stays
  have hinv := loop_invariant (I := fun acc _ => acc ≠ []) (pushWhile_decreases hc) ?_ (by simp) hl
  · exact hinv.1 rfl
  · intro acc s acc' t _ _ hb
    obtain ⟨x, v, -, hp⟩ := run_bind_eq_ok.mp hb
    obtain ⟨rfl, -⟩ := run_pure_eq_ok.mp hp
    simp

theorem run_pushWhile {k : ℕ} {item : Reader ε α} {enc : α → Bytes} {acc xs : List α} {rest : Bytes}
    (hi : Consumes item) (hx : ∀ x ∈ xs, Reads item (enc x) x ∧ k ≤ (enc x).length)
    (hrest : rest.length < k) :
    (pushWhile k item acc).run (xs.flatMap enc ++ rest) = some (.ok (acc ++ xs), rest) := by
  have h : (pushWhile k item acc).run (xs.flatMap enc ++ rest) =
      some (.ok (xs.foldl (fun acc x => acc ++ [x]) acc), rest) := by
    apply loop_flatMap (pushWhile_decreases hi)
    · intro x hmem acc b
      obtain ⟨hr, hl⟩ := hx x hmem
      refine ⟨by simp; omega, ?_⟩
      rw [push, run_bind_ok _ (hr b), run_pure]
    · intro acc
      simpa using hrest
  rw [h, List.foldl_append_eq_append, ← List.flatMap_def, List.flatMap_singleton']

theorem run_pushWhile_within {k : ℕ} {item : Reader ε α} {enc : α → Bytes} {acc xs : List α} (t : Bytes)
    (hk : 0 < k) (hc : Consumes item) (hx : ∀ x ∈ xs, Reads item (enc x) x ∧ k ≤ (enc x).length) :
    (within (xs.flatMap enc) (pushWhile k item acc)).run t = some (.ok (acc ++ xs), t) := by
  have hr : (pushWhile k item acc).run (xs.flatMap enc ++ []) = some (.ok (acc ++ xs), []) :=
    run_pushWhile hc hx (by simpa using hk)
  exact run_within_ok t (outcome_eq_some.mpr ⟨_, by simpa using hr⟩)

theorem ends_pushWhile_within {k : ℕ} {item : Reader ε α} {acc : List α} {value s : Bytes}
    (hi : ∀ s : Bytes, k ≤ s.length → Ends item (onOk fun _ t => t.length < s.length) s) :
    Ends (within value (pushWhile k item acc)) (onOk fun _ t => t = s) s :=
  ends_within (ends_pushWhile hi).ne_none

end Bounds

end PathForge.ByteReader
