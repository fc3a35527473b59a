import PathForge.ByteReader

namespace PathForge.ByteReader

open Fallible

variable {ε α : Type}

section Stability

def Stable (x : Reader ε α) (b : Bytes) : Prop := ∃ r t, ∀ y, x.run (b ++ y) = some (r, t ++ y)

theorem stable_pure (a : α) (b : Bytes) : Stable (pure a : Reader ε α) b := ⟨_, b, fun _ => rfl⟩

theorem stable_fail (e : ε) (b : Bytes) : Stable (fail e : Reader ε α) b := ⟨_, b, fun _ => rfl⟩

theorem stable_ofExcept (r : Except ε α) (b : Bytes) : Stable (ofExcept r) b := ⟨_, b, fun _ => rfl⟩

theorem Stable.bind {β : Type} {x : Reader ε α} {f : α → Reader ε β} {b : Bytes} (hx : Stable x b)
    (hf : ∀ a t, x.run b = some (.ok a, t) → Stable (f a) t) : Stable (x >>= f) b := by
  obtain ⟨r, t, h⟩ := hx
  cases r with
  | error e => exact ⟨.error e, t, fun y => run_bind_error f (h y)⟩
  | ok a =>
    have hb := h []
    rw [List.append_nil, List.append_nil] at hb
    obtain ⟨r, u, hu⟩ := hf a t hb
    exact ⟨r, u, fun y => (run_bind_ok f (h y)).trans (hu y)⟩

theorem stable_copyToBytes {n : ℕ} {b : Bytes} (h : n ≤ b.length) : Stable (copyToBytes n : Reader ε Bytes) b := by
  refine ⟨.ok (b.take n), b.drop n, ?_⟩
  intro y
  rw [run_copyToBytes_eq_ok, ← List.append_assoc, List.take_append_drop]
  simp [h]

theorem stable_getU8 {b : Bytes} (h : 1 ≤ b.length) : Stable (getU8 : Reader ε UInt8) b := by
  cases b with
  | nil => simp at h
  | cons x b => exact ⟨.ok x, b, fun y => rfl⟩

theorem stable_getU16 {b : Bytes} (h : 2 ≤ b.length) : Stable (getU16 : Reader ε UInt16) b :=
  (stable_copyToBytes h).bind fun _ _ _ => stable_pure _ _

theorem stable_check {n : ℕ} {e : ℕ → ε} {b : Bytes} (h : n ≤ b.length) : Stable (checkRemaining n e) b :=
  ⟨.ok (), b, fun y => run_check (by simp; omega)⟩

theorem Stable.outcome {x : Reader ε α} {b : Bytes} (h : Stable x b) :
    ∃ r, ∀ y, x.outcome (b ++ y) = some r := by
  obtain ⟨r, t, h⟩ := h
  exact ⟨r, fun y => outcome_eq_some.mpr ⟨_, h y⟩⟩

end Stability

structure Inbox (α : Type) where
  buf : Bytes := []
  delivered : List α := []

namespace Inbox

def extend (s : Inbox α) (chunk : Bytes) : Inbox α := { s with buf := s.buf ++ chunk }

theorem extend_nil (s : Inbox α) : s.extend [] = s := by simp [extend]

theorem extend_append (s : Inbox α) (x y : Bytes) : s.extend (x ++ y) = (s.extend x).extend y := by
  simp [extend]

end Inbox

def onBuf (next : Reader ε (Option α)) : Prog (Inbox α) ε (Option α) :=
  ⟨fun s => (next.run s.buf).map fun r => (r.1, { s with buf := r.2 })⟩

def deliver (x : α) : Prog (Inbox α) ε Unit :=
  ⟨fun s => some (.ok (), { s with delivered := s.delivered ++ [x] })⟩

def drain (next : Reader ε (Option α)) : Prog (Inbox α) ε Unit :=
  whileSome (fun s => s.buf.length) (onBuf next) deliver

def receive (next : Reader ε (Option α)) (chunk : Bytes) : Prog (Inbox α) ε Unit :=
  ⟨fun s => (drain next).run (s.extend chunk)⟩

def receiveAll (next : Reader ε (Option α)) : List Bytes → Prog (Inbox α) ε Unit
  | [] => pure ()
  | chunk :: chunks => do
    receive next chunk
    receiveAll next chunks

def Settled (next : Reader ε (Option α)) (b : Bytes) : Except ε (Option α) → Bytes → Prop
  | .ok none, t => t = b
  | .error e, t => t = b ∧ ∀ y, next.run (b ++ y) = some (.error e, b ++ y)
  | .ok (some x), t => t.length < b.length ∧ ∀ y, next.run (b ++ y) = some (.ok (some x), t ++ y)

def Incremental (next : Reader ε (Option α)) : Prop := ∀ b, Ends next (Settled next b) b

section Draining

variable {next : Reader ε (Option α)}

theorem run_onBuf {s : Inbox α} {r : Except ε (Option α)} {t : Bytes} (h : next.run s.buf = some (r, t)) :
    (onBuf next).run s = some (r, { s with buf := t }) := by simp [onBuf, h]

theorem drain_progresses (hn : Incremental next) :
    Progresses (fun s : Inbox α => s.buf.length) (onBuf next) deliver := by
  intro s x t u r hx hd
  obtain ⟨r', b, hr, hs⟩ := hn s.buf
  rw [run_onBuf hr] at hx
  simp only [Option.some.injEq, Prod.mk.injEq] at hx
  obtain ⟨rfl, rfl⟩ := hx
  simp only [deliver, Option.some.injEq, Prod.mk.injEq] at hd
  obtain ⟨-, rfl⟩ := hd
  exact hs.1

def Stuck (next : Reader ε (Option α)) (s : Inbox α) : Prop := next.run s.buf = some (.ok none, s.buf)

theorem Stuck.run_drain {s : Inbox α} (h : Stuck next s) : (drain next).run s = some (.ok (), s) :=
  whileSome_stop (run_onBuf h)

theorem run_drain_step (hn : Incremental next) {s : Inbox α} {x : α} {t : Bytes}
    (h : next.run s.buf = some (.ok (some x), t)) :
    (drain next).run s = (drain next).run ⟨t, s.delivered ++ [x]⟩ :=
  whileSome_step (drain_progresses hn) (run_onBuf h) rfl

/-- A drained buffer stands for everything that was drained: later input is read as if it had been there from
the start. -/
def Drained (next : Reader ε (Option α)) (s : Inbox α) : Except ε Unit → Inbox α → Prop
  | .ok _, t => Stuck next t ∧ ∀ y, (drain next).run (s.extend y) = (drain next).run (t.extend y)
  | .error e, t => ∀ y, (drain next).run (s.extend y) = some (.error e, t.extend y)

theorem ends_drain (hn : Incremental next) (s : Inbox α) : Ends (drain next) (Drained next s) s := by
  induction hl : s.buf.length using Nat.strong_induction_on generalizing s with
  | _ n ih =>
    obtain ⟨r, b, hr, hs⟩ := hn s.buf
    -- a poll that fails, one that asks for more input, and one that delivers and leaves less to drain
    rcases r with e | _ | x
    · obtain ⟨rfl, hs⟩ := hs
      refine ⟨.error e, s, whileSome_error (run_onBuf hr), ?_⟩
      intro y
      exact whileSome_error (run_onBuf (hs y))
    · obtain rfl := hs
      exact ⟨.ok (), s, whileSome_stop (run_onBuf hr), hr, fun y => rfl⟩
    · obtain ⟨hlt, hs⟩ := hs
      let s₁ : Inbox α := ⟨b, s.delivered ++ [x]⟩
      have hstep (y : Bytes) : (drain next).run (s.extend y) = (drain next).run (s₁.extend y) :=
        whileSome_step (drain_progresses hn) (run_onBuf (hs y)) rfl
      obtain ⟨r', t, ht, hd⟩ := ih b.length (by omega) s₁ rfl
      have hrun : (drain next).run s = some (r', t) := by
        have h := hstep []
        rwa [s.extend_nil, s₁.extend_nil, ht] at h
      refine ⟨r', t, hrun, ?_⟩
      cases r' with
      | error e => exact fun y => (hstep y).trans (hd y)
      | ok u => exact ⟨hd.1, fun y => (hstep y).trans (hd.2 y)⟩

end Draining

section Chunks

def observe : Except ε Unit × Inbox α → List α × Except ε Bytes
  | (.ok _, s) => (s.delivered, .ok s.buf)
  | (.error e, s) => (s.delivered, .error e)

variable {next : Reader ε (Option α)}

theorem receiveAll_flatten (hn : Incremental next) (chunks : List Bytes) (s : Inbox α) (hs : Stuck next s) :
    ((receiveAll next chunks).run s).map observe = ((drain next).run (s.extend chunks.flatten)).map observe := by
  induction chunks generalizing s with
  | nil =>
    rw [List.flatten_nil, s.extend_nil, drain, whileSome_stop (run_onBuf hs)]
    rfl
  | cons chunk chunks ih =>
    obtain ⟨r, t, ht, hd⟩ := ends_drain hn (s.extend chunk)
    replace ht : (receive next chunk).run s = some (r, t) := ht
    rw [List.flatten_cons, s.extend_append, receiveAll]
    cases r with
    | error e =>
      rw [run_bind_error _ ht, hd]
      rfl
    | ok u =>
      rw [run_bind_ok _ ht, hd.2]
      exact ih t hd.1

theorem receiveAll_ne_none (hn : Incremental next) (chunks : List Bytes) (s : Inbox α) :
    (receiveAll next chunks).run s ≠ none := by
  induction chunks generalizing s with
  | nil => simp [receiveAll]
  | cons chunk chunks ih =>
    obtain ⟨r, t, ht, -⟩ := ends_drain hn (s.extend chunk)
    replace ht : (receive next chunk).run s = some (r, t) := ht
    rw [receiveAll]
    cases r with
    | error e => rw [run_bind_error _ ht]; simp
    | ok u => rw [run_bind_ok _ ht]; exact ih t

theorem receiveAll_congr (hn : Incremental next) {s : Inbox α} (hs : Stuck next s) {cs ds : List Bytes}
    (h : cs.flatten = ds.flatten) :
    ∃ r t u, (receiveAll next cs).run s = some (r, t) ∧ (receiveAll next ds).run s = some (r, u) ∧
      t.delivered = u.delivered ∧ (r = .ok () → t.buf = u.buf) := by
  have he : ((receiveAll next cs).run s).map observe = ((receiveAll next ds).run s).map observe := by
    rw [receiveAll_flatten hn cs s hs, receiveAll_flatten hn ds s hs, h]
  obtain ⟨⟨r, t⟩, ht⟩ := Option.ne_none_iff_exists'.mp (receiveAll_ne_none hn cs s)
  obtain ⟨⟨r', u⟩, hu⟩ := Option.ne_none_iff_exists'.mp (receiveAll_ne_none hn ds s)
  rw [ht, hu] at he
  refine ⟨r, t, u, ht, ?_⟩
  rcases r with e | _ <;> rcases r' with e' | _ <;> simp_all [observe]

end Chunks

end PathForge.ByteReader
