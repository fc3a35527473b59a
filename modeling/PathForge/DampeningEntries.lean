import PathForge.Dampening

namespace PathForge.Routing

open Tables

namespace PrefixDampening

def flap (decayed : Decay) (config : DampeningConfig) (found : Option PrefixDampening) :
    StateM Clock PrefixDampening := do
  let entry ← match found with
    | some e => pure e
    | none => PrefixDampening.new
  let entry ← entry.decay decayed config.halfLifeSecs
  let entry := { entry with penalty := entry.penalty + config.penaltyPerFlap }
  if entry.suppressed = false ∧ config.suppressLimit ≤ entry.penalty then
    return { entry with
             suppressed := true, suppressedAt := some (← now), suppressCount := entry.suppressCount + 1 }
  else
    return entry

def review (decayed : Decay) (config : DampeningConfig) (found : PrefixDampening) :
    StateM Clock PrefixDampening := do
  let entry ← found.decay decayed config.halfLifeSecs
  if ← entry.timedOut config.maxSuppressTime then
    return { entry with suppressed := false, suppressedAt := none }
  else if entry.suppressed = true ∧ entry.penalty < config.reuseLimit then
    return { entry with suppressed := false, suppressedAt := none }
  else
    return entry

theorem run_decay (d : Decay) (halfLife : ℚ) (e : PrefixDampening) (c : Clock) :
    (e.decay d halfLife).run c =
      if 0 < c.head - e.lastDecay then
        ({ e with
           penalty := d halfLife ((c.head - e.lastDecay : ℕ) / 10 ^ 9) e.penalty, lastDecay := c.tail.head },
             c.tail.tail)
      else (e, c.tail) := by
  change StateT.run (if 0 < c.head - e.lastDecay then _ else _) c.tail = _
  split_ifs <;> rfl

theorem decay_suppressed (d : Decay) (halfLife : ℚ) (e : PrefixDampening) (c : Clock) :
    ((e.decay d halfLife).run c).1.suppressed = e.suppressed := by
  rw [run_decay]
  split_ifs <;> rfl

theorem run_review (d : Decay) (config : DampeningConfig) (e : PrefixDampening) (c : Clock) :
    (e.review d config).run c =
      let r := (e.decay d config.halfLifeSecs).run c
      let out := (r.1.timedOut config.maxSuppressTime).run r.2
      (if out.1 = true ∨ (r.1.suppressed = true ∧ r.1.penalty < config.reuseLimit) then
        { r.1 with suppressed := false, suppressedAt := none } else r.1, out.2) := by
  rw [review, StateT.run_bind]
  rcases (e.decay d config.halfLifeSecs).run c with ⟨e', c'⟩
  change StateT.run (e'.timedOut config.maxSuppressTime >>= fun out =>
    if out = true then _ else if e'.suppressed = true ∧ e'.penalty < config.reuseLimit then _ else _) c' = _
  rw [StateT.run_bind]
  simp only
  rcases (e'.timedOut config.maxSuppressTime).run c' with ⟨out, c''⟩
  change StateT.run (if out = true then _ else if e'.suppressed = true ∧
    e'.penalty < config.reuseLimit then _ else _)
    c'' = _
  by_cases ho : out = true
  · rw [if_pos ho, if_pos (.inl ho)]
    rfl
  · by_cases hp : e'.suppressed = true ∧ e'.penalty < config.reuseLimit
    · rw [if_neg ho, if_pos hp, if_pos (.inr hp)]
      rfl
    · rw [if_neg ho, if_neg hp, if_neg (not_or.mpr ⟨ho, hp⟩)]
      rfl

theorem review_suppressed {d : Decay} {config : DampeningConfig} {e : PrefixDampening} {c : Clock}
    (h : ((e.review d config).run c).1.suppressed = true) : e.suppressed = true := by
  rw [run_review] at h
  simp only at h
  split_ifs at h
  rw [← decay_suppressed d config.halfLifeSecs e c]
  exact h

end PrefixDampening

namespace DampeningTable

variable (d : Decay) (t : DampeningTable) (peer : SocketAddr) (key : PrefixKey)

theorem recordWithdrawal_eq :
    t.recordWithdrawal d peer key =
      (fun e => (e.suppressed, t.set peer key e)) <$> PrefixDampening.flap d t.config
        (t.state.lookup (peer, key)) := by
  unfold recordWithdrawal PrefixDampening.flap
  cases t.state.lookup (peer, key)
  all_goals
    simp only [map_bind]
    apply bind_congr
    intro e
    apply bind_congr
    intro e'
    split_ifs <;> rfl

theorem checkAdvertisement_eq :
    t.checkAdvertisement d peer key = match t.state.lookup (peer, key) with
      | none => pure (false, t)
      | some e => (fun e => (e.suppressed, t.set peer key e)) <$> e.review d t.config := by
  unfold checkAdvertisement PrefixDampening.review
  cases t.state.lookup (peer, key) with
  | none => rfl
  | some e =>
    simp only [map_bind]
    apply bind_congr
    intro e'
    apply bind_congr
    intro out
    split_ifs <;> rfl

theorem isSuppressed_set (e : PrefixDampening) (p : SocketAddr) (k : PrefixKey) :
    (t.set peer key e).isSuppressed p k = if (p, k) = (peer, key) then e.suppressed else t.isSuppressed p k := by
  rw [isSuppressed, set, HashMap.lookup_insert]
  split_ifs <;> rfl

end DampeningTable

end PathForge.Routing
