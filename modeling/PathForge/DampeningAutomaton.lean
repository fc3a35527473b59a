import PathForge.DampeningEntries
import PathForge.KeyedRuns
import Mathlib.Data.Rat.Floor

namespace PathForge.Routing

open Tables Keyed

inductive DampeningOp where
  | recordWithdrawal (peer : SocketAddr) (key : PrefixKey)
  | checkAdvertisement (peer : SocketAddr) (key : PrefixKey)
  | currentPenalty (peer : SocketAddr) (key : PrefixKey)
  | removePeer (peer : SocketAddr)
  deriving DecidableEq

def DampeningOp.concerns (p : SocketAddr) (k : PrefixKey) : DampeningOp → Bool
  | recordWithdrawal peer key => (peer, key) = (p, k)
  | checkAdvertisement peer key => (peer, key) = (p, k)
  | currentPenalty peer key => (peer, key) = (p, k)
  | removePeer peer => peer = p

structure DampeningCall where
  clock : Clock
  decayed : Decay
  op : DampeningOp

/-- `0.5.powf(lives)` at every whole number of half-lives, and on a straight line in between. -/
def halved (lives : ℚ) : ℚ := (1 / 2) ^ ⌊lives⌋₊ * (1 - (lives - ⌊lives⌋₊) / 2)

def halving : Decay := fun halfLifeSecs elapsedSecs penalty => max penalty 0 * halved
    (elapsedSecs / max halfLifeSecs 0)

example : halving 900 1800 1000 = 250 := by decide +kernel

def clockAt (secs : ℕ) : Clock := fun n => secs * 10 ^ 9 + n

theorem monotone_clockAt (secs : ℕ) : Monotone (clockAt secs) := fun _ _ hab => Nat.add_le_add_left hab _

namespace DampeningTable

def apply (t : DampeningTable) (c : DampeningCall) : DampeningTable :=
  match c.op with
  | .recordWithdrawal peer key => ((t.recordWithdrawal c.decayed peer key).run c.clock).1.2
  | .checkAdvertisement peer key => ((t.checkAdvertisement c.decayed peer key).run c.clock).1.2
  | .currentPenalty peer key => ((t.currentPenalty c.decayed peer key).run c.clock).1.2
  | .removePeer peer => t.removePeer peer

def run (t : DampeningTable) (calls : List DampeningCall) : DampeningTable := calls.foldl apply t

end DampeningTable

namespace PrefixDampening

def age (decayed : Decay) (config : DampeningConfig) (found : Option PrefixDampening) :
    StateM Clock PrefixDampening := do
  let entry ← match found with
    | some e => pure e
    | none => PrefixDampening.new
  entry.decay decayed config.halfLifeSecs

def next (config : DampeningConfig) (found : Option PrefixDampening) (c : DampeningCall) :
    Option PrefixDampening :=
  match c.op with
  | .recordWithdrawal _ _ => some ((flap c.decayed config found).run c.clock).1
  | .checkAdvertisement _ _ => found.map fun e => ((e.review c.decayed config).run c.clock).1
  | .currentPenalty _ _ => some ((age c.decayed config found).run c.clock).1
  | .removePeer _ => none

def flags (found : Option PrefixDampening) : Bool × Option Instant :=
  found.elim (false, none) fun e => (e.suppressed, e.suppressedAt)

section Flags

variable (d : Decay) (config : DampeningConfig) (found : Option PrefixDampening) (e : PrefixDampening) (c : Clock)

theorem flags_decay (halfLife : ℚ) : flags (some ((e.decay d halfLife).run c).1) = flags (some e) := by
  rw [run_decay]
  split_ifs <;> rfl

theorem flags_age : flags (some ((age d config found).run c).1) = flags found := by
  cases found with
  | none => exact flags_decay d ⟨0, false, none, c.head, 0⟩ c.tail config.halfLifeSecs
  | some e => exact flags_decay d e c config.halfLifeSecs

theorem run_flap :
    (flap d config found).run c =
      let r := (age d config found).run c
      if r.1.suppressed = false ∧ config.suppressLimit ≤ r.1.penalty + config.penaltyPerFlap then
        ({ r.1 with
           penalty := r.1.penalty + config.penaltyPerFlap, suppressed := true, suppressedAt := some r.2.head,
           suppressCount := r.1.suppressCount + 1 }, r.2.tail)
      else ({ r.1 with penalty := r.1.penalty + config.penaltyPerFlap }, r.2) := by
  have hflap : flap d config found = age d config found >>= fun entry =>
      if entry.suppressed = false ∧ config.suppressLimit ≤ entry.penalty + config.penaltyPerFlap then do
        return { entry with
                 penalty := entry.penalty + config.penaltyPerFlap, suppressed := true, suppressedAt :=
                   some (← now),
                 suppressCount := entry.suppressCount + 1 }
      else return { entry with penalty := entry.penalty + config.penaltyPerFlap } := by
    cases found <;> rfl
  rw [hflap, StateT.run_bind]
  rcases (age d config found).run c with ⟨e, c'⟩
  change StateT.run (if e.suppressed = false ∧ config.suppressLimit ≤
    e.penalty + config.penaltyPerFlap then _ else _)
    c' = _
  simp only
  split_ifs <;> rfl

theorem flap_cases :
    flags (some ((flap d config found).run c).1) = flags found ∨
      config.suppressLimit ≤ ((flap d config found).run c).1.penalty ∧
        ∃ t, flags (some ((flap d config found).run c).1) = (true, some t) := by
  rw [run_flap]
  simp only
  split_ifs with hc
  · exact .inr ⟨hc.2, _, rfl⟩
  · exact .inl (flags_age d config found c)

theorem run_timedOut (limit : ℕ) : ((e.timedOut limit).run c).1 = true ↔
    ∃ t, e.suppressedAt = some t ∧ limit ≤ c.head - t := by
  unfold timedOut
  cases e.suppressedAt with
  | none => simp
  | some t =>
    change decide (limit ≤ c.head - t) = true ↔ _
    simp

theorem exists_reading (halfLife : ℚ) : ∃ n ≤ 2, ((e.decay d halfLife).run c).2.head = c n := by
  rw [run_decay]
  split_ifs
  · exact ⟨2, by omega, rfl⟩
  · exact ⟨1, by omega, rfl⟩

theorem review_cases :
    flags (some ((e.review d config).run c).1) = flags (some e) ∨
      flags (some ((e.review d config).run c).1) = (false, none) ∧
        (((e.review d config).run c).1.penalty < config.reuseLimit ∨
          ∃ t, e.suppressedAt = some t ∧ ∃ n ≤ 2, config.maxSuppressTime ≤ c n - t) := by
  have hflags := flags_decay d e c config.halfLifeSecs
  obtain ⟨n, hn, hread⟩ := exists_reading d e c config.halfLifeSecs
  rw [run_review]
  simp only
  split_ifs with hc
  · refine .inr ⟨rfl, ?_⟩
    rcases hc with ht | hp
    · obtain ⟨t, hat, hle⟩ := (run_timedOut _ _ _).mp ht
      rw [(Prod.mk.inj hflags).2] at hat
      exact .inr ⟨t, hat, n, hn, hread ▸ hle⟩
    · exact .inl hp.2
  · exact .inl hflags

variable {d config e c} in
theorem review_late {t : Instant} (ht : e.suppressedAt = some t) (hc : Monotone c)
    (hlate : t + config.maxSuppressTime ≤ c.head) : ((e.review d config).run c).1.suppressed = false := by
  have hflags := flags_decay d e c config.halfLifeSecs
  obtain ⟨n, -, hread⟩ := exists_reading d e c config.halfLifeSecs
  have hmono : c.head ≤ c n := hc (Nat.zero_le n)
  rw [run_review]
  simp only
  rw [if_pos]
  refine .inl ((run_timedOut _ _ _).mpr ⟨t, ?_, ?_⟩)
  · rw [(Prod.mk.inj hflags).2, ht]
  · rw [hread]
    exact Nat.le_sub_of_add_le' (hlate.trans hmono)

end Flags

variable {config : DampeningConfig} {found : Option PrefixDampening} {c : DampeningCall}

inductive Turn (config : DampeningConfig) (found : Option PrefixDampening) (c : DampeningCall)
    (found' : Option PrefixDampening) : Prop
  | keeps (h : flags found' = flags found)
  | sets {p : SocketAddr} {k : PrefixKey} {e : PrefixDampening} {t : Instant} (hop : c.op = .recordWithdrawal p k)
      (he : found' = some e) (hf : flags found' = (true, some t)) (hp : config.suppressLimit ≤ e.penalty)
  | clears {p : SocketAddr} {k : PrefixKey} {e e' : PrefixDampening} (hop : c.op = .checkAdvertisement p k)
      (he : found = some e) (he' : found' = some e') (hf : flags found' = (false, none))
      (hw : e'.penalty < config.reuseLimit ∨
        ∃ t, e.suppressedAt = some t ∧ ∃ n ≤ 2, config.maxSuppressTime ≤ c.clock n - t)
  | forgets {p : SocketAddr} (hop : c.op = .removePeer p) (hf : flags found' = (false, none))

theorem turn_next (config : DampeningConfig) (found : Option PrefixDampening) (c : DampeningCall) :
    Turn config found c (next config found c) := by
  obtain ⟨clock, d, op⟩ := c
  cases op with
  | recordWithdrawal peer key =>
    rcases flap_cases d config found clock with he | ⟨hp, t, he⟩
    · exact .keeps he
    · exact .sets rfl rfl he hp
  | checkAdvertisement peer key =>
    cases found with
    | none => exact .keeps rfl
    | some e =>
      rcases review_cases d config e clock with he | ⟨he, hw⟩
      · exact .keeps he
      · exact .clears rfl rfl rfl he hw
  | currentPenalty peer key => exact .keeps (flags_age d config found clock)
  | removePeer peer => exact .forgets rfl rfl

def Consistent (found : Option PrefixDampening) : Prop := (flags found).1 = (flags found).2.isSome

theorem Consistent.next (h : Consistent found) : Consistent (next config found c) := by
  unfold Consistent at *
  cases turn_next config found c with
  | keeps hf =>
    rw [hf]
    exact h
  | sets hop he hf hp =>
    rw [hf]
    rfl
  | clears hop he he' hf hw =>
    rw [hf]
    rfl
  | forgets hop hf =>
    rw [hf]
    rfl

theorem consistent_foldl (config : DampeningConfig) (calls : List DampeningCall) (found : Option PrefixDampening)
    (h : Consistent found) : Consistent (calls.foldl (PrefixDampening.next config) found) := by
  induction calls generalizing found with
  | nil => exact h
  | cons c calls ih => exact ih _ h.next

end PrefixDampening

namespace DampeningTable

open PrefixDampening

variable (t : DampeningTable) (c : DampeningCall) (p : SocketAddr) (k : PrefixKey)

theorem isSuppressed_eq : t.isSuppressed p k = (flags (t.state.lookup (p, k))).1 := by
  rw [isSuppressed]
  cases t.state.lookup (p, k) <;> rfl

theorem currentPenalty_eq (d : Decay) :
    t.currentPenalty d p k = (fun e => (e.penalty, t.set p k e)) <$> age d t.config (t.state.lookup (p, k)) := by
  unfold currentPenalty age
  cases t.state.lookup (p, k) <;> rfl

theorem apply_config : (t.apply c).config = t.config := by
  unfold apply
  split
  · rw [recordWithdrawal_eq]
    rfl
  · rw [checkAdvertisement_eq]
    split <;> rfl
  · rw [currentPenalty_eq]
    rfl
  · rfl

theorem lookup_set (e : PrefixDampening) (peer : SocketAddr) (key : PrefixKey) :
    (t.set peer key e).state.lookup (p, k) = if (peer, key) = (p, k) then some e else t.state.lookup (p, k) := by
  rw [set, HashMap.lookup_insert]
  simp only [eq_comm]

theorem lookup_apply :
    (t.apply c).state.lookup (p, k) =
      if c.op.concerns p k then next t.config (t.state.lookup (p, k)) c else t.state.lookup (p, k) := by
  obtain ⟨clock, d, op⟩ := c
  cases op with
  | recordWithdrawal peer key =>
    simp only [apply, recordWithdrawal_eq, DampeningOp.concerns, decide_eq_true_eq]
    refine (t.lookup_set p k _ peer key).trans ?_
    split_ifs with he
    · rw [he]
      rfl
    · rfl
  | checkAdvertisement peer key =>
    simp only [apply, checkAdvertisement_eq, DampeningOp.concerns, decide_eq_true_eq]
    cases hl : t.state.lookup (peer, key) with
    | none =>
      split_ifs with he
      · rw [he] at hl
        rw [hl]
        exact hl
      · rfl
    | some e =>
      refine (t.lookup_set p k ((e.review d t.config).run clock).1 peer key).trans ?_
      split_ifs with he
      · rw [he] at hl
        rw [hl]
        rfl
      · rfl
  | currentPenalty peer key =>
    simp only [apply, currentPenalty_eq, DampeningOp.concerns, decide_eq_true_eq]
    refine (t.lookup_set p k _ peer key).trans ?_
    split_ifs with he
    · rw [he]
      rfl
    · rfl
  | removePeer peer =>
    simp only [apply, removePeer, HashMap.lookup_retain, DampeningOp.concerns, decide_eq_true_eq]
    by_cases he : peer = p
    · rw [if_neg (by simp [he]), if_pos he]
      rfl
    · rw [if_pos (Ne.symm he), if_neg he]

theorem check_eq (d : Decay) (clock : Clock) :
    ((t.checkAdvertisement d p k).run clock).1.1 =
      ((t.state.lookup (p, k)).map fun e => ((e.review d t.config).run clock).1.suppressed).getD false := by
  rw [checkAdvertisement_eq]
  cases t.state.lookup (p, k) <;> rfl

variable {t c p k}

theorem turnsOn (hoff : t.isSuppressed p k = false) (hon : (t.apply c).isSuppressed p k = true) :
    c.op = .recordWithdrawal p k ∧
      ∃ e, (t.apply c).state.lookup (p, k) = some e ∧ t.config.suppressLimit ≤ e.penalty := by
  rw [isSuppressed_eq] at hoff hon
  rw [lookup_apply] at hon ⊢
  split_ifs at hon ⊢ with hc
  · cases turn_next t.config (t.state.lookup (p, k)) c with
    | keeps hf =>
      rw [hf, hoff] at hon
      cases hon
    | sets hop he hf hp =>
      rw [hop] at hc
      obtain ⟨rfl, rfl⟩ := Prod.mk.inj (of_decide_eq_true hc)
      exact ⟨hop, _, he, hp⟩
    | clears hop he he' hf hw =>
      rw [hf] at hon
      cases hon
    | forgets hop hf =>
      rw [hf] at hon
      cases hon
  · rw [hoff] at hon
    cases hon

theorem turnsOff (hon : t.isSuppressed p k = true) (hoff : (t.apply c).isSuppressed p k = false) :
    c.op = .removePeer p ∨ c.op = .checkAdvertisement p k ∧
      ∃ e e', t.state.lookup (p, k) = some e ∧ (t.apply c).state.lookup (p, k) = some e' ∧
        (e'.penalty < t.config.reuseLimit ∨
          ∃ since, e.suppressedAt = some since ∧ ∃ n ≤ 2, t.config.maxSuppressTime ≤ c.clock n - since) := by
  rw [isSuppressed_eq] at hoff hon
  rw [lookup_apply] at hoff ⊢
  split_ifs at hoff ⊢ with hc
  · cases turn_next t.config (t.state.lookup (p, k)) c with
    | keeps hf =>
      rw [hf, hon] at hoff
      cases hoff
    | sets hop he hf hp =>
      rw [hf] at hoff
      cases hoff
    | clears hop he he' hf hw =>
      rw [hop] at hc
      obtain ⟨rfl, rfl⟩ := Prod.mk.inj (of_decide_eq_true hc)
      exact .inr ⟨hop, _, _, he, he', hw⟩
    | forgets hop hf =>
      rw [hop] at hc
      obtain rfl := of_decide_eq_true hc
      exact .inl hop
  · rw [hon] at hoff
    cases hoff

theorem check_late {d : Decay} {clock : Clock} {e : PrefixDampening} {since : Instant}
    (he : t.state.lookup (p, k) = some e) (hs : e.suppressedAt = some since) (hc : Monotone clock)
    (hlate : since + t.config.maxSuppressTime ≤ clock.head) :
    ((t.checkAdvertisement d p k).run clock).1.1 = false := by
  rw [check_eq, he]
  exact review_late hs hc hlate

theorem run_config (calls : List DampeningCall) : (t.run calls).config = t.config := by
  induction calls generalizing t with
  | nil => rfl
  | cons c calls ih => exact ih.trans (t.apply_config c)

theorem lookup_run (config : DampeningConfig) (calls : List DampeningCall) (p : SocketAddr) (k : PrefixKey) :
    (({ config := config } : DampeningTable).run calls).state.lookup (p, k) =
      (calls.filter fun c => c.op.concerns p k).foldl (next config) none := by
  have hkeep (t : DampeningTable) (c : DampeningCall) (ht : t.config = config) : (t.apply c).config = config := by
    rw [apply_config, ht]
  have hstart : ({ config := config } : DampeningTable).config = config := rfl
  refine view_foldl (V := fun t : DampeningTable => t.state.lookup (p, k)) hkeep ?_ calls hstart
  intro t c ht
  rw [lookup_apply, ht]

theorem run_consistent (config : DampeningConfig) (calls : List DampeningCall) (p : SocketAddr) (k : PrefixKey) :
    Consistent ((({ config := config } : DampeningTable).run calls).state.lookup (p, k)) := by
  rw [lookup_run]
  exact consistent_foldl config _ none rfl

theorem run_automaton (config : DampeningConfig) (calls : List DampeningCall) (p : SocketAddr) (k : PrefixKey) :
    let t := ({ config := config } : DampeningTable).run calls
    t.state.lookup (p, k) = (calls.filter fun c => c.op.concerns p k).foldl (next config) none ∧
      (∀ e, t.state.lookup (p, k) = some e → (e.suppressed = true ↔ e.suppressedAt.isSome)) ∧
      (∀ c, t.isSuppressed p k = false → (t.apply c).isSuppressed p k = true →
        c.op = .recordWithdrawal p k ∧
          ∃ e, (t.apply c).state.lookup (p, k) = some e ∧ config.suppressLimit ≤ e.penalty) ∧
      (∀ c, t.isSuppressed p k = true → (t.apply c).isSuppressed p k = false →
        c.op = .removePeer p ∨ c.op = .checkAdvertisement p k ∧
          ∃ e e', t.state.lookup (p, k) = some e ∧ (t.apply c).state.lookup (p, k) = some e' ∧
            (e'.penalty < config.reuseLimit ∨
              ∃ since, e.suppressedAt = some since ∧ ∃ n ≤ 2, config.maxSuppressTime ≤ c.clock n - since)) ∧
      ∀ e since d (clock : Clock), t.state.lookup (p, k) = some e → e.suppressedAt = some since → Monotone clock →
        since + config.maxSuppressTime ≤ clock.head → ((t.checkAdvertisement d p k).run clock).1.1 = false := by
  intro t
  have hconfig : t.config = config := run_config calls
  refine ⟨lookup_run config calls p k, ?_, ?_, ?_, ?_⟩
  · intro e he
    have hcons := run_consistent config calls p k
    rw [he] at hcons
    exact Bool.eq_iff_iff.mp hcons
  · intro c hoff hon
    rw [← hconfig]
    exact turnsOn hoff hon
  · intro c hon hoff
    rw [← hconfig]
    exact turnsOff hon hoff
  · intro e since d clock he hs hc hlate
    exact check_late he hs hc (hconfig.symm ▸ hlate)

def sampleCall (secs : ℕ) (op : SocketAddr → PrefixKey → DampeningOp) : DampeningCall :=
  ⟨clockAt secs, halving, op (.v4 (.new 10 0 0 1) 179) ⟨.new 192 168 1 0, 24⟩⟩

def sampleFlaps : List DampeningCall :=
  [sampleCall 0 .recordWithdrawal, sampleCall 1 .recordWithdrawal, sampleCall 2 .recordWithdrawal]

theorem run_automaton_sample :
    let t := ({ config := {} } : DampeningTable).run sampleFlaps
    t.isSuppressed (.v4 (.new 10 0 0 1) 179) ⟨.new 192 168 1 0, 24⟩ = true ∧
      ((t.checkAdvertisement halving (.v4 (.new 10 0 0 1) 179) ⟨.new 192 168 1 0, 24⟩).run (clockAt 4000)).1.1 =
        false := by
  intro t
  have hauto := run_automaton {} sampleFlaps (.v4 (.new 10 0 0 1) 179) ⟨.new 192 168 1 0, 24⟩
  -- the second flap leaves the penalty just below the limit
  have hfound : (t.state.lookup (.v4 (.new 10 0 0 1) 179, ⟨.new 192 168 1 0, 24⟩)).map
      PrefixDampening.suppressedAt = some (some (2 * 10 ^ 9 + 2)) := by decide +kernel
  obtain ⟨e, he, hsince⟩ := Option.map_eq_some_iff.mp hfound
  exact ⟨by decide +kernel, hauto.2.2.2.2 e _ halving _ he hsince (monotone_clockAt 4000) (by decide)⟩

end DampeningTable

end PathForge.Routing
