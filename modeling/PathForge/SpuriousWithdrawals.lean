import PathForge.DampenedRoutes
import Mathlib.Data.List.Count
import Mathlib.Data.List.Dedup

namespace PathForge.Routing

open Tables Wire

theorem PrefixKey.ofPrefix_injective : Function.Injective PrefixKey.ofPrefix := by
  rintro ⟨len, addr⟩ ⟨len', addr'⟩ he
  obtain ⟨rfl, rfl⟩ := PrefixKey.mk.inj he
  rfl

namespace PrefixDampening

section Still

variable (d : Decay) (config : DampeningConfig) (found : Option PrefixDampening) (t : Instant)

theorem run_decay_const (halfLife : ℚ) (e : PrefixDampening) :
    ((e.decay d halfLife).run (Stream'.const t)).2 = Stream'.const t ∧
      t ≤ ((e.decay d halfLife).run (Stream'.const t)).1.lastDecay := by
  rw [run_decay]
  split_ifs with he
  · exact ⟨rfl, le_refl t⟩
  · exact ⟨rfl, Nat.sub_eq_zero_iff_le.mp (Nat.eq_zero_of_not_pos he)⟩

theorem run_age_const :
    ((age d config found).run (Stream'.const t)).2 = Stream'.const t ∧
      t ≤ ((age d config found).run (Stream'.const t)).1.lastDecay := by
  cases found with
  | none => exact run_decay_const d t config.halfLifeSecs ⟨0, false, none, t, 0⟩
  | some e => exact run_decay_const d t config.halfLifeSecs e

theorem age_of_le {e : PrefixDampening} (he : t ≤ e.lastDecay) :
    ((age d config (some e)).run (Stream'.const t)).1 = e := by
  have hz : ¬ 0 < (Stream'.const t).head - e.lastDecay := by
    rw [Nat.not_lt, Nat.le_zero]
    exact Nat.sub_eq_zero_of_le he
  change ((e.decay d config.halfLifeSecs).run (Stream'.const t)).1 = e
  rw [run_decay, if_neg hz]

theorem run_flap_const :
    let entry := ((age d config found).run (Stream'.const t)).1
    let flapped := (flap d config found).run (Stream'.const t)
    flapped.2 = Stream'.const t ∧ flapped.1.penalty = entry.penalty + config.penaltyPerFlap ∧
      flapped.1.lastDecay = entry.lastDecay := by
  have hclock := (run_age_const d config found t).1
  rw [run_flap]
  simp only
  split_ifs
  · refine ⟨?_, rfl, rfl⟩
    rw [hclock]
    rfl
  · exact ⟨hclock, rfl, rfl⟩

def flapAt (found : Option PrefixDampening) : Option PrefixDampening :=
  some ((flap d config found).run (Stream'.const t)).1

theorem iterate_flapAt (n : ℕ) :
    let entry := ((age d config found).run (Stream'.const t)).1
    ∃ e, (flapAt d config t)^[n + 1] found = some e ∧ e.penalty = entry.penalty + (n + 1) * config.penaltyPerFlap ∧
      e.lastDecay = entry.lastDecay := by
  induction n with
  | zero =>
    obtain ⟨-, hp, hl⟩ := run_flap_const d config found t
    refine ⟨_, rfl, ?_, hl⟩
    rw [hp, Nat.cast_zero, zero_add, one_mul]
  | succ n ih =>
    obtain ⟨e, he, hp, hl⟩ := ih
    obtain ⟨-, hp', hl'⟩ := run_flap_const d config (some e) t
    rw [age_of_le d config t (hl ▸ (run_age_const d config found t).2)] at hp' hl'
    rw [Function.iterate_succ_apply', he]
    refine ⟨_, rfl, ?_, hl'.trans hl⟩
    rw [hp', hp]
    push_cast
    ring

variable {d config found t}

theorem iterate_flapAt_ne (hf : config.penaltyPerFlap ≠ 0) {n : ℕ} (hn : n ≠ 0) :
    (flapAt d config t)^[n] found ≠ found := by
  obtain ⟨n, rfl⟩ := Nat.exists_eq_succ_of_ne_zero hn
  obtain ⟨e, he, hp, hl⟩ := iterate_flapAt d config found t n
  intro hsame
  obtain rfl : found = some e := hsame.symm.trans he
  have hage : ((age d config (some e)).run (Stream'.const t)).1 = e :=
    age_of_le d config t (hl ▸ (run_age_const d config (some e) t).2)
  rw [hage, left_eq_add, mul_eq_zero] at hp
  rcases hp with hp | hp
  · exact Nat.cast_add_one_ne_zero n hp
  · exact hf hp

theorem iterate_flapAt_inj (hf : config.penaltyPerFlap ≠ 0) {n m : ℕ}
    (h : (flapAt d config t)^[n + 1] found = (flapAt d config t)^[m + 1] found) : n = m := by
  obtain ⟨e, he, hp, -⟩ := iterate_flapAt d config found t n
  obtain ⟨e', he', hp', -⟩ := iterate_flapAt d config found t m
  obtain rfl : e = e' := Option.some.inj (he.symm.trans (h.trans he'))
  have hmul := add_left_cancel (hp.symm.trans hp')
  have hcast : (n : ℚ) = m := add_right_cancel (mul_right_cancel₀ hf hmul)
  exact Nat.cast_injective hcast

end Still

end PrefixDampening

namespace Intake

open PrefixDampening

variable {d : Decay} {peer : SocketAddr} {t : Instant}

theorem lookup_foldl_withdraw (k : PrefixKey) (withdrawn : List Prefix) {s : Intake}
    (hs : s.clock = Stream'.const t) :
    (withdrawn.foldl (withdraw d peer) s).dampening.state.lookup (peer, k) =
      (flapAt d s.dampening.config t)^[(withdrawn.map .ofPrefix).count k]
        (s.dampening.state.lookup (peer, k)) := by
  induction withdrawn generalizing s with
  | nil => rfl
  | cons p withdrawn ih =>
    have hclock : (s.withdraw d peer p).clock = Stream'.const t := by
      rw [withdraw_eq, hs]
      exact (run_flap_const d _ _ t).1
    have hconfig : (s.withdraw d peer p).dampening.config = s.dampening.config := by
      rw [withdraw_eq]
      rfl
    have hlook : (s.withdraw d peer p).dampening.state.lookup (peer, k) =
        if PrefixKey.ofPrefix p = k then flapAt d s.dampening.config t (s.dampening.state.lookup (peer, k))
        else s.dampening.state.lookup (peer, k) := by
      rw [withdraw_eq, hs]
      simp only [DampeningTable.lookup_set, Prod.mk.injEq, true_and]
      split_ifs with he
      · rw [he]
        rfl
      · rfl
    rw [List.foldl_cons, ih hclock, hconfig, hlook, List.map_cons, List.count_cons]
    by_cases he : PrefixKey.ofPrefix p = k
    · rw [if_pos he, if_pos (beq_iff_eq.mpr he), Function.iterate_succ_apply]
    · rw [if_neg he, if_neg (mt beq_iff_eq.mp he), add_zero]

end Intake

namespace Rib

variable {h : Host} {r r' : Rib} {p : SocketAddr} {peerAs : UInt32} {attrs : PathAttributes}
  {withdrawn : List Prefix} {t : Instant}

structure SameContent (r r' : Rib) : Prop where
  routes : ∀ p k, r'.route p k = r.route p k
  locRib : ∀ k, r'.locRib.lookup k = r.locRib.lookup k
  flaps : ∀ p k, r'.dampening.state.lookup (p, k) = r.dampening.state.lookup (p, k)
  checks : ∀ d clock p k, ((r'.dampening.checkAdvertisement d p k).run clock).1.1 =
    ((r.dampening.checkAdvertisement d p k).run clock).1.1

/-- From a time on, withdrawing the listed prefixes is the same as withdrawing each of them once, and it is
nothing at all if the peer has no route for any of them. -/
def WithdrawsQuietly (r : Rib) (t : Instant) (p : SocketAddr) (peerAs : UInt32) (attrs : PathAttributes)
    (withdrawn : List Prefix) : Prop :=
  ∀ h : Host, Monotone h.clock → t ≤ h.clock.head → ∃ r' once,
    r.processUpdate h p peerAs [] attrs withdrawn = some r' ∧
      r.processUpdate h p peerAs [] attrs withdrawn.dedup = some once ∧ once.SameContent r' ∧
      ((∀ q ∈ withdrawn, r.route p (.ofPrefix q) = none) → r.SameContent r')

theorem SameContent.refl (r : Rib) : r.SameContent r :=
  ⟨fun _ _ => rfl, fun _ => rfl, fun _ _ => rfl, fun _ _ _ _ => rfl⟩

theorem sameContent_of_nil (hr : r.processUpdate h p peerAs [] attrs [] = some r') : r.SameContent r' := by
  obtain ⟨s, hs, rfl⟩ := exists_processed hr
  obtain rfl := Option.some.inj hs
  refine ⟨?_, fun _ => rfl, fun _ _ => rfl, fun _ _ _ _ => rfl⟩
  intro q k
  exact route_processUpdate_of_notMem hs List.not_mem_nil q

theorem lookup_withdrawn (hr : r.processUpdate h p peerAs [] attrs withdrawn = some r')
    (hc : h.clock = Stream'.const t) (q : Prefix) :
    r'.dampening.state.lookup (p, .ofPrefix q) =
      (PrefixDampening.flapAt h.decayed r.dampening.config t)^[withdrawn.count q]
        (r.dampening.state.lookup (p, .ofPrefix q)) := by
  obtain ⟨s, hs, rfl⟩ := exists_processed hr
  obtain rfl := Option.some.inj hs
  rw [(runDecisions_sameTables h _ _).dampening,
    ← List.count_map_of_injective withdrawn _ PrefixKey.ofPrefix_injective q]
  exact Intake.lookup_foldl_withdraw (.ofPrefix q) withdrawn hc

section Flaps

variable (hf : r.dampening.config.penaltyPerFlap ≠ 0)

include hf

theorem nodup_of_withdrawsQuietly (hq : r.WithdrawsQuietly t p peerAs attrs withdrawn) : withdrawn.Nodup := by
  obtain ⟨r', once, hr', honce, hsame, -⟩ :=
    hq ⟨Stream'.const t, fun _ _ x => x, .listed, .listed⟩ monotone_const le_rfl
  apply List.nodup_iff_count_le_one.mpr
  intro q
  by_cases hm : q ∈ withdrawn
  · obtain ⟨n, hn⟩ := Nat.exists_eq_succ_of_ne_zero (List.count_pos_iff.mpr hm).ne'
    have hflaps := hsame.flaps p (.ofPrefix q)
    rw [lookup_withdrawn hr' rfl, lookup_withdrawn honce rfl, List.count_dedup, if_pos hm, hn] at hflaps
    rw [hn, PrefixDampening.iterate_flapAt_inj hf (m := 0) hflaps]
  · rw [List.count_eq_zero_of_not_mem hm]
    exact Nat.zero_le 1

theorem eq_nil_of_withdrawsQuietly (hq : r.WithdrawsQuietly t p peerAs attrs withdrawn)
    (hn : ∀ q ∈ withdrawn, r.route p (.ofPrefix q) = none) : withdrawn = [] := by
  obtain ⟨r', once, hr', -, -, hsame⟩ :=
    hq ⟨Stream'.const t, fun _ _ x => x, .listed, .listed⟩ monotone_const le_rfl
  apply List.eq_nil_iff_forall_not_mem.mpr
  intro q hm
  have hflaps := (hsame hn).flaps p (.ofPrefix q)
  rw [lookup_withdrawn hr' rfl] at hflaps
  exact PrefixDampening.iterate_flapAt_ne hf (List.count_pos_iff.mpr hm).ne' hflaps

end Flaps

/-- Every listed prefix costs its peer a penalty, whether the peer has a route for it or not and however often
it is listed. -/
theorem run_withdrawsQuietly_iff {rpki : RpkiValidator} {calls : List (Host × RibOp)}
    (hr : (start {} rpki).run calls = some r) (t : Instant) (p : SocketAddr) (peerAs : UInt32)
    (attrs : PathAttributes) (withdrawn : List Prefix) :
    r.WithdrawsQuietly t p peerAs attrs withdrawn ↔
      withdrawn.Nodup ∧ ((∀ q ∈ withdrawn, r.route p (.ofPrefix q) = none) → withdrawn = []) := by
  have hflap : r.dampening.config.penaltyPerFlap ≠ 0 := by
    obtain ⟨dcalls, hd⟩ := run_leads hr
    rw [hd, DampeningTable.run_config]
    decide
  constructor
  · intro hq
    exact ⟨nodup_of_withdrawsQuietly hflap hq, eq_nil_of_withdrawsQuietly hflap hq⟩
  · rintro ⟨hnodup, hempty⟩ h - -
    obtain ⟨r', hr'⟩ : ∃ r', r.processUpdate h p peerAs [] attrs withdrawn = some r' := ⟨_, rfl⟩
    refine ⟨r', r', hr', ?_, .refl r', ?_⟩
    · rw [hnodup.dedup, hr']
    · intro hn
      obtain rfl := hempty hn
      exact sameContent_of_nil hr'

theorem run_withdrawsQuietly_iff_new :
    new.WithdrawsQuietly 0 (samplePeer 1) 65001 {} [samplePrefix] ↔
      [samplePrefix].Nodup ∧
        ((∀ q ∈ [samplePrefix], new.route (samplePeer 1) (.ofPrefix q) = none) → [samplePrefix] = []) :=
  run_withdrawsQuietly_iff (show (start {} {}).run [] = some new from rfl) 0 (samplePeer 1) 65001 {} [samplePrefix]

theorem spurious_withdrawals_suppress :
    (∀ q ∈ [samplePrefix, samplePrefix, samplePrefix], new.route (samplePeer 1) (.ofPrefix q) = none) ∧
      ((new.processUpdate (hostAt 0) (samplePeer 1) 65001 [] {} [samplePrefix]).map fun r =>
        (r.dampening.state.lookup (samplePeer 1, .ofPrefix samplePrefix)).map PrefixDampening.penalty) =
          some (some 1000) ∧
      ¬ new.WithdrawsQuietly 0 (samplePeer 1) 65001 {} [samplePrefix] ∧
      ((new.processUpdate (hostAt 0) (samplePeer 1) 65001 [] {} [samplePrefix, samplePrefix, samplePrefix]).bind
        fun r => (r.processUpdate (hostAt 1) (samplePeer 1) 65001 [samplePrefix] {} []).map fun r' =>
          (r'.route (samplePeer 1) (.ofPrefix samplePrefix)).isSome) = some false ∧
      ((new.processUpdate (hostAt 0) (samplePeer 1) 65001 [] {} []).bind fun r =>
        (r.processUpdate (hostAt 1) (samplePeer 1) 65001 [samplePrefix] {} []).map fun r' =>
          (r'.route (samplePeer 1) (.ofPrefix samplePrefix)).isSome) = some true ∧
      ¬ new.WithdrawsQuietly 0 (samplePeer 1) 65001 {} [samplePrefix, samplePrefix, samplePrefix] := by
  refine ⟨fun _ _ => rfl, by decide +kernel, ?_, by decide +kernel, by decide +kernel, ?_⟩
  · intro hq
    exact List.cons_ne_nil _ _ (eq_nil_of_withdrawsQuietly (by decide) hq fun _ _ => rfl)
  · intro hq
    exact absurd (nodup_of_withdrawsQuietly (by decide) hq) (by decide)

end Rib

end PathForge.Routing
