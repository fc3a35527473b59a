import PathForge.DampeningAutomaton
import PathForge.UpdateOutcomes

namespace PathForge.Routing

open Tables Selection Wire Fallible History

namespace DampeningTable

def Leads (t t' : DampeningTable) : Prop := ∃ calls, t' = t.run calls

variable {t t' t'' : DampeningTable}

theorem Leads.refl (t : DampeningTable) : t.Leads t := ⟨[], rfl⟩

theorem Leads.trans (h : t.Leads t') (h' : t'.Leads t'') : t.Leads t'' := by
  obtain ⟨calls, rfl⟩ := h
  obtain ⟨calls', rfl⟩ := h'
  exact ⟨calls ++ calls', by simp [run]⟩

theorem leads_apply (t : DampeningTable) (c : DampeningCall) : t.Leads (t.apply c) := ⟨[c], rfl⟩

end DampeningTable

namespace Intake

variable {d : Decay} {rpki : RpkiValidator} {peer : SocketAddr} {peerAs : UInt32} {attrs : PathAttributes}
  {s t : Intake} {p : Prefix}

theorem leads_withdraw (withdrawn : List Prefix) (s : Intake) :
    s.dampening.Leads (withdrawn.foldl (withdraw d peer) s).dampening := by
  induction withdrawn generalizing s with
  | nil => exact .refl _
  | cons p withdrawn ih =>
    have hp : s.dampening.Leads (s.withdraw d peer p).dampening :=
      s.dampening.leads_apply ⟨s.clock, d, .recordWithdrawal peer (.ofPrefix p)⟩
    exact hp.trans (ih _)

theorem leads_announce (ht : s.announce d rpki peer peerAs attrs p = some t) : s.dampening.Leads t.dampening := by
  have hc := s.dampening.leads_apply ⟨s.clock, d, .checkAdvertisement peer (.ofPrefix p)⟩
  simp only [DampeningTable.apply, run_checkAdvertisement] at hc
  rw [announce_eq] at ht
  obtain ⟨rov, -, rfl⟩ := Option.map_eq_some_iff.mp ht
  simp only
  split_ifs
  · exact hc
  · exact hc

end Intake

namespace Rib

variable {h : Host} {r r' : Rib} {op : RibOp} {p : SocketAddr} {k : PrefixKey}

section Table

theorem apply_leads (ha : r.apply h op = some r') : r.dampening.Leads r'.dampening := by
  obtain ⟨c, keys, hc, rfl⟩ := exists_change ha
  rw [(runDecisions_sameTables h c keys).dampening]
  cases op with
  | processUpdate peer peerAs nlri attrs withdrawn =>
    obtain ⟨s, hs, rfl, rfl⟩ := exists_intake hc
    apply foldlM_invariant (I := fun s : Intake => r.dampening.Leads s.dampening)
      (fun _ _ _ hI ht => hI.trans (Intake.leads_announce ht)) _ hs
    exact Intake.leads_withdraw withdrawn ⟨h.clock, r.dampening, (r.adjRibIn.lookup peer).getD ∅, []⟩
  | removePeer peer =>
    obtain ⟨rfl, rfl⟩ := Prod.mk.inj (Option.some.inj hc)
    exact r.dampening.leads_apply ⟨h.clock, h.decayed, .removePeer peer⟩
  | markPeerStale peer =>
    obtain ⟨rfl, rfl⟩ := Prod.mk.inj (Option.some.inj hc)
    rw [dampening_markPeerStale]
    exact .refl _
  | removeStaleForPeer peer =>
    obtain ⟨rfl, rfl⟩ := Prod.mk.inj (Option.some.inj hc)
    exact .refl _

theorem run_leads {config : DampeningConfig} {rpki : RpkiValidator} {calls : List (Host × RibOp)}
    (hr : (start config rpki).run calls = some r) : DampeningTable.Leads { config := config } r.dampening :=
  foldlM_invariant (I := fun r : Rib => DampeningTable.Leads { config := config } r.dampening)
    (fun _ _ _ hI ha => hI.trans (apply_leads ha)) (.refl _) hr

theorem exists_released {config : DampeningConfig} {rpki : RpkiValidator} {calls : List (Host × RibOp)}
    (hr : (start config rpki).run calls = some r) (t : Instant) (p : SocketAddr) (k : PrefixKey) (d : Decay) :
    ∃ clock : Clock, Monotone clock ∧ t ≤ clock.head ∧
      ((r.dampening.checkAdvertisement d p k).run clock).1.1 = false := by
  obtain ⟨dcalls, ht⟩ := run_leads hr
  have hcons := DampeningTable.run_consistent config dcalls p k
  rw [← ht] at hcons
  rcases hl : r.dampening.state.lookup (p, k) with _ | e
  · refine ⟨Stream'.const t, monotone_const, le_refl _, ?_⟩
    rw [DampeningTable.check_eq, hl]
    rfl
  · rw [hl] at hcons
    cases hs : e.suppressed with
    | false =>
      refine ⟨Stream'.const t, monotone_const, le_refl _, ?_⟩
      rw [DampeningTable.check_eq, hl, Option.map_some, Option.getD_some, ← Bool.not_eq_true]
      intro hf
      rw [PrefixDampening.review_suppressed hf] at hs
      cases hs
    | true =>
      have hat : e.suppressedAt.isSome = true := hcons.symm.trans hs
      obtain ⟨since, hat⟩ := Option.isSome_iff_exists.mp hat
      refine ⟨Stream'.const (max t (since + r.dampening.config.maxSuppressTime)), monotone_const,
        le_max_left _ _, ?_⟩
      exact DampeningTable.check_late hl hat monotone_const (le_max_right _ _)

end Table

section Return

def Resets (k : PrefixKey) (r : Rib) (c : Host × RibOp) : Prop :=
  match c.2 with
  | .processUpdate _ _ nlri _ withdrawn => k ∈ nlri.map .ofPrefix ∨ k ∈ withdrawn.map .ofPrefix
  | .removePeer _ => True
  | .markPeerStale _ => False
  | .removeStaleForPeer peer => k ∈ r.staleKeys c.1 peer

def LeftAlone (p : SocketAddr) (k : PrefixKey) (r : Rib) (calls : List (Host × RibOp)) : Prop :=
  ¬ Once (fun r c => r.apply c.1 c.2) (fun r c => c.2.peer = p ∧ r.Resets k c) r calls

theorem apply_leftAlone (ha : r.apply h op = some r') (hn : op.peer = p → ¬ r.Resets k (h, op)) :
    (r'.route p k).map Route.fresh = (r.route p k).map Route.fresh := by
  by_cases hp : op.peer = p
  · obtain ⟨c, keys, hc, rfl⟩ := exists_change ha
    rw [(runDecisions_sameTables h c keys).route_eq]
    apply (change_changed hc).routes
    have hn := hn hp
    cases op with
    | processUpdate peer peerAs nlri attrs withdrawn =>
      obtain ⟨s, hs, rfl, rfl⟩ := exists_intake hc
      rw [List.mem_append, mem_affected_intake hs]
      rintro (hi | hw)
      · exact hn (.inl hi.mem_nlri)
      · exact hn (.inr hw)
    | removePeer peer => exact absurd trivial hn
    | markPeerStale peer =>
      obtain ⟨rfl, rfl⟩ := Prod.mk.inj (Option.some.inj hc)
      exact List.not_mem_nil
    | removeStaleForPeer peer =>
      obtain ⟨rfl, rfl⟩ := Prod.mk.inj (Option.some.inj hc)
      exact hn
  · rw [apply_route_of_ne (Ne.symm hp) ha]

theorem run_leftAlone {calls : List (Host × RibOp)} (hr : r.run calls = some r') (hn : r.LeftAlone p k calls) :
    (r'.route p k).map Route.fresh = (r.route p k).map Route.fresh := by
  induction calls using List.reverseRecOn generalizing r' with
  | nil =>
    obtain rfl := Option.some.inj hr
    rfl
  | append_singleton calls c ih =>
    obtain ⟨v, hv, ha⟩ := foldlM_snoc.mp hr
    rw [LeftAlone, once_snoc hv, not_or] at hn
    exact (apply_leftAlone ha fun hp hc => hn.2 ⟨hp, hc⟩).trans (ih hv hn.1)

def Fading (d : Decay) : Prop := ∀ halfLife penalty x y, x ≤ y → d halfLife y penalty ≤ d halfLife x penalty

/-- Whenever a check would not find the route suppressed, it is there, and the Loc-RIB has one for its
prefix. -/
def ComesBack (r : Rib) (t : Instant) (p : SocketAddr) (k : PrefixKey) (attrs : PathAttributes)
    (peerAs : UInt32) : Prop :=
  ∀ d (clock : Clock), Fading d → Monotone clock → t ≤ clock.head →
    ((r.dampening.checkAdvertisement d p k).run clock).1.1 = false →
    (∃ s, r.route p k = some s ∧ .ofPrefix s.pfx = k ∧ s.attrs = attrs ∧ s.peerAs = peerAs) ∧
      (r.locRib.lookup k).isSome

theorem not_rejects_disabled (hm : r.rpki.mode = .disabled) (peerAs : UInt32) : ¬ r.Rejects k peerAs := by
  rintro ⟨rov, -, hrej⟩
  rw [RpkiValidator.shouldReject, hm] at hrej
  cases hrej

/-- A route that was suppressed when its peer announced it is not kept, so it does not come back by itself. -/
theorem run_comesBack_iff {config : DampeningConfig} {rpki : RpkiValidator} {before after : List (Host × RibOp)}
    {peerAs : UInt32} {nlri withdrawn : List Prefix} {attrs : PathAttributes} {u v : Rib}
    (hm : rpki.mode = .disabled)
    (hu : (start config rpki).run before = some u) (hv : u.processUpdate h p peerAs nlri attrs withdrawn = some v)
    (hr : v.run after = some r) (hk : k ∈ nlri.map .ofPrefix) (hlast : v.LeftAlone p k after) (t : Instant) :
    r.ComesBack t p k attrs peerAs ↔
      u.Installs k (h, .processUpdate p peerAs nlri attrs withdrawn) ∧ k ∉ withdrawn.map .ofPrefix := by
  have hrun : (start config rpki).run (before ++ (h, .processUpdate p peerAs nlri attrs withdrawn) :: after) =
      some r := by
    rw [run_append hu, run, List.foldlM_cons]
    change (u.processUpdate h p peerAs nlri attrs withdrawn).bind (fun v => v.run after) = some r
    rw [hv, Option.bind_some, hr]
  have hkept := run_leftAlone hr hlast
  constructor
  · intro hall
    obtain ⟨clock, hmono, hfrom, hfree⟩ := exists_released hrun t p k fun _ _ penalty => penalty
    obtain ⟨⟨s, hs, -⟩, -⟩ := hall _ clock (fun _ _ _ _ _ => le_refl _) hmono hfrom hfree
    rw [hs, Option.map_some, eq_comm, Option.map_eq_some_iff] at hkept
    obtain ⟨s', hs', -⟩ := hkept
    cases updated_route hv k with
    | gone hw hn =>
      rw [hn] at hs'
      cases hs'
    | written hw hi _ _ _ => exact ⟨hi, hw⟩
    | left hw hi hsame =>
      -- the peer had the route before, so its announcement cannot have been suppressed
      have hsome : (u.route p k).isSome := by
        rw [← hsame, hs']
        rfl
      have hmode : u.rpki.mode = .disabled := by rw [(run_proper hu).1, hm]
      exact absurd (installs_of_route (run_quiet hu) hv hk hw hsome (not_rejects_disabled hmode peerAs)) hi
  · rintro ⟨hi, hw⟩ d clock - - - -
    cases updated_route hv k with
    | gone hw' _ => exact absurd hw' hw
    | written _ _ s hs hroute =>
      rw [hs, Option.map_some, Option.map_eq_some_iff] at hkept
      obtain ⟨s', hs', hf⟩ := hkept
      refine ⟨⟨s', hs', ?_, ?_, ?_⟩, ?_⟩
      · rw [Route.eq_of_fresh hf Route.pfx fun _ => rfl, hroute.key]
      · rw [Route.eq_of_fresh hf Route.attrs fun _ => rfl, hroute.attrs]
      · rw [Route.eq_of_fresh hf Route.peerAs fun _ => rfl, hroute.peerAs]
      · exact (run_decided hrun k).isSome_iff.mpr ⟨p, by rw [hs']; rfl⟩
    | left _ hn _ => exact absurd hi hn

theorem antitone_halved : Antitone halved := by
  have hpow (n : ℕ) : (0 : ℚ) < (1 / 2) ^ n := pow_pos one_half_pos n
  intro x y hxy
  have hwhole : ⌊x⌋₊ ≤ ⌊y⌋₊ := Nat.floor_le_floor hxy
  rcases hwhole.eq_or_lt with hsame | hmore
  · rw [halved, halved, hsame]
    apply mul_le_mul_of_nonneg_left _ (hpow _).le
    linarith
  · have hlow : (1 / 2) ^ (⌊x⌋₊ + 1) ≤ halved x := by
      rw [halved, pow_succ]
      apply mul_le_mul_of_nonneg_left _ (hpow _).le
      linarith [Nat.lt_floor_add_one x]
    have hpos : 0 < y := Nat.pos_of_floor_pos (Nat.zero_lt_of_lt hmore)
    have hhigh : halved y ≤ (1 / 2) ^ ⌊y⌋₊ := by
      rw [halved]
      apply mul_le_of_le_one_right (hpow _).le
      linarith [Nat.floor_le hpos.le]
    calc halved y ≤ (1 / 2) ^ ⌊y⌋₊ := hhigh
      _ ≤ (1 / 2) ^ (⌊x⌋₊ + 1) := pow_le_pow_of_le_one one_half_pos.le (by norm_num) hmore
      _ ≤ halved x := hlow

theorem fading_halving : Fading halving := by
  intro halfLife penalty x y hxy
  apply mul_le_mul_of_nonneg_left _ (le_max_right penalty 0)
  exact antitone_halved (div_le_div_of_nonneg_right hxy (le_max_right halfLife 0))

def hostAt (secs : ℕ) : Host := { sampleHost with clock := clockAt secs, decayed := halving }

def withdrawals : List (Host × RibOp) :=
  [(hostAt 0, .processUpdate (samplePeer 1) 65001 [] {} [samplePrefix]),
    (hostAt 1, .processUpdate (samplePeer 1) 65001 [] {} [samplePrefix]),
    (hostAt 2, .processUpdate (samplePeer 1) 65001 [] {} [samplePrefix])]

theorem exists_suppressed :
    ∃ u v, (start {} {}).run withdrawals = some u ∧
      u.processUpdate (hostAt 3) (samplePeer 1) 65001 [samplePrefix] {} [] = some v ∧
      v.route (samplePeer 1) (.ofPrefix samplePrefix) = none ∧
      ((v.dampening.checkAdvertisement halving (samplePeer 1) (.ofPrefix samplePrefix)).run
        (clockAt 4000)).1.1 = false := by
  have h : (((start {} {}).run withdrawals).bind fun u =>
      (u.processUpdate (hostAt 3) (samplePeer 1) 65001 [samplePrefix] {} []).map fun v =>
        (v.route (samplePeer 1) (.ofPrefix samplePrefix),
          ((v.dampening.checkAdvertisement halving (samplePeer 1) (.ofPrefix samplePrefix)).run
            (clockAt 4000)).1.1)) = some (none, false) := by decide +kernel
  obtain ⟨u, hu, h⟩ := Option.bind_eq_some_iff.mp h
  obtain ⟨v, hv, h⟩ := Option.map_eq_some_iff.mp h
  obtain ⟨hroute, hcheck⟩ := Prod.mk.inj h
  exact ⟨u, v, hu, hv, hroute, hcheck⟩

theorem suppressed_not_comesBack :
    ∃ u v, (start {} {}).run withdrawals = some u ∧
      u.processUpdate (hostAt 3) (samplePeer 1) 65001 [samplePrefix] {} [] = some v ∧
      ¬ v.ComesBack (4000 * 10 ^ 9) (samplePeer 1) (.ofPrefix samplePrefix) {} 65001 := by
  obtain ⟨u, v, hu, hv, hroute, hcheck⟩ := exists_suppressed
  refine ⟨u, v, hu, hv, ?_⟩
  intro hall
  obtain ⟨⟨s, hs, -⟩, -⟩ := hall halving _ fading_halving (monotone_clockAt 4000) le_rfl hcheck
  rw [hroute] at hs
  cases hs

theorem run_comesBack_iff_suppressed :
    ∃ u v, (start {} {}).run withdrawals = some u ∧
      u.processUpdate (hostAt 3) (samplePeer 1) 65001 [samplePrefix] {} [] = some v ∧
      (v.ComesBack (4000 * 10 ^ 9) (samplePeer 1) (.ofPrefix samplePrefix) {} 65001 ↔
        u.Installs (.ofPrefix samplePrefix) (hostAt 3, .processUpdate (samplePeer 1) 65001 [samplePrefix] {} []) ∧
          .ofPrefix samplePrefix ∉ ([] : List Prefix).map PrefixKey.ofPrefix) := by
  obtain ⟨u, v, hu, hv, -⟩ := exists_suppressed
  exact ⟨u, v, hu, hv, run_comesBack_iff rfl hu hv (show v.run [] = some v from rfl) (by decide) not_once_nil _⟩

end Return

end Rib

end PathForge.Routing
