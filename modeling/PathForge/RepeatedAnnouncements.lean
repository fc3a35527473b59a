import PathForge.UpdateOutcomes

namespace PathForge.Routing

open Tables Selection Wire Fallible

namespace Route

variable {s s' : Route}

def merit (s : Route) : ℕᵒᵈ ×ₗ ℕ ×ₗ ℕ ×ₗ ℕ :=
  toLex (OrderDual.toDual s.localPref, toLex (s.attrs.asPathLen, toLex (s.origin, s.med)))

theorem merit_congr (h : s.attrs = s'.attrs) : s.merit = s'.merit := by
  simp only [merit, localPref, origin, med, h]

theorem rank_le_iff : s.rank ≤ s'.rank ↔ s.merit < s'.merit ∨
    s.merit = s'.merit ∧ s.receivedAt ≤ s'.receivedAt := by
  simp only [rank, merit, Prod.Lex.toLex_le_toLex, Prod.Lex.toLex_lt_toLex, EmbeddingLike.apply_eq_iff_eq,
    Prod.mk.injEq]
  tauto

theorem rank_lt_iff : s.rank < s'.rank ↔ s.merit < s'.merit ∨
    s.merit = s'.merit ∧ s.receivedAt < s'.receivedAt := by
  simp only [rank, merit, Prod.Lex.toLex_lt_toLex, EmbeddingLike.apply_eq_iff_eq, Prod.mk.injEq]
  tauto

theorem merit_le (h : s.rank ≤ s'.rank) : s.merit ≤ s'.merit := by
  rcases rank_le_iff.mp h with hlt | ⟨heq, -⟩
  · exact hlt.le
  · exact heq.le

theorem not_rank_lt (hm : s.merit = s'.merit) (ht : s'.receivedAt ≤ s.receivedAt) : ¬ s.rank < s'.rank :=
  not_lt.mpr (rank_le_iff.mpr (.inr ⟨hm.symm, ht⟩))

end Route

namespace PrefixDampening

variable {P : Instant → Prop} {c : Clock}

theorem forall_clock_review (d : Decay) (config : DampeningConfig) (e : PrefixDampening) (hc : ∀ n, P (c n)) :
    ∀ n, P (((e.review d config).run c).2 n) := by
  have hdecay : ∀ n, P (((e.decay d config.halfLifeSecs).run c).2 n) := by
    intro n
    rw [run_decay]
    split_ifs
    · exact hc (n + 2)
    · exact hc (n + 1)
  intro n
  rw [run_review]
  simp only [timedOut]
  split
  · exact hdecay (n + 1)
  · exact hdecay n

end PrefixDampening

namespace Intake

variable {d : Decay} {rpki : RpkiValidator} {peer : SocketAddr} {peerAs : UInt32} {attrs : PathAttributes}
  {s t : Intake} {p : Prefix} {P : Instant → Prop}

structure Dated (P : Instant → Prop) (s : Intake) : Prop where
  clock : ∀ n, P (s.clock n)
  routes : ∀ k ∈ s.affected, ∀ route, s.adjIn.lookup k = some route → P route.receivedAt

theorem Dated.check (hs : s.Dated P) (key : PrefixKey) : (s.check d peer key).2.Dated P := by
  unfold Intake.check
  split
  · exact hs
  · exact ⟨PrefixDampening.forall_clock_review d _ _ hs.clock, hs.routes⟩

theorem Dated.announce (hs : s.Dated P) (ht : s.announce d rpki peer peerAs attrs p = some t) : t.Dated P := by
  have hcheck : (s.check d peer (.ofPrefix p)).2.Dated P := hs.check _
  rw [announce_eq] at ht
  obtain ⟨rov, -, rfl⟩ := Option.map_eq_some_iff.mp ht
  simp only
  split_ifs
  · exact hcheck
  · refine ⟨fun n => hcheck.clock (n + 1), ?_⟩
    intro k hk route hroute
    simp only [install, HashMap.lookup_insert, List.mem_append, List.mem_singleton] at hk hroute
    split_ifs at hroute with he
    · obtain rfl := Option.some.inj hroute
      exact hcheck.clock 0
    · exact hcheck.routes k (hk.resolve_right he) route hroute

end Intake

namespace Rib

variable {h : Host} {r r' : Rib} {p : SocketAddr} {peerAs : UInt32} {nlri : List Prefix} {attrs : PathAttributes}
  {k : PrefixKey} {t : Instant} {config : DampeningConfig} {rpki : RpkiValidator} {calls : List (Host × RibOp)}

section Verdicts

def Labelled (r : Rib) : Prop :=
  ∀ p k s, r.route p k = some s → r.rpki.validate k.address k.prefixLen s.peerAs = some s.rovState

theorem apply_labelled {op : RibOp} (hl : r.Labelled) (ha : r.apply h op = some r') : r'.Labelled := by
  intro p k s hs
  rw [apply_rpki ha]
  obtain ⟨c, keys, hc, hrun⟩ := exists_change ha
  have hs' : c.route p k = some s := by
    rw [← hs, ← hrun, (runDecisions_sameTables h c keys).route_eq]
  rcases change_route_cases hc hs' with ⟨s₀, hs₀, hf⟩ | ⟨peerAs, nlri, attrs, withdrawn, rfl, -⟩
  · rw [Route.eq_of_fresh hf Route.peerAs fun _ => rfl, Route.eq_of_fresh hf Route.rovState fun _ => rfl]
    exact hl p k s₀ hs₀
  · cases updated_route ha k with
    | gone _ hnone =>
      rw [hs] at hnone
      cases hnone
    | written _ _ s' hroute hw =>
      obtain rfl := Option.some.inj (hs.symm.trans hroute)
      exact hw.verdict
    | left _ _ hsame => exact hl p k s (hsame ▸ hs)

theorem run_labelled (hr : (start config rpki).run calls = some r) : r.Labelled := by
  refine foldlM_invariant (I := Labelled) (fun _ _ _ hl ha => apply_labelled hl ha) ?_ hr
  intro p k s hs
  simp [start, route] at hs

end Verdicts

section Renewal

def Repeats (r : Rib) (p : SocketAddr) (peerAs : UInt32) (nlri : List Prefix) (attrs : PathAttributes) : Prop :=
  ∀ q ∈ nlri, ∃ s, r.route p (.ofPrefix q) = some s ∧ s.stale = false ∧ s.attrs = attrs ∧ s.peerAs = peerAs

structure Renewed (r : Rib) (h : Host) (p : SocketAddr) (keys : List PrefixKey) (P : Instant → Prop) (r' : Rib) :
    Prop where
  own : ∀ k ∈ keys, ∃ s s', r.route p k = some s ∧ r'.route p k = some s' ∧ s'.merit = s.merit ∧ P s'.receivedAt
  others : ∀ q k, q ≠ p → r'.route q k = r.route q k
  peers : ∀ q k s, r'.route q k = some s → s.peerAddr = q
  decided : ∀ k ∈ keys, r'.locRib.lookup k = r'.best h k
  kept : ∀ k ∉ keys, r'.locRib.lookup k = r.locRib.lookup k

theorem exists_repeated (hl : r.Labelled) (hrep : r.Repeats p peerAs nlri attrs) :
    ∃ r', r.processUpdate h p peerAs nlri attrs [] = some r' := by
  have hround : ∀ q ∈ nlri, ∀ s, True →
      ∃ t, Intake.announce h.decayed r.rpki p peerAs attrs s q = some t ∧ True := by
    intro q hq s _
    obtain ⟨route, hroute, -, -, has⟩ := hrep q hq
    have hv := hl p _ route hroute
    rw [has] at hv
    rw [Intake.announce_eq]
    exact ⟨_, Option.map_eq_some_iff.mpr ⟨route.rovState, hv, rfl⟩, trivial⟩
  obtain ⟨s, hs, -⟩ := exists_foldlM_of_mem (I := fun _ => True) hround trivial
  have hc : r.change h (.processUpdate p peerAs nlri attrs []) = some _ := Option.map_eq_some_iff.mpr ⟨s, hs, rfl⟩
  exact ⟨_, (apply_eq h r (.processUpdate p peerAs nlri attrs [])).trans (by rw [hc, Option.map_some])⟩

theorem installs_of_repeats (hr : (start config rpki).run calls = some r) (hrep : r.Repeats p peerAs nlri attrs)
    (hu : r.processUpdate h p peerAs nlri attrs [] = some r') (hk : k ∈ nlri.map .ofPrefix) :
    r.Installs k (h, .processUpdate p peerAs nlri attrs []) := by
  obtain ⟨q, hq, rfl⟩ := List.mem_map.mp hk
  obtain ⟨s, hs, -, -, has⟩ := hrep q hq
  apply installs_of_route (run_quiet hr) hu hk List.not_mem_nil (by rw [hs]; rfl)
  rintro ⟨rov, hrov, hrej⟩
  have hv := run_labelled hr p _ s hs
  rw [has, hrov, Option.some.injEq] at hv
  rw [RpkiValidator.shouldReject, Bool.and_eq_true, beq_iff_eq, beq_iff_eq, hv, (run_proper hr).1] at hrej
  exact ((run_proper hr).2 p _ s hs).valid hrej.1 hrej.2

theorem renewed_of_repeats (hr : (start config rpki).run calls = some r) (hrep : r.Repeats p peerAs nlri attrs)
    (hu : r.processUpdate h p peerAs nlri attrs [] = some r') {P : Instant → Prop} (hP : ∀ n, P (h.clock n)) :
    r.Renewed h p (nlri.map .ofPrefix) P r' := by
  have ha : r.apply h (.processUpdate p peerAs nlri attrs []) = some r' := hu
  have hproper := apply_proper (run_proper hr) ha
  have hi {k : PrefixKey} (hk : k ∈ nlri.map .ofPrefix) := installs_of_repeats hr hrep hu hk
  obtain ⟨s, hs, rfl⟩ := exists_processed hu
  have hdated : s.Dated P := by
    apply foldlM_invariant (I := Intake.Dated P) (fun _ _ _ hd ht => hd.announce ht) _ hs
    exact ⟨hP, fun k hk => absurd hk List.not_mem_nil⟩
  have hmem {k : PrefixKey} (hk : k ∈ nlri.map .ofPrefix) : k ∈ s.affected :=
    (mem_affected_intake hs k).mpr (hi hk)
  refine ⟨?_, ?_, fun q k s hs => (hproper.2 q k s hs).peerAddr, ?_, ?_⟩
  · intro k hk
    obtain ⟨route, hroute, hw⟩ := intake_written hs (hmem hk)
    obtain ⟨q, hq, rfl⟩ := List.mem_map.mp hk
    obtain ⟨old, hold, -, hattrs, -⟩ := hrep q hq
    refine ⟨old, route, hold, ?_, Route.merit_congr (hw.attrs.trans hattrs.symm),
      hdated.routes _ (hmem hk) route hroute⟩
    rw [(runDecisions_sameTables h _ _).route_eq, route_processUpdate, if_pos rfl, List.map_nil,
      if_neg List.not_mem_nil, hroute]
  · intro q k hq
    exact apply_route_of_ne hq ha k
  · intro k hk
    exact lookup_runDecisions_of_mem h _ (List.mem_append_left _ (hmem hk))
  · intro k hk
    exact locRib_processUpdate hu hk List.not_mem_nil

end Renewal

section Choice

variable {q a : SocketAddr} {s c : Route} (hpeers : ∀ q s, r.route q k = some s → s.peerAddr = q)

include hpeers

theorem best_peer_of_lt (hc : r.route a k = some c) (hlt : ∀ q s, q ≠ a → r.route q k = some s → c.rank < s.rank) :
    (r.best h k).map Route.peerAddr = some a := by
  have hmem : c ∈ r.candidates h k := mem_candidates.mpr ⟨a, hc⟩
  rcases hb : r.best h k with _ | b
  · rw [first_eq_none.mp hb] at hmem
    cases hmem
  · obtain ⟨q, hq⟩ := mem_candidates.mp (first_mem hb)
    rw [Option.map_some, hpeers q b hq]
    by_contra hne
    exact (hlt q b (fun he => hne (congrArg some he)) hq).not_ge (first_le Route.rankedBy_cmp hb c hmem)

theorem best_peer_ne (hh : h.peers = .leading q) (hs : r.route q k = some s) (hc : r.route a k = some c)
    (hq : q ≠ a) (hle : s.rank ≤ c.rank) : (r.best h k).map Route.peerAddr ≠ some a := by
  have hfound : (r.adjRibIn.lookup q).isSome := by
    obtain ⟨adj, hadj, -⟩ := Option.bind_eq_some_iff.mp hs
    rw [hadj]
    rfl
  have hcand : r.candidates h k = s :: (r.adjRibIn.keys.erase q).filterMap fun peer => r.route peer k := by
    rw [candidates, hh, HashMap.keysBy_leading hfound]
    exact List.filterMap_cons_some hs
  intro hpeer
  obtain ⟨b, hb, hba⟩ := Option.map_eq_some_iff.mp hpeer
  obtain ⟨x, hx⟩ := mem_candidates.mp (first_mem hb)
  obtain rfl : x = a := (hpeers x b hx).symm.trans hba
  obtain rfl := Option.some.inj (hc.symm.trans hx)
  rw [best, hcand] at hb
  rcases first_cons Route.rankedBy_cmp hb with rfl | hlt
  · exact hq ((hpeers q c hs).symm.trans hba)
  · exact hlt.not_ge hle

end Choice

def KeepsBest (r : Rib) (t : Instant) (p : SocketAddr) (peerAs : UInt32) (nlri : List Prefix)
    (attrs : PathAttributes) :
    Prop :=
  ∀ h : Host, Monotone h.clock → t ≤ h.clock.head → ∃ r', r.processUpdate h p peerAs nlri attrs [] = some r' ∧
    ∀ k, (r'.locRib.lookup k).map Route.peerAddr = (r.locRib.lookup k).map Route.peerAddr

/-- If another peer's route is as good as the best one but for its arrival, then the best one is not the
announcing peer's, and the two do not come to have arrived at the same time. -/
def Unrivalled (r : Rib) (t : Instant) (p : SocketAddr) (k : PrefixKey) : Prop :=
  ∀ b q s, r.locRib.lookup k = some b → r.route q k = some s → q ≠ b.peerAddr → s.merit = b.merit →
    b.peerAddr ≠ p ∧ if q = p then b.receivedAt < t else s.receivedAt ≠ b.receivedAt

theorem exists_best (hr : (start config rpki).run calls = some r) {b : Route} (hb : r.locRib.lookup k = some b) :
    ∃ s, r.route b.peerAddr k = some s ∧ s.merit = b.merit ∧ s.receivedAt = b.receivedAt := by
  obtain ⟨a, s, hs, hf⟩ := (run_decided hr k).chosen b hb
  have ha : b.peerAddr = a := (((run_proper hr).2 a k s hs).of_fresh hf).peerAddr
  refine ⟨s, ha ▸ hs, ?_, ?_⟩
  · exact (Route.eq_of_fresh hf Route.merit fun _ => rfl).symm
  · exact (Route.eq_of_fresh hf Route.receivedAt fun _ => rfl).symm

section Repeated

variable (hr : (start config rpki).run calls = some r) {b : Route} (hb : r.locRib.lookup k = some b)

include hr hb

theorem renewed_best (hren : r.Renewed h p (nlri.map .ofPrefix) (t ≤ ·) r') (hk : k ∈ nlri.map .ofPrefix)
    (hun : r.Unrivalled t p k) : (r'.best h k).map Route.peerAddr = some b.peerAddr := by
  obtain ⟨c, hc, hmerit, hdate⟩ := exists_best hr hb
  obtain ⟨old, new, hold, hnew, hsame, hlate⟩ := hren.own k hk
  have hle (q : SocketAddr) (s : Route) (hs : r.route q k = some s) : b.rank ≤ s.rank :=
    not_lt.mp ((run_decided hr k).best b hb q s hs)
  by_cases hp : b.peerAddr = p
  · -- the best route is the renewed one, and no other is as good
    obtain rfl : c = old := Option.some.inj (hc.symm.trans (hp ▸ hold))
    rw [hp]
    apply best_peer_of_lt (fun q s => hren.peers q k s) hnew
    intro q s hq hs
    rw [hren.others q k hq] at hs
    have hne : s.merit ≠ b.merit := fun he => (hun b q s hb hs (hp ▸ hq) he).1 hp
    rw [Route.rank_lt_iff, hsame, hmerit]
    exact .inl (lt_of_le_of_ne (Route.merit_le (hle q s hs)) hne.symm)
  · apply best_peer_of_lt (fun q s => hren.peers q k s) ((hren.others _ k hp).trans hc)
    intro q s hq hs
    rw [Route.rank_lt_iff, hmerit, hdate]
    by_cases hqp : q = p
    · subst hqp
      obtain rfl := Option.some.inj (hnew.symm.trans hs)
      rcases (Route.merit_le (hle q old hold)).lt_or_eq with hlt | heq
      · exact .inl (hsame ▸ hlt)
      · have harrived := (hun b q old hb hold hq heq.symm).2
        rw [if_pos rfl] at harrived
        exact .inr ⟨heq.trans hsame.symm, harrived.trans_le hlate⟩
    · rw [hren.others q k hqp] at hs
      rcases Route.rank_le_iff.mp (hle q s hs) with hlt | ⟨heq, hage⟩
      · exact .inl hlt
      · have harrived := (hun b q s hb hs hq heq.symm).2
        rw [if_neg hqp] at harrived
        exact .inr ⟨heq, lt_of_le_of_ne hage harrived.symm⟩

theorem KeepsBest.rank_lt (hkeep : r.KeepsBest t p peerAs nlri attrs) (hrep : r.Repeats p peerAs nlri attrs)
    (hk : k ∈ nlri.map .ofPrefix) {q : SocketAddr} (hq : q ≠ b.peerAddr) {τ : Instant} (hτ : t ≤ τ) :
    ∃ h r', r.Renewed h p (nlri.map .ofPrefix) (· = τ) r' ∧
      ∀ s c, r'.route q k = some s → r'.route b.peerAddr k = some c → c.rank < s.rank := by
  let h : Host := ⟨Stream'.const τ, fun _ _ x => x, .leading q, .listed⟩
  obtain ⟨r', hu, hpeer⟩ := hkeep h monotone_const hτ
  have hren : r.Renewed h p (nlri.map .ofPrefix) (· = τ) r' := renewed_of_repeats hr hrep hu fun _ => rfl
  refine ⟨h, r', hren, ?_⟩
  intro s c hs hc
  by_contra hle
  apply best_peer_ne (fun q s => hren.peers q k s) (rfl : h.peers = .leading q) hs hc hq (not_lt.mp hle)
  rw [← hren.decided k hk, hpeer k, hb, Option.map_some]

theorem KeepsBest.unrivalled (hkeep : r.KeepsBest t p peerAs nlri attrs) (hrep : r.Repeats p peerAs nlri attrs)
    (hk : k ∈ nlri.map .ofPrefix) {q : SocketAddr} {s : Route} (hs : r.route q k = some s) (hq : q ≠ b.peerAddr)
    (hm : s.merit = b.merit) :
    b.peerAddr ≠ p ∧ if q = p then b.receivedAt < t else s.receivedAt ≠ b.receivedAt := by
  obtain ⟨c, hc, hmerit, hdate⟩ := exists_best hr hb
  have hp : b.peerAddr ≠ p := by
    intro hp
    obtain ⟨h, r', hren, hlt⟩ := hkeep.rank_lt hr hb hrep hk hq (le_max_left t s.receivedAt)
    obtain ⟨old, new, hold, hnew, hsame, hlate⟩ := hren.own k hk
    obtain rfl : c = old := Option.some.inj (hc.symm.trans (hp ▸ hold))
    have hs' : r'.route q k = some s := (hren.others q k (hp ▸ hq)).trans hs
    refine Route.not_rank_lt ?_ ?_ (hlt s new hs' (hp ▸ hnew))
    · rw [hsame, hmerit, hm]
    · rw [hlate]
      exact le_max_right t s.receivedAt
  refine ⟨hp, ?_⟩
  split_ifs with hqp
  · subst hqp
    by_contra hage
    obtain ⟨h, r', hren, hlt⟩ := hkeep.rank_lt hr hb hrep hk hq (not_lt.mp hage)
    obtain ⟨old, new, hold, hnew, hsame, hlate⟩ := hren.own k hk
    obtain rfl := Option.some.inj (hs.symm.trans hold)
    refine Route.not_rank_lt ?_ ?_ (hlt new c hnew ((hren.others _ k hp).trans hc))
    · rw [hsame, hmerit, hm]
    · rw [hlate, hdate]
  · intro hage
    obtain ⟨h, r', hren, hlt⟩ := hkeep.rank_lt hr hb hrep hk hq (le_refl t)
    refine Route.not_rank_lt ?_ ?_ (hlt s c ((hren.others q k hqp).trans hs) ((hren.others _ k hp).trans hc))
    · rw [hmerit, hm]
    · rw [hdate, hage]

end Repeated

/-- In a tie the oldest route wins, and a repeated announcement makes its route the youngest. -/
theorem run_keepsBest_iff (hr : (start config rpki).run calls = some r) (hrep : r.Repeats p peerAs nlri attrs)
    (t : Instant) : r.KeepsBest t p peerAs nlri attrs ↔ ∀ k ∈ nlri.map .ofPrefix, r.Unrivalled t p k := by
  constructor
  · intro hkeep k hk b q s hb hs hq hm
    exact hkeep.unrivalled hr hb hrep hk hs hq hm
  · intro hun h hmono ht
    obtain ⟨r', hu⟩ := exists_repeated (h := h) (run_labelled hr) hrep
    have hren : r.Renewed h p (nlri.map .ofPrefix) (t ≤ ·) r' :=
      renewed_of_repeats hr hrep hu fun n => ht.trans (hmono (Nat.zero_le n))
    refine ⟨r', hu, ?_⟩
    intro k
    by_cases hk : k ∈ nlri.map .ofPrefix
    · obtain ⟨s, -, hs, -⟩ := hren.own k hk
      obtain ⟨b, hb⟩ := Option.isSome_iff_exists.mp ((run_decided hr k).isSome_iff.mpr ⟨p, by rw [hs]; rfl⟩)
      rw [hren.decided k hk, hb, Option.map_some]
      exact renewed_best hr hb hren hk (hun k hk)
    · rw [hren.kept k hk]

theorem repeats_singleton {q : Prefix}
    (hs : (r.route p (.ofPrefix q)).map (fun s => (s.stale, s.attrs, s.peerAs)) = some (false, attrs, peerAs)) :
    r.Repeats p peerAs [q] attrs := by
  obtain ⟨s, hroute, hsays⟩ := Option.map_eq_some_iff.mp hs
  obtain ⟨hstale, hsays⟩ := Prod.mk.inj hsays
  obtain ⟨hattrs, has⟩ := Prod.mk.inj hsays
  intro x hx
  obtain rfl := List.mem_singleton.mp hx
  exact ⟨s, hroute, hstale, hattrs, has⟩

def lateHost : Host := { sampleHost with clock := fun n => 10 + n }

theorem run_keepsBest_iff_sample :
    ∃ r, (start {} {}).run (sampleCalls .listed) = some r ∧ r.Repeats (samplePeer 2) 65002 [samplePrefix] {} ∧
      (r.KeepsBest 10 (samplePeer 2) 65002 [samplePrefix] {} ↔
        ∀ k ∈ [samplePrefix].map .ofPrefix, r.Unrivalled 10 (samplePeer 2) k) := by
  have hrun : ((start {} {}).run (sampleCalls .listed)).map (fun r =>
      (r.route (samplePeer 2) (.ofPrefix samplePrefix)).map fun s => (s.stale, s.attrs, s.peerAs)) =
      some (some (false, {}, 65002)) := by decide +kernel
  obtain ⟨r, hr, hs⟩ := Option.map_eq_some_iff.mp hrun
  have hrep := repeats_singleton hs
  exact ⟨r, hr, hrep, run_keepsBest_iff hr hrep 10⟩

theorem repeated_announcement_moves :
    ∃ r r', (start {} {}).run (sampleCalls .listed) = some r ∧ r.Repeats (samplePeer 1) 65001 [samplePrefix] {} ∧
      r.processUpdate lateHost (samplePeer 1) 65001 [samplePrefix] {} [] = some r' ∧
      (r.locRib.lookup (.ofPrefix samplePrefix)).map Route.peerAddr = some (samplePeer 1) ∧
      (r'.locRib.lookup (.ofPrefix samplePrefix)).map Route.peerAddr = some (samplePeer 2) ∧
      ¬ r.KeepsBest 10 (samplePeer 1) 65001 [samplePrefix] {} := by
  have hrun : ((start {} {}).run (sampleCalls .listed)).bind (fun r =>
      (r.processUpdate lateHost (samplePeer 1) 65001 [samplePrefix] {} []).map fun r' =>
        ((r.route (samplePeer 1) (.ofPrefix samplePrefix)).map fun s => (s.stale, s.attrs, s.peerAs),
          (r.locRib.lookup (.ofPrefix samplePrefix)).map Route.peerAddr,
          (r'.locRib.lookup (.ofPrefix samplePrefix)).map Route.peerAddr)) =
      some (some (false, {}, 65001), some (samplePeer 1), some (samplePeer 2)) := by decide +kernel
  obtain ⟨r, hr, hrun⟩ := Option.bind_eq_some_iff.mp hrun
  obtain ⟨r', hr', hbest⟩ := Option.map_eq_some_iff.mp hrun
  obtain ⟨hs, hbest⟩ := Prod.mk.inj hbest
  obtain ⟨hold, hnew⟩ := Prod.mk.inj hbest
  refine ⟨r, r', hr, repeats_singleton hs, hr', hold, hnew, ?_⟩
  intro hkeep
  obtain ⟨r₁, hr₁, hpeer⟩ := hkeep lateHost (fun a b hab => Nat.add_le_add_left hab 10) (le_refl 10)
  obtain rfl := Option.some.inj (hr'.symm.trans hr₁)
  have hmoved := hpeer (.ofPrefix samplePrefix)
  rw [hold, hnew, Option.some.injEq] at hmoved
  revert hmoved
  decide

end Rib

end PathForge.Routing
