import PathForge.PeerViews

namespace PathForge.Routing

open Tables Selection Wire Fallible

namespace Intake

variable {d : Decay} {rpki : RpkiValidator} {peer : SocketAddr} {peerAs : UInt32} {attrs : PathAttributes}
  {s t : Intake} {p : Prefix}

structure Installed (rpki : RpkiValidator) (peer : SocketAddr) (peerAs : UInt32) (attrs : PathAttributes)
    (k : PrefixKey) (route : Route) : Prop where
  key : .ofPrefix route.pfx = k
  attrs : route.attrs = attrs
  peerAddr : route.peerAddr = peer
  peerAs : route.peerAs = peerAs
  stale : route.stale = false
  accepted : rpki.shouldReject route.rovState = false

def Writes (rpki : RpkiValidator) (peer : SocketAddr) (peerAs : UInt32) (attrs : PathAttributes)
    (s : Intake) : Prop :=
  ∀ k ∈ s.affected, ∃ route, s.adjIn.lookup k = some route ∧ Installed rpki peer peerAs attrs k route

theorem Writes.announce (hs : s.Writes rpki peer peerAs attrs)
    (ht : s.announce d rpki peer peerAs attrs p = some t) :
    t.Writes rpki peer peerAs attrs := by
  intro k hk
  rcases announce_cases ht with ⟨ha, hf⟩ | ⟨now, rov, -, hrov, ha, hf⟩
  · rw [ha]
    exact hs k (hf ▸ hk)
  · rw [ha, HashMap.lookup_insert]
    split_ifs with he
    · exact ⟨_, rfl, he.symm, rfl, rfl, rfl, rfl, hrov⟩
    · rw [hf, List.mem_append, List.mem_singleton] at hk
      exact hs k (hk.resolve_right he)

section Flags

theorem check_flag (d : Decay) (peer : SocketAddr) (s : Intake) (key : PrefixKey) :
    (s.check d peer key).2.dampening.isSuppressed peer key = (s.check d peer key).1 := by
  unfold check
  split
  · rename_i hl
    rw [DampeningTable.isSuppressed, hl]
    rfl
  · rw [DampeningTable.isSuppressed_set, if_pos rfl]

theorem isSuppressed_of_check {key k : PrefixKey}
    (h : (s.check d peer key).2.dampening.isSuppressed peer k = true) :
    s.dampening.isSuppressed peer k = true := by
  unfold check at h
  split at h
  · exact h
  · rename_i e hl
    rw [DampeningTable.isSuppressed_set] at h
    split_ifs at h with he
    · obtain ⟨-, rfl⟩ := Prod.mk.inj he
      rw [DampeningTable.isSuppressed, hl]
      exact PrefixDampening.review_suppressed h
    · exact h

theorem isSuppressed_of_announce {k : PrefixKey} (ht : s.announce d rpki peer peerAs attrs p = some t)
    (hf : t.dampening.isSuppressed peer k = true) : s.dampening.isSuppressed peer k = true := by
  rw [announce_eq] at ht
  obtain ⟨rov, -, rfl⟩ := Option.map_eq_some_iff.mp ht
  have hcheck : (s.check d peer (.ofPrefix p)).2.dampening.isSuppressed peer k = true := by
    simp only at hf
    split_ifs at hf
    · exact hf
    · exact hf
  exact isSuppressed_of_check hcheck

theorem isSuppressed_withdraw {k : PrefixKey} (hk : k ≠ .ofPrefix p) :
    (s.withdraw d peer p).dampening.isSuppressed peer k = s.dampening.isSuppressed peer k := by
  rw [withdraw_eq]
  simp only [DampeningTable.isSuppressed_set]
  rw [if_neg (by simp [hk])]

theorem isSuppressed_foldl_withdraw {k : PrefixKey} {l : List Prefix} (hk : k ∉ l.map .ofPrefix) :
    (l.foldl (Intake.withdraw d peer) s).dampening.isSuppressed peer k = s.dampening.isSuppressed peer k := by
  induction l generalizing s with
  | nil => rfl
  | cons p l ih =>
    rw [List.map_cons, List.mem_cons, not_or] at hk
    rw [List.foldl_cons, ih hk.2, isSuppressed_withdraw hk.1]

def Quiet (peer : SocketAddr) (withdrawn : List PrefixKey) (s : Intake) : Prop :=
  ∀ k ∉ withdrawn, s.dampening.isSuppressed peer k = true → s.adjIn.lookup k = none

variable {withdrawn : List PrefixKey}

theorem Quiet.withdraw (hs : s.Quiet peer withdrawn) (hp : .ofPrefix p ∈ withdrawn) :
    (s.withdraw d peer p).Quiet peer withdrawn := by
  intro k hk hf
  have hne : k ≠ .ofPrefix p := by
    rintro rfl
    exact hk hp
  rw [isSuppressed_withdraw hne] at hf
  exact hs k hk hf

theorem Quiet.foldl_withdraw {l : List Prefix} (hl : ∀ p ∈ l, .ofPrefix p ∈ withdrawn)
    (hs : s.Quiet peer withdrawn) :
    (l.foldl (Intake.withdraw d peer) s).Quiet peer withdrawn := by
  induction l generalizing s with
  | nil => exact hs
  | cons p l ih =>
    rw [List.forall_mem_cons] at hl
    exact ih hl.2 (hs.withdraw hl.1)

theorem Quiet.announce (hs : s.Quiet peer withdrawn) (ht : s.announce d rpki peer peerAs attrs p = some t) :
    t.Quiet peer withdrawn := by
  have hcheck := check_flag d peer s (.ofPrefix p)
  have hadj := (s.check_adjIn d peer (.ofPrefix p)).1
  intro k hk hf
  have hnone := hs k hk (isSuppressed_of_announce ht hf)
  rw [announce_eq] at ht
  obtain ⟨rov, -, rfl⟩ := Option.map_eq_some_iff.mp ht
  simp only at hf ⊢
  split_ifs at hf ⊢ with hc
  · rw [hadj, hnone]
  · have hflag : (s.check d peer (.ofPrefix p)).1 = false := by
      rw [Bool.or_eq_true, not_or, Bool.not_eq_true] at hc
      exact hc.1
    simp only [install] at hf ⊢
    have hne : k ≠ .ofPrefix p := by
      rintro rfl
      rw [hcheck, hflag] at hf
      cases hf
    rw [AList.lookup_insert_ne hne, hadj, hnone]

end Flags

end Intake

namespace Rib

variable {h : Host} {r c : Rib} {op : RibOp} {keys : List PrefixKey} {p : SocketAddr} {k : PrefixKey} {s : Route}

theorem intake_writes {peerAs : UInt32} {nlri withdrawn : List Prefix} {attrs : PathAttributes} {t : Intake}
    (ht : r.intake h p peerAs nlri attrs withdrawn = some t) : t.Writes r.rpki p peerAs attrs := by
  apply foldlM_invariant (I := Intake.Writes r.rpki p peerAs attrs) (fun _ _ _ hI ha => hI.announce ha) _ ht
  intro k hk
  rw [(Intake.withdraw_adjIn _ _ _ _).2] at hk
  cases hk

theorem change_route_cases (hc : r.change h op = some (c, keys)) (hs : c.route p k = some s) :
    (∃ s₀, r.route p k = some s₀ ∧ s.fresh = s₀.fresh) ∨
      ∃ peerAs nlri attrs withdrawn, op = .processUpdate p peerAs nlri attrs withdrawn ∧
        Intake.Installed r.rpki p peerAs attrs k s := by
  cases op with
  | processUpdate peer peerAs nlri attrs withdrawn =>
    obtain ⟨t, ht, rfl, rfl⟩ := exists_intake hc
    rw [route_processUpdate] at hs
    split_ifs at hs with hp
    · subst hp
      by_cases hk : k ∈ t.affected
      · obtain ⟨route, hroute, hi⟩ := intake_writes ht k hk
        obtain rfl := Option.some.inj (hs.symm.trans hroute)
        exact .inr ⟨peerAs, nlri, attrs, withdrawn, rfl, hi⟩
      · rw [intake_within ht k hk, lookup_adjIn] at hs
        exact .inl ⟨s, hs, rfl⟩
    · exact .inl ⟨s, hs, rfl⟩
  | removePeer peer =>
    obtain ⟨rfl, rfl⟩ := Prod.mk.inj (Option.some.inj hc)
    have he := (route_erase { r with dampening := r.dampening.removePeer peer } peer p k).symm.trans hs
    split_ifs at he
    exact .inl ⟨s, he, rfl⟩
  | markPeerStale peer =>
    obtain ⟨rfl, rfl⟩ := Prod.mk.inj (Option.some.inj hc)
    rw [route_markPeerStale] at hs
    split_ifs at hs
    · obtain ⟨s₀, hs₀, rfl⟩ := Option.map_eq_some_iff.mp hs
      exact .inl ⟨s₀, hs₀, rfl⟩
    · exact .inl ⟨s, hs, rfl⟩
  | removeStaleForPeer peer =>
    obtain ⟨rfl, rfl⟩ := Prod.mk.inj (Option.some.inj hc)
    rw [route_removeStale] at hs
    split_ifs at hs
    exact .inl ⟨s, hs, rfl⟩

section Provenance

structure Proper (rpki : RpkiValidator) (p : SocketAddr) (k : PrefixKey) (s : Route) : Prop where
  key : .ofPrefix s.pfx = k
  peerAddr : s.peerAddr = p
  valid : rpki.mode = .strict → s.rovState ≠ .invalid

variable {rpki : RpkiValidator} {s' : Route}

theorem Proper.of_fresh (hp : Proper rpki p k s) (hf : s'.fresh = s.fresh) : Proper rpki p k s' := by
  obtain ⟨pfx, attrs, addr, as, time, stale, rov⟩ := s
  obtain ⟨pfx', attrs', addr', as', time', stale', rov'⟩ := s'
  simp only [Route.fresh, Route.mk.injEq, true_and] at hf
  obtain ⟨rfl, rfl, rfl, rfl, rfl, rfl⟩ := hf
  exact ⟨hp.key, hp.peerAddr, hp.valid⟩

theorem Proper.of_installed {peerAs : UInt32} {attrs : PathAttributes}
    (hi : Intake.Installed rpki p peerAs attrs k s) : Proper rpki p k s where
  key := hi.key
  peerAddr := hi.peerAddr
  valid := by
    intro hm hv
    have ha := hi.accepted
    rw [RpkiValidator.shouldReject, hm, hv] at ha
    cases ha

theorem apply_proper {r' : Rib} (hI : r.rpki = rpki ∧ ∀ p k s, r.route p k = some s → Proper rpki p k s)
    (ha : r.apply h op = some r') : r'.rpki = rpki ∧ ∀ p k s, r'.route p k = some s → Proper rpki p k s := by
  obtain ⟨hrpki, hI⟩ := hI
  refine ⟨(apply_rpki ha).trans hrpki, ?_⟩
  obtain ⟨c, keys, hc, rfl⟩ := exists_change ha
  intro p k s hs
  rw [(runDecisions_sameTables h c keys).route_eq] at hs
  rcases change_route_cases hc hs with ⟨s₀, hs₀, hf⟩ | ⟨peerAs, nlri, attrs, withdrawn, -, hi⟩
  · exact (hI p k s₀ hs₀).of_fresh hf
  · exact .of_installed (hrpki ▸ hi)

theorem proper_start (config : DampeningConfig) (rpki : RpkiValidator) :
    (start config rpki).rpki = rpki ∧ ∀ p k s, (start config rpki).route p k = some s → Proper rpki p k s := by
  refine ⟨rfl, ?_⟩
  intro p k s hs
  simp [start, route] at hs

theorem run_proper {config : DampeningConfig} {calls : List (Host × RibOp)}
    (hr : (start config rpki).run calls = some r) :
    r.rpki = rpki ∧ ∀ p k s, r.route p k = some s → Proper rpki p k s :=
  foldlM_invariant (I := fun r : Rib => r.rpki = rpki ∧ ∀ p k s, r.route p k = some s → Proper rpki p k s)
    (fun _ _ _ hI ha => apply_proper hI ha) (proper_start config rpki) hr

theorem run_provenance {config : DampeningConfig} {calls : List (Host × RibOp)}
    (hr : (start config rpki).run calls = some r) :
    (∀ p k s, r.route p k = some s →
      .ofPrefix s.pfx = k ∧ s.peerAddr = p ∧ (rpki.mode = .strict → s.rovState ≠ .invalid)) ∧
    ∀ k b, r.locRib.lookup k = some b →
      .ofPrefix b.pfx = k ∧ (r.route b.peerAddr k).isSome ∧ (rpki.mode = .strict → b.rovState ≠ .invalid) := by
  have hproper := (run_proper hr).2
  constructor
  · intro p k s hs
    have hp := hproper p k s hs
    exact ⟨hp.key, hp.peerAddr, hp.valid⟩
  · intro k b hb
    obtain ⟨p, s, hs, hf⟩ := (run_decided hr k).chosen b hb
    have hp := (hproper p k s hs).of_fresh hf
    refine ⟨hp.key, ?_, hp.valid⟩
    rw [hp.peerAddr, hs]
    rfl

def sampleRpki : RpkiValidator := ⟨.strict, [⟨.new 192 168 1 0, 24, 24, 65001⟩]⟩

theorem run_provenance_sample :
    ∃ r b, (start {} sampleRpki).run (sampleCalls .listed) = some r ∧
      r.locRib.lookup (.ofPrefix samplePrefix) = some b ∧
      (r.route b.peerAddr (.ofPrefix samplePrefix)).isSome ∧ b.rovState ≠ .invalid := by
  have hb : ((start {} sampleRpki).run (sampleCalls .listed)).map
      (fun r => (r.locRib.lookup (.ofPrefix samplePrefix)).isSome) = some true := by decide +kernel
  obtain ⟨r, hr, hb⟩ := Option.map_eq_some_iff.mp hb
  obtain ⟨b, hb⟩ := Option.isSome_iff_exists.mp hb
  obtain ⟨-, hroute, hvalid⟩ := (run_provenance hr).2 _ b hb
  exact ⟨r, b, hr, hb, hroute, hvalid rfl⟩

end Provenance

section Suppression

def Quiet (r : Rib) : Prop := ∀ p k, r.dampening.isSuppressed p k = true → r.route p k = none

theorem change_quiet (hq : r.Quiet) (hc : r.change h op = some (c, keys)) : c.Quiet := by
  intro p k hf
  by_cases hp : p = op.peer
  · subst hp
    cases op with
    | processUpdate peer peerAs nlri attrs withdrawn =>
      obtain ⟨t, ht, rfl, rfl⟩ := exists_intake hc
      have hquiet : t.Quiet peer (withdrawn.map .ofPrefix) := by
        apply foldlM_invariant (I := Intake.Quiet peer _) (fun _ _ _ hI ha => hI.announce ha) _ ht
        apply Intake.Quiet.foldl_withdraw (fun x hx => List.mem_map_of_mem hx)
        intro k _ hf
        rw [lookup_adjIn]
        exact hq peer k hf
      rw [route_processUpdate, RibOp.peer, if_pos rfl]
      split_ifs with hk
      · rfl
      · exact hquiet k hk hf
    | removePeer peer =>
      obtain ⟨rfl, rfl⟩ := Prod.mk.inj (Option.some.inj hc)
      exact (route_erase { r with dampening := r.dampening.removePeer peer } peer peer k).trans (if_pos rfl)
    | markPeerStale peer =>
      obtain ⟨rfl, rfl⟩ := Prod.mk.inj (Option.some.inj hc)
      rw [dampening_markPeerStale] at hf
      rw [route_markPeerStale, hq _ k hf]
      exact ite_self _
    | removeStaleForPeer peer =>
      obtain ⟨rfl, rfl⟩ := Prod.mk.inj (Option.some.inj hc)
      rw [route_removeStale, hq _ k hf]
      exact ite_self _
  · have hv := change_frame hc hp
    rw [DampeningTable.isSuppressed, ← hv.flaps] at hf
    rw [← hv.route_eq]
    exact hq p k hf

theorem quiet_start (config : DampeningConfig) (rpki : RpkiValidator) : (start config rpki).Quiet := by
  intro p k _
  rfl

theorem apply_quiet {r' : Rib} (hq : r.Quiet) (ha : r.apply h op = some r') : r'.Quiet := by
  obtain ⟨c, keys, hc, rfl⟩ := exists_change ha
  have hsame := runDecisions_sameTables h c keys
  intro p k hf
  rw [hsame.dampening] at hf
  rw [hsame.route_eq]
  exact change_quiet hq hc p k hf

theorem run_quiet {config : DampeningConfig} {rpki : RpkiValidator} {calls : List (Host × RibOp)}
    (hr : (start config rpki).run calls = some r) : r.Quiet :=
  foldlM_invariant (I := Quiet) (fun _ _ _ hq ha => apply_quiet hq ha) (quiet_start config rpki) hr

theorem run_suppressed {config : DampeningConfig} {rpki : RpkiValidator} {calls : List (Host × RibOp)}
    (hr : (start config rpki).run calls = some r) (hf : r.dampening.isSuppressed p k = true) :
    r.route p k = none ∧ ∀ b, r.locRib.lookup k = some b → b.peerAddr ≠ p := by
  have hnone := run_quiet hr p k hf
  refine ⟨hnone, ?_⟩
  rintro b hb rfl
  obtain ⟨q, s, hs, he⟩ := (run_decided hr k).chosen b hb
  have hp := ((run_proper hr).2 q k s hs).of_fresh he
  rw [hp.peerAddr, hs] at hnone
  cases hnone

def flappingCalls : List (Host × RibOp) :=
  [([samplePrefix], []), ([], [samplePrefix]), ([samplePrefix], [])].map fun u =>
    (sampleHost, .processUpdate (samplePeer 1) 65001 u.1 {} u.2)

theorem run_suppressed_sample :
    ∃ r, (start { suppressLimit := 500 } {}).run flappingCalls = some r ∧
      r.dampening.isSuppressed (samplePeer 1) (.ofPrefix samplePrefix) = true ∧
      r.route (samplePeer 1) (.ofPrefix samplePrefix) = none := by
  have hf : ((start { suppressLimit := 500 } {}).run flappingCalls).map
      (fun r => r.dampening.isSuppressed (samplePeer 1) (.ofPrefix samplePrefix)) = some true := by decide +kernel
  obtain ⟨r, hr, hf⟩ := Option.map_eq_some_iff.mp hf
  exact ⟨r, hr, hf, (run_suppressed hr hf).1⟩

end Suppression

end Rib

end PathForge.Routing
