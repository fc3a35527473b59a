import PathForge.DecisionProcess

namespace PathForge.Routing

open Tables Selection Wire Fallible

namespace Intake

theorem withdraw_adjIn (d : Decay) (peer : SocketAddr) (withdrawn : List Prefix) (s : Intake) :
    (withdrawn.foldl (withdraw d peer) s).adjIn = s.adjIn ∧
      (withdrawn.foldl (withdraw d peer) s).affected = s.affected := by
  induction withdrawn generalizing s with
  | nil => exact ⟨rfl, rfl⟩
  | cons p withdrawn ih => exact ih (s.withdraw d peer p)

theorem announce_cases {d : Decay} {rpki : RpkiValidator} {peer : SocketAddr} {peerAs : UInt32}
    {attrs : PathAttributes} {s s' : Intake} {p : Prefix} (h : s.announce d rpki peer peerAs attrs p = some s') :
    (s'.adjIn = s.adjIn ∧ s'.affected = s.affected) ∨
      ∃ t rov, rpki.validate p.address p.prefixLen peerAs = some rov ∧ rpki.shouldReject rov = false ∧
        s'.adjIn = s.adjIn.insert (.ofPrefix p) ⟨p, attrs, peer, peerAs, t, false, rov⟩ ∧
        s'.affected = s.affected ++ [.ofPrefix p] := by
  simp only [announce] at h
  obtain ⟨rov, hrov, hs⟩ := Option.bind_eq_some_iff.mp h
  split_ifs at hs with hc
  · obtain rfl := Option.some.inj hs
    exact .inl ⟨rfl, rfl⟩
  · obtain rfl := Option.some.inj hs
    rw [Bool.or_eq_true, not_or, Bool.not_eq_true, Bool.not_eq_true] at hc
    exact .inr ⟨_, rov, hrov, hc.2, rfl, rfl⟩

theorem announce_disabled {d : Decay} {rpki : RpkiValidator} {peer : SocketAddr} {peerAs : UInt32}
    {attrs : PathAttributes} (hm : rpki.mode = .disabled) (s : Intake) (p : Prefix) :
    ∃ s', s.announce d rpki peer peerAs attrs p = some s' := by
  have hv : rpki.validate p.address p.prefixLen peerAs = some .notFound := if_pos hm
  simp only [announce, hv, Option.bind_eq_bind, Option.bind_some]
  rcases StateT.run (s.dampening.checkAdvertisement d peer (.ofPrefix p)) s.clock with ⟨⟨suppressed, table⟩, clock⟩
  by_cases hc : (suppressed || rpki.shouldReject .notFound) = true
  · exact ⟨_, if_pos hc⟩
  · exact ⟨_, if_neg hc⟩

def Within (adj : AdjRibIn) (s : Intake) : Prop := ∀ k ∉ s.affected, s.adjIn.lookup k = adj.lookup k

theorem Within.announce {d : Decay} {rpki : RpkiValidator} {peer : SocketAddr} {peerAs : UInt32}
    {attrs : PathAttributes} {adj : AdjRibIn} {s s' : Intake} {p : Prefix} (hs : s.Within adj)
    (h : s.announce d rpki peer peerAs attrs p = some s') : s'.Within adj := by
  intro k hk
  rcases announce_cases h with ⟨ha, hf⟩ | ⟨t, rov, -, -, ha, hf⟩
  · rw [ha]
    exact hs k (hf ▸ hk)
  · rw [hf, List.mem_append, not_or, List.mem_singleton] at hk
    rw [ha, AList.lookup_insert_ne hk.2]
    exact hs k hk.1

end Intake

namespace Rib

def intake (h : Host) (r : Rib) (peer : SocketAddr) (peerAs : UInt32) (nlri : List Prefix)
    (attrs : PathAttributes) (withdrawn : List Prefix) : Option Intake :=
  nlri.foldlM (Intake.announce h.decayed r.rpki peer peerAs attrs)
    (withdrawn.foldl (Intake.withdraw h.decayed peer) ⟨h.clock, r.dampening, (r.adjRibIn.lookup peer).getD ∅, []⟩)

def change (h : Host) (r : Rib) : RibOp → Option (Rib × List PrefixKey)
  | .processUpdate peer peerAs nlri attrs withdrawn =>
    (r.intake h peer peerAs nlri attrs withdrawn).map fun s =>
      let keys := withdrawn.map PrefixKey.ofPrefix
      ({ r with adjRibIn := r.adjRibIn.insert peer (HashMap.eraseAll s.adjIn keys), dampening := s.dampening },
        s.affected ++ keys)
  | .removePeer peer =>
    some ({ r with adjRibIn := r.adjRibIn.erase peer, dampening := r.dampening.removePeer peer },
      ((r.adjRibIn.lookup peer).map fun adj => HashMap.keysBy adj h.keys).getD [])
  | .markPeerStale peer => some (r.markPeerStale peer, [])
  | .removeStaleForPeer peer =>
    some ({ r with adjRibIn := match r.adjRibIn.lookup peer with
            | some adj =>
              let adj := HashMap.eraseAll adj (r.staleKeys h peer)
              if adj.keys = [] then r.adjRibIn.erase peer else r.adjRibIn.insert peer adj
            | none => r.adjRibIn },
      r.staleKeys h peer)

theorem runDecisions_dampening (h : Host) (r : Rib) (keys : List PrefixKey) (d : DampeningTable) :
    ({ r with dampening := d } : Rib).runDecisions h keys = { r.runDecisions h keys with dampening := d } := by
  induction keys generalizing r with
  | nil => rfl
  | cons key keys ih =>
    have hstep : ({ r with dampening := d } : Rib).runDecisionProcess h key =
        { r.runDecisionProcess h key with dampening := d } := by
      have hb : first Route.cmp (({ r with dampening := d } : Rib).candidates h key) =
        first Route.cmp (r.candidates h key) := rfl
      unfold runDecisionProcess
      rw [hb]
      split <;> rfl
    simp only [runDecisions, List.foldl_cons] at ih ⊢
    rw [hstep]
    exact ih _

theorem apply_eq (h : Host) (r : Rib) (op : RibOp) :
    r.apply h op = (r.change h op).map fun c => c.1.runDecisions h c.2 := by
  cases op with
  | processUpdate peer peerAs nlri attrs withdrawn =>
    change (r.intake h peer peerAs nlri attrs withdrawn).bind _ = _
    rw [change]
    cases r.intake h peer peerAs nlri attrs withdrawn <;> rfl
  | removePeer peer =>
    simp only [apply, removePeer, change, Option.map_some, (runDecisions_sameTables h _ _).dampening]
    exact congrArg some (runDecisions_dampening h { r with adjRibIn := r.adjRibIn.erase peer } _ _).symm
  | markPeerStale peer => rfl
  | removeStaleForPeer peer => rfl

theorem exists_change {h : Host} {r r' : Rib} {op : RibOp} (ha : r.apply h op = some r') :
    ∃ c keys, r.change h op = some (c, keys) ∧ c.runDecisions h keys = r' := by
  rw [apply_eq] at ha
  obtain ⟨⟨c, keys⟩, hc, hr⟩ := Option.map_eq_some_iff.mp ha
  exact ⟨c, keys, hc, hr⟩

theorem exists_intake {h : Host} {r c : Rib} {peer : SocketAddr} {peerAs : UInt32} {nlri withdrawn : List Prefix}
    {attrs : PathAttributes} {keys : List PrefixKey}
    (hc : r.change h (.processUpdate peer peerAs nlri attrs withdrawn) = some (c, keys)) :
    ∃ s, r.intake h peer peerAs nlri attrs withdrawn = some s ∧
      { r with
        adjRibIn := r.adjRibIn.insert peer (HashMap.eraseAll s.adjIn (withdrawn.map PrefixKey.ofPrefix)),
        dampening := s.dampening } = c ∧ s.affected ++ withdrawn.map PrefixKey.ofPrefix = keys := by
  obtain ⟨s, hs, hr⟩ := Option.map_eq_some_iff.mp hc
  obtain ⟨hr, hk⟩ := Prod.mk.inj hr
  exact ⟨s, hs, hr, hk⟩

theorem exists_processed {h : Host} {r r' : Rib} {peer : SocketAddr} {peerAs : UInt32}
    {nlri withdrawn : List Prefix} {attrs : PathAttributes}
    (hr : r.processUpdate h peer peerAs nlri attrs withdrawn = some r') :
    ∃ s, r.intake h peer peerAs nlri attrs withdrawn = some s ∧
      ({ r with
         adjRibIn := r.adjRibIn.insert peer (HashMap.eraseAll s.adjIn (withdrawn.map PrefixKey.ofPrefix)),
         dampening := s.dampening } : Rib).runDecisions h
        (s.affected ++ withdrawn.map PrefixKey.ofPrefix) = r' := by
  have ha : r.apply h (.processUpdate peer peerAs nlri attrs withdrawn) = some r' := hr
  obtain ⟨c, keys, hc, hr'⟩ := exists_change ha
  obtain ⟨s, hs, rfl, rfl⟩ := exists_intake hc
  exact ⟨s, hs, hr'⟩

structure Changed (r r' : Rib) (keys : List PrefixKey) : Prop where
  locRib : r'.locRib = r.locRib
  rpki : r'.rpki = r.rpki
  routes : ∀ k ∉ keys, ∀ peer, (r'.route peer k).map Route.fresh = (r.route peer k).map Route.fresh

theorem route_insert (r : Rib) (adj : AdjRibIn) (peer p : SocketAddr) (k : PrefixKey) :
    ({ r with adjRibIn := r.adjRibIn.insert peer adj } : Rib).route p k =
      if p = peer then adj.lookup k else r.route p k := by
  simp only [route, HashMap.lookup_insert]
  split_ifs <;> rfl

theorem route_erase (r : Rib) (peer p : SocketAddr) (k : PrefixKey) :
    ({ r with adjRibIn := r.adjRibIn.erase peer } : Rib).route p k = if p = peer then none else r.route p k := by
  simp only [route, HashMap.lookup_erase]
  split_ifs <;> rfl

theorem route_eq_of_lookup {r : Rib} {peer : SocketAddr} {adj : AdjRibIn} (h : r.adjRibIn.lookup peer = some adj)
    (k : PrefixKey) : r.route peer k = adj.lookup k := by rw [route, h, Option.bind_some]

section Update

variable {h : Host} {r : Rib} {peer : SocketAddr} {peerAs : UInt32} {nlri withdrawn : List Prefix}
  {attrs : PathAttributes} {s : Intake}

theorem lookup_adjIn (r : Rib) (peer : SocketAddr) (k : PrefixKey) :
    ((r.adjRibIn.lookup peer).getD ∅).lookup k = r.route peer k := by
  rw [route]
  cases r.adjRibIn.lookup peer <;> rfl

theorem intake_within (hs : r.intake h peer peerAs nlri attrs withdrawn = some s) :
    s.Within ((r.adjRibIn.lookup peer).getD ∅) := by
  apply foldlM_invariant (I := Intake.Within _) (fun _ _ _ h => h.announce) _ hs
  intro k _
  rw [(Intake.withdraw_adjIn _ _ _ _).1]

theorem route_processUpdate (r : Rib) (peer p : SocketAddr) (s : Intake) (withdrawn : List PrefixKey)
    (k : PrefixKey) :
    ({ r with adjRibIn := r.adjRibIn.insert peer (HashMap.eraseAll s.adjIn withdrawn),
              dampening := s.dampening } : Rib).route p k =
      if p = peer then if k ∈ withdrawn then none else s.adjIn.lookup k else r.route p k := by
  refine (route_insert { r with dampening := s.dampening } _ peer p k).trans ?_
  rw [HashMap.lookup_eraseAll]
  rfl

theorem route_processUpdate_of_notMem (hs : r.intake h peer peerAs nlri attrs withdrawn = some s) {k : PrefixKey}
    (hk : k ∉ s.affected ++ withdrawn.map PrefixKey.ofPrefix) (p : SocketAddr) :
    ({ r with adjRibIn := r.adjRibIn.insert peer (HashMap.eraseAll s.adjIn (withdrawn.map PrefixKey.ofPrefix)),
              dampening := s.dampening } : Rib).route p k = r.route p k := by
  rw [List.mem_append, not_or] at hk
  rw [route_processUpdate, if_neg hk.2]
  split_ifs with hp
  · rw [intake_within hs k hk.1, hp, lookup_adjIn]
  · rfl

theorem change_processUpdate (hs : r.intake h peer peerAs nlri attrs withdrawn = some s) :
    Changed r { r with
        adjRibIn := r.adjRibIn.insert peer (HashMap.eraseAll s.adjIn (withdrawn.map PrefixKey.ofPrefix)),
        dampening := s.dampening } (s.affected ++ withdrawn.map PrefixKey.ofPrefix) := by
  refine ⟨rfl, rfl, ?_⟩
  intro k hk p
  rw [route_processUpdate_of_notMem hs hk]

end Update

theorem route_removePeer_of_notMem {h : Host} {r : Rib} {peer : SocketAddr} {k : PrefixKey}
    (hk : k ∉ ((r.adjRibIn.lookup peer).map fun adj => HashMap.keysBy adj h.keys).getD []) (p : SocketAddr) :
    ({ r with adjRibIn := r.adjRibIn.erase peer, dampening := r.dampening.removePeer peer } : Rib).route p k =
      r.route p k := by
  refine (route_erase { r with dampening := r.dampening.removePeer peer } peer p k).trans ?_
  split_ifs with hp
  · subst hp
    rcases ha : r.adjRibIn.lookup p with _ | adj
    · rw [route, ha]
      rfl
    · rw [ha, Option.map_some, Option.getD_some, HashMap.mem_keysBy, Bool.not_eq_true, Option.isSome_eq_false_iff,
        Option.isNone_iff_eq_none] at hk
      rw [route_eq_of_lookup ha, hk]
  · rfl

theorem change_removePeer (h : Host) (r : Rib) (peer : SocketAddr) :
    Changed r { r with adjRibIn := r.adjRibIn.erase peer, dampening := r.dampening.removePeer peer }
      (((r.adjRibIn.lookup peer).map fun adj => HashMap.keysBy adj h.keys).getD []) := by
  refine ⟨rfl, rfl, ?_⟩
  intro k hk p
  rw [route_removePeer_of_notMem hk]

theorem dampening_markPeerStale (r : Rib) (peer : SocketAddr) :
    (r.markPeerStale peer).dampening = r.dampening := by
  unfold markPeerStale
  split <;> rfl

theorem route_markPeerStale (r : Rib) (peer p : SocketAddr) (k : PrefixKey) :
    (r.markPeerStale peer).route p k =
      if p = peer then (r.route p k).map fun route => { route with stale := true } else r.route p k := by
  unfold markPeerStale
  rcases ha : r.adjRibIn.lookup peer with _ | adj
  · split_ifs with hp
    · rw [hp, route, ha]
      rfl
    · rfl
  · simp only
    rw [route_insert]
    split_ifs with hp
    · rw [HashMap.lookup_mapValues, hp, route_eq_of_lookup ha]
    · rfl

theorem change_markPeerStale (r : Rib) (peer : SocketAddr) : Changed r (r.markPeerStale peer) [] := by
  have hsame : (r.markPeerStale peer).locRib = r.locRib ∧ (r.markPeerStale peer).rpki = r.rpki := by
    unfold markPeerStale
    split <;> exact ⟨rfl, rfl⟩
  refine ⟨hsame.1, hsame.2, ?_⟩
  intro k _ p
  rw [route_markPeerStale]
  split_ifs with hp
  · rw [Option.map_map]
    rfl
  · rfl

theorem route_removeStale (h : Host) (r : Rib) (peer p : SocketAddr) (k : PrefixKey) :
    ({ r with adjRibIn := match r.adjRibIn.lookup peer with
              | some adj =>
                let adj := HashMap.eraseAll adj (r.staleKeys h peer)
                if adj.keys = [] then r.adjRibIn.erase peer else r.adjRibIn.insert peer adj
              | none => r.adjRibIn } : Rib).route p k =
      if p = peer ∧ k ∈ r.staleKeys h peer then none else r.route p k := by
  rcases ha : r.adjRibIn.lookup peer with _ | adj
  · rw [staleKeys, ha, if_neg (by simp)]
  · have hl : (HashMap.eraseAll adj (r.staleKeys h peer)).lookup k =
        if k ∈ r.staleKeys h peer then none else r.route peer k := by
      rw [HashMap.lookup_eraseAll, route_eq_of_lookup ha]
    by_cases hp : p = peer
    · subst hp
      simp only [true_and]
      rw [← hl]
      split_ifs with he
      · rw [route_erase, if_pos rfl, eq_comm, AList.lookup_eq_none, AList.mem_keys, he]
        exact List.not_mem_nil
      · rw [route_insert, if_pos rfl]
    · simp only [hp, false_and, if_false]
      split_ifs with he
      · rw [route_erase, if_neg hp]
      · rw [route_insert, if_neg hp]

theorem change_removeStaleForPeer (h : Host) (r : Rib) (peer : SocketAddr) :
    Changed r { r with adjRibIn := match r.adjRibIn.lookup peer with
                | some adj =>
                  let adj := HashMap.eraseAll adj (r.staleKeys h peer)
                  if adj.keys = [] then r.adjRibIn.erase peer else r.adjRibIn.insert peer adj
                | none => r.adjRibIn } (r.staleKeys h peer) := by
  refine ⟨rfl, rfl, ?_⟩
  intro k hk p
  rw [route_removeStale, if_neg fun hc => hk hc.2]

theorem change_changed {h : Host} {r r' : Rib} {op : RibOp} {keys : List PrefixKey}
    (hc : r.change h op = some (r', keys)) : Changed r r' keys := by
  cases op with
  | processUpdate peer peerAs nlri attrs withdrawn =>
    obtain ⟨s, hs, rfl, rfl⟩ := exists_intake hc
    exact change_processUpdate hs
  | removePeer peer =>
    obtain ⟨rfl, rfl⟩ := Prod.mk.inj (Option.some.inj hc)
    exact change_removePeer h r peer
  | markPeerStale peer =>
    obtain ⟨rfl, rfl⟩ := Prod.mk.inj (Option.some.inj hc)
    exact change_markPeerStale r peer
  | removeStaleForPeer peer =>
    obtain ⟨rfl, rfl⟩ := Prod.mk.inj (Option.some.inj hc)
    exact change_removeStaleForPeer h r peer

theorem change_lookup_of_ne {h : Host} {r r' : Rib} {op : RibOp} {keys : List PrefixKey} {p : SocketAddr}
    (hp : p ≠ op.peer) (hc : r.change h op = some (r', keys)) : r'.adjRibIn.lookup p = r.adjRibIn.lookup p := by
  cases op with
  | processUpdate peer peerAs nlri attrs withdrawn =>
    obtain ⟨s, hs, rfl, rfl⟩ := exists_intake hc
    exact AList.lookup_insert_ne hp
  | removePeer peer =>
    obtain ⟨rfl, rfl⟩ := Prod.mk.inj (Option.some.inj hc)
    exact AList.lookup_erase_ne hp
  | markPeerStale peer =>
    obtain ⟨rfl, rfl⟩ := Prod.mk.inj (Option.some.inj hc)
    unfold markPeerStale
    split
    · exact AList.lookup_insert_ne hp
    · rfl
  | removeStaleForPeer peer =>
    obtain ⟨rfl, rfl⟩ := Prod.mk.inj (Option.some.inj hc)
    simp only
    split
    · split_ifs
      · exact AList.lookup_erase_ne hp
      · exact AList.lookup_insert_ne hp
    · rfl

theorem apply_route_of_ne {h : Host} {r r' : Rib} {op : RibOp} {p : SocketAddr} (hp : p ≠ op.peer)
    (ha : r.apply h op = some r') (k : PrefixKey) : r'.route p k = r.route p k := by
  obtain ⟨c, keys, hc, rfl⟩ := exists_change ha
  rw [(runDecisions_sameTables h c keys).route_eq, route, change_lookup_of_ne hp hc, ← route]

theorem route_removePeer (h : Host) (r : Rib) (peer : SocketAddr) (k : PrefixKey) :
    (r.removePeer h peer).2.route peer k = none := by
  have ha : r.apply h (.removePeer peer) = some (r.removePeer h peer).2 := rfl
  rw [apply_eq, change, Option.map_some, Option.some.injEq] at ha
  rw [← ha, (runDecisions_sameTables h _ _).route_eq, route, AList.lookup_erase, Option.bind_none]

theorem run_append {r r' : Rib} {calls calls' : List (Host × RibOp)} (h : r.run calls = some r') :
    r.run (calls ++ calls') = r'.run calls' := by
  rw [run, List.foldlM_append, ← run, h]
  rfl

theorem exists_apply {r : Rib} (hm : r.rpki.mode = .disabled) (h : Host) (op : RibOp) :
    ∃ r', r.apply h op = some r' := by
  rw [apply_eq]
  suffices hc : ∃ c, r.change h op = some c by
    obtain ⟨c, hc⟩ := hc
    exact ⟨_, by rw [hc, Option.map_some]⟩
  cases op with
  | processUpdate peer peerAs nlri attrs withdrawn =>
    obtain ⟨s, hs, -⟩ := exists_foldlM (I := fun _ => True)
      (fun s p _ => (Intake.announce_disabled hm s p).imp fun s' hs' => ⟨hs', trivial⟩) nlri trivial
    exact ⟨_, Option.map_eq_some_iff.mpr ⟨s, hs, rfl⟩⟩
  | removePeer peer => exact ⟨_, rfl⟩
  | markPeerStale peer => exact ⟨_, rfl⟩
  | removeStaleForPeer peer => exact ⟨_, rfl⟩

theorem apply_rpki {h : Host} {r r' : Rib} {op : RibOp} (ha : r.apply h op = some r') : r'.rpki = r.rpki := by
  obtain ⟨c, keys, hc, rfl⟩ := exists_change ha
  exact (runDecisions_sameTables h c keys).rpki.trans (change_changed hc).rpki

theorem run_rpki {r r' : Rib} {calls : List (Host × RibOp)} (hr : r.run calls = some r') : r'.rpki = r.rpki :=
  foldlM_invariant (I := fun u : Rib => u.rpki = r.rpki) (fun _ _ _ hu ha => (apply_rpki ha).trans hu) rfl hr

end Rib

end PathForge.Routing
