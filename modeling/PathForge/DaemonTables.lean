import PathForge.DaemonSessions
import PathForge.StaleFlags
import PathForge.StaleSweep

namespace PathForge.Routing.Rib

open Tables Wire Fallible

variable {h : Host} {r r' c : Rib} {op : RibOp} {keys : List PrefixKey} {p : SocketAddr}
  {k : PrefixKey} {s : Route}

theorem change_route_kept_or_installed (hop : ∀ peer, op ≠ .markPeerStale peer)
    (hc : r.change h op = some (c, keys)) (hs : c.route p k = some s) :
    r.route p k = some s ∨ ∃ peerAs attrs, p = op.peer ∧ Intake.Installed r.rpki p peerAs attrs k s := by
  cases op with
  | processUpdate peer peerAs nlri attrs withdrawn =>
    obtain ⟨t, ht, rfl, rfl⟩ := exists_intake hc
    rw [route_processUpdate] at hs
    split_ifs at hs with hp
    · subst hp
      by_cases hk : k ∈ t.affected
      · obtain ⟨route, hroute, hi⟩ := intake_writes ht k hk
        obtain rfl := Option.some.inj (hs.symm.trans hroute)
        exact .inr ⟨peerAs, attrs, rfl, hi⟩
      · rw [intake_within ht k hk, lookup_adjIn] at hs
        exact .inl hs
    · exact .inl hs
  | removePeer peer =>
    obtain ⟨rfl, rfl⟩ := Prod.mk.inj (Option.some.inj hc)
    have he := (route_erase { r with dampening := r.dampening.removePeer peer } peer p k).symm.trans hs
    split_ifs at he
    exact .inl he
  | markPeerStale peer => exact absurd rfl (hop peer)
  | removeStaleForPeer peer =>
    obtain ⟨rfl, rfl⟩ := Prod.mk.inj (Option.some.inj hc)
    rw [route_removeStale] at hs
    split_ifs at hs
    exact .inl hs

structure Current (r : Rib) : Prop where
  rpki : r.rpki = {}
  proper : ∀ p k s, r.route p k = some s → Proper {} p k s
  stale : ∀ p k s, r.route p k = some s → s.stale = false
  synced : r.Synced

theorem current_new : new.Current where
  rpki := rfl
  proper := (proper_start {} {}).2
  stale := fun p k s hs => by simp [new, route] at hs
  synced := fun k b hb => by simp [new] at hb

theorem Current.apply (hI : r.Current) (hop : ∀ peer, op ≠ .markPeerStale peer) (ha : r.apply h op = some r') :
    r'.Current := by
  obtain ⟨hrpki, hproper⟩ := apply_proper ⟨hI.rpki, hI.proper⟩ ha
  refine ⟨hrpki, hproper, ?_, apply_synced hI.synced hop ha fun p k s hs => (hproper p k s hs).peerAddr⟩
  intro p k s hs
  obtain ⟨c, keys, hc, rfl⟩ := exists_change ha
  rw [(runDecisions_sameTables h c keys).route_eq] at hs
  rcases change_route_kept_or_installed hop hc hs with hold | ⟨peerAs, attrs, -, hi⟩
  · exact hI.stale p k s hold
  · exact hi.stale

theorem Current.staleKeys_eq_nil (hI : r.Current) (h : Host) (p : SocketAddr) : r.staleKeys h p = [] := by
  rw [List.eq_nil_iff_forall_not_mem]
  intro k hk
  obtain ⟨s, hs, hstale⟩ := mem_staleKeys.mp hk
  rw [hI.stale p k s hs] at hstale
  cases hstale

theorem Current.best_route (hI : r.Current) (hd : r.Decided k) {b : Route} (hb : r.locRib.lookup k = some b) :
    r.route b.peerAddr k = some b := by
  obtain ⟨p, s, hs, hf⟩ := hd.chosen b hb
  have hpeer : b.peerAddr = s.peerAddr := show b.fresh.peerAddr = s.fresh.peerAddr from congrArg Route.peerAddr hf
  have hsp : s.peerAddr = p := (hI.proper p k s hs).peerAddr
  have hmark := hI.synced k b hb
  rw [hpeer, hsp, hs, Option.map_some, Option.some.injEq] at hmark
  have hbs : b = s := by
    obtain ⟨pfx, attrs, addr, as, time, stale, rov⟩ := s
    obtain ⟨pfx', attrs', addr', as', time', stale', rov'⟩ := b
    simp only [Route.fresh, Route.mk.injEq, true_and] at hf
    obtain ⟨rfl, rfl, rfl, rfl, rfl, rfl⟩ := hf
    obtain rfl : stale = stale' := hmark
    rfl
  rw [hpeer, hsp, hs, hbs]

theorem Current.map_fresh (hI : r.Current) (hd : r.Decided k) :
    (r.locRib.lookup k).map Route.fresh = r.locRib.lookup k := by
  rcases hb : r.locRib.lookup k with _ | b
  · rfl
  · have hstale := hI.stale b.peerAddr k b (hI.best_route hd hb)
    rw [Option.map_some, Route.fresh, ← hstale]

end PathForge.Routing.Rib

namespace PathForge.Peering.Daemon

open Session Fallible Wire Routing

theorem current_foldl (actions : List Action) : (actions.foldl act {}).rib.Current := by
  induction actions using List.reverseRecOn with
  | nil => exact Rib.current_new
  | append_singleton actions a ih =>
    rw [List.foldl_append, List.foldl_cons, List.foldl_nil]
    cases a with
    | start addr config => exact ih
    | step j i =>
      rcases ht : (actions.foldl act {}).tasks[j]? with _ | t
      · rw [act_step_none ht]
        exact ih
      · rw [act_step_some ht]
        obtain ⟨calls, hrun, hcalls⟩ := step_ownCalls (s := (actions.foldl act {}).session t) (i := i)
          (running_foldl actions).reached.disabled
        refine foldlM_invariant_mem (I := Rib.Current) ?_ ih hrun
        exact fun r c hc r' hcur ha => hcur.apply (hcalls c hc).2 ha
    | purge n host =>
      rw [(running_foldl actions).act_purge n host]
      exact ih

theorem mem_addrs_of_route (actions : List Action) {p : SocketAddr} {k : PrefixKey} {s : Route}
    (hs : (actions.foldl act {}).rib.route p k = some s) : p ∈ (actions.foldl act {}).addrs := by
  by_contra hp
  rw [(sameView_new actions hp).route_eq] at hs
  simp [Rib.new, Rib.route] at hs

theorem tables_current (actions : List Action) :
    let d := actions.foldl act {}
    d.purges = [] ∧
    (∀ p k s, d.rib.route p k = some s → p ∈ d.addrs ∧ s.peerAddr = p ∧ .ofPrefix s.pfx = k ∧ s.stale = false) ∧
    (∀ k, (d.rib.locRib.lookup k).isSome ↔ ∃ p, (d.rib.route p k).isSome) ∧
    (∀ k b, d.rib.locRib.lookup k = some b →
      d.rib.route b.peerAddr k = some b ∧ ∀ p s, d.rib.route p k = some s → ¬ s.rank < b.rank) ∧
    ∀ h p, (d.rib.removeStaleForPeer h p).1 = [] := by
  intro d
  have hrunning : d.Running := running_foldl actions
  have hcurrent : d.rib.Current := current_foldl actions
  have hdecided (k : PrefixKey) : d.rib.Decided k := hrunning.reached.decided k
  refine ⟨hrunning.purges, ?_, fun k => (hdecided k).isSome_iff, ?_, fun h p => hcurrent.staleKeys_eq_nil h p⟩
  · intro p k s hs
    have hproper := hcurrent.proper p k s hs
    exact ⟨mem_addrs_of_route actions hs, hproper.peerAddr, hproper.key, hcurrent.stale p k s hs⟩
  · intro k b hb
    exact ⟨hcurrent.best_route (hdecided k) hb, (hdecided k).best b hb⟩

end PathForge.Peering.Daemon
