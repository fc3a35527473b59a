import PathForge.RouteProvenance
import PathForge.RunHistory

namespace PathForge.Routing.Rib

open Tables Wire Fallible History

variable {h : Host} {r r' c : Rib} {op : RibOp} {keys : List PrefixKey}

def Synced (r : Rib) : Prop :=
  ∀ k b, r.locRib.lookup k = some b → (r.route b.peerAddr k).map Route.stale = some b.stale

def MarksNoBest (r : Rib) (call : Host × RibOp) : Prop :=
  match call.2 with
  | .markPeerStale peer => ∀ k b, r.locRib.lookup k = some b → b.peerAddr = peer → b.stale = true
  | _ => True

theorem change_route_eq (hop : ∀ peer, op ≠ .markPeerStale peer) (hc : r.change h op = some (c, keys))
    {k : PrefixKey} (hk : k ∉ keys) (p : SocketAddr) : c.route p k = r.route p k := by
  cases op with
  | processUpdate peer peerAs nlri attrs withdrawn =>
    obtain ⟨s, hs, rfl, rfl⟩ := exists_intake hc
    exact route_processUpdate_of_notMem hs hk p
  | removePeer peer =>
    obtain ⟨rfl, rfl⟩ := Prod.mk.inj (Option.some.inj hc)
    exact route_removePeer_of_notMem hk p
  | markPeerStale peer => exact absurd rfl (hop peer)
  | removeStaleForPeer peer =>
    obtain ⟨rfl, rfl⟩ := Prod.mk.inj (Option.some.inj hc)
    rw [route_removeStale, if_neg fun hk' => hk hk'.2]

theorem apply_synced (hs : r.Synced) (hop : ∀ peer, op ≠ .markPeerStale peer) (ha : r.apply h op = some r')
    (hproper : ∀ p k s, r'.route p k = some s → s.peerAddr = p) : r'.Synced := by
  obtain ⟨c, keys, hc, rfl⟩ := exists_change ha
  intro k b hb
  by_cases hk : k ∈ keys
  · -- the key has been decided again, and its entry is a copy of a route that is there now
    rw [lookup_runDecisions_of_mem h c hk] at hb
    obtain ⟨p, hp⟩ := mem_candidates.mp (Selection.first_mem hb)
    rw [hproper p k b hp, hp, Option.map_some]
  · rw [lookup_runDecisions, if_neg hk, (change_changed hc).locRib] at hb
    rw [(runDecisions_sameTables h c keys).route_eq, change_route_eq hop hc hk]
    exact hs k b hb

theorem synced_markPeerStale_iff (hs : r.Synced) (peer : SocketAddr) :
    (r.markPeerStale peer).Synced ↔ r.MarksNoBest (h, .markPeerStale peer) := by
  have hloc : (r.markPeerStale peer).locRib = r.locRib := (change_markPeerStale r peer).locRib
  simp only [Synced, MarksNoBest, hloc, route_markPeerStale]
  apply forall₃_congr
  intro k b hb
  have hold := hs k b hb
  obtain ⟨s, hroute, hstale⟩ := Option.map_eq_some_iff.mp hold
  by_cases hp : b.peerAddr = peer
  · rw [if_pos hp, hroute, Option.map_some, Option.map_some, Option.some.injEq, forall_prop_of_true hp]
    exact eq_comm
  · rw [if_neg hp, forall_prop_of_false hp]
    exact iff_of_true hold trivial

theorem stale_marks_synced_iff (config : DampeningConfig) (rpki : RpkiValidator) (calls : List (Host × RibOp)) :
    AlwaysM (fun r (call : Host × RibOp) => r.apply call.1 call.2) Synced (start config rpki) calls ↔
      EachM (fun r (call : Host × RibOp) => r.apply call.1 call.2) MarksNoBest (start config rpki) calls := by
  apply alwaysM_iff_eachM (I := fun r : Rib => r.rpki = rpki ∧ ∀ p k s, r.route p k = some s → Proper rpki p k s)
  · exact proper_start config rpki
  · intro u call t hI ha
    exact apply_proper hI ha
  · intro k b hb
    simp [start] at hb
  · rintro u ⟨h, op⟩ t hI hs ha
    have hproper : ∀ p k s, t.route p k = some s → s.peerAddr = p :=
      fun p k s hroute => ((apply_proper hI ha).2 p k s hroute).peerAddr
    cases op with
    | markPeerStale peer =>
      obtain rfl := Option.some.inj ha
      exact synced_markPeerStale_iff hs peer
    | processUpdate peer peerAs nlri attrs withdrawn =>
      exact iff_of_true (apply_synced hs (by simp) ha hproper) trivial
    | removePeer peer => exact iff_of_true (apply_synced hs (by simp) ha hproper) trivial
    | removeStaleForPeer peer => exact iff_of_true (apply_synced hs (by simp) ha hproper) trivial

def markedCalls : List (Host × RibOp) :=
  [(sampleHost, .processUpdate (samplePeer 1) 65001 [samplePrefix] {} []),
    (sampleHost, .markPeerStale (samplePeer 1))]

theorem stale_marks_drift :
    ∃ r b s, new.run markedCalls = some r ∧ r.locRib.lookup (.ofPrefix samplePrefix) = some b ∧
      r.route b.peerAddr (.ofPrefix samplePrefix) = some s ∧ s.stale = true ∧ b.stale = false ∧ ¬ r.Synced := by
  have hrun : (new.run markedCalls).map (fun r =>
      ((r.locRib.lookup (.ofPrefix samplePrefix)).map fun b => (b.peerAddr, b.stale),
        (r.route (samplePeer 1) (.ofPrefix samplePrefix)).map Route.stale)) =
      some (some (samplePeer 1, false), some true) := by decide +kernel
  obtain ⟨r, hr, hmarks⟩ := Option.map_eq_some_iff.mp hrun
  obtain ⟨hloc, hroute⟩ := Prod.mk.inj hmarks
  obtain ⟨b, hb, hbest⟩ := Option.map_eq_some_iff.mp hloc
  obtain ⟨hpeer, hfalse⟩ := Prod.mk.inj hbest
  obtain ⟨s, hs, htrue⟩ := Option.map_eq_some_iff.mp hroute
  refine ⟨r, b, s, hr, hb, hpeer ▸ hs, htrue, hfalse, ?_⟩
  intro hsynced
  have hsame := hsynced _ b hb
  rw [hpeer, hs, Option.map_some, Option.some.injEq, htrue, hfalse] at hsame
  cases hsame

end PathForge.Routing.Rib
