import PathForge.PeerViews

namespace PathForge.Routing

open Tables Selection Wire Fallible Keyed

namespace Rib

section Removal

theorem removePeer_view (h : Host) (r : Rib) (p : SocketAddr) :
    SameView p (r.removePeer h p).2 (start r.dampening.config r.rpki) := by
  have ha : r.apply h (.removePeer p) = some (r.removePeer h p).2 := rfl
  rw [apply_eq, change, Option.map_some, Option.some.injEq] at ha
  rw [← ha]
  apply (SameView.of_sameTables p (runDecisions_sameTables h _ _)).trans
  refine ⟨rfl, rfl, ?_, ?_⟩
  · exact AList.lookup_erase _ _
  · intro k
    simp [DampeningTable.removePeer, HashMap.lookup_retain, start]

instance : Nontrivial SocketAddr := ⟨samplePeer 1, samplePeer 2, by decide⟩

def laterHost : Host := { sampleHost with clock := fun n => 10 + n }

theorem run_removePeer {config : DampeningConfig} {rpki : RpkiValidator}
    {calls calls' : List (Host × RibOp)} {r : Rib}
    {p : SocketAddr} (hc : List.Forall₂ SameCall (calls.filter fun c => c.2.peer ≠ p) calls')
    (hr : (start config rpki).run calls = some r) (h : Host) :
    ∃ r', (start config rpki).run calls' = some r' ∧ (∀ q, SameView q (r.removePeer h p).2 r') ∧
      ∀ k, (r.removePeer h p).2.Distinct k →
        ((r.removePeer h p).2.locRib.lookup k).map Route.fresh = (r'.locRib.lookup k).map Route.fresh := by
  have ha : r.apply h (.removePeer p) = some (r.removePeer h p).2 := rfl
  obtain ⟨r', hr', hothers, hown⟩ := apply_local.run_erase hc (fun q _ => .refl q _) hr
  have hrules : start r.dampening.config r.rpki = start config rpki := by
    obtain ⟨q, hq⟩ := exists_ne p
    have hconfig := (hothers q hq).config.trans hown.config.symm
    have hrpki := (hothers q hq).rpki.trans hown.rpki.symm
    rw [hconfig, hrpki]
    rfl
  have hview (q : SocketAddr) : SameView q (r.removePeer h p).2 r' := by
    by_cases hq : q = p
    · subst hq
      exact (hrules ▸ removePeer_view h r q).trans hown
    · exact (apply_frame ha hq).symm.trans (hothers q hq)
  refine ⟨r', hr', hview, ?_⟩
  intro k hd
  have hdec := apply_decided (run_decided hr) ha k
  exact hdec.unique (fun q => (hview q).route_eq k) (run_decided hr' k) hd

theorem run_removePeer_sample :
    ∃ r r', (start {} {}).run (sampleCalls .listed) = some r ∧
      (start {} {}).run (sampleCalls .listed).tail = some r' ∧
      ((r.removePeer sampleHost (samplePeer 1)).2.locRib.lookup (.ofPrefix samplePrefix)).map Route.fresh =
        (r'.locRib.lookup (.ofPrefix samplePrefix)).map Route.fresh := by
  obtain ⟨r, hr⟩ := Option.isSome_iff_exists.mp (show ((start {} {}).run (sampleCalls .listed)).isSome by decide)
  have hc : List.Forall₂ SameCall ((sampleCalls .listed).filter fun c => c.2.peer ≠ samplePeer 1)
      (sampleCalls .listed).tail := .cons ⟨⟨rfl, rfl⟩, rfl⟩ .nil
  obtain ⟨r', hr', -, hk⟩ := run_removePeer hc hr sampleHost
  have hd : ((start {} {}).run (sampleCalls .listed)).map (fun r =>
      decide ((r.removePeer sampleHost (samplePeer 1)).2.Distinct (.ofPrefix samplePrefix))) = some true := by
        decide
  rw [hr, Option.map_some, Option.some.injEq, decide_eq_true_eq] at hd
  exact ⟨r, r', hr, hr', hk _ hd⟩

end Removal

section Order

variable {h h' : Host} {r r' s : Rib} {op : RibOp}

def touched (h : Host) (r : Rib) (op : RibOp) : List PrefixKey := ((r.change h op).map Prod.snd).getD []

theorem mem_touched_congr (hh : SameTiming h h') (hv : SameView op.peer r r') (ha : r.apply h op = some s)
    (k : PrefixKey) : k ∈ r.touched h op ↔ k ∈ r'.touched h' op := by
  obtain ⟨c, keys, hc, -⟩ := exists_change ha
  obtain ⟨c', keys', hc', -, hp⟩ := change_congr hh hv hc
  rw [touched, touched, hc, hc']
  exact hp.mem_iff

theorem lookup_apply (ha : r.apply h op = some s) (k : PrefixKey) :
    s.locRib.lookup k = if k ∈ r.touched h op then s.best h k else r.locRib.lookup k := by
  obtain ⟨c, keys, hc, rfl⟩ := exists_change ha
  rw [lookup_runDecisions, (change_changed hc).locRib, (runDecisions_sameTables h c keys).best_eq, touched, hc]
  rfl

theorem route_of_untouched {peer : SocketAddr} {peerAs : UInt32} {nlri withdrawn : List Prefix}
    {attrs : PathAttributes} (ha : r.processUpdate h peer peerAs nlri attrs withdrawn = some s) {k : PrefixKey}
    (hk : k ∉ r.touched h (.processUpdate peer peerAs nlri attrs withdrawn)) (p : SocketAddr) :
    s.route p k = r.route p k := by
  change r.apply h (.processUpdate peer peerAs nlri attrs withdrawn) = some s at ha
  obtain ⟨c, keys, hc, rfl⟩ := exists_change ha
  rw [touched, hc, Option.map_some, Option.getD_some] at hk
  rw [(runDecisions_sameTables h c keys).route_eq]
  obtain ⟨t, ht, rfl, rfl⟩ := exists_intake hc
  exact route_processUpdate_of_notMem ht hk p

theorem processUpdate_comm {h₁ h₁' h₂ h₂' : Host} {r s t : Rib} {p q : SocketAddr} {as₁ as₂ : UInt32}
    {nlri₁ nlri₂ withdrawn₁ withdrawn₂ : List Prefix} {attrs₁ attrs₂ : PathAttributes} (hpq : p ≠ q)
    (hh₁ : SameTiming h₁ h₁') (hh₂ : SameTiming h₂ h₂')
    (hs : r.processUpdate h₁ p as₁ nlri₁ attrs₁ withdrawn₁ = some s)
    (ht : s.processUpdate h₂ q as₂ nlri₂ attrs₂ withdrawn₂ = some t) :
    ∃ s' t', r.processUpdate h₂' q as₂ nlri₂ attrs₂ withdrawn₂ = some s' ∧
      s'.processUpdate h₁' p as₁ nlri₁ attrs₁ withdrawn₁ = some t' ∧ (∀ peer, SameView peer t t') ∧
      ∀ k, t.Distinct k → t.locRib.lookup k = t'.locRib.lookup k := by
  let u₁ : RibOp := .processUpdate p as₁ nlri₁ attrs₁ withdrawn₁
  let u₂ : RibOp := .processUpdate q as₂ nlri₂ attrs₂ withdrawn₂
  change r.apply h₁ u₁ = some s at hs
  change s.apply h₂ u₂ = some t at ht
  have hc₁ : SameCall (h₁, u₁) (h₁', u₁) := ⟨hh₁, rfl⟩
  have hc₂ : SameCall (h₂, u₂) (h₂', u₂) := ⟨hh₂, rfl⟩
  obtain ⟨s', t', hs', ht', hview⟩ := apply_local.comm hc₁ hc₂ hpq hs ht
  refine ⟨s', t', hs', ht', hview, ?_⟩
  intro k hd
  have hframe₁ : SameView u₁.peer r s' := apply_frame hs' hpq
  have hframe₂ : SameView u₂.peer s r := (apply_frame hs hpq.symm).symm
  have hk₁ : k ∈ r.touched h₁ u₁ ↔ k ∈ s'.touched h₁' u₁ := mem_touched_congr hh₁ hframe₁ hs k
  have hk₂ : k ∈ s.touched h₂ u₂ ↔ k ∈ r.touched h₂' u₂ := mem_touched_congr hh₂ hframe₂ ht k
  have hroute (peer : SocketAddr) : t.route peer k = t'.route peer k := (hview peer).route_eq k
  rw [lookup_apply ht, lookup_apply hs, lookup_apply ht', lookup_apply hs']
  simp only [← hk₁, ← hk₂]
  -- whoever decided the key last saw the routes that are there in the end
  split_ifs with hin₂ hin₁ hin₁
  · exact best_congr hd hroute
  · apply best_congr hd
    intro peer
    rw [hroute, route_of_untouched ht' (hk₁.not.mp hin₁)]
  · apply (best_congr (h := h₂) hd _).symm.trans (best_congr hd hroute)
    intro peer
    rw [route_of_untouched ht hin₂]
  · rfl

theorem processUpdate_comm_sample :
    ∃ s t s' t', new.processUpdate sampleHost (samplePeer 1) 65001 [samplePrefix] {} [] = some s ∧
      s.processUpdate laterHost (samplePeer 2) 65002 [samplePrefix] {} [samplePrefix] = some t ∧
      new.processUpdate laterHost (samplePeer 2) 65002 [samplePrefix] {} [samplePrefix] = some s' ∧
      s'.processUpdate sampleHost (samplePeer 1) 65001 [samplePrefix] {} [] = some t' ∧
      t.locRib.lookup (.ofPrefix samplePrefix) = t'.locRib.lookup (.ofPrefix samplePrefix) := by
  obtain ⟨s, hs⟩ := exists_apply (r := new) rfl sampleHost
    (.processUpdate (samplePeer 1) 65001 [samplePrefix] {} [])
  have hm : s.rpki.mode = .disabled := by
    rw [apply_rpki hs]
    rfl
  obtain ⟨t, ht⟩ := exists_apply hm laterHost
    (.processUpdate (samplePeer 2) 65002 [samplePrefix] {} [samplePrefix])
  obtain ⟨s', t', hs', ht', -, hk⟩ := processUpdate_comm (by decide) ⟨rfl, rfl⟩ ⟨rfl, rfl⟩ hs ht
  have hd : ((new.processUpdate sampleHost (samplePeer 1) 65001 [samplePrefix] {} []).bind fun r =>
      (r.processUpdate laterHost (samplePeer 2) 65002 [samplePrefix] {} [samplePrefix]).map fun r =>
        decide (r.Distinct (.ofPrefix samplePrefix))) = some true := by decide +kernel
  rw [show new.processUpdate _ _ _ _ _ _ = some s from hs, Option.bind_some,
    show s.processUpdate _ _ _ _ _ _ = some t from ht, Option.map_some, Option.some.injEq, decide_eq_true_eq] at hd
  exact ⟨s, t, s', t', hs, ht, hs', ht', hk _ hd⟩

end Order

end Rib

end PathForge.Routing
