import PathForge.UpdateEffects

namespace PathForge.Routing

open Tables Selection Wire Fallible History

namespace Rib

def Touched (p : SocketAddr) (k : PrefixKey) (m : Rib) (calls : List (Host × RibOp)) : Prop :=
  Once (fun r c => r.apply c.1 c.2) (fun r c => c.2.peer = p ∧ (r.Installs k c ∨ k ∈ c.2.withdrawn)) m calls

def InstalledSince (p : SocketAddr) (k : PrefixKey) (m : Rib) (calls : List (Host × RibOp)) : Prop :=
  Since (fun r c => r.apply c.1 c.2) (fun r c => c.2.peer = p ∧ r.Installs k c)
    (fun c => c.2.peer = p ∧ k ∈ c.2.withdrawn) m calls

theorem touched_of_installed {p : SocketAddr} {k : PrefixKey} {m : Rib} {calls : List (Host × RibOp)}
    (h : InstalledSince p k m calls) : Touched p k m calls := by
  obtain ⟨before, c, after, u, hl, hu, ⟨hp, hi⟩, -⟩ := h
  exact ⟨before, c, after, u, hl, hu, hp, .inl hi⟩

theorem run_route_cases {m u : Rib} {calls : List (Host × RibOp)} {p : SocketAddr} (k : PrefixKey)
    (hup : ∀ c ∈ calls, c.2.peer = p → c.2.IsUpdate) (hu : m.run calls = some u) :
    (¬ Touched p k m calls ∧ u.route p k = m.route p k) ∨
      (Touched p k m calls ∧ InstalledSince p k m calls ∧ ∃ s, u.route p k = some s ∧ s.stale = false) ∨
      (Touched p k m calls ∧ ¬ InstalledSince p k m calls ∧ u.route p k = none) := by
  induction calls using List.reverseRecOn generalizing u with
  | nil =>
    obtain rfl := Option.some.inj hu
    exact .inl ⟨not_once_nil, rfl⟩
  | append_singleton calls c ih =>
    obtain ⟨v, hv, ha⟩ := foldlM_snoc.mp hu
    rw [List.forall_mem_append, List.forall_mem_singleton] at hup
    have ih := ih hup.1 hv
    unfold Touched InstalledSince at ih ⊢
    rw [once_snoc hv, since_snoc hv]
    by_cases hp : c.2.peer = p
    · subst hp
      rcases apply_update_route (hup.2 rfl) ha k with ⟨hw, hr⟩ | ⟨hw, hi, hr⟩ | ⟨hw, hi, hr⟩
      · simp [hw, hr]
      · simp [hw, hi, hr]
      · simpa [hw, hi, hr] using ih
    · rw [apply_route_of_ne (Ne.symm hp) ha]
      simpa [hp] using ih

theorem mem_staleKeys {h : Host} {r : Rib} {p : SocketAddr} {k : PrefixKey} :
    k ∈ r.staleKeys h p ↔ ∃ s, r.route p k = some s ∧ s.stale = true := by
  rw [staleKeys]
  rcases ha : r.adjRibIn.lookup p with _ | adj
  · simp [route, ha]
  · simp only [Option.map_some, Option.getD_some, List.mem_filter, HashMap.mem_keysBy, route_eq_of_lookup ha]
    cases adj.lookup k <;> simp

theorem nodup_staleKeys (h : Host) (r : Rib) (p : SocketAddr) : (r.staleKeys h p).Nodup := by
  rw [staleKeys]
  cases r.adjRibIn.lookup p with
  | none => exact List.nodup_nil
  | some adj => exact (HashMap.nodup_keysBy adj h.keys).filter _

theorem route_removeStaleForPeer (h : Host) (r : Rib) (p : SocketAddr) (k : PrefixKey) :
    (r.removeStaleForPeer h p).2.route p k = (r.route p k).filter fun s => s.stale = false := by
  refine ((runDecisions_sameTables h _ _).route_eq p k).trans ((route_removeStale h r p p k).trans ?_)
  rcases hs : r.route p k with _ | s
  · simp
  · have hk : k ∈ r.staleKeys h p ↔ s.stale = true := by simp [mem_staleKeys, hs]
    cases hf : s.stale <;> simp [hk, hf, Option.filter]

theorem run_mark_sweep {r s : Rib} {calls : List (Host × RibOp)} {p : SocketAddr}
    (hup : ∀ c ∈ calls, c.2.peer = p → c.2.IsUpdate) (hs : (r.markPeerStale p).run calls = some s) (h : Host) :
    (∀ k, ((s.removeStaleForPeer h p).2.route p k).isSome ↔ InstalledSince p k (r.markPeerStale p) calls) ∧
    (s.removeStaleForPeer h p).1.Nodup ∧
    (∀ k, k ∈ (s.removeStaleForPeer h p).1 ↔ (r.route p k).isSome ∧ ¬ Touched p k (r.markPeerStale p) calls) ∧
    (∀ k t, (s.removeStaleForPeer h p).2.route p k = some t → t.stale = false) ∧
    (∀ q, q ≠ p → (s.removeStaleForPeer h p).2.adjRibIn.lookup q = s.adjRibIn.lookup q) ∧
    ∀ k ∈ (s.removeStaleForPeer h p).1,
      (s.removeStaleForPeer h p).2.locRib.lookup k = (s.removeStaleForPeer h p).2.best h k ∧
        (s.removeStaleForPeer h p).2.Decided k := by
  have ha : s.apply h (.removeStaleForPeer p) = some (s.removeStaleForPeer h p).2 := rfl
  have hroute := route_removeStaleForPeer h s p
  have hmark (k : PrefixKey) := route_markPeerStale r p p k
  simp only [if_true] at hmark
  refine ⟨?_, nodup_staleKeys h s p, ?_, ?_, ?_, ?_⟩
  · intro k
    rw [hroute]
    rcases run_route_cases k hup hs with ⟨hn, hr⟩ | ⟨-, hi, t, hr, hf⟩ | ⟨-, hi, hr⟩
    · have hi : ¬ InstalledSince p k (r.markPeerStale p) calls := fun hi => hn (touched_of_installed hi)
      rw [hr, hmark]
      cases r.route p k <;> simp [hi]
    · simp [hr, hf, hi]
    · simp [hr, hi]
  · intro k
    change k ∈ s.staleKeys h p ↔ _
    rw [mem_staleKeys]
    rcases run_route_cases k hup hs with ⟨hn, hr⟩ | ⟨ht, -, t, hr, hf⟩ | ⟨ht, -, hr⟩
    · rw [hr, hmark]
      cases r.route p k <;> simp [hn]
    · simp [hr, hf, ht]
    · simp [hr, ht]
  · intro k t ht
    rw [hroute, Option.filter_eq_some_iff, decide_eq_true_eq] at ht
    exact ht.2
  · intro q hq
    exact (apply_frame ha hq).table.symm
  · intro k hk
    have hl : (s.removeStaleForPeer h p).2.locRib.lookup k = (s.removeStaleForPeer h p).2.best h k :=
      lookup_runDecisions_of_mem h _ hk
    exact ⟨hl, decided_of_best hl⟩

def restartCalls (nlri : List Prefix) : List (Host × RibOp) :=
  [(sampleHost, .processUpdate (samplePeer 1) 65001 nlri {} [])]

theorem run_mark_sweep_sample :
    ∃ r s, new.run (restartCalls [samplePrefix, ⟨16, .new 10 1 0 0⟩]) = some r ∧
      (r.markPeerStale (samplePeer 1)).run (restartCalls [samplePrefix]) = some s ∧
      (r.route (samplePeer 1) ⟨.new 10 1 0 0, 16⟩).isSome ∧
      ¬ Touched (samplePeer 1) ⟨.new 10 1 0 0, 16⟩ (r.markPeerStale (samplePeer 1))
        (restartCalls [samplePrefix]) := by
  have hk : ((new.run (restartCalls [samplePrefix, ⟨16, .new 10 1 0 0⟩])).bind fun r =>
      ((r.markPeerStale (samplePeer 1)).run (restartCalls [samplePrefix])).map fun s =>
        decide (⟨.new 10 1 0 0, 16⟩ ∈ (s.removeStaleForPeer sampleHost
          (samplePeer 1)).1)) = some true := by decide +kernel
  obtain ⟨r, hr, hk⟩ := Option.bind_eq_some_iff.mp hk
  obtain ⟨s, hs, hk⟩ := Option.map_eq_some_iff.mp hk
  have hup : ∀ c ∈ restartCalls [samplePrefix], c.2.peer = samplePeer 1 → c.2.IsUpdate := by
    intro c hc _
    obtain rfl := List.mem_singleton.mp hc
    trivial
  obtain ⟨hheld, hn⟩ := ((run_mark_sweep hup hs _).2.2.1 _).mp (of_decide_eq_true hk)
  exact ⟨r, s, hr, hs, hheld, hn⟩

end Rib

end PathForge.Routing
