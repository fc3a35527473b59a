import PathForge.RouteProvenance
import PathForge.RunHistory

namespace PathForge.Routing

open Tables Selection Wire Fallible History

namespace Intake

variable {d : Decay} {rpki : RpkiValidator} {peer : SocketAddr} {peerAs : UInt32} {attrs : PathAttributes}
  {s t : Intake} {nlri : List Prefix} {k : PrefixKey}

def Admits (d : Decay) (rpki : RpkiValidator) (peer : SocketAddr) (peerAs : UInt32) (k : PrefixKey) (s : Intake)
    (p : Prefix) : Prop :=
  .ofPrefix p = k ∧ ((s.dampening.checkAdvertisement d peer k).run s.clock).1.1 = false ∧
    ∃ rov, rpki.validate p.address p.prefixLen peerAs = some rov ∧ rpki.shouldReject rov = false

theorem mem_affected_announce {p : Prefix} (ht : s.announce d rpki peer peerAs attrs p = some t) :
    k ∈ t.affected ↔ k ∈ s.affected ∨ Admits d rpki peer peerAs k s p := by
  have hcheck := (s.check_adjIn d peer (.ofPrefix p)).2
  have hrun := s.run_checkAdvertisement d peer (.ofPrefix p)
  rw [announce_eq] at ht
  obtain ⟨rov, hrov, rfl⟩ := Option.map_eq_some_iff.mp ht
  simp only
  split_ifs with hc
  · rw [hcheck, iff_self_or]
    rintro ⟨rfl, hflag, rov', hrov', hrej⟩
    rw [hrov, Option.some.injEq] at hrov'
    rw [hrun] at hflag
    rw [hrov', hrej, hflag] at hc
    cases hc
  · rw [Bool.or_eq_true, not_or, Bool.not_eq_true, Bool.not_eq_true] at hc
    simp only [install, hcheck, List.mem_append, List.mem_singleton]
    apply or_congr_right
    constructor
    · rintro rfl
      exact ⟨rfl, by rw [hrun]; exact hc.1, rov, hrov, hc.2⟩
    · rintro ⟨rfl, -⟩
      rfl

theorem mem_affected (ht : nlri.foldlM (announce d rpki peer peerAs attrs) s = some t) :
    k ∈ t.affected ↔
      k ∈ s.affected ∨ Once (announce d rpki peer peerAs attrs) (Admits d rpki peer peerAs k) s nlri := by
  induction nlri using List.reverseRecOn generalizing t with
  | nil =>
    obtain rfl := Option.some.inj ht
    simp [not_once_nil]
  | append_singleton nlri p ih =>
    obtain ⟨u, hu, ht⟩ := foldlM_snoc.mp ht
    rw [mem_affected_announce ht, ih hu, once_snoc hu, or_assoc]

structure Written (rpki : RpkiValidator) (peer : SocketAddr) (peerAs : UInt32) (attrs : PathAttributes)
    (k : PrefixKey) (route : Route) : Prop extends Installed rpki peer peerAs attrs k route where
  verdict : rpki.validate k.address k.prefixLen route.peerAs = some route.rovState

def Labels (rpki : RpkiValidator) (peerAs : UInt32) (s : Intake) : Prop :=
  ∀ k ∈ s.affected, ∀ route, s.adjIn.lookup k = some route →
    rpki.validate k.address k.prefixLen peerAs = some route.rovState

theorem Labels.announce {p : Prefix} (hs : s.Labels rpki peerAs)
    (ht : s.announce d rpki peer peerAs attrs p = some t) :
    t.Labels rpki peerAs := by
  intro k hk route hroute
  rcases announce_cases ht with ⟨ha, hf⟩ | ⟨now, rov, hrov, -, ha, hf⟩
  · exact hs k (hf ▸ hk) route (ha ▸ hroute)
  · rw [ha, HashMap.lookup_insert] at hroute
    split_ifs at hroute with he
    · obtain rfl := Option.some.inj hroute
      rw [he]
      exact hrov
    · rw [hf, List.mem_append, List.mem_singleton] at hk
      exact hs k (hk.resolve_right he) route hroute

end Intake

def RibOp.withdrawn : RibOp → List PrefixKey
  | processUpdate _ _ _ _ withdrawn => withdrawn.map .ofPrefix
  | _ => []

def RibOp.IsUpdate : RibOp → Prop
  | processUpdate _ _ _ _ _ => True
  | _ => False

namespace Rib

def Installs (k : PrefixKey) (r : Rib) (c : Host × RibOp) : Prop :=
  match c.2 with
  | .processUpdate peer peerAs nlri attrs withdrawn =>
    Once (Intake.announce c.1.decayed r.rpki peer peerAs attrs) (Intake.Admits c.1.decayed r.rpki peer peerAs k)
      (withdrawn.foldl (Intake.withdraw c.1.decayed peer)
        ⟨c.1.clock, r.dampening, (r.adjRibIn.lookup peer).getD ∅, []⟩) nlri
  | _ => False

theorem mem_affected_intake {h : Host} {r : Rib} {peer : SocketAddr} {peerAs : UInt32}
    {nlri withdrawn : List Prefix}
    {attrs : PathAttributes} {t : Intake} (ht : r.intake h peer peerAs nlri attrs withdrawn = some t)
    (k : PrefixKey) :
    k ∈ t.affected ↔ r.Installs k (h, .processUpdate peer peerAs nlri attrs withdrawn) := by
  rw [Intake.mem_affected ht, (Intake.withdraw_adjIn _ _ _ _).2]
  simp [Installs]

theorem Installs.mem_nlri {h : Host} {r : Rib} {peer : SocketAddr} {peerAs : UInt32} {nlri withdrawn : List Prefix}
    {attrs : PathAttributes} {k : PrefixKey}
    (hi : r.Installs k (h, .processUpdate peer peerAs nlri attrs withdrawn)) :
    k ∈ nlri.map .ofPrefix := by
  obtain ⟨before, p, after, u, rfl, -, rfl, -⟩ := hi
  exact List.mem_map_of_mem (by simp)

theorem intake_written {h : Host} {r : Rib} {peer : SocketAddr} {peerAs : UInt32} {nlri withdrawn : List Prefix}
    {attrs : PathAttributes} {t : Intake} (ht : r.intake h peer peerAs nlri attrs withdrawn = some t)
    {k : PrefixKey} (hk : k ∈ t.affected) :
    ∃ route, t.adjIn.lookup k = some route ∧ Intake.Written r.rpki peer peerAs attrs k route := by
  have hlabels : t.Labels r.rpki peerAs := by
    apply foldlM_invariant (I := Intake.Labels r.rpki peerAs) (fun _ _ _ hI ha => hI.announce ha) _ ht
    intro k hk
    rw [(Intake.withdraw_adjIn _ _ _ _).2] at hk
    cases hk
  obtain ⟨route, hroute, hi⟩ := intake_writes ht k hk
  exact ⟨route, hroute, hi, hi.peerAs ▸ hlabels k hk route hroute⟩

inductive Updated (r : Rib) (h : Host) (peer : SocketAddr) (peerAs : UInt32) (nlri : List Prefix)
    (attrs : PathAttributes) (withdrawn : List Prefix) (k : PrefixKey) (route : Option Route) : Prop
  | gone (hw : k ∈ withdrawn.map .ofPrefix) (hr : route = none)
  | written (hw : k ∉ withdrawn.map .ofPrefix)
      (hi : r.Installs k (h, .processUpdate peer peerAs nlri attrs withdrawn))
      (s : Route) (hr : route = some s) (hs : Intake.Written r.rpki peer peerAs attrs k s)
  | left (hw : k ∉ withdrawn.map .ofPrefix)
      (hi : ¬ r.Installs k (h, .processUpdate peer peerAs nlri attrs withdrawn)) (hr : route = r.route peer k)

theorem updated_route {h : Host} {r r' : Rib} {peer : SocketAddr} {peerAs : UInt32} {nlri withdrawn : List Prefix}
    {attrs : PathAttributes} (hr : r.processUpdate h peer peerAs nlri attrs withdrawn = some r') (k : PrefixKey) :
    Updated r h peer peerAs nlri attrs withdrawn k (r'.route peer k) := by
  obtain ⟨t, ht, rfl⟩ := exists_processed hr
  rw [(runDecisions_sameTables h _ _).route_eq, route_processUpdate, if_pos rfl]
  by_cases hw : k ∈ withdrawn.map .ofPrefix
  · exact .gone hw (if_pos hw)
  · rw [if_neg hw]
    by_cases hk : k ∈ t.affected
    · obtain ⟨route, hroute, hs⟩ := intake_written ht hk
      exact .written hw ((mem_affected_intake ht k).mp hk) route hroute hs
    · exact .left hw (fun hi => hk ((mem_affected_intake ht k).mpr hi))
        (by rw [intake_within ht k hk, lookup_adjIn])

theorem apply_update_route {c : Host × RibOp} {u u' : Rib} (hc : c.2.IsUpdate) (ha : u.apply c.1 c.2 = some u')
    (k : PrefixKey) :
    (k ∈ c.2.withdrawn ∧ u'.route c.2.peer k = none) ∨
      (k ∉ c.2.withdrawn ∧ u.Installs k c ∧ ∃ s, u'.route c.2.peer k = some s ∧ s.stale = false) ∨
      (k ∉ c.2.withdrawn ∧ ¬ u.Installs k c ∧ u'.route c.2.peer k = u.route c.2.peer k) := by
  obtain ⟨h, op⟩ := c
  cases op with
  | processUpdate peer peerAs nlri attrs withdrawn =>
    cases updated_route ha k with
    | gone hw hr => exact .inl ⟨hw, hr⟩
    | written hw hi s hr hs => exact .inr (.inl ⟨hw, hi, s, hr, hs.stale⟩)
    | left hw hi hr => exact .inr (.inr ⟨hw, hi, hr⟩)
  | removePeer peer => cases hc
  | markPeerStale peer => cases hc
  | removeStaleForPeer peer => cases hc

end Rib

end PathForge.Routing
