import PathForge.DampeningEntries
import PathForge.KeyedRuns
import PathForge.LocRibInvariant

namespace PathForge.Routing

open Tables Selection Wire Fallible Keyed

namespace Intake

variable (d : Decay) (peer : SocketAddr) (s : Intake) (p : Prefix)

theorem withdraw_eq :
    s.withdraw d peer p =
      let e := (PrefixDampening.flap d s.dampening.config
        (s.dampening.state.lookup (peer, .ofPrefix p))).run s.clock
      { s with dampening := s.dampening.set peer (.ofPrefix p) e.1, clock := e.2 } := by
  unfold withdraw
  rw [DampeningTable.recordWithdrawal_eq]
  rfl

def check (key : PrefixKey) : Bool × Intake :=
  match s.dampening.state.lookup (peer, key) with
  | none => (false, s)
  | some e =>
    let e := (e.review d s.dampening.config).run s.clock
    (e.1.suppressed, { s with dampening := s.dampening.set peer key e.1, clock := e.2 })

def install (peerAs : UInt32) (attrs : PathAttributes) (rov : RovState) : Intake :=
  { s with
    clock := s.clock.tail,
    adjIn := s.adjIn.insert (.ofPrefix p) ⟨p, attrs, peer, peerAs, s.clock.head, false, rov⟩,
    affected := s.affected ++ [.ofPrefix p] }

theorem check_adjIn (key : PrefixKey) :
    (s.check d peer key).2.adjIn = s.adjIn ∧ (s.check d peer key).2.affected = s.affected := by
  unfold check
  split <;> exact ⟨rfl, rfl⟩

theorem run_checkAdvertisement (key : PrefixKey) :
    (s.dampening.checkAdvertisement d peer key).run s.clock =
      (((s.check d peer key).1, (s.check d peer key).2.dampening), (s.check d peer key).2.clock) := by
  unfold check
  rw [DampeningTable.checkAdvertisement_eq]
  cases s.dampening.state.lookup (peer, key) <;> rfl

theorem announce_eq (rpki : RpkiValidator) (peerAs : UInt32) (attrs : PathAttributes) :
    s.announce d rpki peer peerAs attrs p = (rpki.validate p.address p.prefixLen peerAs).map fun rov =>
      let c := s.check d peer (.ofPrefix p)
      if (c.1 || rpki.shouldReject rov) = true then c.2 else c.2.install peer p peerAs attrs rov := by
  simp only [announce, run_checkAdvertisement]
  obtain ⟨hadj, haff⟩ := s.check_adjIn d peer (.ofPrefix p)
  generalize s.check d peer (.ofPrefix p) = c at hadj haff
  obtain ⟨suppressed, clock, dampening, adjIn, affected⟩ := c
  obtain rfl : adjIn = s.adjIn := hadj
  obtain rfl : affected = s.affected := haff
  cases rpki.validate p.address p.prefixLen peerAs with
  | none => rfl
  | some rov =>
    change (if (suppressed || rpki.shouldReject rov) = true then _ else _) = some (if _ then _ else _)
    split_ifs <;> rfl

variable {d peer}

structure Alike (peer : SocketAddr) (s s' : Intake) : Prop where
  clock : s.clock = s'.clock
  config : s.dampening.config = s'.dampening.config
  flaps : ∀ k, s.dampening.state.lookup (peer, k) = s'.dampening.state.lookup (peer, k)
  adjIn : s.adjIn = s'.adjIn
  affected : s.affected = s'.affected

theorem Alike.set {s s' : Intake} (h : Alike peer s s') (key : PrefixKey) (e : PrefixDampening × Clock) :
    Alike peer { s with dampening := s.dampening.set peer key e.1, clock := e.2 }
      { s' with dampening := s'.dampening.set peer key e.1, clock := e.2 } := by
  refine ⟨rfl, h.config, ?_, h.adjIn, h.affected⟩
  intro k
  simp only [DampeningTable.set, HashMap.lookup_insert, h.flaps]

theorem Alike.withdraw {s s' : Intake} (h : Alike peer s s') (p : Prefix) :
    Alike peer (s.withdraw d peer p) (s'.withdraw d peer p) := by
  rw [withdraw_eq, withdraw_eq, ← h.clock, ← h.config, ← h.flaps]
  exact h.set _ _

theorem Alike.foldl_withdraw {s s' : Intake} (h : Alike peer s s') (withdrawn : List Prefix) :
    Alike peer (withdrawn.foldl (Intake.withdraw d peer) s) (withdrawn.foldl (Intake.withdraw d peer) s') := by
  induction withdrawn generalizing s s' with
  | nil => exact h
  | cons p withdrawn ih => exact ih (h.withdraw p)

theorem Alike.check {s s' : Intake} (h : Alike peer s s') (key : PrefixKey) :
    (s.check d peer key).1 = (s'.check d peer key).1 ∧
      Alike peer (s.check d peer key).2 (s'.check d peer key).2 := by
  unfold Intake.check
  rw [← h.clock, ← h.config, ← h.flaps]
  cases s.dampening.state.lookup (peer, key) with
  | none => exact ⟨rfl, h⟩
  | some e => exact ⟨rfl, h.set key _⟩

theorem Alike.install {s s' : Intake} (h : Alike peer s s') (p : Prefix) (peerAs : UInt32) (attrs : PathAttributes)
    (rov : RovState) : Alike peer (s.install peer p peerAs attrs rov) (s'.install peer p peerAs attrs rov) := by
  refine ⟨?_, h.config, h.flaps, ?_, ?_⟩
  · simp only [Intake.install, h.clock]
  · simp only [Intake.install, h.clock, h.adjIn]
  · simp only [Intake.install, h.affected]

theorem Alike.announce {rpki : RpkiValidator} {peerAs : UInt32} {attrs : PathAttributes} {s s' t : Intake}
    {p : Prefix} (h : Alike peer s s') (ht : s.announce d rpki peer peerAs attrs p = some t) :
    ∃ t', s'.announce d rpki peer peerAs attrs p = some t' ∧ Alike peer t t' := by
  rw [announce_eq] at ht ⊢
  obtain ⟨rov, hrov, rfl⟩ := Option.map_eq_some_iff.mp ht
  rw [hrov]
  refine ⟨_, rfl, ?_⟩
  obtain ⟨hflag, halike⟩ := h.check (d := d) (.ofPrefix p)
  simp only
  rw [← hflag]
  split_ifs
  · exact halike
  · exact halike.install p peerAs attrs rov

theorem Alike.foldlM_announce {rpki : RpkiValidator} {peerAs : UInt32} {attrs : PathAttributes}
    {nlri : List Prefix}
    {s s' t : Intake} (h : Alike peer s s')
    (ht : nlri.foldlM (Intake.announce d rpki peer peerAs attrs) s = some t) :
    ∃ t', nlri.foldlM (Intake.announce d rpki peer peerAs attrs) s' = some t' ∧ Alike peer t t' := by
  induction nlri generalizing s s' with
  | nil =>
    obtain rfl := Option.some.inj ht
    exact ⟨s', rfl, h⟩
  | cons p nlri ih =>
    rw [List.foldlM_cons] at ht
    obtain ⟨u, hu, ht⟩ := Option.bind_eq_some_iff.mp ht
    obtain ⟨u', hu', h'⟩ := h.announce hu
    obtain ⟨t', ht', hfin⟩ := ih h' ht
    refine ⟨t', ?_, hfin⟩
    rw [List.foldlM_cons, hu']
    exact ht'

structure Framed (peer : SocketAddr) (t₀ : DampeningTable) (s : Intake) : Prop where
  config : s.dampening.config = t₀.config
  flaps : ∀ q k, q ≠ peer → s.dampening.state.lookup (q, k) = t₀.state.lookup (q, k)

theorem Framed.set {t₀ : DampeningTable} {s : Intake} (h : Framed peer t₀ s) (key : PrefixKey)
    (e : PrefixDampening × Clock) :
    Framed peer t₀ { s with dampening := s.dampening.set peer key e.1, clock := e.2 } := by
  refine ⟨h.config, ?_⟩
  intro q k hq
  simp only [DampeningTable.set]
  rw [AList.lookup_insert_ne (by simp [hq])]
  exact h.flaps q k hq

theorem Framed.foldl_withdraw {t₀ : DampeningTable} {s : Intake} (h : Framed peer t₀ s) (withdrawn : List Prefix) :
    Framed peer t₀ (withdrawn.foldl (Intake.withdraw d peer) s) := by
  induction withdrawn generalizing s with
  | nil => exact h
  | cons p withdrawn ih =>
    apply ih
    rw [withdraw_eq]
    exact h.set _ _

theorem Framed.announce {rpki : RpkiValidator} {peerAs : UInt32} {attrs : PathAttributes} {t₀ : DampeningTable}
    {s t : Intake} {p : Prefix} (h : Framed peer t₀ s) (ht : s.announce d rpki peer peerAs attrs p = some t) :
    Framed peer t₀ t := by
  have hcheck : Framed peer t₀ (s.check d peer (.ofPrefix p)).2 := by
    unfold check
    split
    · exact h
    · exact h.set _ _
  rw [announce_eq] at ht
  obtain ⟨rov, -, rfl⟩ := Option.map_eq_some_iff.mp ht
  simp only
  split_ifs
  · exact hcheck
  · exact ⟨hcheck.config, hcheck.flaps⟩

end Intake

namespace Rib

structure SameView (p : SocketAddr) (r r' : Rib) : Prop where
  rpki : r.rpki = r'.rpki
  config : r.dampening.config = r'.dampening.config
  table : r.adjRibIn.lookup p = r'.adjRibIn.lookup p
  flaps : ∀ k, r.dampening.state.lookup (p, k) = r'.dampening.state.lookup (p, k)

namespace SameView

variable {p : SocketAddr} {r r' r'' : Rib}

theorem refl (p : SocketAddr) (r : Rib) : SameView p r r := ⟨rfl, rfl, rfl, fun _ => rfl⟩

theorem symm (h : SameView p r r') : SameView p r' r :=
  ⟨h.rpki.symm, h.config.symm, h.table.symm, fun k => (h.flaps k).symm⟩

theorem trans (h : SameView p r r') (h' : SameView p r' r'') : SameView p r r'' :=
  ⟨h.rpki.trans h'.rpki, h.config.trans h'.config, h.table.trans h'.table, fun k => (h.flaps k).trans (h'.flaps k)⟩

theorem of_sameTables (p : SocketAddr) (h : SameTables r r') : SameView p r r' :=
  ⟨h.rpki, by rw [h.dampening], by rw [h.adjRibIn], fun k => by rw [h.dampening]⟩

theorem route_eq (h : SameView p r r') (k : PrefixKey) : r.route p k = r'.route p k := by
  rw [route, route, h.table]

end SameView

section Locality

variable {h h' : Host} {r r' c : Rib} {keys : List PrefixKey} {op : RibOp} {p : SocketAddr}

theorem change_frame (hc : r.change h op = some (c, keys)) (hp : p ≠ op.peer) : SameView p r c := by
  have hsame := change_lookup_of_ne hp hc
  have hrpki := (change_changed hc).rpki
  suffices hd : r.dampening.config = c.dampening.config ∧
      ∀ k, r.dampening.state.lookup (p, k) = c.dampening.state.lookup (p, k) from
    ⟨hrpki.symm, hd.1, hsame.symm, hd.2⟩
  cases op with
  | processUpdate peer peerAs nlri attrs withdrawn =>
    obtain ⟨s, hs, rfl, rfl⟩ := exists_intake hc
    have hf : s.Framed peer r.dampening := by
      apply foldlM_invariant (I := Intake.Framed peer r.dampening) (fun _ _ _ hI ht => hI.announce ht) _ hs
      have hstart : Intake.Framed peer r.dampening ⟨h.clock, r.dampening, (r.adjRibIn.lookup peer).getD ∅, []⟩ :=
        ⟨rfl, fun _ _ _ => rfl⟩
      exact hstart.foldl_withdraw withdrawn
    exact ⟨hf.config.symm, fun k => (hf.flaps p k hp).symm⟩
  | removePeer peer =>
    obtain ⟨rfl, rfl⟩ := Prod.mk.inj (Option.some.inj hc)
    refine ⟨rfl, ?_⟩
    intro k
    have hne : p ≠ peer := hp
    simp only [DampeningTable.removePeer, HashMap.lookup_retain, ne_eq, hne, not_false_eq_true,
      decide_true, ↓reduceIte]
  | markPeerStale peer =>
    obtain ⟨rfl, rfl⟩ := Prod.mk.inj (Option.some.inj hc)
    unfold markPeerStale
    split <;> exact ⟨rfl, fun _ => rfl⟩
  | removeStaleForPeer peer =>
    obtain ⟨rfl, rfl⟩ := Prod.mk.inj (Option.some.inj hc)
    exact ⟨rfl, fun _ => rfl⟩

theorem change_congr (hh : SameTiming h h') (hv : SameView op.peer r r') (hc : r.change h op = some (c, keys)) :
    ∃ c' keys', r'.change h' op = some (c', keys') ∧ SameView op.peer c c' ∧ keys.Perm keys' := by
  cases op with
  | processUpdate peer peerAs nlri attrs withdrawn =>
    have hv : SameView peer r r' := hv
    obtain ⟨s, hs, rfl, rfl⟩ := exists_intake hc
    have hstart : Intake.Alike peer ⟨h.clock, r.dampening, (r.adjRibIn.lookup peer).getD ∅, []⟩
        ⟨h'.clock, r'.dampening, (r'.adjRibIn.lookup peer).getD ∅, []⟩ :=
      ⟨hh.clock, hv.config, hv.flaps, by rw [hv.table], rfl⟩
    rw [intake, hh.decayed, hv.rpki] at hs
    obtain ⟨s', hs', ha⟩ := (hstart.foldl_withdraw withdrawn).foldlM_announce hs
    refine ⟨_, _, Option.map_eq_some_iff.mpr ⟨s', hs', rfl⟩, ⟨hv.rpki, ha.config, ?_, ha.flaps⟩, ?_⟩
    · simp only [RibOp.peer, AList.lookup_insert, ha.adjIn]
    · rw [ha.affected]
  | removePeer peer =>
    have hv : SameView peer r r' := hv
    obtain ⟨rfl, rfl⟩ := Prod.mk.inj (Option.some.inj hc)
    refine ⟨_, _, rfl, ⟨hv.rpki, hv.config, ?_, ?_⟩, ?_⟩
    · simp only [RibOp.peer, AList.lookup_erase]
    · intro k
      simp [RibOp.peer, DampeningTable.removePeer, HashMap.lookup_retain]
    · rw [hv.table]
      cases r'.adjRibIn.lookup peer with
      | none => exact .refl _
      | some m => exact HashMap.keysBy_perm _ _ _
  | markPeerStale peer =>
    have hv : SameView peer r r' := hv
    obtain ⟨rfl, rfl⟩ := Prod.mk.inj (Option.some.inj hc)
    refine ⟨_, _, rfl, ?_, .refl _⟩
    have ht := hv.table
    unfold markPeerStale
    rcases ha : r.adjRibIn.lookup peer with _ | adj
    · rw [ha] at ht
      rw [← ht]
      exact hv
    · rw [ha] at ht
      rw [← ht]
      exact ⟨hv.rpki, hv.config, by simp only [RibOp.peer, AList.lookup_insert], hv.flaps⟩
  | removeStaleForPeer peer =>
    have hv : SameView peer r r' := hv
    obtain ⟨rfl, rfl⟩ := Prod.mk.inj (Option.some.inj hc)
    have hstale : (r.staleKeys h peer).Perm (r'.staleKeys h' peer) := staleKeys_perm hv.table
    refine ⟨_, _, rfl, ⟨hv.rpki, hv.config, ?_, hv.flaps⟩, hstale⟩
    have ht := hv.table
    simp only [RibOp.peer]
    rcases ha : r.adjRibIn.lookup peer with _ | adj
    · rw [ha] at ht
      rw [← ht]
      simp only [ha, ← ht]
    · rw [ha] at ht
      rw [← ht]
      simp only [HashMap.eraseAll_perm adj hstale]
      split_ifs
      · rw [AList.lookup_erase, AList.lookup_erase]
      · rw [AList.lookup_insert, AList.lookup_insert]

theorem apply_frame (ha : r.apply h op = some c) (hp : p ≠ op.peer) : SameView p r c := by
  obtain ⟨c, keys, hc, rfl⟩ := exists_change ha
  exact (change_frame hc hp).trans (.of_sameTables p (runDecisions_sameTables h c keys).symm)

theorem apply_congr (hh : SameTiming h h') (hv : SameView op.peer r r') (ha : r.apply h op = some c) :
    ∃ c', r'.apply h' op = some c' ∧ SameView op.peer c c' := by
  obtain ⟨c, keys, hc, rfl⟩ := exists_change ha
  obtain ⟨c', keys', hc', hv', -⟩ := change_congr hh hv hc
  refine ⟨c'.runDecisions h' keys', by rw [apply_eq, hc', Option.map_some], ?_⟩
  have hl : SameView op.peer (c.runDecisions h keys) c := .of_sameTables _ (runDecisions_sameTables h c keys)
  have hr : SameView op.peer c' (c'.runDecisions h' keys') :=
    .of_sameTables _ (runDecisions_sameTables h' c' keys').symm
  exact hl.trans (hv'.trans hr)

end Locality

def SameCall (c c' : Host × RibOp) : Prop := SameTiming c.1 c'.1 ∧ c.2 = c'.2

theorem apply_local : Local (fun (r : Rib) (c : Host × RibOp) => r.apply c.1 c.2)
    (fun c => c.2.peer) SameCall SameView where
  refl := .refl
  symm := .symm
  trans := .trans
  owner_eq := by
    rintro ⟨h, op⟩ ⟨h', op'⟩ ⟨-, rfl⟩
    rfl
  frame := apply_frame
  congr := by
    rintro r r' ⟨h, op⟩ ⟨h', op'⟩ s ⟨hh, rfl⟩ hv hs
    exact apply_congr hh hv hs

end Rib

end PathForge.Routing
