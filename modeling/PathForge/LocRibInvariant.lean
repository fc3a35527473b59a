import PathForge.TableChanges

namespace PathForge.Routing

open Tables Selection Wire Fallible

namespace Rib

structure Decided (r : Rib) (k : PrefixKey) : Prop where
  isSome_iff : (r.locRib.lookup k).isSome ↔ ∃ peer, (r.route peer k).isSome
  chosen : ∀ b, r.locRib.lookup k = some b → ∃ peer s, r.route peer k = some s ∧ b.fresh = s.fresh
  best : ∀ b, r.locRib.lookup k = some b → ∀ peer s, r.route peer k = some s → ¬ s.rank < b.rank

def start (config : DampeningConfig) (rpki : RpkiValidator) : Rib :=
  { dampening := { config := config }, rpki := rpki }

theorem decided_start (config : DampeningConfig) (rpki : RpkiValidator) (k : PrefixKey) :
    (start config rpki).Decided k where
  isSome_iff := by simp [start, route]
  chosen := by simp [start]
  best := by simp [start]

theorem decided_of_best {h : Host} {r : Rib} {k : PrefixKey} (hl : r.locRib.lookup k = r.best h k) :
    r.Decided k where
  isSome_iff := by
    rw [hl, ← not_iff_not, Bool.not_eq_true, Option.isSome_eq_false_iff, Option.isNone_iff_eq_none, best,
      first_eq_none, List.eq_nil_iff_forall_not_mem]
    simp only [mem_candidates, Option.isSome_iff_exists]
    rw [not_exists]
    constructor
    · rintro hn peer ⟨s, hs⟩
      exact hn s ⟨peer, hs⟩
    · rintro hn s ⟨peer, hs⟩
      exact hn peer ⟨s, hs⟩
  chosen := by
    intro b hb
    obtain ⟨peer, hp⟩ := mem_candidates.mp (first_mem (hl ▸ hb))
    exact ⟨peer, b, hp, rfl⟩
  best := by
    intro b hb peer s hs
    exact not_lt.mpr (first_le Route.rankedBy_cmp (hl ▸ hb) s (mem_candidates.mpr ⟨peer, hs⟩))

theorem route_isSome_congr {r r' : Rib} {k : PrefixKey} {peer : SocketAddr}
    (hr : (r'.route peer k).map Route.fresh = (r.route peer k).map Route.fresh) :
    (r'.route peer k).isSome = (r.route peer k).isSome := by
  rw [← Option.isSome_map, hr, Option.isSome_map]

theorem Decided.congr {r r' : Rib} {k : PrefixKey} (hd : r.Decided k)
    (hl : r'.locRib.lookup k = r.locRib.lookup k)
    (hr : ∀ peer, (r'.route peer k).map Route.fresh = (r.route peer k).map Route.fresh) : r'.Decided k where
  isSome_iff := by
    simp only [hl, hd.isSome_iff, route_isSome_congr (hr _)]
  chosen := by
    intro b hb
    obtain ⟨peer, s, hs, hf⟩ := hd.chosen b (hl ▸ hb)
    have he := hr peer
    rw [hs, Option.map_some] at he
    obtain ⟨s', hs', hf'⟩ := Option.map_eq_some_iff.mp he
    exact ⟨peer, s', hs', hf.trans hf'.symm⟩
  best := by
    intro b hb peer s' hs'
    have he := hr peer
    rw [hs', Option.map_some] at he
    obtain ⟨s, hs, hf⟩ := Option.map_eq_some_iff.mp he.symm
    rw [← Route.rank_fresh s', ← hf, Route.rank_fresh]
    exact hd.best b (hl ▸ hb) peer s hs

theorem apply_decided {h : Host} {r r' : Rib} {op : RibOp} (hd : ∀ k, r.Decided k)
    (ha : r.apply h op = some r') (k : PrefixKey) : r'.Decided k := by
  obtain ⟨c, keys, hc, rfl⟩ := exists_change ha
  have hch := change_changed hc
  -- a key is decided again, or its routes are as they were
  by_cases hk : k ∈ keys
  · exact decided_of_best (lookup_runDecisions_of_mem h c hk)
  · have hlook := lookup_runDecisions h c keys k
    rw [if_neg hk, hch.locRib] at hlook
    apply (hd k).congr hlook
    intro peer
    rw [← hch.routes k hk peer, (runDecisions_sameTables h c keys).route_eq]

theorem run_decided {config : DampeningConfig} {rpki : RpkiValidator} {calls : List (Host × RibOp)} {r : Rib}
    (hr : (start config rpki).run calls = some r) (k : PrefixKey) : r.Decided k :=
  foldlM_invariant (I := fun r : Rib => ∀ k, r.Decided k) (fun _ _ _ hd ha => apply_decided hd ha)
    (decided_start config rpki) hr k

section Counting

def keyIndex (k : PrefixKey) : ℕ := k.address.toU32.toNat * 256 + k.prefixLen.toNat

theorem keyIndex_lt (k : PrefixKey) : keyIndex k < 2 ^ 40 := by
  have ha := k.address.toU32.toNat_lt
  have hl := k.prefixLen.toNat_lt
  unfold keyIndex
  omega

theorem keyIndex_injective : Function.Injective keyIndex := by
  intro k k' h
  have hl := k.prefixLen.toNat_lt
  have hl' := k'.prefixLen.toNat_lt
  unfold keyIndex at h
  have haddr : k.address.toU32 = k'.address.toU32 := UInt32.toNat_inj.mp (by omega)
  have hlen : k.prefixLen = k'.prefixLen := UInt8.toNat_inj.mp (by omega)
  have haddr' : k.address = k'.address := by
    rw [← k.address.ofU32_toU32, haddr, Ipv4Addr.ofU32_toU32]
  cases k
  cases k'
  simp_all

theorem length_keys_lt (m : LocRib) : m.keys.length < 2 ^ 64 := by
  have hnodup : (m.keys.map keyIndex).Nodup := List.Nodup.map keyIndex_injective m.nodupKeys
  have hsub : m.keys.map keyIndex ⊆ List.range (2 ^ 40) := by
    intro n hn
    obtain ⟨k, -, rfl⟩ := List.mem_map.mp hn
    exact List.mem_range.mpr (keyIndex_lt k)
  have hle := (List.subperm_of_subset hnodup hsub).length_le
  rw [List.length_map, List.length_range] at hle
  omega

theorem length_locRib_iff {r r' : Rib} {p : SocketAddr} {keep : Route → Bool} (hd : ∀ k, r.Decided k)
    (hd' : ∀ k, r'.Decided k) (hother : ∀ q k, q ≠ p → r'.route q k = r.route q k)
    (hown : ∀ k, r'.route p k = (r.route p k).filter keep) :
    r'.locRib.keys.length = r.locRib.keys.length ↔
      ∀ k s, r.route p k = some s → keep s = false → ∃ q, q ≠ p ∧ (r.route q k).isSome := by
  rw [HashMap.length_keys_eq_iff]
  · simp only [(hd _).isSome_iff, (hd' _).isSome_iff]
    constructor
    · intro hback k s hs hk
      obtain ⟨q, hq⟩ := hback k ⟨p, by simp [hs]⟩
      have hqp : q ≠ p := by
        rintro rfl
        simp [hown, hs, hk] at hq
      exact ⟨q, hqp, hother q k hqp ▸ hq⟩
    · rintro hall k ⟨q, hq⟩
      by_cases hqp : q = p
      · subst hqp
        obtain ⟨s, hs⟩ := Option.isSome_iff_exists.mp hq
        cases hk : keep s with
        | true => exact ⟨q, by simp [hown, hs, hk]⟩
        | false =>
          obtain ⟨q', hne, hq'⟩ := hall k s hs hk
          exact ⟨q', by rwa [hother q' k hne]⟩
      · exact ⟨q, by rwa [hother q k hqp]⟩
  · intro k
    simp only [(hd _).isSome_iff, (hd' _).isSome_iff]
    rintro ⟨q, hq⟩
    by_cases hqp : q = p
    · subst hqp
      rw [hown] at hq
      exact ⟨q, Option.isSome_of_isSome_filter _ _ hq⟩
    · exact ⟨q, by rwa [← hother q k hqp]⟩

end Counting

section Orders

def Distinct (r : Rib) (k : PrefixKey) : Prop :=
  ∀ p q s t, r.route p k = some s → r.route q k = some t → p ≠ q → s.receivedAt ≠ t.receivedAt

theorem mem_keys_of_route {r : Rib} {p : SocketAddr} {k : PrefixKey} {s : Route} (hs : r.route p k = some s) :
    p ∈ r.adjRibIn.keys := by
  obtain ⟨adj, ha, -⟩ := Option.bind_eq_some_iff.mp hs
  rw [← AList.mem_keys, ← AList.lookup_isSome, ha]
  rfl

instance (r : Rib) (k : PrefixKey) : Decidable (r.Distinct k) :=
  decidable_of_iff (∀ p ∈ r.adjRibIn.keys, ∀ q ∈ r.adjRibIn.keys, p ≠ q → ∀ s ∈ r.route p k, ∀ t ∈ r.route q k,
    s.receivedAt ≠ t.receivedAt) <| by
  constructor
  · intro hd p q s t hs ht hpq
    exact hd p (mem_keys_of_route hs) q (mem_keys_of_route ht) hpq s hs t ht
  · intro hd p _ q _ hpq s hs t ht
    exact hd p q s t hs ht hpq

theorem Distinct.eq_of_rank {r : Rib} {k : PrefixKey} (hd : r.Distinct k) {p q : SocketAddr} {s t : Route}
    (hs : r.route p k = some s) (ht : r.route q k = some t) (he : s.rank = t.rank) : s = t := by
  by_cases hpq : p = q
  · subst hpq
    exact Option.some.inj (hs.symm.trans ht)
  · simp only [Route.rank, EmbeddingLike.apply_eq_iff_eq, Prod.mk.injEq] at he
    exact absurd he.2.2.2.2 (hd p q s t hs ht hpq)

theorem best_congr {h h' : Host} {r r' : Rib} {k : PrefixKey} (hd : r.Distinct k)
    (hr : ∀ peer, r.route peer k = r'.route peer k) : r.best h k = r'.best h' k := by
  apply first_congr Route.rankedBy_cmp
  · intro a
    simp only [mem_candidates, hr]
  · intro a ha b hb he
    obtain ⟨p, hp⟩ := mem_candidates.mp ha
    obtain ⟨q, hq⟩ := mem_candidates.mp hb
    exact hd.eq_of_rank hp hq he

theorem Decided.unique {r r' : Rib} {k : PrefixKey} (hr : ∀ peer, r.route peer k = r'.route peer k)
    (hd : r.Decided k) (hd' : r'.Decided k) (hk : r.Distinct k) :
    (r.locRib.lookup k).map Route.fresh = (r'.locRib.lookup k).map Route.fresh := by
  have hiff : (r.locRib.lookup k).isSome ↔ (r'.locRib.lookup k).isSome := by
    simp only [hd.isSome_iff, hd'.isSome_iff, hr]
  rcases hb : r.locRib.lookup k with _ | b
  · rw [hb, Option.isSome_none, iff_comm, Bool.false_eq_true, iff_false, Bool.not_eq_true,
      Option.isSome_eq_false_iff, Option.isNone_iff_eq_none] at hiff
    rw [hiff]
  · rw [hb, Option.isSome_some, eq_self, true_iff] at hiff
    obtain ⟨b', hb'⟩ := Option.isSome_iff_exists.mp hiff
    obtain ⟨p, s, hs, hbs⟩ := hd.chosen b hb
    obtain ⟨q, t, ht, hbt⟩ := hd'.chosen b' hb'
    rw [← hr] at ht
    have hst : s.rank = t.rank := by
      rw [← s.rank_fresh, ← t.rank_fresh, ← hbs, ← hbt, Route.rank_fresh, Route.rank_fresh]
      apply le_antisymm
      · rw [← b'.rank_fresh, hbt, Route.rank_fresh]
        exact not_lt.mp (hd.best b hb q t ht)
      · rw [← b.rank_fresh, hbs, Route.rank_fresh]
        exact not_lt.mp (hd'.best b' hb' p s (hr p ▸ hs))
    rw [hb', Option.map_some, Option.map_some, hbs, hbt, hk.eq_of_rank hs ht hst]

structure SameTiming (h h' : Host) : Prop where
  clock : h.clock = h'.clock
  decayed : h.decayed = h'.decayed

theorem staleKeys_perm {h h' : Host} {r r' : Rib} {peer : SocketAddr}
    (ht : r.adjRibIn.lookup peer = r'.adjRibIn.lookup peer) :
    (r.staleKeys h peer).Perm (r'.staleKeys h' peer) := by
  rw [staleKeys, staleKeys, ← ht]
  cases r.adjRibIn.lookup peer with
  | none => exact .refl _
  | some adj => exact (HashMap.keysBy_perm _ _ _).filter _

theorem change_orders {h h' : Host} {r r' c : Rib} {keys : List PrefixKey} {op : RibOp} (hh : SameTiming h h')
    (ht : SameTables r r') (hc : r.change h op = some (c, keys)) :
    ∃ c' keys', r'.change h' op = some (c', keys') ∧ SameTables c c' ∧ keys.Perm keys' := by
  have hstale (peer : SocketAddr) : (r.staleKeys h peer).Perm (r'.staleKeys h' peer) :=
    staleKeys_perm (by rw [ht.adjRibIn])
  obtain ⟨adj, loc, table, rpki⟩ := r
  obtain ⟨adj', loc', table', rpki'⟩ := r'
  obtain ⟨rfl, rfl, rfl⟩ := ht
  cases op with
  | processUpdate peer peerAs nlri attrs withdrawn =>
    obtain ⟨s, hs, rfl, rfl⟩ := exists_intake hc
    have hs' : (⟨adj, loc', table, rpki⟩ : Rib).intake h' peer peerAs nlri attrs withdrawn = some s := by
      rw [← hs, intake, intake, hh.clock, hh.decayed]
    rw [change, hs']
    exact ⟨_, _, rfl, ⟨rfl, rfl, rfl⟩, .refl _⟩
  | removePeer peer =>
    obtain ⟨rfl, rfl⟩ := Prod.mk.inj (Option.some.inj hc)
    refine ⟨_, _, rfl, ⟨rfl, rfl, rfl⟩, ?_⟩
    simp only
    cases adj.lookup peer with
    | none => exact .refl _
    | some m => exact HashMap.keysBy_perm _ _ _
  | markPeerStale peer =>
    obtain ⟨rfl, rfl⟩ := Prod.mk.inj (Option.some.inj hc)
    refine ⟨_, _, rfl, ?_, .refl _⟩
    simp only [markPeerStale]
    cases adj.lookup peer <;> exact ⟨rfl, rfl, rfl⟩
  | removeStaleForPeer peer =>
    obtain ⟨rfl, rfl⟩ := Prod.mk.inj (Option.some.inj hc)
    refine ⟨_, _, rfl, ⟨?_, rfl, rfl⟩, hstale peer⟩
    simp only
    cases adj.lookup peer with
    | none => rfl
    | some m => simp only [HashMap.eraseAll_perm m (hstale peer)]

structure Agree (r r' : Rib) : Prop extends SameTables r r' where
  locRib : ∀ k, r.Distinct k → r.locRib.lookup k = r'.locRib.lookup k

theorem Distinct.of_changed {r r' : Rib} {keys : List PrefixKey} (hc : Changed r r' keys) {k : PrefixKey}
    (hk : k ∉ keys) (hd : r'.Distinct k) : r.Distinct k := by
  intro p q s t hs ht hpq
  have hp := hc.routes k hk p
  have hq := hc.routes k hk q
  rw [hs, Option.map_some] at hp
  rw [ht, Option.map_some] at hq
  obtain ⟨s', hs', hf⟩ := Option.map_eq_some_iff.mp hp
  obtain ⟨t', ht', hg⟩ := Option.map_eq_some_iff.mp hq
  rw [← s.receivedAt_fresh, ← t.receivedAt_fresh, ← hf, ← hg]
  exact hd p q s' t' hs' ht' hpq

theorem apply_agree {h h' : Host} {r r' s : Rib} {op : RibOp} (hh : SameTiming h h') (ha : Agree r r')
    (hs : r.apply h op = some s) : ∃ s', r'.apply h' op = some s' ∧ Agree s s' := by
  obtain ⟨c, keys, hc, rfl⟩ := exists_change hs
  obtain ⟨c', keys', hc', ht, hp⟩ := change_orders hh ha.toSameTables hc
  have hch := change_changed hc
  have hch' := change_changed hc'
  have hsame := runDecisions_sameTables h c keys
  refine ⟨c'.runDecisions h' keys', by rw [apply_eq, hc', Option.map_some],
    hsame.trans (ht.trans (runDecisions_sameTables h' c' keys').symm), ?_⟩
  intro k hd
  have hdc : c.Distinct k := by
    simp only [Distinct, ← hsame.route_eq]
    exact hd
  rw [lookup_runDecisions, lookup_runDecisions, hch.locRib, hch'.locRib]
  by_cases hk : k ∈ keys
  · rw [if_pos hk, if_pos (hp.mem_iff.mp hk)]
    exact best_congr hdc fun peer => ht.route_eq peer k
  · rw [if_neg hk, if_neg fun hk' => hk (hp.mem_iff.mpr hk')]
    exact ha.locRib k (hdc.of_changed hch hk)

theorem run_agree {calls calls' : List (Host × RibOp)}
    (hc : List.Forall₂ (fun c c' => SameTiming c.1 c'.1 ∧ c.2 = c'.2) calls calls') {r r' s : Rib}
    (ha : Agree r r') (hs : r.run calls = some s) : ∃ s', r'.run calls' = some s' ∧ Agree s s' := by
  induction hc generalizing r r' with
  | nil =>
    obtain rfl := Option.some.inj hs
    exact ⟨r', rfl, ha⟩
  | @cons c c' calls calls' hcc _ ih =>
    obtain ⟨ht, he⟩ := hcc
    rw [run, List.foldlM_cons] at hs
    obtain ⟨u, hu, hs⟩ := Option.bind_eq_some_iff.mp hs
    obtain ⟨u', hu', ha'⟩ := apply_agree ht ha hu
    obtain ⟨s', hs', hfin⟩ := ih ha' hs
    refine ⟨s', ?_, hfin⟩
    rw [run, List.foldlM_cons, ← he, hu']
    exact hs'

end Orders

theorem run_locRib (calls : List (Host × RibOp)) :
    ∃ r, new.run calls = some r ∧ ∀ k, r.Decided k ∧
      (r.Distinct k → ∀ calls',
        List.Forall₂ (fun c c' => SameTiming c.1 c'.1 ∧ c.2 = c'.2) calls calls' →
        ∃ r', new.run calls' = some r' ∧ r.adjRibIn = r'.adjRibIn ∧ r.locRib.lookup k = r'.locRib.lookup k) := by
  have hstep (r : Rib) (c : Host × RibOp) (hI : r.rpki.mode = .disabled ∧ ∀ k, r.Decided k) :
      ∃ r', r.apply c.1 c.2 = some r' ∧ r'.rpki.mode = .disabled ∧ ∀ k, r'.Decided k := by
    obtain ⟨r', hr'⟩ := exists_apply hI.1 c.1 c.2
    exact ⟨r', hr', by rw [apply_rpki hr', hI.1], apply_decided hI.2 hr'⟩
  obtain ⟨r, hr, -, hd⟩ := exists_foldlM hstep calls (s := new) ⟨rfl, decided_start {} {}⟩
  refine ⟨r, hr, ?_⟩
  intro k
  refine ⟨hd k, ?_⟩
  intro hk calls' hc
  obtain ⟨r', hr', ha⟩ := run_agree hc ⟨⟨rfl, rfl, rfl⟩, fun _ _ => rfl⟩ hr
  exact ⟨r', hr', ha.adjRibIn, ha.locRib k hk⟩

def samplePeer (n : UInt8) : SocketAddr := .v4 (.new 10 0 0 n) 179

def sampleHost : Host := ⟨fun n => n, fun _ _ p => p, .listed, .listed⟩

def samplePrefix : Prefix := ⟨24, .new 192 168 1 0⟩

def sampleCalls (peers : IterOrder SocketAddr) : List (Host × RibOp) :=
  [(⟨fun n => 1 + n, fun _ _ p => p, peers, .listed⟩, .processUpdate (samplePeer 1) 65001 [samplePrefix] {} []),
    (⟨fun n => 2 + n, fun _ _ p => p, peers, .listed⟩, .processUpdate (samplePeer 2) 65002 [samplePrefix] {} [])]

theorem run_locRib_sample :
    ∃ r r', new.run (sampleCalls .listed) = some r ∧
      new.run (sampleCalls ⟨List.reverse, List.reverse_perm⟩) = some r' ∧
      r.Distinct (.ofPrefix samplePrefix) ∧
      r.locRib.lookup (.ofPrefix samplePrefix) = r'.locRib.lookup (.ofPrefix samplePrefix) := by
  obtain ⟨r, hr, hk⟩ := run_locRib (sampleCalls .listed)
  have hd : (new.run (sampleCalls .listed)).map (fun r => decide (r.Distinct (.ofPrefix samplePrefix))) =
      some true := by
    decide
  rw [hr, Option.map_some, Option.some.injEq, decide_eq_true_eq] at hd
  obtain ⟨r', hr', -, he⟩ := (hk _).2 hd (sampleCalls ⟨List.reverse, List.reverse_perm⟩)
    (.cons ⟨⟨rfl, rfl⟩, rfl⟩ (.cons ⟨⟨rfl, rfl⟩, rfl⟩ .nil))
  exact ⟨r, r', hr, hr', hd, he⟩

end Rib

end PathForge.Routing
