import PathForge.UpdateEffects

namespace PathForge.Routing

open Tables Selection Wire Fallible History

namespace Rib

variable {h : Host} {r r' : Rib} {peer : SocketAddr} {peerAs : UInt32} {nlri withdrawn : List Prefix}
  {attrs : PathAttributes} {k : PrefixKey}

section Frame

theorem locRib_processUpdate (hr : r.processUpdate h peer peerAs nlri attrs withdrawn = some r')
    (hn : k ∉ nlri.map .ofPrefix) (hw : k ∉ withdrawn.map .ofPrefix) : r'.locRib.lookup k = r.locRib.lookup k := by
  obtain ⟨t, ht, rfl⟩ := exists_processed hr
  rw [lookup_runDecisions, if_neg]
  rw [List.mem_append, not_or]
  exact ⟨fun hk => hn ((mem_affected_intake ht k).mp hk).mem_nlri, hw⟩

theorem processUpdate_effect (hd : ∀ k ∈ nlri.map PrefixKey.ofPrefix, k ∉ withdrawn.map .ofPrefix)
    (hr : r.processUpdate h peer peerAs nlri attrs withdrawn = some r') :
    (∀ k ∈ withdrawn.map .ofPrefix, r'.route peer k = none) ∧
      (∀ k, r.Installs k (h, .processUpdate peer peerAs nlri attrs withdrawn) → ∃ s, r'.route peer k = some s ∧
        .ofPrefix s.pfx = k ∧ s.attrs = attrs ∧ s.peerAddr = peer ∧ s.peerAs = peerAs ∧ s.stale = false ∧
        r.rpki.validate k.address k.prefixLen peerAs = some s.rovState) ∧
      (∀ k, k ∉ nlri.map .ofPrefix → k ∉ withdrawn.map .ofPrefix →
        r'.route peer k = r.route peer k ∧ r'.locRib.lookup k = r.locRib.lookup k) ∧
      ∀ q, q ≠ peer → r'.adjRibIn.lookup q = r.adjRibIn.lookup q := by
  refine ⟨?_, ?_, ?_, ?_⟩
  · intro k hk
    cases updated_route hr k with
    | gone _ hnone => exact hnone
    | written hw _ _ _ _ => exact absurd hk hw
    | left hw _ _ => exact absurd hk hw
  · intro k hi
    cases updated_route hr k with
    | gone hw _ => exact absurd hw (hd k hi.mem_nlri)
    | written _ _ s hs hroute =>
      exact ⟨s, hs, hroute.key, hroute.attrs, hroute.peerAddr, hroute.peerAs, hroute.stale,
        hroute.peerAs ▸ hroute.verdict⟩
    | left _ hn _ => exact absurd hi hn
  · intro k hn hw
    refine ⟨?_, locRib_processUpdate hr hn hw⟩
    cases updated_route hr k with
    | gone hw' _ => exact absurd hw' hw
    | written _ hi _ _ _ => exact absurd hi.mem_nlri hn
    | left _ _ hsame => exact hsame
  · intro q hq
    have ha : r.apply h (.processUpdate peer peerAs nlri attrs withdrawn) = some r' := hr
    exact (apply_frame ha hq).table.symm

theorem processUpdate_effect_sample :
    ∃ r' s, new.processUpdate sampleHost (samplePeer 1) 65001 [samplePrefix] {} [⟨16, .new 10 1 0 0⟩] = some r' ∧
      r'.route (samplePeer 1) (.ofPrefix samplePrefix) = some s ∧ s.stale = false ∧
      r'.route (samplePeer 1) ⟨.new 10 1 0 0, 16⟩ = none := by
  obtain ⟨r', hr⟩ := exists_apply (r := new) rfl sampleHost
    (.processUpdate (samplePeer 1) 65001 [samplePrefix] {} [⟨16, .new 10 1 0 0⟩])
  have hi : new.Installs (.ofPrefix samplePrefix)
      (sampleHost, .processUpdate (samplePeer 1) 65001 [samplePrefix] {} [⟨16, .new 10 1 0 0⟩]) :=
    ⟨[], samplePrefix, [], _, rfl, rfl, rfl, by decide +kernel, .notFound, rfl, rfl⟩
  obtain ⟨hgone, hwritten, -, -⟩ := processUpdate_effect (by decide) hr
  obtain ⟨s, hs, -, -, -, -, hstale, -⟩ := hwritten _ hi
  exact ⟨r', s, hr, hs, hstale, hgone _ (by decide)⟩

end Frame

section Both

/-- An UPDATE that lists a prefix as withdrawn and announces it leaves its peer without a route for it, for
the withdrawn routes are taken out last. -/
theorem processUpdate_both (hw : k ∈ withdrawn.map .ofPrefix)
    (hi : r.Installs k (h, .processUpdate peer peerAs nlri attrs withdrawn))
    (hr : r.processUpdate h peer peerAs nlri attrs withdrawn = some r') :
    ¬ (r.Installs k (h, .processUpdate peer peerAs nlri attrs withdrawn) →
      (∃ s, r'.route peer k = some s ∧ s.attrs = attrs ∧ s.peerAs = peerAs) ∧ (r'.locRib.lookup k).isSome) := by
  intro hall
  obtain ⟨⟨s, hs, -⟩, -⟩ := hall hi
  cases updated_route hr k with
  | gone _ hnone =>
    rw [hnone] at hs
    cases hs
  | written hw' _ _ _ _ => exact hw' hw
  | left hw' _ _ => exact hw' hw

theorem installs_new : new.Installs (.ofPrefix samplePrefix)
    (sampleHost, .processUpdate (samplePeer 1) 65001 [samplePrefix] {} [samplePrefix]) :=
  ⟨[], samplePrefix, [], _, rfl, rfl, rfl, by decide +kernel, .notFound, rfl, rfl⟩

theorem processUpdate_both_sample :
    ∃ r', new.processUpdate sampleHost (samplePeer 1) 65001 [samplePrefix] {} [samplePrefix] = some r' ∧
      ¬ (new.Installs (.ofPrefix samplePrefix)
          (sampleHost, .processUpdate (samplePeer 1) 65001 [samplePrefix] {} [samplePrefix]) →
        (∃ s, r'.route (samplePeer 1) (.ofPrefix samplePrefix) = some s ∧ s.attrs = {} ∧ s.peerAs = 65001) ∧
          (r'.locRib.lookup (.ofPrefix samplePrefix)).isSome) := by
  obtain ⟨r', hr⟩ := exists_apply (r := new) rfl sampleHost
    (.processUpdate (samplePeer 1) 65001 [samplePrefix] {} [samplePrefix])
  exact ⟨r', hr, processUpdate_both (by decide) installs_new hr⟩

theorem processUpdate_both_absent :
    new.Installs (.ofPrefix samplePrefix)
        (sampleHost, .processUpdate (samplePeer 1) 65001 [samplePrefix] {} [samplePrefix]) ∧
      (new.processUpdate sampleHost (samplePeer 1) 65001 [samplePrefix] {} [samplePrefix]).map (fun r' =>
        (r'.route (samplePeer 1) (.ofPrefix samplePrefix), r'.locRib.lookup (.ofPrefix samplePrefix))) =
          some (none, none) :=
  ⟨installs_new, by decide +kernel⟩

end Both

section Replacement

inductive Action where
  | call (h : Host) (op : RibOp)
  | addRoa (roa : Roa)
  | setMode (mode : RpkiMode)

def act (r : Rib) : Action → Option Rib
  | .call h op => r.apply h op
  | .addRoa roa => some { r with rpki := r.rpki.addRoa roa }
  | .setMode mode => some { r with rpki := { r.rpki with mode := mode } }

def perform (r : Rib) (actions : List Action) : Option Rib := actions.foldlM act r

theorem act_quiet {a : Action} (hq : r.Quiet) (ha : r.act a = some r') : r'.Quiet := by
  cases a with
  | call h op => exact apply_quiet hq ha
  | addRoa roa =>
    obtain rfl := Option.some.inj ha
    exact hq
  | setMode mode =>
    obtain rfl := Option.some.inj ha
    exact hq

theorem perform_quiet {config : DampeningConfig} {rpki : RpkiValidator} {actions : List Action}
    (hr : (start config rpki).perform actions = some r) : r.Quiet :=
  foldlM_invariant (I := Quiet) (fun _ _ _ hq ha => act_quiet hq ha) (quiet_start config rpki) hr

def Rejects (r : Rib) (k : PrefixKey) (peerAs : UInt32) : Prop :=
  ∃ rov, r.rpki.validate k.address k.prefixLen peerAs = some rov ∧ r.rpki.shouldReject rov = true

theorem Installs.not_rejects (hi : r.Installs k (h, .processUpdate peer peerAs nlri attrs withdrawn)) :
    ¬ r.Rejects k peerAs := by
  obtain ⟨before, p, after, u, -, -, rfl, -, rov, hrov, hacc⟩ := hi
  rintro ⟨rov', hrov', hrej⟩
  obtain rfl := Option.some.inj (hrov.symm.trans hrov')
  rw [hacc] at hrej
  cases hrej

theorem installs_of_route (hq : r.Quiet) (hr : r.processUpdate h peer peerAs nlri attrs withdrawn = some r')
    (hk : k ∈ nlri.map .ofPrefix) (hw : k ∉ withdrawn.map .ofPrefix) (hs : (r.route peer k).isSome)
    (hrej : ¬ r.Rejects k peerAs) : r.Installs k (h, .processUpdate peer peerAs nlri attrs withdrawn) := by
  obtain ⟨t, ht, -⟩ := exists_processed hr
  obtain ⟨p, hp, rfl⟩ := List.mem_map.mp hk
  obtain ⟨before, after, rfl⟩ := List.append_of_mem hp
  rw [intake, List.foldlM_append] at ht
  obtain ⟨u, hu, ht⟩ := Option.bind_eq_some_iff.mp ht
  rw [List.foldlM_cons] at ht
  obtain ⟨v, hv, -⟩ := Option.bind_eq_some_iff.mp ht
  have hfree : u.dampening.isSuppressed peer (.ofPrefix p) = false := by
    apply foldlM_invariant (I := fun s : Intake => s.dampening.isSuppressed peer (.ofPrefix p) = false) _ _ hu
    · intro s q s' hs ha
      rw [← Bool.not_eq_true] at hs ⊢
      exact fun hf => hs (Intake.isSuppressed_of_announce ha hf)
    · rw [Intake.isSuppressed_foldl_withdraw hw, ← Bool.not_eq_true]
      intro hf
      rw [hq peer _ hf] at hs
      cases hs
  have hcheck : (u.check h.decayed peer (.ofPrefix p)).1 = false := by
    rw [← Bool.not_eq_true] at hfree ⊢
    rw [← Intake.check_flag]
    exact fun hf => hfree (Intake.isSuppressed_of_check hf)
  rw [Intake.announce_eq] at hv
  obtain ⟨rov, hrov, -⟩ := Option.map_eq_some_iff.mp hv
  refine ⟨before, p, after, u, rfl, hu, rfl, ?_, rov, hrov, ?_⟩
  · rw [Intake.run_checkAdvertisement]
    exact hcheck
  · rw [← Bool.not_eq_true]
    exact fun hr => hrej ⟨rov, hrov, hr⟩

def Replaces (r : Rib) (h : Host) (peer : SocketAddr) (peerAs : UInt32) (nlri : List Prefix)
    (attrs : PathAttributes) (withdrawn : List Prefix) (r' : Rib) : Prop :=
  ∀ k ∈ nlri.map .ofPrefix, k ∉ withdrawn.map .ofPrefix →
    r'.route peer k = none ∨ r.Installs k (h, .processUpdate peer peerAs nlri attrs withdrawn) ∧
      ∃ s, r'.route peer k = some s ∧ s.stale = false ∧ s.attrs = attrs ∧ s.peerAs = peerAs

theorem processUpdate_replaces_iff {config : DampeningConfig} {rpki : RpkiValidator} {actions : List Action}
    (hr : (start config rpki).perform actions = some r)
    (hu : r.processUpdate h peer peerAs nlri attrs withdrawn = some r') :
    r.Replaces h peer peerAs nlri attrs withdrawn r' ↔
      ∀ k ∈ nlri.map .ofPrefix, k ∉ withdrawn.map .ofPrefix → r.Rejects k peerAs → r.route peer k = none := by
  have hq := perform_quiet hr
  constructor
  · intro hall k hk hw hrej
    cases updated_route hu k with
    | gone hw' _ => exact absurd hw' hw
    | written _ hi _ _ _ => exact absurd hrej hi.not_rejects
    | left _ hn hsame =>
      rw [← hsame]
      exact (hall k hk hw).resolve_right fun hi => hn hi.1
  · intro hall k hk hw
    cases updated_route hu k with
    | gone hw' _ => exact absurd hw' hw
    | written _ hi s hs hroute => exact .inr ⟨hi, s, hs, hroute.stale, hroute.attrs, hroute.peerAs⟩
    | left _ hn hsame =>
      left
      rw [hsame, ← Option.not_isSome_iff_eq_none]
      intro hs
      by_cases hrej : r.Rejects k peerAs
      · rw [hall k hk hw hrej] at hs
        cases hs
      · exact hn (installs_of_route hq hu hk hw hs hrej)

def rejectingActions : List Action :=
  [.call sampleHost (.processUpdate (samplePeer 1) 65001 [samplePrefix] {} []),
    .addRoa ⟨.new 192 168 1 0, 24, 24, 65002⟩, .setMode .strict]

theorem exists_rejecting :
    ∃ r r', (start {} {}).perform rejectingActions = some r ∧
      r.processUpdate sampleHost (samplePeer 1) 65001 [samplePrefix] { localPref := some 200 } [] = some r' ∧
      (r'.route (samplePeer 1) (.ofPrefix samplePrefix)).map Route.attrs = some {} := by
  have h : (((start {} {}).perform rejectingActions).bind fun r =>
      (r.processUpdate sampleHost (samplePeer 1) 65001 [samplePrefix] { localPref := some 200 } []).map fun r' =>
        (r'.route (samplePeer 1) (.ofPrefix samplePrefix)).map Route.attrs) = some (some {}) := by decide +kernel
  obtain ⟨r, hr, h⟩ := Option.bind_eq_some_iff.mp h
  obtain ⟨r', hr', h⟩ := Option.map_eq_some_iff.mp h
  exact ⟨r, r', hr, hr', h⟩

theorem processUpdate_not_replaces :
    ∃ r r', (start {} {}).perform rejectingActions = some r ∧
      r.processUpdate sampleHost (samplePeer 1) 65001 [samplePrefix] { localPref := some 200 } [] = some r' ∧
      ¬ r.Replaces sampleHost (samplePeer 1) 65001 [samplePrefix] { localPref := some 200 } [] r' := by
  obtain ⟨r, r', hr, hr', ho⟩ := exists_rejecting
  refine ⟨r, r', hr, hr', ?_⟩
  intro hall
  rcases hall (.ofPrefix samplePrefix) (by decide) (by decide) with hn | ⟨-, s, hs, -, ha, -⟩
  · rw [hn] at ho
    cases ho
  · rw [hs, Option.map_some, ha] at ho
    cases ho

theorem processUpdate_replaces_iff_rejected :
    ∃ r r', (start {} {}).perform rejectingActions = some r ∧
      r.processUpdate sampleHost (samplePeer 1) 65001 [samplePrefix] { localPref := some 200 } [] = some r' ∧
      (r.Replaces sampleHost (samplePeer 1) 65001 [samplePrefix] { localPref := some 200 } [] r' ↔
        ∀ k ∈ [samplePrefix].map .ofPrefix, k ∉ ([] : List Prefix).map .ofPrefix → r.Rejects k 65001 →
          r.route (samplePeer 1) k = none) := by
  obtain ⟨r, r', hr, hr', -⟩ := exists_rejecting
  exact ⟨r, r', hr, hr', processUpdate_replaces_iff hr hr'⟩

end Replacement

end Rib

end PathForge.Routing
