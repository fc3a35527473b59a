import PathForge.UpdateEffects

namespace PathForge.Routing

open Tables Selection Wire Fallible History

/-- The AS a route comes from: the last number of a path that ends in an AS_SEQUENCE. -/
def originAs (attrs : PathAttributes) : Option UInt32 :=
  match attrs.asPath.getLast? with
  | some (.asSequence asns) => asns.getLast?
  | _ => none

namespace RpkiValidator

variable {v : RpkiValidator} {p : Prefix} {asn asn' : UInt32} {rov : RovState}

def Covered (v : RpkiValidator) (p : Prefix) : Prop := ∃ roa ∈ v.roas, roa.covers p.address p.prefixLen = some true

def Authorises (v : RpkiValidator) (p : Prefix) (asn : UInt32) : Prop :=
  ∃ roa ∈ v.roas, roa.covers p.address p.prefixLen = some true ∧ roa.originAs = asn

theorem validate_spec (hm : v.mode ≠ .disabled) (h : v.validate p.address p.prefixLen asn = some rov) :
    (rov = .notFound ↔ ¬ v.Covered p) ∧ (rov = .valid ↔ v.Authorises p asn) := by
  rw [validate, if_neg hm] at h
  obtain ⟨covering, hc, h⟩ := Option.bind_eq_some_iff.mp h
  have hmem := mem_filterM hc
  have hcov : v.Covered p ↔ covering ≠ [] := by
    rw [Covered, ne_eq, List.eq_nil_iff_forall_not_mem]
    simp only [hmem]
    push Not
    rfl
  have hauth : v.Authorises p asn ↔ (covering.any fun r => r.originAs == asn) = true := by
    simp only [Authorises, List.any_eq_true, hmem, beq_iff_eq, and_assoc]
  rw [hcov, hauth, not_not]
  split_ifs at h with hnil hany
  · obtain rfl := Option.some.inj h
    simp [hnil]
  · obtain rfl := Option.some.inj h
    simp [hnil, hany]
  · obtain rfl := Option.some.inj h
    simp [hnil, hany]

theorem exists_validate (asn' : UInt32) (h : v.validate p.address p.prefixLen asn = some rov) :
    ∃ rov', v.validate p.address p.prefixLen asn' = some rov' := by
  unfold validate at h ⊢
  split_ifs at h ⊢
  · exact ⟨_, rfl⟩
  · obtain ⟨covering, hc, -⟩ := Option.bind_eq_some_iff.mp h
    rw [hc]
    simp only [Option.bind_eq_bind, Option.bind_some]
    split_ifs <;> exact ⟨_, rfl⟩

theorem verdict_eq_iff {rov' : RovState} (h : v.validate p.address p.prefixLen asn = some rov)
    (h' : v.validate p.address p.prefixLen asn' = some rov') :
    rov = rov' ↔ v.mode = .disabled ∨ (v.Authorises p asn ↔ v.Authorises p asn') := by
  by_cases hm : v.mode = .disabled
  · have hnf (asn : UInt32) : v.validate p.address p.prefixLen asn = some .notFound := if_pos hm
    rw [hnf, Option.some.injEq] at h h'
    simp [← h, ← h', hm]
  · obtain ⟨hn, ha⟩ := validate_spec hm h
    obtain ⟨hn', ha'⟩ := validate_spec hm h'
    rw [← ha, ← ha', or_iff_right hm]
    have hnn : rov = .notFound ↔ rov' = .notFound := hn.trans hn'.symm
    revert hnn
    cases rov <;> cases rov' <;> decide

end RpkiValidator

namespace Intake

variable {d : Decay} {rpki : RpkiValidator} {peer : SocketAddr} {peerAs : UInt32} {attrs : PathAttributes}
  {s : Intake} {p : Prefix} {rov rov' : RovState}

def Suppressed (d : Decay) (peer : SocketAddr) (p : Prefix) (s : Intake) : Prop :=
  ((s.dampening.checkAdvertisement d peer (.ofPrefix p)).run s.clock).1.1 = true

theorem suppressed_iff : s.Suppressed d peer p ↔ (s.check d peer (.ofPrefix p)).1 = true := by
  rw [Suppressed, run_checkAdvertisement]

instance : Decidable (s.Suppressed d peer p) := decidable_of_iff _ suppressed_iff.symm

def judge (d : Decay) (rpki : RpkiValidator) (peer : SocketAddr) (peerAs : UInt32) (attrs : PathAttributes)
    (s : Intake) (p : Prefix) (rov : RovState) : Intake :=
  let c := s.check d peer (.ofPrefix p)
  if (c.1 || rpki.shouldReject rov) = true then c.2 else c.2.install peer p peerAs attrs rov

theorem judge_suppressed (hs : s.Suppressed d peer p) (rov rov' : RovState) :
    s.judge d rpki peer peerAs attrs p rov = s.judge d rpki peer peerAs attrs p rov' := by
  rw [suppressed_iff] at hs
  simp only [judge, hs, Bool.true_or, if_true]

theorem judge_inj (hs : ¬ s.Suppressed d peer p)
    (h : s.judge d rpki peer peerAs attrs p rov = s.judge d rpki peer peerAs attrs p rov') : rov = rov' := by
  rw [suppressed_iff, Bool.not_eq_true] at hs
  simp only [judge, hs, Bool.false_or] at h
  have hrej {x : RovState} (hx : rpki.shouldReject x = true) : x = .invalid := by
    rw [RpkiValidator.shouldReject, Bool.and_eq_true, beq_iff_eq, beq_iff_eq] at hx
    exact hx.2
  split_ifs at h with hr hr' hr'
  · rw [hrej hr, hrej hr']
  · have hlen := congrArg (fun s : Intake => s.affected.length) h
    simp [install] at hlen
  · have hlen := congrArg (fun s : Intake => s.affected.length) h
    simp [install] at hlen
  · have hroute := congrArg (fun s : Intake => s.adjIn.lookup (.ofPrefix p)) h
    simp only [install, AList.lookup_insert, Option.some.injEq, Route.mk.injEq] at hroute
    exact hroute.2.2.2.2.2.2

end Intake

namespace Rib

variable {r : Rib} {h : Host} {peer : SocketAddr} {peerAs : UInt32} {nlri withdrawn : List Prefix}
  {attrs : PathAttributes} {origin : UInt32}

def Round (r : Rib) (h : Host) (peer : SocketAddr) (peerAs : UInt32) (nlri : List Prefix) (attrs : PathAttributes)
    (withdrawn : List Prefix) (s : Intake) (p : Prefix) (t : Intake) : Prop :=
  ∃ before after, nlri = before ++ p :: after ∧ r.intake h peer peerAs before attrs withdrawn = some s ∧
    s.announce h.decayed r.rpki peer peerAs attrs p = some t

def JudgedByOrigin (r : Rib) (h : Host) (peer : SocketAddr) (peerAs : UInt32) (nlri : List Prefix)
    (attrs : PathAttributes) (withdrawn : List Prefix) : Prop :=
  ∀ s p t, r.Round h peer peerAs nlri attrs withdrawn s p t →
    ∃ rov, (originAs attrs).bind (r.rpki.validate p.address p.prefixLen) = some rov ∧
      t = s.judge h.decayed r.rpki peer peerAs attrs p rov

theorem judgedByOrigin_iff (ho : originAs attrs = some origin) :
    r.JudgedByOrigin h peer peerAs nlri attrs withdrawn ↔
      ∀ s p t, r.Round h peer peerAs nlri attrs withdrawn s p t →
        s.Suppressed h.decayed peer p ∨ r.rpki.mode = .disabled ∨
          (r.rpki.Authorises p peerAs ↔ r.rpki.Authorises p origin) := by
  have hround {s t : Intake} {p : Prefix} (hr : r.Round h peer peerAs nlri attrs withdrawn s p t) :
      ∃ rov, r.rpki.validate p.address p.prefixLen peerAs = some rov ∧
        s.judge h.decayed r.rpki peer peerAs attrs p rov = t := by
    obtain ⟨before, after, -, -, ht⟩ := hr
    rw [Intake.announce_eq] at ht
    exact Option.map_eq_some_iff.mp ht
  unfold JudgedByOrigin
  rw [ho]
  constructor
  · intro hall s p t hr
    obtain ⟨rov, hrov, rfl⟩ := hround hr
    obtain ⟨rov', hrov', he⟩ := hall s p _ hr
    rw [or_iff_not_imp_left]
    intro hs
    exact (RpkiValidator.verdict_eq_iff hrov hrov').mp (Intake.judge_inj hs he)
  · intro hall s p t hr
    obtain ⟨rov, hrov, rfl⟩ := hround hr
    obtain ⟨rov', hrov'⟩ := RpkiValidator.exists_validate origin hrov
    refine ⟨rov', hrov', ?_⟩
    rcases hall s p _ hr with hs | hv
    · exact Intake.judge_suppressed hs rov rov'
    · rw [(RpkiValidator.verdict_eq_iff hrov hrov').mpr hv]

def transitAttrs : PathAttributes := { asPath := [.asSequence [65001, 65002]] }

def originRib : Rib := start {} ⟨.strict, [⟨.new 192 168 1 0, 24, 24, 65002⟩]⟩

theorem judgedByOrigin_iff_transit :
    originAs transitAttrs = some 65002 ∧
      (originRib.JudgedByOrigin sampleHost (samplePeer 1) 65001 [samplePrefix] transitAttrs [] ↔
        ∀ s p t, originRib.Round sampleHost (samplePeer 1) 65001 [samplePrefix] transitAttrs [] s p t →
          s.Suppressed sampleHost.decayed (samplePeer 1) p ∨ originRib.rpki.mode = .disabled ∨
            (originRib.rpki.Authorises p 65001 ↔ originRib.rpki.Authorises p 65002)) :=
  ⟨rfl, judgedByOrigin_iff rfl⟩

theorem transit_not_judgedByOrigin :
    originRib.rpki.validate samplePrefix.address samplePrefix.prefixLen 65002 = some .valid ∧
      ((originRib.processUpdate sampleHost (samplePeer 1) 65001 [samplePrefix] transitAttrs []).map fun r =>
        r.route (samplePeer 1) (.ofPrefix samplePrefix)) = some none ∧
      ¬ originRib.JudgedByOrigin sampleHost (samplePeer 1) 65001 [samplePrefix] transitAttrs [] := by
  have hvalid : originRib.rpki.validate samplePrefix.address samplePrefix.prefixLen 65002 = some .valid := by
    decide +kernel
  have hinvalid : originRib.rpki.validate samplePrefix.address samplePrefix.prefixLen 65001 = some .invalid := by
    decide +kernel
  refine ⟨hvalid, by decide +kernel, ?_⟩
  intro hall
  let s : Intake := ⟨sampleHost.clock, originRib.dampening, ∅, []⟩
  have ht : s.announce sampleHost.decayed originRib.rpki (samplePeer 1) 65001 transitAttrs samplePrefix =
      some (s.judge sampleHost.decayed originRib.rpki (samplePeer 1) 65001 transitAttrs samplePrefix
        .invalid) := by
    rw [Intake.announce_eq, hinvalid]
    rfl
  obtain ⟨rov, hrov, he⟩ := hall s samplePrefix _ ⟨[], [], rfl, rfl, ht⟩
  obtain rfl := Option.some.inj (hvalid.symm.trans hrov)
  cases Intake.judge_inj (by decide) he

end Rib

end PathForge.Routing
