import PathForge.SessionTerms

namespace PathForge.Peering

open Fallible ByteReader Wire Routing

namespace Session

variable {i : Input} {s : Session}

theorem ended_open_iff {o : OpenMessage} (h : s.opens (.step i) = some o) :
    ¬ (s.advance (.step i)).Ended ↔ i.writeOk = true := by
  obtain ⟨msg, ht, hm⟩ := Option.bind_eq_some_iff.mp h
  obtain ⟨hp, ho⟩ := taken_step_eq_some.mp ht
  obtain ⟨buf, hr⟩ := outcome_eq_some.mp ho
  obtain ⟨htype, hbody⟩ := opened_eq_some.mp hm
  obtain ⟨caps, hcaps⟩ := Capability.exists_parseFromOpenParams o.optionalParams
  simp only [advance, step, hp, drain, hr, handleMessage, htype, withBody, hbody, hcaps, handleOpen]
  cases hw : i.writeOk with
  | true => simp [Outcome.ending, Ended, countRx]
  | false => simp [Outcome.ending, Ended]

theorem not_ended_of_advance {e : Event} (h : ¬ (s.advance e).Ended) : ¬ s.Ended := fun he => h (he.advance e)

section Kept

def TermsKept (s : Session) (events : List Event) : Prop :=
  ∀ a b c, events = a ++ (b ++ c) → (s.run a).peer.state = .openConfirm → ¬ (s.run (a ++ b)).Ended →
    (s.run (a ++ b)).peer.terms = (s.run a).peer.terms

def OpensRepeat (s : Session) (events : List Event) : Prop :=
  ∀ a b i c o, events = a ++ (b ++ .step i :: c) → (s.run a).peer.state = .openConfirm →
    (s.run (a ++ b)).opens (.step i) = some o → i.writeOk = true →
    (s.run (a ++ b)).peer.offered o = (s.run (a ++ b)).peer.terms

theorem termsKept_iff (s : Session) (events : List Event) : s.TermsKept events ↔ s.OpensRepeat events := by
  constructor
  · intro hk a b i c o he hs ho hw
    have hadv := (s.run (a ++ b)).advance_follows (.step i)
    have hend := (ended_open_iff ho).mpr hw
    have hbefore := hk a b (.step i :: c) he hs (not_ended_of_advance hend)
    have hafter := hk a (b ++ [.step i]) c (by simp [he]) hs
    rw [← List.append_assoc, run_concat, ← hbefore, hadv.terms, ho] at hafter
    exact hafter hend
  · intro hr a b c he hs hend
    induction b using List.reverseRecOn generalizing c with
    | nil => rw [List.append_nil]
    | append_singleton b e ih =>
      rw [← List.append_assoc, run_concat] at hend ⊢
      have hadv := (s.run (a ++ b)).advance_follows e
      have hprev := ih (e :: c) (by simpa using he) (not_ended_of_advance hend)
      rw [hadv.terms, ← hprev]
      cases ho : (s.run (a ++ b)).opens e with
      | none => rfl
      | some o =>
        cases e with
        | other h op => cases ho
        | step i =>
          rw [ended_open_iff ho] at hend
          exact hr a b i c o (by simpa using he) hs ho hend

def reopenEvents : List Event :=
  let open₁ := (newWithCapabilities 65001 90 (.new 10 0 0 1) []).serialize
  let open₂ := (newWithCapabilities 65002 30 (.new 10 0 0 2) []).serialize
  [.step (sampleInput .timeout), .step (sampleInput (.ok (open₁ ++ KeepaliveMessage.serialize ⟨⟩ ++ open₂))),
    .step (sampleInput .timeout), .step (sampleInput .timeout), .step (sampleInput .timeout)]

theorem reopen_not_termsKept :
    (sampleSession.run (reopenEvents.take 4)).peer.state = .established ∧
      (sampleSession.run reopenEvents).peer.state = .established ∧
      (sampleSession.run (reopenEvents.take 4)).peer.terms = ⟨65001, some (.new 10 0 0 1), [], 90⟩ ∧
      (sampleSession.run reopenEvents).peer.terms = ⟨65002, some (.new 10 0 0 2), [], 30⟩ ∧
      ¬ sampleSession.TermsKept reopenEvents := by
  refine ⟨by decide, by decide, by decide, by decide, ?_⟩
  intro hk
  have hend : ¬ (sampleSession.run reopenEvents).Ended := not_ended_of_draining (by decide)
  have hterms := hk (reopenEvents.take 3) (reopenEvents.drop 3) [] rfl (by decide) hend
  revert hterms
  decide

end Kept

section Timers

def TimersSound (p : Peer) : Prop :=
  (p.negotiatedHoldTime = 0 ∧ p.timers.holdTime = 0 ∧ p.timers.keepaliveInterval = 0 ∧
      p.timers.holdTimerStart = none ∧ p.timers.keepaliveTimerStart = none) ∨
    3 ≤ p.negotiatedHoldTime ∧ 0 < p.timers.keepaliveInterval ∧ p.timers.keepaliveInterval < p.timers.holdTime

theorem timersSound_of_setTo {p : Peer} (h : p.timers.SetTo p.negotiatedHoldTime)
    (hn : p.negotiatedHoldTime = 0 ∨ 3 ≤ p.negotiatedHoldTime) : TimersSound p := by
  have hhold := h.holdTime
  have hinterval := h.keepaliveInterval
  have harmed := h.armed
  have hkeep := h.keepalive
  rw [hinterval] at hkeep
  rcases hn with hz | hn
  · rw [hz] at hhold hinterval harmed hkeep
    refine .inl ⟨hz, hhold, hinterval, ?_, ?_⟩
    · simpa using harmed
    · have hzero : ¬ 0 < (BgpTimers.new 0).keepaliveInterval := by decide
      simpa using fun hs => hzero (hkeep hs)
  · right
    rw [hhold, hinterval]
    generalize p.negotiatedHoldTime = secs at hn
    have hsecs : 3 ≤ secs.toNat := UInt16.le_iff_toNat_le.mp hn
    have hpos : 0 < secs := UInt16.lt_iff_toNat_lt.mpr (show 0 < secs.toNat by omega)
    have hthird : (secs / 3).toNat = secs.toNat / 3 := UInt16.toNat_div secs 3
    rw [BgpTimers.new, if_pos hpos]
    refine ⟨hn, ?_, ?_⟩
    · rw [UInt16.lt_iff_toNat_lt, hthird]
      change 0 < secs.toNat / 3
      omega
    · rw [UInt16.lt_iff_toNat_lt, hthird]
      omega

def ValidHoldTime (secs : UInt16) : Prop := secs = 0 ∨ 3 ≤ secs

theorem validHoldTime_min_iff {a b : UInt16} (ha : ValidHoldTime a) :
    ValidHoldTime (min a b) ↔ a = 0 ∨ b ≠ 1 ∧ b ≠ 2 := by
  simp only [ValidHoldTime, UInt16.le_iff_toNat_le, ← UInt16.toNat_inj, ne_eq] at ha ⊢
  have hmin : (min a b).toNat = min a.toNat b.toNat := by
    change (if a ≤ b then a else b).toNat = _
    split_ifs with hab
    · rw [UInt16.le_iff_toNat_le] at hab
      omega
    · rw [UInt16.le_iff_toNat_le] at hab
      omega
  rw [hmin]
  change a.toNat = 0 ∨ 3 ≤ a.toNat at ha
  change min a.toNat b.toNat = 0 ∨ 3 ≤ min a.toNat b.toNat ↔ a.toNat = 0 ∨ ¬ b.toNat = 1 ∧ ¬ b.toNat = 2
  omega

theorem TimersSound.validHoldTime {p : Peer} (h : TimersSound p) : ValidHoldTime p.negotiatedHoldTime := by
  rcases h with ⟨hz, -⟩ | ⟨hn, -⟩
  · exact .inl hz
  · exact .inr hn

def AlwaysSound (s : Session) (events : List Event) : Prop :=
  ∀ a b, events = a ++ b → ¬ (s.run a).Ended → (s.run a).peer.state.Confirmed → TimersSound (s.run a).peer

def NoShortOpens (s : Session) (events : List Event) : Prop :=
  ∀ a i b o, events = a ++ .step i :: b → (s.run a).opens (.step i) = some o → i.writeOk = true →
    ((s.run a).peer.state = .openSent ∨ (s.run a).peer.state = .openConfirm ∨
      (s.run a).peer.state = .established) →
    o.holdTime ≠ 1 ∧ o.holdTime ≠ 2

theorem run_config (s : Session) (events : List Event) : (s.run events).peer.config = s.peer.config := by
  induction events using List.reverseRecOn with
  | nil => rfl
  | append_singleton events e ih =>
    rw [run_concat, ((s.run events).advance_follows e).config, ih]

theorem open_holdTime {s : Session} {events : List Event} {e : Event} {o : OpenMessage}
    (ho : (s.run events).opens e = some o) :
    ((s.run events).advance e).peer.negotiatedHoldTime = min s.peer.config.holdTime o.holdTime := by
  have hf := (s.run events).advance_follows e
  rw [ho] at hf
  rw [← run_config s events]
  exact congrArg Terms.holdTime hf.terms

theorem run_setTo {s : Session} {events : List Event} (hs : ¬ s.peer.state.Confirmed)
    (hv : ValidHoldTime s.peer.config.holdTime) (hopens : s.peer.config.holdTime = 0 ∨ s.NoShortOpens events)
    (hend : ¬ (s.run events).Ended) (hc : (s.run events).peer.state.Confirmed) :
    (s.run events).peer.timers.SetTo (s.run events).peer.negotiatedHoldTime ∧
      ValidHoldTime (s.run events).peer.negotiatedHoldTime := by
  induction events using List.reverseRecOn with
  | nil => exact absurd hc hs
  | append_singleton events e ih =>
    have hprev : s.peer.config.holdTime = 0 ∨ s.NoShortOpens events := by
      apply hopens.imp_right
      intro hall a i b o he
      exact hall a i (b ++ [e]) o (by simp [he])
    rw [run_concat] at hend hc ⊢
    have hf := (s.run events).advance_follows e
    cases ho : (s.run events).opens e with
    | none =>
      rw [ho] at hf
      have hsecs : ((s.run events).advance e).peer.negotiatedHoldTime = (s.run events).peer.negotiatedHoldTime :=
        congrArg Terms.holdTime hf.terms
      obtain ⟨hset, hvalid⟩ := ih hprev (not_ended_of_advance hend) (hf.state hc)
      rw [hsecs]
      exact ⟨hset.restarted hf.timers, hvalid⟩
    | some o =>
      rw [ho] at hf
      have hset : ((s.run events).advance e).peer.timers.SetTo (min s.peer.config.holdTime o.holdTime) := by
        rw [← run_config s events]
        exact hf.timers
      rw [open_holdTime ho]
      refine ⟨hset, (validHoldTime_min_iff hv).mpr ?_⟩
      apply hopens.imp_right
      intro hall
      cases e with
      | other h op => cases ho
      | step i =>
        have hstate : ((s.run events).advance (.step i)).peer.state = (s.run events).peer.state.next .bgpOpen :=
          hf.state
        rw [hstate] at hc
        exact hall events i [] o rfl ho ((ended_open_iff ho).mp hend) (BgpState.confirmed_next_bgpOpen.mp hc)

theorem alwaysSound_iff (addr : SocketAddr) (config : LocalConfig) (rib : Rib) (metrics : Metrics)
    (events : List Event) (hv : config.holdTime = 0 ∨ 3 ≤ config.holdTime) :
    (handleIncoming addr config rib metrics).AlwaysSound events ↔
      config.holdTime = 0 ∨ (handleIncoming addr config rib metrics).NoShortOpens events := by
  have hstart : ¬ (handleIncoming addr config rib metrics).peer.state.Confirmed := by
    rintro (hs | hs) <;> cases hs
  have hconfig : (handleIncoming addr config rib metrics).peer.config = config := rfl
  generalize handleIncoming addr config rib metrics = s at hstart hconfig
  subst hconfig
  constructor
  · intro hall
    by_cases hz : s.peer.config.holdTime = 0
    · exact .inl hz
    · right
      intro a i b o he ho hw hstate
      have hf := (s.run a).advance_follows (.step i)
      rw [ho] at hf
      have hnext : ((s.run a).advance (.step i)).peer.state = (s.run a).peer.state.next .bgpOpen := hf.state
      have hsound := hall (a ++ [.step i]) b (by simp [he])
      rw [run_concat, hnext, BgpState.confirmed_next_bgpOpen] at hsound
      have hvalid := (hsound ((ended_open_iff ho).mpr hw) hstate).validHoldTime
      rw [open_holdTime ho, validHoldTime_min_iff hv] at hvalid
      exact hvalid.resolve_left hz
  · intro hopens a b he hend hc
    have hprefix : s.peer.config.holdTime = 0 ∨ s.NoShortOpens a := by
      apply hopens.imp_right
      intro hall a' i b' o ha
      exact hall a' i (b' ++ b) o (by simp [he, ha])
    obtain ⟨hset, hvalid⟩ := run_setTo hstart hv hprefix hend hc
    exact timersSound_of_setTo hset hvalid

theorem alwaysSound_iff_sample :
    sampleSession.AlwaysSound sampleEvents ↔ (90 : UInt16) = 0 ∨ sampleSession.NoShortOpens sampleEvents :=
  alwaysSound_iff samplePeer ⟨65000, .new 10 0 0 254, 90⟩ .new {} sampleEvents (by decide)

def shortEvents : List Event :=
  [.step (sampleInput .timeout),
    .step (sampleInput (.ok (newWithCapabilities 65001 2 (.new 10 0 0 1) []).serialize)),
      .step (sampleInput .timeout)]

theorem short_not_alwaysSound :
    (sampleSession.run shortEvents).peer.state = .openConfirm ∧
      (sampleSession.run shortEvents).peer.negotiatedHoldTime = 2 ∧
      (sampleSession.run shortEvents).peer.timers.holdTimerStart.isSome ∧
      (sampleSession.run shortEvents).peer.timers.keepaliveInterval = 0 ∧
      ¬ sampleSession.AlwaysSound shortEvents := by
  have hsecs : (sampleSession.run shortEvents).peer.negotiatedHoldTime = 2 := by decide
  refine ⟨by decide, hsecs, by decide, by decide, ?_⟩
  intro hall
  have hend : ¬ (sampleSession.run shortEvents).Ended := not_ended_of_draining (by decide)
  have hvalid := (hall shortEvents [] (by simp) hend (by decide)).validHoldTime
  rw [hsecs] at hvalid
  revert hvalid
  unfold ValidHoldTime
  decide

end Timers

end Session

end PathForge.Peering
