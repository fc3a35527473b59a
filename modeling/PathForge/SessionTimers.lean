import PathForge.MessageEffects
import PathForge.RunHistory

namespace PathForge.Peering

open History Fallible ByteReader Wire Routing

namespace BgpTimers

theorem resetHoldTimer_holdTime (t : BgpTimers) (c : Clock) :
    (t.resetHoldTimer.run c).1.holdTime = t.holdTime := by
  unfold resetHoldTimer
  split_ifs <;> rfl

theorem resetHoldTimer_start {t : BgpTimers} (h : 0 < t.holdTime) (c : Clock) :
    (t.resetHoldTimer.run c).1.holdTimerStart = some c.head := by
  unfold resetHoldTimer
  rw [if_pos h]
  rfl

theorem resetKeepaliveTimer_hold (t : BgpTimers) (c : Clock) :
    (t.resetKeepaliveTimer.run c).1.holdTime = t.holdTime ∧
      (t.resetKeepaliveTimer.run c).1.holdTimerStart = t.holdTimerStart := by
  unfold resetKeepaliveTimer
  split_ifs <;> exact ⟨rfl, rfl⟩

theorem holdTimerExpired_iff {t : BgpTimers} {c : Clock} :
    (t.holdTimerExpired.run c).1 = true ↔
      0 < t.holdTime ∧ ∃ start, t.holdTimerStart = some start ∧ t.holdTime.toNat * 10 ^ 9 ≤ c.head - start := by
  unfold holdTimerExpired
  rw [UInt16.pos_iff_ne_zero]
  split_ifs with h0
  · exact iff_of_false Bool.false_ne_true fun h => h.1 h0
  · cases hs : t.holdTimerStart with
    | none => exact iff_of_false Bool.false_ne_true (by simp)
    | some start =>
      change decide (t.holdTime.toNat * 10 ^ 9 ≤ c.head - start) = true ↔ _
      simp [h0]

end BgpTimers

theorem updated_eq_some {msg : BgpMessage} {u : UpdateMessage} :
    updated msg = some u ↔ msg.header.msgType = .update ∧ UpdateMessage.parse.outcome msg.body = some (.ok u) := by
  unfold updated
  split
  · simp_all
  · rename_i hno
    simp only [reduceCtorEq, false_iff, not_and]
    intro ht ho
    exact hno u ht ho

/-- The messages that tell a session its peer is there: a KEEPALIVE, and an OPEN or an UPDATE that can be
read. -/
def Refreshes (msg : BgpMessage) : Prop :=
  msg.header.msgType = .keepalive ∨ (opened msg).isSome ∨ (updated msg).isSome

instance (msg : BgpMessage) : Decidable (Refreshes msg) := inferInstanceAs (Decidable (_ ∨ _))

namespace Session

variable {i : Input} {s : Session} {e : Event} {msg : BgpMessage}

def Hears (s : Session) (e : Event) : Prop := ∃ msg, s.taken e = some msg ∧ Refreshes msg

def hold (s : Session) : UInt16 × Option Instant := (s.peer.timers.holdTime, s.peer.timers.holdTimerStart)

section Messages

theorem hold_of_peer {s t : Session} (h : s.peer = t.peer) : s.hold = t.hold := by rw [hold, hold, h]

theorem countRx_hold (m : MessageType) : (s.countRx m).hold = s.hold := hold_of_peer (s.countRx_peer m)

theorem handleMessage_hold (h : ¬ Refreshes msg) : (s.handleMessage i msg).2.hold = s.hold := by
  simp only [Refreshes, not_or, Option.not_isSome_iff_eq_none] at h
  obtain ⟨hk, ho, hu⟩ := h
  rw [← countRx_hold (s := s) msg.header.msgType]
  unfold handleMessage
  simp only
  generalize s.countRx msg.header.msgType = s
  cases ht : msg.header.msgType with
  | «open» =>
    cases hb : OpenMessage.parse.outcome msg.body with
    | none => rfl
    | some r =>
      cases r with
      | error e => rfl
      | ok o =>
        rw [opened_eq_some.mpr ⟨ht, hb⟩] at ho
        cases ho
  | keepalive => exact absurd ht hk
  | update =>
    rcases s.withBody_cases (UpdateMessage.parse.outcome msg.body) (s.handleUpdate i) with ⟨u, hb, -⟩ | ⟨-, -, hk⟩
    · simp [updated, ht, hb] at hu
    · rw [hk]
  | notification =>
    apply withBody_induction (P := fun t => t.hold = s.hold) _ rfl
    exact fun _ => rfl
  | routeRefresh => rfl

theorem handleMessage_heard (h : Refreshes msg) (hpos : 0 < (s.handleMessage i msg).2.peer.timers.holdTime) :
    (s.handleMessage i msg).2.peer.timers.holdTimerStart = some i.host.clock.head := by
  unfold handleMessage at hpos ⊢
  simp only at hpos ⊢
  generalize s.countRx msg.header.msgType = s at hpos ⊢
  rcases h with hk | ho | hu
  · simp only [hk, handleKeepalive] at hpos ⊢
    split_ifs at hpos ⊢
    · simp only [BgpTimers.resetKeepaliveTimer_hold, Peer.transition, BgpTimers.resetHoldTimer_holdTime] at hpos ⊢
      exact BgpTimers.resetHoldTimer_start hpos _
    · simp only [BgpTimers.resetHoldTimer_holdTime] at hpos ⊢
      exact BgpTimers.resetHoldTimer_start hpos _
  · obtain ⟨o, ho⟩ := Option.isSome_iff_exists.mp ho
    obtain ⟨ht, hb⟩ := opened_eq_some.mp ho
    obtain ⟨caps, hcaps⟩ := Capability.exists_parseFromOpenParams o.optionalParams
    simp only [ht, hb, withBody, hcaps, handleOpen] at hpos ⊢
    split_ifs at hpos ⊢
    · simp only [Peer.transition, BgpTimers.resetHoldTimer_holdTime] at hpos ⊢
      exact BgpTimers.resetHoldTimer_start hpos _
    · simp only [Peer.transition, BgpTimers.resetHoldTimer_holdTime] at hpos ⊢
      exact BgpTimers.resetHoldTimer_start hpos _
  · obtain ⟨u, hu⟩ := Option.isSome_iff_exists.mp hu
    obtain ⟨ht, hb⟩ := updated_eq_some.mp hu
    have htimers : (s.handleUpdate i u).2.peer.timers = (s.peer.timers.resetHoldTimer.run i.host.clock).1 := by
      simp only [handleUpdate]
      split <;> rfl
    simp only [ht, hb, withBody, htimers, BgpTimers.resetHoldTimer_holdTime] at hpos ⊢
    exact BgpTimers.resetHoldTimer_start hpos _

end Messages

section HoldTimer

theorem receive_hold : (s.receive i).hold = s.hold := by
  unfold receive
  rcases i.read with (_ | ⟨x, data⟩) | _ | _
  · simp only [hold, handleDisconnect_peer, Peer.transition]
  · rfl
  · rfl
  · rfl

theorem wait_hold : (s.wait i).hold = s.hold := by
  rcases s.wait_cases i with ⟨-, hw⟩ | ⟨-, -, -, hw⟩ | ⟨-, -, t, ht, hw⟩
  · rw [hw]
    simp only [hold, expire, handleDisconnect_peer, Peer.transition]
  · rw [hw]
    rfl
  · rw [hw, receive_hold]
    rcases ht with rfl | ⟨clock, rfl⟩
    · rfl
    · simp only [hold, sendKeepalive, BgpTimers.resetKeepaliveTimer_hold]

theorem drain_peer {msg : BgpMessage} (h : BgpMessage.parse.outcome s.buf = some (.ok (some msg))) :
    ∃ buf, (s.drain i).peer = (({ s with buf := buf } : Session).handleMessage i msg).2.peer := by
  obtain ⟨buf, hr⟩ := outcome_eq_some.mp h
  refine ⟨buf, ?_⟩
  simp only [drain, hr]
  cases (({ s with buf := buf } : Session).handleMessage i msg).1.ending <;> rfl

theorem advance_hold (h : ¬ s.Hears e) : (s.advance e).hold = s.hold := by
  cases e with
  | other host op => rfl
  | step i =>
    simp only [advance, step]
    cases hp : s.phase with
    | opening =>
      simp only [sendOpen]
      split_ifs <;> rfl
    | waiting => exact wait_hold
    | draining =>
      rcases s.drain_cases i with ⟨e, buf, -, hd⟩ | ⟨buf, -, hd⟩ | ⟨msg, -, -, -, ho, -⟩
      · simp only [hd]
        rfl
      · simp only [hd]
        rfl
      · obtain ⟨buf, hpeer⟩ := s.drain_peer (i := i) ho
        refine (hold_of_peer hpeer).trans ?_
        have hquiet : ¬ Refreshes msg := fun hr => h ⟨msg, taken_step_eq_some.mpr ⟨hp, ho⟩, hr⟩
        exact handleMessage_hold hquiet
    | ended how => rfl

theorem step_heard (h : s.Hears (.step i)) (hpos : 0 < (s.step i).peer.timers.holdTime) :
    (s.step i).peer.timers.holdTimerStart = some i.host.clock.head := by
  obtain ⟨msg, ht, hr⟩ := h
  obtain ⟨hp, ho⟩ := taken_step_eq_some.mp ht
  obtain ⟨buf, hpeer⟩ := s.drain_peer (i := i) ho
  have hstep : (s.step i).peer = (({ s with buf := buf } : Session).handleMessage i msg).2.peer := by
    rw [← hpeer]
    simp only [step, hp]
  rw [hstep] at hpos ⊢
  exact handleMessage_heard hr hpos

theorem step_expires_iff (hw : s.phase = .waiting) :
    (s.step i).phase = .ended .holdTimerExpired ↔ s.expired i = true := by
  simp only [step, hw]
  rcases s.wait_cases i with ⟨hx, h⟩ | ⟨hx, -, -, h⟩ | ⟨hx, -, t, ht, h⟩
  · rw [h, hx]
    exact iff_of_true rfl rfl
  · rw [h, hx]
    exact iff_of_false (by simp) (by simp)
  · have hphase : t.phase = .waiting := by
      rcases ht with rfl | ⟨clock, rfl⟩
      · exact hw
      · exact hw
    rw [h, hx]
    refine iff_of_false ?_ (by simp)
    unfold receive
    rcases i.read with (_ | ⟨x, data⟩) | _ | _
    · simp
    · simp
    · simp
    · simp [hphase]

theorem hold_of_last {events before after : List Event} {j : Input}
    (h : Last advance Hears s events before (.step j) after) :
    (s.run events).hold = (s.run (before ++ [.step j])).hold := by
  rw [run_concat]
  exact h.value_eq fun u b => u.advance_hold

/-- The hold timer is exact. A session that waits is closed by it if and only if the last message that told it
its peer is there came the hold time ago or longer, as the clock reads; a peer that has said nothing yet is
never given up. And what the session then leaves behind is no route of its peer. -/
theorem holdTimer_exact (addr : SocketAddr) (config : LocalConfig) (rib : Rib) (metrics : Metrics)
    (events : List Event) (i : Input) :
    let s := handleIncoming addr config rib metrics
    (s.run events).phase = .waiting →
      (((s.run events).step i).phase = .ended .holdTimerExpired ↔
        ∃ before j after, Last advance Hears s events before (.step j) after ∧
          0 < (s.run (before ++ [.step j])).peer.timers.holdTime ∧
          (s.run (before ++ [.step j])).peer.timers.holdTime.toNat * 10 ^ 9 ≤
            i.host.clock.head - j.host.clock.head) ∧
      (((s.run events).step i).phase = .ended .holdTimerExpired →
        ∀ k, ((s.run events).step i).rib.route addr k = none) := by
  intro s hw
  have hstart {before after : List Event} {j : Input} (h : Last advance Hears s events before (.step j) after)
      (hpos : 0 < (s.run (before ++ [.step j])).peer.timers.holdTime) :
      (s.run events).peer.timers.holdTime = (s.run (before ++ [.step j])).peer.timers.holdTime ∧
        (s.run events).peer.timers.holdTimerStart = some j.host.clock.head := by
    have hsame := Prod.mk.inj (hold_of_last h)
    rw [run_concat] at hpos hsame ⊢
    exact ⟨hsame.1, hsame.2.trans (step_heard h.meets hpos)⟩
  refine ⟨?_, ?_⟩
  · rw [step_expires_iff hw, expired, BgpTimers.holdTimerExpired_iff]
    constructor
    · rintro ⟨hpos, start, hs, hle⟩
      rcases exists_last_or_never advance Hears s events with ⟨before, e, after, h⟩ | hnever
      · cases e with
        | other host op =>
          obtain ⟨msg, ht, -⟩ := h.meets
          cases ht
        | step j =>
          have hsame := (Prod.mk.inj (hold_of_last h)).1
          rw [hsame] at hpos hle
          obtain rfl := Option.some.inj ((hstart h hpos).2.symm.trans hs)
          exact ⟨before, j, after, h, hpos, hle⟩
      · have hnone := (Prod.mk.inj (hnever.value_eq (V := hold) fun u b => u.advance_hold)).2
        rw [show (events.foldl advance s).peer.timers.holdTimerStart = some start from hs] at hnone
        cases hnone
    · rintro ⟨before, j, after, h, hpos, hle⟩
      obtain ⟨htime, hs⟩ := hstart h hpos
      exact ⟨htime ▸ hpos, j.host.clock.head, hs, htime ▸ hle⟩
  · intro hexp k
    rw [step_expires_iff hw] at hexp
    have hstep : (s.run events).step i = (s.run events).expire i := by
      simp only [step, hw]
      rcases (s.run events).wait_cases i with ⟨-, h⟩ | ⟨hx, -⟩ | ⟨hx, -⟩
      · exact h
      · simp [hexp] at hx
      · simp [hexp] at hx
    have haddr : (s.run events).peer.addr = addr := run_addr s events
    rw [hstep, expire_withdrawn.rib, haddr, Rib.route_removePeer]

def lateInput : Input := ⟨⟨fun n => 90 * 10 ^ 9 + n, fun _ _ p => p, .listed, .listed⟩, true, .timeout⟩

theorem holdTimer_exact_sample :
    ((sampleSession.run sampleEvents).rib.route samplePeer sampleKey).isSome ∧
      (∃ before j after, Last advance Hears sampleSession sampleEvents before (.step j) after ∧
        0 < (sampleSession.run (before ++ [.step j])).peer.timers.holdTime ∧
        (sampleSession.run (before ++ [.step j])).peer.timers.holdTime.toNat * 10 ^ 9 ≤
          lateInput.host.clock.head - j.host.clock.head) ∧
      ((sampleSession.run sampleEvents).step lateInput).rib.route samplePeer sampleKey = none := by
  have hexp : ((sampleSession.run sampleEvents).step lateInput).phase = .ended .holdTimerExpired := by decide
  have hexact := holdTimer_exact samplePeer ⟨65000, .new 10 0 0 254, 90⟩ .new {} sampleEvents lateInput (by decide)
  exact ⟨by decide, hexact.1.mp hexp, hexact.2 hexp sampleKey⟩

end HoldTimer

end Session

end PathForge.Peering
