import PathForge.MessageOrder

namespace PathForge.Peering

open Fallible ByteReader Wire Routing

namespace BgpTimers

variable {t t' t'' : BgpTimers}

structure SetTo (secs : UInt16) (t : BgpTimers) : Prop where
  holdTime : t.holdTime = secs
  keepaliveInterval : t.keepaliveInterval = (new secs).keepaliveInterval
  armed : t.holdTimerStart.isSome ↔ 0 < secs
  keepalive : t.keepaliveTimerStart.isSome → 0 < t.keepaliveInterval

structure Restarted (t t' : BgpTimers) : Prop where
  holdTime : t'.holdTime = t.holdTime
  keepaliveInterval : t'.keepaliveInterval = t.keepaliveInterval
  hold : t'.holdTimerStart = t.holdTimerStart ∨ 0 < t.holdTime ∧ t'.holdTimerStart.isSome
  keepalive : t'.keepaliveTimerStart = t.keepaliveTimerStart ∨ 0 < t.keepaliveInterval

theorem Restarted.refl (t : BgpTimers) : Restarted t t := ⟨rfl, rfl, .inl rfl, .inl rfl⟩

theorem Restarted.trans (h : Restarted t t') (h' : Restarted t' t'') : Restarted t t'' where
  holdTime := h'.holdTime.trans h.holdTime
  keepaliveInterval := h'.keepaliveInterval.trans h.keepaliveInterval
  hold := by
    rcases h'.hold with he | ⟨hp, hs⟩
    · rw [he]
      exact h.hold
    · exact .inr ⟨h.holdTime ▸ hp, hs⟩
  keepalive := by
    rcases h'.keepalive with he | hp
    · rw [he]
      exact h.keepalive
    · exact .inr (h.keepaliveInterval ▸ hp)

theorem restarted_resetHoldTimer (t : BgpTimers) (c : Clock) : Restarted t (t.resetHoldTimer.run c).1 := by
  unfold resetHoldTimer
  split_ifs with hp
  · exact ⟨rfl, rfl, .inr ⟨hp, rfl⟩, .inl rfl⟩
  · exact .refl t

theorem restarted_resetKeepaliveTimer (t : BgpTimers) (c : Clock) :
    Restarted t (t.resetKeepaliveTimer.run c).1 := by
  unfold resetKeepaliveTimer
  split_ifs with hp
  · exact ⟨rfl, rfl, .inl rfl, .inr hp⟩
  · exact .refl t

theorem SetTo.restarted {secs : UInt16} (h : t.SetTo secs) (hr : Restarted t t') : t'.SetTo secs where
  holdTime := hr.holdTime.trans h.holdTime
  keepaliveInterval := hr.keepaliveInterval.trans h.keepaliveInterval
  armed := by
    rcases hr.hold with he | ⟨hp, hs⟩
    · rw [he]
      exact h.armed
    · rw [h.holdTime] at hp
      exact iff_of_true hs hp
  keepalive := by
    rw [hr.keepaliveInterval]
    rcases hr.keepalive with he | hp
    · rw [he]
      exact h.keepalive
    · exact fun _ => hp

theorem setTo_new (secs : UInt16) (c : Clock) : ((new secs).resetHoldTimer.run c).1.SetTo secs := by
  unfold resetHoldTimer
  split_ifs with hp
  · exact ⟨rfl, rfl, iff_of_true rfl hp, nofun⟩
  · exact ⟨rfl, rfl, iff_of_false nofun hp, nofun⟩

end BgpTimers

namespace BgpState

def Confirmed (s : BgpState) : Prop := s = .openConfirm ∨ s = .established

instance (s : BgpState) : Decidable s.Confirmed := inferInstanceAs (Decidable (_ ∨ _))

theorem confirmed_of_next {s : BgpState} {e : BgpEvent} (he : e ≠ .bgpOpen) (h : (s.next e).Confirmed) :
    s.Confirmed := by
  revert he h
  cases s <;> cases e <;> decide

theorem confirmed_next_bgpOpen {s : BgpState} :
    (s.next .bgpOpen).Confirmed ↔ s = .openSent ∨ s = .openConfirm ∨ s = .established := by
  cases s <;> decide

end BgpState

structure Terms where
  remoteAs : UInt32
  routerId : Option Ipv4Addr
  capabilities : List Capability
  holdTime : UInt16
  deriving DecidableEq

namespace Peer

def terms (p : Peer) : Terms := ⟨p.remoteAs, p.peerRouterId, p.peerCapabilities, p.negotiatedHoldTime⟩

def offered (p : Peer) (o : OpenMessage) : Terms :=
  ⟨o.myAs.toUInt32, some o.bgpId, (Capability.parseFromOpenParams o.optionalParams).getD [],
    min p.config.holdTime o.holdTime⟩

structure Follows (p : Peer) (o : Option OpenMessage) (p' : Peer) : Prop where
  addr : p'.addr = p.addr
  config : p'.config = p.config
  terms : p'.terms = o.elim p.terms p.offered
  timers : o.elim (p.timers.Restarted p'.timers) fun o => p'.timers.SetTo (min p.config.holdTime o.holdTime)
  state : o.elim (p'.state.Confirmed → p.state.Confirmed) fun _ => p'.state = p.state.next .bgpOpen

theorem Follows.quiet {p p' : Peer} (ha : p'.addr = p.addr) (hc : p'.config = p.config) (ht : p'.terms = p.terms)
    (hr : p.timers.Restarted p'.timers) (hs : p'.state.Confirmed → p.state.Confirmed) : p.Follows none p' :=
  ⟨ha, hc, ht, hr, hs⟩

theorem Follows.trans {p p' p'' : Peer} (h : p.Follows none p') (h' : p'.Follows none p'') : p.Follows none p'' :=
  .quiet (h'.addr.trans h.addr) (h'.config.trans h.config) (h'.terms.trans h.terms) (h.timers.trans h'.timers)
    fun hc => h.state (h'.state hc)

theorem follows_self (p : Peer) : p.Follows none p := .quiet rfl rfl rfl (.refl _) id

theorem follows_transition (p : Peer) {e : BgpEvent} (he : e ≠ .bgpOpen) : p.Follows none (p.transition e) :=
  .quiet rfl rfl rfl (.refl _) (BgpState.confirmed_of_next he)

theorem follows_timers (p : Peer) {t : BgpTimers} (ht : p.timers.Restarted t) :
    p.Follows none { p with timers := t } := .quiet rfl rfl rfl ht id

end Peer

def opened (msg : BgpMessage) : Option OpenMessage :=
  match msg.header.msgType, OpenMessage.parse.outcome msg.body with
  | .open, some (.ok o) => some o
  | _, _ => none

theorem opened_eq_some {msg : BgpMessage} {o : OpenMessage} :
    opened msg = some o ↔ msg.header.msgType = .open ∧ OpenMessage.parse.outcome msg.body = some (.ok o) := by
  unfold opened
  split
  · simp_all
  · rename_i hno
    simp only [reduceCtorEq, false_iff, not_and]
    intro ht ho
    exact hno o ht ho

namespace Session

variable {i : Input} {s : Session} {msg : BgpMessage}

section Messages

theorem handleOpen_follows {o : OpenMessage} {caps : List Capability}
    (hcaps : Capability.parseFromOpenParams o.optionalParams = some caps) :
    s.peer.Follows (some o) (s.handleOpen i o caps).2.peer := by
  have hset := BgpTimers.setTo_new (min s.peer.config.holdTime o.holdTime) i.host.clock
  unfold handleOpen
  simp only
  split_ifs
  all_goals
    refine ⟨rfl, rfl, ?_, hset, rfl⟩
    simp only [Option.elim_some, Peer.offered, hcaps]
    rfl

theorem handleKeepalive_follows : s.peer.Follows none (s.handleKeepalive i).peer := by
  have hhold := s.peer.follows_timers (s.peer.timers.restarted_resetHoldTimer i.host.clock)
  unfold handleKeepalive
  simp only
  split_ifs
  · exact hhold.trans ((Peer.follows_transition _ (by decide)).trans
      (Peer.follows_timers _ (BgpTimers.restarted_resetKeepaliveTimer _ _)))
  · exact hhold

theorem handleUpdate_follows (u : UpdateMessage) : s.peer.Follows none (s.handleUpdate i u).2.peer := by
  have hhold := s.peer.follows_timers (s.peer.timers.restarted_resetHoldTimer i.host.clock)
  unfold handleUpdate
  simp only
  split <;> exact hhold.trans (Peer.follows_transition _ (by decide))

theorem handleMessage_follows (s : Session) (i : Input) (msg : BgpMessage) :
    s.peer.Follows (opened msg) (s.handleMessage i msg).2.peer := by
  rw [← s.countRx_peer msg.header.msgType]
  unfold handleMessage opened
  simp only
  generalize s.countRx msg.header.msgType = s
  cases msg.header.msgType with
  | «open» =>
    rcases hb : OpenMessage.parse.outcome msg.body with _ | e | o
    · exact s.peer.follows_self
    · exact s.peer.follows_self
    · obtain ⟨caps, hcaps⟩ := Capability.exists_parseFromOpenParams o.optionalParams
      simp only [withBody, hcaps]
      exact handleOpen_follows hcaps
  | keepalive => exact handleKeepalive_follows
  | update =>
    exact withBody_induction (P := fun t => s.peer.Follows none t.peer) _ s.peer.follows_self fun u =>
      handleUpdate_follows u
  | notification =>
    exact withBody_induction (P := fun t => s.peer.Follows none t.peer) _ s.peer.follows_self fun _ =>
      s.peer.follows_transition (by decide)
  | routeRefresh => exact s.peer.follows_self

end Messages

section Steps

def opens (s : Session) (e : Event) : Option OpenMessage := (s.taken e).bind opened

theorem handleDisconnect_peer : (s.handleDisconnect i).peer = s.peer := by
  unfold handleDisconnect
  simp only
  split_ifs <;> rfl

theorem receive_follows : s.peer.Follows none (s.receive i).peer := by
  unfold receive
  split
  · simp only [handleDisconnect_peer]
    exact s.peer.follows_transition (by decide)
  · exact s.peer.follows_self
  · exact s.peer.follows_transition (by decide)
  · exact s.peer.follows_self

theorem sendKeepalive_follows {c : Clock} : s.peer.Follows none (s.sendKeepalive c).peer :=
  s.peer.follows_timers (BgpTimers.restarted_resetKeepaliveTimer _ c)

theorem wait_follows : s.peer.Follows none (s.wait i).peer := by
  rcases s.wait_cases i with ⟨-, hw⟩ | ⟨-, -, -, hw⟩ | ⟨-, -, t, ht, hw⟩
  · simp only [hw, expire, handleDisconnect_peer]
    exact s.peer.follows_transition (by decide)
  · rw [hw]
    exact s.peer.follows_self
  · rw [hw]
    rcases ht with rfl | ⟨clock, rfl⟩
    · exact receive_follows
    · exact sendKeepalive_follows.trans receive_follows

theorem drain_follows (hp : s.phase = .draining) : s.peer.Follows (s.opens (.step i)) (s.drain i).peer := by
  rcases s.drain_cases i with ⟨e, buf, ho, hd⟩ | ⟨buf, ho, hd⟩ | ⟨msg, buf, outcome, t, ho, hb, hd⟩
  · have hno : s.opens (.step i) = none := by simp only [opens, taken, hp, ho, Option.bind_none]
    rw [hno, hd]
    exact s.peer.follows_self
  · have hno : s.opens (.step i) = none := by simp only [opens, taken, hp, ho, Option.bind_none]
    rw [hno, hd]
    exact s.peer.follows_self
  · have hf := handleMessage_follows ({ s with buf := buf } : Session) i msg
    rw [hb] at hf
    rw [opens, taken_step_eq_some.mpr ⟨hp, ho⟩, Option.bind_some]
    rcases hd with ⟨-, hd⟩ | ⟨-, how, -, hd⟩ <;> rwa [hd]

theorem advance_follows (s : Session) (e : Event) : s.peer.Follows (s.opens e) (s.advance e).peer := by
  cases e with
  | other h op => exact s.peer.follows_self
  | step i =>
    have hno (h : s.phase ≠ .draining) : s.opens (.step i) = none := by
      rw [opens, taken_of_phase_ne h, Option.bind_none]
    simp only [advance, step]
    cases hp : s.phase with
    | opening =>
      rw [hno (by simp [hp])]
      simp only [sendOpen]
      split_ifs <;> exact s.peer.follows_self
    | waiting =>
      rw [hno (by simp [hp])]
      exact wait_follows
    | draining => exact drain_follows hp
    | ended how =>
      rw [hno (by simp [hp])]
      exact s.peer.follows_self

end Steps

end Session

end PathForge.Peering
