import PathForge.MessageOrder

namespace PathForge.Peering

open Fallible ByteReader Wire Routing

def noticed (msg : BgpMessage) : Option NotificationMessage :=
  match msg.header.msgType, NotificationMessage.parse.outcome msg.body with
  | .notification, some (.ok n) => some n
  | _, _ => none

theorem noticed_eq_some {msg : BgpMessage} {n : NotificationMessage} :
    noticed msg = some n ↔
      msg.header.msgType = .notification ∧ NotificationMessage.parse.outcome msg.body = some (.ok n) := by
  unfold noticed
  split
  · simp_all
  · rename_i hno
    simp only [reduceCtorEq, false_iff, not_and]
    intro ht ho
    exact hno n ht ho

theorem noticed_of_ne {msg : BgpMessage} (h : msg.header.msgType ≠ .notification) : noticed msg = none := by
  rw [Option.eq_none_iff_forall_ne_some]
  intro n hn
  exact h (noticed_eq_some.mp hn).1

namespace Session

variable {i : Input} {s t u : Session} {msg : BgpMessage}

def notices (s : Session) (i : Input) : Option NotificationMessage := (s.taken (.step i)).bind noticed

def Closes (s : Session) (i : Input) : Prop :=
  s.phase = .waiting ∧ (s.expired i = true ∨ (s.keepaliveDue i = true → i.writeOk = true) ∧ i.read = .ok [])

def Leaves (s : Session) (i : Input) : Prop := s.Closes i ∨ (s.notices i).isSome

structure Untouched (s s' : Session) : Prop where
  addr : s'.peer.addr = s.peer.addr
  rib : s'.rib = s.rib
  sessionsActive : s'.metrics.sessionsActive = s.metrics.sessionsActive
  routesLocRib : s'.metrics.routesLocRib = s.metrics.routesLocRib

structure Withdrawn (h : Host) (s s' : Session) : Prop where
  rib : s'.rib = (s.rib.removePeer h s.peer.addr).2
  sessionsActive : s'.metrics.sessionsActive = 0
  routesLocRib : s'.metrics.routesLocRib = s.metrics.routesLocRib

structure Refreshed (s s' : Session) : Prop where
  rib : ∃ h p u, updateRib h p u s.rib = some s'.rib
  sessionsActive : s'.metrics.sessionsActive = s.metrics.sessionsActive
  routesLocRib : s'.metrics.routesLocRib = UInt64.ofNat s'.rib.locRib.keys.length

theorem Untouched.refl (s : Session) : Untouched s s := ⟨rfl, rfl, rfl, rfl⟩

theorem Untouched.trans (h : Untouched s t) (h' : Untouched t u) : Untouched s u :=
  ⟨h'.addr.trans h.addr, h'.rib.trans h.rib, h'.sessionsActive.trans h.sessionsActive,
    h'.routesLocRib.trans h.routesLocRib⟩

theorem Untouched.withdrawn {h : Host} (hu : Untouched s t) (hw : Withdrawn h t u) : Withdrawn h s u :=
  ⟨by rw [hw.rib, hu.rib, hu.addr], hw.sessionsActive, hw.routesLocRib.trans hu.routesLocRib⟩

theorem Untouched.refreshed (hu : Untouched s t) (hr : Refreshed t u) : Refreshed s u :=
  ⟨hu.rib ▸ hr.rib, hr.sessionsActive.trans hu.sessionsActive, hr.routesLocRib⟩

inductive Touch (i : Input) (msg : BgpMessage) (s s' : Session) : Prop
  | none (hn : noticed msg = none) (hu : Untouched s s')
  | refreshed (hf : ¬ Refused i msg) (hn : noticed msg = none) (hr : Refreshed s s')
  | withdrawn (hf : ¬ Refused i msg) (hn : (noticed msg).isSome) (hw : Withdrawn i.host s s')

theorem Touch.of_untouched (hu : Untouched s t) (ht : Touch i msg t u) : Touch i msg s u := by
  cases ht with
  | none hn hu' => exact .none hn (hu.trans hu')
  | refreshed hf hn hr => exact .refreshed hf hn (hu.refreshed hr)
  | withdrawn hf hn hw => exact .withdrawn hf hn (hu.withdrawn hw)

theorem countRx_untouched (t : MessageType) : Untouched s (s.countRx t) := by
  cases t <;> exact ⟨rfl, rfl, rfl, rfl⟩

theorem handleOpen_untouched (o : OpenMessage) (caps : List Capability) :
    Untouched s (s.handleOpen i o caps).2 := by
  unfold handleOpen
  simp only
  split_ifs <;> exact ⟨rfl, rfl, rfl, rfl⟩

theorem handleKeepalive_untouched : Untouched s (s.handleKeepalive i) := by
  unfold handleKeepalive
  simp only
  split_ifs <;> exact ⟨rfl, rfl, rfl, rfl⟩

theorem handleUpdate_refreshed (hm : s.rib.rpki.mode = .disabled) (u : UpdateMessage) :
    Refreshed s (s.handleUpdate i u).2 := by
  obtain ⟨rib, hr, -⟩ := exists_updateRib hm
    { i.host with clock := (s.peer.timers.resetHoldTimer.run i.host.clock).2 }
    (({ s.peer with timers := (s.peer.timers.resetHoldTimer.run i.host.clock).1 } : Peer).transition .updateMsg) u
  simp only [handleUpdate, hr]
  exact ⟨⟨_, _, _, hr⟩, rfl, rfl⟩

theorem handleMessage_touch (hm : s.rib.rpki.mode = .disabled) :
    Touch i msg s (s.handleMessage i msg).2 := by
  have hcount := countRx_untouched (s := s) msg.header.msgType
  rw [← hcount.rib] at hm
  apply Touch.of_untouched hcount
  simp only [handleMessage]
  generalize s.countRx msg.header.msgType = s at hm ⊢
  cases ht : msg.header.msgType with
  | «open» =>
    apply Touch.none (noticed_of_ne (by simp [ht]))
    apply withBody_induction _ (Untouched.refl s)
    intro o
    obtain ⟨caps, hcaps⟩ := Capability.exists_parseFromOpenParams o.optionalParams
    rw [hcaps]
    exact handleOpen_untouched o caps
  | keepalive => exact .none (noticed_of_ne (by simp [ht])) handleKeepalive_untouched
  | update =>
    rcases s.withBody_cases (UpdateMessage.parse.outcome msg.body) (s.handleUpdate i) with ⟨u, hu, hk⟩ | ⟨-, -, hk⟩
    · rw [hk]
      exact .refreshed (by simp [Refused, ht, hu]) (noticed_of_ne (by simp [ht])) (handleUpdate_refreshed hm u)
    · rw [hk]
      exact .none (noticed_of_ne (by simp [ht])) (Untouched.refl s)
  | notification =>
    rcases s.withBody_cases (NotificationMessage.parse.outcome msg.body) fun _ =>
      (.done, s.handleNotification i) with
      ⟨n, hn, hk⟩ | ⟨hn, -, hk⟩
    · rw [hk]
      exact .withdrawn (by simp [Refused, ht, hn]) (by simp [noticed_eq_some.mpr ⟨ht, hn⟩]) ⟨rfl, rfl, rfl⟩
    · rw [hk]
      refine .none ?_ (Untouched.refl s)
      rw [Option.eq_none_iff_forall_ne_some]
      intro n hsome
      exact hn ⟨n, (noticed_eq_some.mp hsome).2⟩
  | routeRefresh => exact .none (noticed_of_ne (by simp [ht])) (Untouched.refl s)

section Steps

inductive Effect (s : Session) (i : Input) (s' : Session) : Prop
  | quiet (ha : ¬ s.Abrupt i) (hl : ¬ s.Leaves i) (hu : Untouched s s') (he : s'.Ended ↔ s.Ended)
  | refreshed (ha : ¬ s.Abrupt i) (hl : ¬ s.Leaves i) (hr : Refreshed s s') (he : s'.Ended ↔ s.Ended)
  | abrupt (ha : s.Abrupt i) (hl : ¬ s.Leaves i) (hu : Untouched s s') (he : s'.Ended)
  | leaves (ha : ¬ s.Abrupt i) (hl : s.Leaves i) (hw : Withdrawn i.host s s')
      (he : (s.notices i).isSome ∨ s'.Ended)

theorem notices_of_phase_ne (h : s.phase ≠ .draining) : s.notices i = none := by
  rw [notices, taken_of_phase_ne h, Option.bind_none]

theorem leaves_iff_closes (h : s.phase ≠ .draining) : s.Leaves i ↔ s.Closes i := by
  simp [Leaves, notices_of_phase_ne h]

theorem leaves_iff_notices (h : s.phase ≠ .waiting) : s.Leaves i ↔ (s.notices i).isSome := by
  simp [Leaves, Closes, h]

theorem sendOpen_effect (hp : s.phase = .opening) : Effect s i (s.sendOpen i) := by
  have ha : s.Abrupt i ↔ i.writeOk = false := by simp [Abrupt, hp]
  have hl : ¬ s.Leaves i := by
    rw [leaves_iff_closes (by simp [hp])]
    simp [Closes, hp]
  simp only [sendOpen]
  split_ifs with hw
  · exact .quiet (by simp [ha, hw]) hl ⟨rfl, rfl, rfl, rfl⟩ (by simp [Ended, hp])
  · exact .abrupt (by simpa [ha] using hw) hl ⟨rfl, rfl, rfl, rfl⟩ ⟨_, rfl⟩

theorem expire_withdrawn : Withdrawn i.host s (s.expire i) := by
  have hs : s.peer.state.next .holdTimerExpired ≠ .established := by
    rw [BgpState.next_holdTimerExpired]
    decide
  simp only [expire]
  rw [handleDisconnect_of_ne hs]
  exact ⟨rfl, rfl, rfl⟩

theorem receive_closed_withdrawn (hr : i.read = .ok []) : Withdrawn i.host s (s.receive i) := by
  have hs : s.peer.state.next .tcpConnectionFail ≠ .established := s.peer.state.next_tcpConnectionFail_ne
  simp only [receive, hr]
  rw [handleDisconnect_of_ne hs]
  exact ⟨rfl, rfl, rfl⟩

theorem receive_effect (hs : s.phase = .waiting) (ht : t.phase = .waiting) (hu : Untouched s t)
    (ha : s.Abrupt i ↔ i.read = .err) (hl : s.Leaves i ↔ i.read = .ok []) : Effect s i (t.receive i) := by
  rcases hr : i.read with (_ | ⟨x, data⟩) | _ | _
  · exact .leaves (by simp [ha, hr]) (hl.mpr hr) (hu.withdrawn (receive_closed_withdrawn hr))
      (.inr (receive_closed hr).2.1)
  · simp only [receive, hr]
    exact .quiet (by simp [ha, hr]) (by simp [hl, hr]) (hu.trans ⟨rfl, rfl, rfl, rfl⟩) (by simp [Ended, hs])
  · simp only [receive, hr]
    exact .abrupt (ha.mpr hr) (by simp [hl, hr]) (hu.trans ⟨rfl, rfl, rfl, rfl⟩) ⟨_, rfl⟩
  · simp only [receive, hr]
    exact .quiet (by simp [ha, hr]) (by simp [hl, hr]) hu (by simp [Ended, hs, ht])

theorem wait_effect (hp : s.phase = .waiting) : Effect s i (s.wait i) := by
  have ha : s.Abrupt i ↔
      s.expired i = false ∧ (s.keepaliveDue i = true ∧ i.writeOk = false ∨ i.read = .err) := by simp [Abrupt, hp]
  have hl : s.Leaves i ↔
      s.expired i = true ∨ (s.keepaliveDue i = true → i.writeOk = true) ∧ i.read = .ok [] := by
    rw [leaves_iff_closes (by simp [hp])]
    simp [Closes, hp]
  rcases s.wait_cases i with ⟨hx, hw⟩ | ⟨hx, hd, hok, hw⟩ | ⟨hx, hd, t, ht, hw⟩
  · rw [hw]
    exact .leaves (by simp [ha, hx]) (by simp [hl, hx]) expire_withdrawn (.inr expire_kept.2.1)
  · rw [hw]
    exact .abrupt (by simp [ha, hx, hd, hok]) (by simp [hl, hx, hd, hok]) ⟨rfl, rfl, rfl, rfl⟩ ⟨_, rfl⟩
  · have herr : s.Abrupt i ↔ i.read = .err := by
      rw [ha]
      cases hok : i.writeOk <;> simp_all
    have hclosed : s.Leaves i ↔ i.read = .ok [] := by
      rw [hl, and_iff_right hd]
      simp [hx]
    rw [hw]
    rcases ht with rfl | ⟨clock, rfl⟩
    · exact receive_effect hp hp (Untouched.refl t) herr hclosed
    · exact receive_effect hp hp ⟨rfl, rfl, rfl, rfl⟩ herr hclosed

theorem drain_effect (hm : s.rib.rpki.mode = .disabled) (hp : s.phase = .draining) : Effect s i (s.drain i) := by
  have hl : s.Leaves i ↔ (s.notices i).isSome := leaves_iff_notices (by simp [hp])
  rcases s.drain_cases i with ⟨e, buf, ho, hd⟩ | ⟨buf, ho, hd⟩ | ⟨msg, buf, outcome, t, ho, hb, hd⟩
  · have hn : s.notices i = none := by simp [notices, taken, hp, ho]
    rw [hd]
    exact .abrupt (by simp [Abrupt, hp, ho]) (by simp [hl, hn]) ⟨rfl, rfl, rfl, rfl⟩ ⟨_, rfl⟩
  · have hn : s.notices i = none := by simp [notices, taken, hp, ho]
    rw [hd]
    exact .quiet (by simp [Abrupt, hp, ho]) (by simp [hl, hn]) ⟨rfl, rfl, rfl, rfl⟩ (by simp [Ended, hp])
  · have ha : s.Abrupt i ↔ Refused i msg := by simp [Abrupt, hp, ho]
    have hn : s.notices i = noticed msg := by
      rw [notices, taken_step_eq_some.mpr ⟨hp, ho⟩, Option.bind_some]
    rw [hn] at hl
    have hh : Handled { s with buf := buf } (Refused i msg)
        (({ s with buf := buf } : Session).handleMessage i msg) :=
      handleMessage_handled hm
    have ht : Touch i msg s (({ s with buf := buf } : Session).handleMessage i msg).2 :=
      Touch.of_untouched (t := { s with buf := buf }) ⟨rfl, rfl, rfl, rfl⟩ (handleMessage_touch hm)
    rw [hb] at hh ht
    rcases hd with ⟨hdone, hd⟩ | ⟨hfail, how, -, hd⟩
    · have hf : ¬ Refused i msg := hh.done_iff.mp hdone
      have hend : t.Ended ↔ s.Ended := by simp [Ended, hp, show t.phase = .draining from hh.phase.trans hp]
      rw [hd]
      cases ht with
      | none hnone hu => exact .quiet (ha.not.mpr hf) (by simp [hl, hnone]) hu hend
      | refreshed _ hnone hr => exact .refreshed (ha.not.mpr hf) (by simp [hl, hnone]) hr hend
      | withdrawn _ hsome hw => exact .leaves (ha.not.mpr hf) (hl.mpr hsome) hw (.inl (hn ▸ hsome))
    · have hf : Refused i msg := by
        by_contra hn
        exact hfail (hh.done_iff.mpr hn)
      rw [hd]
      cases ht with
      | none hnone hu =>
        exact .abrupt (ha.mpr hf) (by simp [hl, hnone]) (hu.trans ⟨rfl, rfl, rfl, rfl⟩) ⟨how, rfl⟩
      | refreshed hnot _ _ => exact absurd hf hnot
      | withdrawn hnot _ _ => exact absurd hf hnot

theorem step_effect (hm : s.rib.rpki.mode = .disabled) : Effect s i (s.step i) := by
  unfold step
  split
  · exact sendOpen_effect ‹_›
  · exact wait_effect ‹_›
  · exact drain_effect hm ‹_›
  · rename_i how hp
    have hl : ¬ s.Leaves i := by
      rw [leaves_iff_closes (by simp [hp])]
      simp [Closes, hp]
    exact .quiet (by simp [Abrupt, hp]) hl (Untouched.refl s) .rfl

end Steps

end Session

end PathForge.Peering
