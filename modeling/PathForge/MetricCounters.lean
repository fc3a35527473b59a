import PathForge.DaemonRuns
import PathForge.HandshakeHistory
import PathForge.OutgoingMessages

namespace PathForge.Peering

open History Fallible ByteReader Wire Routing

/-- The counters of `Metrics` that only ever count up; the other two are gauges. -/
inductive Counter where
  | sessionsEstablished | sessionsFailed | messagesRxOpen | messagesRxKeepalive | messagesRxUpdate
  | messagesRxNotification | messagesTxOpen | messagesTxKeepalive | messagesTxNotification
  | routesReceived | routesWithdrawn | holdTimerExpirations

def Metrics.get (m : Metrics) : Counter → UInt64
  | .sessionsEstablished => m.sessionsEstablished
  | .sessionsFailed => m.sessionsFailed
  | .messagesRxOpen => m.messagesRxOpen
  | .messagesRxKeepalive => m.messagesRxKeepalive
  | .messagesRxUpdate => m.messagesRxUpdate
  | .messagesRxNotification => m.messagesRxNotification
  | .messagesTxOpen => m.messagesTxOpen
  | .messagesTxKeepalive => m.messagesTxKeepalive
  | .messagesTxNotification => m.messagesTxNotification
  | .routesReceived => m.routesReceived
  | .routesWithdrawn => m.routesWithdrawn
  | .holdTimerExpirations => m.holdTimerExpirations

def updated (msg : BgpMessage) : Option UpdateMessage :=
  match msg.header.msgType, UpdateMessage.parse.outcome msg.body with
  | .update, some (.ok u) => some u
  | _, _ => none

theorem updated_of_ne {msg : BgpMessage} (h : msg.header.msgType ≠ .update) : updated msg = none := by
  unfold updated
  split
  · exact absurd (by assumption) h
  · rfl

namespace BgpState

def Spent (s : BgpState) : Prop := s = .established ∨ s = .idle

instance (s : BgpState) : Decidable s.Spent := inferInstanceAs (Decidable (_ ∨ _))

def Moves (s s' : BgpState) : Prop := s' = s ∨ ∃ e, e ≠ .manualStart ∧ s' = s.next e

theorem Moves.spent {s s' : BgpState} (h : s.Moves s') (hs : s.Spent) : s'.Spent := by
  rcases h with rfl | ⟨e, he, rfl⟩
  · exact hs
  · revert he
    rcases hs with rfl | rfl <;> cases e <;> decide

theorem Moves.established {s s' : BgpState} (h : s.Moves s') (hs : s ≠ .established) (hs' : s' = .established) :
    ¬ s.Spent := by
  rintro (he | rfl)
  · exact hs he
  · rcases h with rfl | ⟨e, he, rfl⟩
    · cases hs'
    · revert he hs'
      cases e <;> decide

end BgpState

namespace Session

variable {i : Input} {s : Session} {msg : BgpMessage}

section Messages

def messageCounts (s : Session) (i : Input) (msg : BgpMessage) : Counter → ℕ
  | .sessionsEstablished => if s.peer.state = .openConfirm ∧ msg.header.msgType = .keepalive then 1 else 0
  | .sessionsFailed => if (noticed msg).isSome then 1 else 0
  | .messagesRxOpen => if msg.header.msgType = .open then 1 else 0
  | .messagesRxKeepalive => if msg.header.msgType = .keepalive then 1 else 0
  | .messagesRxUpdate => if msg.header.msgType = .update then 1 else 0
  | .messagesRxNotification => if msg.header.msgType = .notification then 1 else 0
  | .messagesTxKeepalive => (answer i msg).length
  | .routesReceived => (updated msg).elim 0 fun u => u.nlri.length
  | .routesWithdrawn => (updated msg).elim 0 fun u => u.withdrawnRoutes.length
  | .messagesTxOpen | .messagesTxNotification | .holdTimerExpirations => 0

theorem handleOpen_metrics (o : OpenMessage) (caps : List Capability) :
    (s.handleOpen i o caps).2.metrics =
      if i.writeOk then { s.metrics with messagesTxKeepalive := s.metrics.messagesTxKeepalive + 1 }
      else s.metrics := by
  unfold handleOpen
  cases i.writeOk <;> rfl

theorem handleKeepalive_metrics :
    (s.handleKeepalive i).metrics =
      if s.peer.state = .openConfirm then
        { s.metrics with sessionsEstablished := s.metrics.sessionsEstablished + 1 }
      else s.metrics := by
  unfold handleKeepalive
  simp only
  split_ifs <;> rfl

theorem handleUpdate_metrics (u : UpdateMessage) :
    ∃ n, (s.handleUpdate i u).2.metrics =
      { s.metrics with
        routesReceived := s.metrics.routesReceived + UInt64.ofNat u.nlri.length,
        routesWithdrawn := s.metrics.routesWithdrawn + UInt64.ofNat u.withdrawnRoutes.length,
        routesLocRib := n } := by
  unfold handleUpdate
  simp only
  split
  · exact ⟨_, rfl⟩
  · exact ⟨_, rfl⟩

theorem handleMessage_counts (s : Session) (i : Input) (msg : BgpMessage) (c : Counter) :
    (s.handleMessage i msg).2.metrics.get c = s.metrics.get c + UInt64.ofNat (s.messageCounts i msg c) := by
  unfold handleMessage
  simp only
  cases ht : msg.header.msgType with
  | «open» =>
    have hu : updated msg = none := updated_of_ne (by simp [ht])
    have hn : noticed msg = none := noticed_of_ne (by simp [ht])
    rcases hb : OpenMessage.parse.outcome msg.body with _ | e | o
    · cases c <;> simp [withBody, countRx, Metrics.get, messageCounts, ht, hu, hn, answer, opened, hb]
    · cases c <;> simp [withBody, countRx, Metrics.get, messageCounts, ht, hu, hn, answer, opened, hb]
    · obtain ⟨caps, hcaps⟩ := Capability.exists_parseFromOpenParams o.optionalParams
      simp only [withBody, hcaps, handleOpen_metrics]
      cases hw : i.writeOk with
      | true => cases c <;> simp [countRx, Metrics.get, messageCounts, ht, hu, hn, answer, opened, hb, hw]
      | false => cases c <;> simp [countRx, Metrics.get, messageCounts, ht, hu, hn, answer, opened, hb, hw]
  | keepalive =>
    have hu : updated msg = none := updated_of_ne (by simp [ht])
    have hn : noticed msg = none := noticed_of_ne (by simp [ht])
    have ha : answer i msg = [] := answer_of_ne (by simp [ht])
    rw [handleKeepalive_metrics, countRx_peer]
    by_cases hs : s.peer.state = .openConfirm
    · cases c <;> simp [countRx, Metrics.get, messageCounts, ht, hu, hn, ha, hs]
    · cases c <;> simp [countRx, Metrics.get, messageCounts, ht, hu, hn, ha, hs]
  | update =>
    have hn : noticed msg = none := noticed_of_ne (by simp [ht])
    have ha : answer i msg = [] := answer_of_ne (by simp [ht])
    rcases hb : UpdateMessage.parse.outcome msg.body with _ | e | u
    · cases c <;> simp [withBody, countRx, Metrics.get, messageCounts, ht, hn, ha, updated, hb]
    · cases c <;> simp [withBody, countRx, Metrics.get, messageCounts, ht, hn, ha, updated, hb]
    · obtain ⟨n, hmetrics⟩ := handleUpdate_metrics (s := s.countRx .update) (i := i) u
      simp only [withBody, hmetrics]
      cases c <;> simp [countRx, Metrics.get, messageCounts, ht, hn, ha, updated, hb]
  | notification =>
    have hu : updated msg = none := updated_of_ne (by simp [ht])
    have ha : answer i msg = [] := answer_of_ne (by simp [ht])
    rcases hb : NotificationMessage.parse.outcome msg.body with _ | e | n
    · cases c <;> simp [withBody, countRx, Metrics.get, messageCounts, ht, hu, ha, noticed, hb]
    · cases c <;> simp [withBody, countRx, Metrics.get, messageCounts, ht, hu, ha, noticed, hb]
    · cases c <;>
        simp [withBody, countRx, handleNotification, Metrics.get, messageCounts, ht, hu, ha, noticed, hb]
  | routeRefresh =>
    have hu : updated msg = none := updated_of_ne (by simp [ht])
    have hn : noticed msg = none := noticed_of_ne (by simp [ht])
    have ha : answer i msg = [] := answer_of_ne (by simp [ht])
    cases c <;> simp [countRx, Metrics.get, messageCounts, ht, hu, hn, ha]

end Messages

section Steps

def RanOut (s : Session) (i : Input) : Prop := s.phase = .waiting ∧ s.expired i = true

instance (s : Session) (i : Input) : Decidable (s.RanOut i) := inferInstanceAs (Decidable (_ ∧ _))

def takes (s : Session) (i : Input) (t : MessageType) : ℕ :=
  (s.taken (.step i)).toList.countP fun msg => msg.header.msgType = t

def updates (s : Session) (i : Input) : Option UpdateMessage := (s.taken (.step i)).bind updated

/-- What an observer of the session counts for a step: the messages it takes and writes, what they say, and
the moves of its state. The OPEN counts when its write is tried, the NOTIFICATION when the timer ran out. -/
def counts (s : Session) (i : Input) : Counter → ℕ
  | .sessionsEstablished => if s.peer.state ≠ .established ∧ (s.step i).peer.state = .established then 1 else 0
  | .sessionsFailed => (if s.RanOut i then 1 else 0) + if (s.notices i).isSome then 1 else 0
  | .messagesRxOpen => s.takes i .open
  | .messagesRxKeepalive => s.takes i .keepalive
  | .messagesRxUpdate => s.takes i .update
  | .messagesRxNotification => s.takes i .notification
  | .messagesTxOpen => if s.phase = .opening then 1 else 0
  | .messagesTxKeepalive => (s.writes (.step i)).countP fun m => m.msgType = .keepalive
  | .messagesTxNotification | .holdTimerExpirations => if s.RanOut i then 1 else 0
  | .routesReceived => (s.updates i).elim 0 fun u => u.nlri.length
  | .routesWithdrawn => (s.updates i).elim 0 fun u => u.withdrawnRoutes.length

theorem counts_eq_zero {c : Counter} (ht : s.taken (.step i) = none) (hx : ¬ s.RanOut i) (hp : s.phase ≠ .opening)
    (hw : (s.writes (.step i)).countP (fun m => m.msgType = .keepalive) = 0)
    (hs : (s.step i).peer.state = .established → s.peer.state = .established) : s.counts i c = 0 := by
  have hest : ¬ (s.peer.state ≠ .established ∧ (s.step i).peer.state = .established) := fun h => h.1 (hs h.2)
  cases c <;> simp [counts, hest, hx, hp, hw, takes, updates, notices, ht]

theorem handleDisconnect_metrics : (s.handleDisconnect i).metrics = s.metrics := by
  unfold handleDisconnect
  simp only
  split_ifs <;> rfl

theorem receive_counts (c : Counter) : (s.receive i).metrics.get c = s.metrics.get c := by
  unfold receive
  rcases i.read with (_ | ⟨x, data⟩) | _ | _
  · simp only [handleDisconnect_metrics]
    cases c <;> rfl
  · rfl
  · rfl
  · rfl

theorem receive_established (h : (s.receive i).peer.state = .established) : s.peer.state = .established := by
  unfold receive at h
  rcases hr : i.read with (_ | ⟨x, data⟩) | _ | _ <;> rw [hr] at h
  · simp only [handleDisconnect_peer] at h
    exact absurd h s.peer.state.next_tcpConnectionFail_ne
  · exact h
  · exact absurd h s.peer.state.next_tcpConnectionFail_ne
  · exact h

theorem sendOpen_counts (hp : s.phase = .opening) (c : Counter) :
    (s.sendOpen i).metrics.get c = s.metrics.get c + UInt64.ofNat (s.counts i c) := by
  have ht : s.taken (.step i) = none := taken_of_phase_ne (by simp [hp])
  have hstep : s.step i = s.sendOpen i := by simp only [step, hp]
  have hs : (s.step i).peer.state = s.peer.state := by
    rw [hstep]
    simp only [sendOpen]
    split_ifs <;> rfl
  have hm : (s.sendOpen i).metrics = { s.metrics with messagesTxOpen := s.metrics.messagesTxOpen + 1 } := by
    simp only [sendOpen]
    split_ifs <;> rfl
  have hw : (s.writes (.step i)).countP (fun m => m.msgType = .keepalive) = 0 := by
    simp only [writes, hp]
    split_ifs <;> simp [Message.msgType]
  have hx : ¬ s.RanOut i := by simp [RanOut, hp]
  rw [hm]
  cases c <;> simp [Metrics.get, counts, hs, hx, hp, hw, takes, updates, notices, ht]

theorem expire_counts (hp : s.phase = .waiting) (hx : s.expired i = true) (c : Counter) :
    (s.expire i).metrics.get c = s.metrics.get c + UInt64.ofNat (s.counts i c) := by
  have ht : s.taken (.step i) = none := taken_of_phase_ne (by simp [hp])
  have hran : s.RanOut i := ⟨hp, hx⟩
  have hstep : s.step i = s.expire i := by
    rcases s.wait_cases i with ⟨-, hw⟩ | ⟨hx', -⟩ | ⟨hx', -⟩
    · simp only [step, hp, hw]
    · rw [hx] at hx'
      cases hx'
    · rw [hx] at hx'
      cases hx'
  have hs : (s.step i).peer.state = .idle := by
    rw [hstep]
    simp only [expire, handleDisconnect_peer]
    exact s.peer.state.next_holdTimerExpired
  have hw : (s.writes (.step i)).countP (fun m => m.msgType = .keepalive) = 0 := by
    simp only [writes, hp, hx]
    split_ifs <;> simp [Message.msgType]
  simp only [expire, handleDisconnect_metrics]
  cases c <;> simp [Metrics.get, counts, hs, hran, hp, hw, takes, updates, notices, ht]

theorem wait_counts (hp : s.phase = .waiting) (c : Counter) :
    (s.wait i).metrics.get c = s.metrics.get c + UInt64.ofNat (s.counts i c) := by
  have ht : s.taken (.step i) = none := taken_of_phase_ne (by simp [hp])
  have hne : s.phase ≠ .opening := by simp [hp]
  have hstep : s.step i = s.wait i := by simp only [step, hp]
  have hran (hx : s.expired i = false) : ¬ s.RanOut i := by simp [RanOut, hx]
  rcases s.wait_write_cases i with ⟨hx, hw⟩ | ⟨hx, hd, hok, hw⟩ | ⟨hx, hd, hok, clock, hw⟩ | ⟨hx, hd, hw⟩
  · rw [hw]
    exact expire_counts hp hx c
  · have hwrites : s.writes (.step i) = [] := by simp [writes, hp, hx, hok]
    rw [counts_eq_zero ht (hran hx) hne (by simp [hwrites]) (by rw [hstep, hw]; exact id), hw]
    exact (UInt64.add_zero _).symm
  · have hwrites : s.writes (.step i) = [.keepalive ⟨⟩] := by simp [writes, hp, hx, hd, hok]
    have hs : ¬ (s.peer.state ≠ .established ∧ (s.step i).peer.state = .established) := by
      rw [hstep, hw]
      exact fun h => h.1 (receive_established (s := s.sendKeepalive clock) h.2)
    rw [hw, receive_counts]
    cases c <;> simp [Metrics.get, sendKeepalive, counts, hs, hran hx, hp, hwrites, takes, updates, notices, ht,
      Message.msgType]
  · have hwrites : s.writes (.step i) = [] := by simp [writes, hp, hx, hd]
    have hs : (s.step i).peer.state = .established → s.peer.state = .established := by
      rw [hstep, hw]
      exact receive_established
    rw [counts_eq_zero ht (hran hx) hne (by simp [hwrites]) hs, hw, receive_counts]
    exact (UInt64.add_zero _).symm

theorem established_iff (s : Session) (i : Input) (msg : BgpMessage) :
    (s.peer.state ≠ .established ∧ (s.handleMessage i msg).2.peer.state = .established) ↔
      s.peer.state = .openConfirm ∧ msg.header.msgType = .keepalive := by
  rcases handleMessage_state s i msg with ⟨-, hs⟩ | ⟨hn, -, hpeer⟩
  · rw [hs, BgpState.onMessage_eq_established]
    constructor
    · rintro ⟨hne, h | h⟩
      · exact h
      · exact absurd h.1 hne
    · rintro ⟨ho, hk⟩
      exact ⟨by simp [ho], .inl ⟨ho, hk⟩⟩
  · rw [hpeer]
    constructor
    · rintro ⟨hne, he⟩
      exact absurd he hne
    · rintro ⟨-, hk⟩
      exact absurd (by simp [Processed, hk]) hn

theorem handleMessage_moves (s : Session) (i : Input) (msg : BgpMessage) :
    s.peer.state.Moves (s.handleMessage i msg).2.peer.state := by
  rcases handleMessage_state s i msg with ⟨-, hs⟩ | ⟨-, -, hpeer⟩
  · rw [hs]
    cases msg.header.msgType with
    | «open» => exact .inr ⟨.bgpOpen, by decide, rfl⟩
    | update => exact .inr ⟨.updateMsg, by decide, rfl⟩
    | notification => exact .inr ⟨.notifMsg, by decide, rfl⟩
    | keepalive =>
      unfold BgpState.onMessage
      split_ifs
      · exact .inr ⟨.keepAliveMsg, by decide, rfl⟩
      · exact .inl rfl
    | routeRefresh => exact .inl rfl
  · rw [hpeer]
    exact .inl rfl

theorem receive_moves : s.peer.state.Moves (s.receive i).peer.state := by
  unfold receive
  rcases i.read with (_ | ⟨x, data⟩) | _ | _
  · simp only [handleDisconnect_peer]
    exact .inr ⟨.tcpConnectionFail, by decide, rfl⟩
  · exact .inl rfl
  · exact .inr ⟨.tcpConnectionFail, by decide, rfl⟩
  · exact .inl rfl

theorem step_moves (s : Session) (i : Input) : s.peer.state.Moves (s.step i).peer.state := by
  simp only [step]
  cases hp : s.phase with
  | opening =>
    simp only [sendOpen]
    split_ifs <;> exact .inl rfl
  | waiting =>
    simp only
    rcases s.wait_cases i with ⟨-, hw⟩ | ⟨-, -, -, hw⟩ | ⟨-, -, t, ht, hw⟩
    · rw [hw]
      simp only [expire, handleDisconnect_peer]
      exact .inr ⟨.holdTimerExpired, by decide, rfl⟩
    · rw [hw]
      exact .inl rfl
    · rw [hw]
      rcases ht with rfl | ⟨clock, rfl⟩ <;> exact receive_moves
  | draining =>
    simp only
    rcases s.drain_cases i with ⟨e, buf, -, hd⟩ | ⟨buf, -, hd⟩ | ⟨msg, buf, outcome, t, -, hb, hd⟩
    · rw [hd]
      exact .inl rfl
    · rw [hd]
      exact .inl rfl
    · have hm := handleMessage_moves ({ s with buf := buf } : Session) i msg
      rw [hb] at hm
      rcases hd with ⟨-, hd⟩ | ⟨-, how, -, hd⟩ <;> rwa [hd]
  | ended how => exact .inl rfl

theorem drain_counts (hp : s.phase = .draining) (c : Counter) :
    (s.drain i).metrics.get c = s.metrics.get c + UInt64.ofNat (s.counts i c) := by
  have hne : s.phase ≠ .opening := by simp [hp]
  have hran : ¬ s.RanOut i := by simp [RanOut, hp]
  have hstep : s.step i = s.drain i := by simp only [step, hp]
  rcases s.drain_cases i with ⟨e, buf, ho, hd⟩ | ⟨buf, ho, hd⟩ | ⟨msg, buf, outcome, t, ho, hb, hd⟩
  · have ht : s.taken (.step i) = none := by simp only [taken, hp, ho]
    have hwrites : s.writes (.step i) = [] := by simp [writes, hp, opens, ht]
    rw [counts_eq_zero ht hran hne (by simp [hwrites]) (by rw [hstep, hd]; exact id), hd]
    exact (UInt64.add_zero _).symm
  · have ht : s.taken (.step i) = none := by simp only [taken, hp, ho]
    have hwrites : s.writes (.step i) = [] := by simp [writes, hp, opens, ht]
    rw [counts_eq_zero ht hran hne (by simp [hwrites]) (by rw [hstep, hd]; exact id), hd]
    exact (UInt64.add_zero _).symm
  · have ht : s.taken (.step i) = some msg := taken_step_eq_some.mpr ⟨hp, ho⟩
    have hmsg := handleMessage_counts ({ s with buf := buf } : Session) i msg c
    have hest := established_iff ({ s with buf := buf } : Session) i msg
    rw [hb] at hmsg hest
    have hpeer : (s.drain i).peer = t.peer ∧ (s.drain i).metrics = t.metrics := by
      rcases hd with ⟨-, hd⟩ | ⟨-, how, -, hd⟩ <;> rw [hd] <;> exact ⟨rfl, rfl⟩
    have hwrites : s.writes (.step i) = answer i msg := by simp [writes, hp, opens, ht, answer]
    have hkeepalives : (answer i msg).countP (fun m => m.msgType = .keepalive) = (answer i msg).length := by
      unfold answer
      split_ifs <;> simp [Message.msgType]
    have hcounts : s.counts i c = ({ s with buf := buf } : Session).messageCounts i msg c := by
      cases c <;> simp [counts, messageCounts, takes, updates, notices, ht, hran, hne, hwrites, hkeepalives, hstep,
        hpeer.1, ← hest]
    rw [hpeer.2, hmsg, hcounts]

theorem step_counts (s : Session) (i : Input) (c : Counter) :
    (s.step i).metrics.get c = s.metrics.get c + UInt64.ofNat (s.counts i c) := by
  cases hp : s.phase with
  | opening =>
    rw [show s.step i = s.sendOpen i by simp only [step, hp]]
    exact sendOpen_counts hp c
  | waiting =>
    rw [show s.step i = s.wait i by simp only [step, hp]]
    exact wait_counts hp c
  | draining =>
    rw [show s.step i = s.drain i by simp only [step, hp]]
    exact drain_counts hp c
  | ended how =>
    have hstep : s.step i = s := by simp only [step, hp]
    have ht : s.taken (.step i) = none := taken_of_phase_ne (by simp [hp])
    have hran : ¬ s.RanOut i := by simp [RanOut, hp]
    rw [counts_eq_zero ht hran (by simp [hp]) (by simp [writes, hp]) (by rw [hstep]; exact id), hstep]
    exact (UInt64.add_zero _).symm

end Steps

end Session

namespace Daemon

def counts (c : Counter) (d : Daemon) : Action → ℕ
  | .step j i => (d.tasks[j]?).elim 0 fun t => (d.session t).counts i c
  | .start _ _ | .purge _ _ => 0

theorem act_counts (c : Counter) (d : Daemon) (a : Action) :
    (d.act a).metrics.get c = d.metrics.get c + UInt64.ofNat (d.counts c a) := by
  cases a with
  | start addr config => cases c <;> exact (UInt64.add_zero _).symm
  | step j i =>
    rcases ht : d.tasks[j]? with _ | t
    · rw [act_step_none ht]
      simp [counts, ht]
    · rw [act_step_some ht]
      simp only [counts, ht, Option.elim_some]
      exact (d.session t).step_counts i c
  | purge n host =>
    rcases hn : d.purges[n]? with _ | timer
    · rw [act_purge_none hn]
      exact (UInt64.add_zero _).symm
    · rw [act_purge_some hn]
      exact (UInt64.add_zero _).symm

theorem get_foldl (d : Daemon) (actions : List Action) (c : Counter) :
    (actions.foldl act d).metrics.get c = d.metrics.get c + UInt64.ofNat (tally act (counts c) d actions) :=
  @counter_foldl _ _ act (counts c) (fun d => d.metrics.get c) (act_counts c) d actions

theorem get_new (c : Counter) : ({} : Daemon).metrics.get c = 0 := by cases c <;> rfl

theorem counters_eq_tally (actions : List Action) (c : Counter) :
    (actions.foldl act {}).metrics.get c = UInt64.ofNat (tally act (counts c) {} actions) := by
  rw [get_foldl, get_new, UInt64.zero_add]

section Established

variable {d : Daemon} {j : ℕ} {i : Input} {t : Task}

def hopeful (d : Daemon) : ℕ := d.tasks.countP fun t => ¬ t.peer.state.Spent

def started : Action → ℕ
  | .start _ _ => 1
  | .step _ _ | .purge _ _ => 0

theorem hopeful_act (ht : d.tasks[j]? = some t) :
    (d.act (.step j i)).hopeful = d.hopeful - (if t.peer.state.Spent then 0 else 1) +
      if ((d.session t).step i).peer.state.Spent then 0 else 1 := by
  obtain ⟨hj, rfl⟩ := List.getElem?_eq_some_iff.mp ht
  rw [act_step_some ht]
  simp only [hopeful, List.countP_set hj, Session.task]
  by_cases hs : d.tasks[j].peer.state.Spent <;>
    by_cases hs' : ((d.session d.tasks[j]).step i).peer.state.Spent <;> simp [hs, hs']

theorem step_hopeful (ht : d.tasks[j]? = some t) :
    d.counts .sessionsEstablished (.step j i) + (d.act (.step j i)).hopeful ≤ d.hopeful := by
  have hmoves : t.peer.state.Moves ((d.session t).step i).peer.state := (d.session t).step_moves i
  have hcount : d.counts .sessionsEstablished (.step j i) =
      if t.peer.state ≠ .established ∧ ((d.session t).step i).peer.state = .established then 1 else 0 := by
    simp only [counts, ht, Option.elim_some]
    rfl
  rw [hcount, hopeful_act ht]
  by_cases hs : t.peer.state.Spent
  · have hzero : ¬ (t.peer.state ≠ .established ∧ ((d.session t).step i).peer.state = .established) := fun h =>
      hmoves.established h.1 h.2 hs
    rw [if_neg hzero, if_pos hs, if_pos (hmoves.spent hs)]
    omega
  · have hpos : 0 < d.hopeful := List.countP_pos_iff.mpr ⟨t, List.mem_of_getElem? ht, by simpa using hs⟩
    rw [if_neg hs]
    by_cases he : ((d.session t).step i).peer.state = .established
    · rw [if_pos (show BgpState.Spent _ from .inl he)]
      split_ifs <;> omega
    · rw [if_neg fun h => he h.2]
      split_ifs <;> omega

theorem established_le_started (actions : List Action) :
    tally act (counts .sessionsEstablished) {} actions ≤ (actions.map started).sum := by
  have hstep (d : Daemon) (a : Action) :
      d.counts .sessionsEstablished a + (d.act a).hopeful ≤ d.hopeful + started a := by
    cases a with
    | start addr config =>
      have hmore : (d.act (.start addr config)).hopeful = d.hopeful + 1 := by
        simp only [hopeful, act, List.countP_append]
        rfl
      rw [hmore]
      exact (Nat.zero_add _).le
    | step j i =>
      rcases ht : d.tasks[j]? with _ | t
      · rw [act_step_none ht]
        simp [counts, ht]
      · exact step_hopeful ht
    | purge n host =>
      have hsame : (d.act (.purge n host)).hopeful = d.hopeful := by
        rcases hn : d.purges[n]? with _ | timer
        · rw [act_purge_none hn]
        · rw [act_purge_some hn]
          rfl
      rw [hsame]
      exact (Nat.zero_add _).le
  have hsum := tally_add_le (I := fun _ => True) (fun _ _ _ => trivial) (fun d a _ => hstep d a)
    (s := {}) trivial actions
  have hzero : ({} : Daemon).hopeful = 0 := rfl
  omega

end Established

end Daemon

end PathForge.Peering
