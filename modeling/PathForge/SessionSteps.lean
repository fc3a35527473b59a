import PathForge.PeerSession
import PathForge.TableChanges

namespace PathForge.Peering

open Fallible ByteReader Wire Routing

theorem BgpState.next_tcpConnectionFail_ne (s : BgpState) : s.next .tcpConnectionFail ≠ .established := by
  cases s <;> decide

theorem BgpState.next_holdTimerExpired (s : BgpState) : s.next .holdTimerExpired = .idle := by
  cases s <;> rfl

namespace Session

def NoRoutes (s : Session) : Prop := ∀ k, s.rib.route s.peer.addr k = none

def Ended (s : Session) : Prop := ∃ how, s.phase = .ended how

theorem not_ended_of_draining {s : Session} (h : s.phase = .draining) : ¬ s.Ended := by
  rintro ⟨how, he⟩
  rw [h] at he
  cases he

structure Kept (s s' : Session) : Prop where
  addr : s'.peer.addr = s.peer.addr
  purges : s'.purges = s.purges
  rpki : s'.rib.rpki = s.rib.rpki

theorem Kept.refl (s : Session) : Kept s s := ⟨rfl, rfl, rfl⟩

theorem Kept.trans {s t u : Session} (h : Kept s t) (h' : Kept t u) : Kept s u :=
  ⟨h'.addr.trans h.addr, h'.purges.trans h.purges, h'.rpki.trans h.rpki⟩

theorem removePeer_rpki (r : Rib) (h : Host) (peer : SocketAddr) : (r.removePeer h peer).2.rpki = r.rpki :=
  Rib.apply_rpki (show r.apply h (.removePeer peer) = some _ from rfl)

section Disconnect

variable {i : Input} {s : Session}

theorem handleDisconnect_of_ne (h : s.peer.state ≠ .established) :
    s.handleDisconnect i = { s with rib := (s.rib.removePeer i.host s.peer.addr).2 } := by
  have hs : (s.peer.state == .established) = false := by simpa using h
  simp only [handleDisconnect, hs, Bool.and_false, Bool.false_eq_true, ↓reduceIte]

theorem expire_kept : Kept s (s.expire i) ∧ (s.expire i).Ended ∧ (s.expire i).NoRoutes := by
  have hs : s.peer.state.next .holdTimerExpired ≠ .established := by
    rw [BgpState.next_holdTimerExpired]
    decide
  simp only [expire]
  rw [handleDisconnect_of_ne hs]
  exact ⟨⟨rfl, rfl, removePeer_rpki _ _ _⟩, ⟨_, rfl⟩, Rib.route_removePeer _ _ _⟩

theorem receive_closed (hr : i.read = .ok []) :
    Kept s (s.receive i) ∧ (s.receive i).Ended ∧ (s.receive i).NoRoutes := by
  have hs : s.peer.state.next .tcpConnectionFail ≠ .established := s.peer.state.next_tcpConnectionFail_ne
  simp only [receive, hr]
  rw [handleDisconnect_of_ne hs]
  exact ⟨⟨rfl, rfl, removePeer_rpki _ _ _⟩, ⟨_, rfl⟩, Rib.route_removePeer _ _ _⟩

theorem receive_err (hr : i.read = .err) :
    Kept s (s.receive i) ∧ (s.receive i).phase = .ended .readError ∧ (s.receive i).rib = s.rib := by
  unfold receive
  rw [hr]
  exact ⟨⟨rfl, rfl, rfl⟩, rfl, rfl⟩

end Disconnect

section Messages

variable {i : Input} {s : Session} {msg : BgpMessage}

def Refused (i : Input) (msg : BgpMessage) : Prop :=
  match msg.header.msgType with
  | .open => (∀ o, OpenMessage.parse.outcome msg.body ≠ some (.ok o)) ∨ i.writeOk = false
  | .update => ∀ u, UpdateMessage.parse.outcome msg.body ≠ some (.ok u)
  | .notification => ∀ n, NotificationMessage.parse.outcome msg.body ≠ some (.ok n)
  | .keepalive | .routeRefresh => False

structure Handled (s : Session) (refused : Prop) (r : Outcome × Session) : Prop extends Kept s r.2 where
  phase : r.2.phase = s.phase
  done_iff : r.1 = .done ↔ ¬ refused
  rib : refused → r.2.rib = s.rib

theorem withBody_handled {α : Type} {r : Option (Except MessageError α)} {k : α → Outcome × Session} {p : Prop}
    (hk : ∀ a, Handled s p (k a)) : Handled s ((∀ a, r ≠ some (.ok a)) ∨ p) (s.withBody r k) := by
  rcases r with _ | ⟨e | a⟩
  · exact ⟨Kept.refl s, rfl, by simp [withBody], fun _ => rfl⟩
  · exact ⟨Kept.refl s, rfl, by simp [withBody], fun _ => rfl⟩
  · have hp : ((∀ b, some (Except.ok a) ≠ some (Except.ok (ε := MessageError) b)) ∨ p) ↔ p := by simp
    rw [hp]
    exact hk a

theorem handleOpen_handled (o : OpenMessage) (caps : List Capability) :
    Handled s (i.writeOk = false) (s.handleOpen i o caps) := by
  unfold handleOpen
  cases hw : i.writeOk with
  | true => exact ⟨⟨rfl, rfl, rfl⟩, rfl, by simp, by simp⟩
  | false => exact ⟨⟨rfl, rfl, rfl⟩, rfl, by simp, fun _ => rfl⟩

theorem handleKeepalive_handled : Handled s False (.done, s.handleKeepalive i) := by
  unfold handleKeepalive
  simp only
  split_ifs <;> exact ⟨⟨rfl, rfl, rfl⟩, rfl, by simp, by simp⟩

theorem handleNotification_handled : Handled s False (.done, s.handleNotification i) :=
  ⟨⟨rfl, rfl, removePeer_rpki _ _ _⟩, rfl, by simp, by simp⟩

theorem exists_updateRib {rib : Rib} (hm : rib.rpki.mode = .disabled) (h : Host) (p : Peer) (u : UpdateMessage) :
    ∃ rib', updateRib h p u rib = some rib' ∧ rib'.rpki = rib.rpki := by
  obtain ⟨rib₁, h₁⟩ := Rib.exists_apply hm h
    (.processUpdate p.addr p.remoteAs u.nlri u.pathAttributes u.withdrawnRoutes)
  have hstale : (rib₁.removeStaleForPeer h p.addr).2.rpki = rib₁.rpki :=
    Rib.apply_rpki (show rib₁.apply h (.removeStaleForPeer p.addr) = some _ from rfl)
  have hu : updateRib h p u rib = some (if isEndOfRib u then (rib₁.removeStaleForPeer h p.addr).2 else rib₁) := by
    rw [updateRib, show rib.processUpdate h p.addr p.remoteAs u.nlri u.pathAttributes u.withdrawnRoutes = some rib₁
      from h₁]
    rfl
  refine ⟨_, hu, ?_⟩
  split_ifs
  · exact hstale.trans (Rib.apply_rpki h₁)
  · exact Rib.apply_rpki h₁

theorem handleUpdate_handled (hm : s.rib.rpki.mode = .disabled) (u : UpdateMessage) :
    Handled s False (s.handleUpdate i u) := by
  obtain ⟨rib, hr, hrpki⟩ := exists_updateRib hm
    { i.host with clock := (s.peer.timers.resetHoldTimer.run i.host.clock).2 }
    (({ s.peer with timers := (s.peer.timers.resetHoldTimer.run i.host.clock).1 } : Peer).transition .updateMsg) u
  simp only [handleUpdate, hr]
  exact ⟨⟨rfl, rfl, hrpki⟩, rfl, by simp, by simp⟩

theorem Handled.of_kept {s s₀ : Session} {p : Prop} {r : Outcome × Session} (h : Handled s p r) (hk : Kept s₀ s)
    (hphase : s.phase = s₀.phase) (hrib : s.rib = s₀.rib) : Handled s₀ p r :=
  ⟨hk.trans h.toKept, h.phase.trans hphase, h.done_iff, fun hp => (h.rib hp).trans hrib⟩

theorem countRx_rib (t : MessageType) : (s.countRx t).rib = s.rib := by cases t <;> rfl

theorem Handled.of_countRx {t : MessageType} {p : Prop} {r : Outcome × Session} (h : Handled (s.countRx t) p r) :
    Handled s p r := by
  cases t <;> exact h.of_kept ⟨rfl, rfl, rfl⟩ rfl rfl

theorem handleMessage_handled (hm : s.rib.rpki.mode = .disabled) :
    Handled s (Refused i msg) (s.handleMessage i msg) := by
  rw [← s.countRx_rib msg.header.msgType] at hm
  apply Handled.of_countRx (t := msg.header.msgType)
  simp only [handleMessage, Refused]
  generalize s.countRx msg.header.msgType = s at hm ⊢
  cases msg.header.msgType with
  | «open» =>
    apply withBody_handled
    intro o
    obtain ⟨caps, hcaps⟩ := Capability.exists_parseFromOpenParams o.optionalParams
    rw [hcaps]
    exact handleOpen_handled o caps
  | update =>
    have h := withBody_handled (r := UpdateMessage.parse.outcome msg.body) (handleUpdate_handled (i := i) hm)
    rwa [or_false] at h
  | notification =>
    have h := withBody_handled (r := NotificationMessage.parse.outcome msg.body) fun _ =>
      handleNotification_handled (i := i) (s := s)
    rwa [or_false] at h
  | keepalive => exact handleKeepalive_handled
  | routeRefresh => exact ⟨Kept.refl s, rfl, by simp, by simp⟩

end Messages

section Steps

variable {i : Input} {s : Session}

def expired (i : Input) (s : Session) : Bool := (s.peer.timers.holdTimerExpired.run i.host.clock).1

def keepaliveDue (i : Input) (s : Session) : Bool :=
  (s.keepaliveNow.run (s.peer.timers.holdTimerExpired.run i.host.clock).2).1

/-- The step leaves `run_session` by another way than the two that call `handle_disconnect`: a failed write, a
read error, a framing error, or a body that is not accepted. -/
def Abrupt (s : Session) (i : Input) : Prop :=
  match s.phase with
  | .opening => i.writeOk = false
  | .waiting => s.expired i = false ∧ (s.keepaliveDue i = true ∧ i.writeOk = false ∨ i.read = .err)
  | .draining =>
    match BgpMessage.parse.outcome s.buf with
    | some (.ok none) => False
    | some (.ok (some msg)) => Refused i msg
    | _ => True
  | .ended _ => False

inductive Progress (s : Session) (i : Input) (s' : Session) : Prop
  | goesOn (ha : ¬ s.Abrupt i) (hp : ¬ s'.Ended)
  | cleanEnd (ha : ¬ s.Abrupt i) (he : s'.Ended) (hr : s'.NoRoutes)
  | abruptEnd (ha : s.Abrupt i) (how : Ending) (he : s'.phase = .ended how) (hw : how ≠ .closed)
      (hr : s'.rib = s.rib)
  | already (he : s.Ended) (hs : s' = s)

theorem sendOpen_progress (hp : s.phase = .opening) : Kept s (s.sendOpen i) ∧ Progress s i (s.sendOpen i) := by
  have ha : s.Abrupt i ↔ i.writeOk = false := by simp [Abrupt, hp]
  simp only [sendOpen]
  split_ifs with hw
  · exact ⟨⟨rfl, rfl, rfl⟩, .goesOn (by simp [ha, hw]) (by simp [Ended])⟩
  · exact ⟨⟨rfl, rfl, rfl⟩, .abruptEnd (by simpa [ha] using hw) _ rfl (by decide) rfl⟩

theorem receive_progress {t : Session} (hp : t.phase = .waiting) (hk : Kept s t) (hrib : t.rib = s.rib)
    (ha : s.Abrupt i ↔ i.read = .err) : Kept s (t.receive i) ∧ Progress s i (t.receive i) := by
  rcases hr : i.read with (_ | ⟨x, data⟩) | _ | _
  · obtain ⟨hkept, he, hn⟩ := receive_closed (s := t) hr
    exact ⟨hk.trans hkept, .cleanEnd (by simp [ha, hr]) he hn⟩
  · simp only [receive, hr]
    exact ⟨hk.trans ⟨rfl, rfl, rfl⟩, .goesOn (by simp [ha, hr]) (by simp [Ended])⟩
  · obtain ⟨hkept, he, hn⟩ := receive_err (s := t) hr
    exact ⟨hk.trans hkept, .abruptEnd (ha.mpr hr) _ he (by decide) (hn.trans hrib)⟩
  · simp only [receive, hr]
    exact ⟨hk, .goesOn (by simp [ha, hr]) (by simp [Ended, hp])⟩

theorem wait_cases (s : Session) (i : Input) :
    (s.expired i = true ∧ s.wait i = s.expire i) ∨
      (s.expired i = false ∧ s.keepaliveDue i = true ∧ i.writeOk = false ∧
        s.wait i = { s with phase := .ended .writeError }) ∨
      s.expired i = false ∧ (s.keepaliveDue i = true → i.writeOk = true) ∧
        ∃ t, (t = s ∨ ∃ clock, t = s.sendKeepalive clock) ∧ s.wait i = t.receive i := by
  change (s.expired i = true ∧ (if s.expired i = true then _ else if s.keepaliveDue i = true then _ else _) = _) ∨
    (s.expired i = false ∧ _ ∧ _ ∧
      (if s.expired i = true then _ else if s.keepaliveDue i = true then _ else _) = _) ∨
    s.expired i = false ∧ _ ∧ ∃ t, _ ∧
      (if s.expired i = true then _ else if s.keepaliveDue i = true then _ else _) = _
  cases s.expired i with
  | true => exact .inl ⟨rfl, rfl⟩
  | false =>
    right
    cases s.keepaliveDue i with
    | false => exact .inr ⟨rfl, by simp, s, .inl rfl, rfl⟩
    | true =>
      cases i.writeOk with
      | false => exact .inl ⟨rfl, rfl, rfl, rfl⟩
      | true => exact .inr ⟨rfl, fun _ => rfl, _, .inr ⟨_, rfl⟩, rfl⟩

theorem wait_progress (hp : s.phase = .waiting) : Kept s (s.wait i) ∧ Progress s i (s.wait i) := by
  have ha : s.Abrupt i ↔
      s.expired i = false ∧ (s.keepaliveDue i = true ∧ i.writeOk = false ∨ i.read = .err) := by simp [Abrupt, hp]
  rcases s.wait_cases i with ⟨hx, hw⟩ | ⟨hx, hd, hok, hw⟩ | ⟨hx, hd, t, ht, hw⟩
  · rw [hw]
    obtain ⟨hk, he, hn⟩ := expire_kept (s := s) (i := i)
    exact ⟨hk, .cleanEnd (by simp [ha, hx]) he hn⟩
  · rw [hw]
    exact ⟨⟨rfl, rfl, rfl⟩, .abruptEnd (by simp [ha, hx, hd, hok]) _ rfl (by decide) rfl⟩
  · have herr : s.Abrupt i ↔ i.read = .err := by
      rw [ha]
      cases hok : i.writeOk <;> simp_all
    rw [hw]
    rcases ht with rfl | ⟨clock, rfl⟩
    · exact receive_progress hp (Kept.refl t) rfl herr
    · exact receive_progress hp ⟨rfl, rfl, rfl⟩ rfl herr

theorem drain_cases (s : Session) (i : Input) :
    (∃ e buf, BgpMessage.parse.outcome s.buf = some (.error e) ∧
        s.drain i = { s with buf := buf, phase := .ended (.framingError e) }) ∨
      (∃ buf, BgpMessage.parse.outcome s.buf = some (.ok none) ∧
        s.drain i = { s with buf := buf, phase := .waiting }) ∨
      ∃ msg buf outcome t, BgpMessage.parse.outcome s.buf = some (.ok (some msg)) ∧
        ({ s with buf := buf } : Session).handleMessage i msg = (outcome, t) ∧
        (outcome = .done ∧ s.drain i = t ∨
          outcome ≠ .done ∧ ∃ how, how ≠ .closed ∧ s.drain i = { t with phase := .ended how }) := by
  obtain ⟨r, buf, hr, -⟩ := BgpMessage.incremental_parse s.buf
  have ho : BgpMessage.parse.outcome s.buf = some r := outcome_eq_some.mpr ⟨buf, hr⟩
  simp only [drain, hr, ho]
  rcases r with e | _ | msg
  · exact .inl ⟨e, buf, rfl, rfl⟩
  · exact .inr (.inl ⟨buf, rfl, rfl⟩)
  · rcases hb : (({ s with buf := buf } : Session).handleMessage i msg) with ⟨outcome, t⟩
    refine .inr (.inr ⟨msg, buf, outcome, t, rfl, hb, ?_⟩)
    simp only [hb]
    rcases outcome with _ | ⟨_ | e⟩ | _
    · exact .inl ⟨rfl, rfl⟩
    · exact .inr ⟨by simp, _, by decide, rfl⟩
    · exact .inr ⟨by simp, _, by simp, rfl⟩
    · exact .inr ⟨by simp, _, by decide, rfl⟩

theorem drain_progress (hm : s.rib.rpki.mode = .disabled) (hp : s.phase = .draining) :
    Kept s (s.drain i) ∧ Progress s i (s.drain i) := by
  rcases s.drain_cases i with ⟨e, buf, ho, hd⟩ | ⟨buf, ho, hd⟩ | ⟨msg, buf, outcome, t, ho, hb, hd⟩
  · rw [hd]
    exact ⟨⟨rfl, rfl, rfl⟩, .abruptEnd (by simp [Abrupt, hp, ho]) _ rfl (by simp) rfl⟩
  · rw [hd]
    exact ⟨⟨rfl, rfl, rfl⟩, .goesOn (by simp [Abrupt, hp, ho]) (by simp [Ended])⟩
  · have ha : s.Abrupt i ↔ Refused i msg := by simp [Abrupt, hp, ho]
    have hh : Handled s (Refused i msg) (outcome, t) := by
      rw [← hb]
      exact (handleMessage_handled (s := { s with buf := buf }) hm).of_kept ⟨rfl, rfl, rfl⟩ rfl rfl
    rcases hd with ⟨hdone, hd⟩ | ⟨hfail, how, hhow, hd⟩
    · have ht : t.phase = .draining := hh.phase.trans hp
      rw [hd]
      exact ⟨hh.toKept, .goesOn (ha.not.mpr (hh.done_iff.mp hdone)) (by simp [Ended, ht])⟩
    · have hr : Refused i msg := by
        by_contra hn
        exact hfail (hh.done_iff.mpr hn)
      rw [hd]
      exact ⟨⟨hh.addr, hh.purges, hh.rpki⟩, .abruptEnd (ha.mpr hr) how rfl hhow (hh.rib hr)⟩

theorem step_progress (hm : s.rib.rpki.mode = .disabled) : Kept s (s.step i) ∧ Progress s i (s.step i) := by
  unfold step
  split
  · exact sendOpen_progress ‹_›
  · exact wait_progress ‹_›
  · exact drain_progress hm ‹_›
  · exact ⟨Kept.refl s, .already ⟨_, ‹_›⟩ rfl⟩

theorem Abrupt.not_ended (h : s.Abrupt i) : ¬ s.Ended := by
  rintro ⟨how, hp⟩
  simp [Abrupt, hp] at h

end Steps

end Session

end PathForge.Peering
