import PathForge.SessionRuns
import Mathlib.Data.List.Infix

namespace PathForge.Peering

open Fallible ByteReader Wire Routing

namespace BgpState

def onMessage (s : BgpState) : MessageType → BgpState
  | .open => s.next .bgpOpen
  | .keepalive => if s = .openConfirm then s.next .keepAliveMsg else s
  | .update => s.next .updateMsg
  | .notification => s.next .notifMsg
  | .routeRefresh => s

theorem openSent_onMessage {t : MessageType} (h : t ≠ .open) : openSent.onMessage t = .openSent := by
  cases t with
  | «open» => exact absurd rfl h
  | _ => rfl

theorem openConfirm_onMessage {t : MessageType} (h : t ≠ .keepalive) : openConfirm.onMessage t = .openConfirm := by
  cases t with
  | keepalive => exact absurd rfl h
  | _ => rfl

theorem established_onMessage {t : MessageType} (h : t ≠ .notification) :
    established.onMessage t = .established := by
  cases t with
  | notification => exact absurd rfl h
  | _ => rfl

theorem foldl_onMessage {s : BgpState} {t : MessageType} (h : ∀ t', t' ≠ t → s.onMessage t' = s)
    {types : List MessageType} (ht : t ∉ types) : types.foldl onMessage s = s := by
  induction types with
  | nil => rfl
  | cons t' types ih =>
    rw [List.mem_cons, not_or] at ht
    rw [List.foldl_cons, h t' (Ne.symm ht.1)]
    exact ih ht.2

end BgpState

def HandshakeDone (types : List MessageType) : Prop :=
  ∃ a b c, types = a ++ .open :: (b ++ .keepalive :: c) ∧ .open ∉ a ∧ .keepalive ∉ b ∧ .notification ∉ c

theorem HandshakeDone.established {types : List MessageType} (h : HandshakeDone types) :
    types.foldl BgpState.onMessage .openSent = .established := by
  obtain ⟨a, b, c, rfl, ha, hb, hc⟩ := h
  calc
    _ = (.open :: (b ++ .keepalive :: c)).foldl BgpState.onMessage .openSent := by
      rw [List.foldl_append, BgpState.foldl_onMessage (fun _ => BgpState.openSent_onMessage) ha]
    _ = (.keepalive :: c).foldl BgpState.onMessage .openConfirm := by
      change (b ++ .keepalive :: c).foldl BgpState.onMessage .openConfirm = _
      rw [List.foldl_append, BgpState.foldl_onMessage (fun _ => BgpState.openConfirm_onMessage) hb]
    _ = .established := BgpState.foldl_onMessage (fun _ => BgpState.established_onMessage) hc

namespace Session

section Taken

variable {i : Input} {s : Session} {msg : BgpMessage}

def taken (s : Session) : Event → Option BgpMessage
  | .step _ =>
    match s.phase, BgpMessage.parse.outcome s.buf with
    | .draining, some (.ok msg) => msg
    | _, _ => none
  | .other _ _ => none

theorem taken_step_eq_some : s.taken (.step i) = some msg ↔
    s.phase = .draining ∧ BgpMessage.parse.outcome s.buf = some (.ok (some msg)) := by
  simp only [taken]
  split
  · simp_all
  · rename_i hno
    simp only [reduceCtorEq, false_iff, not_and]
    intro hp ho
    exact hno _ hp ho

theorem taken_of_phase_ne (h : s.phase ≠ .draining) : s.taken (.step i) = none := by
  rw [Option.eq_none_iff_forall_ne_some]
  intro msg hm
  exact h (taken_step_eq_some.mp hm).1

def received (s : Session) : List Event → List MessageType
  | [] => []
  | e :: events => ((s.taken e).map fun msg => msg.header.msgType).toList ++ (s.advance e).received events

theorem received_concat (s : Session) (events : List Event) (e : Event) :
    s.received (events ++ [e]) =
      s.received events ++ (((s.run events).taken e).map fun msg => msg.header.msgType).toList := by
  induction events generalizing s with
  | nil => simp [received, run]
  | cons e' events ih =>
    rw [List.cons_append, received, ih, received, List.append_assoc]
    rfl

theorem countRx_peer (t : MessageType) : (s.countRx t).peer = s.peer := by cases t <;> rfl

theorem handleOpen_state (o : OpenMessage) (caps : List Capability) :
    (s.handleOpen i o caps).2.peer.state = s.peer.state.next .bgpOpen := by
  unfold handleOpen
  simp only
  split_ifs <;> rfl

theorem handleKeepalive_state :
    (s.handleKeepalive i).peer.state = s.peer.state.onMessage .keepalive := by
  unfold handleKeepalive BgpState.onMessage
  simp only
  split_ifs <;> rfl

theorem handleUpdate_state (u : UpdateMessage) :
    (s.handleUpdate i u).2.peer.state = s.peer.state.next .updateMsg := by
  unfold handleUpdate
  simp only
  split <;> rfl

def Processed (msg : BgpMessage) : Prop :=
  match msg.header.msgType with
  | .open => ∃ o, OpenMessage.parse.outcome msg.body = some (.ok o)
  | .update => ∃ u, UpdateMessage.parse.outcome msg.body = some (.ok u)
  | .notification => ∃ n, NotificationMessage.parse.outcome msg.body = some (.ok n)
  | .keepalive | .routeRefresh => True

theorem withBody_cases {α : Type} (r : Option (Except MessageError α)) (k : α → Outcome × Session) :
    (∃ a, r = some (.ok a) ∧ s.withBody r k = k a) ∨
      (¬ ∃ a, r = some (.ok a)) ∧ (s.withBody r k).1 ≠ .done ∧ (s.withBody r k).2 = s := by
  rcases r with _ | ⟨e | a⟩
  · exact .inr ⟨by simp, by simp [withBody], rfl⟩
  · exact .inr ⟨by simp, by simp [withBody], rfl⟩
  · exact .inl ⟨a, rfl, rfl⟩

theorem withBody_induction {α : Type} {P : Session → Prop} (r : Option (Except MessageError α))
    {k : α → Outcome × Session} (hs : P s) (hk : ∀ a, P (k a).2) : P (s.withBody r k).2 := by
  rcases r with _ | ⟨e | a⟩
  · exact hs
  · exact hs
  · exact hk a

theorem handleMessage_state (s : Session) (i : Input) (msg : BgpMessage) :
    (Processed msg ∧ (s.handleMessage i msg).2.peer.state = s.peer.state.onMessage msg.header.msgType) ∨
      (¬ Processed msg ∧ (s.handleMessage i msg).1 ≠ .done ∧ (s.handleMessage i msg).2.peer = s.peer) := by
  rw [← s.countRx_peer msg.header.msgType]
  unfold handleMessage Processed
  simp only
  generalize s.countRx msg.header.msgType = s
  cases msg.header.msgType with
  | «open» =>
    rcases s.withBody_cases (OpenMessage.parse.outcome msg.body) _ with ⟨o, ho, hk⟩ | ⟨hn, hd, hk⟩
    · obtain ⟨caps, hcaps⟩ := Capability.exists_parseFromOpenParams o.optionalParams
      rw [hk, hcaps]
      exact .inl ⟨⟨o, ho⟩, handleOpen_state o caps⟩
    · exact .inr ⟨hn, hd, by rw [hk]⟩
  | keepalive => exact .inl ⟨trivial, handleKeepalive_state⟩
  | update =>
    rcases s.withBody_cases (UpdateMessage.parse.outcome msg.body) (s.handleUpdate i) with ⟨u, hu, hk⟩ |
      ⟨hn, hd, hk⟩
    · rw [hk]
      exact .inl ⟨⟨u, hu⟩, handleUpdate_state u⟩
    · exact .inr ⟨hn, hd, by rw [hk]⟩
  | notification =>
    rcases s.withBody_cases (NotificationMessage.parse.outcome msg.body) fun _ =>
      (.done, s.handleNotification i) with
      ⟨n, hn, hk⟩ | ⟨hn, hd, hk⟩
    · rw [hk]
      exact .inl ⟨⟨n, hn⟩, rfl⟩
    · exact .inr ⟨hn, hd, by rw [hk]⟩
  | routeRefresh => exact .inl ⟨trivial, rfl⟩

def stateAfter (s : Session) : Option BgpMessage → BgpState
  | none => s.peer.state
  | some msg => s.peer.state.onMessage msg.header.msgType

theorem receive_state (h : ¬ (s.receive i).Ended) : (s.receive i).peer.state = s.peer.state := by
  rcases hr : i.read with (_ | ⟨x, data⟩) | _ | _
  · exact absurd (receive_closed hr).2.1 h
  · simp only [receive, hr]
  · exact absurd ⟨_, (receive_err hr).2.1⟩ h
  · simp only [receive, hr]

theorem wait_state (h : ¬ (s.wait i).Ended) : (s.wait i).peer.state = s.peer.state := by
  rcases s.wait_cases i with ⟨-, hw⟩ | ⟨-, -, -, hw⟩ | ⟨-, -, t, ht, hw⟩
  · rw [hw] at h
    exact absurd expire_kept.2.1 h
  · rw [hw] at h
    exact absurd ⟨_, rfl⟩ h
  · rw [hw] at h ⊢
    rcases ht with rfl | ⟨clock, rfl⟩ <;> exact receive_state h

theorem drain_state (hp : s.phase = .draining) (h : ¬ (s.drain i).Ended) :
    (s.drain i).peer.state = s.stateAfter (s.taken (.step i)) := by
  rcases s.drain_cases i with ⟨e, buf, ho, hd⟩ | ⟨buf, ho, hd⟩ | ⟨msg, buf, outcome, t, ho, hb, hd⟩
  · rw [hd] at h
    exact absurd ⟨_, rfl⟩ h
  · rw [hd]
    simp only [taken, hp, ho, stateAfter]
  · rw [taken_step_eq_some.mpr ⟨hp, ho⟩]
    have hs := handleMessage_state ({ s with buf := buf } : Session) i msg
    rw [hb] at hs
    rcases hd with ⟨hdone, hd⟩ | ⟨-, how, -, hd⟩
    · rw [hd]
      rcases hs with ⟨-, hs⟩ | ⟨-, hne, -⟩
      · exact hs
      · exact absurd hdone hne
    · rw [hd] at h
      exact absurd ⟨_, rfl⟩ h

theorem step_state (h : ¬ (s.step i).Ended) : (s.step i).peer.state = s.stateAfter (s.taken (.step i)) := by
  cases hp : s.phase with
  | opening =>
    rw [taken_of_phase_ne (by simp [hp])]
    simp only [step, hp, sendOpen, stateAfter]
    split_ifs <;> rfl
  | waiting =>
    rw [taken_of_phase_ne (by simp [hp])]
    simp only [step, hp] at h ⊢
    exact wait_state h
  | draining =>
    simp only [step, hp] at h ⊢
    exact drain_state hp h
  | ended how =>
    simp only [step, hp] at h
    exact absurd ⟨how, hp⟩ h

end Taken

section Runs

variable {s : Session}

theorem run_state (events : List Event) (h : ¬ (s.run events).Ended) :
    (s.run events).peer.state = (s.received events).foldl BgpState.onMessage s.peer.state := by
  induction events using List.reverseRecOn with
  | nil => rfl
  | append_singleton events e ih =>
    rw [run_concat] at h ⊢
    have hs := ih fun he => h (he.advance e)
    rw [received_concat, List.foldl_append, ← hs]
    cases e with
    | step i =>
      refine (step_state h).trans ?_
      cases (s.run events).taken (.step i) <;> rfl
    | other host op => rfl

/-- Every UPDATE with a body that parses comes after the handshake and before a NOTIFICATION. -/
def InOrder (s : Session) (events : List Event) : Prop :=
  ∀ before i after msg u, events = before ++ .step i :: after → (s.run before).taken (.step i) = some msg →
    msg.header.msgType = .update → UpdateMessage.parse.outcome msg.body = some (.ok u) →
    HandshakeDone (s.received before)

theorem step_rib_of_refused {i : Input} {msg : BgpMessage} (ht : s.taken (.step i) = some msg)
    (hu : msg.header.msgType = .update) (hb : ∀ u, UpdateMessage.parse.outcome msg.body ≠ some (.ok u)) :
    (s.step i).rib = s.rib := by
  obtain ⟨hp, ho⟩ := taken_step_eq_some.mp ht
  obtain ⟨buf, hr⟩ := outcome_eq_some.mp ho
  rcases hbody : UpdateMessage.parse.outcome msg.body with _ | e | u
  · simp [step, hp, drain, hr, handleMessage, hu, withBody, hbody, Outcome.ending, countRx]
  · simp [step, hp, drain, hr, handleMessage, hu, withBody, hbody, Outcome.ending, countRx]
  · exact absurd hbody (hb u)

theorem update_changes_established (addr : SocketAddr) (config : LocalConfig) (rib : Rib) (metrics : Metrics)
    (events : List Event) :
    let s := handleIncoming addr config rib metrics
    s.InOrder events → ∀ before i after msg, events = before ++ .step i :: after →
      (s.run before).taken (.step i) = some msg → msg.header.msgType = .update →
      ((s.run before).step i).rib ≠ (s.run before).rib → (s.run before).peer.state = .established := by
  intro s hin before i after msg he ht hu hne
  have hn : ¬ (s.run before).Ended := not_ended_of_draining (taken_step_eq_some.mp ht).1
  by_cases hb : ∀ u, UpdateMessage.parse.outcome msg.body ≠ some (.ok u)
  · exact absurd (step_rib_of_refused ht hu hb) hne
  · push Not at hb
    obtain ⟨u, hbody⟩ := hb
    rw [run_state before hn]
    exact (hin before i after msg u he ht hu hbody).established

theorem update_changes_established_sample :
    let s := sampleSession.run (sampleEvents.take 4)
    sampleSession.InOrder sampleEvents ∧ (s.step (sampleInput .timeout)).rib ≠ s.rib ∧
      s.peer.state = .established := by
  intro s
  have hinits : ∀ before ∈ sampleEvents.inits,
      ((sampleSession.run before).taken (.step (sampleInput .timeout))).map (fun msg => msg.header.msgType) =
        some .update → sampleSession.received before = [.open, .keepalive] := by decide
  have hin : sampleSession.InOrder sampleEvents := by
    intro before i after msg u he ht hu _
    have hmem : before ∈ sampleEvents.inits := by
      rw [List.mem_inits, he]
      exact List.prefix_append _ _
    have htype := congrArg (Option.map fun msg => msg.header.msgType) ht
    rw [Option.map_some, hu] at htype
    exact ⟨[], [], [], hinits before hmem htype, by simp, by simp, by simp⟩
  have hbefore : s.rib.route samplePeer sampleKey = none := by decide
  have hafter : ((s.step (sampleInput .timeout)).rib.route samplePeer sampleKey).isSome := by decide
  have hne : (s.step (sampleInput .timeout)).rib ≠ s.rib := by
    intro heq
    rw [heq, hbefore] at hafter
    cases hafter
  have ht : ((s.taken (.step (sampleInput .timeout))).map fun msg => msg.header.msgType) = some .update := by
    decide
  obtain ⟨msg, hm, hu⟩ := Option.map_eq_some_iff.mp ht
  exact ⟨hin, hne, update_changes_established samplePeer ⟨65000, .new 10 0 0 254, 90⟩ .new {} sampleEvents hin
    (sampleEvents.take 4) (sampleInput .timeout) (sampleEvents.drop 5) msg rfl hm hu hne⟩

def earlyEvents : List Event :=
  [.step (sampleInput .timeout),
    .step (sampleInput (.ok ((Header.new .update 8).serialize ++ [0, 0, 0, 0, 24, 192, 168, 1])))]

theorem update_before_open :
    ¬ ∀ events i msg, (sampleSession.run events).taken (.step i) = some msg → msg.header.msgType = .update →
      ((sampleSession.run events).step i).rib ≠ (sampleSession.run events).rib →
      (sampleSession.run events).peer.state = .established := by
  intro hall
  have ht : (((sampleSession.run earlyEvents).taken (.step (sampleInput .timeout))).map
      fun msg => msg.header.msgType) = some .update := by decide
  obtain ⟨msg, hm, hu⟩ := Option.map_eq_some_iff.mp ht
  have hbefore : (sampleSession.run earlyEvents).rib.route samplePeer sampleKey = none := by decide
  have hafter : (((sampleSession.run earlyEvents).step (sampleInput .timeout)).rib.route
      samplePeer sampleKey).isSome := by decide
  have hs := hall earlyEvents (sampleInput .timeout) msg hm hu fun heq => by
    rw [heq, hbefore] at hafter
    cases hafter
  rw [show (sampleSession.run earlyEvents).peer.state = .openSent by decide] at hs
  cases hs

end Runs

end Session

end PathForge.Peering
