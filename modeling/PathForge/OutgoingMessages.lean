import PathForge.SessionStream
import PathForge.MessageRoundTrip

namespace PathForge.Wire

open Fallible ByteReader

namespace Message

def framed (m : Message) : BgpMessage := ⟨Header.new m.msgType m.body.length, m.body⟩

def frame (m : Message) : Bytes := m.framed.frame

structure Sendable (m : Message) : Prop where
  representable : m.Representable
  fits : headerLen + m.body.length ≤ maxMessageLen

theorem Sendable.parsedFrom {m : Message} (h : m.Sendable) : m.ParsedFrom m.framed.body := by
  apply h.representable.parsedFrom_body
  have hfits := h.fits
  unfold headerLen maxMessageLen at hfits
  omega

theorem Sendable.run_parse {m : Message} (h : m.Sendable) (rest : Bytes) :
    BgpMessage.parse.run (m.frame ++ rest) = some (.ok (some m.framed), rest) :=
  BgpMessage.run_parse_framed h.fits rest

theorem sendable_keepalive : (keepalive ⟨⟩).Sendable := ⟨trivial, by decide⟩

theorem sendable_holdTimerExpired : (notification .holdTimerExpired).Sendable := ⟨trivial, by decide⟩

theorem run_drain_frames {l : List Message} (h : ∀ m ∈ l, m.Sendable) (acc : List BgpMessage) :
    (drain BgpMessage.parse).run ⟨l.flatMap frame, acc⟩ = some (.ok (), ⟨[], acc ++ l.map framed⟩) := by
  induction l generalizing acc with
  | nil =>
    rw [List.map_nil, List.append_nil]
    exact Stuck.run_drain (BgpMessage.run_parse_short (show ([] : Bytes).length < headerLen by decide))
  | cons m l ih =>
    rw [List.forall_mem_cons] at h
    rw [List.flatMap_cons, run_drain_step BgpMessage.incremental_parse (h.1.run_parse _), ih h.2, List.map_cons,
      List.append_assoc, List.singleton_append]

section Prefixes

theorem prefix_of_frames {ms : List BgpMessage} {l : List Message} {b : Bytes} (hms : ∀ m ∈ ms, m.Framed)
    (hl : ∀ m ∈ l, m.Sendable) (h : ms.flatMap BgpMessage.frame ++ b <+: l.flatMap frame) :
    ∃ done rest, l = done ++ rest ∧ ms = done.map framed ∧ b <+: rest.flatMap frame := by
  induction ms generalizing l with
  | nil => exact ⟨[], l, rfl, rfl, h⟩
  | cons m ms ih =>
    rw [List.forall_mem_cons] at hms
    obtain ⟨t, ht⟩ := h
    rw [List.flatMap_cons, List.append_assoc, List.append_assoc] at ht
    have hparse : BgpMessage.parse.run (l.flatMap frame) =
        some (.ok (some m), ms.flatMap BgpMessage.frame ++ (b ++ t)) := by
      rw [← ht, BgpMessage.run_parse_some]
      exact ⟨List.append_assoc _ _ _, hms.1⟩
    cases l with
    | nil =>
      rw [List.flatMap_nil, BgpMessage.run_parse_short (show ([] : Bytes).length < headerLen by decide)] at hparse
      cases hparse
    | cons m' l =>
      rw [List.forall_mem_cons] at hl
      rw [List.flatMap_cons, hl.1.run_parse] at hparse
      simp only [Option.some.injEq, Prod.mk.injEq, Except.ok.injEq] at hparse
      obtain ⟨rfl, hrest⟩ := hparse
      obtain ⟨done, rest, rfl, rfl, hb⟩ := ih hms.2 hl.2 ⟨t, by rw [List.append_assoc, hrest]⟩
      exact ⟨m' :: done, rest, rfl, rfl, hb⟩

theorem parse_of_prefix {l : List Message} {b : Bytes} (hl : ∀ m ∈ l, m.Sendable) (h : b <+: l.flatMap frame) :
    BgpMessage.parse.outcome b = some (.ok none) ∨
      ∃ m rest, l = m :: rest ∧ BgpMessage.parse.outcome b = some (.ok (some m.framed)) := by
  obtain ⟨r, t, hr, hs⟩ := BgpMessage.incremental_parse b
  obtain ⟨y, hy⟩ := h
  cases l with
  | nil =>
    rw [List.flatMap_nil, List.append_eq_nil_iff] at hy
    rw [hy.1]
    exact .inl (outcome_eq_some.mpr ⟨_, BgpMessage.run_parse_short
      (show ([] : Bytes).length < headerLen by decide)⟩)
  | cons m rest =>
    have hfirst : BgpMessage.parse.run (b ++ y) = some (.ok (some m.framed), rest.flatMap frame) := by
      rw [hy, List.flatMap_cons]
      exact (hl m List.mem_cons_self).run_parse _
    rcases r with e | _ | msg
    · have herror := hfirst.symm.trans (hs.2 y)
      cases herror
    · exact .inl (outcome_eq_some.mpr ⟨t, hr⟩)
    · have hmsg := hfirst.symm.trans (hs.2 y)
      simp only [Option.some.injEq, Prod.mk.injEq, Except.ok.injEq] at hmsg
      exact .inr ⟨m, rest, rfl, outcome_eq_some.mpr ⟨t, by rw [hr, hmsg.1]⟩⟩

end Prefixes

end Message

end PathForge.Wire

namespace PathForge.Peering

open Fallible ByteReader Wire Routing

theorem Peer.sendable_localOpen (p : Peer) : (Message.open p.localOpen).Sendable := by
  have hbuf : p.localOpen.optBuf.length = 20 := rfl
  have hbody : p.localOpen.body.length = 30 := rfl
  refine ⟨?_, ?_⟩
  · change p.localOpen.optBuf.length ≤ 255
    omega
  · change headerLen + p.localOpen.body.length ≤ maxMessageLen
    rw [hbody]
    decide

namespace Session

variable {i : Input} {s : Session} {e : Event}

section Writes

def writes (s : Session) : Event → List Message
  | .step i =>
    match s.phase with
    | .opening => if i.writeOk then [.open s.peer.localOpen] else []
    | .waiting =>
      if s.expired i then
        if i.writeOk then [.notification .holdTimerExpired] else []
      else
        if s.keepaliveDue i && i.writeOk then [.keepalive ⟨⟩] else []
    | .draining => if (s.opens (.step i)).isSome && i.writeOk then [.keepalive ⟨⟩] else []
    | .ended _ => []
  | .other _ _ => []

def written (s : Session) : List Event → List Message
  | [] => []
  | e :: events => s.writes e ++ (s.advance e).written events

theorem written_concat (s : Session) (events : List Event) (e : Event) :
    s.written (events ++ [e]) = s.written events ++ (s.run events).writes e := by
  induction events generalizing s with
  | nil => simp [written, run]
  | cons e' events ih =>
    rw [List.cons_append, written, ih, written, List.append_assoc]
    rfl

def answer (i : Input) (msg : BgpMessage) : List Message :=
  if (opened msg).isSome && i.writeOk then [.keepalive ⟨⟩] else []

theorem handleOpen_sent (o : OpenMessage) (caps : List Capability) :
    (s.handleOpen i o caps).2.sent = s.sent ++ if i.writeOk then Message.frame (.keepalive ⟨⟩) else [] := by
  unfold handleOpen
  cases i.writeOk with
  | true => rfl
  | false => exact (List.append_nil _).symm

theorem opened_of_ne {msg : BgpMessage} (h : msg.header.msgType ≠ .open) : opened msg = none := by
  rw [Option.eq_none_iff_forall_ne_some]
  intro o ho
  exact h (opened_eq_some.mp ho).1

theorem answer_of_ne {msg : BgpMessage} (h : msg.header.msgType ≠ .open) : answer i msg = [] := by
  simp [answer, opened_of_ne h]

theorem handleMessage_sent (s : Session) (i : Input) (msg : BgpMessage) :
    (s.handleMessage i msg).2.sent = s.sent ++ (answer i msg).flatMap Message.frame := by
  have hcount : (s.countRx msg.header.msgType).sent = s.sent := by cases msg.header.msgType <;> rfl
  rw [← hcount]
  unfold handleMessage
  simp only
  generalize s.countRx msg.header.msgType = s
  cases ht : msg.header.msgType with
  | «open» =>
    rcases hb : OpenMessage.parse.outcome msg.body with _ | e | o
    · simp [answer, opened, ht, hb, withBody]
    · simp [answer, opened, ht, hb, withBody]
    · obtain ⟨caps, hcaps⟩ := Capability.exists_parseFromOpenParams o.optionalParams
      simp only [withBody, hcaps, handleOpen_sent, answer, opened_eq_some.mpr ⟨ht, hb⟩]
      cases i.writeOk <;> rfl
  | keepalive =>
    rw [answer_of_ne (by simp [ht])]
    simp only [handleKeepalive, List.flatMap_nil, List.append_nil]
    split_ifs <;> rfl
  | update =>
    rw [answer_of_ne (by simp [ht]), List.flatMap_nil, List.append_nil]
    apply withBody_induction (P := fun t => t.sent = s.sent) _ rfl
    intro u
    simp only [handleUpdate]
    split <;> rfl
  | notification =>
    rw [answer_of_ne (by simp [ht]), List.flatMap_nil, List.append_nil]
    exact withBody_induction (P := fun t => t.sent = s.sent) _ rfl fun _ => rfl
  | routeRefresh =>
    rw [answer_of_ne (by simp [ht]), List.flatMap_nil, List.append_nil]

theorem handleDisconnect_sent : (s.handleDisconnect i).sent = s.sent := by
  unfold handleDisconnect
  simp only
  split_ifs <;> rfl

theorem receive_sent : (s.receive i).sent = s.sent := by
  unfold receive
  rcases i.read with (_ | ⟨x, data⟩) | _ | _
  · exact handleDisconnect_sent
  · rfl
  · rfl
  · rfl

theorem expire_sent : (s.expire i).sent =
    s.sent ++ if i.writeOk then Message.frame (.notification .holdTimerExpired) else [] := by
  simp only [expire, handleDisconnect_sent]
  cases i.writeOk with
  | true => rfl
  | false => exact (List.append_nil _).symm

theorem wait_write_cases (s : Session) (i : Input) :
    (s.expired i = true ∧ s.wait i = s.expire i) ∨
      (s.expired i = false ∧ s.keepaliveDue i = true ∧ i.writeOk = false ∧
        s.wait i = { s with phase := .ended .writeError }) ∨
      (s.expired i = false ∧ s.keepaliveDue i = true ∧ i.writeOk = true ∧
        ∃ clock, s.wait i = (s.sendKeepalive clock).receive i) ∨
      s.expired i = false ∧ s.keepaliveDue i = false ∧ s.wait i = s.receive i := by
  change (s.expired i = true ∧ (if s.expired i = true then _ else if s.keepaliveDue i = true then _ else _) = _) ∨
    (s.expired i = false ∧ _ ∧ _ ∧
      (if s.expired i = true then _ else if s.keepaliveDue i = true then _ else _) = _) ∨
    (s.expired i = false ∧ _ ∧ _ ∧
      ∃ clock, (if s.expired i = true then _ else if s.keepaliveDue i = true then _ else _) = _) ∨
    s.expired i = false ∧ _ ∧ (if s.expired i = true then _ else if s.keepaliveDue i = true then _ else _) = _
  cases s.expired i with
  | true => exact .inl ⟨rfl, rfl⟩
  | false =>
    right
    cases s.keepaliveDue i with
    | false => exact .inr (.inr ⟨rfl, rfl, rfl⟩)
    | true =>
      cases i.writeOk with
      | false => exact .inl ⟨rfl, rfl, rfl, rfl⟩
      | true => exact .inr (.inl ⟨rfl, rfl, rfl, _, rfl⟩)

theorem wait_sent (hp : s.phase = .waiting) :
    (s.wait i).sent = s.sent ++ (s.writes (.step i)).flatMap Message.frame := by
  simp only [writes, hp]
  rcases s.wait_write_cases i with ⟨hx, hw⟩ | ⟨hx, hd, hok, hw⟩ | ⟨hx, hd, hok, clock, hw⟩ | ⟨hx, hd, hw⟩
  · rw [hw, expire_sent]
    cases i.writeOk <;> simp [hx]
  · simp [hw, hx, hok]
  · rw [hw, receive_sent]
    simp only [hx, hd, hok, Bool.false_eq_true, Bool.and_self, ↓reduceIte]
    rfl
  · rw [hw, receive_sent]
    simp [hx, hd]

theorem drain_sent (hp : s.phase = .draining) :
    (s.drain i).sent = s.sent ++ (s.writes (.step i)).flatMap Message.frame := by
  simp only [writes, hp]
  rcases s.drain_cases i with ⟨e, buf, ho, hd⟩ | ⟨buf, ho, hd⟩ | ⟨msg, buf, outcome, t, ho, hb, hd⟩
  · simp [hd, opens, taken, hp, ho]
  · simp [hd, opens, taken, hp, ho]
  · have hs := handleMessage_sent ({ s with buf := buf } : Session) i msg
    rw [hb] at hs
    rw [opens, taken_step_eq_some.mpr ⟨hp, ho⟩, Option.bind_some]
    rcases hd with ⟨-, hd⟩ | ⟨-, how, -, hd⟩ <;> rw [hd] <;> exact hs

theorem advance_sent (s : Session) (e : Event) :
    (s.advance e).sent = s.sent ++ (s.writes e).flatMap Message.frame := by
  cases e with
  | other h op => exact (List.append_nil _).symm
  | step i =>
    simp only [advance, step]
    cases hp : s.phase with
    | opening =>
      simp only [writes, hp, sendOpen]
      cases i.writeOk with
      | true => exact congrArg (s.sent ++ ·) (List.append_nil _).symm
      | false => exact (List.append_nil _).symm
    | waiting => exact wait_sent hp
    | draining => exact drain_sent hp
    | ended how =>
      simp only [writes, hp, List.flatMap_nil, List.append_nil]

theorem run_sent (s : Session) (events : List Event) :
    (s.run events).sent = s.sent ++ (s.written events).flatMap Message.frame := by
  induction events using List.reverseRecOn with
  | nil => exact (List.append_nil _).symm
  | append_singleton events e ih =>
    rw [run_concat, advance_sent, ih, written_concat, List.flatMap_append, List.append_assoc]

end Writes

section Grammar

/-- What a session has written by the time it is in the phase: its OPEN, KEEPALIVEs after it, and a
NOTIFICATION only as the last thing before it ends. -/
inductive Script (o : OpenMessage) : Phase → List Message → Prop
  | silent {p : Phase} (hp : p = .opening ∨ p = .ended .writeError) : Script o p []
  | spoken {p : Phase} (n : ℕ) (hp : p ≠ .opening) : Script o p (.open o :: List.replicate n (.keepalive ⟨⟩))
  | signedOff (n : ℕ) : Script o (.ended .holdTimerExpired)
      (.open o :: (List.replicate n (.keepalive ⟨⟩) ++ [.notification .holdTimerExpired]))

theorem Script.spoken_of_going {o : OpenMessage} {p : Phase} {l : List Message} (h : Script o p l)
    (hp : p = .waiting ∨ p = .draining) : ∃ n, l = .open o :: List.replicate n (.keepalive ⟨⟩) := by
  cases h with
  | silent hq => rcases hp with rfl | rfl <;> rcases hq with hq | hq <;> cases hq
  | spoken n _ => exact ⟨n, rfl⟩
  | signedOff n => rcases hp with hp | hp <;> cases hp

theorem script_more {o : OpenMessage} {p : Phase} (n : ℕ) (hp : p ≠ .opening) {b : Bool} :
    Script o p (.open o :: List.replicate n (.keepalive ⟨⟩) ++ if b then [.keepalive ⟨⟩] else []) := by
  cases b with
  | false =>
    rw [if_neg (by simp), List.append_nil]
    exact .spoken n hp
  | true =>
    rw [if_pos rfl, List.cons_append, ← List.replicate_succ']
    exact .spoken (n + 1) hp

theorem receive_phase_ne (hp : s.phase ≠ .opening) : (s.receive i).phase ≠ .opening := by
  unfold receive
  rcases i.read with (_ | ⟨x, data⟩) | _ | _
  · exact nofun
  · exact nofun
  · exact nofun
  · exact hp

theorem wait_phase_ne (hx : s.expired i = false) (hp : s.phase = .waiting) : (s.wait i).phase ≠ .opening := by
  rcases s.wait_cases i with ⟨hx', -⟩ | ⟨-, -, -, hw⟩ | ⟨-, -, t, ht, hw⟩
  · rw [hx] at hx'
    cases hx'
  · rw [hw]
    exact nofun
  · rw [hw]
    apply receive_phase_ne
    rcases ht with rfl | ⟨clock, rfl⟩ <;> exact fun hq => nomatch hp.symm.trans hq

theorem drain_phase_ne (hp : s.phase = .draining) : (s.drain i).phase ≠ .opening := by
  rcases s.drain_cases i with ⟨e, buf, -, hd⟩ | ⟨buf, -, hd⟩ | ⟨msg, buf, outcome, t, -, hb, hd⟩
  · rw [hd]
    exact nofun
  · rw [hd]
    exact nofun
  · have hphase := (handleMessage_buf ({ s with buf := buf } : Session) i msg).2
    rw [hb] at hphase
    rcases hd with ⟨-, hd⟩ | ⟨-, how, -, hd⟩
    · rw [hd, hphase]
      exact fun hq => nomatch hp.symm.trans hq
    · rw [hd]
      exact nofun

theorem Script.step {l : List Message} (h : Script s.peer.localOpen s.phase l) (i : Input) :
    Script s.peer.localOpen (s.step i).phase (l ++ s.writes (.step i)) := by
  simp only [Session.step, writes]
  cases hp : s.phase with
  | opening =>
    rw [hp] at h
    have hl : l = [] := by
      cases h with
      | silent _ => rfl
      | spoken n hq => exact absurd rfl hq
    simp only [hl, sendOpen]
    cases i.writeOk with
    | true => exact .spoken 0 (by simp)
    | false => exact .silent (.inr rfl)
  | waiting =>
    rw [hp] at h
    obtain ⟨n, rfl⟩ := h.spoken_of_going (.inl rfl)
    simp only
    cases hx : s.expired i with
    | true =>
      have hw : (s.wait i).phase = .ended .holdTimerExpired := by
        rcases s.wait_cases i with ⟨-, hw⟩ | ⟨hx', -⟩ | ⟨hx', -⟩
        · rw [hw]
          rfl
        · rw [hx] at hx'
          cases hx'
        · rw [hx] at hx'
          cases hx'
      rw [hw, if_pos rfl]
      cases i.writeOk with
      | true => exact .signedOff n
      | false =>
        rw [if_neg (by simp), List.append_nil]
        exact .spoken n (by simp)
    | false =>
      rw [if_neg (by simp)]
      exact script_more n (wait_phase_ne hx hp)
  | draining =>
    rw [hp] at h
    obtain ⟨n, rfl⟩ := h.spoken_of_going (.inr rfl)
    exact script_more n (drain_phase_ne hp)
  | ended how =>
    simp only [List.append_nil]
    rwa [hp] at h ⊢

theorem run_localOpen (s : Session) (events : List Event) : (s.run events).peer.localOpen = s.peer.localOpen := by
  unfold Peer.localOpen Peer.localCaps
  rw [run_config]

theorem script_run {l : List Message} (h : Script s.peer.localOpen s.phase l) (events : List Event) :
    Script s.peer.localOpen (s.run events).phase (l ++ s.written events) := by
  induction events using List.reverseRecOn with
  | nil => rwa [written, List.append_nil]
  | append_singleton events e ih =>
    rw [run_concat, written_concat, ← List.append_assoc]
    rw [← run_localOpen s events] at ih ⊢
    cases e with
    | other host op => rwa [show (s.run events).writes (.other host op) = [] from rfl, List.append_nil]
    | step i => exact ih.step i

theorem Script.sendable {p : Peer} {phase : Phase} {l : List Message} (h : Script p.localOpen phase l) :
    ∀ m ∈ l, m.Sendable := by
  have hkeepalives (n : ℕ) : ∀ m ∈ List.replicate n (Message.keepalive ⟨⟩), m.Sendable := fun m hm => by
    rw [List.eq_of_mem_replicate hm]
    exact Message.sendable_keepalive
  cases h with
  | silent _ => exact fun m hm => nomatch hm
  | spoken n _ => exact List.forall_mem_cons.mpr ⟨p.sendable_localOpen, hkeepalives n⟩
  | signedOff n =>
    refine List.forall_mem_cons.mpr ⟨p.sendable_localOpen, List.forall_mem_append.mpr ⟨hkeepalives n, ?_⟩⟩
    exact List.forall_mem_singleton.mpr Message.sendable_holdTimerExpired

theorem written_script (addr : SocketAddr) (config : LocalConfig) (rib : Rib) (metrics : Metrics)
    (events : List Event) :
    let s := handleIncoming addr config rib metrics
    Script s.peer.localOpen (s.run events).phase (s.written events) ∧
      (s.run events).sent = (s.written events).flatMap Message.frame ∧
      (ByteReader.drain BgpMessage.parse).run ⟨(s.run events).sent, []⟩ =
        some (.ok (), ⟨[], (s.written events).map Message.framed⟩) ∧
      ∀ m ∈ s.written events, m.ParsedFrom m.framed.body := by
  intro s
  have hscript : Script s.peer.localOpen (s.run events).phase (s.written events) :=
    script_run (.silent (.inl rfl)) events
  have hsent : (s.run events).sent = (s.written events).flatMap Message.frame := run_sent s events
  refine ⟨hscript, hsent, ?_, fun m hm => (hscript.sendable m hm).parsedFrom⟩
  rw [hsent]
  exact Message.run_drain_frames hscript.sendable []

end Grammar

end Session

end PathForge.Peering
