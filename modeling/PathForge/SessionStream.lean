import PathForge.NegotiatedTerms

namespace PathForge.Wire

open ByteReader

def BgpMessage.frame (m : BgpMessage) : Bytes := m.header.serialize ++ m.body

def BgpMessage.Framed (m : BgpMessage) : Prop :=
  headerLen + m.body.length = m.header.length.toNat ∧ m.header.length.toNat ≤ maxMessageLen

end PathForge.Wire

namespace PathForge.Peering

open Fallible ByteReader Wire Routing

namespace Session

variable {i : Input} {s : Session} {e : Event}

section Accounting

def reads (s : Session) : Event → Bytes
  | .step i =>
    match s.phase, i.read with
    | .waiting, .ok data => if s.expired i || (s.keepaliveDue i && !i.writeOk) then [] else data
    | _, _ => []
  | .other _ _ => []

def delivered (s : Session) : List Event → Bytes
  | [] => []
  | e :: events => s.reads e ++ (s.advance e).delivered events

def messages (s : Session) : List Event → List BgpMessage
  | [] => []
  | e :: events => (s.taken e).toList ++ (s.advance e).messages events

theorem delivered_concat (s : Session) (events : List Event) (e : Event) :
    s.delivered (events ++ [e]) = s.delivered events ++ (s.run events).reads e := by
  induction events generalizing s with
  | nil => simp [delivered, run]
  | cons e' events ih =>
    rw [List.cons_append, delivered, ih, delivered, List.append_assoc]
    rfl

theorem messages_concat (s : Session) (events : List Event) (e : Event) :
    s.messages (events ++ [e]) = s.messages events ++ ((s.run events).taken e).toList := by
  induction events generalizing s with
  | nil => simp [messages, run]
  | cons e' events ih =>
    rw [List.cons_append, messages, ih, messages, List.append_assoc]
    rfl

theorem mem_messages {s : Session} {events later : List Event} {e : Event} {msg : BgpMessage}
    (h : (s.run events).taken e = some msg) : msg ∈ s.messages (events ++ e :: later) := by
  induction events generalizing s with
  | nil =>
    rw [List.nil_append, messages, show s.taken e = some msg from h]
    exact List.mem_cons_self
  | cons e' events ih =>
    rw [List.cons_append, messages]
    exact List.mem_append_right _ (ih h)

theorem received_eq_map (s : Session) (events : List Event) :
    s.received events = (s.messages events).map fun msg => msg.header.msgType := by
  induction events generalizing s with
  | nil => rfl
  | cons e events ih =>
    rw [received, ih, messages, List.map_append]
    cases s.taken e <;> rfl

theorem reads_of_phase_ne (h : s.phase ≠ .waiting) : s.reads (.step i) = [] := by
  unfold reads
  cases hp : s.phase with
  | waiting => exact absurd hp h
  | _ => rfl

theorem reads_cases (s : Session) (i : Input) : s.reads (.step i) = [] ∨ i.read = .ok (s.reads (.step i)) := by
  simp only [reads]
  cases s.phase with
  | waiting =>
    cases i.read with
    | ok data =>
      simp only
      split_ifs
      · exact .inl rfl
      · exact .inr rfl
    | _ => exact .inl rfl
  | _ => exact .inl rfl

theorem handleMessage_buf (s : Session) (i : Input) (msg : BgpMessage) :
    (s.handleMessage i msg).2.buf = s.buf ∧ (s.handleMessage i msg).2.phase = s.phase := by
  have hcount : (s.countRx msg.header.msgType).buf = s.buf ∧ (s.countRx msg.header.msgType).phase = s.phase := by
    cases msg.header.msgType <;> exact ⟨rfl, rfl⟩
  rw [← hcount.1, ← hcount.2]
  unfold handleMessage
  simp only
  generalize s.countRx msg.header.msgType = s
  cases msg.header.msgType with
  | «open» =>
    apply withBody_induction (P := fun t => t.buf = s.buf ∧ t.phase = s.phase) _ ⟨rfl, rfl⟩
    intro o
    obtain ⟨caps, hcaps⟩ := Capability.exists_parseFromOpenParams o.optionalParams
    simp only [hcaps, handleOpen]
    split_ifs <;> exact ⟨rfl, rfl⟩
  | keepalive =>
    simp only [handleKeepalive]
    split_ifs <;> exact ⟨rfl, rfl⟩
  | update =>
    apply withBody_induction (P := fun t => t.buf = s.buf ∧ t.phase = s.phase) _ ⟨rfl, rfl⟩
    intro u
    simp only [handleUpdate]
    split <;> exact ⟨rfl, rfl⟩
  | notification =>
    exact withBody_induction (P := fun t => t.buf = s.buf ∧ t.phase = s.phase) _ ⟨rfl, rfl⟩ fun _ => ⟨rfl, rfl⟩
  | routeRefresh => exact ⟨rfl, rfl⟩

theorem handleDisconnect_buf : (s.handleDisconnect i).buf = s.buf := by
  unfold handleDisconnect
  simp only
  split_ifs <;> rfl

theorem receive_buf : (s.receive i).buf = s.buf ++ (match i.read with | .ok data => data | _ => []) := by
  unfold receive
  rcases i.read with (_ | ⟨x, data⟩) | _ | _
  · simp only [handleDisconnect_buf, List.append_nil]
  · rfl
  · simp only [List.append_nil]
  · simp only [List.append_nil]

theorem wait_buf (hp : s.phase = .waiting) : (s.wait i).buf = s.buf ++ s.reads (.step i) := by
  rcases s.wait_cases i with ⟨hx, hw⟩ | ⟨hx, hd, hok, hw⟩ | ⟨hx, hd, t, ht, hw⟩
  · have hnone : s.reads (.step i) = [] := by
      simp only [reads, hp, hx]
      cases i.read <;> rfl
    rw [hw, hnone, List.append_nil]
    exact handleDisconnect_buf
  · have hnone : s.reads (.step i) = [] := by
      simp only [reads, hp, hx, hd, hok]
      cases i.read <;> rfl
    rw [hw, hnone, List.append_nil]
  · have hread : s.reads (.step i) = (match i.read with | .ok data => data | _ => []) := by
      simp only [reads, hp, hx]
      cases hdue : s.keepaliveDue i with
      | false => cases i.read <;> rfl
      | true =>
        rw [hd hdue]
        cases i.read <;> rfl
    rw [hw, hread, receive_buf]
    rcases ht with rfl | ⟨clock, rfl⟩ <;> rfl

theorem drain_buf (hp : s.phase = .draining) :
    (s.taken (.step i) = none ∧ (s.drain i).buf = s.buf) ∨
      ∃ msg, s.taken (.step i) = some msg ∧
        BgpMessage.parse.run s.buf = some (.ok (some msg), (s.drain i).buf) := by
  obtain ⟨r, buf, hr, -⟩ := BgpMessage.incremental_parse s.buf
  have ho : BgpMessage.parse.outcome s.buf = some r := outcome_eq_some.mpr ⟨buf, hr⟩
  rcases r with e | _ | msg
  · refine .inl ⟨by simp only [taken, hp, ho], ?_⟩
    simp only [drain, hr]
    exact BgpMessage.run_parse_other hr (by simp)
  · refine .inl ⟨by simp only [taken, hp, ho], ?_⟩
    simp only [drain, hr]
    exact BgpMessage.run_parse_other hr (by simp)
  · refine .inr ⟨msg, taken_step_eq_some.mpr ⟨hp, ho⟩, ?_⟩
    have hbuf := (handleMessage_buf ({ s with buf := buf } : Session) i msg).1
    have hd : (s.drain i).buf = buf := by
      simp only [drain, hr]
      cases (({ s with buf := buf } : Session).handleMessage i msg).1.ending <;> exact hbuf
    rw [hd, hr]

theorem advance_buf (s : Session) (e : Event) :
    (s.taken e = none ∧ (s.advance e).buf = s.buf ++ s.reads e) ∨
      ∃ msg, s.taken e = some msg ∧ s.reads e = [] ∧
        BgpMessage.parse.run s.buf = some (.ok (some msg), (s.advance e).buf) := by
  cases e with
  | other h op => exact .inl ⟨rfl, (List.append_nil _).symm⟩
  | step i =>
    simp only [advance, step]
    cases hp : s.phase with
    | opening =>
      refine .inl ⟨taken_of_phase_ne (by simp [hp]), ?_⟩
      rw [reads_of_phase_ne (by simp [hp]), List.append_nil]
      simp only [sendOpen]
      split_ifs <;> rfl
    | waiting => exact .inl ⟨taken_of_phase_ne (by simp [hp]), wait_buf hp⟩
    | draining =>
      have hr : s.reads (.step i) = [] := reads_of_phase_ne (by simp [hp])
      rcases drain_buf (i := i) hp with ⟨ht, hd⟩ | ⟨msg, ht, hd⟩
      · exact .inl ⟨ht, by rw [hd, hr, List.append_nil]⟩
      · exact .inr ⟨msg, ht, hr, hd⟩
    | ended how =>
      refine .inl ⟨taken_of_phase_ne (by simp [hp]), ?_⟩
      rw [reads_of_phase_ne (by simp [hp]), List.append_nil]

theorem buf_delivered (s : Session) (events : List Event) :
    s.buf ++ s.delivered events = (s.messages events).flatMap BgpMessage.frame ++ (s.run events).buf := by
  induction events using List.reverseRecOn with
  | nil => exact List.append_nil _
  | append_singleton events e ih =>
    rw [delivered_concat, messages_concat, run_concat, ← List.append_assoc, ih, List.flatMap_append,
      List.append_assoc, List.append_assoc]
    congr 1
    rcases (s.run events).advance_buf e with ⟨ht, hb⟩ | ⟨msg, ht, hr, hb⟩
    · rw [ht, hb]
      rfl
    · obtain ⟨hparse, -⟩ := BgpMessage.run_parse_some.mp hb
      rw [ht, hr, List.append_nil, hparse]
      simp [BgpMessage.frame]

end Accounting

section Runs

theorem not_ended_of_waiting (h : s.phase = .waiting) : ¬ s.Ended := by
  rintro ⟨how, he⟩
  rw [h] at he
  cases he

def Idle (s : Session) : Prop :=
  s.phase = .opening ∨ s.phase = .waiting → BgpMessage.parse.run s.buf = some (.ok none, s.buf)

theorem idle_handleIncoming (addr : SocketAddr) (config : LocalConfig) (rib : Rib) (metrics : Metrics) :
    (handleIncoming addr config rib metrics).Idle := fun _ =>
  BgpMessage.run_parse_short (show ([] : Bytes).length < headerLen by decide)

theorem receive_phase (hp : s.phase = .waiting) :
    (s.receive i).phase ≠ .opening ∧ ((s.receive i).phase = .waiting → (s.receive i).buf = s.buf) := by
  unfold receive
  rcases i.read with (_ | ⟨x, data⟩) | _ | _
  · exact ⟨nofun, nofun⟩
  · exact ⟨nofun, nofun⟩
  · exact ⟨nofun, nofun⟩
  · exact ⟨by simp [hp], fun _ => rfl⟩

theorem Idle.wait (h : s.Idle) (hp : s.phase = .waiting) : (s.wait i).Idle := by
  rcases s.wait_cases i with ⟨-, hw⟩ | ⟨-, -, -, hw⟩ | ⟨-, -, t, ht, hw⟩
  · rw [hw]
    rintro (hq | hq) <;> cases hq
  · rw [hw]
    rintro (hq | hq) <;> cases hq
  · have htp : t.phase = .waiting ∧ t.buf = s.buf := by
      rcases ht with rfl | ⟨clock, rfl⟩ <;> exact ⟨hp, rfl⟩
    obtain ⟨hno, hbuf⟩ := receive_phase (i := i) htp.1
    rw [hw]
    rintro (hq | hq)
    · exact absurd hq hno
    · rw [hbuf hq, htp.2]
      exact h (.inr hp)

theorem idle_drain (hp : s.phase = .draining) : (s.drain i).Idle := by
  obtain ⟨r, buf, hr, -⟩ := BgpMessage.incremental_parse s.buf
  rcases r with e | _ | msg
  · simp only [drain, hr]
    rintro (hq | hq) <;> cases hq
  · have hb : buf = s.buf := BgpMessage.run_parse_other hr (by simp)
    simp only [drain, hr, hb]
    intro _
    rwa [hb] at hr
  · have hphase := (handleMessage_buf ({ s with buf := buf } : Session) i msg).2
    simp only [drain, hr]
    cases (({ s with buf := buf } : Session).handleMessage i msg).1.ending with
    | none =>
      rintro (hq | hq)
      · exact absurd (hphase.symm.trans hq) (by simp [hp])
      · exact absurd (hphase.symm.trans hq) (by simp [hp])
    | some how => rintro (hq | hq) <;> cases hq

theorem Idle.advance (h : s.Idle) (e : Event) : (s.advance e).Idle := by
  cases e with
  | other host op => exact h
  | step i =>
    simp only [Session.advance, step]
    cases hp : s.phase with
    | opening =>
      simp only [sendOpen]
      split_ifs
      · exact fun _ => h (.inl hp)
      · rintro (hq | hq) <;> cases hq
    | waiting => exact h.wait hp
    | draining => exact idle_drain hp
    | ended how => exact h

theorem Idle.run (h : s.Idle) (events : List Event) : (s.run events).Idle := by
  induction events using List.reverseRecOn with
  | nil => exact h
  | append_singleton events e ih =>
    rw [run_concat]
    exact ih.advance e

theorem framed_messages (s : Session) (events : List Event) : ∀ msg ∈ s.messages events, msg.Framed := by
  induction events using List.reverseRecOn with
  | nil => exact fun msg hm => nomatch hm
  | append_singleton events e ih =>
    rw [messages_concat, List.forall_mem_append]
    refine ⟨ih, ?_⟩
    rcases (s.run events).advance_buf e with ⟨ht, -⟩ | ⟨msg, ht, -, hb⟩
    · rw [ht]
      exact fun msg hm => nomatch hm
    · rw [ht, Option.toList_some, List.forall_mem_singleton]
      exact (BgpMessage.run_parse_some.mp hb).2

theorem drain_delivered (hs : s.buf = []) (events : List Event) (y : Bytes) :
    (ByteReader.drain BgpMessage.parse).run ⟨s.delivered events ++ y, []⟩ =
      (ByteReader.drain BgpMessage.parse).run ⟨(s.run events).buf ++ y, s.messages events⟩ := by
  induction events using List.reverseRecOn generalizing y with
  | nil => rw [delivered, messages, run, List.foldl_nil, hs]
  | append_singleton events e ih =>
    rw [delivered_concat, messages_concat, run_concat, List.append_assoc, ih]
    rcases (s.run events).advance_buf e with ⟨ht, hb⟩ | ⟨msg, ht, hr, hb⟩
    · rw [ht, hb, Option.toList_none, List.append_nil, List.append_assoc]
    · have hmore := BgpMessage.run_parse_some.mp hb
      rw [ht, hr, List.nil_append, Option.toList_some]
      apply run_drain_step BgpMessage.incremental_parse
      apply BgpMessage.run_parse_some.mpr
      exact ⟨by rw [hmore.1, List.append_assoc, List.append_assoc], hmore.2⟩

theorem run_drain (addr : SocketAddr) (config : LocalConfig) (rib : Rib) (metrics : Metrics)
    (events : List Event) :
    let s := handleIncoming addr config rib metrics
    (s.run events).phase = .waiting →
      (ByteReader.drain BgpMessage.parse).run ⟨s.delivered events, []⟩ =
        some (.ok (), ⟨(s.run events).buf, s.messages events⟩) := by
  intro s hp
  have hstuck := (idle_handleIncoming addr config rib metrics).run events (.inr hp)
  have hdrain := drain_delivered (s := s) rfl events []
  rw [List.append_nil, List.append_nil] at hdrain
  rw [hdrain]
  exact Stuck.run_drain hstuck

theorem elim_opens {t : Terms} (p : Peer) (s : Session) (e : Event) :
    (s.opens e).elim t p.offered = (s.taken e).toList.foldl (fun t msg => (opened msg).elim t p.offered) t := by
  unfold opens
  cases s.taken e <;> rfl

theorem run_terms (s : Session) (events : List Event) :
    (s.run events).peer.terms =
      (s.messages events).foldl (fun t msg => (opened msg).elim t s.peer.offered) s.peer.terms := by
  induction events using List.reverseRecOn with
  | nil => rfl
  | append_singleton events e ih =>
    have hf := (s.run events).advance_follows e
    have hoffered : (s.run events).peer.offered = s.peer.offered := by
      funext o
      unfold Peer.offered
      rw [run_config]
    rw [run_concat, messages_concat, List.foldl_append, ← ih, hf.terms, hoffered]
    exact elim_opens s.peer _ e

theorem delivered_drained (addr : SocketAddr) (config : LocalConfig) (rib : Rib) (metrics : Metrics)
    (events : List Event) :
    let s := handleIncoming addr config rib metrics
    s.delivered events = (s.messages events).flatMap BgpMessage.frame ++ (s.run events).buf ∧
      (∀ msg ∈ s.messages events, msg.Framed) ∧
      ((s.run events).phase = .waiting → (ByteReader.drain BgpMessage.parse).run ⟨s.delivered events, []⟩ =
        some (.ok (), ⟨(s.run events).buf, s.messages events⟩)) := by
  intro s
  have hbuf := s.buf_delivered events
  rw [show s.buf = [] from rfl, List.nil_append] at hbuf
  exact ⟨hbuf, s.framed_messages events, run_drain addr config rib metrics events⟩

theorem run_of_delivered (addr addr' : SocketAddr) (config : LocalConfig) (rib rib' : Rib)
    (metrics metrics' : Metrics) (events events' : List Event) :
    let s := handleIncoming addr config rib metrics
    let s' := handleIncoming addr' config rib' metrics'
    s.delivered events = s'.delivered events' → (s.run events).phase = .waiting →
      (s'.run events').phase = .waiting →
      s.messages events = s'.messages events' ∧ (s.run events).buf = (s'.run events').buf ∧
        (s.run events).peer.state = (s'.run events').peer.state ∧
        (s.run events).peer.terms = (s'.run events').peer.terms := by
  intro s s' hbytes hw hw'
  have hdrain := run_drain addr config rib metrics events hw
  have hdrain' := run_drain addr' config rib' metrics' events' hw'
  rw [hbytes, hdrain'] at hdrain
  simp only [Option.some.injEq, Prod.mk.injEq, true_and, Inbox.mk.injEq] at hdrain
  obtain ⟨hbuf, hmsgs⟩ := hdrain
  refine ⟨hmsgs.symm, hbuf.symm, ?_, ?_⟩
  · rw [run_state events (not_ended_of_waiting hw), run_state events' (not_ended_of_waiting hw'), received_eq_map,
      received_eq_map, hmsgs]
    rfl
  · rw [run_terms, run_terms, hmsgs]
    rfl

def slowEvents : List Event :=
  [.step (sampleInput .timeout), .step (sampleInput (.ok (sampleStream.take 40))), .step (sampleInput .timeout),
    .step (sampleInput .timeout), .step (sampleInput .timeout), .step (sampleInput (.ok (sampleStream.drop 40))),
    .step (sampleInput .timeout), .step (sampleInput .timeout), .step (sampleInput .timeout)]

theorem run_of_delivered_slow :
    (sampleSession.run slowEvents).peer.state = .established ∧
      sampleSession.messages sampleEvents = sampleSession.messages slowEvents ∧
      (sampleSession.run sampleEvents).buf = (sampleSession.run slowEvents).buf ∧
      (sampleSession.run sampleEvents).peer.state = (sampleSession.run slowEvents).peer.state ∧
      (sampleSession.run sampleEvents).peer.terms = (sampleSession.run slowEvents).peer.terms :=
  ⟨by decide, run_of_delivered samplePeer samplePeer ⟨65000, .new 10 0 0 254, 90⟩ .new .new {}
    {} sampleEvents slowEvents
    (by decide) (by decide) (by decide)⟩

end Runs

end Session

end PathForge.Peering
