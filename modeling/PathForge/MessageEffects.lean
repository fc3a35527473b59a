import PathForge.MetricCounters
import PathForge.SessionStream

namespace PathForge.Routing.Rib

def Made (kind : Host → Prop) (ops : List RibOp) (r r' : Rib) : Prop :=
  ∃ calls : List (Host × RibOp), r.run calls = some r' ∧ calls.map Prod.snd = ops ∧ ∀ c ∈ calls, kind c.1

variable {kind kind' : Host → Prop} {ops ops' : List RibOp} {r r' r'' : Rib}

theorem made_nil (kind : Host → Prop) (r : Rib) : Made kind [] r r := ⟨[], rfl, rfl, by simp⟩

theorem made_apply {h : Host} {op : RibOp} (hk : kind h) (ha : r.apply h op = some r') : Made kind [op] r r' := by
  refine ⟨[(h, op)], ?_, rfl, by simpa using hk⟩
  rw [run, List.foldlM_cons, ha]
  rfl

theorem Made.append (h : Made kind ops r r') (h' : Made kind ops' r' r'') : Made kind (ops ++ ops') r r'' := by
  obtain ⟨calls, hr, rfl, hk⟩ := h
  obtain ⟨calls', hr', rfl, hk'⟩ := h'
  refine ⟨calls ++ calls', ?_, List.map_append, List.forall_mem_append.mpr ⟨hk, hk'⟩⟩
  rw [run_append hr, hr']

theorem Made.mono (h : Made kind ops r r') (hk : ∀ h, kind h → kind' h) : Made kind' ops r r' := by
  obtain ⟨calls, hr, ho, hc⟩ := h
  exact ⟨calls, hr, ho, fun c hmem => hk _ (hc c hmem)⟩

theorem Made.rpki (h : Made kind ops r r') : r'.rpki = r.rpki := by
  obtain ⟨calls, hr, -⟩ := h
  exact run_rpki hr

end PathForge.Routing.Rib

namespace PathForge.Peering

open Fallible ByteReader Wire Routing Rib

/-- The clock and hash orders a Rib call is made with, in a step with the input: a reset of the hold timer may
have read the clock before it. -/
def Input.Lends (i : Input) (h : Host) : Prop := h = i.host ∨ h = { i.host with clock := i.host.clock.tail }

def asksOf (addr : SocketAddr) (as : UInt32) (msg : BgpMessage) : List RibOp :=
  match updated msg, noticed msg with
  | some u, _ =>
    .processUpdate addr as u.nlri u.pathAttributes u.withdrawnRoutes ::
      if Session.isEndOfRib u then [.removeStaleForPeer addr] else []
  | none, some _ => [.removePeer addr]
  | none, none => []

def asAfter (as : UInt32) (msg : BgpMessage) : UInt32 := (opened msg).elim as fun o => o.myAs.toUInt32

def asksOfAll (addr : SocketAddr) : UInt32 → List BgpMessage → List RibOp
  | _, [] => []
  | as, msg :: msgs => asksOf addr as msg ++ asksOfAll addr (asAfter as msg) msgs

/-- The two endings that go through `handle_disconnect`, which finds the session no longer Established. -/
def Phase.asks (addr : SocketAddr) : Phase → List RibOp
  | .ended .closed | .ended .holdTimerExpired => [.removePeer addr]
  | _ => []

theorem asksOfAll_concat (addr : SocketAddr) (as : UInt32) (msgs : List BgpMessage) (msg : BgpMessage) :
    asksOfAll addr as (msgs ++ [msg]) = asksOfAll addr as msgs ++ asksOf addr (msgs.foldl asAfter as) msg := by
  induction msgs generalizing as with
  | nil => exact List.append_nil _
  | cons m msgs ih => rw [List.cons_append, asksOfAll, ih, asksOfAll, List.append_assoc, List.foldl_cons]

theorem asksOf_peer {addr : SocketAddr} {as : UInt32} {msg : BgpMessage} {op : RibOp}
    (h : op ∈ asksOf addr as msg) :
    op.peer = addr ∧ ∀ p, op ≠ .markPeerStale p := by
  unfold asksOf at h
  split at h
  · split_ifs at h
    · rcases List.mem_pair.mp h with rfl | rfl <;> simp [RibOp.peer]
    · obtain rfl := List.mem_singleton.mp h
      simp [RibOp.peer]
  · obtain rfl := List.mem_singleton.mp h
    simp [RibOp.peer]
  · cases h

theorem Phase.asks_peer {addr : SocketAddr} {phase : Phase} {op : RibOp} (h : op ∈ phase.asks addr) :
    op.peer = addr ∧ ∀ p, op ≠ .markPeerStale p := by
  unfold asks at h
  split at h
  · obtain rfl := List.mem_singleton.mp h
    simp [RibOp.peer]
  · obtain rfl := List.mem_singleton.mp h
    simp [RibOp.peer]
  · cases h

theorem Outcome.asks_ending {outcome : Outcome} {how : Ending} (h : outcome.ending = some how)
    (addr : SocketAddr) :
    (Phase.ended how).asks addr = [] := by
  cases outcome with
  | done => cases h
  | failed e =>
    cases e with
    | io =>
      cases h
      rfl
    | message e =>
      cases h
      rfl
  | panicked =>
    cases h
    rfl

namespace Session

variable {i : Input} {s : Session} {msg : BgpMessage}

theorem lends_resetHoldTimer (i : Input) (t : BgpTimers) :
    i.Lends { i.host with clock := (t.resetHoldTimer.run i.host.clock).2 } := by
  unfold BgpTimers.resetHoldTimer
  split_ifs
  · exact .inr rfl
  · exact .inl rfl

theorem made_updateRib {kind : Host → Prop} {h : Host} {p : Peer} {u : UpdateMessage} {r r' : Rib} (hk : kind h)
    (hu : updateRib h p u r = some r') :
    Made kind (.processUpdate p.addr p.remoteAs u.nlri u.pathAttributes u.withdrawnRoutes ::
      if isEndOfRib u then [.removeStaleForPeer p.addr] else []) r r' := by
  obtain ⟨r₁, h₁, he⟩ := Option.bind_eq_some_iff.mp hu
  have hfirst : Made kind [.processUpdate p.addr p.remoteAs u.nlri u.pathAttributes u.withdrawnRoutes] r r₁ :=
    made_apply hk h₁
  simp only [Option.pure_def, Option.some.injEq] at he
  subst he
  split_ifs
  · exact hfirst.append (made_apply hk rfl)
  · exact hfirst

theorem made_removePeer (i : Input) (r : Rib) (addr : SocketAddr) :
    Made i.Lends [.removePeer addr] r (r.removePeer i.host addr).2 := made_apply (.inl rfl) rfl

theorem asksOf_eq_nil {addr : SocketAddr} {as : UInt32} (hu : updated msg = none) (hn : noticed msg = none) :
    asksOf addr as msg = [] := by
  simp only [asksOf, hu, hn]

theorem handleMessage_asks (hm : s.rib.rpki.mode = .disabled) :
    Made i.Lends (asksOf s.peer.addr s.peer.remoteAs msg) s.rib (s.handleMessage i msg).2.rib := by
  have hcount := countRx_untouched (s := s) msg.header.msgType
  rw [← hcount.rib] at hm ⊢
  rw [← s.countRx_peer msg.header.msgType]
  unfold handleMessage
  simp only
  generalize s.countRx msg.header.msgType = s at hm ⊢
  cases ht : msg.header.msgType with
  | «open» =>
    rw [asksOf_eq_nil (updated_of_ne (by simp [ht])) (noticed_of_ne (by simp [ht]))]
    apply withBody_induction (P := fun t => Made i.Lends [] s.rib t.rib) _ (made_nil _ _)
    intro o
    obtain ⟨caps, hcaps⟩ := Capability.exists_parseFromOpenParams o.optionalParams
    rw [hcaps]
    simp only [(handleOpen_untouched o caps).rib]
    exact made_nil _ _
  | keepalive =>
    rw [asksOf_eq_nil (updated_of_ne (by simp [ht])) (noticed_of_ne (by simp [ht])),
      show (s.handleKeepalive i).rib = s.rib from handleKeepalive_untouched.rib]
    exact made_nil _ _
  | update =>
    have hn : noticed msg = none := noticed_of_ne (by simp [ht])
    rcases s.withBody_cases (UpdateMessage.parse.outcome msg.body) (s.handleUpdate i) with ⟨u, hu, hk⟩ |
      ⟨hno, -, hk⟩
    · have hup : updated msg = some u := by simp only [updated, ht, hu]
      obtain ⟨rib, hr, -⟩ := exists_updateRib hm
        { i.host with clock := (s.peer.timers.resetHoldTimer.run i.host.clock).2 }
        (({ s.peer with timers := (s.peer.timers.resetHoldTimer.run i.host.clock).1 } : Peer).transition
          .updateMsg) u
      simp only [hk, asksOf, hup, handleUpdate, hr]
      exact made_updateRib (lends_resetHoldTimer i _) hr
    · have hup : updated msg = none := by
        unfold updated
        split
        · exact absurd ⟨_, by assumption⟩ hno
        · rfl
      rw [hk, asksOf_eq_nil hup hn]
      exact made_nil _ _
  | notification =>
    have hup : updated msg = none := updated_of_ne (by simp [ht])
    rcases s.withBody_cases (NotificationMessage.parse.outcome msg.body) fun _ =>
      (.done, s.handleNotification i) with
      ⟨n, hb, hk⟩ | ⟨hno, -, hk⟩
    · have hn : noticed msg = some n := noticed_eq_some.mpr ⟨ht, hb⟩
      simp only [hk, asksOf, hup, hn]
      exact made_removePeer i s.rib s.peer.addr
    · have hn : noticed msg = none := by
        rw [Option.eq_none_iff_forall_ne_some]
        intro n hn
        exact hno ⟨n, (noticed_eq_some.mp hn).2⟩
      rw [hk, asksOf_eq_nil hup hn]
      exact made_nil _ _
  | routeRefresh =>
    rw [asksOf_eq_nil (updated_of_ne (by simp [ht])) (noticed_of_ne (by simp [ht]))]
    exact made_nil _ _

theorem receive_asks (hp : s.phase = .waiting) :
    Made i.Lends ((s.receive i).phase.asks s.peer.addr) s.rib (s.receive i).rib := by
  rcases hr : i.read with (_ | ⟨x, data⟩) | _ | _
  · rw [(receive_closed_withdrawn hr).rib]
    simp only [receive, hr]
    exact made_removePeer _ _ _
  · simp only [receive, hr]
    exact made_nil _ _
  · simp only [receive, hr]
    exact made_nil _ _
  · simp only [receive, hr, hp]
    exact made_nil _ _

theorem wait_asks (hp : s.phase = .waiting) : Made i.Lends ((s.wait i).phase.asks s.peer.addr) s.rib
    (s.wait i).rib := by
  rcases s.wait_cases i with ⟨-, hw⟩ | ⟨-, -, -, hw⟩ | ⟨-, -, t, ht, hw⟩
  · rw [hw, expire_withdrawn.rib]
    exact made_removePeer _ _ _
  · rw [hw]
    exact made_nil _ _
  · rw [hw]
    rcases ht with rfl | ⟨clock, rfl⟩
    · exact receive_asks hp
    · exact receive_asks (s := s.sendKeepalive clock) hp

theorem drain_asks (hm : s.rib.rpki.mode = .disabled) (hp : s.phase = .draining) :
    Made i.Lends ((s.taken (.step i)).elim [] (asksOf s.peer.addr s.peer.remoteAs) ++
      (s.drain i).phase.asks s.peer.addr)
      s.rib (s.drain i).rib := by
  obtain ⟨r, buf, hr, -⟩ := BgpMessage.incremental_parse s.buf
  have ho : BgpMessage.parse.outcome s.buf = some r := outcome_eq_some.mpr ⟨buf, hr⟩
  rcases r with e | _ | msg
  · have ht : s.taken (.step i) = none := by simp only [taken, hp, ho]
    simp only [ht, drain, hr]
    exact made_nil _ _
  · have ht : s.taken (.step i) = none := by simp only [taken, hp, ho]
    simp only [ht, drain, hr]
    exact made_nil _ _
  · have hmade : Made i.Lends (asksOf s.peer.addr s.peer.remoteAs msg) s.rib
        (({ s with buf := buf } : Session).handleMessage i msg).2.rib :=
          handleMessage_asks (s := { s with buf := buf }) hm
    have hgoing : Phase.asks s.peer.addr (({ s with buf := buf } : Session).handleMessage i msg).2.phase = [] := by
      rw [(handleMessage_buf { s with buf := buf } i msg).2, hp]
      rfl
    simp only [taken_step_eq_some.mpr ⟨hp, ho⟩, Option.elim_some, drain, hr]
    cases he : (({ s with buf := buf } : Session).handleMessage i msg).1.ending with
    | none =>
      simp only [hgoing]
      exact hmade.append (made_nil _ _)
    | some how =>
      simp only [Outcome.asks_ending he]
      exact hmade.append (made_nil _ _)

theorem step_asks (hm : s.rib.rpki.mode = .disabled) (hn : ¬ s.Ended) :
    Made i.Lends ((s.taken (.step i)).elim [] (asksOf s.peer.addr s.peer.remoteAs) ++
      (s.step i).phase.asks s.peer.addr)
      s.rib (s.step i).rib := by
  cases hp : s.phase with
  | opening =>
    rw [taken_of_phase_ne (by simp [hp])]
    simp only [step, hp, sendOpen]
    split_ifs
    · exact made_nil _ _
    · exact made_nil _ _
  | waiting =>
    rw [taken_of_phase_ne (by simp [hp])]
    simp only [step, hp]
    exact wait_asks hp
  | draining =>
    simp only [step, hp]
    exact drain_asks hm hp
  | ended how => exact absurd ⟨how, hp⟩ hn

theorem asks_of_going (h : ¬ s.Ended) (addr : SocketAddr) : s.phase.asks addr = [] := by
  cases hp : s.phase with
  | ended how => exact absurd ⟨how, hp⟩ h
  | _ => rfl

theorem Ended.taken (h : s.Ended) : s.taken (.step i) = none := by
  obtain ⟨how, hp⟩ := h
  exact taken_of_phase_ne (by simp [hp])

theorem run_addr (s : Session) (events : List Event) : (s.run events).peer.addr = s.peer.addr := by
  induction events using List.reverseRecOn with
  | nil => rfl
  | append_singleton events e ih =>
    rw [run_concat, ← ih]
    exact ((s.run events).advance_follows e).addr

theorem run_remoteAs (s : Session) (events : List Event) :
    (s.run events).peer.remoteAs = (s.messages events).foldl asAfter s.peer.remoteAs := by
  have hterms := congrArg Terms.remoteAs (s.run_terms events)
  have hfold (t : Terms) (msgs : List BgpMessage) :
      (msgs.foldl (fun t msg => (opened msg).elim t s.peer.offered) t).remoteAs =
        msgs.foldl asAfter t.remoteAs := by
    induction msgs generalizing t with
    | nil => rfl
    | cons msg msgs ih =>
      rw [List.foldl_cons, ih, List.foldl_cons, asAfter]
      cases opened msg <;> rfl
  exact hterms.trans (hfold _ _)

theorem run_asks (hm : s.rib.rpki.mode = .disabled) (hn : ¬ s.Ended) (inputs : List Input) :
    Made (fun h => ∃ i ∈ inputs, i.Lends h) (asksOfAll s.peer.addr s.peer.remoteAs
      (s.messages (inputs.map .step)) ++
      (s.run (inputs.map .step)).phase.asks s.peer.addr) s.rib (s.run (inputs.map .step)).rib := by
  induction inputs using List.reverseRecOn with
  | nil =>
    have hasks : s.phase.asks s.peer.addr = [] := asks_of_going hn _
    rw [List.map_nil, show s.run [] = s from rfl, hasks]
    exact made_nil _ _
  | append_singleton inputs i ih =>
    have hrpki := ih.rpki
    have haddr := s.run_addr (inputs.map .step)
    have hlast (h : Host) (hi : i.Lends h) : ∃ j ∈ inputs ++ [i], j.Lends h := ⟨i, by simp, hi⟩
    replace ih := ih.mono fun h ⟨j, hj, hl⟩ =>
        (⟨j, List.mem_append_left _ hj, hl⟩ : ∃ j ∈ inputs ++ [i], j.Lends h)
    rw [List.map_append, List.map_singleton, messages_concat, run_concat]
    by_cases he : (s.run (inputs.map .step)).Ended
    · rw [he.taken, he.advance_step, Option.toList_none, List.append_nil]
      exact ih
    · rw [asks_of_going he _, List.append_nil] at ih
      have hstep := step_asks (i := i) (hrpki ▸ hm) he
      have hmade := ih.append (hstep.mono hlast)
      rw [haddr, run_remoteAs, ← List.append_assoc] at hmade
      cases ht : (s.run (inputs.map .step)).taken (.step i) with
      | none =>
        rw [ht, Option.elim_none, List.append_nil] at hmade
        rw [Option.toList_none, List.append_nil]
        exact hmade
      | some msg =>
        rw [ht, Option.elim_some] at hmade
        rw [Option.toList_some, asksOfAll_concat]
        exact hmade

end Session

end PathForge.Peering
