import PathForge.OutgoingMessages
import PathForge.CapabilityRoundTrip
import PathForge.RunHistory

namespace PathForge.Peering

open History Fallible ByteReader Wire Routing

/-- The ends of a session that no message of the peer is to blame for. -/
def Ending.Outward (how : Ending) : Prop :=
  how = .closed ∨ how = .holdTimerExpired ∨ how = .readError ∨ how = .writeError

namespace Session

variable {i : Input} {s : Session} {how : Ending}

theorem receive_ending (hp : s.phase = .waiting) (h : (s.receive i).phase = .ended how) : how.Outward := by
  unfold receive at h
  rcases hr : i.read with (_ | ⟨x, data⟩) | _ | _ <;> rw [hr] at h
  · cases h
    exact .inl rfl
  · cases h
  · cases h
    exact .inr (.inr (.inl rfl))
  · rw [hp] at h
    cases h

theorem wait_ending (hp : s.phase = .waiting) (h : (s.wait i).phase = .ended how) : how.Outward := by
  rcases s.wait_cases i with ⟨-, hw⟩ | ⟨-, -, -, hw⟩ | ⟨-, -, t, ht, hw⟩
  · rw [hw] at h
    cases h
    exact .inr (.inl rfl)
  · rw [hw] at h
    cases h
    exact .inr (.inr (.inr rfl))
  · rw [hw] at h
    refine receive_ending ?_ h
    rcases ht with rfl | ⟨clock, rfl⟩ <;> exact hp

theorem handleMessage_framed {m : Message} (hm : m.Sendable) (hu : m.msgType ≠ .update) :
    (s.handleMessage i m.framed).1 = .done ∨ (s.handleMessage i m.framed).1 = .failed .io := by
  have hparsed := hm.parsedFrom
  cases m with
  | «open» o =>
    obtain ⟨caps, hcaps⟩ := Capability.exists_parseFromOpenParams o.optionalParams
    have hbody : OpenMessage.parse.outcome (Message.open o).framed.body = some (.ok o) := hparsed
    have htype : (Message.open o).framed.header.msgType = .open := rfl
    simp only [handleMessage, htype, hbody, withBody, hcaps, handleOpen]
    split_ifs
    · exact .inl rfl
    · exact .inr rfl
  | update m => exact absurd rfl hu
  | notification n =>
    have hbody : NotificationMessage.parse.outcome (Message.notification n).framed.body = some (.ok n) := hparsed
    have htype : (Message.notification n).framed.header.msgType = .notification := rfl
    simp only [handleMessage, htype, hbody, withBody]
    exact .inl trivial
  | keepalive k => exact .inl rfl
  | routeRefresh r => exact .inl rfl

theorem drain_ending (hp : s.phase = .draining) (h : (s.drain i).phase = .ended how)
    (hb : BgpMessage.parse.outcome s.buf = some (.ok none) ∨ ∃ m : Message, m.Sendable ∧ m.msgType ≠ .update ∧
      BgpMessage.parse.outcome s.buf = some (.ok (some m.framed))) : how.Outward := by
  rcases hb with ho | ⟨m, hm, hu, ho⟩
  · obtain ⟨buf, hr⟩ := outcome_eq_some.mp ho
    simp only [drain, hr] at h
    cases h
  · obtain ⟨buf, hr⟩ := outcome_eq_some.mp ho
    have hphase := (handleMessage_buf ({ s with buf := buf } : Session) i m.framed).2
    have hhandled := handleMessage_framed (s := { s with buf := buf }) (i := i) hm hu
    simp only [drain, hr] at h
    generalize ({ s with buf := buf } : Session).handleMessage i m.framed = r at h hphase hhandled
    rcases hhandled with hdone | hfail
    · simp only [hdone, Outcome.ending] at h
      rw [hphase, hp] at h
      cases h
    · simp only [hfail, Outcome.ending] at h
      cases h
      exact .inr (.inr (.inr rfl))

theorem step_ending (hn : ¬ s.Ended) (h : (s.step i).phase = .ended how)
    (hb : BgpMessage.parse.outcome s.buf = some (.ok none) ∨ ∃ m : Message, m.Sendable ∧ m.msgType ≠ .update ∧
      BgpMessage.parse.outcome s.buf = some (.ok (some m.framed))) : how.Outward := by
  simp only [step] at h
  cases hp : s.phase with
  | opening =>
    simp only [hp, sendOpen] at h
    split_ifs at h
    cases h
    exact .inr (.inr (.inr rfl))
  | waiting =>
    simp only [hp] at h
    exact wait_ending hp h
  | draining =>
    simp only [hp] at h
    exact drain_ending hp h hb
  | ended how' => exact absurd ⟨how', hp⟩ hn

theorem opened_of_confirmed {events : List Event} (hs : ¬ s.peer.state.Confirmed)
    (hc : (s.run events).peer.state.Confirmed) : ∃ msg ∈ s.messages events, (opened msg).isSome := by
  induction events using List.reverseRecOn with
  | nil => exact absurd hc hs
  | append_singleton events e ih =>
    have hf := (s.run events).advance_follows e
    rw [run_concat] at hc
    rw [messages_concat]
    cases ho : (s.run events).opens e with
    | none =>
      rw [ho] at hf
      obtain ⟨msg, hm, hopen⟩ := ih (hf.state hc)
      exact ⟨msg, List.mem_append_left _ hm, hopen⟩
    | some o =>
      obtain ⟨msg, ht, hopen⟩ := Option.bind_eq_some_iff.mp ho
      exact ⟨msg, List.mem_append_right _ (by simp [ht]), by simp [hopen]⟩

theorem keepalive_written {events : List Event} (hn : ¬ (s.run events).Ended) {msg : BgpMessage}
    (hm : msg ∈ s.messages events) (ho : (opened msg).isSome) : Message.keepalive ⟨⟩ ∈ s.written events := by
  induction events using List.reverseRecOn with
  | nil => exact nomatch hm
  | append_singleton events e ih =>
    rw [run_concat] at hn
    rw [messages_concat] at hm
    rw [written_concat, List.mem_append]
    rcases List.mem_append.mp hm with hm | hm
    · exact .inl (ih (not_ended_of_advance hn) hm)
    · right
      have ht : (s.run events).taken e = some msg := by simpa using hm
      cases e with
      | other host op => cases ht
      | step i =>
        obtain ⟨o, hopen⟩ := Option.isSome_iff_exists.mp ho
        have hopens : (s.run events).opens (.step i) = some o := by rw [opens, ht, Option.bind_some, hopen]
        have hp := (taken_step_eq_some.mp ht).1
        simp [writes, hp, hopens, (ended_open_iff hopens).mp hn]

theorem Script.opens {o : OpenMessage} {p : Phase} {l : List Message} (h : Script o p l) :
    l = [] ∨ ∃ tail, l = .open o :: tail ∧ ∀ m ∈ tail, m.msgType = .keepalive ∨ m.msgType = .notification := by
  have hkeepalives (n : ℕ) : ∀ m ∈ List.replicate n (Message.keepalive ⟨⟩),
      m.msgType = .keepalive ∨ m.msgType = .notification := fun m hm => by
    rw [List.eq_of_mem_replicate hm]
    exact .inl rfl
  cases h with
  | silent _ => exact .inl rfl
  | spoken n _ => exact .inr ⟨_, rfl, hkeepalives n⟩
  | signedOff n =>
    exact .inr ⟨_, rfl, List.forall_mem_append.mpr ⟨hkeepalives n, List.forall_mem_singleton.mpr (.inr rfl)⟩⟩

end Session

inductive Delivery where
  | chunk (n : ℕ)
  | nothing
  | failure

inductive Move where
  | turn (side : Bool) (host : Host) (writeOk : Bool) (delivery : Delivery)
  | other (side : Bool) (host : Host) (op : RibOp)

/-- Two sessions whose connections are joined, each reading what the other has written; `got d` is how many
octets end `d` has read so far. -/
structure Pair where
  ends : Bool → Session
  got : Bool → ℕ

def Move.side : Move → Bool
  | turn d _ _ _ => d
  | other d _ _ => d

namespace Pair

def pending (l : Pair) (d : Bool) : Bytes := (l.ends !d).sent.drop (l.got d)

def readResult (l : Pair) (d : Bool) : Delivery → ReadResult
  | .chunk n =>
    if l.pending d = [] then
      match (l.ends !d).phase with
      | .ended _ => .ok []
      | _ => .timeout
    else
      .ok ((l.pending d).take (n + 1))
  | .nothing => .timeout
  | .failure => .err

def event (l : Pair) : Move → Event
  | .turn d host writeOk delivery => .step ⟨host, writeOk, l.readResult d delivery⟩
  | .other _ host op => .other host op

def act (l : Pair) (m : Move) : Pair where
  ends := Function.update l.ends m.side ((l.ends m.side).advance (l.event m))
  got := Function.update l.got m.side (l.got m.side + ((l.ends m.side).reads (l.event m)).length)

def join (addr : Bool → SocketAddr) (config : Bool → LocalConfig) (rib : Bool → Rib) (metrics : Bool → Metrics) :
    Pair where
  ends d := .handleIncoming (addr d) (config d) (rib d) (metrics d)
  got _ := 0

def history (l : Pair) (d : Bool) : List Move → List Event
  | [] => []
  | m :: moves => (if m.side = d then [l.event m] else []) ++ (l.act m).history d moves

def messages (l : Pair) (d : Bool) (moves : List Move) : List BgpMessage := (l.ends d).messages (l.history d moves)

def written (l : Pair) (d : Bool) (moves : List Move) : List Message := (l.ends d).written (l.history d moves)

theorem history_concat (l : Pair) (d : Bool) (moves : List Move) (m : Move) :
    l.history d (moves ++ [m]) =
      l.history d moves ++ if m.side = d then [(moves.foldl act l).event m] else [] := by
  induction moves generalizing l with
  | nil => simp [history]
  | cons m' moves ih =>
    rw [List.cons_append, history, ih, history, List.append_assoc]
    rfl

structure Joined (start l : Pair) (history : Bool → List Event) : Prop where
  ends : ∀ d, l.ends d = (start.ends d).run (history d)
  got : ∀ d, l.got d = ((start.ends d).delivered (history d)).length
  delivered : ∀ d, (start.ends d).delivered (history d) <+: (l.ends !d).sent

theorem prefix_of_readResult {l : Pair} {d : Bool} {delivery : Delivery} {data : Bytes}
    (h : l.readResult d delivery = .ok data) : data <+: l.pending d := by
  unfold readResult at h
  cases delivery with
  | chunk n =>
    simp only at h
    split_ifs at h with hnil
    · split at h
      · cases h
        exact List.nil_prefix
      · cases h
    · cases h
      exact List.take_prefix _ _
  | nothing => cases h
  | failure => cases h

theorem reads_prefix (l : Pair) (m : Move) : (l.ends m.side).reads (l.event m) <+: l.pending m.side := by
  cases m with
  | other d host op => exact List.nil_prefix
  | turn d host writeOk delivery =>
    change (l.ends d).reads (.step ⟨host, writeOk, l.readResult d delivery⟩) <+: l.pending d
    rcases (l.ends d).reads_cases ⟨host, writeOk, l.readResult d delivery⟩ with hnil | hread
    · rw [hnil]
      exact List.nil_prefix
    · exact prefix_of_readResult hread

theorem sent_prefix (s : Session) (e : Event) : s.sent <+: (s.advance e).sent := by
  rw [Session.advance_sent]
  exact List.prefix_append _ _

theorem Joined.act {start l : Pair} {history history' : Bool → List Event} (h : Joined start l history) (m : Move)
    (hself : history' m.side = history m.side ++ [l.event m]) (hother : ∀ d, d ≠ m.side → history' d = history d) :
    Joined start (l.act m) history' := by
  have hgrow (d : Bool) : (l.ends d).sent <+: ((l.act m).ends d).sent := by
    rcases eq_or_ne d m.side with rfl | hd
    · simp only [Pair.act, Function.update_self]
      exact sent_prefix _ _
    · simp only [Pair.act, Function.update_of_ne hd]
      exact List.prefix_rfl
  refine ⟨?_, ?_, ?_⟩
  · intro d
    rcases eq_or_ne d m.side with rfl | hd
    · simp only [Pair.act, Function.update_self, hself, Session.run_concat, ← h.ends]
    · simp only [Pair.act, Function.update_of_ne hd, hother d hd, h.ends]
  · intro d
    rcases eq_or_ne d m.side with rfl | hd
    · simp only [Pair.act, Function.update_self, hself, Session.delivered_concat, List.length_append,
        ← h.ends, ← h.got]
    · simp only [Pair.act, Function.update_of_ne hd, hother d hd, h.got]
  · intro d
    refine List.IsPrefix.trans ?_ (hgrow !d)
    rcases eq_or_ne d m.side with rfl | hd
    · rw [hself, Session.delivered_concat, ← h.ends]
      obtain ⟨t, ht⟩ := h.delivered m.side
      have hpending : l.pending m.side = t := by
        rw [pending, ← ht, h.got, List.drop_left]
      rw [← ht, List.prefix_append_right_inj, ← hpending]
      exact l.reads_prefix m
    · rw [hother d hd]
      exact h.delivered d

theorem joined_history {start : Pair} (hgot : ∀ d, start.got d = 0) (moves : List Move) :
    Joined start (moves.foldl act start) fun d => start.history d moves := by
  induction moves using List.reverseRecOn with
  | nil => exact ⟨fun _ => rfl, hgot, fun _ => List.nil_prefix⟩
  | append_singleton moves m ih =>
    rw [List.foldl_append, List.foldl_cons, List.foldl_nil]
    apply ih.act m
    · rw [history_concat, if_pos rfl]
    · intro d hd
      rw [history_concat, if_neg (Ne.symm hd), List.append_nil]

section Reached

variable {addr : Bool → SocketAddr} {config : Bool → LocalConfig} {rib : Bool → Rib} {metrics : Bool → Metrics}

theorem join_joined (moves : List Move) :
    Joined (join addr config rib metrics) (moves.foldl act (join addr config rib metrics)) fun d =>
      (join addr config rib metrics).history d moves := joined_history (fun _ => rfl) moves

theorem join_script (moves : List Move) (d : Bool) :
    let start := join addr config rib metrics
    Session.Script (start.ends d).peer.localOpen ((moves.foldl act start).ends d).phase
      (start.written d moves) := by
  intro start
  rw [(@join_joined addr config rib metrics moves).ends d]
  exact Session.script_run (.silent (.inl rfl)) (start.history d moves)

theorem join_split (moves : List Move) (d : Bool) :
    let start := join addr config rib metrics
    ∃ done rest, start.written (!d) moves = done ++ rest ∧ start.messages d moves = done.map Message.framed ∧
      ((moves.foldl act start).ends d).buf <+: rest.flatMap Message.frame := by
  intro start
  have hj := @join_joined addr config rib metrics moves
  have hsent := Session.run_sent (start.ends !d) (start.history (!d) moves)
  have hbuf := Session.buf_delivered (start.ends d) (start.history d moves)
  have hprefix := hj.delivered d
  rw [← hj.ends !d] at hsent
  rw [← hj.ends d] at hbuf
  rw [hsent] at hprefix
  apply Message.prefix_of_frames (Session.framed_messages _ _) (join_script moves !d).sendable
  exact hbuf ▸ hprefix

theorem script_msgType {o : OpenMessage} {p : Phase} {l : List Message} (h : Session.Script o p l) :
    ∀ m ∈ l, m.msgType ≠ .update := by
  rcases h.opens with rfl | ⟨tail, rfl, htail⟩
  · exact fun m hm => nomatch hm
  · refine List.forall_mem_cons.mpr ⟨by simp [Message.msgType], ?_⟩
    intro m hm
    rcases htail m hm with ht | ht <;> simp [ht]

theorem join_ending (moves : List Move) (d : Bool) (how : Ending) :
    let start := join addr config rib metrics
    ((moves.foldl act start).ends d).phase = .ended how → how.Outward := by
  intro start
  induction moves using List.reverseRecOn with
  | nil => exact fun h => nomatch h
  | append_singleton moves m ih =>
    rw [List.foldl_append, List.foldl_cons, List.foldl_nil]
    intro h
    rcases eq_or_ne d m.side with rfl | hd
    · simp only [Pair.act, Function.update_self] at h
      by_cases hn : ((moves.foldl act start).ends m.side).Ended
      · obtain ⟨how', hp⟩ := hn
        apply ih
        cases hm : (moves.foldl act start).event m with
        | other host op => rwa [hm] at h
        | step i =>
          rw [hm, Session.Ended.advance_step ⟨how', hp⟩] at h
          exact h
      · obtain ⟨done, rest, hw, -, hbuf⟩ := @join_split addr config rib metrics moves m.side
        have hscript := @join_script addr config rib metrics moves !m.side
        have hrest : ∀ msg ∈ rest, msg.Sendable ∧ msg.msgType ≠ .update := fun msg hmem =>
          ⟨hscript.sendable msg (by simp [hw, hmem]), script_msgType hscript msg (by simp [hw, hmem])⟩
        have hparse := Message.parse_of_prefix (fun msg hmem => (hrest msg hmem).1) hbuf
        cases hm : (moves.foldl act start).event m with
        | other host op =>
          rw [hm] at h
          exact absurd ⟨how, h⟩ hn
        | step i =>
          rw [hm] at h
          apply Session.step_ending hn h
          apply hparse.imp_right
          rintro ⟨msg, rest', rfl, ho⟩
          exact ⟨msg, (hrest msg List.mem_cons_self).1, (hrest msg List.mem_cons_self).2, ho⟩
    · simp only [Pair.act, Function.update_of_ne hd] at h
      exact ih h

theorem opened_framed {m : Message} (h : m.msgType = .keepalive ∨ m.msgType = .notification) :
    opened m.framed = none := by
  apply Session.opened_of_ne
  change m.msgType ≠ .open
  rcases h with h | h <;> simp [h]

theorem foldl_elim_opened {l : List Message} (h : ∀ m ∈ l, m.msgType = .keepalive ∨ m.msgType = .notification)
    (f : OpenMessage → Terms) (t : Terms) :
    (l.map Message.framed).foldl (fun t msg => (opened msg).elim t f) t = t := by
  induction l generalizing t with
  | nil => rfl
  | cons m l ih =>
    rw [List.forall_mem_cons] at h
    rw [List.map_cons, List.foldl_cons, opened_framed h.1]
    exact ih h.2 t

theorem opened_framed_open {p : Peer} : opened (Message.open p.localOpen).framed = some p.localOpen :=
  opened_eq_some.mpr ⟨rfl, p.sendable_localOpen.parsedFrom⟩

theorem parse_localCaps (p : Peer) :
    Capability.parseFromOpenParams p.localOpen.optionalParams = some p.localCaps := by
  have hlen : (p.localCaps.flatMap Capability.toBytes).length < 256 := by
    change 18 < 256
    omega
  have hcarried : ∀ c ∈ p.localCaps, c.Carried := by
    simp only [Peer.localCaps, List.forall_mem_cons, Capability.Carried]
    exact ⟨trivial, trivial, trivial, ⟨by decide, by decide⟩, by simp⟩
  exact Capability.parseOptionalParams_block hlen hcarried

theorem toUInt32_min (x : UInt32) : (min x 65535).toUInt16.toUInt32 = min x 65535 := by
  have hle : (min x 65535).toNat ≤ 65535 := by
    change (if x ≤ 65535 then x else 65535).toNat ≤ 65535
    split_ifs with hx
    · exact UInt32.le_iff_toNat_le.mp hx
    · exact le_rfl
  apply UInt32.toNat_inj.mp
  rw [UInt16.toNat_toUInt32, UInt32.toNat_toUInt16, Nat.mod_eq_of_lt (by omega)]

def agreed (config other : LocalConfig) : Terms where
  remoteAs := min other.localAs 65535
  routerId := some other.routerId
  capabilities := [.fourOctetAsn other.localAs, .routeRefresh, .multiProtocol 1 1, .gracefulRestart 120 0]
  holdTime := min config.holdTime other.holdTime

theorem offered_localOpen (p q : Peer) : p.offered q.localOpen = agreed p.config q.config := by
  simp only [Peer.offered, parse_localCaps, Option.getD_some]
  change Terms.mk (min q.config.localAs 65535).toUInt16.toUInt32 _ _ _ = _
  rw [toUInt32_min]
  rfl

theorem terms_of_confirmed (moves : List Move) (d : Bool)
    (hc : ((moves.foldl act (join addr config rib metrics)).ends d).peer.state.Confirmed) :
    ((moves.foldl act (join addr config rib metrics)).ends d).peer.terms = agreed (config d) (config !d) := by
  let start := join addr config rib metrics
  have hends := (@join_joined addr config rib metrics moves).ends d
  obtain ⟨done, rest, hw, hm, -⟩ := @join_split addr config rib metrics moves d
  have hscript := @join_script addr config rib metrics moves !d
  have hstart : ¬ (start.ends d).peer.state.Confirmed := by
    rintro (hs | hs) <;> cases hs
  rw [hends] at hc ⊢
  obtain ⟨msg, hmsg, hopen⟩ := Session.opened_of_confirmed hstart hc
  rw [Session.run_terms, show (start.ends d).messages (start.history d moves) = done.map Message.framed from hm]
  replace hmsg : msg ∈ done.map Message.framed := hm ▸ hmsg
  rcases hscript.opens with hnil | ⟨tail, hcons, htail⟩
  · rw [hw, List.append_eq_nil_iff] at hnil
    rw [hnil.1] at hmsg
    exact nomatch hmsg
  · rw [hw] at hcons
    cases done with
    | nil => exact nomatch hmsg
    | cons m done =>
      rw [List.cons_append, List.cons.injEq] at hcons
      obtain ⟨rfl, htail'⟩ := hcons
      have hdone : ∀ m ∈ done, m.msgType = .keepalive ∨ m.msgType = .notification := fun m hm =>
        htail m (htail' ▸ List.mem_append_left _ hm)
      rw [List.map_cons, List.foldl_cons, opened_framed_open, Option.elim_some, foldl_elim_opened hdone,
        offered_localOpen]
      rfl

theorem join_terms (moves : List Move) (d : Bool) :
    let start := join addr config rib metrics
    ((moves.foldl act start).ends d).peer.state.Confirmed →
      ((moves.foldl act start).ends d).peer.terms = agreed (config d) (config !d) :=
  terms_of_confirmed moves d

def Settled (l : Pair) : Prop := ∀ d, (l.ends d).phase = .waiting ∧ l.pending d = []

instance (l : Pair) : Decidable l.Settled := inferInstanceAs (Decidable (∀ _, _ ∧ _))

theorem Joined.delivered_of_pending {start l : Pair} {history : Bool → List Event} (h : Joined start l history)
    {d : Bool} (hd : l.pending d = []) : (start.ends d).delivered (history d) = (l.ends !d).sent := by
  obtain ⟨t, ht⟩ := h.delivered d
  rw [pending, ← ht, h.got, List.drop_left] at hd
  rw [← ht, hd, List.append_nil]

theorem join_messages_settled (moves : List Move) :
    let start := join addr config rib metrics
    (moves.foldl act start).Settled → ∀ d, start.messages d moves =
      (start.written (!d) moves).map Message.framed := by
  intro start hsettled d
  have hj := @join_joined addr config rib metrics moves
  obtain ⟨hw, hpending⟩ := hsettled d
  rw [hj.ends d] at hw
  have hdrain : (drain BgpMessage.parse).run ⟨(start.ends d).delivered (start.history d moves), []⟩ =
      some (.ok (), ⟨((start.ends d).run (start.history d moves)).buf, start.messages d moves⟩) :=
    Session.run_drain (addr d) (config d) (rib d) (metrics d) (start.history d moves) hw
  have hwritten := Message.run_drain_frames
    (@join_script addr config rib metrics moves !d).sendable []
  have hsent : (start.ends d).delivered (start.history d moves) =
      (start.written (!d) moves).flatMap Message.frame := by
    rw [hj.delivered_of_pending hpending, hj.ends !d]
    exact Session.run_sent _ _
  rw [hsent, hwritten] at hdrain
  simp only [Option.some.injEq, Prod.mk.injEq, Inbox.mk.injEq, List.nil_append] at hdrain
  exact hdrain.2.2.symm

/-- Nothing is lost, repeated or put out of order: what an end has taken are the first of the messages the
other has written, and all of them once nothing is in flight and both ends wait. -/
theorem join_messages (moves : List Move) :
    let start := join addr config rib metrics
    (∀ d, ∃ done rest, start.written (!d) moves = done ++ rest ∧ start.messages d moves = done.map Message.framed ∧
      ((moves.foldl act start).ends d).buf <+: rest.flatMap Message.frame) ∧
    ((moves.foldl act start).Settled → ∀ d, start.messages d moves =
      (start.written (!d) moves).map Message.framed) :=
  ⟨join_split moves, join_messages_settled moves⟩

theorem handshakeDone_replicate (n : ℕ) : HandshakeDone (.open :: List.replicate (n + 1) .keepalive) := by
  refine ⟨[], [], List.replicate n .keepalive, rfl, by simp, by simp, ?_⟩
  intro hmem
  cases List.eq_of_mem_replicate hmem

theorem join_settled (moves : List Move) :
    let start := join addr config rib metrics
    (moves.foldl act start).Settled → ∀ d, ((moves.foldl act start).ends d).peer.state = .established := by
  intro start hsettled d
  have hj := @join_joined addr config rib metrics moves
  have hspoken (d : Bool) : ∃ n, start.written d moves =
      .open (start.ends d).peer.localOpen :: List.replicate n (.keepalive ⟨⟩) :=
    (join_script moves d).spoken_of_going (.inl (hsettled d).1)
  have hgoes (d : Bool) : ¬ ((start.ends d).run (start.history d moves)).Ended := by
    rw [← hj.ends d]
    exact Session.not_ended_of_waiting (hsettled d).1
  obtain ⟨n, hn⟩ := hspoken d
  obtain ⟨k, hk⟩ := hspoken !d
  -- the other end has taken this end's OPEN, so it has written a KEEPALIVE
  have hanswer : Message.keepalive ⟨⟩ ∈ start.written (!d) moves := by
    have htaken := join_messages_settled moves hsettled !d
    rw [Bool.not_not, show start.written d moves = _ from hn, List.map_cons] at htaken
    have hopened : (opened (Message.open (start.ends d).peer.localOpen).framed).isSome := by
      rw [opened_framed_open, Option.isSome_some]
    refine Session.keepalive_written (hgoes !d) ?_ hopened
    change _ ∈ start.messages (!d) moves
    rw [show start.messages (!d) moves = _ from htaken]
    exact List.mem_cons_self
  rw [show start.written (!d) moves = _ from hk] at hanswer
  obtain ⟨k, rfl⟩ : ∃ m, k = m + 1 := by
    cases k with
    | zero => simp at hanswer
    | succ k => exact ⟨k, rfl⟩
  have htypes : (start.ends d).received (start.history d moves) = .open :: List.replicate (k + 1) .keepalive := by
    rw [Session.received_eq_map]
    change (start.messages d moves).map _ = _
    rw [join_messages_settled moves hsettled d, show start.written (!d) moves = _ from hk, List.map_map,
      List.map_cons, List.map_replicate]
    rfl
  rw [hj.ends d, Session.run_state _ (hgoes d), htypes]
  exact (handshakeDone_replicate k).established

end Reached

section Samples

def sampleConfigs : Bool → LocalConfig
  | false => ⟨65000, .new 10 0 0 254, 90⟩
  | true => ⟨4200000001, .new 10 0 0 1, 30⟩

def samplePair : Pair := join (fun _ => Session.samplePeer) sampleConfigs (fun _ => .new) fun _ => {}

def bothTurn (delivery : Delivery) : List Move :=
  [.turn false ⟨fun n => n, fun _ _ p => p, .listed, .listed⟩ true delivery,
    .turn true ⟨fun n => n, fun _ _ p => p, .listed, .listed⟩ true delivery]

def sampleMoves : List Move :=
  -- both write their OPEN and read the other's in two pieces, take it and answer it, and take the answer
  bothTurn .nothing ++ bothTurn (.chunk 30) ++ bothTurn .nothing ++ bothTurn (.chunk 100) ++ bothTurn .nothing ++
    bothTurn .nothing ++ bothTurn (.chunk 100) ++ bothTurn .nothing ++ bothTurn .nothing

theorem join_ending_sample :
    ((((sampleMoves ++ bothTurn .failure).foldl act samplePair).ends true).phase = .ended .readError) ∧
      Ending.readError.Outward := by
  have hp : ((((sampleMoves ++ bothTurn .failure).foldl act samplePair).ends true).phase =
      .ended .readError) := by decide
  exact ⟨hp, join_ending _ true .readError hp⟩

theorem join_terms_sample :
    ((sampleMoves.foldl act samplePair).ends false).peer.terms =
      agreed ⟨65000, .new 10 0 0 254, 90⟩ ⟨4200000001, .new 10 0 0 1, 30⟩ :=
  join_terms sampleMoves false (by decide)

theorem join_settled_sample : ∀ d, ((sampleMoves.foldl act samplePair).ends d).peer.state = .established :=
  join_settled sampleMoves (by decide)

end Samples

end Pair

end PathForge.Peering
