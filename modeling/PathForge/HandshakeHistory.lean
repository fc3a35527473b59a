import PathForge.SessionTerms

namespace PathForge.Peering

open Fallible ByteReader Wire Routing

theorem BgpState.onMessage_eq_established {s : BgpState} {t : MessageType} :
    s.onMessage t = .established ↔ s = .openConfirm ∧ t = .keepalive ∨ s = .established ∧ t ≠ .notification := by
  cases s <;> cases t <;> decide

def LastOpen (l : List (Input × BgpMessage)) (o : OpenMessage) : Prop :=
  ∃ a m c, l = a ++ m :: c ∧ opened m.2 = some o ∧ ∀ n ∈ c, opened n.2 = none

theorem lastOpen_concat {l : List (Input × BgpMessage)} {m : Input × BgpMessage} {o : OpenMessage}
    (h : opened m.2 = some o) : LastOpen (l ++ [m]) o := ⟨l, m, [], rfl, h, by simp⟩

theorem LastOpen.concat {l : List (Input × BgpMessage)} {m : Input × BgpMessage} {o : OpenMessage}
    (h : LastOpen l o) (hm : opened m.2 = none) : LastOpen (l ++ [m]) o := by
  obtain ⟨a, m', c, rfl, ho, hc⟩ := h
  refine ⟨a, m', c ++ [m], by simp, ho, ?_⟩
  rw [List.forall_mem_append, List.forall_mem_singleton]
  exact ⟨hc, hm⟩

namespace Session

variable {s : Session} {l : List (Input × BgpMessage)}

def process (s : Session) (l : List (Input × BgpMessage)) : Session :=
  l.foldl (fun s m => (s.handleMessage m.1 m.2).2) s

theorem process_concat (s : Session) (l : List (Input × BgpMessage)) (m : Input × BgpMessage) :
    s.process (l ++ [m]) = ((s.process l).handleMessage m.1 m.2).2 := by simp [process]

theorem process_config (s : Session) (l : List (Input × BgpMessage)) :
    (s.process l).peer.config = s.peer.config := by
  induction l using List.reverseRecOn with
  | nil => rfl
  | append_singleton l m ih => rw [process_concat, (handleMessage_follows _ _ _).config, ih]

theorem process_confirmed (hs : ¬ s.peer.state.Confirmed) (hc : (s.process l).peer.state.Confirmed) :
    ∃ o, LastOpen l o ∧ (s.process l).peer.terms = s.peer.offered o ∧
      (s.process l).peer.timers.SetTo (min s.peer.config.holdTime o.holdTime) := by
  induction l using List.reverseRecOn with
  | nil => exact absurd hc hs
  | append_singleton l m ih =>
    have hf := handleMessage_follows (s.process l) m.1 m.2
    have hconfig := process_config s l
    rw [process_concat] at hc ⊢
    cases ho : opened m.2 with
    | none =>
      rw [ho] at hf
      obtain ⟨o, hlast, hterms, hset⟩ := ih (hf.state hc)
      exact ⟨o, hlast.concat ho, hf.terms.trans hterms, hset.restarted hf.timers⟩
    | some o =>
      rw [ho] at hf
      refine ⟨o, lastOpen_concat ho, ?_, ?_⟩
      · rw [hf.terms, Option.elim_some, Peer.offered, Peer.offered, hconfig]
      · rw [← hconfig]
        exact hf.timers

def Completed (s : Session) (l : List (Input × BgpMessage)) : Prop :=
  ∃ a m b k c, l = a ++ m :: (b ++ k :: c) ∧ (opened m.2).isSome ∧ k.2.header.msgType = .keepalive ∧
    (s.process (a ++ m :: b)).peer.state ≠ .established ∧
    (s.process (a ++ m :: (b ++ [k]))).peer.state = .established ∧
    ∀ n ∈ c, ¬ (n.2.header.msgType = .notification ∧ Processed n.2)

theorem Completed.concat {m : Input × BgpMessage} (h : s.Completed l)
    (hm : ¬ (m.2.header.msgType = .notification ∧ Processed m.2)) : s.Completed (l ++ [m]) := by
  obtain ⟨a, o, b, k, c, rfl, ho, hk, hbefore, hafter, hc⟩ := h
  refine ⟨a, o, b, k, c ++ [m], by simp, ho, hk, hbefore, hafter, ?_⟩
  rw [List.forall_mem_append, List.forall_mem_singleton]
  exact ⟨hc, hm⟩

theorem process_established (hs : ¬ s.peer.state.Confirmed) (he : (s.process l).peer.state = .established) :
    s.Completed l := by
  induction l using List.reverseRecOn with
  | nil => exact absurd (.inr he) hs
  | append_singleton l m ih =>
    have hlast := he
    rw [process_concat] at he
    rcases handleMessage_state (s.process l) m.1 m.2 with ⟨-, hstate⟩ | ⟨hn, -, hpeer⟩
    · rw [hstate, BgpState.onMessage_eq_established] at he
      rcases he with ⟨hopen, ht⟩ | ⟨hest, ht⟩
      · obtain ⟨o, ⟨a, m', c, rfl, ho, -⟩, -⟩ := process_confirmed hs (.inl hopen)
        refine ⟨a, m', c, m, [], by simp, by simp [ho], ht, by simp [hopen], ?_, by simp⟩
        simpa using hlast
      · exact (ih hest).concat fun hc => ht hc.1
    · rw [hpeer] at he
      exact (ih he).concat fun hc => hn hc.2

theorem process_handshake (addr : SocketAddr) (config : LocalConfig) (rib : Rib) (metrics : Metrics)
    (l : List (Input × BgpMessage)) :
    let s := (handleIncoming addr config rib metrics).process l
    (s.peer.state = .established → (handleIncoming addr config rib metrics).Completed l) ∧
    (s.peer.state = .openConfirm ∨ s.peer.state = .established →
      ∃ o caps, LastOpen l o ∧ Capability.parseFromOpenParams o.optionalParams = some caps ∧
        s.peer.peerRouterId = some o.bgpId ∧ s.peer.peerCapabilities = caps ∧ s.peer.remoteAs = o.myAs.toUInt32 ∧
        s.peer.timers.holdTime = s.peer.negotiatedHoldTime ∧
        s.peer.negotiatedHoldTime = min config.holdTime o.holdTime ∧
        (s.peer.timers.holdTimerStart.isSome ↔ s.peer.negotiatedHoldTime ≠ 0)) := by
  intro s
  have hstart : ¬ (handleIncoming addr config rib metrics).peer.state.Confirmed := by
    rintro (hs | hs) <;> cases hs
  refine ⟨process_established hstart, ?_⟩
  intro hc
  obtain ⟨o, hlast, hterms, hset⟩ := process_confirmed hstart hc
  obtain ⟨caps, hcaps⟩ := Capability.exists_parseFromOpenParams o.optionalParams
  simp only [Peer.terms, Peer.offered, hcaps, Terms.mk.injEq] at hterms
  obtain ⟨hremote, hid, hpeercaps, hhold⟩ := hterms
  refine ⟨o, caps, hlast, hcaps, hid, hpeercaps, hremote, hset.holdTime.trans hhold.symm, hhold, ?_⟩
  rw [hset.armed, hhold]
  exact UInt16.pos_iff_ne_zero

def sampleHandshake : List (Input × BgpMessage) :=
  let openMsg := newWithCapabilities 65001 90 (.new 10 0 0 1) []
  [(sampleInput .timeout, ⟨Header.new .open openMsg.body.length, openMsg.body⟩),
    (sampleInput .timeout, ⟨Header.new .keepalive 0, []⟩)]

theorem process_handshake_sample :
    (sampleSession.process sampleHandshake).peer.state = .established ∧
      sampleSession.Completed sampleHandshake := by
  have hs : (sampleSession.process sampleHandshake).peer.state = .established := by decide
  exact ⟨hs, (process_handshake samplePeer ⟨65000, .new 10 0 0 254, 90⟩ .new {} sampleHandshake).1 hs⟩

end Session

end PathForge.Peering
