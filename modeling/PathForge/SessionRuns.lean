import PathForge.SessionSteps

namespace PathForge.Peering

open Fallible ByteReader Wire Routing

inductive Event where
  | step (i : Input)
  | other (h : Host) (op : RibOp)

namespace Session

def advance (s : Session) : Event → Session
  | .step i => s.step i
  | .other h op => { s with rib := (s.rib.apply h op).getD s.rib }

def run (s : Session) (events : List Event) : Session := events.foldl advance s

theorem run_concat (s : Session) (events : List Event) (e : Event) :
    s.run (events ++ [e]) = (s.run events).advance e := by simp [run]

theorem Ended.advance_step {s : Session} (h : s.Ended) (i : Input) : s.advance (.step i) = s := by
  obtain ⟨how, hp⟩ := h
  simp only [Session.advance, step, hp]

theorem Ended.advance {s : Session} (h : s.Ended) (e : Event) : (s.advance e).Ended := by
  cases e with
  | step i =>
    rw [h.advance_step]
    exact h
  | other host op => exact h

def Foreign (addr : SocketAddr) (events : List Event) : Prop := ∀ h op, Event.other h op ∈ events → op.peer ≠ addr

structure Ours (addr : SocketAddr) (s : Session) : Prop where
  addr : s.peer.addr = addr
  purges : s.purges = []
  rpki : s.rib.rpki.mode = .disabled

theorem Ours.kept {addr : SocketAddr} {s s' : Session} (h : Ours addr s) (hk : Kept s s') : Ours addr s' :=
  ⟨hk.addr.trans h.addr, hk.purges.trans h.purges, by rw [hk.rpki, h.rpki]⟩

theorem Ours.advance {addr : SocketAddr} {s : Session} (h : Ours addr s) (e : Event) :
    Ours addr (s.advance e) := by
  cases e with
  | step i => exact h.kept (step_progress h.rpki).1
  | other host op =>
    refine ⟨h.addr, h.purges, ?_⟩
    rcases ha : s.rib.apply host op with _ | r
    · simpa [Session.advance, ha] using h.rpki
    · simpa [Session.advance, ha, Rib.apply_rpki ha] using h.rpki

theorem Ours.run {addr : SocketAddr} {s : Session} (h : Ours addr s) (events : List Event) :
    Ours addr (s.run events) := by
  induction events using List.reverseRecOn with
  | nil => exact h
  | append_singleton events e ih =>
    rw [run_concat]
    exact ih.advance e

theorem ours_handleIncoming {calls : List (Host × RibOp)} {rib : Rib} (hrib : Rib.new.run calls = some rib)
    (addr : SocketAddr) (config : LocalConfig) (metrics : Metrics) :
    Ours addr (handleIncoming addr config rib metrics) := by
  refine ⟨rfl, rfl, ?_⟩
  change rib.rpki.mode = .disabled
  rw [Rib.run_rpki hrib]
  rfl

section Cleanup

variable {addr : SocketAddr} {s : Session}

def CleanedUp (s : Session) : Prop :=
  s.NoRoutes ∨ ((∀ k r, s.rib.route s.peer.addr k = some r → r.stale = true) ∧ ∃ t, (s.peer.addr, t) ∈ s.purges)

theorem Ours.noRoutes_of_cleanedUp (h : Ours addr s) (hc : s.CleanedUp) : s.NoRoutes := by
  rcases hc with hc | ⟨-, t, ht⟩
  · exact hc
  · rw [h.purges] at ht
    simp at ht

theorem Kept.noRoutes_iff {s' : Session} (hk : Kept s s') (hr : s'.rib = s.rib) : s'.NoRoutes ↔ s.NoRoutes := by
  rw [NoRoutes, NoRoutes, hk.addr, hr]

theorem NoRoutes.other (h : s.NoRoutes) {host : Host} {op : RibOp} (hp : op.peer ≠ s.peer.addr) :
    (s.advance (.other host op)).NoRoutes := by
  intro k
  rcases ha : s.rib.apply host op with _ | r
  · simpa [advance, ha] using h k
  · simpa [advance, ha, Rib.apply_route_of_ne hp.symm ha] using h k

theorem NoRoutes.run (hs : Ours addr s) (he : s.Ended) (h : s.NoRoutes) {events : List Event}
    (hf : Foreign addr events) : (s.run events).NoRoutes := by
  induction events generalizing s with
  | nil => exact h
  | cons e events ih =>
    have hf' : Foreign addr events := fun host op hmem => hf host op (List.mem_cons_of_mem e hmem)
    apply ih (hs.advance e) (he.advance e) _ hf'
    cases e with
    | step i =>
      rw [he.advance_step]
      exact h
    | other host op =>
      apply h.other
      rw [hs.addr]
      exact hf host op List.mem_cons_self

/-- From the step that ends the session on, and until another task works for its address, the Rib is clean. -/
def EndsClean (addr : SocketAddr) (s : Session) (events : List Event) : Prop :=
  ∀ before i since after, events = before ++ .step i :: (since ++ after) → ¬ (s.run before).Ended →
    ((s.run before).step i).Ended → Foreign addr since → (((s.run before).step i).run since).CleanedUp

theorem ended_cleanedUp_iff {calls : List (Host × RibOp)} {rib : Rib} (hrib : Rib.new.run calls = some rib)
    (addr : SocketAddr) (config : LocalConfig) (metrics : Metrics) (events : List Event) :
    let s := handleIncoming addr config rib metrics
    s.EndsClean addr events ↔
      ∀ before i after, events = before ++ .step i :: after → (s.run before).Abrupt i →
        (s.run before).NoRoutes := by
  intro s
  have hs : Ours addr s := ours_handleIncoming hrib addr config metrics
  constructor
  · intro hall before i after he ha
    have ho := hs.run before
    obtain ⟨hk, hprog⟩ := step_progress (i := i) ho.rpki
    have hclean := hall before i [] after he ha.not_ended
    cases hprog with
    | goesOn hn _ => exact absurd ha hn
    | cleanEnd hn _ _ => exact absurd ha hn
    | abruptEnd _ how hend _ hr =>
      have hc := hclean ⟨how, hend⟩ fun _ _ hmem => nomatch hmem
      exact (hk.noRoutes_iff hr).mp ((ho.kept hk).noRoutes_of_cleanedUp hc)
    | already hover _ => exact absurd hover ha.not_ended
  · intro hc before i since after he hn hend hf
    have ho := hs.run before
    obtain ⟨hk, hprog⟩ := step_progress (i := i) ho.rpki
    apply Or.inl
    apply NoRoutes.run (ho.kept hk) hend _ hf
    cases hprog with
    | goesOn _ hgo => exact absurd hend hgo
    | cleanEnd _ _ hr => exact hr
    | abruptEnd ha _ _ _ hr => exact (hk.noRoutes_iff hr).mpr (hc before i _ he ha)
    | already hover _ => exact absurd hover hn

end Cleanup

section Samples

def samplePeer : SocketAddr := .v4 (.new 10 0 0 1) 40000

def sampleKey : PrefixKey := ⟨.new 192 168 1 0, 24⟩

def sampleSession : Session := handleIncoming samplePeer ⟨65000, .new 10 0 0 254, 90⟩ .new {}

def sampleStream : Bytes :=
  (newWithCapabilities 65001 90 (.new 10 0 0 1) [.gracefulRestart 120 0]).serialize ++
    KeepaliveMessage.serialize ⟨⟩ ++ ((Header.new .update 8).serialize ++ [0, 0, 0, 0, 24, 192, 168, 1])

def sampleInput (read : ReadResult) : Input := ⟨⟨fun n => n, fun _ _ p => p, .listed, .listed⟩, true, read⟩

def sampleEvents : List Event :=
  [.step (sampleInput .timeout), .step (sampleInput (.ok sampleStream)), .step (sampleInput .timeout),
    .step (sampleInput .timeout), .step (sampleInput .timeout), .step (sampleInput .timeout)]

theorem readError_not_cleanedUp :
    (sampleSession.run (sampleEvents ++ [.step (sampleInput .err)])).phase = .ended .readError ∧
      ¬ (sampleSession.run (sampleEvents ++ [.step (sampleInput .err)])).CleanedUp := by
  refine ⟨by decide, ?_⟩
  have hr : ((sampleSession.run (sampleEvents ++ [.step (sampleInput .err)])).rib.route samplePeer
      sampleKey).isSome := by
    decide
  have hp : (sampleSession.run (sampleEvents ++ [.step (sampleInput .err)])).purges = [] := by decide
  rintro (hn | ⟨-, t, ht⟩)
  · have hnone := hn sampleKey
    rw [show (sampleSession.run (sampleEvents ++ [.step (sampleInput .err)])).peer.addr = samplePeer
      by decide] at hnone
    rw [hnone] at hr
    cases hr
  · rw [hp] at ht
    cases ht

theorem ended_cleanedUp_iff_closed :
    let events := sampleEvents ++ [.step (sampleInput (.ok []))]
    sampleSession.EndsClean samplePeer events ↔
      ∀ before i after, events = before ++ .step i :: after →
        (sampleSession.run before).Abrupt i → (sampleSession.run before).NoRoutes :=
  ended_cleanedUp_iff (show Rib.new.run [] = some .new from rfl) samplePeer ⟨65000, .new 10 0 0 254, 90⟩ {} _

end Samples

section GracefulRestart

structure Graceful (s s' : Session) : Prop where
  stale : ∀ k r, s.rib.route s.peer.addr k = some r → s'.rib.route s.peer.addr k = some { r with stale := true }
  best : ∀ k, (s'.rib.locRib.lookup k).map Route.peerAddr = (s.rib.locRib.lookup k).map Route.peerAddr
  purge : ∃ t f, .gracefulRestart t f ∈ s.peer.peerCapabilities ∧ (s.peer.addr, t) ∈ s'.purges

/-- When the peer of an established session that announced graceful restart closes the connection, its routes
are removed at once: the state has left Established before it is looked at. -/
theorem close_not_graceful {calls : List (Host × RibOp)} {rib : Rib} (hrib : Rib.new.run calls = some rib)
    (addr : SocketAddr) (config : LocalConfig) (metrics : Metrics) (events : List Event) (i : Input) :
    let s := (handleIncoming addr config rib metrics).run events
    s.peer.state = .established → (∃ t f, .gracefulRestart t f ∈ s.peer.peerCapabilities) → ¬ s.Ended →
      (s.step i).phase = .ended .closed → ¬ Graceful s (s.step i) ∧ (s.step i).NoRoutes := by
  intro s _ _ hn hc
  have ho : Ours addr s := (ours_handleIncoming hrib addr config metrics).run events
  obtain ⟨hk, hprog⟩ := step_progress (i := i) ho.rpki
  constructor
  · intro hg
    obtain ⟨t, f, -, ht⟩ := hg.purge
    rw [hk.purges, ho.purges] at ht
    cases ht
  · cases hprog with
    | goesOn _ hp => exact absurd ⟨_, hc⟩ hp
    | cleanEnd _ _ hr => exact hr
    | abruptEnd _ how he hw _ =>
      rw [hc] at he
      exact absurd (Phase.ended.inj he).symm hw
    | already he _ => exact absurd he hn

theorem close_not_graceful_sample :
    (sampleSession.run sampleEvents).peer.state = .established ∧
      ((sampleSession.run sampleEvents).rib.route samplePeer sampleKey).isSome ∧
      ¬ Graceful (sampleSession.run sampleEvents) ((sampleSession.run sampleEvents).step (sampleInput (.ok []))) ∧
      ((sampleSession.run sampleEvents).step (sampleInput (.ok []))).NoRoutes := by
  have hw : (sampleSession.run sampleEvents).phase = .waiting := by decide
  have hn : ¬ (sampleSession.run sampleEvents).Ended := by
    rintro ⟨how, he⟩
    rw [hw] at he
    cases he
  have hs : (sampleSession.run sampleEvents).peer.state = .established := by decide
  refine ⟨hs, by decide, ?_⟩
  exact close_not_graceful (show Rib.new.run [] = some .new from rfl) samplePeer ⟨65000, .new 10 0 0 254, 90⟩
    {} sampleEvents
    (sampleInput (.ok [])) hs ⟨120, 0, by decide⟩ hn (by decide)

theorem close_removes_route :
    (sampleSession.run sampleEvents).peer.state = .established ∧
      .gracefulRestart 120 0 ∈ (sampleSession.run sampleEvents).peer.peerCapabilities ∧
      ((sampleSession.run sampleEvents).rib.route samplePeer sampleKey).isSome ∧
      ((sampleSession.run sampleEvents).step (sampleInput (.ok []))).phase = .ended .closed ∧
      ((sampleSession.run sampleEvents).step (sampleInput (.ok []))).rib.route samplePeer sampleKey = none ∧
      ((sampleSession.run sampleEvents).step (sampleInput (.ok []))).purges = [] := by decide

end GracefulRestart

end Session

end PathForge.Peering
