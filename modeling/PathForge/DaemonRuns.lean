import PathForge.SharedEffects
import PathForge.LocRibInvariant
import PathForge.RunHistory

namespace PathForge.Peering

open History Fallible ByteReader Wire Routing

def Phase.isEnded : Phase → Bool
  | .ended _ => true
  | _ => false

/-- What a session task has for itself; `notified` notes that it has handled a NOTIFICATION. -/
structure Task where
  peer : Peer
  phase : Phase
  buf : Bytes
  sent : Bytes
  notified : Bool := false

structure Daemon where
  rib : Rib := .new
  metrics : Metrics := {}
  purges : List (SocketAddr × UInt16) := []
  tasks : List Task := []

inductive Action where
  | start (addr : SocketAddr) (config : LocalConfig)
  | step (j : ℕ) (i : Input)
  | purge (n : ℕ) (host : Host)

def Session.task (s : Session) (notified : Bool) : Task := ⟨s.peer, s.phase, s.buf, s.sent, notified⟩

/-- A session is over after a NOTIFICATION too, although its loop goes on. -/
def Task.live (t : Task) : Bool := !t.notified && !t.phase.isEnded

namespace Daemon

def session (d : Daemon) (t : Task) : Session := ⟨t.peer, d.rib, d.metrics, t.phase, t.buf, t.sent, d.purges⟩

def act (d : Daemon) : Action → Daemon
  | .start addr config =>
    let s := Session.handleIncoming addr config d.rib d.metrics
    { d with metrics := s.metrics, tasks := d.tasks ++ [s.task false] }
  | .step j i =>
    match d.tasks[j]? with
    | none => d
    | some t =>
      let s := (d.session t).step i
      ⟨s.rib, s.metrics, s.purges, d.tasks.set j (s.task (t.notified || ((d.session t).notices i).isSome))⟩
  | .purge n host =>
    match d.purges[n]? with
    | none => d
    | some (addr, _) => { d with rib := (d.rib.removeStaleForPeer host addr).2, purges := d.purges.eraseIdx n }

def live (d : Daemon) : ℕ := d.tasks.countP Task.live

end Daemon

theorem Session.ended_iff {s : Session} : s.Ended ↔ s.phase.isEnded = true := by
  unfold Ended
  cases s.phase <;> simp [Phase.isEnded]

namespace Session

variable {i : Input} {s s' : Session}

theorem exists_run_updateRib {h : Host} {p : Peer} {u : UpdateMessage} {rib rib' : Rib}
    (hu : updateRib h p u rib = some rib') : ∃ calls, rib.run calls = some rib' := by
  obtain ⟨rib₁, h₁, he⟩ := Option.bind_eq_some_iff.mp hu
  obtain ⟨calls, hfirst⟩ : ∃ calls, rib.run calls = some rib₁ :=
    ⟨[(h, .processUpdate p.addr p.remoteAs u.nlri u.pathAttributes u.withdrawnRoutes)],
      by simpa [Rib.run, Rib.apply] using h₁⟩
  simp only [Option.pure_def, Option.some.injEq] at he
  split_ifs at he
  · refine ⟨calls ++ [(h, .removeStaleForPeer p.addr)], ?_⟩
    rw [Rib.run_append hfirst, ← he]
    rfl
  · exact ⟨calls, he ▸ hfirst⟩

theorem Effect.exists_run (he : Effect s i s') : ∃ calls, s.rib.run calls = some s'.rib := by
  cases he with
  | quiet _ _ hu _ => exact ⟨[], by rw [hu.rib]; rfl⟩
  | refreshed _ _ hr _ =>
    obtain ⟨h, p, u, hu⟩ := hr.rib
    exact exists_run_updateRib hu
  | abrupt _ _ hu _ => exact ⟨[], by rw [hu.rib]; rfl⟩
  | leaves _ _ hw _ => exact ⟨[(i.host, .removePeer s.peer.addr)], by rw [hw.rib]; rfl⟩

end Session

namespace Daemon

variable {d : Daemon}

def Reached (d : Daemon) : Prop := ∃ calls, Rib.new.run calls = some d.rib

theorem Reached.disabled (h : d.Reached) : d.rib.rpki.mode = .disabled := by
  obtain ⟨calls, hr⟩ := h
  rw [Rib.run_rpki hr]
  rfl

theorem Reached.decided (h : d.Reached) (k : PrefixKey) : d.rib.Decided k := by
  obtain ⟨calls, hr⟩ := h
  exact Rib.run_decided (show (Rib.start {} {}).run calls = some d.rib from hr) k

section Steps

variable {j n : ℕ} {i : Input} {host : Host} {t : Task}

theorem act_step_none (h : d.tasks[j]? = none) : d.act (.step j i) = d := by
  simp only [act, h]

theorem act_step_some (h : d.tasks[j]? = some t) :
    d.act (.step j i) =
      ⟨((d.session t).step i).rib, ((d.session t).step i).metrics, ((d.session t).step i).purges,
        d.tasks.set j (((d.session t).step i).task (t.notified || ((d.session t).notices i).isSome))⟩ := by
  simp only [act, h]

theorem act_purge_none (h : d.purges[n]? = none) : d.act (.purge n host) = d := by
  simp only [act, h]

theorem act_purge_some {timer : SocketAddr × UInt16} (h : d.purges[n]? = some timer) :
    d.act (.purge n host) =
      { d with rib := (d.rib.removeStaleForPeer host timer.1).2, purges := d.purges.eraseIdx n } := by
  simp only [act, h]

end Steps

theorem exists_run_act (hm : d.rib.rpki.mode = .disabled) (a : Action) :
    ∃ calls, d.rib.run calls = some (d.act a).rib := by
  cases a with
  | start addr config => exact ⟨[], rfl⟩
  | step j i =>
    rcases ht : d.tasks[j]? with _ | t
    · rw [act_step_none ht]
      exact ⟨[], rfl⟩
    · rw [act_step_some ht]
      exact (Session.step_effect (s := d.session t) hm).exists_run
  | purge n host =>
    rcases hn : d.purges[n]? with _ | timer
    · rw [act_purge_none hn]
      exact ⟨[], rfl⟩
    · rw [act_purge_some hn]
      exact ⟨[(host, .removeStaleForPeer timer.1)], rfl⟩

theorem Reached.act (h : d.Reached) (a : Action) : (d.act a).Reached := by
  obtain ⟨calls', hr'⟩ := exists_run_act h.disabled a
  obtain ⟨calls, hr⟩ := h
  exact ⟨calls ++ calls', by rw [Rib.run_append hr, hr']⟩

theorem reached_new : ({} : Daemon).Reached := ⟨[], rfl⟩

end Daemon

end PathForge.Peering
