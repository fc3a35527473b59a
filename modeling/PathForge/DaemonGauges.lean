import PathForge.DaemonRuns
import PathForge.StaleSweep

namespace PathForge.Peering

open Tables History Session Fallible ByteReader Wire Routing

namespace Daemon

variable {d : Daemon} {j : ℕ} {i : Input} {t : Task}

section SessionsActive

/-- The step keeps the gauge of active sessions right: a session starts while the gauge has room, one that
still counts takes none of the exits that leave the gauge alone, and none sets the gauge to zero while another
counts. -/
def KeepsActive (d : Daemon) : Action → Prop
  | .start _ _ => d.live + 1 < 2 ^ 64
  | .step j i => ∀ t, d.tasks[j]? = some t →
    (t.live = true → ¬ (d.session t).Abrupt i) ∧
      ((d.session t).Leaves i → ∀ other ∈ d.tasks.eraseIdx j, other.live = false)
  | .purge _ _ => True

theorem countP_set (h : d.tasks[j]? = some t) (t' : Task) :
    (d.tasks.set j t').countP Task.live = (d.tasks.eraseIdx j).countP Task.live + if t'.live then 1 else 0 := by
  obtain ⟨hj, -⟩ := List.getElem?_eq_some_iff.mp h
  rw [List.set_eq_take_append_cons_drop, if_pos hj, List.eraseIdx_eq_take_drop_succ, List.countP_append,
    List.countP_append, List.countP_cons]
  omega

theorem live_eq (h : d.tasks[j]? = some t) :
    d.live = (d.tasks.eraseIdx j).countP Task.live + if t.live then 1 else 0 := by
  obtain ⟨hj, rfl⟩ := List.getElem?_eq_some_iff.mp h
  have hset := countP_set h d.tasks[j]
  rwa [List.set_getElem_self] at hset

theorem live_act (h : d.tasks[j]? = some t) :
    (d.act (.step j i)).live = (d.tasks.eraseIdx j).countP Task.live +
      if (((d.session t).step i).task (t.notified || ((d.session t).notices i).isSome)).live then 1 else 0 := by
  rw [← countP_set h, act_step_some h]
  rfl

theorem start_keepsActive (hP : d.metrics.sessionsActive.toNat = d.live) (addr : SocketAddr)
    (config : LocalConfig) :
    (d.act (.start addr config)).metrics.sessionsActive.toNat = (d.act (.start addr config)).live ↔
      d.live + 1 < 2 ^ 64 := by
  have hlive : (d.act (.start addr config)).live = d.live + 1 := by
    simp [act, live, Session.task, Session.handleIncoming, Task.live, Phase.isEnded]
  have hactive : (d.act (.start addr config)).metrics.sessionsActive = d.metrics.sessionsActive + 1 := rfl
  rw [hlive, hactive, UInt64.toNat_add, hP]
  simp

theorem live_kept (hl : ¬ (d.session t).Leaves i) (he : ((d.session t).step i).Ended ↔ (d.session t).Ended) :
    (((d.session t).step i).task (t.notified || ((d.session t).notices i).isSome)).live = t.live := by
  have hn : ((d.session t).notices i).isSome = false := by
    rw [Bool.eq_false_iff]
    exact fun hn => hl (.inr hn)
  have hphase : ((d.session t).step i).phase.isEnded = t.phase.isEnded := by
    rw [Bool.eq_iff_iff, ← Session.ended_iff, he, Session.ended_iff]
    rfl
  simp only [Task.live, Session.task, hn, Bool.or_false, hphase]

theorem live_lost (he : ((d.session t).notices i).isSome ∨ ((d.session t).step i).Ended) :
    (((d.session t).step i).task (t.notified || ((d.session t).notices i).isSome)).live = false := by
  rw [Session.ended_iff] at he
  rcases he with hn | he
  · simp [Task.live, Session.task, hn]
  · simp [Task.live, Session.task, he]

theorem step_keepsActive (hm : d.rib.rpki.mode = .disabled) (hP : d.metrics.sessionsActive.toNat = d.live)
    (ht : d.tasks[j]? = some t) :
    (d.act (.step j i)).metrics.sessionsActive.toNat = (d.act (.step j i)).live ↔
      (t.live = true → ¬ (d.session t).Abrupt i) ∧
        ((d.session t).Leaves i → ∀ other ∈ d.tasks.eraseIdx j, other.live = false) := by
  have hmetrics : (d.act (.step j i)).metrics = ((d.session t).step i).metrics := by rw [act_step_some ht]
  rw [hmetrics, live_act ht]
  rw [live_eq ht] at hP
  cases Session.step_effect (s := d.session t) (i := i) hm with
  | quiet ha hl hu he =>
    rw [hu.sessionsActive, live_kept hl he]
    exact iff_of_true hP ⟨fun _ => ha, fun h => absurd h hl⟩
  | refreshed ha hl hr he =>
    rw [hr.sessionsActive, live_kept hl he]
    exact iff_of_true hP ⟨fun _ => ha, fun h => absurd h hl⟩
  | abrupt ha hl hu he =>
    have hsame : (d.session t).metrics.sessionsActive.toNat = _ := hP
    rw [hu.sessionsActive, live_lost (.inr he), hsame]
    cases hlive : t.live <;> simp [ha, hl]
  | leaves ha hl hw he =>
    rw [hw.sessionsActive, live_lost he]
    simp only [UInt64.toNat_zero, Bool.false_eq_true, ↓reduceIte, Nat.add_zero, ha, not_false_eq_true,
      implies_true, true_and, hl, forall_const]
    rw [eq_comm, List.countP_eq_zero]
    simp

theorem sessionsActive_iff (actions : List Action) :
    Always act (fun d => d.metrics.sessionsActive.toNat = d.live) {} actions ↔
      Each act KeepsActive {} actions := by
  refine always_iff_each reached_new (fun d a hd => hd.act a) rfl fun d a hd hP => ?_
  cases a with
  | start addr config => exact start_keepsActive hP addr config
  | step j i =>
    rcases ht : d.tasks[j]? with _ | t
    · rw [act_step_none ht]
      exact iff_of_true hP (by simp [KeepsActive, ht])
    · rw [step_keepsActive hd.disabled hP ht]
      simp [KeepsActive, ht]
  | purge n host =>
    rcases hn : d.purges[n]? with _ | timer
    · rw [act_purge_none hn]
      exact iff_of_true hP trivial
    · rw [act_purge_some hn]
      exact iff_of_true hP trivial

def sampleConfig : LocalConfig := ⟨65000, .new 10 0 0 254, 90⟩

def closingActions : List Action :=
  [.start samplePeer sampleConfig, .start (.v4 (.new 10 0 0 2) 40000) sampleConfig,
    .step 0 (sampleInput .timeout), .step 0 (sampleInput (.ok []))]

theorem closing_not_sessionsActive :
    (closingActions.foldl act {}).metrics.sessionsActive = 0 ∧ (closingActions.foldl act {}).live = 1 ∧
      ¬ Always act (fun d => d.metrics.sessionsActive.toNat = d.live) {} closingActions := by
  have hactive : (closingActions.foldl act {}).metrics.sessionsActive = 0 := by decide
  have hlive : (closingActions.foldl act {}).live = 1 := by decide
  refine ⟨hactive, hlive, ?_⟩
  intro hall
  have hend : (closingActions.foldl act {}).metrics.sessionsActive.toNat = (closingActions.foldl act {}).live :=
    hall closingActions [] (List.append_nil _).symm
  rw [hactive, hlive] at hend
  cases hend

end SessionsActive

section RoutesLocRib

/-- The step keeps the gauge of the Loc-RIB right: where routes of a peer go without an UPDATE, each of their
prefixes has a route of another peer. -/
def KeepsLocRib (d : Daemon) : Action → Prop
  | .start _ _ => True
  | .step j i => ∀ t, d.tasks[j]? = some t → (d.session t).Leaves i →
    ∀ k, (d.rib.route t.peer.addr k).isSome → ∃ q, q ≠ t.peer.addr ∧ (d.rib.route q k).isSome
  | .purge n _ => ∀ timer, d.purges[n]? = some timer →
    ∀ k r, d.rib.route timer.1 k = some r → r.stale = true → ∃ q, q ≠ timer.1 ∧ (d.rib.route q k).isSome

theorem length_removePeer_iff {r : Rib} (hd : ∀ k, r.Decided k) (h : Host) (p : SocketAddr) :
    (r.removePeer h p).2.locRib.keys.length = r.locRib.keys.length ↔
      ∀ k, (r.route p k).isSome → ∃ q, q ≠ p ∧ (r.route q k).isSome := by
  have ha : r.apply h (.removePeer p) = some (r.removePeer h p).2 := rfl
  have hown (k : PrefixKey) : (r.removePeer h p).2.route p k = (r.route p k).filter fun _ => false := by
    rw [Rib.route_removePeer]
    cases r.route p k <;> rfl
  have hother (q : SocketAddr) (k : PrefixKey) (hq : q ≠ p) : (r.removePeer h p).2.route q k = r.route q k :=
    Rib.apply_route_of_ne hq ha k
  rw [Rib.length_locRib_iff hd (Rib.apply_decided hd ha) hother hown]
  constructor
  · intro hall k hk
    obtain ⟨s, hs⟩ := Option.isSome_iff_exists.mp hk
    exact hall k s hs rfl
  · intro hall k s hs _
    exact hall k (by simp [hs])

theorem length_removeStaleForPeer_iff {r : Rib} (hd : ∀ k, r.Decided k) (h : Host) (p : SocketAddr) :
    (r.removeStaleForPeer h p).2.locRib.keys.length = r.locRib.keys.length ↔
      ∀ k s, r.route p k = some s → s.stale = true → ∃ q, q ≠ p ∧ (r.route q k).isSome := by
  have ha : r.apply h (.removeStaleForPeer p) = some (r.removeStaleForPeer h p).2 := rfl
  have hother (q : SocketAddr) (k : PrefixKey) (hq : q ≠ p) :
      (r.removeStaleForPeer h p).2.route q k = r.route q k :=
    Rib.apply_route_of_ne hq ha k
  rw [Rib.length_locRib_iff hd (Rib.apply_decided hd ha) hother (Rib.route_removeStaleForPeer h r p)]
  simp

theorem step_keepsLocRib (hr : d.Reached) (hP : d.metrics.routesLocRib.toNat = d.rib.locRib.keys.length)
    (ht : d.tasks[j]? = some t) :
    (d.act (.step j i)).metrics.routesLocRib.toNat = (d.act (.step j i)).rib.locRib.keys.length ↔
      ((d.session t).Leaves i →
        ∀ k, (d.rib.route t.peer.addr k).isSome → ∃ q, q ≠ t.peer.addr ∧ (d.rib.route q k).isSome) := by
  rw [act_step_some ht]
  simp only
  cases Session.step_effect (s := d.session t) (i := i) hr.disabled with
  | quiet _ hl hu _ =>
    rw [hu.routesLocRib, hu.rib]
    exact iff_of_true hP fun h => absurd h hl
  | refreshed _ hl hf _ =>
    rw [hf.routesLocRib, UInt64.toNat_ofNat', Nat.mod_eq_of_lt (Rib.length_keys_lt _)]
    exact iff_of_true rfl fun h => absurd h hl
  | abrupt _ hl hu _ =>
    rw [hu.routesLocRib, hu.rib]
    exact iff_of_true hP fun h => absurd h hl
  | leaves _ hl hw _ =>
    have hsame : (d.session t).metrics.routesLocRib.toNat = d.rib.locRib.keys.length := hP
    rw [hw.routesLocRib, hw.rib, hsame, eq_comm, forall_prop_of_true hl]
    exact length_removePeer_iff hr.decided i.host t.peer.addr

theorem routesLocRib_iff (actions : List Action) :
    Always act (fun d => d.metrics.routesLocRib.toNat = d.rib.locRib.keys.length) {} actions ↔
      Each act KeepsLocRib {} actions := by
  refine always_iff_each reached_new (fun d a hd => hd.act a) rfl fun d a hd hP => ?_
  cases a with
  | start addr config => exact iff_of_true hP trivial
  | step j i =>
    rcases ht : d.tasks[j]? with _ | t
    · rw [act_step_none ht]
      exact iff_of_true hP (by simp [KeepsLocRib, ht])
    · rw [step_keepsLocRib hd hP ht]
      simp only [KeepsLocRib, ht, Option.some.injEq, forall_eq']
  | purge n host =>
    rcases hn : d.purges[n]? with _ | timer
    · rw [act_purge_none hn]
      exact iff_of_true hP (by simp [KeepsLocRib, hn])
    · rw [act_purge_some hn]
      simp only [KeepsLocRib, hn, Option.some.injEq, forall_eq']
      rw [hP, eq_comm, length_removeStaleForPeer_iff hd.decided]

def announcingActions : List Action :=
  [.start samplePeer sampleConfig, .step 0 (sampleInput .timeout), .step 0 (sampleInput (.ok sampleStream)),
    .step 0 (sampleInput .timeout), .step 0 (sampleInput .timeout), .step 0 (sampleInput .timeout),
    .step 0 (sampleInput .timeout), .step 0 (sampleInput (.ok []))]

theorem announcing_not_routesLocRib :
    (announcingActions.foldl act {}).metrics.routesLocRib = 1 ∧
      (announcingActions.foldl act {}).rib.locRib.keys.length = 0 ∧
      ¬ Always act (fun d => d.metrics.routesLocRib.toNat = d.rib.locRib.keys.length) {} announcingActions := by
  have hgauge : (announcingActions.foldl act {}).metrics.routesLocRib = 1 := by decide
  have hkeys : (announcingActions.foldl act {}).rib.locRib.keys.length = 0 := by decide
  refine ⟨hgauge, hkeys, ?_⟩
  intro hall
  have hend : (announcingActions.foldl act {}).metrics.routesLocRib.toNat =
      (announcingActions.foldl act {}).rib.locRib.keys.length :=
    hall announcingActions [] (List.append_nil _).symm
  rw [hgauge, hkeys] at hend
  cases hend

end RoutesLocRib

end Daemon

end PathForge.Peering
