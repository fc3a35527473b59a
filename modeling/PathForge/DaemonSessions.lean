import PathForge.MessageEffects
import PathForge.PeerViews
import PathForge.SessionTerms

namespace PathForge.Peering

open Fallible ByteReader Wire Routing

def OwnCalls (addr : SocketAddr) (r r' : Rib) : Prop :=
  ∃ calls : List (Host × RibOp), r.run calls = some r' ∧
    ∀ c ∈ calls, c.2.peer = addr ∧ ∀ p, c.2 ≠ .markPeerStale p

theorem OwnCalls.refl (addr : SocketAddr) (r : Rib) : OwnCalls addr r r := ⟨[], rfl, by simp⟩

namespace Session

variable {i : Input} {s t : Session} {msg : BgpMessage}

theorem step_ownCalls (hm : s.rib.rpki.mode = .disabled) : OwnCalls s.peer.addr s.rib (s.step i).rib := by
  by_cases he : s.Ended
  · rw [show s.step i = s from he.advance_step i]
    exact .refl _ _
  · obtain ⟨calls, hrun, hops, -⟩ := step_asks (i := i) hm he
    refine ⟨calls, hrun, ?_⟩
    intro c hc
    have hmem : c.2 ∈ calls.map Prod.snd := List.mem_map_of_mem hc
    rw [hops, List.mem_append] at hmem
    rcases hmem with hmem | hmem
    · cases ht : s.taken (.step i) with
      | none =>
        rw [ht] at hmem
        cases hmem
      | some msg =>
        rw [ht] at hmem
        exact asksOf_peer hmem
    · exact Phase.asks_peer hmem

section Core

/-- The session without what it shares with the other tasks and never reads: the metrics and the spawned
timers. -/
def core (s : Session) : Session := { s with metrics := {}, purges := [] }

theorem core_congr {f : Session → Session} (hf : ∀ s, (f s.core).core = (f s).core) (h : s.core = t.core) :
    (f s).core = (f t).core := by rw [← hf s, h, hf]

theorem core_handleDisconnect (i : Input) (s : Session) :
    (s.core.handleDisconnect i).core = (s.handleDisconnect i).core := by
  unfold handleDisconnect core
  simp only
  split_ifs <;> rfl

theorem core_disconnected (h : s.core = t.core) (p : Phase) :
    ({ s.handleDisconnect i with phase := p } : Session).core =
      ({ t.handleDisconnect i with phase := p } : Session).core :=
  congrArg (fun u : Session => { u with phase := p }) (core_congr (core_handleDisconnect i) h)

theorem core_receive (i : Input) (s : Session) : (s.core.receive i).core = (s.receive i).core := by
  unfold receive
  rcases i.read with (_ | ⟨x, data⟩) | _ | _
  · let closed (u : Session) : Session :=
      { u with peer := u.peer.transition .tcpConnectionFail, metrics := { u.metrics with sessionsActive := 0 } }
    exact core_disconnected (s := closed s.core) (t := closed s) rfl _
  · rfl
  · rfl
  · rfl

theorem core_expire (i : Input) (s : Session) : (s.core.expire i).core = (s.expire i).core := by
  let expired (u : Session) : Session :=
    { u with
      peer := u.peer.transition .holdTimerExpired,
      sent := if i.writeOk then u.sent ++ NotificationMessage.holdTimerExpired.serialize else u.sent,
      metrics := { u.metrics with
                   holdTimerExpirations := u.metrics.holdTimerExpirations + 1,
                   messagesTxNotification := u.metrics.messagesTxNotification + 1,
                   sessionsFailed := u.metrics.sessionsFailed + 1, sessionsActive := 0 } }
  exact core_disconnected (s := expired s.core) (t := expired s) rfl _

theorem core_wait (i : Input) (s : Session) : (s.core.wait i).core = (s.wait i).core := by
  have hdue : s.core.keepaliveNow = s.keepaliveNow := rfl
  simp only [wait, show s.core.peer = s.peer from rfl, hdue]
  split_ifs
  · exact core_expire i s
  · exact core_congr (core_receive i) rfl
  · rfl
  · exact core_receive i s

theorem core_countRx (m : MessageType) (s : Session) : (s.core.countRx m).core = (s.countRx m).core := by
  cases m <;> rfl

structure SameOutcome (r r' : Outcome × Session) : Prop where
  outcome : r.1 = r'.1
  core : r.2.core = r'.2.core

theorem withBody_sameOutcome {α : Type} (r : Option (Except MessageError α)) {k k' : α → Outcome × Session}
    (h : s.core = t.core) (hk : ∀ a, SameOutcome (k a) (k' a)) :
    SameOutcome (s.withBody r k) (t.withBody r k') := by
  rcases r with _ | ⟨e | a⟩
  · exact ⟨rfl, h⟩
  · exact ⟨rfl, h⟩
  · exact hk a

theorem core_handleOpen (i : Input) (o : OpenMessage) (caps : List Capability) (s : Session) :
    SameOutcome (s.core.handleOpen i o caps) (s.handleOpen i o caps) := by
  unfold handleOpen
  simp only
  split_ifs <;> exact ⟨rfl, rfl⟩

theorem core_handleKeepalive (i : Input) (s : Session) :
    (s.core.handleKeepalive i).core = (s.handleKeepalive i).core := by
  simp only [handleKeepalive, show s.core.peer = s.peer from rfl]
  split_ifs <;> rfl

theorem core_handleUpdate (i : Input) (u : UpdateMessage) (s : Session) :
    SameOutcome (s.core.handleUpdate i u) (s.handleUpdate i u) := by
  simp only [handleUpdate, show s.core.peer = s.peer from rfl, show s.core.rib = s.rib from rfl]
  split <;> exact ⟨rfl, rfl⟩

theorem core_handleMessage (i : Input) (msg : BgpMessage) (s : Session) :
    SameOutcome (s.core.handleMessage i msg) (s.handleMessage i msg) := by
  have hcount := core_countRx msg.header.msgType s
  simp only [handleMessage]
  generalize s.core.countRx msg.header.msgType = t at hcount
  generalize s.countRx msg.header.msgType = u at hcount
  cases msg.header.msgType with
  | «open» =>
    apply withBody_sameOutcome _ hcount
    intro o
    obtain ⟨caps, hcaps⟩ := Capability.exists_parseFromOpenParams o.optionalParams
    rw [hcaps]
    have ht := core_handleOpen i o caps t
    have hu := core_handleOpen i o caps u
    rw [hcount] at ht
    exact ⟨ht.outcome.symm.trans hu.outcome, ht.core.symm.trans hu.core⟩
  | keepalive => exact ⟨rfl, core_congr (core_handleKeepalive i) hcount⟩
  | update =>
    apply withBody_sameOutcome _ hcount
    intro m
    have ht := core_handleUpdate i m t
    have hu := core_handleUpdate i m u
    rw [hcount] at ht
    exact ⟨ht.outcome.symm.trans hu.outcome, ht.core.symm.trans hu.core⟩
  | notification =>
    apply withBody_sameOutcome _ hcount
    exact fun _ => ⟨rfl, core_congr (f := fun s => s.handleNotification i) (fun _ => rfl) hcount⟩
  | routeRefresh => exact ⟨rfl, hcount⟩

theorem core_drain (i : Input) (s : Session) : (s.core.drain i).core = (s.drain i).core := by
  obtain ⟨r, buf, hr, -⟩ := BgpMessage.incremental_parse s.buf
  simp only [drain, show s.core.buf = s.buf from rfl, hr]
  rcases r with e | _ | msg
  · rfl
  · rfl
  · have hm : SameOutcome (({ s.core with buf := buf } : Session).handleMessage i msg)
        (({ s with buf := buf } : Session).handleMessage i msg) := core_handleMessage i msg { s with buf := buf }
    simp only [hm.outcome]
    cases (({ s with buf := buf } : Session).handleMessage i msg).1.ending with
    | none => exact hm.core
    | some how => exact congrArg (fun t : Session => { t with phase := .ended how }) hm.core

theorem core_step (i : Input) (s : Session) : (s.core.step i).core = (s.step i).core := by
  simp only [step, show s.core.phase = s.phase from rfl]
  cases s.phase with
  | opening =>
    simp only [sendOpen]
    split_ifs <;> rfl
  | waiting => exact core_wait i s
  | draining => exact core_drain i s
  | ended how => rfl

end Core

section Others

def Event.input : Event → Option Input
  | .step i => some i
  | .other _ _ => none

def others (calls : List (Host × RibOp)) : List Event := calls.map fun c => .other c.1 c.2

theorem filterMap_others (calls : List (Host × RibOp)) : (others calls).filterMap Event.input = [] := by
  rw [others, List.filterMap_map, List.filterMap_eq_nil_iff]
  exact fun _ _ => rfl

theorem run_others {calls : List (Host × RibOp)} {r : Rib} (h : s.rib.run calls = some r) :
    s.run (others calls) = { s with rib := r } := by
  induction calls generalizing s with
  | nil =>
    obtain rfl := Option.some.inj h
    rfl
  | cons c calls ih =>
    rw [Rib.run, List.foldlM_cons] at h
    obtain ⟨u, hu, h⟩ := Option.bind_eq_some_iff.mp h
    have hadvance : s.advance (.other c.1 c.2) = { s with rib := u } := by
      simp only [advance, hu, Option.getD_some]
    change (s.advance (.other c.1 c.2)).run (others calls) = _
    rw [hadvance]
    exact ih h

theorem run_append (s : Session) (events events' : List Event) :
    s.run (events ++ events') = (s.run events).run events' := List.foldl_append

end Others

end Session

namespace Daemon

open Session

variable {d : Daemon}

structure Running (d : Daemon) : Prop where
  reached : d.Reached
  purges : d.purges = []

theorem Running.act (h : d.Running) (a : Action) : (d.act a).Running := by
  refine ⟨h.reached.act a, ?_⟩
  cases a with
  | start addr config => exact h.purges
  | step j i =>
    rcases ht : d.tasks[j]? with _ | t
    · rw [act_step_none ht]
      exact h.purges
    · rw [act_step_some ht]
      exact (step_progress (s := d.session t) h.reached.disabled).1.purges.trans h.purges
  | purge n host =>
    rw [act_purge_none (by simp [h.purges])]
    exact h.purges

theorem running_foldl (actions : List Action) : (actions.foldl act {}).Running :=
  History.foldl_invariant (I := Running) ⟨reached_new, rfl⟩ (fun _ a h => h.act a) actions

theorem Running.act_purge (h : d.Running) (n : ℕ) (host : Host) : d.act (.purge n host) = d :=
  act_purge_none (by simp [h.purges])

def addrs (d : Daemon) : List SocketAddr := d.tasks.map fun t => t.peer.addr

theorem addrs_step (d : Daemon) (j : ℕ) (i : Input) : (d.act (.step j i)).addrs = d.addrs := by
  rcases ht : d.tasks[j]? with _ | t
  · rw [act_step_none ht]
  · have haddr : ((d.session t).step i).peer.addr = t.peer.addr :=
      ((d.session t).advance_follows (.step i)).addr
    obtain ⟨hj, rfl⟩ := List.getElem?_eq_some_iff.mp ht
    rw [act_step_some ht]
    simp only [addrs, List.map_set, Session.task, haddr]
    apply List.ext_getElem (by simp)
    intro n hn hn'
    rw [List.getElem_set]
    split_ifs with he
    · subst he
      simp
    · rfl

theorem addrs_purge (d : Daemon) (n : ℕ) (host : Host) : (d.act (.purge n host)).addrs = d.addrs := by
  rcases hn : d.purges[n]? with _ | timer
  · rw [act_purge_none hn]
  · rw [act_purge_some hn]
    rfl

theorem addrs_start (d : Daemon) (addr : SocketAddr) (config : LocalConfig) :
    (d.act (.start addr config)).addrs = d.addrs ++ [addr] := by
  simp only [addrs, act, List.map_append]
  rfl

theorem addrs_act (d : Daemon) (a : Action) : d.addrs <+: (d.act a).addrs := by
  cases a with
  | start addr config =>
    rw [addrs_start]
    exact List.prefix_append _ _
  | step j i => rw [addrs_step]
  | purge n host => rw [addrs_purge]

theorem sameView_new (actions : List Action) {p : SocketAddr} (hp : p ∉ (actions.foldl act {}).addrs) :
    Rib.SameView p (actions.foldl act {}).rib .new := by
  induction actions using List.reverseRecOn with
  | nil => exact .refl p _
  | append_singleton actions a ih =>
    rw [List.foldl_append, List.foldl_cons, List.foldl_nil] at hp ⊢
    have hbefore : p ∉ (actions.foldl act {}).addrs := fun hmem => hp ((addrs_act _ a).subset hmem)
    cases a with
    | start addr config => exact ih hbefore
    | step j i =>
      rcases ht : (actions.foldl act {}).tasks[j]? with _ | t
      · rw [act_step_none ht]
        exact ih hbefore
      · rw [act_step_some ht]
        obtain ⟨calls, hrun, hcalls⟩ := step_ownCalls (s := (actions.foldl act {}).session t) (i := i)
          (running_foldl actions).reached.disabled
        have haddr : t.peer.addr ∈ (actions.foldl act {}).addrs := List.mem_map_of_mem (List.mem_of_getElem? ht)
        refine foldlM_invariant_mem (I := fun r : Rib => Rib.SameView p r .new) ?_ (ih hbefore) hrun
        intro r c hc r' hv ha
        have hne : p ≠ c.2.peer := by
          rintro rfl
          rw [(hcalls c hc).1] at hbefore
          exact hbefore haddr
        exact (Rib.apply_frame ha hne).symm.trans hv
    | purge n host =>
      rw [(running_foldl actions).act_purge n host]
      exact ih hbefore

def inputs (j : ℕ) (actions : List Action) : List Input :=
  actions.filterMap fun
    | .step k i => if k = j then some i else none
    | .start _ _ | .purge _ _ => none

def ForeignTo (d : Daemon) (j : ℕ) (events : List Event) : Prop :=
  ∀ h op, Event.other h op ∈ events → ∃ n, n ≠ j ∧ d.addrs[n]? = some op.peer

theorem ForeignTo.act {j : ℕ} {events : List Event} (h : d.ForeignTo j events) (a : Action) :
    (d.act a).ForeignTo j events := by
  intro host op hmem
  obtain ⟨n, hn, hpeer⟩ := h host op hmem
  obtain ⟨t, ht⟩ := d.addrs_act a
  exact ⟨n, hn, by rw [← ht, List.getElem?_append_left (List.getElem?_eq_some_iff.mp hpeer).1, hpeer]⟩

/-- What the task has done since its connection came in is a run of its session, between whose steps the other
tasks have made their calls. -/
structure Projected (actions : List Action) (j : ℕ) (t : Task) (before : List Action) (addr : SocketAddr)
    (config : LocalConfig) (after : List Action) (events : List Event) : Prop where
  started : actions = before ++ .start addr config :: after
  index : (before.foldl act {}).tasks.length = j
  inputs : events.filterMap Event.input = inputs j after
  foreign : (actions.foldl act {}).ForeignTo j events
  session : ((handleIncoming addr config (before.foldl act {}).rib (before.foldl act {}).metrics).run
    events).core =
    ((actions.foldl act {}).session t).core

theorem inputs_concat (j : ℕ) (actions : List Action) (a : Action) :
    inputs j (actions ++ [a]) = inputs j actions ++ inputs j [a] := List.filterMap_append

section Project

variable {actions before after : List Action} {j k : ℕ} {t u : Task} {addr : SocketAddr} {config : LocalConfig}
  {events : List Event} {i : Input}

theorem Projected.idle (h : Projected actions j t before addr config after events) {a : Action}
    (hinputs : Daemon.inputs j [a] = [])
    (hsession : (((actions ++ [a]).foldl act {}).session t).core = ((actions.foldl act {}).session t).core) :
    Projected (actions ++ [a]) j t before addr config (after ++ [a]) events where
  started := by rw [h.started, List.append_assoc, List.cons_append]
  index := h.index
  inputs := by rw [inputs_concat, hinputs, List.append_nil, h.inputs]
  foreign := by
    rw [List.foldl_append]
    exact h.foreign.act a
  session := h.session.trans hsession.symm

theorem Projected.own (h : Projected actions j u before addr config after events)
    (hu : (actions.foldl act {}).tasks[j]? = some u) :
    Projected (actions ++ [.step j i]) j ((((actions.foldl act {}).session u).step i).task
      (u.notified || (((actions.foldl act {}).session u).notices i).isSome)) before addr config
      (after ++ [.step j i]) (events ++ [.step i]) where
  started := by rw [h.started, List.append_assoc, List.cons_append]
  index := h.index
  inputs := by
    rw [inputs_concat, List.filterMap_append, h.inputs]
    simp [Daemon.inputs, Event.input]
  foreign := by
    rw [List.foldl_append, List.foldl_cons, List.foldl_nil]
    intro host op hmem
    rw [List.mem_append, List.mem_singleton] at hmem
    exact h.foreign.act _ host op (hmem.resolve_right (by simp))
  session := by
    rw [run_concat, List.foldl_append, List.foldl_cons, List.foldl_nil, act_step_some hu]
    exact core_congr (core_step i) h.session

theorem Projected.other (h : Projected actions j t before addr config after events) (hk : k ≠ j)
    (hu : (actions.foldl act {}).tasks[k]? = some u) :
    ∃ events', Projected (actions ++ [.step k i]) j t before addr config (after ++ [.step k i]) events' := by
  obtain ⟨calls, hrun, hcalls⟩ := step_ownCalls (s := (actions.foldl act {}).session u) (i := i)
    (running_foldl actions).reached.disabled
  refine ⟨events ++ others calls, ?_, h.index, ?_, ?_, ?_⟩
  · rw [h.started, List.append_assoc, List.cons_append]
  · rw [inputs_concat, List.filterMap_append, filterMap_others, List.append_nil, h.inputs]
    simp [Daemon.inputs, hk]
  · rw [List.foldl_append, List.foldl_cons, List.foldl_nil]
    intro host op hmem
    rcases List.mem_append.mp hmem with hmem | hmem
    · exact h.foreign.act _ host op hmem
    · obtain ⟨c, hc, he⟩ := List.mem_map.mp hmem
      obtain ⟨rfl, rfl⟩ := Event.other.inj he
      have hold : (actions.foldl act {}).ForeignTo j [.other c.1 c.2] := by
        intro host op hmem
        obtain ⟨rfl, rfl⟩ := Event.other.inj (List.mem_singleton.mp hmem)
        refine ⟨k, hk, ?_⟩
        rw [addrs, List.getElem?_map, hu, Option.map_some, (hcalls c hc).1]
        rfl
      exact hold.act _ c.1 c.2 List.mem_cons_self
  · have hrib := congrArg Session.rib h.session
    replace hrib : ((handleIncoming addr config (before.foldl act {}).rib (before.foldl act {}).metrics).run
        events).rib =
        ((actions.foldl act {}).session u).rib := hrib
    rw [← hrib] at hrun
    rw [run_append, run_others hrun, List.foldl_append, List.foldl_cons, List.foldl_nil, act_step_some hu]
    exact congrArg (fun s : Session => { s with rib := (((actions.foldl act {}).session u).step i).rib }) h.session

theorem exists_projected (actions : List Action) {j : ℕ} {t : Task}
    (ht : (actions.foldl act {}).tasks[j]? = some t) :
    ∃ before addr config after events, Projected actions j t before addr config after events := by
  induction actions using List.reverseRecOn generalizing t with
  | nil => cases ht
  | append_singleton actions a ih =>
    rw [List.foldl_append, List.foldl_cons, List.foldl_nil] at ht
    cases a with
    | start addr config =>
      simp only [act, List.getElem?_append] at ht
      split_ifs at ht with hj
      · obtain ⟨before, addr', config', after, events, h⟩ := ih ht
        refine ⟨before, addr', config', _, events, h.idle rfl ?_⟩
        rw [List.foldl_append]
        rfl
      · have hlast : j - (actions.foldl act {}).tasks.length = 0 := by
          by_contra hne
          rw [List.getElem?_eq_none (by simp; omega)] at ht
          cases ht
        rw [hlast] at ht
        obtain rfl := Option.some.inj ht
        refine ⟨actions, addr, config, [], [], ⟨rfl, by omega, rfl, ?_, ?_⟩⟩
        · simp [ForeignTo]
        · rw [List.foldl_append]
          rfl
    | step k i =>
      rcases hu : (actions.foldl act {}).tasks[k]? with _ | u
      · rw [act_step_none hu] at ht
        obtain ⟨before, addr, config, after, events, h⟩ := ih ht
        have hk : k ≠ j := by
          rintro rfl
          rw [ht] at hu
          cases hu
        refine ⟨before, addr, config, _, events, h.idle (by simp [inputs, hk]) ?_⟩
        rw [List.foldl_append, List.foldl_cons, List.foldl_nil, act_step_none hu]
      · by_cases hk : k = j
        · subst hk
          obtain ⟨before, addr, config, after, events, h⟩ := ih hu
          have hlen := (List.getElem?_eq_some_iff.mp hu).1
          rw [act_step_some hu] at ht
          simp only [List.getElem?_set_self hlen, Option.some.injEq] at ht
          rw [← ht]
          exact ⟨before, addr, config, _, _, h.own hu⟩
        · rw [act_step_some hu] at ht
          simp only [List.getElem?_set_ne hk] at ht
          obtain ⟨before, addr, config, after, events, h⟩ := ih ht
          obtain ⟨events', h'⟩ := h.other hk hu
          exact ⟨before, addr, config, _, events', h'⟩
    | purge n host =>
      rw [(running_foldl actions).act_purge n host] at ht
      obtain ⟨before, addr, config, after, events, h⟩ := ih ht
      refine ⟨before, addr, config, _, events, h.idle rfl ?_⟩
      rw [List.foldl_append, List.foldl_cons, List.foldl_nil, (running_foldl actions).act_purge n host]

end Project

end Daemon

end PathForge.Peering
