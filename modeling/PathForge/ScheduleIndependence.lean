import PathForge.DaemonTables
import PathForge.PeerIndependence

namespace PathForge.Routing.Rib

open Tables Wire Fallible Keyed

theorem SameCall.refl (c : Host × RibOp) : SameCall c c := ⟨⟨rfl, rfl⟩, rfl⟩

theorem run_reordered {config : DampeningConfig} {rpki : RpkiValidator}
    {calls calls' : List (Host × RibOp)} {r : Rib}
    (hc : ∀ p, List.Forall₂ SameCall (calls.filter fun c => c.2.peer = p) (calls'.filter fun c => c.2.peer = p))
    (hr : (start config rpki).run calls = some r) :
    ∃ r', (start config rpki).run calls' = some r' ∧ (∀ p, SameView p r r') ∧
      ∀ k, r.Distinct k → (r.locRib.lookup k).map Route.fresh = (r'.locRib.lookup k).map Route.fresh := by
  obtain ⟨r', hr', hview⟩ := apply_local.run_interleave SameCall.refl hc hr
  refine ⟨r', hr', hview, ?_⟩
  intro k hd
  apply (run_decided hr k).unique _ (run_decided hr' k) hd
  exact fun p => (hview p).route_eq k

theorem run_reordered_sample :
    ∃ r r', (start {} {}).run (sampleCalls .listed) = some r ∧
      (start {} {}).run (sampleCalls .listed).reverse = some r' ∧
      (r.locRib.lookup (.ofPrefix samplePrefix)).map Route.fresh =
        (r'.locRib.lookup (.ofPrefix samplePrefix)).map Route.fresh := by
  obtain ⟨r, hr⟩ := Option.isSome_iff_exists.mp (show ((start {} {}).run (sampleCalls .listed)).isSome by decide)
  have hc (p : SocketAddr) : List.Forall₂ SameCall ((sampleCalls .listed).filter fun c => c.2.peer = p)
      ((sampleCalls .listed).reverse.filter fun c => c.2.peer = p) := by
    by_cases h₁ : samplePeer 1 = p
    · subst h₁
      exact .cons (.refl _) .nil
    · by_cases h₂ : samplePeer 2 = p
      · subst h₂
        exact .cons (.refl _) .nil
      · simp [sampleCalls, RibOp.peer, h₁, h₂]
  obtain ⟨r', hr', -, hk⟩ := run_reordered hc hr
  have hd : ((start {} {}).run (sampleCalls .listed)).map (fun r => decide (r.Distinct (.ofPrefix samplePrefix))) =
      some true := by decide
  rw [hr, Option.map_some, Option.some.injEq, decide_eq_true_eq] at hd
  exact ⟨r, r', hr, hr', hk _ hd⟩

end PathForge.Routing.Rib

namespace PathForge.Peering

open Fallible ByteReader Wire Routing

namespace Session

variable {i : Input} {s s' t : Session} {msg : BgpMessage}

section Views

variable {h : Host} {r r' c c' : Rib} {p : SocketAddr}

theorem sameView_apply (op : RibOp) (hv : Rib.SameView op.peer r r') (hc : r.apply h op = some c)
    (hc' : r'.apply h op = some c') : Rib.SameView op.peer c c' := by
  obtain ⟨c'', hc'', hview⟩ := Rib.apply_congr ⟨rfl, rfl⟩ hv hc
  obtain rfl := Option.some.inj (hc'.symm.trans hc'')
  exact hview

theorem sameView_removePeer (hv : Rib.SameView p r r') :
    Rib.SameView p (r.removePeer h p).2 (r'.removePeer h p).2 := sameView_apply (.removePeer p) hv rfl rfl

theorem exists_updateRib_view {q : Peer} {u : UpdateMessage} (hv : Rib.SameView q.addr r r')
    (hc : updateRib h q u r = some c) : ∃ c', updateRib h q u r' = some c' ∧ Rib.SameView q.addr c c' := by
  obtain ⟨d, hd, he⟩ := Option.bind_eq_some_iff.mp hc
  let update : RibOp := .processUpdate q.addr q.remoteAs u.nlri u.pathAttributes u.withdrawnRoutes
  replace hv : Rib.SameView update.peer r r' := hv
  obtain ⟨d', hd', hv'⟩ := Rib.apply_congr ⟨rfl, rfl⟩ hv hd
  refine ⟨_, Option.bind_eq_some_iff.mpr ⟨d', hd', rfl⟩, ?_⟩
  simp only [Option.pure_def, Option.some.injEq] at he
  rw [← he]
  split_ifs
  · exact sameView_apply (.removeStaleForPeer q.addr) hv' rfl rfl
  · exact hv'

end Views

section Twins

inductive Twin : Session → Session → Prop
  | intro {peer : Peer} {phase : Phase} {buf sent : Bytes} {rib rib' : Rib} {metrics metrics' : Metrics}
      {purges purges' : List (SocketAddr × UInt16)} (hv : Rib.SameView peer.addr rib rib') :
      Twin ⟨peer, rib, metrics, phase, buf, sent, purges⟩ ⟨peer, rib', metrics', phase, buf, sent, purges'⟩

theorem Twin.symm (h : Twin s s') : Twin s' s := by
  cases h with
  | intro hv => exact .intro hv.symm

theorem Twin.trans (h : Twin s s') (h' : Twin s' t) : Twin s t := by
  cases h with
  | intro hv =>
    cases h' with
    | intro hv' => exact .intro (hv.trans hv')

theorem Twin.handleDisconnect (h : Twin s s') : Twin (s.handleDisconnect i) (s'.handleDisconnect i) := by
  cases h with
  | intro hv =>
    unfold Session.handleDisconnect
    simp only
    split_ifs
    · exact .intro (sameView_apply (h := i.host) (.markPeerStale _) hv rfl rfl)
    · exact .intro (sameView_removePeer hv)

theorem Twin.at_phase (h : Twin s s') (phase : Phase) :
    Twin { s with phase := phase } { s' with phase := phase } := by
  cases h with
  | intro hv => exact .intro hv

theorem Twin.receive (h : Twin s s') : Twin (s.receive i) (s'.receive i) := by
  cases h with
  | intro hv =>
    unfold Session.receive
    rcases i.read with (_ | ⟨x, data⟩) | _ | _
    · apply Twin.at_phase
      apply Twin.handleDisconnect
      exact .intro hv
    · exact .intro hv
    · exact .intro hv
    · exact .intro hv

theorem Twin.expire (h : Twin s s') : Twin (s.expire i) (s'.expire i) := by
  cases h with
  | intro hv =>
    apply Twin.at_phase
    apply Twin.handleDisconnect
    exact .intro hv

theorem Twin.sendKeepalive (h : Twin s s') (clock : Clock) :
    Twin (s.sendKeepalive clock) (s'.sendKeepalive clock) := by
  cases h with
  | intro hv => exact .intro hv

theorem Twin.wait (h : Twin s s') : Twin (s.wait i) (s'.wait i) := by
  have hpeer : s'.peer = s.peer := by
    cases h with
    | intro => rfl
  have hdue : s'.keepaliveNow = s.keepaliveNow := by rw [keepaliveNow, keepaliveNow, hpeer]
  unfold Session.wait
  simp only [hpeer, hdue]
  split_ifs
  · exact h.expire
  · exact (h.sendKeepalive _).receive
  · have hfailed := h.at_phase (.ended .writeError)
    rwa [hpeer] at hfailed
  · exact h.receive

structure TwinOutcome (r r' : Outcome × Session) : Prop where
  outcome : r.1 = r'.1
  twin : Twin r.2 r'.2

theorem Twin.withBody {α : Type} {k k' : α → Outcome × Session} (h : Twin s s')
    (r : Option (Except MessageError α))
    (hk : ∀ a, TwinOutcome (k a) (k' a)) : TwinOutcome (s.withBody r k) (s'.withBody r k') := by
  rcases r with _ | e | a
  · exact ⟨rfl, h⟩
  · exact ⟨rfl, h⟩
  · exact hk a

theorem Twin.handleOpen (h : Twin s s') (o : OpenMessage) (caps : List Capability) :
    TwinOutcome (s.handleOpen i o caps) (s'.handleOpen i o caps) := by
  cases h with
  | intro hv =>
    unfold Session.handleOpen
    simp only
    split_ifs
    · exact ⟨rfl, .intro hv⟩
    · exact ⟨rfl, .intro hv⟩

theorem Twin.handleKeepalive (h : Twin s s') : Twin (s.handleKeepalive i) (s'.handleKeepalive i) := by
  cases h with
  | intro hv =>
    unfold Session.handleKeepalive
    simp only
    split_ifs
    · exact .intro hv
    · exact .intro hv

theorem Twin.handleUpdate (h : Twin s s') (u : UpdateMessage) :
    TwinOutcome (s.handleUpdate i u) (s'.handleUpdate i u) := by
  cases h with
  | @intro peer phase buf sent rib rib' metrics metrics' purges purges' hv =>
    let hold := peer.timers.resetHoldTimer.run i.host.clock
    let q : Peer := ({ peer with timers := hold.1 } : Peer).transition .updateMsg
    have hq : Rib.SameView q.addr rib rib' := hv
    simp only [Session.handleUpdate]
    cases hu : updateRib { i.host with clock := hold.2 } q u rib with
    | none =>
      have hu' : updateRib { i.host with clock := hold.2 } q u rib' = none := by
        rw [Option.eq_none_iff_forall_ne_some]
        intro c' hc'
        obtain ⟨c, hc, -⟩ := exists_updateRib_view hq.symm hc'
        rw [hu] at hc
        cases hc
      rw [hu']
      exact ⟨rfl, .intro hq⟩
    | some c =>
      obtain ⟨c', hu', hview⟩ := exists_updateRib_view hq hu
      rw [hu']
      exact ⟨rfl, .intro hview⟩

theorem Twin.countRx (h : Twin s s') (m : MessageType) : Twin (s.countRx m) (s'.countRx m) := by
  cases h with
  | intro hv => cases m <;> exact .intro hv

theorem Twin.handleMessage (h : Twin s s') : TwinOutcome (s.handleMessage i msg) (s'.handleMessage i msg) := by
  have hcount := h.countRx msg.header.msgType
  unfold Session.handleMessage
  simp only
  generalize s.countRx msg.header.msgType = s at hcount ⊢
  generalize s'.countRx msg.header.msgType = s' at hcount ⊢
  cases msg.header.msgType with
  | «open» =>
    apply hcount.withBody
    intro o
    obtain ⟨caps, hcaps⟩ := Capability.exists_parseFromOpenParams o.optionalParams
    rw [hcaps]
    exact hcount.handleOpen o caps
  | keepalive => exact ⟨rfl, hcount.handleKeepalive⟩
  | update => exact hcount.withBody _ hcount.handleUpdate
  | notification =>
    apply hcount.withBody
    intro _
    refine ⟨rfl, ?_⟩
    cases hcount with
    | intro hv => exact .intro (sameView_removePeer hv)
  | routeRefresh => exact ⟨rfl, hcount⟩

theorem Twin.drain (h : Twin s s') : Twin (s.drain i) (s'.drain i) := by
  cases h with
  | @intro peer phase buf sent rib rib' metrics metrics' purges purges' hv =>
    obtain ⟨r, rest, hr, -⟩ := BgpMessage.incremental_parse buf
    simp only [Session.drain, hr]
    rcases r with e | _ | msg
    · exact .intro hv
    · exact .intro hv
    · have hm : TwinOutcome ((⟨peer, rib, metrics, phase, rest, sent, purges⟩ : Session).handleMessage i msg)
          ((⟨peer, rib', metrics', phase, rest, sent, purges'⟩ : Session).handleMessage i msg) :=
        (Twin.intro hv).handleMessage
      simp only [← hm.outcome]
      cases ((⟨peer, rib, metrics, phase, rest, sent, purges⟩ : Session).handleMessage i msg).1.ending with
      | none => exact hm.twin
      | some how => exact hm.twin.at_phase _

theorem Twin.step (h : Twin s s') : Twin (s.step i) (s'.step i) := by
  have hphase : s'.phase = s.phase := by
    cases h with
    | intro => rfl
  simp only [Session.step, hphase]
  cases s.phase with
  | opening =>
    cases h with
    | intro hv =>
      unfold Session.sendOpen
      simp only
      split_ifs
      · exact .intro hv
      · exact .intro hv
  | waiting => exact h.wait
  | draining => exact h.drain
  | ended how => exact h

theorem Twin.other {h : Host} {op : RibOp} (ht : Twin s s') (hp : op.peer ≠ s.peer.addr) :
    Twin (s.advance (.other h op)) s' := by
  cases ht with
  | @intro peer phase buf sent rib rib' metrics metrics' purges purges' hv =>
    apply Twin.intro
    cases ha : rib.apply h op with
    | none => exact hv
    | some c => exact (Rib.apply_frame ha hp.symm).symm.trans hv

theorem Twin.run (h : Twin s s') {events : List Event}
    (hf : ∀ h op, Event.other h op ∈ events → op.peer ≠ s.peer.addr) :
    Twin (s.run events) (s'.run ((events.filterMap Event.input).map .step)) := by
  induction events generalizing s s' with
  | nil => exact h
  | cons e events ih =>
    have haddr : (s.advance e).peer.addr = s.peer.addr := (s.advance_follows e).addr
    have hrest (host : Host) (op : RibOp) (hm : Event.other host op ∈ events) :
        op.peer ≠ (s.advance e).peer.addr := by
      rw [haddr]
      exact hf host op (List.mem_cons_of_mem _ hm)
    cases e with
    | step i => exact ih h.step hrest
    | other host op => exact ih (h.other (hf host op List.mem_cons_self)) hrest

end Twins

theorem Twin.refl (s : Session) : Twin s s := .intro (.refl _ _)

theorem Twin.view (h : Twin s s') : Rib.SameView s.peer.addr s.rib s'.rib := by
  cases h with
  | intro hv => exact hv

theorem Twin.own (h : Twin s s') : (s.peer, s.phase, s.buf, s.sent) = (s'.peer, s'.phase, s'.buf, s'.sent) := by
  cases h with
  | intro hv => rfl

theorem twin_of_core (h : s.core = t.core) : Twin s t := by
  obtain ⟨peer, rib, metrics, phase, buf, sent, purges⟩ := s
  obtain ⟨peer', rib', metrics', phase', buf', sent', purges'⟩ := t
  simp only [core, Session.mk.injEq] at h
  obtain ⟨rfl, rfl, -, rfl, rfl, rfl, -⟩ := h
  exact .intro (.refl _ _)

end Session

def Task.own (t : Task) : Peer × Phase × Bytes × Bytes := (t.peer, t.phase, t.buf, t.sent)

namespace Daemon

open Session

section Given

def starts (actions : List Action) : List (SocketAddr × LocalConfig) :=
  actions.filterMap fun
    | .start addr config => some (addr, config)
    | .step _ _ | .purge _ _ => none

def given (j n : ℕ) : List Action → List Input
  | [] => []
  | .start _ _ :: actions => given j (n + 1) actions
  | .step k i :: actions => if k = j ∧ j < n then i :: given j n actions else given j n actions
  | .purge _ _ :: actions => given j n actions

variable {j n : ℕ}

theorem starts_start (addr : SocketAddr) (config : LocalConfig) (actions : List Action) :
    starts (.start addr config :: actions) = (addr, config) :: starts actions := rfl

theorem starts_step (k : ℕ) (i : Input) (actions : List Action) :
    starts (.step k i :: actions) = starts actions := rfl

theorem starts_purge (m : ℕ) (host : Host) (actions : List Action) :
    starts (.purge m host :: actions) = starts actions := rfl

theorem addrs_foldl (actions : List Action) : (actions.foldl act {}).addrs = (starts actions).map Prod.fst := by
  induction actions using List.reverseRecOn with
  | nil => rfl
  | append_singleton actions a ih =>
    rw [List.foldl_append, List.foldl_cons, List.foldl_nil, starts, List.filterMap_append, List.map_append]
    change _ = (starts actions).map Prod.fst ++ _
    rw [← ih]
    cases a with
    | start addr config => exact addrs_start _ addr config
    | step j i => exact (addrs_step _ j i).trans (List.append_nil _).symm
    | purge n host => exact (addrs_purge _ n host).trans (List.append_nil _).symm

theorem length_tasks_foldl (actions : List Action) :
    (actions.foldl act {}).tasks.length = (starts actions).length := by
  have h := congrArg List.length (addrs_foldl actions)
  simpa [addrs] using h

theorem given_of_lt (h : j < n) (actions : List Action) : given j n actions = inputs j actions := by
  induction actions generalizing n with
  | nil => rfl
  | cons a actions ih =>
    cases a with
    | start addr config => exact ih (Nat.lt_succ_of_lt h)
    | step k i =>
      rw [given, ih h]
      by_cases hk : k = j
      · simp [inputs, hk, h]
      · simp [inputs, hk]
    | purge m host => exact ih h

theorem given_append (before after : List Action) :
    given j n (before ++ after) = given j n before ++ given j (n + (starts before).length) after := by
  induction before generalizing n with
  | nil => rfl
  | cons a before ih =>
    cases a with
    | start addr config =>
      rw [List.cons_append, given, given, ih, starts_start, List.length_cons, Nat.add_assoc, Nat.add_comm 1]
    | step k i =>
      rw [List.cons_append, given, given, ih, starts_step]
      split_ifs
      · rfl
      · rfl
    | purge m host =>
      rw [List.cons_append, given, given, ih, starts_purge]

theorem given_before (before : List Action) (h : n + (starts before).length ≤ j) : given j n before = [] := by
  induction before generalizing n with
  | nil => rfl
  | cons a before ih =>
    cases a with
    | start addr config =>
      rw [starts_start, List.length_cons] at h
      exact ih (by omega)
    | step k i =>
      rw [starts_step] at h
      rw [given, if_neg (by omega)]
      exact ih h
    | purge m host =>
      exact ih h

end Given

section Schedules

variable {actions actions' before after : List Action} {j : ℕ} {t t' : Task} {addr : SocketAddr}
  {config : LocalConfig} {events : List Event}

theorem Projected.starts_eq (h : Projected actions j t before addr config after events) :
    starts actions = starts before ++ (addr, config) :: starts after := by
  rw [h.started]
  exact List.filterMap_append

theorem Projected.length_starts (h : Projected actions j t before addr config after events) :
    (starts before).length = j := by rw [← length_tasks_foldl, h.index]

theorem Projected.given_eq (h : Projected actions j t before addr config after events) :
    given j 0 actions = Daemon.inputs j after := by
  rw [h.started, given_append, given_before before (by rw [h.length_starts, Nat.zero_add]), List.nil_append, given,
    h.length_starts]
  exact given_of_lt (by omega) after

theorem Projected.starts_get (h : Projected actions j t before addr config after events) :
    (starts actions)[j]? = some (addr, config) := by
  rw [h.starts_eq, List.getElem?_append_right h.length_starts.le, h.length_starts, Nat.sub_self]
  rfl

theorem Projected.unseen (h : Projected actions j t before addr config after events)
    (hn : ((starts actions).map Prod.fst).Nodup) : addr ∉ (before.foldl act {}).addrs := by
  rw [h.starts_eq, List.map_append, List.map_cons, List.nodup_append] at hn
  rw [addrs_foldl]
  intro hmem
  exact hn.2.2 addr hmem addr List.mem_cons_self rfl

theorem Projected.foreign_ne (h : Projected actions j t before addr config after events)
    (hn : ((starts actions).map Prod.fst).Nodup) (host : Host) (op : RibOp) (hmem : Event.other host op ∈ events) :
    op.peer ≠ addr := by
  obtain ⟨n, hne, hpeer⟩ := h.foreign host op hmem
  rintro rfl
  have hown : ((starts actions).map Prod.fst)[j]? = some op.peer := by rw [List.getElem?_map, h.starts_get]; rfl
  rw [addrs_foldl] at hpeer
  obtain ⟨hlt, hget⟩ := List.getElem?_eq_some_iff.mp hpeer
  exact hne ((List.getElem?_inj hlt hn).mp (hpeer.trans hown.symm))

def solo (p : Peer) (inputs : List Input) : Session :=
  (handleIncoming p.addr p.config .new {}).run (inputs.map .step)

theorem Projected.peer_eq (h : Projected actions j t before addr config after events) :
    t.peer.addr = addr ∧ t.peer.config = config := by
  have hpeer := congrArg Session.peer h.session
  replace hpeer : ((handleIncoming addr config (before.foldl act {}).rib (before.foldl act {}).metrics).run
      events).peer =
      t.peer := hpeer
  rw [← hpeer, run_addr, run_config]
  exact ⟨rfl, rfl⟩

theorem twin_solo (hn : ((starts actions).map Prod.fst).Nodup) (ht : (actions.foldl act {}).tasks[j]? = some t) :
    Twin ((actions.foldl act {}).session t) (solo t.peer (given j 0 actions)) := by
  obtain ⟨before, addr, config, after, events, h⟩ := exists_projected actions ht
  obtain ⟨rfl, rfl⟩ := h.peer_eq
  have hin : Twin (handleIncoming t.peer.addr t.peer.config (before.foldl act {}).rib
      (before.foldl act {}).metrics)
      (handleIncoming t.peer.addr t.peer.config .new {}) := .intro (sameView_new before (h.unseen hn))
  have hrun := hin.run (h.foreign_ne hn)
  rw [h.inputs, ← h.given_eq] at hrun
  exact (twin_of_core h.session).symm.trans hrun

theorem twin_of_tasks (hs : starts actions = starts actions') (hn : ((starts actions).map Prod.fst).Nodup)
    (hg : ∀ j, given j 0 actions = given j 0 actions') (ht : (actions.foldl act {}).tasks[j]? = some t)
    (ht' : (actions'.foldl act {}).tasks[j]? = some t') :
    Twin ((actions.foldl act {}).session t) ((actions'.foldl act {}).session t') := by
  obtain ⟨before, addr, config, after, events, h⟩ := exists_projected actions ht
  obtain ⟨before', addr', config', after', events', h'⟩ := exists_projected actions' ht'
  have hstart := h.starts_get
  rw [hs, h'.starts_get, Option.some.injEq, Prod.mk.injEq, ← h.peer_eq.1, ← h.peer_eq.2, ← h'.peer_eq.1,
    ← h'.peer_eq.2] at hstart
  have hsolo := twin_solo hn ht
  have hsolo' := twin_solo (hs ▸ hn) ht'
  rw [solo, ← hstart.1, ← hstart.2, hg j] at hsolo
  exact hsolo.trans hsolo'.symm

theorem length_tasks_eq (hs : starts actions = starts actions') :
    (actions.foldl act {}).tasks.length = (actions'.foldl act {}).tasks.length := by
  rw [length_tasks_foldl, length_tasks_foldl, hs]

theorem sameView_of_given (hs : starts actions = starts actions') (hn : ((starts actions).map Prod.fst).Nodup)
    (hg : ∀ j, given j 0 actions = given j 0 actions') (p : SocketAddr) :
    Rib.SameView p (actions.foldl act {}).rib (actions'.foldl act {}).rib := by
  by_cases hp : p ∈ (actions.foldl act {}).addrs
  · obtain ⟨t, hmem, rfl⟩ := List.mem_map.mp hp
    obtain ⟨j, hj, ht⟩ := List.getElem_of_mem hmem
    have htwin := twin_of_tasks hs hn hg (List.getElem?_eq_some_iff.mpr ⟨hj, ht⟩)
      (List.getElem?_eq_getElem (length_tasks_eq hs ▸ hj))
    exact htwin.view
  · have hp' : p ∉ (actions'.foldl act {}).addrs := by rwa [addrs_foldl, ← hs, ← addrs_foldl]
    exact (sameView_new actions hp).trans (sameView_new actions' hp').symm

theorem lookup_eq_of_given (hs : starts actions = starts actions') (hn : ((starts actions).map Prod.fst).Nodup)
    (hg : ∀ j, given j 0 actions = given j 0 actions') {k : PrefixKey}
    (hd : (actions.foldl act {}).rib.Distinct k) :
    (actions.foldl act {}).rib.locRib.lookup k = (actions'.foldl act {}).rib.locRib.lookup k := by
  have hdecided := (running_foldl actions).reached.decided k
  have hdecided' := (running_foldl actions').reached.decided k
  have hfresh := hdecided.unique (fun p => (sameView_of_given hs hn hg p).route_eq k) hdecided' hd
  rwa [(current_foldl actions).map_fresh hdecided, (current_foldl actions').map_fresh hdecided'] at hfresh

/-- The schedule does not matter. Where the same connections come in, from different addresses, and each task
is given the same inputs, every task ends in the same state, every peer has the same routes and flap history,
and the Loc-RIB has the same route for every key that no two peers tie for. -/
theorem schedule_irrelevant (actions actions' : List Action) (hs : starts actions = starts actions')
    (hn : ((starts actions).map Prod.fst).Nodup) (hg : ∀ j, given j 0 actions = given j 0 actions') :
    let d := actions.foldl act {}
    let d' := actions'.foldl act {}
    d.tasks.map Task.own = d'.tasks.map Task.own ∧ (∀ p, Rib.SameView p d.rib d'.rib) ∧
      ∀ k, d.rib.Distinct k → d.rib.locRib.lookup k = d'.rib.locRib.lookup k := by
  intro d d'
  have hlength : d.tasks.length = d'.tasks.length := length_tasks_eq hs
  refine ⟨?_, sameView_of_given hs hn hg, fun k hd => lookup_eq_of_given hs hn hg hd⟩
  apply List.ext_getElem (by simpa using hlength)
  intro j hj hj'
  rw [List.length_map] at hj hj'
  rw [List.getElem_map, List.getElem_map]
  exact (twin_of_tasks hs hn hg (List.getElem?_eq_getElem hj) (List.getElem?_eq_getElem hj')).own

/-- What the daemon keeps of a peer is what the peer's own octets say. They are the frames of messages and the
start of one more; the Rib calls these messages ask for, and the end of the session if it has come, make the
peer's routes and flap history out of nothing. -/
theorem tables_of_messages (actions : List Action) (hn : ((starts actions).map Prod.fst).Nodup)
    (ht : (actions.foldl act {}).tasks[j]? = some t) :
    let s := handleIncoming t.peer.addr t.peer.config .new {}
    let steps := (given j 0 actions).map Event.step
    s.delivered steps = (s.messages steps).flatMap BgpMessage.frame ++ t.buf ∧
      ∃ r, Rib.Made (fun h => ∃ i ∈ given j 0 actions, i.Lends h)
          (asksOfAll t.peer.addr 0 (s.messages steps) ++ t.phase.asks t.peer.addr) .new r ∧
        Rib.SameView t.peer.addr (actions.foldl act {}).rib r := by
  intro s steps
  have hsolo := twin_solo hn ht
  have hown := hsolo.own
  simp only [Prod.mk.injEq] at hown
  obtain ⟨-, hphase, hbuf, -⟩ := hown
  replace hphase : t.phase = (s.run steps).phase := hphase
  replace hbuf : t.buf = (s.run steps).buf := hbuf
  have hgoing : ¬ s.Ended := by
    rintro ⟨how, hp⟩
    cases hp
  refine ⟨?_, (s.run steps).rib, ?_, hsolo.view⟩
  · rw [hbuf]
    exact s.buf_delivered steps
  · rw [hphase]
    exact run_asks rfl hgoing (given j 0 actions)

def laterInput (read : ReadResult) : Input := ⟨⟨fun n => 10 + n, fun _ _ p => p, .listed, .listed⟩, true, read⟩

def bothStarts : List Action :=
  [.start samplePeer ⟨65000, .new 10 0 0 254, 90⟩, .start (.v4 (.new 10 0 0 2) 40001) ⟨65000, .new 10 0 0 254, 90⟩]

def speaking (j : ℕ) (input : ReadResult → Input) : List Action :=
  [.step j (input .timeout), .step j (input (.ok sampleStream)), .step j (input .timeout),
    .step j (input .timeout), .step j (input .timeout)]

theorem schedule_irrelevant_sample :
    let d := (bothStarts ++ speaking 0 sampleInput ++ speaking 1 laterInput).foldl act {}
    let d' := (bothStarts ++ speaking 1 laterInput ++ speaking 0 sampleInput).foldl act {}
    (d.rib.locRib.lookup sampleKey).isSome ∧ d.rib.locRib.lookup sampleKey = d'.rib.locRib.lookup sampleKey := by
  have hg (j : ℕ) : given j 0 (bothStarts ++ speaking 0 sampleInput ++ speaking 1 laterInput) =
      given j 0 (bothStarts ++ speaking 1 laterInput ++ speaking 0 sampleInput) := by
    match j with
    | 0 => rfl
    | 1 => rfl
    | j + 2 => rfl
  have hn : ((starts (bothStarts ++ speaking 0 sampleInput ++ speaking 1 laterInput)).map Prod.fst).Nodup := by
    decide
  have hs : starts (bothStarts ++ speaking 0 sampleInput ++ speaking 1 laterInput) =
      starts (bothStarts ++ speaking 1 laterInput ++ speaking 0 sampleInput) := rfl
  exact ⟨by decide, (schedule_irrelevant _ _ hs hn hg).2.2 sampleKey (by decide)⟩

theorem tables_of_messages_sample :
    let actions := bothStarts ++ speaking 0 sampleInput ++ speaking 1 laterInput
    ∃ r, Rib.Made (fun h => ∃ i ∈ given 1 0 actions, i.Lends h)
        [.processUpdate (.v4 (.new 10 0 0 2) 40001) 65001 [⟨24, .new 192 168 1 0⟩] {} []] .new r ∧
      Rib.SameView (.v4 (.new 10 0 0 2) 40001) (actions.foldl act {}).rib r ∧
      (r.route (.v4 (.new 10 0 0 2) 40001) sampleKey).isSome := by
  intro actions
  have htask : ((actions.foldl act {}).tasks[1]?).map (fun t => (t.peer.addr, t.peer.config, t.phase)) =
      some (.v4 (.new 10 0 0 2) 40001, ⟨65000, .new 10 0 0 254, 90⟩, .draining) := by decide
  obtain ⟨t, ht, hpeer⟩ := Option.map_eq_some_iff.mp htask
  obtain ⟨haddr, hconfig, hphase⟩ : t.peer.addr = _ ∧ t.peer.config = _ ∧ t.phase = _ := by simpa using hpeer
  obtain ⟨-, r, hmade, hview⟩ := tables_of_messages actions (by decide) ht
  rw [haddr, hconfig, hphase] at hmade
  rw [haddr] at hview
  refine ⟨r, hmade, hview, ?_⟩
  rw [← hview.route_eq]
  decide

end Schedules

end Daemon

end PathForge.Peering
