import PathForge.Capabilities
import PathForge.RoutingBase

namespace PathForge.Peering

open Fallible ByteReader Wire Routing

inductive BgpState where
  | idle | connect | active | openSent | openConfirm | established
  deriving DecidableEq

inductive BgpEvent where
  | manualStart | manualStop | tcpConnectionConfirmed | tcpConnectionFail | bgpOpen
  | keepAliveMsg | updateMsg | notifMsg | holdTimerExpired | keepaliveTimerExpired
  deriving DecidableEq

def BgpState.next : BgpState → BgpEvent → BgpState
  | .idle, .manualStart => .connect
  | .connect, .tcpConnectionConfirmed => .openSent
  | .connect, .tcpConnectionFail => .active
  | .active, .tcpConnectionConfirmed => .openSent
  | .openSent, .bgpOpen => .openConfirm
  | .openConfirm, .keepAliveMsg => .established
  | .established, .notifMsg => .idle
  | .established, .tcpConnectionFail => .idle
  | _, .manualStop => .idle
  | _, .holdTimerExpired => .idle
  | s, _ => s

structure BgpTimers where
  holdTime : UInt16
  keepaliveInterval : UInt16
  holdTimerStart : Option Instant
  keepaliveTimerStart : Option Instant
  deriving DecidableEq

namespace BgpTimers

def new (holdTime : UInt16) : BgpTimers := ⟨holdTime, if 0 < holdTime then holdTime / 3 else 0, none, none⟩

def resetHoldTimer (t : BgpTimers) : StateM Clock BgpTimers := do
  if 0 < t.holdTime then
    return { t with holdTimerStart := some (← now) }
  else
    return t

def resetKeepaliveTimer (t : BgpTimers) : StateM Clock BgpTimers := do
  if 0 < t.keepaliveInterval then
    return { t with keepaliveTimerStart := some (← now) }
  else
    return t

def elapsed (secs : UInt16) (start : Instant) : StateM Clock Bool := do
  return decide (secs.toNat * 10 ^ 9 ≤ (← now) - start)

def holdTimerExpired (t : BgpTimers) : StateM Clock Bool :=
  if t.holdTime = 0 then
    return false
  else
    match t.holdTimerStart with
    | some start => elapsed t.holdTime start
    | none => return false

def keepaliveDue (t : BgpTimers) : StateM Clock Bool :=
  if t.keepaliveInterval = 0 then
    return false
  else
    match t.keepaliveTimerStart with
    | some start => elapsed t.keepaliveInterval start
    | none => return true

end BgpTimers

structure LocalConfig where
  localAs : UInt32
  routerId : Ipv4Addr
  holdTime : UInt16
  deriving DecidableEq

structure Metrics where
  sessionsEstablished : UInt64 := 0
  sessionsFailed : UInt64 := 0
  sessionsActive : UInt64 := 0
  messagesRxOpen : UInt64 := 0
  messagesRxKeepalive : UInt64 := 0
  messagesRxUpdate : UInt64 := 0
  messagesRxNotification : UInt64 := 0
  messagesTxOpen : UInt64 := 0
  messagesTxKeepalive : UInt64 := 0
  messagesTxNotification : UInt64 := 0
  routesReceived : UInt64 := 0
  routesWithdrawn : UInt64 := 0
  routesLocRib : UInt64 := 0
  holdTimerExpirations : UInt64 := 0
  deriving DecidableEq

structure Peer where
  addr : SocketAddr
  remoteAs : UInt32
  config : LocalConfig
  state : BgpState
  timers : BgpTimers
  negotiatedHoldTime : UInt16
  peerRouterId : Option Ipv4Addr
  peerCapabilities : List Capability
  deriving DecidableEq

namespace Peer

def new (addr : SocketAddr) (remoteAs : UInt32) (config : LocalConfig) : Peer :=
  ⟨addr, remoteAs, config, .idle, .new config.holdTime, 90, none, []⟩

def transition (p : Peer) (e : BgpEvent) : Peer := { p with state := p.state.next e }

def localCaps (p : Peer) : List Capability :=
  [.fourOctetAsn p.config.localAs, .routeRefresh, .multiProtocol 1 1, .gracefulRestart 120 0]

def localOpen (p : Peer) : OpenMessage :=
  newWithCapabilities (min p.config.localAs 65535).toUInt16 p.config.holdTime p.config.routerId p.localCaps

end Peer

inductive SessionError where
  | io
  | message (e : MessageError)
  deriving DecidableEq

inductive Ending where
  | closed | holdTimerExpired | readError | writeError
  | framingError (e : MessageError)
  | bodyError (e : MessageError)
  | panicked
  deriving DecidableEq

/-- Where `run_session` stands: before its OPEN, at the head of the loop, or taking messages off the buffer. -/
inductive Phase where
  | opening | waiting | draining
  | ended (how : Ending)
  deriving DecidableEq

inductive ReadResult where
  | ok (data : Bytes)
  | err
  | timeout

structure Input where
  host : Host
  writeOk : Bool
  read : ReadResult

/-- One session task and the shared state it works on; `purges` are the tasks it has spawned. -/
structure Session where
  peer : Peer
  rib : Rib
  metrics : Metrics
  phase : Phase := .opening
  buf : Bytes := []
  sent : Bytes := []
  purges : List (SocketAddr × UInt16) := []

inductive Outcome where
  | done
  | failed (e : SessionError)
  | panicked
  deriving DecidableEq

def Outcome.ending : Outcome → Option Ending
  | done => none
  | failed .io => some .writeError
  | failed (.message e) => some (.bodyError e)
  | panicked => some .panicked

namespace Session

def handleIncoming (addr : SocketAddr) (config : LocalConfig) (rib : Rib) (metrics : Metrics) : Session where
  peer := ((Peer.new addr 0 config).transition .manualStart).transition .tcpConnectionConfirmed
  rib := rib
  metrics := { metrics with sessionsActive := metrics.sessionsActive + 1 }

def handleDisconnect (i : Input) (s : Session) : Session :=
  let supportsGr := s.peer.peerCapabilities.any fun
    | .gracefulRestart _ _ => true
    | _ => false
  let restartTime := (s.peer.peerCapabilities.findSome? fun
    | .gracefulRestart t _ => some t
    | _ => none).getD 120
  if supportsGr && s.peer.state == .established then
    { s with rib := s.rib.markPeerStale s.peer.addr, purges := s.purges ++ [(s.peer.addr, restartTime)] }
  else
    { s with rib := (s.rib.removePeer i.host s.peer.addr).2 }

def handleOpen (i : Input) (s : Session) (o : OpenMessage) (caps : List Capability) : Outcome × Session :=
  let holdTime := min s.peer.config.holdTime o.holdTime
  let timers := (BgpTimers.new holdTime).resetHoldTimer.run i.host.clock
  let peer := { s.peer with
                remoteAs := o.myAs.toUInt32, timers := timers.1, negotiatedHoldTime := holdTime,
                peerRouterId := some o.bgpId, peerCapabilities := caps }
  let s := { s with peer := peer.transition .bgpOpen }
  if i.writeOk then
    (.done, { s with sent := s.sent ++ KeepaliveMessage.serialize ⟨⟩,
                     metrics := { s.metrics with messagesTxKeepalive := s.metrics.messagesTxKeepalive + 1 } })
  else
    (.failed .io, s)

def handleKeepalive (i : Input) (s : Session) : Session :=
  let hold := s.peer.timers.resetHoldTimer.run i.host.clock
  let peer : Peer := { s.peer with timers := hold.1 }
  if peer.state = .openConfirm then
    let peer := peer.transition .keepAliveMsg
    let keepalive := peer.timers.resetKeepaliveTimer.run hold.2
    { s with peer := { peer with timers := keepalive.1 },
             metrics := { s.metrics with sessionsEstablished := s.metrics.sessionsEstablished + 1 } }
  else
    { s with peer := peer }

def isEndOfRib (u : UpdateMessage) : Bool :=
  u.nlri.isEmpty && u.withdrawnRoutes.isEmpty && u.pathAttributes.isEmpty

def updateRib (h : Host) (p : Peer) (u : UpdateMessage) (rib : Rib) : Option Rib := do
  let rib ← rib.processUpdate h p.addr p.remoteAs u.nlri u.pathAttributes u.withdrawnRoutes
  return if isEndOfRib u then (rib.removeStaleForPeer h p.addr).2 else rib

def handleUpdate (i : Input) (s : Session) (u : UpdateMessage) : Outcome × Session :=
  let hold := s.peer.timers.resetHoldTimer.run i.host.clock
  let peer : Peer := { s.peer with timers := hold.1 }
  let metrics := { s.metrics with
                   routesReceived := s.metrics.routesReceived + UInt64.ofNat u.nlri.length,
                   routesWithdrawn := s.metrics.routesWithdrawn + UInt64.ofNat u.withdrawnRoutes.length }
  let s := { s with peer := peer.transition .updateMsg, metrics := metrics }
  match updateRib { i.host with clock := hold.2 } s.peer u s.rib with
  -- an overflow in the ROA check, which takes an RPKI mode that nothing sets
  | none => (.panicked, s)
  | some rib =>
    (.done, { s with rib := rib,
                     metrics := { s.metrics with routesLocRib := UInt64.ofNat rib.locRib.keys.length } })

def handleNotification (i : Input) (s : Session) : Session :=
  { s with
    peer := s.peer.transition .notifMsg,
    metrics := { s.metrics with sessionsFailed := s.metrics.sessionsFailed + 1, sessionsActive := 0 },
    rib := (s.rib.removePeer i.host s.peer.addr).2 }

def withBody {α : Type} (s : Session) (r : Option (Except MessageError α)) (k : α → Outcome × Session) :
    Outcome × Session :=
  match r with
  | none => (.panicked, s)
  | some (.error e) => (.failed (.message e), s)
  | some (.ok a) => k a

def countRx (s : Session) : MessageType → Session
  | .open => { s with metrics := { s.metrics with messagesRxOpen := s.metrics.messagesRxOpen + 1 } }
  | .keepalive => { s with metrics := { s.metrics with messagesRxKeepalive := s.metrics.messagesRxKeepalive + 1 } }
  | .update => { s with metrics := { s.metrics with messagesRxUpdate := s.metrics.messagesRxUpdate + 1 } }
  | .notification =>
    { s with metrics := { s.metrics with messagesRxNotification := s.metrics.messagesRxNotification + 1 } }
  | .routeRefresh => s

def handleMessage (i : Input) (s : Session) (msg : BgpMessage) : Outcome × Session :=
  let s := s.countRx msg.header.msgType
  match msg.header.msgType with
  | .open => s.withBody (OpenMessage.parse.outcome msg.body) fun o =>
    match Capability.parseFromOpenParams o.optionalParams with
    | none => (.panicked, s)
    | some caps => s.handleOpen i o caps
  | .keepalive => (.done, s.handleKeepalive i)
  | .update => s.withBody (UpdateMessage.parse.outcome msg.body) (s.handleUpdate i)
  | .notification => s.withBody (NotificationMessage.parse.outcome msg.body) fun _ =>
      (.done, s.handleNotification i)
  | .routeRefresh => (.done, s)

def sendOpen (i : Input) (s : Session) : Session :=
  let s := { s with metrics := { s.metrics with messagesTxOpen := s.metrics.messagesTxOpen + 1 } }
  if i.writeOk then
    { s with sent := s.sent ++ s.peer.localOpen.serialize, phase := .waiting }
  else
    { s with phase := .ended .writeError }

def expire (i : Input) (s : Session) : Session :=
  let notif := NotificationMessage.holdTimerExpired.serialize
  let s := { s with
             peer := s.peer.transition .holdTimerExpired,
             sent := if i.writeOk then s.sent ++ notif else s.sent,
             metrics := { s.metrics with
                          holdTimerExpirations := s.metrics.holdTimerExpirations + 1,
                          messagesTxNotification := s.metrics.messagesTxNotification + 1,
                          sessionsFailed := s.metrics.sessionsFailed + 1, sessionsActive := 0 } }
  { s.handleDisconnect i with phase := .ended .holdTimerExpired }

def keepaliveNow (s : Session) : StateM Clock Bool :=
  if s.peer.state = .established then s.peer.timers.keepaliveDue else return false

def sendKeepalive (clock : Clock) (s : Session) : Session :=
  let keepalive := s.peer.timers.resetKeepaliveTimer.run clock
  { s with peer := { s.peer with timers := keepalive.1 },
           sent := s.sent ++ KeepaliveMessage.serialize ⟨⟩,
           metrics := { s.metrics with messagesTxKeepalive := s.metrics.messagesTxKeepalive + 1 } }

def receive (i : Input) (s : Session) : Session :=
  match i.read with
  -- the state leaves Established before `handle_disconnect` looks at it
  | .ok [] =>
    let s := { s with
      peer := s.peer.transition .tcpConnectionFail, metrics := { s.metrics with sessionsActive := 0 } }
    { s.handleDisconnect i with phase := .ended .closed }
  | .ok data => { s with buf := s.buf ++ data, phase := .draining }
  -- this exit and every `?` skip `handle_disconnect`
  | .err => { s with peer := s.peer.transition .tcpConnectionFail, phase := .ended .readError }
  | .timeout => s

def wait (i : Input) (s : Session) : Session :=
  let expired := s.peer.timers.holdTimerExpired.run i.host.clock
  if expired.1 then
    s.expire i
  else
    let due := s.keepaliveNow.run expired.2
    if due.1 then
      if i.writeOk then (s.sendKeepalive due.2).receive i else { s with phase := .ended .writeError }
    else
      s.receive i

def drain (i : Input) (s : Session) : Session :=
  match BgpMessage.parse.run s.buf with
  | none => { s with phase := .ended .panicked }
  | some (.error e, buf) => { s with buf := buf, phase := .ended (.framingError e) }
  | some (.ok none, buf) => { s with buf := buf, phase := .waiting }
  | some (.ok (some msg), buf) =>
    let r := ({ s with buf := buf }).handleMessage i msg
    match r.1.ending with
    | none => r.2
    | some how => { r.2 with phase := .ended how }

def step (i : Input) (s : Session) : Session :=
  match s.phase with
  | .opening => s.sendOpen i
  | .waiting => s.wait i
  | .draining => s.drain i
  | .ended _ => s

end Session

end PathForge.Peering
