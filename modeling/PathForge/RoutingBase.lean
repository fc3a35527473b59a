import PathForge.Dampening
import PathForge.LeadingBits
import PathForge.RouteOrigin
import PathForge.StableSelection
import PathForge.UpdateMessages

namespace PathForge.Routing

open Tables Selection Wire Leading

structure Route where
  pfx : Prefix
  attrs : PathAttributes
  peerAddr : SocketAddr
  peerAs : UInt32
  receivedAt : Instant
  stale : Bool
  rovState : RovState
  deriving DecidableEq

def Route.new (pfx : Prefix) (attrs : PathAttributes) (peerAddr : SocketAddr) (peerAs : UInt32) :
    StateM Clock Route := do
  return ⟨pfx, attrs, peerAddr, peerAs, ← now, false, .notFound⟩

abbrev AdjRibIn := HashMap PrefixKey Route
abbrev LocRib := HashMap PrefixKey Route

structure Rib where
  adjRibIn : HashMap SocketAddr AdjRibIn := ∅
  locRib : LocRib := ∅
  dampening : DampeningTable := {}
  rpki : RpkiValidator := {}

namespace Route

def localPref (r : Route) : ℕ := (r.attrs.localPref.getD 100).toNat

def origin (r : Route) : ℕ := ((r.attrs.origin.map Origin.toU8).getD 2).toNat

def med (r : Route) : ℕ := (r.attrs.multiExitDisc.getD 0).toNat

def cmp (a b : Route) : Ordering :=
  (compare b.localPref a.localPref).then
    ((compare a.attrs.asPathLen b.attrs.asPathLen).then
      ((compare a.origin b.origin).then
        ((compare a.med b.med).then
          (compare a.receivedAt b.receivedAt))))

end Route

namespace Rib

def new : Rib := {}

def route (r : Rib) (peer : SocketAddr) (key : PrefixKey) : Option Route :=
  (r.adjRibIn.lookup peer).bind fun adj => adj.lookup key

def candidates (h : Host) (r : Rib) (key : PrefixKey) : List Route :=
  (r.adjRibIn.keysBy h.peers).filterMap fun peer => r.route peer key

def runDecisionProcess (h : Host) (r : Rib) (key : PrefixKey) : Rib :=
  match first Route.cmp (r.candidates h key) with
  | none => { r with locRib := r.locRib.erase key }
  | some best => { r with locRib := r.locRib.insert key best }

def runDecisions (h : Host) (r : Rib) (keys : List PrefixKey) : Rib := keys.foldl (runDecisionProcess h) r

end Rib

structure Intake where
  clock : Clock
  dampening : DampeningTable
  adjIn : AdjRibIn
  affected : List PrefixKey := []

namespace Intake

def withdraw (decayed : Decay) (peer : SocketAddr) (s : Intake) (p : Prefix) : Intake :=
  let ((_, dampening), clock) := (s.dampening.recordWithdrawal decayed peer (.ofPrefix p)).run s.clock
  { s with dampening := dampening, clock := clock }

def announce (decayed : Decay) (rpki : RpkiValidator) (peer : SocketAddr) (peerAs : UInt32)
    (attrs : PathAttributes) (s : Intake) (p : Prefix) : Option Intake := do
  let key := PrefixKey.ofPrefix p
  let ((suppressed, dampening), clock) := (s.dampening.checkAdvertisement decayed peer key).run s.clock
  let rov ← rpki.validate p.address p.prefixLen peerAs
  if suppressed || rpki.shouldReject rov then
    return { s with dampening := dampening, clock := clock }
  else
    let (route, clock) := (Route.new p attrs peer peerAs).run clock
    return ⟨clock, dampening, s.adjIn.insert key { route with rovState := rov }, s.affected ++ [key]⟩

end Intake

namespace Rib

def processUpdate (h : Host) (r : Rib) (peer : SocketAddr) (peerAs : UInt32) (nlri : List Prefix)
    (attrs : PathAttributes) (withdrawn : List Prefix) : Option Rib := do
  let s : Intake := ⟨h.clock, r.dampening, (r.adjRibIn.lookup peer).getD ∅, []⟩
  let s := withdrawn.foldl (Intake.withdraw h.decayed peer) s
  let s ← nlri.foldlM (Intake.announce h.decayed r.rpki peer peerAs attrs) s
  let keys := withdrawn.map PrefixKey.ofPrefix
  let adjIn := HashMap.eraseAll s.adjIn keys
  let r := { r with adjRibIn := r.adjRibIn.insert peer adjIn, dampening := s.dampening }
  return r.runDecisions h (s.affected ++ keys)

def removePeer (h : Host) (r : Rib) (peer : SocketAddr) : List PrefixKey × Rib :=
  let removedKeys := ((r.adjRibIn.lookup peer).map fun adj => HashMap.keysBy adj h.keys).getD []
  let r := { r with adjRibIn := r.adjRibIn.erase peer }
  let r := r.runDecisions h removedKeys
  (removedKeys, { r with dampening := r.dampening.removePeer peer })

def markPeerStale (r : Rib) (peer : SocketAddr) : Rib :=
  match r.adjRibIn.lookup peer with
  | some adj =>
    { r with adjRibIn := r.adjRibIn.insert peer (HashMap.mapValues adj fun route => { route with stale := true }) }
  | none => r

def staleKeys (h : Host) (r : Rib) (peer : SocketAddr) : List PrefixKey :=
  ((r.adjRibIn.lookup peer).map fun adj =>
    (HashMap.keysBy adj h.keys).filter fun k => ((adj.lookup k).map Route.stale).getD false).getD []

def removeStaleForPeer (h : Host) (r : Rib) (peer : SocketAddr) : List PrefixKey × Rib :=
  let staleKeys := r.staleKeys h peer
  let adjRibIn := match r.adjRibIn.lookup peer with
    | some adj =>
      let adj := HashMap.eraseAll adj staleKeys
      if adj.keys = [] then r.adjRibIn.erase peer else r.adjRibIn.insert peer adj
    | none => r.adjRibIn
  let r := { r with adjRibIn := adjRibIn }
  (staleKeys, r.runDecisions h staleKeys)

def matchFilter (addr : Ipv4Addr) (key : PrefixKey) : Option Bool :=
  if key.prefixLen = 0 then
    some true
  else do
    let shift ← checkedSub 32 key.prefixLen.toUInt32
    let addrNet ← checkedShr addr.toU32 shift
    let keyNet ← checkedShr key.address.toU32 shift
    return addrNet == keyNet

def longestMatch (h : Host) (r : Rib) (addr : Ipv4Addr) : Option (Option (PrefixKey × Route)) := do
  let found ← (r.locRib.iterBy h.keys).filterM fun e => matchFilter addr e.1
  return maxByKey (fun e => e.1.prefixLen.toNat) found

end Rib

inductive RibOp where
  | processUpdate (peer : SocketAddr) (peerAs : UInt32) (nlri : List Prefix) (attrs : PathAttributes)
      (withdrawn : List Prefix)
  | removePeer (peer : SocketAddr)
  | markPeerStale (peer : SocketAddr)
  | removeStaleForPeer (peer : SocketAddr)

def RibOp.peer : RibOp → SocketAddr
  | processUpdate peer _ _ _ _ => peer
  | removePeer peer => peer
  | markPeerStale peer => peer
  | removeStaleForPeer peer => peer

namespace Rib

def apply (r : Rib) (h : Host) : RibOp → Option Rib
  | .processUpdate peer peerAs nlri attrs withdrawn => r.processUpdate h peer peerAs nlri attrs withdrawn
  | .removePeer peer => some (r.removePeer h peer).2
  | .markPeerStale peer => some (r.markPeerStale peer)
  | .removeStaleForPeer peer => some (r.removeStaleForPeer h peer).2

def run (r : Rib) (calls : List (Host × RibOp)) : Option Rib := calls.foldlM (fun r c => r.apply c.1 c.2) r

end Rib

end PathForge.Routing
