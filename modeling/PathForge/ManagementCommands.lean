import PathForge.MetricsTexts
import PathForge.SortedTables
import Mathlib.Data.List.Lex
import Mathlib.Data.Prod.Lex

namespace PathForge.Management

open Tables Texts Wire Routing Peering Policy

structure PeerInfo where
  addr : SocketAddr
  remoteAs : UInt32
  state : BgpState
  description : Option String
  uptimeSecs : UInt64
  routesReceived : ℕ

structure MgmtState where
  peers : HashMap SocketAddr PeerInfo := ∅

/-- What a command reads, and the orders in which the two maps yield their entries to it. -/
structure View where
  state : MgmtState := {}
  rib : Rib
  metrics : FullMetrics
  peers : IterOrder SocketAddr := .listed
  keys : IterOrder PrefixKey := .listed

def repeated (n : ℕ) (c : Char) : String := String.ofList (List.replicate n c)

section Columns

variable (attrs : PathAttributes)

def asNumbers : List UInt32 := attrs.asPath.flatMap AsPathSegment.asNumbers

def asPathText : String := " ".intercalate ((asNumbers attrs).map fun asn => asn.toNat.repr)

def localPrefText : String := (attrs.localPref.getD 100).toNat.repr

def medText : String := (attrs.multiExitDisc.getD 0).toNat.repr

def nextHopText : String := (attrs.nextHop.map Ipv4Addr.toString).getD "-"

def originText : String := (attrs.origin.map Origin.toString).getD "?"

def asPathOr (empty : String) : String := if asPathText attrs = "" then empty else asPathText attrs

end Columns

section Rib

def summary (rib : Rib) : ℕ × ℕ × ℕ :=
  (rib.adjRibIn.keys.length, (rib.adjRibIn.entries.map fun e => AList.keys e.2 |>.length).sum,
    rib.locRib.keys.length)

/-- The key `(k.address.octets(), k.prefix_len)` the listings are sorted by. -/
def rank (k : PrefixKey) : Lex (List ℕ × ℕ) := toLex (k.address.octets.toList.map UInt8.toNat, k.prefixLen.toNat)

def ribRow (e : PrefixKey × Route) : String :=
  padEnd 20 e.1.toString ++ " " ++ padStart 10 (localPrefText e.2.attrs) ++ " " ++
    padStart 6 (medText e.2.attrs) ++ " " ++
    padStart 6 (asPathOr e.2.attrs "-") ++ " " ++ padEnd 20 (nextHopText e.2.attrs) ++ " " ++ originText e.2.attrs

def cmdBgpRib (v : View) : String :=
  if v.rib.locRib.keys = [] then
    "Loc-RIB is empty.\n"
  else
    ofLines (["BGP Routing Table (Loc-RIB)",
      "===========================",
      padEnd 20 "Network" ++ " " ++ padStart 8 "Local-Pref" ++ " " ++ padStart 6 "MED" ++ " " ++
        padStart 6 "AS-Path" ++
        " " ++ padEnd 20 "Next-Hop" ++ " " ++ "Origin",
      repeated 80 '-'] ++ (v.rib.locRib.listing v.keys rank fun _ => true).map ribRow)

def prefixDetail (prefixStr : String) (route : Route) : String :=
  ofLines ["BGP Prefix " ++ prefixStr,
    "  Best path from:  " ++ route.peerAddr.toString,
    "  Peer AS:         " ++ route.peerAs.toNat.repr,
    "  Next-hop:        " ++ nextHopText route.attrs,
    "  Local-pref:      " ++ localPrefText route.attrs,
    "  MED:             " ++ medText route.attrs,
    "  Origin:          " ++ originText route.attrs,
    "  AS-path:         " ++ asPathOr route.attrs "(empty)"] ++ communitiesLine route.attrs

def cmdBgpRibPrefix (v : View) (prefixStr : String) : String :=
  match splitOnce '/' prefixStr.toList with
  | none => "Invalid prefix format: '" ++ prefixStr ++ "'. Use X.X.X.X/LEN\n"
  | some (addrS, lenS) =>
    match addrFromStr addrS with
    | none => "Invalid address: '" ++ String.ofList addrS ++ "'\n"
    | some addr =>
      match parseU8 lenS with
      | none => "Invalid prefix length: '" ++ String.ofList lenS ++ "'\n"
      | some len =>
        match v.rib.locRib.lookup ⟨addr, len⟩ with
        | some route => prefixDetail prefixStr route
        | none => "Prefix " ++ prefixStr ++ " not found in Loc-RIB.\n"

/-- A listing of the entries a test keeps, as `cmd_bgp_rib_aspath` and `cmd_bgp_rib_nexthop` print it. -/
def cmdMatches (v : View) (p : PrefixKey × Route → Bool) (empty title : String)
    (row : PrefixKey × Route → String) :
    String :=
  if (v.rib.locRib.iterBy v.keys).filter p = [] then
    empty ++ "\n"
  else
    ofLines ([title, repeated 40 '='] ++ (v.rib.locRib.listing v.keys rank p).map row)

def viaAsn (asn : UInt32) (e : PrefixKey × Route) : Bool :=
  e.2.attrs.asPath.any fun seg => seg.asNumbers.contains asn

def viaNextHop (target : Ipv4Addr) (e : PrefixKey × Route) : Bool := e.2.attrs.nextHop == some target

def asPathRow (e : PrefixKey × Route) : String :=
  padEnd 20 e.1.toString ++ " via " ++ nextHopText e.2.attrs ++ " path " ++ asPathText e.2.attrs

def nextHopRow (e : PrefixKey × Route) : String :=
  padEnd 20 e.1.toString ++ " local-pref=" ++ localPrefText e.2.attrs ++ " path=" ++ asPathOr e.2.attrs "-"

def cmdBgpRibAspath (v : View) (asnStr : String) : String :=
  match parseU32 asnStr.toList with
  | none => "Invalid AS number: '" ++ asnStr ++ "'\n"
  | some asn =>
    cmdMatches v (viaAsn asn) ("No routes with ASN " ++ asn.toNat.repr ++ " in AS_PATH.")
      ("Routes with ASN " ++ asn.toNat.repr ++ " in AS_PATH") asPathRow

def cmdBgpRibNexthop (v : View) (ipStr : String) : String :=
  match addrFromStr ipStr.toList with
  | none => "Invalid IPv4 address: '" ++ ipStr ++ "'\n"
  | some target =>
    cmdMatches v (viaNextHop target) ("No routes with next-hop " ++ target.toString ++ ".")
      ("Routes via next-hop " ++ target.toString) nextHopRow

end Rib

section Peers

-- the `Display` of `BgpState` writes past the padding the column asks for
def cmdBgpSummary (v : View) : String :=
  ofLines (["BGP Summary",
    "===========",
    "Total prefixes in Loc-RIB: " ++ (summary v.rib).2.2.repr,
    "",
    padEnd 22 "Neighbor" ++ " " ++ padStart 8 "AS" ++ " " ++ padStart 12 "State" ++ " " ++ "Description",
    repeated 70 '-'] ++
      ((v.state.peers.iterBy v.peers).map fun (_, peer) =>
        padEnd 22 peer.addr.toString ++ " " ++ padStart 8 peer.remoteAs.toNat.repr ++ " " ++
          peer.state.toString ++ " " ++
          peer.description.getD "") ++
      if v.state.peers.keys = [] then ["(no peers configured)"] else [])

def neighborText (peer : PeerInfo) : String :=
  ofLines (["BGP neighbor " ++ peer.addr.toString,
    "  Remote AS:    " ++ peer.remoteAs.toNat.repr,
    "  State:        " ++ peer.state.toString,
    "  Routes rcvd:  " ++ peer.routesReceived.repr,
    "  Uptime:       " ++ peer.uptimeSecs.toNat.repr ++ "s"] ++
      (peer.description.map fun desc => "  Description:  " ++ desc).toList ++ [""])

def cmdBgpNeighbors (v : View) (filterIp : Option String) : String :=
  let all := (v.state.peers.iterBy v.peers).map Prod.snd
  let peers := match filterIp with
    | some ip => all.filter fun p => p.addr.ip.toString == ip
    | none => all
  if peers = [] then "No matching neighbors.\n" else String.join (peers.map neighborText)

end Peers

def cmdVersion (rustc : Option String) : String :=
  ofLines ["PathForge BGP daemon", "Version: 0.1.0", "Rustc:   " ++ rustc.getD "unknown"]

def cmdHelp : String :=
  ofLines ["Available commands:",
    "",
    "show bgp summary                — Peer summary and RIB count",
    "show bgp rib                    — Full BGP routing table (Loc-RIB)",
    "show bgp rib prefix X.X.X.X/N  — Detail for a specific prefix",
    "show bgp rib aspath <ASN>       — Routes containing ASN in AS_PATH",
    "show bgp rib nexthop <X.X.X.X>  — Routes with a specific next-hop",
    "show bgp neighbors              — All neighbor detail",
    "show bgp neighbors <ip>         — Specific neighbor detail",
    "show bgp metrics                — Human-readable counters",
    "metrics                         — Prometheus exposition format",
    "version                         — Daemon version",
    "help                            — Show this help",
    "quit / exit                     — Close connection"]

/-- The answer to a line, for the compiler version the build knows of. -/
def processCommand (rustc : Option String) (v : View) (cmd : String) : String :=
  match splitWhitespace cmd with
  | ["show", "bgp", "summary"] => cmdBgpSummary v
  | ["show", "bgp", "rib"] => cmdBgpRib v
  | ["show", "bgp", "rib", "prefix", pfx] => cmdBgpRibPrefix v pfx
  | ["show", "bgp", "rib", "aspath", asn] => cmdBgpRibAspath v asn
  | ["show", "bgp", "rib", "nexthop", ip] => cmdBgpRibNexthop v ip
  | ["show", "bgp", "neighbors"] => cmdBgpNeighbors v none
  | ["show", "bgp", "neighbors", ip] => cmdBgpNeighbors v (some ip)
  | ["show", "bgp", "metrics"] => v.metrics.textSummary
  | ["metrics"] => v.metrics.prometheusText
  | ["version"] => cmdVersion rustc
  | ["help"] => cmdHelp
  | [] => cmdHelp
  | ["quit"] => "Bye!\n"
  | ["exit"] => "Bye!\n"
  | _ => "Unknown command: '" ++ cmd ++ "'\nType 'help' for available commands.\n"

end PathForge.Management
