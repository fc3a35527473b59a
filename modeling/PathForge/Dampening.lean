import PathForge.HashTables
import PathForge.NlriPrefixes
import Mathlib.Data.Rat.Init
import Mathlib.Data.Stream.Defs
import Mathlib.Algebra.Order.Ring.Rat

namespace PathForge.Routing

open Tables

structure PrefixKey where
  address : Ipv4Addr
  prefixLen : UInt8
  deriving DecidableEq

def PrefixKey.ofPrefix (p : Wire.Prefix) : PrefixKey := ⟨p.address, p.prefixLen⟩

abbrev Instant := ℕ
abbrev Clock := Stream' Instant

/-- The floating-point expression `penalty * 0.5.powf(elapsed / half_life)`. -/
abbrev Decay := (halfLifeSecs elapsedSecs penalty : ℚ) → ℚ

/-- What the outside decides during one call. -/
structure Host where
  clock : Clock
  decayed : Decay
  peers : IterOrder SocketAddr
  keys : IterOrder PrefixKey

def now : StateM Clock Instant := modifyGet fun c => (c.head, c.tail)

structure PrefixDampening where
  penalty : ℚ
  suppressed : Bool
  suppressedAt : Option Instant
  lastDecay : Instant
  suppressCount : UInt32
  deriving DecidableEq

structure DampeningConfig where
  penaltyPerFlap : ℚ := 1000
  suppressLimit : ℚ := 2000
  reuseLimit : ℚ := 750
  halfLifeSecs : ℚ := 900
  /-- in nanoseconds -/
  maxSuppressTime : ℕ := 3600 * 10 ^ 9
  deriving DecidableEq

structure DampeningTable where
  state : HashMap (SocketAddr × PrefixKey) PrefixDampening := ∅
  config : DampeningConfig := {}

namespace PrefixDampening

def new : StateM Clock PrefixDampening := do
  return ⟨0, false, none, ← now, 0⟩

def decay (decayed : Decay) (halfLifeSecs : ℚ) (e : PrefixDampening) : StateM Clock PrefixDampening := do
  let elapsed := (← now) - e.lastDecay
  if 0 < elapsed then
    let penalty := decayed halfLifeSecs (elapsed / 10 ^ 9) e.penalty
    return { e with penalty := penalty, lastDecay := ← now }
  else
    return e

def timedOut (limit : ℕ) (e : PrefixDampening) : StateM Clock Bool :=
  match e.suppressedAt with
  | some since => do return decide (limit ≤ (← now) - since)
  | none => return false

end PrefixDampening

namespace DampeningTable

def set (t : DampeningTable) (peer : SocketAddr) (key : PrefixKey) (e : PrefixDampening) : DampeningTable :=
  { t with state := t.state.insert (peer, key) e }

def recordWithdrawal (decayed : Decay) (t : DampeningTable) (peer : SocketAddr) (key : PrefixKey) :
    StateM Clock (Bool × DampeningTable) := do
  let entry ← match t.state.lookup (peer, key) with
    | some e => pure e
    | none => PrefixDampening.new
  let entry ← entry.decay decayed t.config.halfLifeSecs
  let entry := { entry with penalty := entry.penalty + t.config.penaltyPerFlap }
  if entry.suppressed = false ∧ t.config.suppressLimit ≤ entry.penalty then
    let entry := { entry with
                   suppressed := true, suppressedAt := some (← now), suppressCount := entry.suppressCount + 1 }
    return (true, t.set peer key entry)
  else
    return (entry.suppressed, t.set peer key entry)

def checkAdvertisement (decayed : Decay) (t : DampeningTable) (peer : SocketAddr) (key : PrefixKey) :
    StateM Clock (Bool × DampeningTable) := do
  match t.state.lookup (peer, key) with
  | none => return (false, t)
  | some entry =>
    let entry ← entry.decay decayed t.config.halfLifeSecs
    if ← entry.timedOut t.config.maxSuppressTime then
      return (false, t.set peer key { entry with suppressed := false, suppressedAt := none })
    else if entry.suppressed = true ∧ entry.penalty < t.config.reuseLimit then
      return (false, t.set peer key { entry with suppressed := false, suppressedAt := none })
    else
      return (entry.suppressed, t.set peer key entry)

def currentPenalty (decayed : Decay) (t : DampeningTable) (peer : SocketAddr) (key : PrefixKey) :
    StateM Clock (ℚ × DampeningTable) := do
  let entry ← match t.state.lookup (peer, key) with
    | some e => pure e
    | none => PrefixDampening.new
  let entry ← entry.decay decayed t.config.halfLifeSecs
  return (entry.penalty, t.set peer key entry)

def isSuppressed (t : DampeningTable) (peer : SocketAddr) (key : PrefixKey) : Bool :=
  ((t.state.lookup (peer, key)).map PrefixDampening.suppressed).getD false

def removePeer (t : DampeningTable) (peer : SocketAddr) : DampeningTable :=
  { t with state := t.state.retain fun k => k.1 ≠ peer }

end DampeningTable

end PathForge.Routing
