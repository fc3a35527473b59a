import PathForge.Addresses

namespace PathForge.Wire

open Fallible ByteReader

inductive Origin where
  | igp
  | egp
  | incomplete
  deriving DecidableEq

inductive AsPathSegment where
  | asSet (asns : List UInt32)
  | asSequence (asns : List UInt32)
  deriving DecidableEq

inductive AttrError where
  | tooShort
  | invalidOrigin (v : UInt8)
  | invalidAsPathSegment (segType : UInt8)
  | parse (msg : String)
  deriving DecidableEq

def AttrError.toString : AttrError → String
  | .tooShort => "Attribute too short"
  | .invalidOrigin v => "Invalid ORIGIN value: " ++ ToString.toString v
  | .invalidAsPathSegment t => "Invalid AS_PATH segment type: " ++ ToString.toString t
  | .parse msg => "Parse error: " ++ msg

structure Community where
  bits : UInt32
  deriving DecidableEq

namespace Community

def noExport : Community := ⟨0xFFFFFF01⟩
def noAdvertise : Community := ⟨0xFFFFFF02⟩
def noExportSubconfed : Community := ⟨0xFFFFFF03⟩

def asn (c : Community) : UInt16 := (c.bits >>> 16).toUInt16

def value (c : Community) : UInt16 := c.bits.toUInt16

def toString (c : Community) : String :=
  if c = noExport then "no-export"
  else if c = noAdvertise then "no-advertise"
  else if c = noExportSubconfed then "no-export-subconfed"
  else ToString.toString c.asn ++ ":" ++ ToString.toString c.value

end Community

structure RawAttribute where
  flags : UInt8
  typeCode : UInt8
  value : Bytes
  deriving DecidableEq

structure PathAttributes where
  origin : Option Origin := none
  asPath : List AsPathSegment := []
  nextHop : Option Ipv4Addr := none
  multiExitDisc : Option UInt32 := none
  localPref : Option UInt32 := none
  atomicAggregate : Bool := false
  aggregator : Option (UInt16 × Ipv4Addr) := none
  communities : List Community := []
  originatorId : Option Ipv4Addr := none
  clusterList : List Ipv4Addr := []
  unknown : List RawAttribute := []
  deriving DecidableEq

def flagOptional : UInt8 := 0x80
def flagTransitive : UInt8 := 0x40
def flagExtendedLen : UInt8 := 0x10

def Origin.tryFrom (v : UInt8) : Except AttrError Origin :=
  match v.toNat with
  | 0 => .ok .igp
  | 1 => .ok .egp
  | 2 => .ok .incomplete
  | _ => .error (.invalidOrigin v)

def Origin.toU8 : Origin → UInt8
  | .igp => 0
  | .egp => 1
  | .incomplete => 2

namespace AsPathSegment

def asNumbers : AsPathSegment → List UInt32
  | .asSet v => v
  | .asSequence v => v

def segType : AsPathSegment → UInt8
  | .asSet _ => 1
  | .asSequence _ => 2

def parse : Reader AttrError AsPathSegment := do
  let segType ← getU8
  let segLen ← getU8
  checkRemaining (segLen.toNat * 4) fun _ => .tooShort
  let asns ← repeatRead segLen.toNat getU32
  match segType.toNat with
  | 1 => return .asSet asns
  | 2 => return .asSequence asns
  | _ => fail (.invalidAsPathSegment segType)

def serialize (seg : AsPathSegment) : Bytes :=
  [seg.segType, UInt8.ofNat seg.asNumbers.length] ++ seg.asNumbers.flatMap putU32

end AsPathSegment

def parseLength (flags : UInt8) : Reader AttrError ℕ :=
  if flags &&& flagExtendedLen ≠ 0 then do
    checkRemaining 2 fun _ => .tooShort
    let n ← getU16
    return n.toNat
  else do
    checkRemaining 1 fun _ => .tooShort
    let n ← getU8
    return n.toNat

/-- The framing half of one round of `PathAttributes::parse`: flags, type code, length, value. -/
def RawAttribute.parse : Reader AttrError RawAttribute := do
  let flags ← getU8
  let typeCode ← getU8
  let length ← parseLength flags
  checkRemaining length fun _ => .tooShort
  let value ← copyToBytes length
  return ⟨flags, typeCode, value⟩

def u32Value (value : Bytes) : Reader AttrError UInt32 :=
  within value (do
    checkRemaining 4 fun _ => .tooShort
    getU32)

def aggregatorValue (value : Bytes) : Reader AttrError (UInt16 × Ipv4Addr) :=
  within value (do
    checkRemaining 6 fun _ => .tooShort
    let asn ← getU16
    let ip ← getU32
    return (asn, Ipv4Addr.ofU32 ip))

namespace PathAttributes

def isEmpty (a : PathAttributes) : Bool :=
  a.origin.isNone && a.asPath.isEmpty && a.nextHop.isNone && a.multiExitDisc.isNone &&
    a.localPref.isNone && !a.atomicAggregate && a.aggregator.isNone && a.communities.isEmpty &&
    a.originatorId.isNone && a.clusterList.isEmpty && a.unknown.isEmpty

/-- The dispatch half of one round of `PathAttributes::parse`. -/
def store (a : PathAttributes) (raw : RawAttribute) : Reader AttrError PathAttributes :=
  match raw.typeCode.toNat with
  | 1 => match raw.value with
    | [] => fail .tooShort
    | v :: _ => do
      let o ← ofExcept (Origin.tryFrom v)
      return { a with origin := some o }
  | 2 => do
    let segs ← within raw.value (pushWhile 2 AsPathSegment.parse a.asPath)
    return { a with asPath := segs }
  | 3 => do
    let n ← u32Value raw.value
    return { a with nextHop := some (Ipv4Addr.ofU32 n) }
  | 4 => do
    let n ← u32Value raw.value
    return { a with multiExitDisc := some n }
  | 5 => do
    let n ← u32Value raw.value
    return { a with localPref := some n }
  | 6 => return { a with atomicAggregate := true }
  | 7 => do
    let v ← aggregatorValue raw.value
    return { a with aggregator := some v }
  | 8 => do
    let cs ← within raw.value (pushWhile 4 (do let n ← getU32; return ⟨n⟩) a.communities)
    return { a with communities := cs }
  | 9 => do
    let n ← u32Value raw.value
    return { a with originatorId := some (Ipv4Addr.ofU32 n) }
  | 10 => do
    let ids ← within raw.value (pushWhile 4 (do let n ← getU32; return Ipv4Addr.ofU32 n) a.clusterList)
    return { a with clusterList := ids }
  | _ => return { a with unknown := a.unknown ++ [raw] }

def parseRound (a : PathAttributes) : Reader AttrError PathAttributes := do
  let raw ← RawAttribute.parse
  a.store raw

def parseFrom : PathAttributes → Reader AttrError PathAttributes :=
  loop List.length (fun _ b => decide (3 ≤ b.length)) parseRound

def parse : Reader AttrError PathAttributes := parseFrom {}

def writeAttr (flags typeCode : UInt8) (value : Bytes) : Bytes :=
  if 255 < value.length then
    [flags ||| flagExtendedLen, typeCode] ++ putU16 (UInt16.ofNat value.length) ++ value
  else
    [flags, typeCode, UInt8.ofNat value.length] ++ value

def serialize (a : PathAttributes) : Bytes :=
  (a.origin.elim [] fun o => writeAttr flagTransitive 1 [o.toU8]) ++
  (if a.asPath = [] then [] else writeAttr flagTransitive 2 (a.asPath.flatMap AsPathSegment.serialize)) ++
  (a.nextHop.elim [] fun nh => writeAttr flagTransitive 3 (putU32 nh.toU32)) ++
  (a.multiExitDisc.elim [] fun med => writeAttr flagOptional 4 (putU32 med)) ++
  (a.localPref.elim [] fun lp => writeAttr flagTransitive 5 (putU32 lp)) ++
  (if a.atomicAggregate then writeAttr flagTransitive 6 [] else []) ++
  (a.aggregator.elim [] fun v =>
    writeAttr (flagOptional ||| flagTransitive) 7 (putU16 v.1 ++ putU32 v.2.toU32)) ++
  (if a.communities = [] then []
    else writeAttr (flagOptional ||| flagTransitive) 8 (a.communities.flatMap fun c => putU32 c.bits)) ++
  (a.originatorId.elim [] fun id => writeAttr flagOptional 9 (putU32 id.toU32)) ++
  (if a.clusterList = [] then []
    else writeAttr flagOptional 10 (a.clusterList.flatMap fun ip => putU32 ip.toU32)) ++
  a.unknown.flatMap fun raw => writeAttr raw.flags raw.typeCode raw.value

def asPathLen (a : PathAttributes) : ℕ :=
  (a.asPath.map fun
    | .asSet _ => 1
    | .asSequence v => v.length).sum

end PathAttributes

end PathForge.Wire
