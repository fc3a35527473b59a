import PathForge.SessionMessages

namespace PathForge.Peering

open ByteReader Wire

inductive Capability where
  | multiProtocol (afi : UInt16) (safi : UInt8)
  | routeRefresh
  | fourOctetAsn (asn : UInt32)
  | gracefulRestart (restartTime : UInt16) (flags : UInt8)
  | unknown (code : UInt8) (data : Bytes)
  deriving DecidableEq

namespace Capability

def value : Capability → Bytes
  | multiProtocol afi safi => putU16 afi ++ [0, safi]
  | routeRefresh => []
  | fourOctetAsn asn => putU32 asn
  | gracefulRestart restartTime flags => putU16 (((flags.toUInt16 &&& 0xF) <<< 12) ||| (restartTime &&& 0x0FFF))
  | unknown _ data => data

def code : Capability → UInt8
  | multiProtocol _ _ => 1
  | routeRefresh => 2
  | gracefulRestart _ _ => 64
  | fourOctetAsn _ => 65
  | unknown code _ => code

def toBytes (c : Capability) : Bytes := [c.code, UInt8.ofNat c.value.length] ++ c.value

def parseOne (code : UInt8) (data : Bytes) : Capability :=
  match code.toNat, data with
  | 1, a :: b :: _ :: d :: _ => multiProtocol (UInt16.ofNat (beNat [a, b])) d
  | 2, _ => routeRefresh
  | 64, a :: b :: _ =>
    let word := UInt16.ofNat (beNat [a, b])
    gracefulRestart (word &&& 0x0FFF) ((word >>> 12) &&& 0xF).toUInt8
  | 65, a :: b :: c :: d :: _ => fourOctetAsn (UInt32.ofNat (beNat [a, b, c, d]))
  | _, _ => unknown code data

def scanCaps (data : Bytes) (stop : ℕ) : (fuel capPos : ℕ) → List Capability → Option (List Capability)
  | 0, _, _ => none
  | fuel + 1, capPos, caps =>
    if capPos + 2 ≤ stop then do
      let capCode ← data[capPos]?
      let capLen ← data[capPos + 1]?
      let capEnd := capPos + 2 + capLen.toNat
      if data.length < capEnd then
        return caps
      else
        let capData := (data.drop (capPos + 2)).take capLen.toNat
        scanCaps data stop fuel capEnd (caps ++ [parseOne capCode capData])
    else
      some caps

def scanParams (data : Bytes) : (fuel pos : ℕ) → List Capability → Option (List Capability)
  | 0, _, _ => none
  | fuel + 1, pos, caps =>
    if pos + 2 ≤ data.length then do
      let paramType ← data[pos]?
      let paramLen ← data[pos + 1]?
      let stop := min (pos + 2 + paramLen.toNat) data.length
      let caps ← if paramType = 2 then scanCaps data stop (data.length + 1) (pos + 2) caps else some caps
      scanParams data fuel (pos + 2 + paramLen.toNat) caps
    else
      some caps

def parseOptionalParams (data : Bytes) : Option (List Capability) := scanParams data (data.length + 1) 0 []

def parseFromOpenParams (params : List OptionalParam) : Option (List Capability) :=
  parseOptionalParams (params.flatMap OptionalParam.serialize)

theorem exists_scanCaps {data : Bytes} {stop : ℕ} (hs : stop ≤ data.length) (fuel capPos : ℕ) (hp : 0 < fuel)
    (hf : data.length < capPos + fuel) (caps : List Capability) :
    ∃ l, scanCaps data stop fuel capPos caps = some l := by
  induction fuel generalizing capPos caps with
  | zero => omega
  | succ fuel ih =>
    rw [scanCaps]
    split_ifs with hc
    · rw [List.getElem?_eq_getElem (show capPos < data.length by omega),
        List.getElem?_eq_getElem (show capPos + 1 < data.length by omega)]
      simp only [Option.bind_eq_bind, Option.bind_some]
      split_ifs
      · exact ⟨_, rfl⟩
      · exact ih _ (by omega) (by omega) _
    · exact ⟨_, rfl⟩

theorem exists_scanParams (data : Bytes) (fuel pos : ℕ) (hp : 0 < fuel) (hf : data.length < pos + fuel)
    (caps : List Capability) : ∃ l, scanParams data fuel pos caps = some l := by
  induction fuel generalizing pos caps with
  | zero => omega
  | succ fuel ih =>
    rw [scanParams]
    split_ifs with hc
    · rw [List.getElem?_eq_getElem (show pos < data.length by omega),
        List.getElem?_eq_getElem (show pos + 1 < data.length by omega)]
      simp only [Option.bind_eq_bind, Option.bind_some]
      split_ifs
      · obtain ⟨l, hl⟩ := exists_scanCaps (Nat.min_le_right _ data.length) (data.length + 1) (pos + 2)
          (by omega) (by omega) caps
        rw [hl, Option.bind_some]
        exact ih _ (by omega) (by omega) _
      · exact ih _ (by omega) (by omega) _
    · exact ⟨_, rfl⟩

theorem exists_parseFromOpenParams (params : List OptionalParam) : ∃ l, parseFromOpenParams params = some l :=
  exists_scanParams _ _ _ (by omega) (by omega) []

end Capability

def newWithCapabilities (myAs holdTime : UInt16) (bgpId : Ipv4Addr) (caps : List Capability) : OpenMessage :=
  if caps = [] then
    .new myAs holdTime bgpId
  else
    { OpenMessage.new myAs holdTime bgpId with optionalParams := [⟨2, caps.flatMap Capability.toBytes⟩] }

def buildCapabilities (caps : List Capability) : Bytes :=
  let capBytes := caps.flatMap Capability.toBytes
  if capBytes = [] then
    [0]
  else
    let out := [2, UInt8.ofNat capBytes.length] ++ capBytes
    [UInt8.ofNat out.length] ++ out

end PathForge.Peering
