import PathForge.Addresses

namespace PathForge.Routing

structure Roa where
  net : Ipv4Addr
  prefixLen : UInt8
  maxLength : UInt8
  originAs : UInt32
  deriving DecidableEq

inductive RovState where
  | valid | invalid | notFound
  deriving DecidableEq

inductive RpkiMode where
  | disabled | loose | strict
  deriving DecidableEq

structure RpkiValidator where
  mode : RpkiMode := .disabled
  roas : List Roa := []
  deriving DecidableEq

def shiftOut (n : UInt32) (bits : UInt8) : Option UInt32 :=
  if bits < 32 then some (n >>> bits.toUInt32 <<< bits.toUInt32) else none

/-- Gives `none` where the arithmetic of the source overflows. -/
def Roa.covers (r : Roa) (addr : Ipv4Addr) (len : UInt8) : Option Bool :=
  if len < r.prefixLen ∨ r.maxLength < len then
    some false
  else if 32 < r.prefixLen then
    none
  else do
    let bits := 32 - r.prefixLen
    let roaNet ← shiftOut r.net.toU32 bits
    let addrNet ← shiftOut addr.toU32 bits
    return roaNet == addrNet

namespace RpkiValidator

def addRoa (v : RpkiValidator) (roa : Roa) : RpkiValidator := { v with roas := v.roas ++ [roa] }

def validate (v : RpkiValidator) (addr : Ipv4Addr) (prefixLen : UInt8) (originAs : UInt32) : Option RovState :=
  if v.mode = .disabled then
    some .notFound
  else do
    let covering ← v.roas.filterM fun r => r.covers addr prefixLen
    if covering = [] then
      return .notFound
    else if covering.any fun r => r.originAs == originAs then
      return .valid
    else
      return .invalid

def shouldReject (v : RpkiValidator) (state : RovState) : Bool := v.mode == .strict && state == .invalid

end RpkiValidator

end PathForge.Routing
