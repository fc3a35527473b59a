import PathForge.RoutingBase

namespace PathForge.Policy

open Wire Leading

inductive FilterAction where
  | permit | deny
  deriving DecidableEq

structure PrefixListEntry where
  action : FilterAction
  pfx : String
  ge : Option UInt8
  le : Option UInt8
  deriving DecidableEq

structure PrefixList where
  name : String
  entries : List PrefixListEntry
  deriving DecidableEq

structure CommunityList where
  name : String
  communities : List String
  deriving DecidableEq

structure PolicyConfig where
  prefixLists : List PrefixList := []
  communityLists : List CommunityList := []
  deriving DecidableEq

structure PolicyEngine where
  policy : PolicyConfig
  deriving DecidableEq

section Text

def splitOnce (c : Char) (s : List Char) : Option (List Char × List Char) :=
  match s.span (· ≠ c) with
  | (_, []) => none
  | (before, _ :: after) => some (before, after)

variable {α : Type}

def decimal (size : ℕ) (ofNat : ℕ → α) (s : List Char) : Option α :=
  if s = [] ∨ ¬ s.all Char.isDigit then
    none
  else
    let n := Nat.ofDigitChars 10 s 0
    if n < size then some (ofNat n) else none

/-- `str::parse` to an unsigned type: a plus sign may stand in front, and zeros. -/
def parseUnsigned (size : ℕ) (ofNat : ℕ → α) : List Char → Option α
  | '+' :: s => decimal size ofNat s
  | s => decimal size ofNat s

def parseU8 : List Char → Option UInt8 := parseUnsigned UInt8.size UInt8.ofNat

def parseU16 : List Char → Option UInt16 := parseUnsigned UInt16.size UInt16.ofNat

def parseU32 : List Char → Option UInt32 := parseUnsigned UInt32.size UInt32.ofNat

/-- A part of a dotted address: no zero in front of other digits. -/
def addrPart (s : List Char) : Option UInt8 :=
  if 1 < s.length ∧ s.head? = some '0' ∨ 3 < s.length then none else decimal UInt8.size UInt8.ofNat s

def addrFromStr (s : List Char) : Option Ipv4Addr := do
  let (a, s) ← splitOnce '.' s
  let (b, s) ← splitOnce '.' s
  let (c, d) ← splitOnce '.' s
  return .new (← addrPart a) (← addrPart b) (← addrPart c) (← addrPart d)

def parsePrefix (s : String) : Option (Ipv4Addr × UInt8) := do
  let (addrStr, lenStr) ← splitOnce '/' s.toList
  return (← addrFromStr addrStr, ← parseU8 lenStr)

def parseCommunityStr (s : String) : Option Community :=
  if s = "no-export" then some .noExport
  else if s = "no-advertise" then some .noAdvertise
  else if s = "no-export-subconfed" then some .noExportSubconfed
  else do
    let (asnStr, valStr) ← splitOnce ':' s.toList
    let asn ← parseU16 asnStr
    let val ← parseU16 valStr
    return ⟨(asn.toUInt32 <<< 16) ||| val.toUInt32⟩

end Text

def isSubnet (testAddr : Ipv4Addr) (testLen : UInt8) (netAddr : Ipv4Addr) (netLen : UInt8) : Option Bool :=
  if testLen < netLen then
    some false
  else if netLen = 0 then
    some true
  else do
    let bits ← checkedSub 32 netLen.toUInt32
    let mask := ~~~((← checkedShl 1 bits) - 1)
    return netAddr.toU32 &&& mask == testAddr.toU32 &&& mask

namespace PolicyEngine

def matchesEntry (entry : PrefixListEntry) (pfx : Prefix) : Option Bool :=
  match parsePrefix entry.pfx with
  | none => some false
  | some (netAddr, netLen) => do
    if ← isSubnet pfx.address pfx.prefixLen netAddr netLen then
      let pl := pfx.prefixLen
      let geOk := (entry.ge.map fun ge => decide (ge ≤ pl)).getD true
      let leOk := (entry.le.map fun le => decide (pl ≤ le)).getD true
      let exactOk := if entry.ge.isNone && entry.le.isNone then pl == netLen else true
      return geOk && leOk && exactOk
    else
      return false

def evaluateEntries (pfx : Prefix) : List PrefixListEntry → Option Bool
  | [] => some false
  | entry :: entries => do
    if ← matchesEntry entry pfx then
      return entry.action == .permit
    else
      evaluateEntries pfx entries

def evaluatePrefixList (list : PrefixList) (pfx : Prefix) (_attrs : PathAttributes) : Option Bool :=
  evaluateEntries pfx list.entries

def apply (e : PolicyEngine) (policyName : String) (pfx : Prefix) (attrs : PathAttributes) : Option Bool :=
  match e.policy.prefixLists.find? fun p => p.name == policyName with
  | some pl => evaluatePrefixList pl pfx attrs
  | none => some true

def hasCommunity (attrs : PathAttributes) (communityStr : String) : Bool :=
  match parseCommunityStr communityStr with
  | some c => attrs.communities.contains c
  | none => false

def matchesCommunityList (e : PolicyEngine) (listName : String) (attrs : PathAttributes) : Bool :=
  match e.policy.communityLists.find? fun c => c.name == listName with
  | some cl => cl.communities.any (hasCommunity attrs)
  | none => false

end PolicyEngine

end PathForge.Policy
