import PathForge.CommunityLists
import PathForge.PeerSession
import PathForge.TextLines

namespace PathForge

open Policy ByteReader Texts

section Addresses

def Ipv4Addr.toString (a : Ipv4Addr) : String := ".".intercalate (a.octets.toList.map fun o => o.toNat.repr)

namespace Ipv6Addr

def segmentsOf : Bytes → List ℕ
  | high :: low :: rest => (256 * high.toNat + low.toNat) :: segmentsOf rest
  | _ => []

structure Span where
  start : ℕ := 0
  len : ℕ := 0

/-- The first of the longest runs of zero segments. -/
def zeroes (segments : List ℕ) : Span :=
  (segments.zipIdx.foldl (fun (longest, current) (segment, i) =>
    if segment = 0 then
      let current : Span := ⟨if current.len = 0 then i else current.start, current.len + 1⟩
      (if longest.len < current.len then current else longest, current)
    else
      (longest, {})) (({}, {}) : Span × Span)).1

def subslice (chunk : List ℕ) : String := ":".intercalate (chunk.map fun n => String.ofList (Nat.toDigits 16 n))

def toIpv4Mapped (a : Ipv6Addr) : Option Ipv4Addr :=
  match a.octets.toList with
  | [0, 0, 0, 0, 0, 0, 0, 0, 0, 0, 0xFF, 0xFF, a, b, c, d] => some (.new a b c d)
  | _ => none

def toString (a : Ipv6Addr) : String :=
  match a.toIpv4Mapped with
  | some ipv4 => "::ffff:" ++ ipv4.toString
  | none =>
    let segments := segmentsOf a.octets.toList
    let z := zeroes segments
    if 1 < z.len then
      subslice (segments.take z.start) ++ "::" ++ subslice (segments.drop (z.start + z.len))
    else
      subslice segments

end Ipv6Addr

def IpAddr.toString : IpAddr → String
  | .v4 a => a.toString
  | .v6 a => a.toString

namespace SocketAddr

def ip : SocketAddr → IpAddr
  | .v4 ip _ => .v4 ip
  | .v6 ip _ _ _ => .v6 ip

def toString : SocketAddr → String
  | .v4 ip port => ip.toString ++ ":" ++ port.toNat.repr
  | .v6 ip port _ scopeId =>
    if scopeId = 0 then
      "[" ++ ip.toString ++ "]:" ++ port.toNat.repr
    else
      "[" ++ ip.toString ++ "%" ++ scopeId.toNat.repr ++ "]:" ++ port.toNat.repr

end SocketAddr

end Addresses

def Routing.PrefixKey.toString (k : Routing.PrefixKey) : String :=
  k.address.toString ++ "/" ++ k.prefixLen.toNat.repr

def Wire.Origin.toString : Wire.Origin → String
  | .igp => "IGP"
  | .egp => "EGP"
  | .incomplete => "Incomplete"

def Peering.BgpState.toString : Peering.BgpState → String
  | .idle => "Idle"
  | .connect => "Connect"
  | .active => "Active"
  | .openSent => "OpenSent"
  | .openConfirm => "OpenConfirm"
  | .established => "Established"

section Reading

theorem head?_toDigits {n : ℕ} (hn : 0 < n) : (Nat.toDigits 10 n).head? ≠ some '0' := by
  have hdigit : ∀ n < 10, 0 < n → [n.digitChar].head? ≠ some '0' := by decide
  induction n using Nat.strongRecOn with
  | ind n ih =>
    rw [Nat.toDigits_eq_if (by decide)]
    split_ifs with hsmall
    · exact hdigit n hsmall hn
    · rw [List.head?_append_of_ne_nil _ Nat.toDigits_ne_nil]
      exact ih (n / 10) (by omega) (by omega)

theorem addrPart_toDigits (n : UInt8) : addrPart (Nat.toDigits 10 n.toNat) = some n := by
  have hlen : (Nat.toDigits 10 n.toNat).length ≤ 3 :=
    (Nat.length_toDigits_le_iff (by decide) (by decide)).mpr (Nat.lt_trans n.toNat_lt (by decide))
  have hzero : ¬ (1 < (Nat.toDigits 10 n.toNat).length ∧ (Nat.toDigits 10 n.toNat).head? = some '0') := by
    rintro ⟨hlong, hhead⟩
    apply head?_toDigits _ hhead
    by_contra hn
    rw [Nat.eq_zero_of_not_pos hn] at hlong
    exact absurd hlong (by decide)
  rw [addrPart, if_neg (not_or.mpr ⟨hzero, by omega⟩), decimal_toDigits n.toNat_lt, UInt8.ofNat_toNat]

theorem toString_octets (a : Ipv4Addr) :
    ∃ b c d e : UInt8, a = .new b c d e ∧ a.toString.toList =
      Nat.toDigits 10 b.toNat ++ '.' :: (Nat.toDigits 10 c.toNat ++ '.' :: (Nat.toDigits 10 d.toNat ++
        '.' :: Nat.toDigits 10 e.toNat)) := by
  obtain ⟨⟨l, hl⟩⟩ := a
  obtain ⟨b, c, d, e, rfl⟩ := List.length_eq_four.mp hl
  refine ⟨b, c, d, e, rfl, ?_⟩
  rw [Ipv4Addr.toString, String.toList_intercalate]
  simp [Nat.toList_repr, List.intercalate, List.intersperse]

theorem addrFromStr_toString (a : Ipv4Addr) : addrFromStr a.toString.toList = some a := by
  obtain ⟨b, c, d, e, rfl, htext⟩ := toString_octets a
  have hdot (n : ℕ) := not_mem_toDigits (c := '.') n rfl
  rw [htext, addrFromStr]
  simp only [splitOnce_append (hdot _), Option.bind_eq_bind, Option.bind_some, addrPart_toDigits, Option.pure_def]

theorem solid_toString (a : Ipv4Addr) : Solid a.toString.toList := by
  obtain ⟨b, c, d, e, -, htext⟩ := toString_octets a
  have hdot (n : ℕ) {s : List Char} (hs : Solid s) : Solid (Nat.toDigits 10 n ++ '.' :: s) :=
    (solid_toDigits n).append (List.forall_mem_cons.mpr ⟨rfl, hs⟩)
  rw [htext]
  exact hdot _ (hdot _ (hdot _ (solid_toDigits _)))

theorem toString_ne_empty (a : Ipv4Addr) : a.toString ≠ "" := by
  obtain ⟨b, c, d, e, -, htext⟩ := toString_octets a
  intro h
  simp [h] at htext

theorem notMem_toString (a : Ipv4Addr) {c : Char} (hc : c.isDigit = false) (hdot : c ≠ '.') :
    c ∉ a.toString.toList := by
  obtain ⟨b, c', d, e, -, htext⟩ := toString_octets a
  simp [htext, not_mem_toDigits _ hc, hdot]

namespace Routing.PrefixKey

theorem toString_toList (k : PrefixKey) :
    k.toString.toList = k.address.toString.toList ++ '/' :: Nat.toDigits 10 k.prefixLen.toNat := by
  simp [toString, Nat.toList_repr]

theorem solid_toString (k : PrefixKey) : Solid k.toString.toList := by
  rw [toString_toList]
  exact (PathForge.solid_toString _).append (List.forall_mem_cons.mpr ⟨rfl, solid_toDigits _⟩)

theorem toString_ne_empty (k : PrefixKey) : k.toString ≠ "" := by
  intro h
  have hl := toString_toList k
  simp [h] at hl

theorem parsePrefix_toString (k : PrefixKey) : parsePrefix k.toString = some (k.address, k.prefixLen) := by
  rw [parsePrefix, toString_toList, splitOnce_append (notMem_toString _ rfl (by decide))]
  simp only [Option.bind_eq_bind, Option.bind_some, addrFromStr_toString, parseU8_toDigits, Option.pure_def]

end Routing.PrefixKey

end Reading

end PathForge
