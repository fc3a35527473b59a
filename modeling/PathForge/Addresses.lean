import PathForge.ByteReader

namespace PathForge

open ByteReader

@[ext] structure Octets (n : ℕ) where
  toList : Bytes
  length_toList : toList.length = n
  deriving DecidableEq

attribute [simp] Octets.length_toList

def Octets.padded (n : ℕ) (b : Bytes) : Octets n := ⟨(b ++ List.replicate n 0).take n, by simp⟩

theorem Octets.padded_take {n k : ℕ} (v : Octets n) (h : ∀ x ∈ v.toList.drop k, x = 0) :
    padded n (v.toList.take k) = v := by
  have hz : v.toList.drop k = List.replicate (n - k) 0 :=
    List.eq_replicate_iff.mpr ⟨by simp, h⟩
  have hl : (v.toList.take k).length = min k n := by simp
  ext1
  simp only [padded]
  rw [List.take_append, hl, List.take_replicate, List.take_of_length_le (by omega),
    show min (n - min k n) n = n - k by omega, ← hz, List.take_append_drop]

structure Ipv4Addr where
  octets : Octets 4
  deriving DecidableEq

structure Ipv6Addr where
  octets : Octets 16
  deriving DecidableEq

inductive IpAddr where
  | v4 (a : Ipv4Addr)
  | v6 (a : Ipv6Addr)
  deriving DecidableEq

def IpAddr.octets : IpAddr → Bytes
  | .v4 a => a.octets.toList
  | .v6 a => a.octets.toList

inductive SocketAddr where
  | v4 (ip : Ipv4Addr) (port : UInt16)
  | v6 (ip : Ipv6Addr) (port : UInt16) (flowinfo scopeId : UInt32)
  deriving DecidableEq

namespace Ipv4Addr

def new (a b c d : UInt8) : Ipv4Addr := ⟨⟨[a, b, c, d], rfl⟩⟩

def ofU32 (n : UInt32) : Ipv4Addr := ⟨⟨putU32 n, putU32_length n⟩⟩

def toU32 (a : Ipv4Addr) : UInt32 := UInt32.ofNat (beNat a.octets.toList)

theorem putU32_toU32 (a : Ipv4Addr) : putU32 a.toU32 = a.octets.toList := by
  have hb := beNat_lt a.octets.toList
  have h := natBe_beNat a.octets.toList
  rw [a.octets.length_toList] at hb h
  rwa [putU32, toU32, UInt32.toNat_ofNat', Nat.mod_eq_of_lt (by simpa using hb)]

theorem ofU32_toU32 (a : Ipv4Addr) : ofU32 a.toU32 = a := by
  obtain ⟨o⟩ := a
  simp only [ofU32, mk.injEq]
  exact Octets.ext (putU32_toU32 ⟨o⟩)

theorem toU32_ofU32 (n : UInt32) : (ofU32 n).toU32 = n := by
  have hn := n.toNat_lt
  apply UInt32.toNat_inj.mp
  simp only [toU32, ofU32, putU32, beNat_natBe, UInt32.toNat_ofNat']
  omega

end Ipv4Addr

end PathForge
