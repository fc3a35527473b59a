import PathForge.Addresses
import PathForge.MessageFraming

namespace PathForge.Wire

open Fallible ByteReader

variable {ε α : Type}

def byteLen (prefixLen : UInt8) : ℕ := (prefixLen.toNat + 7) / 8

def fillOctets (n k : ℕ) : Reader ε (Octets n) := do
  -- the copy stops at the end of the array, whatever length was checked
  let b ← repeatRead (min n k) getU8
  return .padded n b

def readPrefix (short : ℕ → ℕ → ε) (address : ℕ → Reader ε α) : Reader ε (UInt8 × α) := do
  checkRemaining 1 (short 1)
  let prefixLen ← getU8
  checkRemaining (byteLen prefixLen) (short (byteLen prefixLen))
  let a ← address (byteLen prefixLen)
  return (prefixLen, a)

def sliceTo {n : ℕ} (octets : Octets n) (k : ℕ) : Option Bytes :=
  if k ≤ n then some (octets.toList.take k) else none

structure Prefix where
  prefixLen : UInt8
  address : Ipv4Addr
  deriving DecidableEq

namespace Prefix

def encodedLen (p : Prefix) : ℕ := byteLen p.prefixLen

def parse : Reader MessageError Prefix := do
  let (prefixLen, octets) ← readPrefix .tooShort (fillOctets 4)
  return ⟨prefixLen, ⟨octets⟩⟩

def serialize (p : Prefix) : Option Bytes := do
  let bytes ← sliceTo p.address.octets p.encodedLen
  return p.prefixLen :: bytes

end Prefix

inductive Afi where
  | ipv4 | ipv6
  deriving DecidableEq

inductive MpError where
  | unknownAfi (v : UInt16)
  | unknownSafi (v : UInt8)
  | tooShort
  | invalidAddress
  deriving DecidableEq

structure MpPrefix where
  afi : Afi
  prefixLen : UInt8
  address : IpAddr
  deriving DecidableEq

namespace MpPrefix

def encodedLen (p : MpPrefix) : ℕ := byteLen p.prefixLen

def parseAddress (afi : Afi) (k : ℕ) : Reader MpError IpAddr :=
  match afi with
  | .ipv4 => do
    let b ← fillOctets 4 k
    return .v4 ⟨b⟩
  | .ipv6 => do
    let b ← fillOctets 16 k
    return .v6 ⟨b⟩

def parse (afi : Afi) : Reader MpError MpPrefix := do
  let (prefixLen, address) ← readPrefix (fun _ _ => .tooShort) (parseAddress afi)
  return ⟨afi, prefixLen, address⟩

def serialize (p : MpPrefix) : Option Bytes := do
  let bytes ← match p.address with
    | .v4 a => sliceTo a.octets p.encodedLen
    | .v6 a => sliceTo a.octets p.encodedLen
  return p.prefixLen :: bytes

end MpPrefix

section Reading

theorem run_fillOctets_eq_ok {n k : ℕ} {s t : Bytes} {o : Octets n} :
    (fillOctets n k : Reader ε _).run s = some (.ok o, t) ↔
      ∃ c, s = c ++ t ∧ c.length = min n k ∧ o = .padded n c := by
  have hi (s : Bytes) (x : UInt8) (t : Bytes) :
      (getU8 : Reader ε UInt8).run s = some (.ok x, t) ↔ s = [x] ++ t := run_getU8_eq_ok
  rw [fillOctets, run_bind_eq_ok]
  constructor
  · rintro ⟨c, u, hc, hp⟩
    obtain ⟨rfl, rfl⟩ := run_pure_eq_ok.mp hp
    obtain ⟨hl, rfl⟩ := (run_repeatRead_eq_ok hi).mp hc
    exact ⟨c, by rw [List.flatMap_singleton'], hl, rfl⟩
  · rintro ⟨c, rfl, hl, rfl⟩
    exact ⟨c, t, (run_repeatRead_eq_ok hi).mpr ⟨hl, by rw [List.flatMap_singleton']⟩, rfl⟩

theorem ends_fillOctets {n k : ℕ} {s : Bytes} (h : k ≤ s.length) :
    Ends (fillOctets n k : Reader ε _) (onOk fun _ t => t.length ≤ s.length) s := by
  have hbytes : Ends (repeatRead (min n k) getU8 : Reader ε _)
      (onOk fun _ t => s.length = min n k * 1 + t.length) s := by
    apply ends_repeatRead (by omega)
    intro s hs
    exact (ends_getU8 hs).mono fun x t ht => by simp [ht]; omega
  apply ends_bind hbytes
  intro c t ht
  exact ends_pure (by omega)

theorem run_readPrefix_eq_ok {short : ℕ → ℕ → ε} {address : ℕ → Reader ε α} {b t : Bytes} {n : UInt8} {a : α} :
    (readPrefix short address).run b = some (.ok (n, a), t) ↔
      ∃ s, b = n :: s ∧ byteLen n ≤ s.length ∧ (address (byteLen n)).run s = some (.ok a, t) := by
  constructor
  · intro h
    obtain ⟨_, s₀, h₀, hr₀⟩ := run_bind_eq_ok.mp h
    obtain ⟨-, rfl⟩ := run_ensure_eq_ok.mp h₀
    obtain ⟨m, s₁, h₁, hr₁⟩ := run_bind_eq_ok.mp hr₀
    obtain rfl := run_getU8_eq_ok.mp h₁
    obtain ⟨_, s₂, h₂, hr₂⟩ := run_bind_eq_ok.mp hr₁
    obtain ⟨hl, rfl⟩ := run_ensure_eq_ok.mp h₂
    obtain ⟨x, s₃, h₃, hp⟩ := run_bind_eq_ok.mp hr₂
    obtain ⟨hx, rfl⟩ := run_pure_eq_ok.mp hp
    obtain ⟨rfl, rfl⟩ := Prod.mk.inj hx
    exact ⟨s₁, rfl, hl, h₃⟩
  · rintro ⟨s, rfl, hl, ha⟩
    rw [readPrefix, run_bind_ok _ (run_check (by simp)), run_bind_ok _ (run_getU8_cons n s),
      run_bind_ok _ (run_check hl), run_bind_ok _ ha, run_pure]

theorem ends_readPrefix {short : ℕ → ℕ → ε} {address : ℕ → Reader ε α} {b : Bytes}
    (ha : ∀ k (s : Bytes), k ≤ s.length → Ends (address k) (onOk fun _ t => t.length ≤ s.length) s) :
    Ends (readPrefix short address) (onOk fun _ t => t.length < b.length) b := by
  apply ends_bind ends_check
  rintro _ _ ⟨hb, rfl⟩
  apply ends_bind (ends_getU8 hb)
  rintro n s rfl
  apply ends_bind ends_check
  rintro _ _ ⟨hl, rfl⟩
  apply ends_bind (ha _ _ hl)
  intro a t ht
  exact ends_pure (by simp; omega)

theorem Prefix.run_parse_eq_ok {b t : Bytes} {p : Prefix} :
    parse.run b = some (.ok p, t) ↔
      ∃ c, b = p.prefixLen :: (c ++ t) ∧ p.encodedLen ≤ (c ++ t).length ∧ c.length = min 4 p.encodedLen ∧
        p.address.octets = .padded 4 c := by
  rw [parse, run_bind_eq_ok]
  constructor
  · rintro ⟨⟨n, o⟩, u, hr, hp⟩
    obtain ⟨rfl, rfl⟩ := run_pure_eq_ok.mp hp
    obtain ⟨s, rfl, hl, hf⟩ := run_readPrefix_eq_ok.mp hr
    obtain ⟨c, rfl, hc, rfl⟩ := run_fillOctets_eq_ok.mp hf
    exact ⟨c, rfl, hl, hc, rfl⟩
  · rintro ⟨c, rfl, hl, hc, ho⟩
    obtain ⟨n, ⟨o⟩⟩ := p
    exact ⟨(n, o), t, run_readPrefix_eq_ok.mpr ⟨_, rfl, hl, run_fillOctets_eq_ok.mpr ⟨c, rfl, hc, ho⟩⟩, rfl⟩

theorem Prefix.consumes_parse : Consumes Prefix.parse := by
  intro b p t h
  obtain ⟨c, rfl, -⟩ := run_parse_eq_ok.mp h
  simp only [List.length_cons, List.length_append]
  omega

theorem Prefix.ends_parse {b : Bytes} : Ends Prefix.parse (onOk fun _ t => t.length < b.length) b := by
  apply ends_bind (ends_readPrefix fun k s hk => ends_fillOctets hk)
  rintro ⟨n, o⟩ t ht
  exact ends_pure ht

theorem MpPrefix.run_parse_ok {afi : Afi} {b t : Bytes} {p : MpPrefix} (h : (parse afi).run b = some (.ok p, t)) :
    ∃ c, b = p.prefixLen :: (c ++ t) ∧
      match afi with
      | .ipv4 => c.length = min 4 p.encodedLen ∧ p.address = .v4 ⟨.padded 4 c⟩
      | .ipv6 => c.length = min 16 p.encodedLen ∧ p.address = .v6 ⟨.padded 16 c⟩ := by
  obtain ⟨⟨n, a⟩, u, hr, hp⟩ := run_bind_eq_ok.mp h
  obtain ⟨rfl, rfl⟩ := run_pure_eq_ok.mp hp
  obtain ⟨s, rfl, -, ha⟩ := run_readPrefix_eq_ok.mp hr
  cases afi with
  | ipv4 | ipv6 =>
    obtain ⟨o, v, hf, hp⟩ := run_bind_eq_ok.mp ha
    obtain ⟨rfl, rfl⟩ := run_pure_eq_ok.mp hp
    obtain ⟨c, rfl, hc, rfl⟩ := run_fillOctets_eq_ok.mp hf
    exact ⟨c, rfl, hc, rfl⟩

end Reading

section Offsets

def Afi.width : Afi → ℕ
  | .ipv4 => 32
  | .ipv6 => 128

structure Exact (width : ℕ) (b t : Bytes) (prefixLen : UInt8) (written : Option Bytes) : Prop where
  le_width : prefixLen.toNat ≤ width
  consumed : ∃ c, b = c ++ t ∧ c.length = 1 + byteLen prefixLen
  writable : written ≠ none

theorem exact_iff {w : ℕ} {n : UInt8} {c t : Bytes} {o : Octets w} (hc : c.length = min w (byteLen n)) :
    Exact (8 * w) (n :: (c ++ t)) t n (sliceTo o (byteLen n) >>= fun bytes => some (n :: bytes)) ↔
      ∃ k, (n :: (c ++ t)).head? = some k ∧ k.toNat ≤ 8 * w := by
  simp only [List.head?_cons, Option.some.injEq, exists_eq_left']
  constructor
  · exact Exact.le_width
  · intro hn
    have hw : byteLen n ≤ w := by unfold byteLen; omega
    refine ⟨hn, ⟨n :: c, rfl, ?_⟩, by simp [sliceTo, hw]⟩
    rw [List.length_cons, hc]
    omega

theorem parse_exact_iff (b t : Bytes) :
    (∀ p : Prefix, Prefix.parse.run b = some (.ok p, t) →
      (Exact 32 b t p.prefixLen p.serialize ↔ ∃ n, b.head? = some n ∧ n.toNat ≤ 32)) ∧
    ∀ (afi : Afi) (p : MpPrefix), (MpPrefix.parse afi).run b = some (.ok p, t) →
      (Exact afi.width b t p.prefixLen p.serialize ↔ ∃ n, b.head? = some n ∧ n.toNat ≤ afi.width) := by
  constructor
  · intro p h
    obtain ⟨c, rfl, -, hc, -⟩ := Prefix.run_parse_eq_ok.mp h
    exact exact_iff hc
  · intro afi p h
    obtain ⟨c, rfl, hc⟩ := MpPrefix.run_parse_ok h
    cases afi with
    | ipv4 | ipv6 =>
      obtain ⟨hc, ha⟩ := hc
      rw [MpPrefix.serialize, ha]
      exact exact_iff hc

theorem parse_exact_iff_slash24 :
    Prefix.parse.run [24, 10, 0, 1, 7] = some (.ok ⟨24, .new 10 0 1 0⟩, [7]) ∧
      (MpPrefix.parse .ipv6).run [24, 10, 0, 1, 7] =
        some (.ok ⟨.ipv6, 24, .v6 ⟨.padded 16 [10, 0, 1]⟩⟩, [7]) ∧
      (Exact 32 [24, 10, 0, 1, 7] [7] 24 (Prefix.serialize ⟨24, .new 10 0 1 0⟩) ↔
        ∃ n, ([24, 10, 0, 1, 7] : Bytes).head? = some n ∧ n.toNat ≤ 32) ∧
      (Exact 128 [24, 10, 0, 1, 7] [7] 24 (MpPrefix.serialize ⟨.ipv6, 24, .v6 ⟨.padded 16 [10, 0, 1]⟩⟩) ↔
        ∃ n, ([24, 10, 0, 1, 7] : Bytes).head? = some n ∧ n.toNat ≤ 128) :=
  ⟨by decide, by decide, (parse_exact_iff [24, 10, 0, 1, 7] [7]).1 ⟨24, .new 10 0 1 0⟩ (by decide),
    (parse_exact_iff [24, 10, 0, 1, 7] [7]).2 .ipv6 ⟨.ipv6, 24, .v6 ⟨.padded 16 [10, 0, 1]⟩⟩ (by decide)⟩

theorem parse_slash33 :
    Prefix.parse.run [33, 1, 2, 3, 4, 5] = some (.ok ⟨33, .new 1 2 3 4⟩, [5]) ∧
      ¬ Exact 32 [33, 1, 2, 3, 4, 5] [5] 33 (Prefix.serialize ⟨33, .new 1 2 3 4⟩) ∧
      [33, 1, 2, 3, 4, 5].length ≠ 1 + byteLen 33 + [5].length ∧
      Prefix.serialize ⟨33, .new 1 2 3 4⟩ = none :=
  ⟨by decide, fun h => absurd h.le_width (by decide), by decide, by decide⟩

end Offsets

end PathForge.Wire
