import PathForge.NlriPrefixes

namespace PathForge.Wire

open Fallible ByteReader

inductive Safi where
  | unicast | multicast | labeledUnicast
  deriving DecidableEq

namespace Afi

def toU16 : Afi → UInt16
  | ipv4 => 1
  | ipv6 => 2

def tryFrom (v : UInt16) : Except MpError Afi :=
  if v = 1 then .ok ipv4 else if v = 2 then .ok ipv6 else .error (.unknownAfi v)

def ofAddr : IpAddr → Afi
  | .v4 _ => ipv4
  | .v6 _ => ipv6

def addrLen : Afi → ℕ
  | ipv4 => 4
  | ipv6 => 16

theorem tryFrom_eq_ok {v : UInt16} {afi : Afi} : tryFrom v = .ok afi ↔ v = afi.toU16 := by
  constructor
  · intro h
    unfold tryFrom at h
    split_ifs at h <;> cases h <;> assumption
  · rintro rfl
    cases afi <;> rfl

end Afi

namespace Safi

def toU8 : Safi → UInt8
  | unicast => 1
  | multicast => 2
  | labeledUnicast => 4

def tryFrom (v : UInt8) : Except MpError Safi :=
  if v = 1 then .ok unicast
  else if v = 2 then .ok multicast
  else if v = 4 then .ok labeledUnicast
  else .error (.unknownSafi v)

theorem tryFrom_eq_ok {v : UInt8} {safi : Safi} : tryFrom v = .ok safi ↔ v = safi.toU8 := by
  constructor
  · intro h
    unfold tryFrom at h
    split_ifs at h <;> cases h <;> assumption
  · rintro rfl
    cases safi <;> rfl

end Safi

structure MpReachNlri where
  afi : Afi
  safi : Safi
  nextHops : List IpAddr
  nlri : List MpPrefix
  deriving DecidableEq

structure MpUnreachNlri where
  afi : Afi
  safi : Safi
  withdrawn : List MpPrefix
  deriving DecidableEq

def parseNextHop : Afi → Reader MpError IpAddr
  | .ipv4 => do
    let n ← getU32
    return .v4 (Ipv4Addr.ofU32 n)
  | .ipv6 => do
    let b ← copyToBytes 16
    return .v6 ⟨.padded 16 b⟩

def readAfi : Reader MpError Afi := do
  let v ← getU16
  ofExcept (Afi.tryFrom v)

def readSafi : Reader MpError Safi := do
  let v ← getU8
  ofExcept (Safi.tryFrom v)

namespace MpReachNlri

def parse : Reader MpError MpReachNlri := do
  checkRemaining 4 fun _ => .tooShort
  let afi ← readAfi
  let safi ← readSafi
  let nhLen ← getU8
  checkRemaining nhLen.toNat fun _ => .tooShort
  let nhBytes ← copyToBytes nhLen.toNat
  let nextHops ← within nhBytes (pushWhile afi.addrLen (parseNextHop afi) [])
  -- nothing has checked that the reserved octet is there
  let _snpa ← getU8
  let nlri ← pushWhile 1 (MpPrefix.parse afi) []
  return ⟨afi, safi, nextHops, nlri⟩

def nhBuf (m : MpReachNlri) : Bytes := m.nextHops.flatMap IpAddr.octets

def serialize (m : MpReachNlri) : Option Bytes := do
  let nlri ← m.nlri.mapM MpPrefix.serialize
  return putU16 m.afi.toU16 ++ [m.safi.toU8] ++ [UInt8.ofNat m.nhBuf.length] ++ m.nhBuf ++ [0] ++ nlri.flatten

end MpReachNlri

namespace MpUnreachNlri

def parse : Reader MpError MpUnreachNlri := do
  checkRemaining 3 fun _ => .tooShort
  let afi ← readAfi
  let safi ← readSafi
  let withdrawn ← pushWhile 1 (MpPrefix.parse afi) []
  return ⟨afi, safi, withdrawn⟩

def serialize (m : MpUnreachNlri) : Option Bytes := do
  let withdrawn ← m.withdrawn.mapM MpPrefix.serialize
  return putU16 m.afi.toU16 ++ [m.safi.toU8] ++ withdrawn.flatten

end MpUnreachNlri

section Panics

theorem ends_readAfi {s : Bytes} (h : 2 ≤ s.length) : Ends readAfi
    (onOk fun afi t => s = putU16 afi.toU16 ++ t) s := by
  apply ends_bind (ends_getU16 h)
  rintro v t rfl
  refine ⟨_, _, rfl, ?_⟩
  cases hv : Afi.tryFrom v with
  | error e => trivial
  | ok afi =>
    obtain rfl := Afi.tryFrom_eq_ok.mp hv
    rfl

theorem ends_readSafi {s : Bytes} (h : 1 ≤ s.length) : Ends readSafi
    (onOk fun safi t => s = safi.toU8 :: t) s := by
  apply ends_bind (ends_getU8 h)
  rintro v t rfl
  refine ⟨_, _, rfl, ?_⟩
  cases hv : Safi.tryFrom v with
  | error e => trivial
  | ok safi =>
    obtain rfl := Safi.tryFrom_eq_ok.mp hv
    rfl

theorem run_readAfi (afi : Afi) (rest : Bytes) :
    readAfi.run (putU16 afi.toU16 ++ rest) = some (.ok afi, rest) := by
  rw [readAfi, run_bind_ok _ (reads_getU16 _ _), Afi.tryFrom_eq_ok.mpr rfl]
  rfl

theorem run_readSafi (safi : Safi) (rest : Bytes) : readSafi.run (safi.toU8 :: rest) = some (.ok safi, rest) := by
  rw [readSafi, run_bind_ok _ (run_getU8_cons _ _), Safi.tryFrom_eq_ok.mpr rfl]
  rfl

theorem reads_parseNextHop (a : IpAddr) : Reads (parseNextHop (.ofAddr a)) a.octets a := by
  cases a with
  | v4 a =>
    have h := (reads_getU32 (ε := MpError) a.toU32).map (g := fun n => IpAddr.v4 (Ipv4Addr.ofU32 n))
    rwa [Ipv4Addr.putU32_toU32, Ipv4Addr.ofU32_toU32] at h
  | v6 a =>
    have h := (reads_copyToBytes (ε := MpError) a.octets.toList).map (g := fun b => IpAddr.v6 ⟨.padded 16 b⟩)
    have hpad := a.octets.padded_take (k := 16) (by rw [List.drop_of_length_le (by simp)]; simp)
    rw [List.take_of_length_le (by simp)] at hpad
    rwa [a.octets.length_toList, hpad] at h

theorem consumes_parseNextHop (afi : Afi) : Consumes (parseNextHop afi) := by
  intro s a t h
  cases afi with
  | ipv4 =>
    obtain ⟨n, u, hn, hp⟩ := run_bind_eq_ok.mp h
    obtain ⟨-, rfl⟩ := run_pure_eq_ok.mp hp
    rw [run_getU32_eq_ok.mp hn, List.length_append, putU32_length]
    omega
  | ipv6 =>
    obtain ⟨c, u, hc, hp⟩ := run_bind_eq_ok.mp h
    obtain ⟨-, rfl⟩ := run_pure_eq_ok.mp hp
    obtain ⟨rfl, hl⟩ := run_copyToBytes_eq_ok.mp hc
    rw [List.length_append]
    omega

theorem exists_parseNextHop (afi : Afi) {s : Bytes} (h : afi.addrLen ≤ s.length) :
    ∃ a t, (parseNextHop afi).run s = some (.ok a, t) := by
  cases afi with
  | ipv4 => exact ⟨_, _, run_bind_ok _ (run_bind_ok _ (if_pos h))⟩
  | ipv6 => exact ⟨_, _, run_bind_ok _ (if_pos h)⟩

theorem exists_nextHops (afi : Afi) (nh t : Bytes) :
    ∃ l, (within nh (pushWhile afi.addrLen (parseNextHop afi) [])).run t = some (.ok l, t) := by
  obtain ⟨l, u, hu⟩ := exists_pushWhile (consumes_parseNextHop afi) (fun s => exists_parseNextHop afi) [] nh
  exact ⟨l, run_within_ok t (outcome_eq_some.mpr ⟨u, hu⟩)⟩

theorem MpPrefix.ends_parse (afi : Afi) {s : Bytes} :
    Ends (MpPrefix.parse afi) (onOk fun _ t => t.length < s.length) s := by
  have haddr (k : ℕ) (s : Bytes) (hk : k ≤ s.length) :
      Ends (MpPrefix.parseAddress afi k) (onOk fun _ t => t.length ≤ s.length) s := by
    cases afi with
    | ipv4 | ipv6 =>
      apply ends_bind (ends_fillOctets hk)
      intro o t ht
      exact ends_pure ht
  apply ends_bind (ends_readPrefix haddr)
  rintro ⟨n, a⟩ t ht
  exact ends_pure ht

theorem ends_pushMpPrefixes (afi : Afi) {acc : List MpPrefix} {s : Bytes} :
    Ends (pushWhile 1 (MpPrefix.parse afi) acc) (onOk fun _ _ => True) s :=
  (ends_pushWhile fun _ _ => MpPrefix.ends_parse afi).mono fun _ _ _ => trivial

theorem MpUnreachNlri.ends_parse {b : Bytes} : Ends parse (onOk fun _ _ => True) b := by
  apply ends_bind ends_check
  rintro _ _ ⟨hb, rfl⟩
  apply ends_bind (ends_readAfi (by omega))
  rintro afi s rfl
  rw [List.length_append, putU16_length] at hb
  apply ends_bind (ends_readSafi (by omega))
  rintro safi s rfl
  apply ends_bind (ends_pushMpPrefixes afi)
  intro withdrawn t _
  exact ends_pure trivial

/-- A known address family, and an attribute that ends with its next hops. -/
def MpReachNlri.CutShort (b : Bytes) : Prop :=
  ∃ afi safi nh, nh.length < 256 ∧ b = putU16 (Afi.toU16 afi) ++ (Safi.toU8 safi :: UInt8.ofNat nh.length :: nh)

theorem MpReachNlri.run_parse_cutShort {b : Bytes} (h : CutShort b) : parse.run b = none := by
  obtain ⟨afi, safi, nh, hl, rfl⟩ := h
  have hn : (UInt8.ofNat nh.length).toNat = nh.length := UInt8.toNat_ofNat_of_lt hl
  have hcopy : (copyToBytes nh.length : Reader MpError Bytes).run nh = some (.ok nh, []) :=
    run_copyToBytes_eq_ok.mpr ⟨by simp, rfl⟩
  obtain ⟨l, hnh⟩ := exists_nextHops afi nh []
  rw [parse, run_bind_ok _ (run_check (by simp; omega)), run_bind_ok _ (run_readAfi afi _),
    run_bind_ok _ (run_readSafi safi _), run_bind_ok _ (run_getU8_cons _ _), hn, run_bind_ok _ (run_check le_rfl),
      run_bind_ok _ hcopy, run_bind_ok _ hnh]
  exact run_bind_panic _ rfl

theorem MpReachNlri.ends_parse {b : Bytes} (h : ¬ CutShort b) : Ends parse (onOk fun _ _ => True) b := by
  apply ends_bind ends_check
  rintro _ _ ⟨hb, rfl⟩
  apply ends_bind (ends_readAfi (by omega))
  rintro afi s rfl
  rw [List.length_append, putU16_length] at hb
  apply ends_bind (ends_readSafi (by omega))
  rintro safi s rfl
  rw [List.length_cons] at hb
  apply ends_bind (ends_getU8 (by omega))
  rintro n s rfl
  apply ends_bind ends_check
  rintro _ _ ⟨hn, rfl⟩
  apply ends_bind (ends_copyToBytes hn)
  rintro nh t ⟨rfl, hnh⟩
  have ht : t ≠ [] := by
    rintro rfl
    exact h ⟨afi, safi, nh, hnh ▸ n.toNat_lt, by rw [hnh, UInt8.ofNat_toNat, List.append_nil]⟩
  obtain ⟨l, hl⟩ := exists_nextHops afi nh t
  refine ends_bind (R := fun _ u => u = t) ⟨_, _, hl, rfl⟩ ?_
  rintro _ _ rfl
  apply ends_bind (ends_getU8 (List.length_pos_iff.mpr ht))
  intro snpa u _
  apply ends_bind (ends_pushMpPrefixes afi)
  intro nlri v _
  exact ends_pure trivial

theorem mp_parsers_return_iff (b : Bytes) :
    ((∃ r, MpReachNlri.parse.outcome b = some r) ∧ ∃ r, MpUnreachNlri.parse.outcome b = some r) ↔
      ¬ MpReachNlri.CutShort b := by
  rw [exists_outcome_iff, exists_outcome_iff]
  constructor
  · rintro ⟨hr, -⟩ h
    exact hr (MpReachNlri.run_parse_cutShort h)
  · intro h
    exact ⟨(MpReachNlri.ends_parse h).ne_none, MpUnreachNlri.ends_parse.ne_none⟩

theorem mp_parsers_return_cutShort :
    MpReachNlri.parse.outcome [0, 1, 1, 4, 10, 0, 0, 1] = none ∧
      ¬ ∀ b, (∃ r, MpReachNlri.parse.outcome b = some r) ∧ ∃ r, MpUnreachNlri.parse.outcome b = some r := by
  have hpanic : MpReachNlri.parse.outcome [0, 1, 1, 4, 10, 0, 0, 1] = none := by decide
  refine ⟨hpanic, ?_⟩
  intro h
  obtain ⟨⟨r, hr⟩, -⟩ := h [0, 1, 1, 4, 10, 0, 0, 1]
  rw [hpanic] at hr
  cases hr

end Panics

section RoundTrip

def MpPrefix.encoded (p : MpPrefix) : Bytes := p.prefixLen :: p.address.octets.take p.encodedLen

structure MpPrefix.Representable (afi : Afi) (p : MpPrefix) : Prop where
  afi_eq : p.afi = afi
  ofAddr_eq : Afi.ofAddr p.address = afi
  le_width : p.prefixLen.toNat ≤ afi.width
  zero_behind : ∀ x ∈ p.address.octets.drop p.encodedLen, x = 0

structure MpReachNlri.Representable (m : MpReachNlri) : Prop where
  ofAddr_eq : ∀ a ∈ m.nextHops, Afi.ofAddr a = m.afi
  nhBuf_le : m.nhBuf.length ≤ 255
  nlri : ∀ p ∈ m.nlri, p.Representable m.afi

def MpUnreachNlri.Representable (m : MpUnreachNlri) : Prop := ∀ p ∈ m.withdrawn, p.Representable m.afi

variable {afi : Afi} {p : MpPrefix} {l : List MpPrefix}

theorem Afi.width_eq (afi : Afi) : afi.width = 8 * afi.addrLen := by cases afi <;> rfl

theorem octets_length (a : IpAddr) : a.octets.length = (Afi.ofAddr a).addrLen := by
  cases a with
  | v4 a => exact a.octets.length_toList
  | v6 a => exact a.octets.length_toList

theorem MpPrefix.Representable.encodedLen_le (hp : p.Representable afi) :
    p.encodedLen ≤ p.address.octets.length := by
  have hn := hp.le_width
  rw [Afi.width_eq] at hn
  rw [octets_length, hp.ofAddr_eq, encodedLen, byteLen]
  omega

theorem MpPrefix.Representable.serialize_eq (hp : p.Representable afi) : p.serialize = some p.encoded := by
  have hl := hp.encodedLen_le
  unfold MpPrefix.serialize encoded
  cases ha : p.address with
  | v4 a | v6 a =>
    rw [ha, IpAddr.octets, Octets.length_toList] at hl
    simp only [sliceTo, if_pos hl, IpAddr.octets]
    rfl

theorem MpPrefix.Representable.run_parseAddress (hp : p.Representable afi) (rest : Bytes) :
    (parseAddress afi p.encodedLen).run (p.address.octets.take p.encodedLen ++ rest) =
      some (.ok p.address, rest) := by
  have hz := hp.zero_behind
  rw [← hp.ofAddr_eq]
  cases ha : p.address with
  | v4 a | v6 a =>
    rw [ha, IpAddr.octets] at hz
    apply run_bind_ok
    refine run_fillOctets_eq_ok.mpr ⟨_, rfl, ?_, (a.octets.padded_take hz).symm⟩
    rw [List.length_take, octets_length, Nat.min_comm]
    rfl

theorem MpPrefix.Representable.reads_parse (hp : p.Representable afi) :
    Reads (MpPrefix.parse afi) p.encoded p := by
  intro rest
  have hread : (readPrefix (fun _ _ => .tooShort) (parseAddress afi)).run (p.encoded ++ rest) =
      some (.ok (p.prefixLen, p.address), rest) := by
    refine run_readPrefix_eq_ok.mpr ⟨p.address.octets.take p.encodedLen ++ rest, rfl, ?_, hp.run_parseAddress rest⟩
    rw [List.length_append, List.length_take_of_le hp.encodedLen_le]
    exact Nat.le_add_right _ _
  rw [MpPrefix.parse, run_bind_ok _ hread, run_pure, ← hp.afi_eq]

theorem MpPrefix.consumes_parse (afi : Afi) : Consumes (MpPrefix.parse afi) := by
  intro b p t h
  obtain ⟨c, rfl, -⟩ := run_parse_ok h
  simp only [List.length_cons, List.length_append]
  omega

theorem mapM_serialize (hl : ∀ p ∈ l, p.Representable afi) :
    l.mapM MpPrefix.serialize = some (l.map MpPrefix.encoded) :=
  mapM_eq_some_map fun p hp => (hl p hp).serialize_eq

theorem run_pushMpPrefixes (hl : ∀ p ∈ l, p.Representable afi) :
    (pushWhile 1 (MpPrefix.parse afi) []).run (l.flatMap MpPrefix.encoded) = some (.ok l, []) := by
  have hr : (pushWhile 1 (MpPrefix.parse afi) []).run (l.flatMap MpPrefix.encoded ++ []) =
      some (.ok ([] ++ l), []) := by
    apply run_pushWhile (MpPrefix.consumes_parse afi)
    · intro p hp
      exact ⟨(hl p hp).reads_parse, by simp [MpPrefix.encoded]⟩
    · exact Nat.one_pos
  rwa [List.append_nil, List.nil_append] at hr

theorem MpUnreachNlri.Representable.roundTrip {m : MpUnreachNlri} (hm : m.Representable) :
    ∃ b, m.serialize = some b ∧ MpUnreachNlri.parse.outcome b = some (.ok m) := by
  refine ⟨putU16 m.afi.toU16 ++ [m.safi.toU8] ++ m.withdrawn.flatMap MpPrefix.encoded, ?_, ?_⟩
  · rw [serialize, mapM_serialize hm]
    rfl
  · refine outcome_eq_some.mpr ⟨[], ?_⟩
    rw [MpUnreachNlri.parse, run_bind_ok _ (run_check (by simp; omega)), List.append_assoc,
      run_bind_ok _ (run_readAfi _ _), List.singleton_append, run_bind_ok _ (run_readSafi _ _),
        run_bind_ok _ (run_pushMpPrefixes hm), run_pure]

theorem MpReachNlri.Representable.run_nextHops {m : MpReachNlri} (hm : m.Representable) (t : Bytes) :
    (within m.nhBuf (pushWhile m.afi.addrLen (parseNextHop m.afi) [])).run t = some (.ok m.nextHops, t) := by
  have hpos : 0 < m.afi.addrLen := by cases m.afi <;> exact Nat.succ_pos _
  apply run_pushWhile_within t hpos (consumes_parseNextHop m.afi)
  intro a ha
  rw [octets_length, ← hm.ofAddr_eq a ha]
  exact ⟨reads_parseNextHop a, le_rfl⟩

theorem MpReachNlri.Representable.roundTrip {m : MpReachNlri} (hm : m.Representable) :
    ∃ b, m.serialize = some b ∧ MpReachNlri.parse.outcome b = some (.ok m) := by
  have hn : (UInt8.ofNat m.nhBuf.length).toNat = m.nhBuf.length :=
    UInt8.toNat_ofNat_of_lt (Nat.lt_succ_of_le hm.nhBuf_le)
  refine ⟨putU16 m.afi.toU16 ++ [m.safi.toU8] ++ [UInt8.ofNat m.nhBuf.length] ++ m.nhBuf ++ [0] ++
    m.nlri.flatMap MpPrefix.encoded, ?_, ?_⟩
  · rw [serialize, mapM_serialize hm.nlri]
    rfl
  · refine outcome_eq_some.mpr ⟨[], ?_⟩
    simp only [List.append_assoc, List.cons_append, List.nil_append]
    rw [MpReachNlri.parse, run_bind_ok _ (run_check (by simp; omega)), run_bind_ok _ (run_readAfi _ _),
      run_bind_ok _ (run_readSafi _ _), run_bind_ok _ (run_getU8_cons _ _), hn,
        run_bind_ok _ (run_check (by simp)),
      run_bind_ok _ (reads_copyToBytes m.nhBuf _), run_bind_ok _ (hm.run_nextHops _),
        run_bind_ok _ (run_getU8_cons _ _),
      run_bind_ok _ (run_pushMpPrefixes hm.nlri), run_pure]

theorem mp_parse_serialize :
    (∀ m : MpReachNlri, m.Representable → ∃ b, m.serialize = some b ∧ MpReachNlri.parse.outcome b = some (.ok m)) ∧
    ∀ m : MpUnreachNlri, m.Representable → ∃ b, m.serialize = some b ∧
      MpUnreachNlri.parse.outcome b = some (.ok m) :=
  ⟨fun _ hm => hm.roundTrip, fun _ hm => hm.roundTrip⟩

theorem mp_parse_serialize_global :
    let m : MpReachNlri := ⟨.ipv6, .unicast,
      [.v6 ⟨.padded 16 [0x20, 1, 0x0D, 0xB8]⟩, .v6 ⟨.padded 16 [0xFE, 0x80]⟩],
      [⟨.ipv6, 32, .v6 ⟨.padded 16 [0x20, 1, 0x0D, 0xB8]⟩⟩, ⟨.ipv6, 0, .v6 ⟨.padded 16 []⟩⟩]⟩
    let u : MpUnreachNlri := ⟨.ipv4, .multicast, [⟨.ipv4, 20, .v4 (.new 10 1 16 0)⟩]⟩
    (∃ b, m.serialize = some b ∧ MpReachNlri.parse.outcome b = some (.ok m)) ∧
      ∃ b, u.serialize = some b ∧ MpUnreachNlri.parse.outcome b = some (.ok u) := by
  intro m u
  refine ⟨mp_parse_serialize.1 m ⟨by decide, by decide, ?_⟩, mp_parse_serialize.2 u ?_⟩
  · rw [List.forall_mem_cons, List.forall_mem_singleton]
    exact ⟨⟨rfl, rfl, by decide, fun x hx => List.eq_of_mem_replicate (n := 12) hx⟩,
      ⟨rfl, rfl, by decide, fun x hx => List.eq_of_mem_replicate (n := 16) hx⟩⟩
  · exact List.forall_mem_singleton.mpr ⟨rfl, rfl, by decide, fun x hx => List.eq_of_mem_replicate (n := 1) hx⟩

end RoundTrip

end PathForge.Wire
