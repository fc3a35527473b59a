import PathForge.Capabilities

namespace PathForge.Peering

open Fallible ByteReader Wire

namespace Capability

def IsUnknown : Capability → Prop
  | unknown _ _ => True
  | _ => False

/-- What the wire format can carry: the restart time has twelve bits, the restart flags have four, and an
unknown capability is not one that would be read as a known kind. -/
def Carried : Capability → Prop
  | gracefulRestart restartTime flags => restartTime < 4096 ∧ flags < 16
  | unknown code data => (parseOne code data).IsUnknown
  | _ => True

theorem parseOne_of_isUnknown {code : UInt8} {data : Bytes} (h : (parseOne code data).IsUnknown) :
    parseOne code data = unknown code data := by
  unfold parseOne at h ⊢
  split at h <;> first | rfl | exact h.elim

theorem toNat_low (w : UInt16) : (w &&& 0x0FFF).toNat = w.toNat % 4096 := by
  rw [UInt16.toNat_and]
  exact Nat.and_two_pow_sub_one_eq_mod w.toNat 12

theorem toNat_high (w : UInt16) : ((w >>> 12) &&& 0xF).toUInt8.toNat = w.toNat / 4096 := by
  have hw := w.toNat_lt
  have hs : (w >>> 12).toNat = w.toNat / 4096 := by
    rw [UInt16.toNat_shiftRight]
    exact Nat.shiftRight_eq_div_pow w.toNat 12
  have hm : ((w >>> 12) &&& 0xF).toNat = w.toNat / 4096 := by
    rw [UInt16.toNat_and, hs]
    refine (Nat.and_two_pow_sub_one_eq_mod _ 4).trans ?_
    omega
  rw [UInt16.toNat_toUInt8, hm]
  omega

theorem toNat_packed {t : UInt16} {f : UInt8} (ht : t < 4096) (hf : f < 16) :
    (((f.toUInt16 &&& 0xF) <<< 12) ||| (t &&& 0x0FFF)).toNat = f.toNat * 4096 + t.toNat := by
  have ht' : t.toNat < 4096 := UInt16.lt_iff_toNat_lt.mp ht
  have hf' : f.toNat < 16 := UInt8.lt_iff_toNat_lt.mp hf
  have hl : (t &&& 0x0FFF).toNat = t.toNat := by rw [toNat_low, Nat.mod_eq_of_lt ht']
  have hh : (f.toUInt16 &&& 0xF).toNat = f.toNat := by
    rw [UInt16.toNat_and, UInt8.toNat_toUInt16]
    exact (Nat.and_two_pow_sub_one_eq_mod _ 4).trans (Nat.mod_eq_of_lt hf')
  have hs : ((f.toUInt16 &&& 0xF) <<< 12).toNat = f.toNat <<< 12 := by
    rw [UInt16.toNat_shiftLeft, hh]
    refine Nat.mod_eq_of_lt ?_
    change f.toNat <<< 12 < 65536
    rw [Nat.shiftLeft_eq]
    omega
  rw [UInt16.toNat_or, hs, hl, ← Nat.shiftLeft_add_eq_or_of_lt (i := 12) ht', Nat.shiftLeft_eq]

theorem parseOne_value {c : Capability} (h : c.Carried) : parseOne c.code c.value = c := by
  cases c with
  | multiProtocol afi safi =>
    change multiProtocol (UInt16.ofNat (beNat (putU16 afi))) safi = _
    rw [ofNat_beNat_putU16]
  | routeRefresh => rfl
  | fourOctetAsn asn =>
    change fourOctetAsn (UInt32.ofNat (beNat (putU32 asn))) = _
    rw [ofNat_beNat_putU32]
  | gracefulRestart t f =>
    obtain ⟨ht, hf⟩ := h
    have hp := toNat_packed ht hf
    simp only [code, value]
    generalize ((f.toUInt16 &&& 0xF) <<< 12) ||| (t &&& 0x0FFF) = w at hp
    change gracefulRestart (UInt16.ofNat (beNat (putU16 w)) &&& 0x0FFF)
      ((UInt16.ofNat (beNat (putU16 w)) >>> 12) &&& 0xF).toUInt8 = _
    have ht' : t.toNat < 4096 := UInt16.lt_iff_toNat_lt.mp ht
    have hlow : w &&& 0x0FFF = t := UInt16.toNat_inj.mp (by rw [toNat_low]; omega)
    have hhigh : ((w >>> 12) &&& 0xF).toUInt8 = f := UInt8.toNat_inj.mp (by rw [toNat_high]; omega)
    rw [ofNat_beNat_putU16, hlow, hhigh]
  | unknown code data => exact parseOne_of_isUnknown h

theorem scanCaps_toBytes {c : Capability} (hlen : c.value.length < 256) (hc : c.Carried) (before after : Bytes)
    {stop : ℕ} (hs : before.length + 2 ≤ stop) (fuel : ℕ) (read : List Capability) :
    scanCaps (before ++ (c.toBytes ++ after)) stop (fuel + 1) before.length read =
      scanCaps (before ++ (c.toBytes ++ after)) stop fuel (before ++ c.toBytes).length (read ++ [c]) := by
  have hn : (UInt8.ofNat c.value.length).toNat = c.value.length :=
    UInt8.toNat_ofNat_of_lt hlen
  have hcode : (before ++ (c.toBytes ++ after))[before.length]? = some c.code := by
    simp [toBytes]
  have hnum : (before ++ (c.toBytes ++ after))[before.length + 1]? = some (UInt8.ofNat c.value.length) := by
    simp [toBytes]
  have hdata : ((before ++ (c.toBytes ++ after)).drop (before.length + 2)).take c.value.length = c.value := by
    rw [← List.drop_drop, List.drop_left]
    simp [toBytes]
  have hend : before.length + 2 + c.value.length = (before ++ c.toBytes).length := by
    simp [toBytes]
    omega
  rw [scanCaps, if_pos hs, hcode, hnum]
  simp only [Option.bind_eq_bind, Option.bind_some]
  rw [hn, hdata, hend, parseOne_value hc, if_neg]
  simp

theorem scanCaps_flatMap {caps : List Capability} (hlen : ∀ c ∈ caps, c.value.length < 256)
    (hcaps : ∀ c ∈ caps, c.Carried) (before : Bytes) (fuel : ℕ) (hf : caps.length < fuel)
    (read : List Capability) :
    scanCaps (before ++ caps.flatMap toBytes) (before ++ caps.flatMap toBytes).length fuel before.length read =
      some (read ++ caps) := by
  induction caps generalizing before fuel read with
  | nil =>
    obtain ⟨fuel, rfl⟩ := Nat.exists_eq_succ_of_ne_zero (Nat.ne_zero_of_lt hf)
    simp [scanCaps]
  | cons c caps ih =>
    rw [List.forall_mem_cons] at hlen hcaps
    obtain ⟨fuel, rfl⟩ := Nat.exists_eq_succ_of_ne_zero (Nat.ne_zero_of_lt hf)
    have hrest := ih hlen.2 hcaps.2 (before ++ c.toBytes) fuel (by simpa using hf) (read ++ [c])
    rw [List.flatMap_cons, scanCaps_toBytes hlen.1 hcaps.1]
    · rw [← List.append_assoc, hrest, List.append_assoc, List.singleton_append]
    · simp [toBytes]

theorem length_le_flatMap (caps : List Capability) : caps.length ≤ (caps.flatMap toBytes).length := by
  induction caps with
  | nil => simp
  | cons c caps ih =>
    simp only [List.flatMap_cons, List.length_append, List.length_cons, toBytes]
    omega

theorem parseOptionalParams_single {data : Bytes} {paramLen : UInt8} {caps : List Capability}
    (htype : data[0]? = some 2) (hlen : data[1]? = some paramLen) (hdata : data.length = 2 + paramLen.toNat)
    (hscan : scanCaps data data.length (data.length + 1) 2 [] = some caps) :
    parseOptionalParams data = some caps := by
  have hstop : min (0 + 2 + paramLen.toNat) data.length = data.length := by omega
  have hdone : scanParams data data.length (0 + 2 + paramLen.toNat) caps = some caps := by
    obtain ⟨fuel, hfuel⟩ := Nat.exists_eq_succ_of_ne_zero (show data.length ≠ 0 by omega)
    rw [hfuel, scanParams, if_neg (by omega)]
  rw [parseOptionalParams, scanParams, if_pos (by omega), htype, hlen]
  simp only [Option.bind_eq_bind, Option.bind_some, if_pos, hstop]
  rw [hscan, Option.bind_some, hdone]

theorem parseOptionalParams_block {caps : List Capability} (hlen : (caps.flatMap toBytes).length < 256)
    (hcaps : ∀ c ∈ caps, c.Carried) :
    parseOptionalParams ([2, UInt8.ofNat (caps.flatMap toBytes).length] ++ caps.flatMap toBytes) = some caps := by
  have hvalue : ∀ c ∈ caps, c.value.length < 256 := by
    intro c hc
    obtain ⟨before, after, rfl⟩ := List.append_of_mem hc
    simp only [List.flatMap_append, List.flatMap_cons, List.length_append, toBytes] at hlen
    omega
  have hn : (UInt8.ofNat (caps.flatMap toBytes).length).toNat = (caps.flatMap toBytes).length :=
    UInt8.toNat_ofNat_of_lt hlen
  apply parseOptionalParams_single rfl rfl
  · rw [hn, List.length_append]
    rfl
  · have hcount := length_le_flatMap caps
    exact scanCaps_flatMap hvalue hcaps [2, UInt8.ofNat (caps.flatMap toBytes).length] _
      (by rw [List.length_append]; omega) []

end Capability

open Capability

theorem optBuf_newWithCapabilities (myAs holdTime : UInt16) (bgpId : Ipv4Addr) (caps : List Capability) :
    (newWithCapabilities myAs holdTime bgpId caps).optBuf =
      if caps = [] then [] else [2, UInt8.ofNat (caps.flatMap toBytes).length] ++ caps.flatMap toBytes := by
  unfold newWithCapabilities
  split_ifs <;> simp [OpenMessage.optBuf, OpenMessage.new, OptionalParam.serialize]

theorem buildCapabilities_eq (myAs holdTime : UInt16) (bgpId : Ipv4Addr) (caps : List Capability) :
    buildCapabilities caps =
      [UInt8.ofNat (newWithCapabilities myAs holdTime bgpId caps).optBuf.length] ++
        (newWithCapabilities myAs holdTime bgpId caps).optBuf := by
  rw [optBuf_newWithCapabilities, buildCapabilities]
  cases caps with
  | nil => rfl
  | cons c caps => simp [toBytes]

theorem serialize_drop (m : OpenMessage) :
    m.serialize.drop (headerLen + 9) = [UInt8.ofNat m.optBuf.length] ++ m.optBuf := by
  have hhead : (Header.new .open m.body.length).serialize.length = headerLen := Header.serialize_length _
  rw [OpenMessage.serialize, ← List.drop_drop, ← hhead, List.drop_left]
  simp [OpenMessage.body, putU16, putU32, natBe]

theorem newWithCapabilities_roundTrip (myAs holdTime : UInt16) (bgpId : Ipv4Addr) (caps : List Capability)
    (hlen : (caps.flatMap toBytes).length ≤ 253) (hcaps : ∀ c ∈ caps, c.Carried) (rest : Bytes) :
    (∃ msg parsed, BgpMessage.parse.run ((newWithCapabilities myAs holdTime bgpId caps).serialize ++ rest) =
        some (.ok (some msg), rest) ∧ msg.header.msgType = .open ∧
      OpenMessage.parse.outcome msg.body = some (.ok parsed) ∧
        parseFromOpenParams parsed.optionalParams = some caps) ∧
    (newWithCapabilities myAs holdTime bgpId caps).serialize.drop (headerLen + 9) = buildCapabilities caps := by
  have hopt : (newWithCapabilities myAs holdTime bgpId caps).optBuf.length ≤ 255 := by
    rw [optBuf_newWithCapabilities]
    split_ifs
    · simp
    · simp only [List.length_append, List.length_cons, List.length_nil]
      omega
  have hread : parseFromOpenParams (newWithCapabilities myAs holdTime bgpId caps).optionalParams = some caps := by
    change parseOptionalParams (newWithCapabilities myAs holdTime bgpId caps).optBuf = some caps
    rw [optBuf_newWithCapabilities]
    split_ifs with hnil
    · rw [hnil]
      rfl
    · exact parseOptionalParams_block (by omega) hcaps
  refine ⟨?_, by rw [serialize_drop, ← buildCapabilities_eq]⟩
  generalize newWithCapabilities myAs holdTime bgpId caps = m at hopt hread
  exact ⟨⟨Header.new .open m.body.length, m.body⟩, m, OpenMessage.run_parse_serialize hopt rest, rfl,
    OpenMessage.outcome_parse_body hopt, hread⟩

def sampleCaps : List Capability :=
  -- the first has the code of a known kind and a value too short for it
  [.unknown 1 [0, 1], .gracefulRestart 4095 15, .multiProtocol 2 1, .routeRefresh, .gracefulRestart 120 8]

theorem newWithCapabilities_roundTrip_sample :
    (sampleCaps.flatMap toBytes).length ≤ 253 ∧ (∀ c ∈ sampleCaps, c.Carried) ∧
      (∃ msg parsed,
        BgpMessage.parse.run ((newWithCapabilities 65001 90 (.new 10 0 0 1) sampleCaps).serialize ++ [0xFF]) =
          some (.ok (some msg), [0xFF]) ∧ msg.header.msgType = .open ∧
        OpenMessage.parse.outcome msg.body = some (.ok parsed) ∧
        parseFromOpenParams parsed.optionalParams = some sampleCaps) ∧
      (newWithCapabilities 65001 90 (.new 10 0 0 1) sampleCaps).serialize.drop (headerLen + 9) =
        buildCapabilities sampleCaps := by
  have hlen : (sampleCaps.flatMap toBytes).length ≤ 253 := by decide
  have hcaps : ∀ c ∈ sampleCaps, c.Carried := by
    simp only [sampleCaps, List.forall_mem_cons, Carried]
    refine ⟨?_, ⟨by decide, by decide⟩, trivial, trivial, ⟨by decide, by decide⟩, by simp⟩
    trivial
  exact ⟨hlen, hcaps, newWithCapabilities_roundTrip 65001 90 (.new 10 0 0 1) sampleCaps hlen hcaps [0xFF]⟩

end PathForge.Peering
