import PathForge.SessionMessages

namespace PathForge.Wire

open Fallible ByteReader

inductive Message where
  | «open» (m : OpenMessage)
  | update (m : UpdateMessage)
  | notification (m : NotificationMessage)
  | keepalive (m : KeepaliveMessage)
  | routeRefresh (m : RouteRefresh)

namespace Message

def msgType : Message → MessageType
  | «open» _ => .open
  | update _ => .update
  | notification _ => .notification
  | keepalive _ => .keepalive
  | routeRefresh _ => .routeRefresh

def serialize : Message → Option Bytes
  | «open» m => some m.serialize
  | update m => m.serialize
  | notification m => some m.serialize
  | keepalive m => some m.serialize
  | routeRefresh m => some m.serialize

def ParsedFrom (body : Bytes) : Message → Prop
  | «open» m => OpenMessage.parse.outcome body = some (.ok m)
  | update m => UpdateMessage.parse.outcome body = some (.ok m)
  | notification m => NotificationMessage.parse.outcome body = some (.ok m)
  | keepalive _ => body = []
  | routeRefresh m => RouteRefresh.parse body = some m

end Message

structure Prefix.Representable (p : Prefix) : Prop where
  le_width : p.prefixLen.toNat ≤ 32
  zero_tail : ∀ x ∈ p.address.octets.toList.drop p.encodedLen, x = 0

structure UpdateMessage.Representable (m : UpdateMessage) : Prop where
  withdrawn : ∀ p ∈ m.withdrawnRoutes, p.Representable
  attributes : m.pathAttributes.Representable
  nlri : ∀ p ∈ m.nlri, p.Representable

def Message.Representable : Message → Prop
  | «open» m => m.optBuf.length ≤ 255
  | update m => m.Representable
  | notification _ => True
  | keepalive _ => True
  | routeRefresh _ => True

section Prefixes

namespace Prefix

def octets (p : Prefix) : Bytes := p.prefixLen :: p.address.octets.toList.take p.encodedLen

theorem Representable.encodedLen_le {p : Prefix} (h : p.Representable) : p.encodedLen ≤ 4 := by
  have := h.le_width
  unfold encodedLen byteLen
  omega

theorem Representable.serialize_eq {p : Prefix} (h : p.Representable) : p.serialize = some p.octets := by
  simp [serialize, sliceTo, h.encodedLen_le, octets]

theorem Representable.reads_parse {p : Prefix} (h : p.Representable) : Reads parse p.octets p := by
  intro rest
  apply run_parse_eq_ok.mpr
  have hl := h.encodedLen_le
  refine ⟨p.address.octets.toList.take p.encodedLen, rfl, by simp; omega, by simp [Nat.min_comm], ?_⟩
  exact (Octets.padded_take p.address.octets h.zero_tail).symm

end Prefix

theorem serializePrefixes_eq {ps : List Prefix} (h : ∀ p ∈ ps, p.Representable) :
    UpdateMessage.serializePrefixes ps = some (ps.flatMap Prefix.octets) := by
  induction ps with
  | nil => rfl
  | cons p ps ih =>
    rw [List.forall_mem_cons] at h
    simp [UpdateMessage.serializePrefixes, h.1.serialize_eq, ih h.2]

theorem run_pushPrefixes {ps : List Prefix} (h : ∀ p ∈ ps, p.Representable) :
    (pushWhile 1 Prefix.parse []).run (ps.flatMap Prefix.octets) = some (.ok ps, []) := by
  have hr : (pushWhile 1 Prefix.parse []).run (ps.flatMap Prefix.octets ++ []) = some (.ok ([] ++ ps), []) := by
    apply run_pushWhile Prefix.consumes_parse _ (by simp)
    intro p hp
    exact ⟨(h p hp).reads_parse, by simp [Prefix.octets]⟩
  rwa [List.append_nil, List.nil_append] at hr

end Prefixes

section Attributes

namespace PathAttributes

theorem length_le_writeAttr (flags typeCode : UInt8) (value : Bytes) :
    value.length ≤ (writeAttr flags typeCode value).length := by
  unfold writeAttr
  split_ifs <;> simp only [List.length_append] <;> omega

theorem length_le_list {α : Type} [DecidableEq α] (flags typeCode : UInt8) (f : α → Bytes) (l : List α) :
    (l.flatMap f).length ≤ (if l = [] then [] else writeAttr flags typeCode (l.flatMap f)).length := by
  split_ifs with h
  · simp [h]
  · exact length_le_writeAttr _ _ _

theorem valuesFit_of_length {a : PathAttributes} (h : a.serialize.length ≤ 65535) : a.ValuesFit := by
  have hp := length_le_list flagTransitive 2 AsPathSegment.serialize a.asPath
  have hc := length_le_list (flagOptional ||| flagTransitive) 8 (fun c => putU32 c.bits) a.communities
  have hl := length_le_list flagOptional 10 (fun ip => putU32 ip.toU32) a.clusterList
  simp only [serialize, List.length_append] at h
  refine ⟨by omega, by omega, by omega, ?_⟩
  intro raw hraw
  have hw := length_le_writeAttr raw.flags raw.typeCode raw.value
  obtain ⟨before, after, hu⟩ := List.append_of_mem hraw
  simp only [hu, List.flatMap_append, List.flatMap_cons, List.length_append] at h
  omega

end PathAttributes

end Attributes

namespace UpdateMessage

def body (m : UpdateMessage) : Bytes :=
  putU16 (UInt16.ofNat (m.withdrawnRoutes.flatMap Prefix.octets).length) ++
    (m.withdrawnRoutes.flatMap Prefix.octets ++
      (putU16 (UInt16.ofNat m.pathAttributes.serialize.length) ++
        (m.pathAttributes.serialize ++ m.nlri.flatMap Prefix.octets)))

theorem Representable.serialize_eq {m : UpdateMessage} (h : m.Representable) :
    m.serialize = some ((Header.new .update m.body.length).serialize ++ m.body) := by
  have hl : 2 + (m.withdrawnRoutes.flatMap Prefix.octets).length + 2 + m.pathAttributes.serialize.length +
      (m.nlri.flatMap Prefix.octets).length = m.body.length := by
    simp only [body, List.length_append, putU16_length]
    omega
  simp only [serialize, serializePrefixes_eq h.withdrawn, serializePrefixes_eq h.nlri, Option.bind_eq_bind,
    Option.bind_some, hl]
  simp [body]

theorem Representable.outcome_parse_body {m : UpdateMessage} (h : m.Representable)
    (hb : m.body.length ≤ 65535) : parse.outcome m.body = some (.ok m) := by
  have hlen (n : ℕ) (hn : n ≤ 65535) : (UInt16.ofNat n).toNat = n :=
    UInt16.toNat_ofNat_of_lt (Nat.lt_succ_of_le hn)
  have hl := hb
  simp only [body, List.length_append, putU16_length] at hl
  have hattrs : (mapError (fun e => MessageError.parse e.toString) PathAttributes.parse).outcome
      m.pathAttributes.serialize = some (.ok m.pathAttributes) := by
    apply outcome_eq_some.mpr
    refine ⟨[], ?_⟩
    simp [mapError, PathAttributes.run_parse_serialize h.attributes
      (PathAttributes.valuesFit_of_length (by omega)), Except.mapError]
  apply outcome_eq_some.mpr
  refine ⟨[], ?_⟩
  rw [parse, run_bind_ok _ (run_check (by simp [body]; omega)), body, run_bind_ok _ (reads_getU16 _ _),
    hlen _ (by omega), run_bind_ok _ (run_check (by simp)), run_bind_ok _ (reads_copyToBytes _ _),
    run_bind_ok _ (run_within_ok _ (outcome_eq_some.mpr ⟨[], run_pushPrefixes h.withdrawn⟩)),
    run_bind_ok _ (reads_getU16 _ _), hlen _ (by omega), run_bind_ok _ (run_check (by simp)),
    run_bind_ok _ (reads_copyToBytes _ _), run_bind_ok _ (run_within_ok _ hattrs),
    run_bind_ok _ (run_pushPrefixes h.nlri), run_pure]

end UpdateMessage

theorem RouteRefresh.serialize_eq (m : RouteRefresh) :
    m.serialize = (Header.new .routeRefresh m.body.length).serialize ++ m.body := by
  simp [serialize, Header.serialize, Header.new, body, marker, headerLen, MessageType.toU8]

namespace Message

def body : Message → Bytes
  | «open» m => m.body
  | update m => m.body
  | notification m => m.body
  | keepalive _ => []
  | routeRefresh m => m.body

theorem Representable.serialize_eq {m : Message} (h : m.Representable) :
    m.serialize = some ((Header.new m.msgType m.body.length).serialize ++ m.body) := by
  cases m with
  | «open» m => rfl
  | update m => exact UpdateMessage.Representable.serialize_eq h
  | notification m =>
    have hl : 2 + m.data.length = m.body.length := by simp [NotificationMessage.body]; omega
    simp only [serialize, NotificationMessage.serialize, hl]
    rfl
  | keepalive m => simp [serialize, KeepaliveMessage.serialize, body, msgType]
  | routeRefresh m => exact congrArg some m.serialize_eq

theorem Representable.parsedFrom_body {m : Message} (h : m.Representable) (hb : m.body.length ≤ 65535) :
    m.ParsedFrom m.body := by
  cases m with
  | «open» m => exact OpenMessage.outcome_parse_body h
  | update m => exact UpdateMessage.Representable.outcome_parse_body h hb
  | notification m => exact m.outcome_parse_body
  | keepalive m => rfl
  | routeRefresh m => exact m.parse_body

theorem parse_serialize_append (m : Message) (h : m.Representable) :
    ∃ bytes, m.serialize = some bytes ∧ (bytes.length ≤ maxMessageLen → ∀ rest,
      ∃ msg, BgpMessage.parse.run (bytes ++ rest) = some (.ok (some msg), rest) ∧
        msg.header.msgType = m.msgType ∧ m.ParsedFrom msg.body) := by
  refine ⟨_, h.serialize_eq, ?_⟩
  intro hlen rest
  rw [List.length_append, Header.serialize_length] at hlen
  refine ⟨⟨Header.new m.msgType m.body.length, m.body⟩, BgpMessage.run_parse_framed hlen rest, rfl, ?_⟩
  apply h.parsedFrom_body
  unfold maxMessageLen at hlen
  omega

def updateSample : UpdateMessage :=
  { withdrawnRoutes := [⟨8, .new 10 0 0 0⟩],
    pathAttributes := { origin := some .igp, asPath := [.asSequence [65001]], unknown := [⟨0xC0, 99, [1]⟩] },
    nlri := [⟨16, .new 10 1 0 0⟩] }

theorem parse_serialize_append_sample :
    ∃ bytes msg, (update updateSample).serialize = some bytes ∧ bytes.length ≤ maxMessageLen ∧
      BgpMessage.parse.run (bytes ++ [0xFF]) = some (.ok (some msg), [0xFF]) ∧
      msg.header.msgType = .update ∧ UpdateMessage.parse.outcome msg.body = some (.ok updateSample) := by
  have hrep : (update updateSample).Representable :=
    ⟨List.forall_mem_singleton.mpr ⟨by decide, by simp [Prefix.encodedLen, byteLen, Ipv4Addr.new]⟩,
      ⟨by decide, by decide⟩,
      List.forall_mem_singleton.mpr ⟨by decide, by simp [Prefix.encodedLen, byteLen, Ipv4Addr.new]⟩⟩
  obtain ⟨bytes, hs, h⟩ := parse_serialize_append (update updateSample) hrep
  have hl : (update updateSample).serialize.map List.length = some 45 := by decide
  rw [hs, Option.map_some, Option.some.injEq] at hl
  have hle : bytes.length ≤ maxMessageLen := by rw [hl]; decide
  obtain ⟨msg, hm⟩ := h hle [0xFF]
  exact ⟨bytes, msg, hs, hle, hm⟩

end Message

end PathForge.Wire
