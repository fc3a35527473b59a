import PathForge.ChunkedInput

namespace PathForge.Wire

open Fallible ByteReader

inductive MessageType where
  | «open» | update | notification | keepalive | routeRefresh
  deriving DecidableEq

inductive MessageError where
  | unknownType (v : UInt8)
  | tooShort (expected got : ℕ)
  | invalidMarker
  | invalidLength (length : UInt16)
  | parse (text : String)
  deriving DecidableEq

namespace MessageType

def toU8 : MessageType → UInt8
  | «open» => 1
  | update => 2
  | notification => 3
  | keepalive => 4
  | routeRefresh => 5

def tryFrom (v : UInt8) : Except MessageError MessageType :=
  if v = 1 then .ok «open»
  else if v = 2 then .ok update
  else if v = 3 then .ok notification
  else if v = 4 then .ok keepalive
  else if v = 5 then .ok routeRefresh
  else .error (.unknownType v)

theorem tryFrom_eq_ok {v : UInt8} {t : MessageType} : tryFrom v = .ok t ↔ v = t.toU8 := by
  constructor
  · intro h
    unfold tryFrom at h
    split_ifs at h <;> cases h <;> assumption
  · rintro rfl
    cases t <;> rfl

end MessageType

structure Header where
  length : UInt16
  msgType : MessageType
  deriving DecidableEq

structure BgpMessage where
  header : Header
  body : Bytes
  deriving DecidableEq

def marker : Bytes := List.replicate 16 0xFF
def headerLen : ℕ := 19
def maxMessageLen : ℕ := 4096

namespace Header

def new (msgType : MessageType) (bodyLen : ℕ) : Header := ⟨UInt16.ofNat (headerLen + bodyLen), msgType⟩

def parse : Reader MessageError Header := do
  checkRemaining headerLen (.tooShort headerLen)
  let m ← copyToBytes 16
  if m ≠ marker then
    fail .invalidMarker
  else
    let length ← getU16
    if length.toNat < headerLen ∨ maxMessageLen < length.toNat then
      fail (.invalidLength length)
    else
      let typeByte ← getU8
      let msgType ← ofExcept (MessageType.tryFrom typeByte)
      return ⟨length, msgType⟩

def serialize (h : Header) : Bytes := marker ++ putU16 h.length ++ [h.msgType.toU8]

end Header

def BgpMessage.parse : Reader MessageError (Option BgpMessage) := do
  let len ← remaining
  if len < headerLen then
    return none
  else
    let header ← peek Header.parse
    let total := header.length.toNat
    let len ← remaining
    if len < total then
      return none
    else
      advance headerLen
      let body ← copyToBytes (total - headerLen)
      return some ⟨header, body⟩

namespace Header

theorem serialize_length (h : Header) : h.serialize.length = headerLen := by simp [serialize, marker, headerLen]

theorem run_parse_eq_ok {s t : Bytes} {h : Header} :
    parse.run s = some (.ok h, t) ↔
      s = h.serialize ++ t ∧ headerLen ≤ h.length.toNat ∧ h.length.toNat ≤ maxMessageLen := by
  constructor
  · intro hr
    obtain ⟨_, s₀, h₀, hr₀⟩ := run_bind_eq_ok.mp hr
    obtain ⟨-, rfl⟩ := run_ensure_eq_ok.mp h₀
    obtain ⟨m, s₁, h₁, hr₁⟩ := run_bind_eq_ok.mp hr₀
    obtain ⟨rfl, -⟩ := run_copyToBytes_eq_ok.mp h₁
    split_ifs at hr₁ with hm
    · simp at hr₁
    · obtain ⟨n, s₂, h₂, hr₂⟩ := run_bind_eq_ok.mp hr₁
      obtain rfl := run_getU16_eq_ok.mp h₂
      split_ifs at hr₂ with hn
      · simp at hr₂
      · obtain ⟨k, s₃, h₃, hr₃⟩ := run_bind_eq_ok.mp hr₂
        obtain rfl := run_getU8_eq_ok.mp h₃
        obtain ⟨k', s₄, h₄, hp⟩ := run_bind_eq_ok.mp hr₃
        simp only [run_ofExcept, Option.some.injEq, Prod.mk.injEq, MessageType.tryFrom_eq_ok] at h₄
        obtain ⟨rfl, rfl⟩ := h₄
        obtain ⟨rfl, rfl⟩ := run_pure_eq_ok.mp hp
        rw [not_not] at hm
        rw [not_or, not_lt, not_lt] at hn
        subst hm
        exact ⟨by simp [serialize], hn⟩
  · rintro ⟨rfl, hl, hu⟩
    have hlen := h.serialize_length
    have hm : (copyToBytes 16).run (marker ++ (putU16 h.length ++ (h.msgType.toU8 :: t))) =
        some (.ok marker, putU16 h.length ++ (h.msgType.toU8 :: t)) :=
          reads_copyToBytes (ε := MessageError) marker _
    have ht : MessageType.tryFrom h.msgType.toU8 = .ok h.msgType := MessageType.tryFrom_eq_ok.mpr rfl
    rw [parse, run_bind_ok _ (run_check (by rw [List.length_append]; omega)), serialize, List.append_assoc,
      List.append_assoc, List.singleton_append, run_bind_ok _ hm, if_neg (by simp),
      run_bind_ok _ (reads_getU16 _ _), if_neg (by omega), run_bind_ok _ (run_getU8_cons _ _), ht]
    rfl

theorem outcome_parse_eq_ok {s : Bytes} {h : Header} :
    parse.outcome s = some (.ok h) ↔
      s = h.serialize ++ s.drop headerLen ∧ headerLen ≤ h.length.toNat ∧ h.length.toNat ≤ maxMessageLen := by
  rw [outcome_eq_some]
  constructor
  · rintro ⟨t, ht⟩
    obtain ⟨rfl, hl⟩ := run_parse_eq_ok.mp ht
    rw [List.drop_left' h.serialize_length]
    exact ⟨rfl, hl⟩
  · intro hs
    exact ⟨_, run_parse_eq_ok.mpr hs⟩

theorem stable_parse {b : Bytes} (hb : headerLen ≤ b.length) : Stable parse b := by
  apply (stable_check hb).bind
  intro _ b₀ h₀
  obtain ⟨-, rfl⟩ := run_ensure_eq_ok.mp h₀
  unfold headerLen at hb
  apply (stable_copyToBytes (by omega)).bind
  intro m b₁ h₁
  obtain ⟨rfl, hm⟩ := run_copyToBytes_eq_ok.mp h₁
  rw [List.length_append, hm] at hb
  split_ifs
  · exact stable_fail _ _
  · apply (stable_getU16 (by omega)).bind
    intro n b₂ h₂
    obtain rfl := run_getU16_eq_ok.mp h₂
    rw [List.length_append, putU16_length] at hb
    split_ifs
    · exact stable_fail _ _
    · apply (stable_getU8 (by omega)).bind
      intro k b₃ _
      apply (stable_ofExcept _ _).bind
      intro t b₄ _
      exact stable_pure _ _

end Header

namespace BgpMessage

theorem run_parse_short {b : Bytes} (hb : b.length < headerLen) : parse.run b = some (.ok none, b) := by
  change (if b.length < headerLen then _ else _ : Reader MessageError _).run b = _
  rw [if_pos hb, run_pure]

theorem run_parse_long {b : Bytes} (hb : headerLen ≤ b.length) :
    parse.run b = (peek Header.parse >>= fun header => do
      let len ← remaining
      if len < header.length.toNat then
        return none
      else
        advance headerLen
        let body ← copyToBytes (header.length.toNat - headerLen)
        return some ⟨header, body⟩ : Reader MessageError (Option BgpMessage)).run b := by
  change (if b.length < headerLen then _ else _ : Reader MessageError _).run b = _
  rw [if_neg (by omega)]

theorem run_parse_error {b : Bytes} (hb : headerLen ≤ b.length) {e : MessageError}
    (h : Header.parse.outcome b = some (.error e)) : parse.run b = some (.error e, b) := by
  rw [run_parse_long hb, run_bind_error (t := b) (e := e) _ (by simp [peek, within, h])]

theorem run_parse_ok {b : Bytes} (hb : headerLen ≤ b.length) {h : Header}
    (hh : Header.parse.outcome b = some (.ok h)) :
    parse.run b = if b.length < h.length.toNat then some (.ok none, b) else
      some (.ok (some ⟨h, (b.drop headerLen).take (h.length.toNat - headerLen)⟩), b.drop h.length.toNat) := by
  obtain ⟨-, hl, -⟩ := Header.outcome_parse_eq_ok.mp hh
  rw [run_parse_long hb, run_bind_ok _ (run_peek_eq_ok.mpr ⟨rfl, hh⟩)]
  change (if b.length < h.length.toNat then _ else _ : Reader MessageError _).run b = _
  split_ifs with hlt
  · rfl
  · have hbody : (copyToBytes (h.length.toNat - headerLen) : Reader MessageError Bytes).run (b.drop headerLen) =
        some (.ok ((b.drop headerLen).take (h.length.toNat - headerLen)), b.drop h.length.toNat) := by
      rw [copyToBytes]
      simp only [List.length_drop]
      rw [if_pos (by omega), List.drop_drop, Nat.add_sub_cancel' hl]
    rw [run_bind_ok _ (run_advance_eq_ok (u := ()).mpr ⟨hb, rfl⟩), run_bind_ok _ hbody, run_pure]

theorem incremental_parse : Incremental parse := by
  intro b
  by_cases hb : b.length < headerLen
  · exact ⟨_, _, run_parse_short hb, rfl⟩
  rw [not_lt] at hb
  obtain ⟨r, hr⟩ := (Header.stable_parse hb).outcome
  have hb' (y : Bytes) : headerLen ≤ (b ++ y).length := by rw [List.length_append]; omega
  have hr₀ := hr []
  rw [List.append_nil] at hr₀
  cases r with
  | error e => exact ⟨_, _, run_parse_error hb hr₀, rfl, fun y => run_parse_error (hb' y) (hr y)⟩
  | ok h =>
    obtain ⟨-, hl, -⟩ := Header.outcome_parse_eq_ok.mp hr₀
    have h₀ := run_parse_ok hb hr₀
    split_ifs at h₀ with hlt
    · exact ⟨_, _, h₀, rfl⟩
    · refine ⟨_, _, h₀, ?_, ?_⟩
      · rw [List.length_drop]
        unfold headerLen at hl
        omega
      · intro y
        rw [run_parse_ok (hb' y) (hr y), if_neg (by simp; omega), List.drop_append_of_le_length hb,
          List.drop_append_of_le_length (by omega), List.take_append_of_le_length (by simp; omega)]

theorem run_parse_some {b t : Bytes} {m : BgpMessage} :
    parse.run b = some (.ok (some m), t) ↔
      b = m.header.serialize ++ (m.body ++ t) ∧ headerLen + m.body.length = m.header.length.toNat ∧
        m.header.length.toNat ≤ maxMessageLen := by
  constructor
  · intro h
    by_cases hb : b.length < headerLen
    · simp [run_parse_short hb] at h
    rw [not_lt] at hb
    obtain ⟨r, u, hr⟩ := Header.stable_parse hb
    have hr₀ : Header.parse.outcome b = some r := outcome_eq_some.mpr ⟨_, by simpa using hr []⟩
    cases r with
    | error e => simp [run_parse_error hb hr₀] at h
    | ok hd =>
      obtain ⟨hs, hl, hu⟩ := Header.outcome_parse_eq_ok.mp hr₀
      rw [run_parse_ok hb hr₀] at h
      split_ifs at h with hlt
      · simp at h
      · simp only [Option.some.injEq, Prod.mk.injEq, Except.ok.injEq] at h
        obtain ⟨rfl, rfl⟩ := h
        refine ⟨?_, by simp; omega, hu⟩
        have hd : b.drop hd.length.toNat = (b.drop headerLen).drop (hd.length.toNat - headerLen) := by
          rw [List.drop_drop, Nat.add_sub_cancel' hl]
        rw [hd, List.take_append_drop]
        exact hs
  · rintro ⟨rfl, hl, hu⟩
    have hh := m.header.serialize_length
    have ho : Header.parse.outcome (m.header.serialize ++ (m.body ++ t)) = some (.ok m.header) :=
      outcome_eq_some.mpr ⟨_, Header.run_parse_eq_ok.mpr ⟨rfl, by omega, hu⟩⟩
    rw [run_parse_ok (by simp [hh]) ho, if_neg (by simp; omega), List.drop_left' hh,
      ← List.append_assoc, List.drop_left' (by simp; omega), List.take_left' (by omega)]

theorem run_parse_framed {msgType : MessageType} {body : Bytes} (h : headerLen + body.length ≤ maxMessageLen)
    (rest : Bytes) :
    parse.run (((Header.new msgType body.length).serialize ++ body) ++ rest) =
      some (.ok (some ⟨Header.new msgType body.length, body⟩), rest) := by
  have hn : (Header.new msgType body.length).length.toNat = headerLen + body.length := by
    rw [Header.new, UInt16.toNat_ofNat']
    unfold maxMessageLen at h
    omega
  rw [List.append_assoc, run_parse_some]
  exact ⟨rfl, hn.symm, by rwa [hn]⟩

theorem run_parse_other {b t : Bytes} {r : Except MessageError (Option BgpMessage)}
    (h : parse.run b = some (r, t)) (hr : ∀ m, r ≠ .ok (some m)) : t = b := by
  obtain ⟨r', t', h', hs⟩ := incremental_parse b
  rw [h'] at h
  simp only [Option.some.injEq, Prod.mk.injEq] at h
  obtain ⟨rfl, rfl⟩ := h
  rcases r' with e | _ | m
  · exact hs.1
  · exact hs
  · exact absurd rfl (hr m)

theorem receiveAll_parse_congr (stream : Bytes) (cs ds : List Bytes) (hc : cs.flatten = stream)
    (hd : ds.flatten = stream) :
    (∃ r t u, (receiveAll parse cs).run {} = some (r, t) ∧ (receiveAll parse ds).run {} = some (r, u) ∧
        t.delivered = u.delivered ∧ (r = .ok () → t.buf = u.buf)) ∧
      ∀ b, ∃ r t, parse.run b = some (r, t) ∧
        (∀ m, r = .ok (some m) → b = m.header.serialize ++ (m.body ++ t) ∧
          b.length = m.header.length.toNat + t.length) ∧
        ((∀ m, r ≠ .ok (some m)) → t = b) := by
  refine ⟨receiveAll_congr incremental_parse (run_parse_short (by decide)) (hc.trans hd.symm), ?_⟩
  intro b
  obtain ⟨r, t, h, -⟩ := incremental_parse b
  refine ⟨r, t, h, ?_, run_parse_other h⟩
  rintro m rfl
  obtain ⟨rfl, hl, -⟩ := run_parse_some.mp h
  refine ⟨rfl, ?_⟩
  simp only [List.length_append, Header.serialize_length]
  omega

def keepaliveStream : Bytes := marker ++ [0, 19, 4, 0xFF]

theorem receiveAll_parse_congr_keepalive :
    ∃ r t u, (receiveAll parse [keepaliveStream]).run {} = some (r, t) ∧
      (receiveAll parse [keepaliveStream.take 17, keepaliveStream.drop 17]).run {} = some (r, u) ∧
      t.delivered = u.delivered ∧ (r = .ok () → t.buf = u.buf) :=
  (receiveAll_parse_congr keepaliveStream _ _ (by decide) (by decide)).1

end BgpMessage

end PathForge.Wire
