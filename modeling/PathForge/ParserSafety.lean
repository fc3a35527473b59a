import PathForge.Capabilities

namespace PathForge

open Fallible ByteReader

namespace Wire

/-- `BgpMessage::parse` as a debug build runs it: a subtraction that underflows panics. The definitions below
read the other parsers the same way, with slices and indices that panic. -/
def BgpMessage.parseChecked : Reader MessageError (Option BgpMessage) := do
  let len ← remaining
  if len < headerLen then
    return none
  else
    let header ← peek Header.parse
    let total := header.length.toNat
    let len ← remaining
    if len < total then
      return none
    else
      advance headerLen
      let bodyLen ← subtract total headerLen
      let body ← copyToBytes bodyLen
      return some ⟨header, body⟩

namespace OpenMessage

def paramRoundChecked (acc : ℕ × List OptionalParam) : Reader MessageError (ℕ × List OptionalParam) := do
  let paramType ← getU8
  let paramLen ← getU8
  let left ← subtract acc.1 2
  let len ← remaining
  if len < paramLen.toNat ∨ left < paramLen.toNat then
    fail (.parse "Truncated optional parameter")
  else
    let value ← copyToBytes paramLen.toNat
    let left ← subtract left paramLen.toNat
    return (left, acc.2 ++ [⟨paramType, value⟩])

def parseParamsChecked : ℕ × List OptionalParam → Reader MessageError (ℕ × List OptionalParam) :=
  loop List.length (fun acc _ => decide (2 ≤ acc.1)) paramRoundChecked

def parseChecked : Reader MessageError OpenMessage := do
  checkRemaining 10 (.tooShort 10)
  let version ← getU8
  let myAs ← getU16
  let holdTime ← getU16
  let id ← getU32
  let optParamLen ← getU8
  checkRemaining optParamLen.toNat (.tooShort optParamLen.toNat)
  let params ← parseParamsChecked (optParamLen.toNat, [])
  return ⟨version, myAs, holdTime, Ipv4Addr.ofU32 id, params.2⟩

end OpenMessage

section Subtractions

theorem BgpMessage.outcome_parseChecked (b : Bytes) : parseChecked.outcome b = parse.outcome b := by
  apply congrArg (Option.map Prod.fst)
  apply run_bind_congr
  intro len t _
  split_ifs
  · rfl
  apply run_bind_congr
  intro header u hu
  -- the header's own check bounds the announced length from below
  obtain ⟨-, hl, -⟩ := Header.outcome_parse_eq_ok.mp (run_peek_eq_ok.mp hu).2
  apply run_bind_congr
  intro len v _
  split_ifs
  · rfl
  apply run_bind_congr
  intro _ w _
  exact run_bind_ok _ (run_subtract hl w)

theorem OpenMessage.run_paramRoundChecked {acc : ℕ × List OptionalParam} (hacc : 2 ≤ acc.1) (s : Bytes) :
    (paramRoundChecked acc).run s = (paramRound acc).run s := by
  apply run_bind_congr
  intro paramType t _
  apply run_bind_congr
  intro paramLen u _
  rw [run_bind_ok _ (run_subtract hacc u)]
  apply run_bind_congr
  intro len v _
  split_ifs with h
  · rfl
  apply run_bind_congr
  intro value w _
  rw [not_or, not_lt, not_lt] at h
  exact run_bind_ok _ (run_subtract h.2 w)

theorem OpenMessage.outcome_parseChecked (b : Bytes) : parseChecked.outcome b = parse.outcome b := by
  apply congrArg (Option.map Prod.fst)
  apply run_bind_congr
  intro _ b₁ _
  apply run_bind_congr
  intro version b₂ _
  apply run_bind_congr
  intro myAs b₃ _
  apply run_bind_congr
  intro holdTime b₄ _
  apply run_bind_congr
  intro id b₅ _
  apply run_bind_congr
  intro optParamLen b₆ _
  apply run_bind_congr
  intro _ b₇ _
  have hloop : (parseParamsChecked (optParamLen.toNat, [])).run b₇ =
      (parseParams (optParamLen.toNat, [])).run b₇ :=
    loop_congr (fun acc s hc => run_paramRoundChecked (by simpa using hc) s) _ b₇
  rw [run_bind, run_bind, hloop]

end Subtractions

section Reads

theorem OpenMessage.ends_paramRound {acc : ℕ × List OptionalParam} {s : Bytes} (hs : acc.1 ≤ s.length)
    (hacc : 2 ≤ acc.1) :
    Ends (paramRound acc) (onOk fun acc' t => acc'.1 ≤ t.length ∧ t.length < s.length) s := by
  apply ends_bind (ends_getU8 (by omega))
  rintro paramType s rfl
  rw [List.length_cons] at hs
  apply ends_bind (ends_getU8 (by omega))
  rintro paramLen s rfl
  rw [List.length_cons] at hs
  apply ends_bind ends_remaining
  rintro _ _ ⟨rfl, rfl⟩
  split_ifs with h
  · exact ends_fail
  rw [not_or, not_lt, not_lt] at h
  apply ends_bind (ends_copyToBytes h.1)
  rintro value t ⟨rfl, hv⟩
  apply ends_pure
  simp only [List.length_append, List.length_cons] at hs ⊢
  omega

theorem OpenMessage.ends_parseParams {acc : ℕ × List OptionalParam} {s : Bytes} (hs : acc.1 ≤ s.length) :
    Ends (parseParams acc) (onOk fun acc' t => acc'.1 ≤ t.length) s := by
  have hloop : Ends (parseParams acc) (onOk fun acc' t => acc'.1 ≤ t.length ∧ decide (2 ≤ acc'.1) = false) s := by
    -- the announced octets still to come never outnumber those in the buffer
    apply ends_loop (I := fun (acc : ℕ × List OptionalParam) (t : Bytes) => acc.1 ≤ t.length) _ hs
    intro acc t ht hc
    exact ends_paramRound ht (by simpa using hc)
  exact hloop.mono fun _ _ h => h.1

theorem OpenMessage.ends_parse (b : Bytes) : Ends OpenMessage.parse (onOk fun _ _ => True) b := by
  apply ends_bind ends_check
  rintro _ _ ⟨hb, rfl⟩
  apply ends_bind (ends_getU8 (by omega))
  rintro version b rfl
  rw [List.length_cons] at hb
  apply ends_bind (ends_getU16 (by omega))
  rintro myAs b rfl
  rw [List.length_append, putU16_length] at hb
  apply ends_bind (ends_getU16 (by omega))
  rintro holdTime b rfl
  rw [List.length_append, putU16_length] at hb
  apply ends_bind (ends_getU32 (by omega))
  rintro id b rfl
  rw [List.length_append, putU32_length] at hb
  apply ends_bind (ends_getU8 (by omega))
  rintro optParamLen b rfl
  apply ends_bind ends_check
  rintro _ _ ⟨hl, rfl⟩
  apply ends_bind (ends_parseParams hl)
  intro params t _
  exact ends_pure trivial

theorem NotificationMessage.ends_parse (b : Bytes) : Ends NotificationMessage.parse (onOk fun _ _ => True) b := by
  apply ends_bind ends_check
  rintro _ _ ⟨hb, rfl⟩
  apply ends_bind (ends_getU8 (by omega))
  rintro errorCode b rfl
  rw [List.length_cons] at hb
  apply ends_bind (ends_getU8 (by omega))
  rintro errorSubcode b rfl
  apply ends_bind ends_remaining
  rintro _ _ ⟨rfl, rfl⟩
  apply ends_bind (ends_copyToBytes le_rfl)
  intro data t _
  exact ends_pure trivial

end Reads

end Wire

namespace Peering.Capability

open Wire

/-- The slice `data[start..stop]`, which panics when it is not within the data. -/
def slice (data : Bytes) (start stop : ℕ) : Option Bytes :=
  if start ≤ stop ∧ stop ≤ data.length then some ((data.drop start).take (stop - start)) else none

def parseOneChecked (code : UInt8) (data : Bytes) : Option Capability :=
  if code = 1 ∧ 4 ≤ data.length then do
    return multiProtocol (UInt16.ofNat (beNat [← data[0]?, ← data[1]?])) (← data[3]?)
  else if code = 2 then
    return routeRefresh
  else if code = 64 ∧ 2 ≤ data.length then do
    let word := UInt16.ofNat (beNat [← data[0]?, ← data[1]?])
    return gracefulRestart (word &&& 0x0FFF) ((word >>> 12) &&& 0xF).toUInt8
  else if code = 65 ∧ 4 ≤ data.length then do
    return fourOctetAsn (UInt32.ofNat (beNat [← data[0]?, ← data[1]?, ← data[2]?, ← data[3]?]))
  else
    return unknown code data

def scanCapsChecked (data : Bytes) (stop : ℕ) : (fuel capPos : ℕ) → List Capability → Option (List Capability)
  | 0, _, _ => none
  | fuel + 1, capPos, caps =>
    if capPos + 2 ≤ stop then do
      let capCode ← data[capPos]?
      let capLen ← data[capPos + 1]?
      let capEnd := capPos + 2 + capLen.toNat
      if data.length < capEnd then
        return caps
      else
        let capData ← slice data (capPos + 2) capEnd
        let cap ← parseOneChecked capCode capData
        scanCapsChecked data stop fuel capEnd (caps ++ [cap])
    else
      some caps

def scanParamsChecked (data : Bytes) : (fuel pos : ℕ) → List Capability → Option (List Capability)
  | 0, _, _ => none
  | fuel + 1, pos, caps =>
    if pos + 2 ≤ data.length then do
      let paramType ← data[pos]?
      let paramLen ← data[pos + 1]?
      let stop := min (pos + 2 + paramLen.toNat) data.length
      let caps ← if paramType = 2 then scanCapsChecked data stop (data.length + 1) (pos + 2) caps else some caps
      scanParamsChecked data fuel (pos + 2 + paramLen.toNat) caps
    else
      some caps

def parseOptionalParamsChecked (data : Bytes) : Option (List Capability) :=
  scanParamsChecked data (data.length + 1) 0 []

theorem parseOneChecked_eq (code : UInt8) (data : Bytes) :
    parseOneChecked code data = some (parseOne code data) := by
  unfold parseOneChecked
  split_ifs with h₁ h₂ h₃ h₄
  · obtain ⟨rfl, hl⟩ := h₁
    match data, hl with
    | a :: b :: c :: d :: rest, _ => rfl
  · subst h₂
    rfl
  · obtain ⟨rfl, hl⟩ := h₃
    match data, hl with
    | a :: b :: rest, _ => rfl
  · obtain ⟨rfl, hl⟩ := h₄
    match data, hl with
    | a :: b :: c :: d :: rest, _ => rfl
  · unfold parseOne
    split
    · exact absurd ⟨UInt8.toNat_inj.mp ‹_›, by simp⟩ h₁
    · exact absurd (UInt8.toNat_inj.mp ‹_›) h₂
    · exact absurd ⟨UInt8.toNat_inj.mp ‹_›, by simp⟩ h₃
    · exact absurd ⟨UInt8.toNat_inj.mp ‹_›, by simp⟩ h₄
    · rfl

theorem scanCapsChecked_eq (data : Bytes) (stop fuel capPos : ℕ) (caps : List Capability) :
    scanCapsChecked data stop fuel capPos caps = scanCaps data stop fuel capPos caps := by
  induction fuel generalizing capPos caps with
  | zero => rfl
  | succ fuel ih =>
    rw [scanCapsChecked, scanCaps]
    split_ifs with hc
    · apply Option.bind_congr
      intro capCode _
      apply Option.bind_congr
      intro capLen _
      dsimp only
      split_ifs with he
      · rfl
      · have hslice : slice data (capPos + 2) (capPos + 2 + capLen.toNat) =
            some ((data.drop (capPos + 2)).take capLen.toNat) := by
          rw [slice, if_pos ⟨by omega, by omega⟩, Nat.add_sub_cancel_left]
        simp only [hslice, parseOneChecked_eq, Option.bind_eq_bind, Option.bind_some]
        exact ih _ _
    · rfl

theorem scanParamsChecked_eq (data : Bytes) (fuel pos : ℕ) (caps : List Capability) :
    scanParamsChecked data fuel pos caps = scanParams data fuel pos caps := by
  induction fuel generalizing pos caps with
  | zero => rfl
  | succ fuel ih =>
    rw [scanParamsChecked, scanParams]
    simp only [scanCapsChecked_eq, ih]

theorem parseOptionalParamsChecked_eq (data : Bytes) :
    parseOptionalParamsChecked data = parseOptionalParams data :=
  scanParamsChecked_eq data _ _ _

end Peering.Capability

section Total

open Wire Peering

theorem parsers_return (b : Bytes) :
    (∃ r, BgpMessage.parseChecked.outcome b = some r ∧ BgpMessage.parse.outcome b = some r) ∧
    (∃ r, OpenMessage.parseChecked.outcome b = some r ∧ OpenMessage.parse.outcome b = some r) ∧
    (∃ r, NotificationMessage.parse.outcome b = some r) ∧
    (∃ r, PathAttributes.parse.outcome b = some r) ∧
    ∃ caps, Capability.parseOptionalParamsChecked b = some caps ∧
      Capability.parseOptionalParams b = some caps := by
  have hmessage : BgpMessage.parse.run b ≠ none := by
    obtain ⟨r, t, h, -⟩ := BgpMessage.incremental_parse b
    simp [h]
  have hcaps : ∃ caps, Capability.parseOptionalParams b = some caps :=
    Capability.exists_scanParams b (b.length + 1) 0 (by omega) (by omega) []
  simp only [BgpMessage.outcome_parseChecked, OpenMessage.outcome_parseChecked,
    Capability.parseOptionalParamsChecked_eq, and_self, exists_outcome_iff]
  exact ⟨hmessage, (OpenMessage.ends_parse b).ne_none, (NotificationMessage.ends_parse b).ne_none,
    PathAttributes.run_parse_ne_none b, hcaps⟩

end Total

end PathForge
