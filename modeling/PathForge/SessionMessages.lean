import PathForge.UpdateMessages

namespace PathForge.Wire

open Fallible ByteReader

structure OptionalParam where
  paramType : UInt8
  value : Bytes
  deriving DecidableEq

structure OpenMessage where
  version : UInt8
  myAs : UInt16
  holdTime : UInt16
  bgpId : Ipv4Addr
  optionalParams : List OptionalParam
  deriving DecidableEq

def OptionalParam.serialize (p : OptionalParam) : Bytes :=
  [p.paramType, UInt8.ofNat p.value.length] ++ p.value

namespace OpenMessage

def new (myAs holdTime : UInt16) (bgpId : Ipv4Addr) : OpenMessage := ⟨4, myAs, holdTime, bgpId, []⟩

/-- One round of the parameter loop, on the count of octets still announced and the parameters read. -/
def paramRound (acc : ℕ × List OptionalParam) : Reader MessageError (ℕ × List OptionalParam) := do
  let paramType ← getU8
  let paramLen ← getU8
  let left := acc.1 - 2
  let len ← remaining
  if len < paramLen.toNat ∨ left < paramLen.toNat then
    fail (.parse "Truncated optional parameter")
  else
    let value ← copyToBytes paramLen.toNat
    return (left - paramLen.toNat, acc.2 ++ [⟨paramType, value⟩])

def parseParams : ℕ × List OptionalParam → Reader MessageError (ℕ × List OptionalParam) :=
  loop List.length (fun acc _ => decide (2 ≤ acc.1)) paramRound

def parse : Reader MessageError OpenMessage := do
  checkRemaining 10 (.tooShort 10)
  let version ← getU8
  let myAs ← getU16
  let holdTime ← getU16
  let id ← getU32
  let optParamLen ← getU8
  checkRemaining optParamLen.toNat (.tooShort optParamLen.toNat)
  let params ← parseParams (optParamLen.toNat, [])
  return ⟨version, myAs, holdTime, Ipv4Addr.ofU32 id, params.2⟩

def optBuf (m : OpenMessage) : Bytes := m.optionalParams.flatMap OptionalParam.serialize

def body (m : OpenMessage) : Bytes :=
  [m.version] ++ putU16 m.myAs ++ putU16 m.holdTime ++ putU32 m.bgpId.toU32 ++
    [UInt8.ofNat m.optBuf.length] ++ m.optBuf

def serialize (m : OpenMessage) : Bytes := (Header.new .open m.body.length).serialize ++ m.body

end OpenMessage

inductive ErrorCode where
  | messageHeaderError | openMessageError | updateMessageError
  | holdTimerExpired | finiteStateMachineError | cease
  deriving DecidableEq

def ErrorCode.toU8 : ErrorCode → UInt8
  | messageHeaderError => 1
  | openMessageError => 2
  | updateMessageError => 3
  | holdTimerExpired => 4
  | finiteStateMachineError => 5
  | cease => 6

structure NotificationMessage where
  errorCode : UInt8
  errorSubcode : UInt8
  data : Bytes
  deriving DecidableEq

namespace NotificationMessage

def new (errorCode : ErrorCode) (errorSubcode : UInt8) : NotificationMessage :=
  ⟨errorCode.toU8, errorSubcode, []⟩

def holdTimerExpired : NotificationMessage := new .holdTimerExpired 0

def parse : Reader MessageError NotificationMessage := do
  checkRemaining 2 (.tooShort 2)
  let errorCode ← getU8
  let errorSubcode ← getU8
  let len ← remaining
  let data ← copyToBytes len
  return ⟨errorCode, errorSubcode, data⟩

def body (m : NotificationMessage) : Bytes := [m.errorCode, m.errorSubcode] ++ m.data

def serialize (m : NotificationMessage) : Bytes :=
  (Header.new .notification (2 + m.data.length)).serialize ++ m.body

end NotificationMessage

structure KeepaliveMessage where
  deriving DecidableEq

def KeepaliveMessage.serialize (_ : KeepaliveMessage) : Bytes := (Header.new .keepalive 0).serialize

structure RouteRefresh where
  afi : UInt16
  safi : UInt8
  deriving DecidableEq

namespace RouteRefresh

def parse : Bytes → Option RouteRefresh
  | a :: b :: _ :: d :: _ => some ⟨UInt16.ofNat (beNat [a, b]), d⟩
  | _ => none

def body (m : RouteRefresh) : Bytes := putU16 m.afi ++ [0, m.safi]

def serialize (m : RouteRefresh) : Bytes := List.replicate 16 0xFF ++ putU16 (19 + 4) ++ [5] ++ m.body

end RouteRefresh

section Bodies

theorem OptionalParam.serialize_length (p : OptionalParam) : p.serialize.length = 2 + p.value.length := by
  simp [serialize]
  omega

theorem OpenMessage.parseParams_decreases :
    Decreases List.length (fun (acc : ℕ × List OptionalParam) _ => decide (2 ≤ acc.1)) paramRound := by
  intro acc s acc' t _ h
  obtain ⟨a, s₁, h₁, hr₁⟩ := run_bind_eq_ok.mp h
  obtain rfl := run_getU8_eq_ok.mp h₁
  obtain ⟨b, s₂, h₂, hr₂⟩ := run_bind_eq_ok.mp hr₁
  obtain rfl := run_getU8_eq_ok.mp h₂
  obtain ⟨len, s₃, h₃, hr₃⟩ := run_bind_eq_ok.mp hr₂
  obtain ⟨rfl, rfl⟩ : s₂.length = len ∧ s₂ = s₃ := by simpa [remaining] using h₃
  split_ifs at hr₃
  · simp at hr₃
  · obtain ⟨v, s₄, h₄, hp⟩ := run_bind_eq_ok.mp hr₃
    obtain ⟨rfl, -⟩ := run_copyToBytes_eq_ok.mp h₄
    obtain ⟨-, rfl⟩ := run_pure_eq_ok.mp hp
    simp only [List.length_cons, List.length_append]
    omega

theorem OpenMessage.run_paramRound {p : OptionalParam} {n : ℕ} (acc : List OptionalParam) (rest : Bytes)
    (hp : p.serialize.length ≤ 255) (hn : p.serialize.length ≤ n) :
    (paramRound (n, acc)).run (p.serialize ++ rest) = some (.ok (n - p.serialize.length, acc ++ [p]), rest) := by
  rw [p.serialize_length] at hp hn ⊢
  have hv : (UInt8.ofNat p.value.length).toNat = p.value.length :=
    UInt8.toNat_ofNat_of_lt (show p.value.length < 256 by omega)
  simp only [OptionalParam.serialize, List.cons_append, List.nil_append]
  rw [paramRound, run_bind_ok _ (run_getU8_cons _ _), run_bind_ok _ (run_getU8_cons _ _),
    run_bind_ok _ (run_remaining _), hv, if_neg (by simp; omega), run_bind_ok _ (reads_copyToBytes p.value rest),
      run_pure, Nat.sub_sub]

theorem OpenMessage.run_parseParams (params acc : List OptionalParam) (rest : Bytes)
    (h : (params.flatMap OptionalParam.serialize).length ≤ 255) :
    (parseParams ((params.flatMap OptionalParam.serialize).length, acc)).run
      (params.flatMap OptionalParam.serialize ++ rest) = some (.ok (0, acc ++ params), rest) := by
  induction params generalizing acc with
  | nil => simp [parseParams, loop_stop parseParams_decreases]
  | cons p params ih =>
    have hl := p.serialize_length
    rw [List.flatMap_cons, List.length_append] at h ⊢
    have hr := run_paramRound (p := p) (n := p.serialize.length + (params.flatMap OptionalParam.serialize).length)
      acc (params.flatMap OptionalParam.serialize ++ rest) (by omega) (by omega)
    rw [Nat.add_sub_cancel_left] at hr
    rw [List.append_assoc, parseParams, loop_step parseParams_decreases (by simp; omega) hr]
    have hi := ih (acc ++ [p]) (by omega)
    rw [List.append_assoc] at hi
    exact hi

theorem OpenMessage.outcome_parse_body {m : OpenMessage} (h : m.optBuf.length ≤ 255) :
    OpenMessage.parse.outcome m.body = some (.ok m) := by
  have hlen : (UInt8.ofNat m.optBuf.length).toNat = m.optBuf.length :=
    UInt8.toNat_ofNat_of_lt (Nat.lt_succ_of_le h)
  have hparams : (parseParams (m.optBuf.length, [])).run m.optBuf = some (.ok (0, m.optionalParams), []) := by
    have hr := run_parseParams m.optionalParams [] [] h
    rwa [List.append_nil, List.nil_append] at hr
  apply outcome_eq_some.mpr
  refine ⟨[], ?_⟩
  rw [parse, run_bind_ok _ (run_check (by simp [body]; omega))]
  simp only [body, List.append_assoc, List.cons_append, List.nil_append]
  rw [run_bind_ok _ (run_getU8_cons _ _), run_bind_ok _ (reads_getU16 _ _), run_bind_ok _ (reads_getU16 _ _),
    run_bind_ok _ (reads_getU32 _ _), run_bind_ok _ (run_getU8_cons _ _), hlen, run_bind_ok _ (run_check le_rfl),
    run_bind_ok _ hparams, run_pure, Ipv4Addr.ofU32_toU32]

theorem OpenMessage.run_parse_serialize {m : OpenMessage} (h : m.optBuf.length ≤ 255) (rest : Bytes) :
    BgpMessage.parse.run (m.serialize ++ rest) =
      some (.ok (some ⟨Header.new .open m.body.length, m.body⟩), rest) := by
  have hbody : headerLen + m.body.length ≤ maxMessageLen := by
    simp only [body, List.length_append, List.length_singleton, putU16_length, putU32_length, headerLen,
      maxMessageLen]
    omega
  rw [serialize]
  exact BgpMessage.run_parse_framed hbody rest

theorem NotificationMessage.outcome_parse_body (m : NotificationMessage) :
    NotificationMessage.parse.outcome m.body = some (.ok m) := by
  have hdata : (copyToBytes m.data.length).run m.data = some (.ok m.data, []) :=
    run_copyToBytes_eq_ok (ε := MessageError).mpr ⟨by simp, rfl⟩
  apply outcome_eq_some.mpr
  refine ⟨[], ?_⟩
  rw [parse, run_bind_ok _ (run_check (by simp [body]))]
  simp only [body, List.cons_append, List.nil_append]
  rw [run_bind_ok _ (run_getU8_cons _ _), run_bind_ok _ (run_getU8_cons _ _), run_bind_ok _ (run_remaining _),
    run_bind_ok _ hdata, run_pure]

theorem RouteRefresh.parse_body (m : RouteRefresh) : RouteRefresh.parse m.body = some m := by
  obtain ⟨x, y, hxy⟩ := List.length_eq_two.mp (putU16_length m.afi)
  have hafi := ofNat_beNat_putU16 m.afi
  rw [hxy] at hafi
  simp [body, hxy, parse, hafi]

end Bodies

end PathForge.Wire
