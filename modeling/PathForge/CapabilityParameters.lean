import PathForge.CapabilityRoundTrip

namespace PathForge.Peering

open Fallible ByteReader Wire

namespace Capability

def capsIn (after : Bytes) : Bytes → List Capability
  | code :: len :: rest =>
    if len.toNat ≤ rest.length then
      parseOne code (rest.take len.toNat) :: capsIn after (rest.drop len.toNat)
    else if len.toNat ≤ (rest ++ after).length then
      [parseOne code ((rest ++ after).take len.toNat)]
    else
      []
  | _ => []
termination_by v => v.length
decreasing_by
  simp only [List.length_drop, List.length_cons]
  omega

/-- A capability runs over the end of its parameter, and the octets `after` the parameter make up for it. -/
inductive Overruns (after : Bytes) : Bytes → Prop
  | here (code len : UInt8) (rest : Bytes) (hl : rest.length < len.toNat)
      (hr : len.toNat ≤ (rest ++ after).length) :
      Overruns after (code :: len :: rest)
  | later (code len : UInt8) (data rest : Bytes) (hd : data.length = len.toNat) (h : Overruns after rest) :
      Overruns after (code :: len :: (data ++ rest))

variable {after rest : Bytes} {code len : UInt8}

theorem capsIn_within (h : len.toNat ≤ rest.length) :
    capsIn after (code :: len :: rest) = parseOne code (rest.take len.toNat) ::
      capsIn after (rest.drop len.toNat) := by
  rw [capsIn, if_pos h]

theorem capsIn_over (h : rest.length < len.toNat) :
    capsIn after (code :: len :: rest) =
      if len.toNat ≤ (rest ++ after).length then [parseOne code ((rest ++ after).take len.toNat)] else [] := by
  rw [capsIn, if_neg (Nat.not_le.mpr h)]

theorem overruns_within_iff (h : len.toNat ≤ rest.length) :
    Overruns after (code :: len :: rest) ↔ Overruns after (rest.drop len.toNat) := by
  constructor
  · rintro (⟨_, _, _, hl, -⟩ | ⟨_, _, data, rest, hd, hr⟩)
    · omega
    · rwa [← hd, List.drop_left]
  · intro hr
    have hlater := Overruns.later code len (rest.take len.toNat) _ (by simp [h]) hr
    rwa [List.take_append_drop] at hlater

theorem overruns_over_iff (h : rest.length < len.toNat) :
    Overruns after (code :: len :: rest) ↔ len.toNat ≤ (rest ++ after).length := by
  constructor
  · rintro (⟨_, _, _, -, hr⟩ | ⟨_, _, data, rest, hd, -⟩)
    · exact hr
    · rw [List.length_append] at h
      omega
  · exact Overruns.here code len rest h

theorem capsIn_cases (after v : Bytes) :
    (Overruns after v ∧ ∃ extra, capsIn after v = capsIn [] v ++ [extra]) ∨
      (¬ Overruns after v ∧ capsIn after v = capsIn [] v) := by
  induction v using capsIn.induct after with
  | case1 code len rest hl ih =>
    rw [overruns_within_iff hl, capsIn_within hl, capsIn_within hl]
    rcases ih with ⟨ho, extra, he⟩ | ⟨ho, he⟩
    · exact Or.inl ⟨ho, extra, by rw [he, List.cons_append]⟩
    · exact Or.inr ⟨ho, by rw [he]⟩
  | case2 code len rest hl hr =>
    have hl := Nat.not_le.mp hl
    rw [overruns_over_iff hl, capsIn_over hl, capsIn_over hl, if_pos hr, List.append_nil,
      if_neg (Nat.not_le.mpr hl)]
    exact Or.inl ⟨hr, _, rfl⟩
  | case3 code len rest hl hr =>
    have hl := Nat.not_le.mp hl
    rw [overruns_over_iff hl, capsIn_over hl, capsIn_over hl, if_neg hr, List.append_nil,
      if_neg (Nat.not_le.mpr hl)]
    exact Or.inr ⟨hr, rfl⟩
  | case4 v hv =>
    refine Or.inr ⟨?_, by rw [capsIn, capsIn] <;> exact hv⟩
    rintro (⟨_, _, _, -, -⟩ | ⟨_, _, _, _, -, -⟩)
    · exact hv _ _ _ rfl
    · exact hv _ _ _ rfl

theorem scanCaps_cons (before : Bytes) {stop : ℕ} (hs : before.length + 2 ≤ stop) (fuel : ℕ)
    (caps : List Capability) :
    scanCaps (before ++ (code :: len :: rest)) stop (fuel + 1) before.length caps =
      if rest.length < len.toNat then some caps
      else scanCaps (before ++ (code :: len :: rest)) stop fuel (before.length + 2 + len.toNat)
        (caps ++ [parseOne code (rest.take len.toNat)]) := by
  have hcode : (before ++ (code :: len :: rest))[before.length]? = some code := by simp
  have hlen : (before ++ (code :: len :: rest))[before.length + 1]? = some len := by simp
  have hdata : (before ++ (code :: len :: rest)).drop (before.length + 2) = rest := by
    rw [← List.drop_drop, List.drop_left]
    rfl
  have hend : (before ++ (code :: len :: rest)).length < before.length + 2 + len.toNat ↔
      rest.length < len.toNat := by
    simp only [List.length_append, List.length_cons]
    omega
  rw [scanCaps, if_pos hs, hcode, hlen]
  simp only [Option.bind_eq_bind, Option.bind_some, hdata, hend, Option.pure_def]

theorem scanCaps_stop {data : Bytes} {stop fuel pos : ℕ} (h : stop < pos + 2) (hf : 0 < fuel)
    (caps : List Capability) :
    scanCaps data stop fuel pos caps = some caps := by
  obtain ⟨fuel, rfl⟩ := Nat.exists_eq_succ_of_ne_zero (Nat.ne_zero_of_lt hf)
  rw [scanCaps, if_neg (Nat.not_le.mpr h)]

theorem scanCaps_eq (before v after : Bytes) (fuel : ℕ) (hf : v.length < fuel) (caps : List Capability) :
    scanCaps (before ++ (v ++ after)) (before ++ v).length fuel before.length caps =
      some (caps ++ capsIn after v) := by
  induction v using capsIn.induct after generalizing before fuel caps with
  | case1 code len rest hl ih =>
    obtain ⟨fuel, rfl⟩ := Nat.exists_eq_succ_of_ne_zero (Nat.ne_zero_of_lt hf)
    have hpos : before.length + 2 + len.toNat = (before ++ (code :: len :: rest.take len.toNat)).length := by
      simp only [List.length_append, List.length_cons, List.length_take, Nat.min_eq_left hl]
      omega
    have hbuf (t : Bytes) : before ++ (code :: len :: rest ++ t) =
        before ++ (code :: len :: rest.take len.toNat) ++ (rest.drop len.toNat ++ t) := by
      simp only [List.append_assoc, List.cons_append]
      rw [← List.append_assoc (rest.take len.toNat), List.take_append_drop]
    have hstop : before ++ (code :: len :: rest) = before ++ (code :: len :: rest.take len.toNat) ++
        rest.drop len.toNat := by
      simp
    have hscan := ih (before ++ (code :: len :: rest.take len.toNat)) fuel
      (by simp only [List.length_cons, List.length_drop] at hf ⊢; omega)
      (caps ++ [parseOne code (rest.take len.toNat)])
    rw [List.cons_append, List.cons_append, scanCaps_cons before (by simp), if_neg (by simp; omega),
      List.take_append_of_le_length hl, ← List.cons_append, ← List.cons_append, hpos, hbuf, hstop, hscan,
        capsIn_within hl]
    simp
  | case2 code len rest hl hr =>
    obtain ⟨fuel, rfl⟩ := Nat.exists_eq_succ_of_ne_zero (Nat.ne_zero_of_lt hf)
    have hl := Nat.not_le.mp hl
    rw [List.cons_append, List.cons_append, scanCaps_cons before (by simp), if_neg (Nat.not_lt.mpr hr),
      scanCaps_stop, capsIn_over hl, if_pos hr]
    · simp only [List.length_append, List.length_cons]
      omega
    · simp only [List.length_cons] at hf
      omega
  | case3 code len rest hl hr =>
    obtain ⟨fuel, rfl⟩ := Nat.exists_eq_succ_of_ne_zero (Nat.ne_zero_of_lt hf)
    have hl := Nat.not_le.mp hl
    rw [List.cons_append, List.cons_append, scanCaps_cons before (by simp), if_pos (Nat.not_le.mp hr),
      capsIn_over hl, if_neg hr, List.append_nil]
  | case4 v hv =>
    have hshort : v.length < 2 := by
      rcases v with _ | ⟨code, _ | ⟨len, rest⟩⟩
      · exact Nat.two_pos
      · exact Nat.one_lt_two
      · exact (hv _ _ _ rfl).elim
    rw [scanCaps_stop, capsIn, List.append_nil]
    · exact hv
    · rw [List.length_append]
      omega
    · omega

def decoded : List OptionalParam → List Capability
  | [] => []
  | p :: ps => (if p.paramType = 2 then capsIn (ps.flatMap OptionalParam.serialize) p.value else []) ++ decoded ps

theorem scanParams_eq (before : Bytes) {ps : List OptionalParam} (hps : ∀ p ∈ ps, p.value.length < 256) (fuel : ℕ)
    (hf : (ps.flatMap OptionalParam.serialize).length < fuel) (caps : List Capability) :
    scanParams (before ++ ps.flatMap OptionalParam.serialize) fuel before.length caps =
      some (caps ++ decoded ps) := by
  induction ps generalizing before fuel caps with
  | nil =>
    obtain ⟨fuel, rfl⟩ := Nat.exists_eq_succ_of_ne_zero (Nat.ne_zero_of_lt hf)
    simp [scanParams, decoded]
  | cons p ps ih =>
    obtain ⟨fuel, rfl⟩ := Nat.exists_eq_succ_of_ne_zero (Nat.ne_zero_of_lt hf)
    rw [List.forall_mem_cons] at hps
    have hn : (UInt8.ofNat p.value.length).toNat = p.value.length :=
      UInt8.toNat_ofNat_of_lt hps.1
    obtain ⟨head, hhead⟩ : ∃ head, head = before ++ [p.paramType, UInt8.ofNat p.value.length] := ⟨_, rfl⟩
    have hbuf : before ++ (p :: ps).flatMap OptionalParam.serialize =
        head ++ (p.value ++ ps.flatMap OptionalParam.serialize) := by
      simp [hhead, OptionalParam.serialize]
    have hpos : before.length + 2 = head.length := by simp [hhead]
    have htype : (head ++ (p.value ++ ps.flatMap OptionalParam.serialize))[before.length]? = some p.paramType := by
      simp [hhead]
    have hlen : (head ++ (p.value ++ ps.flatMap OptionalParam.serialize))[before.length + 1]? =
        some (UInt8.ofNat p.value.length) := by
      simp [hhead]
    have hstop : min (head.length + p.value.length)
        (head ++ (p.value ++ ps.flatMap OptionalParam.serialize)).length = (head ++ p.value).length := by
      simp only [List.length_append]
      omega
    rw [List.flatMap_cons, List.length_append, p.serialize_length] at hf
    have hnext (caps : List Capability) :
        scanParams (head ++ (p.value ++ ps.flatMap OptionalParam.serialize)) fuel
          (head.length + p.value.length) caps =
          some (caps ++ decoded ps) := by
      rw [← List.length_append, ← List.append_assoc]
      exact ih (head ++ p.value) hps.2 fuel (by omega) caps
    rw [hbuf, scanParams, if_pos (by rw [hpos]; simp), htype, hlen]
    simp only [Option.bind_eq_bind, Option.bind_some, hn, hpos, hstop]
    split_ifs with ht
    · rw [scanCaps_eq _ _ _ _ (by simp only [List.length_append]; omega), Option.bind_some, hnext,
        decoded, if_pos ht, List.append_assoc]
    · rw [hnext, decoded, if_neg ht, List.nil_append]

theorem parseFromOpenParams_eq {ps : List OptionalParam} (hps : ∀ p ∈ ps, p.value.length < 256) :
    parseFromOpenParams ps = some (decoded ps) := scanParams_eq [] hps _ (Nat.lt_succ_self _) []

def alone (p : OptionalParam) : List Capability := if p.paramType = 2 then capsIn [] p.value else []

theorem parseFromOpenParams_single {p : OptionalParam} (hp : p.value.length < 256) :
    parseFromOpenParams [p] = some (alone p) := by
  rw [parseFromOpenParams_eq (List.forall_mem_singleton.mpr hp), decoded, decoded, List.append_nil]
  rfl

def Contained (ps : List OptionalParam) : Prop :=
  ∀ before p after, ps = before ++ p :: after → p.paramType = 2 →
    ¬ Overruns (after.flatMap OptionalParam.serialize) p.value

theorem contained_cons_iff {p : OptionalParam} {ps : List OptionalParam} :
    Contained (p :: ps) ↔
      (p.paramType = 2 → ¬ Overruns (ps.flatMap OptionalParam.serialize) p.value) ∧ Contained ps := by
  constructor
  · intro h
    refine ⟨h [] p ps rfl, ?_⟩
    rintro before q after rfl
    exact h (p :: before) q after rfl
  · rintro ⟨hp, hps⟩ before q after h
    cases before with
    | nil =>
      obtain ⟨rfl, rfl⟩ := List.cons.inj h
      exact hp
    | cons b before => exact hps before q after (List.cons.inj h).2

theorem decoded_cases (ps : List OptionalParam) :
    (Contained ps ∧ decoded ps = ps.flatMap alone) ∨
      (¬ Contained ps ∧ (ps.flatMap alone).length < (decoded ps).length) := by
  induction ps with
  | nil => exact Or.inl ⟨fun before p after h => by simp at h, rfl⟩
  | cons p ps ih =>
    have hle : (ps.flatMap alone).length ≤ (decoded ps).length := by
      rcases ih with ⟨-, he⟩ | ⟨-, hlt⟩
      · rw [he]
      · exact hlt.le
    rw [contained_cons_iff, decoded, List.flatMap_cons, alone]
    by_cases ht : p.paramType = 2
    · simp only [ht, if_pos, forall_const]
      rcases capsIn_cases (ps.flatMap OptionalParam.serialize) p.value with ⟨ho, extra, he⟩ | ⟨ho, he⟩
      · refine Or.inr ⟨fun h => h.1 ho, ?_⟩
        rw [he]
        simp only [List.length_append, List.length_singleton]
        omega
      · rw [he]
        rcases ih with ⟨hc, hd⟩ | ⟨hc, hd⟩
        · exact Or.inl ⟨⟨ho, hc⟩, by rw [hd]⟩
        · refine Or.inr ⟨fun h => hc h.2, ?_⟩
          simp only [List.length_append]
          omega
    · simpa [ht] using ih

end Capability

section Received

open OpenMessage

theorem paramRound_lt {acc acc' : ℕ × List OptionalParam} {s t : Bytes}
    (hacc : ∀ p ∈ acc.2, p.value.length < 256) (h : (paramRound acc).run s = some (.ok acc', t)) :
    ∀ p ∈ acc'.2, p.value.length < 256 := by
  obtain ⟨paramType, s₁, -, h⟩ := run_bind_eq_ok.mp h
  obtain ⟨paramLen, s₂, -, h⟩ := run_bind_eq_ok.mp h
  obtain ⟨len, s₃, -, h⟩ := run_bind_eq_ok.mp h
  split_ifs at h
  · simp at h
  · obtain ⟨value, s₄, hv, hp⟩ := run_bind_eq_ok.mp h
    obtain ⟨rfl, -⟩ := run_pure_eq_ok.mp hp
    have hlen := (run_copyToBytes_eq_ok.mp hv).2
    rw [List.forall_mem_append, List.forall_mem_singleton]
    exact ⟨hacc, hlen ▸ paramLen.toNat_lt⟩

theorem params_lt {body : Bytes} {o : OpenMessage} (h : OpenMessage.parse.outcome body = some (.ok o)) :
    ∀ p ∈ o.optionalParams, p.value.length < 256 := by
  obtain ⟨t, h⟩ := outcome_eq_some.mp h
  obtain ⟨_, b₁, -, h⟩ := run_bind_eq_ok.mp h
  obtain ⟨version, b₂, -, h⟩ := run_bind_eq_ok.mp h
  obtain ⟨myAs, b₃, -, h⟩ := run_bind_eq_ok.mp h
  obtain ⟨holdTime, b₄, -, h⟩ := run_bind_eq_ok.mp h
  obtain ⟨id, b₅, -, h⟩ := run_bind_eq_ok.mp h
  obtain ⟨optParamLen, b₆, -, h⟩ := run_bind_eq_ok.mp h
  obtain ⟨_, b₇, -, h⟩ := run_bind_eq_ok.mp h
  obtain ⟨params, b₈, hparams, hp⟩ := run_bind_eq_ok.mp h
  obtain ⟨rfl, -⟩ := run_pure_eq_ok.mp hp
  have hinv := loop_invariant (I := fun (acc : ℕ × List OptionalParam) _ => ∀ p ∈ acc.2, p.value.length < 256)
    parseParams_decreases (fun _ _ _ _ hacc _ => paramRound_lt hacc) (by simp) hparams
  exact hinv.1

theorem parameters_independent_iff {body : Bytes} {o : OpenMessage}
    (h : OpenMessage.parse.outcome body = some (.ok o)) :
    Capability.parseFromOpenParams o.optionalParams =
        (o.optionalParams.mapM fun p => Capability.parseFromOpenParams [p]).map List.flatten ↔
      Capability.Contained o.optionalParams := by
  have hps := params_lt h
  rw [Capability.parseFromOpenParams_eq hps, mapM_eq_some_map fun p hp =>
    Capability.parseFromOpenParams_single (hps p hp), Option.map_some, Option.some.injEq, ← List.flatMap_def]
  rcases Capability.decoded_cases o.optionalParams with ⟨hc, hd⟩ | ⟨hc, hlt⟩
  · exact iff_of_true hd hc
  · refine iff_of_false ?_ hc
    intro hd
    rw [hd] at hlt
    exact lt_irrefl _ hlt

def openBody (params : Bytes) : Bytes := [4, 0xFD, 0xE9, 0, 90, 10, 0, 0, 1, UInt8.ofNat params.length] ++ params

theorem parameters_independent_two :
    OpenMessage.parse.outcome (openBody [2, 2, 2, 0, 2, 2, 2, 0]) =
        some (.ok ⟨4, 65001, 90, .new 10 0 0 1, [⟨2, [2, 0]⟩, ⟨2, [2, 0]⟩]⟩) ∧
      (Capability.parseFromOpenParams [⟨2, [2, 0]⟩, ⟨2, [2, 0]⟩] =
          (([⟨2, [2, 0]⟩, ⟨2, [2, 0]⟩] : List OptionalParam).mapM fun p => Capability.parseFromOpenParams [p]).map
            List.flatten ↔ Capability.Contained [⟨2, [2, 0]⟩, ⟨2, [2, 0]⟩]) := by
  have ho : OpenMessage.parse.outcome (openBody [2, 2, 2, 0, 2, 2, 2, 0]) =
      some (.ok ⟨4, 65001, 90, .new 10 0 0 1, [⟨2, [2, 0]⟩, ⟨2, [2, 0]⟩]⟩) := by decide
  exact ⟨ho, parameters_independent_iff ho⟩

theorem parameters_overrun :
    OpenMessage.parse.outcome (openBody [2, 2, 65, 4, 2, 2, 2, 0]) =
        some (.ok ⟨4, 65001, 90, .new 10 0 0 1, [⟨2, [65, 4]⟩, ⟨2, [2, 0]⟩]⟩) ∧
      Capability.parseFromOpenParams [⟨2, [65, 4]⟩, ⟨2, [2, 0]⟩] =
        some [.fourOctetAsn 0x02020200, .routeRefresh] ∧
      (([⟨2, [65, 4]⟩, ⟨2, [2, 0]⟩] : List OptionalParam).mapM fun p => Capability.parseFromOpenParams [p]).map
        List.flatten = some [.routeRefresh] := by
  decide

end Received

end PathForge.Peering
