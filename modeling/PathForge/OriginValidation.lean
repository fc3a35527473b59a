import PathForge.OriginVerdicts
import PathForge.PrefixContainment

namespace PathForge.Routing

open Wire Fallible

namespace RpkiValidator

variable {v : RpkiValidator} {p : Prefix} {asn : UInt32} {rov rov' : RovState}

def Contains (roa : Roa) (p : Prefix) : Prop := network p.address p.prefixLen ⊆ network roa.net roa.prefixLen

/-- The verdicts of RFC 6811. -/
def Verdict (v : RpkiValidator) (p : Prefix) (asn : UInt32) : RovState → Prop
  | .valid => ∃ roa ∈ v.roas, Contains roa p ∧ p.prefixLen ≤ roa.maxLength ∧ roa.originAs = asn
  | .notFound => ∀ roa ∈ v.roas, ¬ Contains roa p
  | .invalid => (∃ roa ∈ v.roas, Contains roa p) ∧
      ∀ roa ∈ v.roas, Contains roa p → p.prefixLen ≤ roa.maxLength → roa.originAs ≠ asn

theorem exists_verdict (v : RpkiValidator) (p : Prefix) (asn : UInt32) : ∃ rov, v.Verdict p asn rov := by
  by_cases hvalid : v.Verdict p asn .valid
  · exact ⟨.valid, hvalid⟩
  · by_cases hnone : v.Verdict p asn .notFound
    · exact ⟨.notFound, hnone⟩
    · refine ⟨.invalid, ?_, ?_⟩
      · simpa [Verdict] using hnone
      · intro roa hroa hc hl ha
        exact hvalid ⟨roa, hroa, hc, hl, ha⟩

theorem Verdict.unique (h : v.Verdict p asn rov) (h' : v.Verdict p asn rov') : rov = rov' := by
  have hne {x : RovState} (hn : v.Verdict p asn .notFound) (hx : v.Verdict p asn x) : x = .notFound := by
    cases x with
    | notFound => rfl
    | valid =>
      obtain ⟨roa, hroa, hc, -⟩ := hx
      exact absurd hc (hn roa hroa)
    | invalid =>
      obtain ⟨⟨roa, hroa, hc⟩, -⟩ := hx
      exact absurd hc (hn roa hroa)
  have hvi (hv : v.Verdict p asn .valid) (hi : v.Verdict p asn .invalid) : False := by
    obtain ⟨roa, hroa, hc, hl, ha⟩ := hv
    exact hi.2 roa hroa hc hl ha
  cases rov with
  | notFound => exact (hne h h').symm
  | valid =>
    cases rov' with
    | notFound => exact hne h' h
    | valid => rfl
    | invalid => exact (hvi h h').elim
  | invalid =>
    cases rov' with
    | notFound => exact hne h' h
    | valid => exact (hvi h' h).elim
    | invalid => rfl

section Table

variable (hv : ∀ roa ∈ v.roas, roa.prefixLen ≤ roa.maxLength ∧ roa.maxLength ≤ 32)

include hv

theorem covers_eq_some_true_iff {roa : Roa} (hroa : roa ∈ v.roas) :
    roa.covers p.address p.prefixLen = some true ↔
      Contains roa p ∧ p.prefixLen ≤ roa.maxLength ∧ roa.prefixLen ≠ 0 := by
  have h32 : roa.prefixLen ≤ 32 := UInt8.le_trans (hv roa hroa).1 (hv roa hroa).2
  rw [Contains, network_subset_iff h32, Roa.covers_eq h32, ← UInt8.not_lt (a := p.prefixLen),
    ← UInt8.not_lt (a := roa.maxLength)]
  split_ifs with hl h0
  · simp only [Option.some.injEq, Bool.false_eq_true, false_iff]
    tauto
  · simp [h0]
  · simp only [Option.some.injEq, decide_eq_true_eq]
    tauto

theorem covers_eq_none_iff {roa : Roa} (hroa : roa ∈ v.roas) :
    roa.covers p.address p.prefixLen = none ↔ roa.prefixLen = 0 ∧ p.prefixLen ≤ roa.maxLength := by
  have h32 : roa.prefixLen ≤ 32 := UInt8.le_trans (hv roa hroa).1 (hv roa hroa).2
  rw [Roa.covers_eq h32]
  split_ifs with hl h0
  · simp only [false_iff, not_and, UInt8.not_le]
    intro h0
    rw [h0] at hl
    exact hl.resolve_left UInt8.not_lt_zero
  · simp only [h0, true_and, true_iff]
    exact UInt8.not_lt.mp (not_or.mp hl).2
  · simp [h0]

theorem exists_validate_iff (hm : v.mode ≠ .disabled) (asn : UInt32) :
    (∃ rov, v.validate p.address p.prefixLen asn = some rov) ↔
      ∀ roa ∈ v.roas, roa.prefixLen = 0 → roa.maxLength < p.prefixLen := by
  have hfilter : (∃ rov, v.validate p.address p.prefixLen asn = some rov) ↔
      ∃ covering, v.roas.filterM (fun r => r.covers p.address p.prefixLen) = some covering := by
    rw [validate, if_neg hm]
    constructor
    · rintro ⟨rov, h⟩
      obtain ⟨covering, hc, -⟩ := Option.bind_eq_some_iff.mp h
      exact ⟨covering, hc⟩
    · rintro ⟨covering, hc⟩
      rw [hc]
      simp only [Option.bind_eq_bind, Option.bind_some]
      split_ifs <;> exact ⟨_, rfl⟩
  rw [hfilter, exists_filterM_iff]
  apply forall₂_congr
  intro roa hroa
  rw [ne_eq, covers_eq_none_iff hv hroa, not_and, UInt8.not_le]

theorem validate_verdict_iff (hm : v.mode ≠ .disabled) (asn : UInt32) :
    (∀ rov, v.validate p.address p.prefixLen asn = some rov ↔ v.Verdict p asn rov) ↔
      (∀ roa ∈ v.roas, roa.prefixLen = 0 → roa.maxLength < p.prefixLen) ∧
        ((∃ roa ∈ v.roas, Contains roa p) → ∃ roa ∈ v.roas, Contains roa p ∧ p.prefixLen ≤ roa.maxLength) := by
  rw [← exists_validate_iff hv hm asn]
  constructor
  · intro hcorrect
    obtain ⟨rov, hrov⟩ := exists_verdict v p asn
    have hval := (hcorrect rov).mpr hrov
    refine ⟨⟨rov, hval⟩, ?_⟩
    intro hcont
    have hne : rov ≠ .notFound := by
      rintro rfl
      obtain ⟨roa, hroa, hc⟩ := hcont
      exact hrov roa hroa hc
    have hcov : v.Covered p := not_not.mp fun h => hne ((validate_spec hm hval).1.mpr h)
    obtain ⟨roa, hroa, hc⟩ := hcov
    have hc := (covers_eq_some_true_iff hv hroa).mp hc
    exact ⟨roa, hroa, hc.1, hc.2.1⟩
  · rintro ⟨⟨rov, hval⟩, hlong⟩
    have h0 := (exists_validate_iff hv hm asn).mp ⟨rov, hval⟩
    have hcovers {roa : Roa} (hroa : roa ∈ v.roas) :
        roa.covers p.address p.prefixLen = some true ↔ Contains roa p ∧ p.prefixLen ≤ roa.maxLength := by
      rw [covers_eq_some_true_iff hv hroa, ← and_assoc, and_iff_left_of_imp]
      rintro ⟨-, hl⟩ hz
      exact absurd (h0 roa hroa hz) (UInt8.not_lt.mpr hl)
    obtain ⟨hnf, hauth⟩ := validate_spec hm hval
    have hverdict : v.Verdict p asn rov := by
      cases rov with
      | valid =>
        obtain ⟨roa, hroa, hc, ha⟩ := hauth.mp rfl
        obtain ⟨hc, hl⟩ := (hcovers hroa).mp hc
        exact ⟨roa, hroa, hc, hl, ha⟩
      | notFound =>
        intro roa hroa hc
        obtain ⟨roa', hroa', hc'⟩ := hlong ⟨roa, hroa, hc⟩
        exact hnf.mp rfl ⟨roa', hroa', (hcovers hroa').mpr hc'⟩
      | invalid =>
        have hcov : v.Covered p := not_not.mp fun h => by simpa using hnf.mpr h
        obtain ⟨roa, hroa, hc⟩ := hcov
        refine ⟨⟨roa, hroa, ((hcovers hroa).mp hc).1⟩, ?_⟩
        intro roa' hroa' hc' hl' ha'
        simpa using hauth.mpr ⟨roa', hroa', (hcovers hroa').mpr ⟨hc', hl'⟩, ha'⟩
    intro rov'
    rw [hval, Option.some.injEq]
    exact ⟨fun h => h ▸ hverdict, fun h => hverdict.unique h⟩

end Table

def sampleValidator : RpkiValidator := ⟨.strict, [⟨.new 10 0 0 0, 8, 24, 65001⟩]⟩

theorem contains_sample_iff {roa : Roa} (hroa : roa ∈ sampleValidator.roas) :
    Contains roa p ↔ 8 ≤ p.prefixLen ∧ SameNet 8 p.address (.new 10 0 0 0) := by
  obtain rfl := List.mem_singleton.mp hroa
  exact network_subset_iff (by decide)

theorem validate_verdict_sample :
    (∀ roa ∈ sampleValidator.roas, roa.prefixLen ≤ roa.maxLength ∧ roa.maxLength ≤ 32) ∧
      sampleValidator.mode ≠ .disabled ∧
      ∀ rov, sampleValidator.validate (.new 10 1 0 0) 24 65001 = some rov ↔
        sampleValidator.Verdict ⟨24, .new 10 1 0 0⟩ 65001 rov := by
  have hv : ∀ roa ∈ sampleValidator.roas, roa.prefixLen ≤ roa.maxLength ∧ roa.maxLength ≤ 32 := by decide
  have hm : sampleValidator.mode ≠ .disabled := by decide
  refine ⟨hv, hm, (validate_verdict_iff (p := ⟨24, .new 10 1 0 0⟩) hv hm 65001).mpr ⟨by decide, ?_⟩⟩
  rintro ⟨roa, hroa, hc⟩
  obtain rfl := List.mem_singleton.mp hroa
  exact ⟨_, hroa, hc, by decide⟩

theorem too_specific_not_found :
    sampleValidator.validate (.new 10 1 2 0) 25 65001 = some .notFound ∧
      sampleValidator.Verdict ⟨25, .new 10 1 2 0⟩ 65001 .invalid ∧
      ¬ ∀ rov, sampleValidator.validate (.new 10 1 2 0) 25 65001 = some rov ↔
        sampleValidator.Verdict ⟨25, .new 10 1 2 0⟩ 65001 rov := by
  have hval : sampleValidator.validate (.new 10 1 2 0) 25 65001 = some .notFound := by decide
  have hinv : sampleValidator.Verdict ⟨25, .new 10 1 2 0⟩ 65001 .invalid := by
    refine ⟨⟨_, List.mem_singleton_self _, (contains_sample_iff (List.mem_singleton_self _)).mpr (by decide)⟩, ?_⟩
    intro roa hroa _
    obtain rfl := List.mem_singleton.mp hroa
    decide
  refine ⟨hval, hinv, ?_⟩
  intro h
  have hval' := (h .invalid).mpr hinv
  rw [hval] at hval'
  cases hval'

end RpkiValidator

end PathForge.Routing
