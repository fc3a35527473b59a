import PathForge.AttributeAcceptance
import PathForge.PeerSession

namespace PathForge.Wire

open Fallible ByteReader

theorem RawAttribute.Void.accepted {raw : RawAttribute} (h : raw.Void) : raw.Accepted := by
  unfold Accepted
  rcases h with ⟨ht, hl⟩ | ⟨ht | ht, -⟩
  · simp only [ht]
    exact ⟨[], raw.value, rfl, hl, by simp⟩
  · simp only [ht]
  · simp only [ht]

namespace UpdateMessage

structure Sections (b : Bytes) (u : UpdateMessage) (withdrawn attrs nlri : Bytes) : Prop where
  split : b = putU16 (UInt16.ofNat withdrawn.length) ++ (withdrawn ++ (putU16 (UInt16.ofNat attrs.length) ++
    (attrs ++ nlri)))
  withdrawn_lt : withdrawn.length < 65536
  attrs_lt : attrs.length < 65536
  withdrawnRoutes : (pushWhile 1 Prefix.parse []).outcome withdrawn = some (.ok u.withdrawnRoutes)
  pathAttributes : PathAttributes.parse.outcome attrs = some (.ok u.pathAttributes)
  nlri : (pushWhile 1 Prefix.parse []).outcome nlri = some (.ok u.nlri)

theorem sections_of_parse {b : Bytes} {u : UpdateMessage} (h : parse.outcome b = some (.ok u)) :
    ∃ withdrawn attrs nlri, Sections b u withdrawn attrs nlri := by
  obtain ⟨t, h⟩ := outcome_eq_some.mp h
  obtain ⟨_, b₁, h₁, h⟩ := run_bind_eq_ok.mp h
  obtain ⟨n, b₂, h₂, h⟩ := run_bind_eq_ok.mp h
  obtain ⟨_, b₃, h₃, h⟩ := run_bind_eq_ok.mp h
  obtain ⟨withdrawn, b₄, h₄, h⟩ := run_bind_eq_ok.mp h
  obtain ⟨routes, b₅, h₅, h⟩ := run_bind_eq_ok.mp h
  obtain ⟨k, b₆, h₆, h⟩ := run_bind_eq_ok.mp h
  obtain ⟨_, b₇, h₇, h⟩ := run_bind_eq_ok.mp h
  obtain ⟨attrs, b₈, h₈, h⟩ := run_bind_eq_ok.mp h
  obtain ⟨pathAttributes, b₉, h₉, h⟩ := run_bind_eq_ok.mp h
  obtain ⟨nlri, b₁₀, h₁₀, hp⟩ := run_bind_eq_ok.mp h
  obtain ⟨-, rfl⟩ := run_ensure_eq_ok.mp h₁
  obtain rfl := run_getU16_eq_ok.mp h₂
  obtain ⟨-, rfl⟩ := run_ensure_eq_ok.mp h₃
  obtain ⟨rfl, hn⟩ := run_copyToBytes_eq_ok.mp h₄
  obtain ⟨rfl, hroutes⟩ := run_within_eq_ok.mp h₅
  obtain rfl := run_getU16_eq_ok.mp h₆
  obtain ⟨-, rfl⟩ := run_ensure_eq_ok.mp h₇
  obtain ⟨rfl, hk⟩ := run_copyToBytes_eq_ok.mp h₈
  obtain ⟨rfl, hattrs⟩ := run_within_eq_ok.mp h₉
  obtain ⟨rfl, rfl⟩ := run_pure_eq_ok.mp hp
  refine ⟨withdrawn, attrs, b₈, ?_, hn ▸ n.toNat_lt, hk ▸ k.toNat_lt, hroutes,
    outcome_mapError_eq_ok.mp hattrs, outcome_eq_some.mpr ⟨_, h₁₀⟩⟩
  rw [hn, hk, UInt16.ofNat_toNat, UInt16.ofNat_toNat]

theorem pushPrefixes_eq_nil_iff {w : Bytes} {l : List Prefix}
    (h : (pushWhile 1 Prefix.parse []).outcome w = some (.ok l)) : l = [] ↔ w = [] := by
  obtain ⟨t, ht⟩ := outcome_eq_some.mp h
  constructor
  · rintro rfl
    have hw := length_lt_of_pushWhile_nil Prefix.consumes_parse ht
    exact List.length_eq_zero_iff.mp (Nat.lt_one_iff.mp hw)
  · rintro rfl
    have hstop : (pushWhile 1 Prefix.parse []).run [] = some (.ok [], []) :=
      loop_stop (pushWhile_decreases Prefix.consumes_parse) rfl
    rw [hstop] at ht
    simp only [Option.some.injEq, Prod.mk.injEq, Except.ok.injEq] at ht
    exact ht.1.symm

/-- A section of attributes that says nothing although it is not empty: attributes that are void, and one or
two octets behind them. -/
def Phantom (attrs : Bytes) : Prop :=
  attrs ≠ [] ∧ ∃ (raws : List RawAttribute) (rest : Bytes), attrs = raws.flatMap RawAttribute.octets ++ rest ∧
    rest.length < 3 ∧ ∀ raw ∈ raws, raw.Fits ∧ raw.Void

theorem phantom_iff {attrs : Bytes} {a : PathAttributes} (h : PathAttributes.parse.outcome attrs = some (.ok a)) :
    Phantom attrs ↔ attrs ≠ [] ∧ a = {} := by
  obtain ⟨raws, rest, hloose, hempty⟩ := PathAttributes.loose_of_parse h
  rw [hempty]
  apply and_congr_right
  intro _
  constructor
  · rintro ⟨raws', rest', hsplit, hrest, hvoid⟩
    have hloose' : PathAttributes.Loose attrs raws' rest' :=
      ⟨hsplit, hrest, fun raw hraw => ⟨(hvoid raw hraw).1, (hvoid raw hraw).2.accepted⟩⟩
    rw [← hloose.splitAttributes_eq, hloose'.splitAttributes_eq]
    exact fun raw hraw => (hvoid raw hraw).2
  · intro hvoid
    exact ⟨raws, rest, hloose.split, hloose.rest_lt, fun raw hraw =>
      ⟨(hloose.accepted raw hraw).1, hvoid raw hraw⟩⟩

theorem putU16_length_inj {v w : Bytes} (hv : v.length < 65536) (hw : w.length < 65536)
    (h : putU16 (UInt16.ofNat v.length) = putU16 (UInt16.ofNat w.length)) : v.length = w.length := by
  have hn := congrArg (fun b => (UInt16.ofNat (beNat b)).toNat) h
  simp only [ofNat_beNat_putU16, UInt16.toNat_ofNat'] at hn
  rwa [Nat.mod_eq_of_lt hv, Nat.mod_eq_of_lt hw] at hn

def attributesOnly (attrs : Bytes) : Bytes := [0, 0] ++ (putU16 (UInt16.ofNat attrs.length) ++ attrs)

theorem Sections.eq_attributesOnly_iff {b withdrawn attrs nlri attrs' : Bytes} {u : UpdateMessage}
    (h : Sections b u withdrawn attrs nlri) (hl : attrs'.length < 65536) :
    b = attributesOnly attrs' ↔ withdrawn = [] ∧ nlri = [] ∧ attrs = attrs' := by
  constructor
  · intro hb
    rw [h.split, attributesOnly] at hb
    obtain ⟨hw, hb⟩ := List.append_inj hb (by simp)
    obtain rfl : withdrawn = [] :=
      List.length_eq_zero_iff.mp (putU16_length_inj (w := []) h.withdrawn_lt (by decide) hw)
    rw [List.nil_append] at hb
    obtain ⟨ha, hb⟩ := List.append_inj hb (by simp)
    have hlen := putU16_length_inj h.attrs_lt hl ha
    obtain ⟨rfl, rfl⟩ := List.append_inj (hb.trans (List.append_nil attrs').symm) hlen
    exact ⟨rfl, rfl, rfl⟩
  · rintro ⟨rfl, rfl, rfl⟩
    rw [h.split, List.append_nil]
    rfl

end UpdateMessage

end PathForge.Wire

namespace PathForge.Peering.Session

open Fallible ByteReader Wire UpdateMessage

theorem isEndOfRib_eq_true_iff {b withdrawn attrs nlri : Bytes} {u : UpdateMessage}
    (h : Sections b u withdrawn attrs nlri) :
    isEndOfRib u = true ↔ withdrawn = [] ∧ nlri = [] ∧ u.pathAttributes = {} := by
  rw [isEndOfRib, Bool.and_eq_true, Bool.and_eq_true, List.isEmpty_iff, List.isEmpty_iff,
    PathAttributes.isEmpty_iff, pushPrefixes_eq_nil_iff h.withdrawnRoutes, pushPrefixes_eq_nil_iff h.nlri]
  tauto

theorem endOfRib_exact_iff {body : Bytes} {u : UpdateMessage} (h : parse.outcome body = some (.ok u)) :
    (isEndOfRib u = true ↔ body = [0, 0, 0, 0]) ↔
      ¬ ∃ attrs, attrs.length < 65536 ∧ Phantom attrs ∧ body = attributesOnly attrs := by
  obtain ⟨withdrawn, attrs, nlri, hs⟩ := sections_of_parse h
  have hphantom := phantom_iff hs.pathAttributes
  have hmarker : body = [0, 0, 0, 0] ↔ withdrawn = [] ∧ nlri = [] ∧ attrs = [] :=
    hs.eq_attributesOnly_iff (show ([] : Bytes).length < 65536 by decide)
  have hempty : attrs = [] → u.pathAttributes = {} := by
    rintro rfl
    have hnil : PathAttributes.parse.outcome [] = some (.ok {}) :=
      outcome_eq_some.mpr ⟨[], PathAttributes.parseFrom_nil {}⟩
    exact (Except.ok.inj (Option.some.inj (hnil.symm.trans hs.pathAttributes))).symm
  rw [isEndOfRib_eq_true_iff hs, hmarker]
  constructor
  · rintro hiff ⟨attrs', hl, hp, hb⟩
    obtain ⟨rfl, rfl, rfl⟩ := (hs.eq_attributesOnly_iff hl).mp hb
    obtain ⟨hne, ha⟩ := hphantom.mp hp
    exact hne (hiff.mp ⟨rfl, rfl, ha⟩).2.2
  · intro hno
    constructor
    · rintro ⟨hw, hn, ha⟩
      refine ⟨hw, hn, ?_⟩
      by_contra hne
      exact hno ⟨attrs, hs.attrs_lt, hphantom.mpr ⟨hne, ha⟩,
        (hs.eq_attributesOnly_iff hs.attrs_lt).mpr ⟨hw, hn, rfl⟩⟩
    · rintro ⟨hw, hn, ha⟩
      exact ⟨hw, hn, hempty ha⟩

theorem endOfRib_exact_announcement :
    parse.outcome [0, 0, 0, 4, 0x40, 1, 1, 0] = some (.ok ⟨[], { origin := some .igp }, []⟩) ∧
      ((isEndOfRib ⟨[], { origin := some .igp }, []⟩ = true ↔
        ([0, 0, 0, 4, 0x40, 1, 1, 0] : Bytes) = [0, 0, 0, 0]) ↔
        ¬ ∃ attrs, attrs.length < 65536 ∧ Phantom attrs ∧ [0, 0, 0, 4, 0x40, 1, 1, 0] = attributesOnly attrs) := by
  have hu : parse.outcome [0, 0, 0, 4, 0x40, 1, 1, 0] = some (.ok ⟨[], { origin := some .igp }, []⟩) := by decide
  exact ⟨hu, endOfRib_exact_iff hu⟩

theorem endOfRib_empty_asPath :
    parse.outcome [0, 0, 0, 3, 0x40, 2, 0] = some (.ok {}) ∧ isEndOfRib {} = true ∧
      ([0, 0, 0, 3, 0x40, 2, 0] : Bytes) ≠ [0, 0, 0, 0] := by
  decide

end PathForge.Peering.Session
