import PathForge.AttributeValues
import Mathlib.Data.List.Basic

namespace PathForge.Wire

open Fallible ByteReader

theorem extended_or (flags : UInt8) : (flags ||| flagExtendedLen) &&& flagExtendedLen ≠ 0 := by
  have h : ∀ f : BitVec 8, (f ||| 0x10) &&& 0x10 ≠ 0 := by decide
  intro hf
  exact h flags.toBitVec (congrArg UInt8.toBitVec hf)

theorem or_extended {flags : UInt8} (hf : flags &&& flagExtendedLen ≠ 0) : flags ||| flagExtendedLen = flags := by
  have h : ∀ f : BitVec 8, f &&& 0x10 ≠ 0 → f ||| 0x10 = f := by decide
  exact UInt8.eq_of_toBitVec_eq (h flags.toBitVec fun he => hf (UInt8.eq_of_toBitVec_eq he))

namespace RawAttribute

def written (flags typeCode : UInt8) (value : Bytes) : RawAttribute :=
  ⟨if 255 < value.length then flags ||| flagExtendedLen else flags, typeCode, value⟩

def Proper (raw : RawAttribute) : Prop := raw.extended = true → 255 < raw.value.length

def isKnown (raw : RawAttribute) : Prop := 1 ≤ raw.typeCode.toNat ∧ raw.typeCode.toNat ≤ 10

instance (raw : RawAttribute) : Decidable raw.isKnown := inferInstanceAs (Decidable (_ ∧ _))

theorem written_extended {flags typeCode : UInt8} {value : Bytes}
    (h : flags &&& flagExtendedLen ≠ 0 → 255 < value.length) :
    (written flags typeCode value).extended = decide (255 < value.length) := by
  by_cases hl : 255 < value.length
  · simp [written, extended, hl, extended_or]
  · have hf : flags &&& flagExtendedLen = 0 := by
      by_contra hf
      exact hl (h hf)
    simp [written, extended, hl, hf]

theorem writeAttr_eq {flags typeCode : UInt8} {value : Bytes}
    (h : flags &&& flagExtendedLen ≠ 0 → 255 < value.length) :
    PathAttributes.writeAttr flags typeCode value = (written flags typeCode value).octets := by
  unfold PathAttributes.writeAttr octets
  rw [written_extended h]
  by_cases hl : 255 < value.length <;> simp [written, hl]

theorem written_fits {flags typeCode : UInt8} {value : Bytes}
    (h : flags &&& flagExtendedLen ≠ 0 → 255 < value.length) (hv : value.length < 65536) :
    (written flags typeCode value).Fits := by
  unfold Fits
  rw [written_extended h]
  by_cases hl : 255 < value.length
  · simpa [hl, written] using hv
  · simp only [hl, decide_false, Bool.false_eq_true, ↓reduceIte, written]
    omega

theorem written_self {raw : RawAttribute} (h : raw.extended = true ↔ 255 < raw.value.length) :
    written raw.flags raw.typeCode raw.value = raw := by
  by_cases hl : 255 < raw.value.length
  · have he : raw.flags &&& flagExtendedLen ≠ 0 := by simpa [extended] using h.mpr hl
    simp [written, hl, or_extended he]
  · simp [written, hl]

end RawAttribute

namespace PathAttributes

theorem store_rest {a a' : PathAttributes} {raw : RawAttribute} {s t : Bytes}
    (h : (a.store raw).run s = some (.ok a', t)) : s = t := by
  have word {α : Type} {x : Reader AttrError α} {f : α → PathAttributes} {v : Bytes}
      (h : (within v x >>= fun n => pure (f n)).run s = some (.ok a', t)) : s = t := by
    obtain ⟨n, u, hn, hp⟩ := run_bind_eq_ok.mp h
    obtain ⟨rfl, -⟩ := run_within_eq_ok.mp hn
    exact (run_pure_eq_ok.mp hp).2
  unfold store at h
  split at h
  · split at h
    · simp at h
    · obtain ⟨o, u, ho, hp⟩ := run_bind_eq_ok.mp h
      simp only [run_ofExcept, Option.some.injEq, Prod.mk.injEq] at ho
      exact ho.2.trans (run_pure_eq_ok.mp hp).2
  all_goals first
    | exact (run_pure_eq_ok.mp h).2
    | exact word h

theorem parseFrom_decreases :
    Decreases List.length (fun (_ : PathAttributes) b => decide (3 ≤ b.length)) parseRound := by
  intro a s a' t _ h
  obtain ⟨raw, u, hr, hs⟩ := run_bind_eq_ok.mp h
  obtain rfl := store_rest hs
  exact RawAttribute.consumes_parse s raw u hr

theorem parseFrom_octets {a a' : PathAttributes} {raw : RawAttribute} {rest : Bytes} (hf : raw.Fits)
    (hs : (a.store raw).run rest = some (.ok a', rest)) :
    (parseFrom a).run (raw.octets ++ rest) = (parseFrom a').run rest := by
  apply loop_step parseFrom_decreases
  · have hl := raw.octets_length
    rw [decide_eq_true_eq, List.length_append, hl]
    split_ifs <;> omega
  · rw [parseRound, run_bind_ok _ (RawAttribute.reads_parse hf rest)]
    exact hs

theorem parseFrom_nil (a : PathAttributes) : (parseFrom a).run [] = some (.ok a, []) :=
  loop_stop parseFrom_decreases (by simp)

theorem parseFrom_writeAttr {a a' : PathAttributes} {flags typeCode : UInt8} {value rest : Bytes}
    (hf : flags &&& flagExtendedLen = 0) (hv : value.length < 65536)
    (hs : ∀ f, (a.store ⟨f, typeCode, value⟩).run rest = some (.ok a', rest)) :
    (parseFrom a).run (writeAttr flags typeCode value ++ rest) = (parseFrom a').run rest := by
  have hproper : flags &&& flagExtendedLen ≠ 0 → 255 < value.length := fun h => absurd hf h
  rw [RawAttribute.writeAttr_eq hproper]
  exact parseFrom_octets (RawAttribute.written_fits hproper hv) (hs _)

theorem parseFrom_option {β : Type} {o : Option β} {piece : β → Bytes} {a : PathAttributes} {rest : Bytes}
    (a' : PathAttributes) (hnone : o = none → a = a')
    (hsome : ∀ v, o = some v → (parseFrom a).run (piece v ++ rest) = (parseFrom a').run rest) :
    (parseFrom a).run (o.elim [] piece ++ rest) = (parseFrom a').run rest := by
  cases o with
  | none => rw [hnone rfl]; rfl
  | some v => exact hsome v rfl

theorem parseFrom_list {β : Type} {l : List β} [Decidable (l = [])] {piece : Bytes} {a : PathAttributes}
    {rest : Bytes} (a' : PathAttributes) (hnil : l = [] → a = a')
    (hcons : (parseFrom a).run (piece ++ rest) = (parseFrom a').run rest) :
    (parseFrom a).run ((if l = [] then [] else piece) ++ rest) = (parseFrom a').run rest := by
  split_ifs with h
  · rw [hnil h]; rfl
  · exact hcons

theorem parseFrom_flag {c : Bool} {piece : Bytes} {a : PathAttributes} {rest : Bytes} (a' : PathAttributes)
    (hfalse : c = false → a = a')
    (htrue : c = true → (parseFrom a).run (piece ++ rest) = (parseFrom a').run rest) :
    (parseFrom a).run ((if c then piece else []) ++ rest) = (parseFrom a').run rest := by
  cases c with
  | false => rw [hfalse rfl]; rfl
  | true => exact htrue rfl

theorem parseFrom_unknown {a : PathAttributes} {raws : List RawAttribute} {rest : Bytes}
    (h : ∀ raw ∈ raws, ¬ raw.isKnown ∧ raw.Fits) :
    (parseFrom a).run (raws.flatMap RawAttribute.octets ++ rest) =
      (parseFrom { a with unknown := a.unknown ++ raws }).run rest := by
  induction raws generalizing a with
  | nil => simp
  | cons raw raws ih =>
    obtain ⟨hk, hf⟩ := h raw (by simp)
    have hs : (a.store raw).run (raws.flatMap RawAttribute.octets ++ rest) =
        some (.ok { a with unknown := a.unknown ++ [raw] }, raws.flatMap RawAttribute.octets ++ rest) := by
      unfold store
      split
      all_goals first
        | rfl
        | (rename_i ht; exact absurd ⟨by omega, by omega⟩ hk)
    rw [List.flatMap_cons, List.append_assoc, parseFrom_octets hf hs,
      ih fun raw hraw => h raw (List.mem_cons_of_mem _ hraw)]
    simp

structure Representable (a : PathAttributes) : Prop where
  segments : ∀ seg ∈ a.asPath, seg.asNumbers.length ≤ 255
  unknown : ∀ raw ∈ a.unknown, ¬ raw.isKnown ∧ (raw.extended = true ↔ 255 < raw.value.length)

structure ValuesFit (a : PathAttributes) : Prop where
  asPath : (a.asPath.flatMap AsPathSegment.serialize).length ≤ 65535
  communities : (a.communities.flatMap fun c => putU32 c.bits).length ≤ 65535
  clusterList : (a.clusterList.flatMap fun ip => putU32 ip.toU32).length ≤ 65535
  unknown : ∀ raw ∈ a.unknown, raw.value.length ≤ 65535

theorem store_asPath {a : PathAttributes} {f : UInt8} {segs : List AsPathSegment} (t : Bytes)
    (h : ∀ seg ∈ segs, seg.asNumbers.length ≤ 255) :
    (a.store ⟨f, 2, segs.flatMap AsPathSegment.serialize⟩).run t =
      some (.ok { a with asPath := a.asPath ++ segs }, t) := by
  refine run_bind_ok _ (run_pushWhile_within t (by omega) AsPathSegment.consumes_parse ?_)
  intro seg hseg
  have := h seg hseg
  exact ⟨fun rest => AsPathSegment.run_parse_eq_ok.mpr ⟨by omega, rfl⟩, by simp [AsPathSegment.serialize]⟩

theorem store_communities {a : PathAttributes} {f : UInt8} (cs : List Community) (t : Bytes) :
    (a.store ⟨f, 8, cs.flatMap fun c => putU32 c.bits⟩).run t =
      some (.ok { a with communities := a.communities ++ cs }, t) := by
  refine run_bind_ok _ (run_pushWhile_within t (by omega) consumes_wordItem ?_)
  intro c _
  exact ⟨(reads_getU32 c.bits).map, by simp⟩

theorem store_clusterList {a : PathAttributes} {f : UInt8} (ids : List Ipv4Addr) (t : Bytes) :
    (a.store ⟨f, 10, ids.flatMap fun ip => putU32 ip.toU32⟩).run t =
      some (.ok { a with clusterList := a.clusterList ++ ids }, t) := by
  refine run_bind_ok _ (run_pushWhile_within t (by omega) consumes_wordItem ?_)
  intro ip _
  have h := (reads_getU32 (ε := AttrError) ip.toU32).map (g := Ipv4Addr.ofU32)
  rw [Ipv4Addr.ofU32_toU32] at h
  exact ⟨h, by simp⟩

theorem run_u32Value_addr (ip : Ipv4Addr) (f : Ipv4Addr → PathAttributes) (t : Bytes) :
    (u32Value (putU32 ip.toU32) >>= fun n => pure (f (Ipv4Addr.ofU32 n))).run t = some (.ok (f ip), t) := by
  rw [run_bind_ok _ (run_u32Value ip.toU32 t), run_pure, Ipv4Addr.ofU32_toU32]

def serializeKnown (a : PathAttributes) : Bytes := { a with unknown := [] : PathAttributes }.serialize

theorem serialize_eq (a : PathAttributes) :
    a.serialize = a.serializeKnown ++ a.unknown.flatMap fun raw => writeAttr raw.flags raw.typeCode raw.value := by
  simp [serialize, serializeKnown]

theorem parseFrom_known {a : PathAttributes} (rest : Bytes) (hseg : ∀ seg ∈ a.asPath, seg.asNumbers.length ≤ 255)
    (hv : a.ValuesFit) :
    (parseFrom {}).run (a.serializeKnown ++ rest) = (parseFrom { a with unknown := [] }).run rest := by
  have h40 : flagTransitive &&& flagExtendedLen = 0 := by decide
  have h80 : flagOptional &&& flagExtendedLen = 0 := by decide
  have hC0 : (flagOptional ||| flagTransitive) &&& flagExtendedLen = 0 := by decide
  obtain ⟨hv₂, hv₈, hv₁₀, -⟩ := hv
  obtain ⟨origin, asPath, nextHop, med, localPref, atomic, aggregator, communities, originatorId, clusterList,
    unknown⟩ := a
  simp only [serializeKnown, serialize, List.append_assoc, List.flatMap_nil, List.nil_append]
  dsimp only at hseg hv₂ hv₈ hv₁₀
  let a₁ : PathAttributes := { origin := origin }
  let a₂ : PathAttributes := { a₁ with asPath := asPath }
  let a₃ : PathAttributes := { a₂ with nextHop := nextHop }
  let a₄ : PathAttributes := { a₃ with multiExitDisc := med }
  let a₅ : PathAttributes := { a₄ with localPref := localPref }
  let a₆ : PathAttributes := { a₅ with atomicAggregate := atomic }
  let a₇ : PathAttributes := { a₆ with aggregator := aggregator }
  let a₈ : PathAttributes := { a₇ with communities := communities }
  let a₉ : PathAttributes := { a₈ with originatorId := originatorId }
  -- one attribute after another, in the order in which `serialize` writes them
  refine (parseFrom_option a₁ (by rintro rfl; rfl) ?_).trans ?_
  · rintro o rfl
    apply parseFrom_writeAttr h40 (by simp)
    intro f
    cases o <;> rfl
  refine (parseFrom_list a₂ (by rintro rfl; rfl) ?_).trans ?_
  · exact parseFrom_writeAttr h40 (by omega) fun f => store_asPath _ hseg
  refine (parseFrom_option a₃ (by rintro rfl; rfl) ?_).trans ?_
  · rintro nh rfl
    exact parseFrom_writeAttr h40 (by simp) fun f =>
      run_u32Value_addr nh (fun ip => { a₂ with nextHop := some ip }) _
  refine (parseFrom_option a₄ (by rintro rfl; rfl) ?_).trans ?_
  · rintro n rfl
    exact parseFrom_writeAttr h80 (by simp) fun f => run_bind_ok _ (run_u32Value n _)
  refine (parseFrom_option a₅ (by rintro rfl; rfl) ?_).trans ?_
  · rintro n rfl
    exact parseFrom_writeAttr h40 (by simp) fun f => run_bind_ok _ (run_u32Value n _)
  refine (parseFrom_flag a₆ (by rintro rfl; rfl) ?_).trans ?_
  · rintro rfl
    exact parseFrom_writeAttr h40 (by simp) fun f => rfl
  refine (parseFrom_option a₇ (by rintro rfl; rfl) ?_).trans ?_
  · rintro ⟨asn, ip⟩ rfl
    exact parseFrom_writeAttr hC0 (by simp) fun f => run_bind_ok _ (run_aggregatorValue asn ip _)
  refine (parseFrom_list a₈ (by rintro rfl; rfl) ?_).trans ?_
  · exact parseFrom_writeAttr hC0 (by omega) fun f => store_communities communities _
  refine (parseFrom_option a₉ (by rintro rfl; rfl) ?_).trans ?_
  · rintro id rfl
    exact parseFrom_writeAttr h80 (by simp) fun f =>
      run_u32Value_addr id (fun ip => { a₈ with originatorId := some ip }) _
  refine parseFrom_list _ (by rintro rfl; rfl) ?_
  exact parseFrom_writeAttr h80 (by omega) fun f => store_clusterList clusterList _

theorem serialize_unknown {a : PathAttributes}
    (h : ∀ raw ∈ a.unknown, raw.extended = true ↔ 255 < raw.value.length) :
    (a.unknown.flatMap fun raw => writeAttr raw.flags raw.typeCode raw.value) =
      a.unknown.flatMap RawAttribute.octets := by
  apply List.flatMap_congr
  intro raw hraw
  have hp : raw.flags &&& flagExtendedLen ≠ 0 → 255 < raw.value.length := by
    simpa [RawAttribute.extended] using (h raw hraw).mp
  rw [RawAttribute.writeAttr_eq hp, RawAttribute.written_self (h raw hraw)]

theorem unknown_fits {a : PathAttributes} (hr : a.Representable) (hv : a.ValuesFit) {raw : RawAttribute}
    (h : raw ∈ a.unknown) : ¬ raw.isKnown ∧ raw.Fits := by
  obtain ⟨hk, he⟩ := hr.unknown raw h
  have hl := hv.unknown raw h
  refine ⟨hk, ?_⟩
  unfold RawAttribute.Fits
  split_ifs with hx
  · omega
  · have := mt he.mpr hx
    omega

theorem run_parse_serialize {a : PathAttributes} (hr : a.Representable) (hv : a.ValuesFit) :
    parse.run a.serialize = some (.ok a, []) := by
  have hu : (parseFrom { a with unknown := [] }).run (a.unknown.flatMap RawAttribute.octets ++ []) = _ :=
    parseFrom_unknown fun raw hraw => unknown_fits hr hv hraw
  rw [List.append_nil, parseFrom_nil] at hu
  rw [serialize_eq, serialize_unknown fun raw hraw => (hr.unknown raw hraw).2, parse,
    parseFrom_known _ hr.segments hv, hu]
  rfl

theorem parse_serialize (a : PathAttributes) (hr : a.Representable) (hv : a.ValuesFit) :
    parse.outcome a.serialize = some (.ok a) :=
  outcome_eq_some.mpr ⟨[], run_parse_serialize hr hv⟩

theorem parse_serialize_sample :
    let a : PathAttributes :=
      { origin := some .egp, asPath := [.asSequence [65000, 4200000000], .asSet [], .asSet [7]],
        nextHop := some (.new 10 0 0 1), atomicAggregate := true, communities := [⟨0xFFFFFF01⟩],
        unknown := [⟨0xC0, 99, [1, 2]⟩, ⟨0xD0, 0, List.replicate 256 7⟩] }
    parse.outcome a.serialize = some (.ok a) :=
  have hlen : (List.replicate 256 (7 : UInt8)).length = 256 := List.length_replicate
  parse_serialize _
    ⟨by decide, List.forall_mem_cons.mpr ⟨by decide, List.forall_mem_singleton.mpr
      ⟨by decide, iff_of_true (by decide) (by rw [hlen]; decide)⟩⟩⟩
    ⟨by decide, by decide, by decide, List.forall_mem_cons.mpr ⟨by decide,
      List.forall_mem_singleton.mpr (by rw [hlen]; decide)⟩⟩

end PathAttributes

end PathForge.Wire
