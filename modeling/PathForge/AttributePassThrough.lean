import PathForge.AttributeRoundTrip

namespace PathForge.Wire

open Fallible ByteReader

def splitAttributes (b : Bytes) : List RawAttribute :=
  match (pushWhile 3 RawAttribute.parse []).outcome b with
  | some (.ok raws) => raws
  | _ => []

theorem splitAttributes_octets {raws : List RawAttribute} {rest : Bytes} (h : ∀ raw ∈ raws, raw.Fits)
    (hrest : rest.length < 3) : splitAttributes (raws.flatMap RawAttribute.octets ++ rest) = raws := by
  have hr : (pushWhile 3 RawAttribute.parse []).run (raws.flatMap RawAttribute.octets ++ rest) =
      some (.ok ([] ++ raws), rest) := by
    apply run_pushWhile RawAttribute.consumes_parse _ hrest
    intro raw hraw
    refine ⟨RawAttribute.reads_parse (h raw hraw), ?_⟩
    rw [RawAttribute.octets_length]
    split_ifs <;> omega
  rw [splitAttributes, outcome_eq_some.mpr ⟨rest, hr⟩]
  rfl

namespace PathAttributes

def bulk (a : PathAttributes) : ℕ :=
  (a.asPath.flatMap AsPathSegment.serialize).length + 4 * a.communities.length + 4 * a.clusterList.length

structure Grows (a : PathAttributes) (raw : RawAttribute) (a' : PathAttributes) : Prop where
  unknown : a'.unknown = a.unknown ++ if raw.isKnown then [] else [raw]
  segments : (∀ seg ∈ a.asPath, seg.asNumbers.length ≤ 255) → ∀ seg ∈ a'.asPath, seg.asNumbers.length ≤ 255
  bulk : a'.bulk ≤ a.bulk + raw.value.length

theorem Grows.scalar {a a' : PathAttributes} {raw : RawAttribute} (hk : raw.isKnown)
    (hu : a'.unknown = a.unknown) (hp : a'.asPath = a.asPath) (hc : a'.communities = a.communities)
    (hl : a'.clusterList = a.clusterList) : Grows a raw a' where
  unknown := by simp [hu, hk]
  segments := by rw [hp]; exact id
  bulk := by simp only [PathAttributes.bulk, hp, hc, hl]; omega

theorem pushWhile_words {α : Type} {f : UInt32 → α} {acc l : List α} {v t : Bytes} {s : Bytes}
    (g : α → UInt32) (hfg : ∀ n, g (f n) = n)
    (h : (within v (pushWhile 4 (getU32 >>= fun n => pure (f n)) acc) : Reader AttrError _).run s =
      some (.ok l, t)) : 4 * l.length ≤ 4 * acc.length + v.length := by
  obtain ⟨rfl, ho⟩ := run_within_eq_ok.mp h
  obtain ⟨u, hu⟩ := outcome_eq_some.mp ho
  have hitem (s : Bytes) (x : α) (t : Bytes) (hx : (getU32 >>= fun n => pure (f n)).run s = some (.ok x, t)) :
      s = putU32 (g x) ++ t ∧ True := ⟨run_wordItem_eq_ok hfg hx, trivial⟩
  obtain ⟨-, xs, rfl, rfl, -⟩ := pushWhile_sound consumes_wordItem hitem hu
  rw [List.length_append, List.length_append, flatMap_putU32_length]
  omega

theorem store_grows {a a' : PathAttributes} {raw : RawAttribute} {s t : Bytes}
    (h : (a.store raw).run s = some (.ok a', t)) : Grows a raw a' := by
  unfold store at h
  split at h <;> rename_i ht
  case h_1 =>
    have hk : raw.isKnown := ⟨by omega, by omega⟩
    split at h
    · simp at h
    · obtain ⟨o, u, -, hp⟩ := run_bind_eq_ok.mp h
      obtain ⟨rfl, -⟩ := run_pure_eq_ok.mp hp
      exact .scalar hk rfl rfl rfl rfl
  case h_2 =>
    have hk : raw.isKnown := ⟨by omega, by omega⟩
    obtain ⟨segs, u, hs, hp⟩ := run_bind_eq_ok.mp h
    obtain ⟨rfl, -⟩ := run_pure_eq_ok.mp hp
    obtain ⟨rfl, ho⟩ := run_within_eq_ok.mp hs
    obtain ⟨rest, hr⟩ := outcome_eq_some.mp ho
    obtain ⟨-, xs, rfl, hv, hx⟩ := pushWhile_sound AsPathSegment.consumes_parse
      (fun s x t hx => (AsPathSegment.run_parse_eq_ok.mp hx).symm) hr
    refine ⟨by simp [hk], ?_, ?_⟩
    · intro ha seg hseg
      rcases List.mem_append.mp hseg with hseg | hseg
      · exact ha seg hseg
      · have := hx seg hseg
        omega
    · have hl := congrArg List.length hv
      simp only [List.length_append] at hl
      simp only [PathAttributes.bulk, List.flatMap_append, List.length_append]
      omega
  case h_8 =>
    have hk : raw.isKnown := ⟨by omega, by omega⟩
    obtain ⟨cs, u, hs, hp⟩ := run_bind_eq_ok.mp h
    obtain ⟨rfl, -⟩ := run_pure_eq_ok.mp hp
    have hl := pushWhile_words Community.bits (fun _ => rfl) hs
    exact ⟨by simp [hk], id, by simp only [PathAttributes.bulk]; omega⟩
  case h_10 =>
    have hk : raw.isKnown := ⟨by omega, by omega⟩
    obtain ⟨ids, u, hs, hp⟩ := run_bind_eq_ok.mp h
    obtain ⟨rfl, -⟩ := run_pure_eq_ok.mp hp
    have hl := pushWhile_words Ipv4Addr.toU32 Ipv4Addr.toU32_ofU32 hs
    exact ⟨by simp [hk], id, by simp only [PathAttributes.bulk]; omega⟩
  case h_11 =>
    have hk : ¬ raw.isKnown := by unfold RawAttribute.isKnown; grind
    obtain ⟨rfl, -⟩ := run_pure_eq_ok.mp h
    exact ⟨by simp [hk], id, by simp only [PathAttributes.bulk]; omega⟩
  case h_6 =>
    obtain ⟨rfl, -⟩ := run_pure_eq_ok.mp h
    exact .scalar ⟨by omega, by omega⟩ rfl rfl rfl rfl
  all_goals
    obtain ⟨v, u, -, hp⟩ := run_bind_eq_ok.mp h
    obtain ⟨rfl, -⟩ := run_pure_eq_ok.mp hp
    exact .scalar ⟨by omega, by omega⟩ rfl rfl rfl rfl

structure Framed (a₀ : PathAttributes) (b : Bytes) (raws : List RawAttribute) (a : PathAttributes)
    (rest : Bytes) : Prop where
  split : b = raws.flatMap RawAttribute.octets ++ rest
  fits : ∀ raw ∈ raws, raw.Fits
  unknown : a.unknown = a₀.unknown ++ raws.filter fun raw => ¬ raw.isKnown
  segments : (∀ seg ∈ a₀.asPath, seg.asNumbers.length ≤ 255) → ∀ seg ∈ a.asPath, seg.asNumbers.length ≤ 255
  bulk : a.bulk + rest.length ≤ a₀.bulk + b.length

theorem Framed.round {a₀ a a' : PathAttributes} {raws : List RawAttribute} {b s t : Bytes}
    (hf : Framed a₀ b raws a s) (h : a.parseRound.run s = some (.ok a', t)) :
    ∃ raw, Framed a₀ b (raws ++ [raw]) a' t := by
  obtain ⟨raw, u, hr, hs⟩ := run_bind_eq_ok.mp h
  obtain ⟨hfit, rfl⟩ := RawAttribute.run_parse_eq_ok.mp hr
  obtain rfl := store_rest hs
  have hg := store_grows hs
  refine ⟨raw, by simp [hf.split], ?_, ?_, fun h => hg.segments (hf.segments h), ?_⟩
  · intro r hmem
    rcases List.mem_append.mp hmem with hmem | hmem
    · exact hf.fits r hmem
    · rw [List.mem_singleton.mp hmem]; exact hfit
  · rw [hg.unknown, hf.unknown]
    by_cases hk : raw.isKnown <;> simp [hk]
  · have hb := hf.bulk
    have hl := raw.octets_length
    have hgb := hg.bulk
    rw [List.length_append] at hb
    split_ifs at hl <;> omega

theorem parseFrom_sound {a₀ a : PathAttributes} {b rest : Bytes}
    (h : a₀.parseFrom.run b = some (.ok a, rest)) : rest.length < 3 ∧ ∃ raws, Framed a₀ b raws a rest := by
  have hinv : (∃ raws, Framed a₀ b raws a rest) ∧ decide (3 ≤ rest.length) = false := by
    apply loop_invariant (I := fun a t => ∃ raws, Framed a₀ b raws a t) parseFrom_decreases _ _ h
    · rintro a s a' t ⟨raws, hf⟩ _ hround
      obtain ⟨raw, hf'⟩ := hf.round hround
      exact ⟨_, hf'⟩
    · exact ⟨[], by simp, by simp, by simp, id, by simp⟩
  exact ⟨by simpa using hinv.2, hinv.1⟩

theorem parse_sound {a : PathAttributes} {b : Bytes} (h : parse.outcome b = some (.ok a)) :
    ∃ rest, Framed {} b (splitAttributes b) a rest := by
  obtain ⟨rest, hr⟩ := outcome_eq_some.mp h
  obtain ⟨hrest, raws, hf⟩ := parseFrom_sound hr
  have hs : splitAttributes b = raws := by
    rw [hf.split]
    exact splitAttributes_octets hf.fits hrest
  exact ⟨rest, hs ▸ hf⟩

theorem Framed.length_le {a₀ a : PathAttributes} {b rest : Bytes} {raws : List RawAttribute}
    (hf : Framed a₀ b raws a rest) {raw : RawAttribute} (h : raw ∈ raws) : raw.value.length ≤ b.length := by
  have hle : raw.octets.length ≤ (raws.flatMap RawAttribute.octets).length := by
    obtain ⟨before, after, rfl⟩ := List.append_of_mem h
    simp only [List.flatMap_append, List.flatMap_cons, List.length_append]
    omega
  have hl := raw.octets_length
  have hb := congrArg List.length hf.split
  rw [List.length_append] at hb
  split_ifs at hl <;> omega

theorem Framed.valuesFit {a : PathAttributes} {b rest : Bytes} {raws : List RawAttribute}
    (hf : Framed {} b raws a rest) (hb : b.length ≤ 4096) : a.ValuesFit := by
  have hbulk : a.bulk ≤ 4096 := by
    have := hf.bulk
    simp only [PathAttributes.bulk, List.flatMap_nil, List.length_nil] at this ⊢
    omega
  unfold PathAttributes.bulk at hbulk
  refine ⟨by omega, ?_, ?_, ?_⟩
  · rw [flatMap_putU32_length]; omega
  · rw [flatMap_putU32_length]; omega
  · intro raw hraw
    rw [hf.unknown, List.nil_append] at hraw
    have := hf.length_le (List.mem_of_mem_filter hraw)
    omega

theorem writeAttr_length_le {raw : RawAttribute} (hf : raw.Fits) :
    (writeAttr raw.flags raw.typeCode raw.value).length ≤ raw.octets.length ∧
      (¬ raw.Proper → (writeAttr raw.flags raw.typeCode raw.value).length < raw.octets.length) := by
  have hw : (writeAttr raw.flags raw.typeCode raw.value).length =
      (if 255 < raw.value.length then 4 else 3) + raw.value.length := by
    unfold writeAttr
    split_ifs <;> simp <;> omega
  rw [hw, raw.octets_length]
  unfold RawAttribute.Fits at hf
  unfold RawAttribute.Proper
  by_cases hx : raw.extended = true
  · by_cases hv : 255 < raw.value.length <;> simp [hx, hv]
  · simp only [hx, Bool.false_eq_true, ↓reduceIte] at hf
    have hv : ¬ 255 < raw.value.length := by omega
    simp [hx, hv]

theorem unknown_length_le {raws : List RawAttribute} (hf : ∀ raw ∈ raws, raw.Fits) :
    (raws.flatMap fun raw => writeAttr raw.flags raw.typeCode raw.value).length ≤
        (raws.flatMap RawAttribute.octets).length ∧
      ((∃ raw ∈ raws, ¬ raw.Proper) →
        (raws.flatMap fun raw => writeAttr raw.flags raw.typeCode raw.value).length <
          (raws.flatMap RawAttribute.octets).length) := by
  induction raws with
  | nil => simp
  | cons raw raws ih =>
    obtain ⟨hle, hlt⟩ := writeAttr_length_le (hf raw (by simp))
    obtain ⟨ihle, ihlt⟩ := ih fun r hr => hf r (List.mem_cons_of_mem _ hr)
    simp only [List.flatMap_cons, List.length_append, List.mem_cons, exists_eq_or_imp]
    refine ⟨by omega, ?_⟩
    rintro (hp | hp)
    · have := hlt hp
      omega
    · have := ihlt hp
      omega

theorem filter_octets_length_le (p : RawAttribute → Bool) (raws : List RawAttribute) :
    ((raws.filter p).flatMap RawAttribute.octets).length ≤ (raws.flatMap RawAttribute.octets).length := by
  induction raws with
  | nil => simp
  | cons raw raws ih =>
    rw [List.filter_cons]
    split_ifs
    · simp only [List.flatMap_cons, List.length_append]; omega
    · simp only [List.flatMap_cons, List.length_append]; omega

theorem reparse_iff (b : Bytes) (a : PathAttributes) (hb : b.length ≤ 4096)
    (h : parse.outcome b = some (.ok a)) :
    parse.outcome a.serialize = some (.ok a) ↔
      ∀ raw ∈ splitAttributes b, ¬ raw.isKnown → raw.extended = true → 255 < raw.value.length := by
  obtain ⟨rest, hf⟩ := parse_sound h
  have hv := hf.valuesFit hb
  have hseg := hf.segments (by simp)
  have hmem (raw : RawAttribute) : raw ∈ a.unknown ↔ raw ∈ splitAttributes b ∧ ¬ raw.isKnown := by
    rw [hf.unknown]
    simp
  have hfits (raw : RawAttribute) (hraw : raw ∈ a.unknown) : raw.Fits := hf.fits raw ((hmem raw).mp hraw).1
  constructor
  · intro hre raw hraw hk
    by_contra hp
    obtain ⟨t, ht⟩ := outcome_eq_some.mp hre
    rw [serialize_eq, parse, parseFrom_known _ hseg hv] at ht
    obtain ⟨-, raws, hf'⟩ := parseFrom_sound ht
    -- the loop has read the unknown attributes with the lengths their flags announce, which is more
    -- than was written
    have hlt := (unknown_length_le hfits).2 ⟨raw, (hmem raw).mpr ⟨hraw, hk⟩, hp⟩
    have hlen := congrArg List.length hf'.split
    have hfilter := filter_octets_length_le (fun raw => decide (¬ raw.isKnown)) raws
    have hunk := hf'.unknown
    simp only [List.nil_append] at hunk
    rw [← hunk] at hfilter
    rw [List.length_append] at hlen
    omega
  · intro hp
    refine outcome_eq_some.mpr ⟨[], run_parse_serialize (a := a) ⟨hseg, ?_⟩ hv⟩
    intro raw hraw
    obtain ⟨hs, hk⟩ := (hmem raw).mp hraw
    refine ⟨hk, hp raw hs hk, ?_⟩
    intro hl
    by_contra hx
    have := hfits raw hraw
    simp only [RawAttribute.Fits, hx, ↓reduceIte] at this
    omega

def extendedShort : Bytes := [0xD0, 99, 0, 1, 171]

theorem reparse_extendedShort :
    extendedShort.length ≤ 4096 ∧
      parse.outcome extendedShort = some (.ok { unknown := [⟨0xD0, 99, [171]⟩] }) ∧
      parse.outcome ({ unknown := [⟨0xD0, 99, [171]⟩] } : PathAttributes).serialize = some (.error .tooShort) := by
  decide

theorem reparse_iff_short :
    parse.outcome ([0xC0, 99, 1, 171] : Bytes) = some (.ok { unknown := [⟨0xC0, 99, [171]⟩] }) ∧
      (parse.outcome ({ unknown := [⟨0xC0, 99, [171]⟩] } : PathAttributes).serialize =
          some (.ok { unknown := [⟨0xC0, 99, [171]⟩] }) ↔
        ∀ raw ∈ splitAttributes [0xC0, 99, 1, 171], ¬ raw.isKnown → raw.extended = true →
          255 < raw.value.length) :=
  ⟨by decide, reparse_iff _ _ (by decide) (by decide)⟩

end PathAttributes

end PathForge.Wire
