import PathForge.AttributeFraming

namespace PathForge.Wire

open Fallible ByteReader

theorem ends_getU32_width {s : Bytes} (h : 4 ≤ s.length) :
    Ends (getU32 : Reader AttrError UInt32) (onOk fun _ t => s.length = 4 + t.length) s :=
  (ends_getU32 h).mono fun n t ht => by rw [ht]; simp

namespace AsPathSegment

theorem run_parse_eq_ok {s t : Bytes} {seg : AsPathSegment} :
    AsPathSegment.parse.run s = some (.ok seg, t) ↔ seg.asNumbers.length < 256 ∧ s = seg.serialize ++ t := by
  have hasns (n : ℕ) (s t : Bytes) (xs : List UInt32) :
      (repeatRead n getU32 : Reader AttrError _).run s = some (.ok xs, t) ↔
        xs.length = n ∧ s = xs.flatMap putU32 ++ t :=
    run_repeatRead_eq_ok fun _ _ _ => run_getU32_eq_ok
  constructor
  · intro h
    obtain ⟨segType, s₁, h₁, h⟩ := run_bind_eq_ok.mp h
    obtain ⟨segLen, s₂, h₂, h⟩ := run_bind_eq_ok.mp h
    obtain ⟨_, s₃, h₃, h⟩ := run_bind_eq_ok.mp h
    obtain ⟨asns, s₄, h₄, hm⟩ := run_bind_eq_ok.mp h
    obtain rfl := run_getU8_eq_ok.mp h₁
    obtain rfl := run_getU8_eq_ok.mp h₂
    obtain ⟨_, rfl⟩ := run_ensure_eq_ok.mp h₃
    obtain ⟨hl, rfl⟩ := (hasns _ _ _ _).mp h₄
    have hlen : UInt8.ofNat asns.length = segLen := by rw [hl, UInt8.ofNat_toNat]
    have hlt := segLen.toNat_lt
    split at hm
    · rename_i ht
      obtain ⟨rfl, rfl⟩ := run_pure_eq_ok.mp hm
      have : segType = 1 := UInt8.toNat_inj.mp ht
      simp [serialize, asNumbers, AsPathSegment.segType, hlen, this]
      omega
    · rename_i ht
      obtain ⟨rfl, rfl⟩ := run_pure_eq_ok.mp hm
      have : segType = 2 := UInt8.toNat_inj.mp ht
      simp [serialize, asNumbers, AsPathSegment.segType, hlen, this]
      omega
    · simp at hm
  · rintro ⟨hl, rfl⟩
    have hn : (UInt8.ofNat seg.asNumbers.length).toNat = seg.asNumbers.length :=
      UInt8.toNat_ofNat_of_lt hl
    have hr := (hasns _ _ t seg.asNumbers).mpr ⟨rfl, rfl⟩
    have hbytes : seg.asNumbers.length * 4 ≤ (seg.asNumbers.flatMap putU32 ++ t).length := by
      have h4 : (seg.asNumbers.flatMap putU32).length = 4 * seg.asNumbers.length :=
        flatMap_putU32_length (fun n => n) seg.asNumbers
      rw [List.length_append, h4]
      omega
    simp only [serialize, List.cons_append, List.nil_append]
    rw [parse, run_bind_ok _ (run_getU8_cons _ _), run_bind_ok _ (run_getU8_cons _ _), hn,
      run_bind_ok _ (run_check hbytes), run_bind_ok _ hr]
    cases seg <;> rfl

theorem consumes_parse : Consumes AsPathSegment.parse := by
  intro s seg t h
  obtain ⟨_, rfl⟩ := run_parse_eq_ok.mp h
  simp only [serialize, List.cons_append, List.nil_append, List.length_cons, List.length_append]
  omega

theorem ends_parse {s : Bytes} (hs : 2 ≤ s.length) :
    Ends AsPathSegment.parse (onOk fun _ t => t.length < s.length) s := by
  apply ends_bind (ends_getU8 (by omega))
  rintro segType s₁ rfl
  apply ends_bind (ends_getU8 (by simpa using hs))
  rintro segLen s₂ rfl
  apply ends_bind ends_check
  rintro _ s₃ ⟨hn, rfl⟩
  apply ends_bind (ends_repeatRead hn fun s hs => ends_getU32_width hs)
  intro asns s₄ hl
  have hlt : s₄.length < (segType :: segLen :: s₃).length := by simp only [List.length_cons]; omega
  split
  · exact ends_pure hlt
  · exact ends_pure hlt
  · exact ends_fail

end AsPathSegment

theorem run_u32Value (n : UInt32) (t : Bytes) : (u32Value (putU32 n)).run t = some (.ok n, t) := by
  have hr : Reads (checkRemaining 4 (fun _ => AttrError.tooShort) >>= fun _ => getU32) (putU32 n) n :=
    (reads_getU32 n).check (by simp)
  exact run_within_ok t (outcome_eq_some.mpr ⟨[], by simpa using hr []⟩)

theorem run_aggregatorValue (asn : UInt16) (ip : Ipv4Addr) (t : Bytes) :
    (aggregatorValue (putU16 asn ++ putU32 ip.toU32)).run t = some (.ok (asn, ip), t) := by
  have hr : Reads (checkRemaining 6 (fun _ => AttrError.tooShort) >>= fun _ =>
      (do let asn ← getU16; let ip ← getU32; return (asn, Ipv4Addr.ofU32 ip)))
      (putU16 asn ++ putU32 ip.toU32) (asn, ip) := by
    apply Reads.check (by simp)
    apply (reads_getU16 asn).bind
    have h := (reads_getU32 (ε := AttrError) ip.toU32).map (g := fun n => (asn, Ipv4Addr.ofU32 n))
    rwa [Ipv4Addr.ofU32_toU32] at h
  exact run_within_ok t (outcome_eq_some.mpr ⟨[], by simpa using hr []⟩)

theorem run_wordItem_eq_ok {α : Type} {f : UInt32 → α} {g : α → UInt32} (hfg : ∀ n, g (f n) = n)
    {s t : Bytes} {x : α} :
    (getU32 >>= fun n => pure (f n) : Reader AttrError α).run s = some (.ok x, t) →
      s = putU32 (g x) ++ t := by
  intro h
  obtain ⟨n, u, hn, hp⟩ := run_bind_eq_ok.mp h
  obtain ⟨rfl, rfl⟩ := run_pure_eq_ok.mp hp
  rw [hfg]
  exact run_getU32_eq_ok.mp hn

theorem consumes_wordItem {α : Type} {f : UInt32 → α} :
    Consumes (getU32 >>= fun n => pure (f n) : Reader AttrError α) := by
  intro s x t h
  obtain ⟨n, u, hn, hp⟩ := run_bind_eq_ok.mp h
  obtain ⟨rfl, rfl⟩ := run_pure_eq_ok.mp hp
  rw [run_getU32_eq_ok.mp hn]
  simp

theorem ends_wordItem {α : Type} {f : UInt32 → α} {s : Bytes} (h : 4 ≤ s.length) :
    Ends (getU32 >>= fun n => pure (f n) : Reader AttrError α) (onOk fun _ t => t.length < s.length) s := by
  apply ends_bind (ends_getU32 h)
  rintro n t rfl
  exact ends_pure (by simp)

end PathForge.Wire
