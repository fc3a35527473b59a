import PathForge.PathAttributes

namespace PathForge.Wire

open Fallible ByteReader

namespace RawAttribute

def extended (raw : RawAttribute) : Bool := raw.flags &&& flagExtendedLen ≠ 0

def octets (raw : RawAttribute) : Bytes :=
  raw.flags :: raw.typeCode ::
    ((if raw.extended then putU16 (UInt16.ofNat raw.value.length) else [UInt8.ofNat raw.value.length]) ++
      raw.value)

def Fits (raw : RawAttribute) : Prop := raw.value.length < if raw.extended then 65536 else 256

theorem octets_length (raw : RawAttribute) :
    raw.octets.length = (if raw.extended then 4 else 3) + raw.value.length := by
  cases h : raw.extended <;> simp [octets, h] <;> omega

end RawAttribute

theorem run_parseLength_eq_ok {flags : UInt8} {s t : Bytes} {n : ℕ} :
    (parseLength flags).run s = some (.ok n, t) ↔
      if flags &&& flagExtendedLen ≠ 0 then n < 65536 ∧ s = putU16 (UInt16.ofNat n) ++ t
      else n < 256 ∧ s = UInt8.ofNat n :: t := by
  unfold parseLength
  split_ifs with h
  · constructor
    · intro h
      obtain ⟨_, s₁, h₁, h⟩ := run_bind_eq_ok.mp h
      obtain ⟨_, rfl⟩ := run_ensure_eq_ok.mp h₁
      obtain ⟨m, s₂, h₂, hp⟩ := run_bind_eq_ok.mp h
      obtain ⟨rfl, rfl⟩ := run_pure_eq_ok.mp hp
      exact ⟨m.toNat_lt, by rw [UInt16.ofNat_toNat]; exact run_getU16_eq_ok.mp h₂⟩
    · rintro ⟨hn, rfl⟩
      have hr := ((reads_getU16 (ε := AttrError) (UInt16.ofNat n)).map (g := UInt16.toNat)).check
        (n := 2) (e := fun _ => .tooShort) (by simp)
      rw [UInt16.toNat_ofNat', Nat.mod_eq_of_lt hn] at hr
      exact hr t
  · constructor
    · intro h
      obtain ⟨_, s₁, h₁, h⟩ := run_bind_eq_ok.mp h
      obtain ⟨_, rfl⟩ := run_ensure_eq_ok.mp h₁
      obtain ⟨m, s₂, h₂, hp⟩ := run_bind_eq_ok.mp h
      obtain ⟨rfl, rfl⟩ := run_pure_eq_ok.mp hp
      exact ⟨m.toNat_lt, by rw [UInt8.ofNat_toNat]; exact run_getU8_eq_ok.mp h₂⟩
    · rintro ⟨hn, rfl⟩
      have hr := ((reads_getU8 (ε := AttrError) (UInt8.ofNat n)).map (g := UInt8.toNat)).check
        (n := 1) (e := fun _ => .tooShort) (by simp)
      rw [UInt8.toNat_ofNat', Nat.mod_eq_of_lt hn] at hr
      exact hr t

theorem ends_parseLength {flags : UInt8} {s : Bytes} :
    Ends (parseLength flags) (onOk fun _ t => t.length < s.length) s := by
  unfold parseLength
  split_ifs with h
  · apply ends_bind ends_check
    rintro _ t ⟨hs, rfl⟩
    apply ends_bind (ends_getU16 hs)
    intro n u hu
    exact ends_pure (by rw [hu]; simp)
  · apply ends_bind ends_check
    rintro _ t ⟨hs, rfl⟩
    apply ends_bind (ends_getU8 hs)
    intro n u hu
    exact ends_pure (by rw [hu]; simp)

namespace RawAttribute

theorem run_parse_eq_ok {s t : Bytes} {raw : RawAttribute} :
    RawAttribute.parse.run s = some (.ok raw, t) ↔ raw.Fits ∧ s = raw.octets ++ t := by
  constructor
  · intro h
    obtain ⟨flags, s₁, h₁, h⟩ := run_bind_eq_ok.mp h
    obtain ⟨typeCode, s₂, h₂, h⟩ := run_bind_eq_ok.mp h
    obtain ⟨n, s₃, h₃, h⟩ := run_bind_eq_ok.mp h
    obtain ⟨_, s₄, h₄, h⟩ := run_bind_eq_ok.mp h
    obtain ⟨value, s₅, h₅, hp⟩ := run_bind_eq_ok.mp h
    obtain rfl := run_getU8_eq_ok.mp h₁
    obtain rfl := run_getU8_eq_ok.mp h₂
    obtain ⟨_, rfl⟩ := run_ensure_eq_ok.mp h₄
    obtain ⟨rfl, rfl⟩ := run_copyToBytes_eq_ok.mp h₅
    obtain ⟨rfl, rfl⟩ := run_pure_eq_ok.mp hp
    rw [run_parseLength_eq_ok] at h₃
    split_ifs at h₃ with hf
    · obtain ⟨hn, rfl⟩ := h₃
      simp [Fits, octets, extended, hf, hn]
    · obtain ⟨hn, rfl⟩ := h₃
      simp [Fits, octets, extended, hf, hn]
  · rintro ⟨hf, rfl⟩
    have hl : (parseLength raw.flags).run
        ((if raw.extended then putU16 (UInt16.ofNat raw.value.length)
          else [UInt8.ofNat raw.value.length]) ++ (raw.value ++ t)) =
        some (.ok raw.value.length, raw.value ++ t) := by
      rw [run_parseLength_eq_ok]
      by_cases he : raw.flags &&& flagExtendedLen = 0 <;> simpa [Fits, extended, he] using hf
    simp only [octets, List.cons_append, List.append_assoc]
    rw [parse, run_bind_ok _ (run_getU8_cons _ _), run_bind_ok _ (run_getU8_cons _ _),
      run_bind_ok _ hl, run_bind_ok _ (run_check (by simp)),
      run_bind_ok _ (reads_copyToBytes raw.value t), run_pure]

theorem reads_parse {raw : RawAttribute} (h : raw.Fits) : Reads RawAttribute.parse raw.octets raw :=
  fun _ => run_parse_eq_ok.mpr ⟨h, rfl⟩

theorem consumes_parse : Consumes RawAttribute.parse := by
  intro s raw t h
  obtain ⟨_, rfl⟩ := run_parse_eq_ok.mp h
  rw [List.length_append, octets_length]
  split_ifs <;> omega

theorem ends_parse {s : Bytes} (hs : 2 ≤ s.length) :
    Ends RawAttribute.parse (onOk fun _ t => t.length < s.length) s := by
  have he : Ends RawAttribute.parse (onOk fun _ _ => True) s := by
    apply ends_bind (ends_getU8 (by omega))
    rintro flags s₁ rfl
    apply ends_bind (ends_getU8 (by simpa using hs))
    rintro typeCode s₂ rfl
    apply ends_bind ends_parseLength
    intro n s₃ _
    apply ends_bind ends_check
    rintro _ s₄ ⟨hn, rfl⟩
    apply ends_bind (ends_copyToBytes hn)
    intro value s₅ _
    exact ends_pure trivial
  obtain ⟨r, t, hr, -⟩ := he
  refine ⟨r, t, hr, ?_⟩
  cases r with
  | error e => trivial
  | ok raw => exact consumes_parse s raw t hr

end RawAttribute

end PathForge.Wire
