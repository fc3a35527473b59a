import PathForge.UpdateEffects
import Mathlib.Data.List.GetD

namespace PathForge.Routing

open Tables Wire Fallible History ByteReader

section Bits

def bitAt (b : Bytes) (i : ℕ) : Bool := (b.getD (i / 8) 0).toNat.testBit (7 - i % 8)

theorem bitAt_append {c : Bytes} {i : ℕ} (h : i < 8 * c.length) (t : Bytes) : bitAt (c ++ t) i = bitAt c i := by
  rw [bitAt, bitAt, List.getD_append _ _ _ _ (by omega)]

theorem eq_iff_bitAt {c c' : Bytes} (hl : c.length = c'.length) :
    c = c' ↔ ∀ i < 8 * c.length, bitAt c i = bitAt c' i := by
  constructor
  · rintro rfl i _
    rfl
  · intro h
    apply List.ext_getElem hl
    intro j hj hj'
    apply UInt8.toNat_inj.mp
    apply Nat.eq_of_testBit_eq
    intro m
    by_cases hm : m < 8
    · have hb := h (8 * j + (7 - m)) (by omega)
      rw [bitAt, bitAt, show (8 * j + (7 - m)) / 8 = j by omega, show 7 - (8 * j + (7 - m)) % 8 = m by omega,
        List.getD_eq_getElem _ _ hj, List.getD_eq_getElem _ _ hj'] at hb
      exact hb
    · have hlt (x : UInt8) : x.toNat < 2 ^ m :=
        x.toNat_lt.trans_le (Nat.pow_le_pow_right (by omega) (by omega))
      rw [Nat.testBit_lt_two_pow (hlt _), Nat.testBit_lt_two_pow (hlt _)]

theorem padded_inj {n : ℕ} {c c' : Bytes} (hl : c.length = c'.length) (hn : c.length ≤ n) :
    Octets.padded n c = .padded n c' ↔ c = c' := by
  constructor
  · intro h
    have ht := congrArg (fun o : Octets n => o.toList.take c.length) h
    simp only [Octets.padded, List.take_take, min_eq_left hn] at ht
    rwa [List.take_left, hl, List.take_left] at ht
  · rintro rfl
    rfl

def SameNetwork (n : UInt8) (b b' : Bytes) : Prop := ∀ i < n.toNat, bitAt b i = bitAt b' i

def SamePadding (n : UInt8) (b b' : Bytes) : Prop :=
  ∀ i, n.toNat ≤ i → i < 8 * byteLen n → bitAt b i = bitAt b' i

instance (n : UInt8) (b b' : Bytes) : Decidable (SameNetwork n b b') :=
  inferInstanceAs (Decidable (∀ i < n.toNat, bitAt b i = bitAt b' i))

instance (n : UInt8) (b b' : Bytes) : Decidable (SamePadding n b b') :=
  inferInstanceAs (Decidable (∀ i, n.toNat ≤ i → i < 8 * byteLen n → bitAt b i = bitAt b' i))

variable {b b' t t' : Bytes} {p p' : Prefix}

theorem key_eq_iff (hp : Prefix.parse.run b = some (.ok p, t)) (hp' : Prefix.parse.run b' = some (.ok p', t'))
    (hn : p.prefixLen = p'.prefixLen) (hle : p.prefixLen.toNat ≤ 32)
    (hb : SameNetwork p.prefixLen b.tail b'.tail) :
    PrefixKey.ofPrefix p = .ofPrefix p' ↔ SamePadding p.prefixLen b.tail b'.tail := by
  obtain ⟨c, rfl, -, hc, hadr⟩ := Prefix.run_parse_eq_ok.mp hp
  obtain ⟨c', rfl, -, hc', hadr'⟩ := Prefix.run_parse_eq_ok.mp hp'
  have hlen : byteLen p.prefixLen ≤ 4 := by
    unfold byteLen
    omega
  have hcl : c.length = byteLen p.prefixLen := hc.trans (min_eq_right hlen)
  have hcl' : c'.length = byteLen p.prefixLen := by
    rw [hc', Prefix.encodedLen, ← hn]
    exact min_eq_right hlen
  have hkey : PrefixKey.ofPrefix p = .ofPrefix p' ↔ c = c' := by
    have haddr : p.address = p'.address ↔ p.address.octets = p'.address.octets := by
      cases p.address
      cases p'.address
      simp
    rw [PrefixKey.ofPrefix, PrefixKey.ofPrefix, PrefixKey.mk.injEq, and_iff_left hn, haddr, hadr, hadr',
      padded_inj (hcl.trans hcl'.symm) (hcl.trans_le hlen)]
  rw [hkey, eq_iff_bitAt (hcl.trans hcl'.symm)]
  simp only [List.tail_cons] at hb ⊢
  constructor
  · intro h i _ hi
    rw [bitAt_append (by omega), bitAt_append (by omega)]
    exact h i (by omega)
  · intro h i hi
    have hbit : bitAt (c ++ t) i = bitAt (c' ++ t') i := by
      by_cases hin : i < p.prefixLen.toNat
      · exact hb i hin
      · exact h i (by omega) (by omega)
    rwa [bitAt_append (by omega), bitAt_append (by omega)] at hbit

end Bits

namespace Rib

def Withdraws (p p' : Prefix) : Prop :=
  ∀ (config : DampeningConfig) (rpki : RpkiValidator) (calls : List (Host × RibOp)) (r s t : Rib) (h h' : Host)
    (peer : SocketAddr) (asn asn' : UInt32) (nlri nlri' withdrawn withdrawn' : List Prefix)
    (attrs attrs' : PathAttributes),
    (start config rpki).run calls = some r → p ∈ nlri → r.processUpdate h peer asn nlri attrs withdrawn = some s →
    p' ∈ withdrawn' → s.processUpdate h' peer asn' nlri' attrs' withdrawn' = some t →
    t.route peer (.ofPrefix p) = none ∧
      ((∀ q, q ≠ peer → t.route q (.ofPrefix p) = none) → t.locRib.lookup (.ofPrefix p) = none)

theorem withdraws_of_key_eq {p p' : Prefix} (hk : PrefixKey.ofPrefix p = .ofPrefix p') : Withdraws p p' := by
  intro config rpki calls r s t h h' peer asn asn' nlri nlri' withdrawn withdrawn' attrs attrs' hr _ hs hp' ht
  let announcement : Host × RibOp := (h, .processUpdate peer asn nlri attrs withdrawn)
  let withdrawal : Host × RibOp := (h', .processUpdate peer asn' nlri' attrs' withdrawn')
  change r.apply announcement.1 announcement.2 = some s at hs
  change s.apply withdrawal.1 withdrawal.2 = some t at ht
  have hmem : .ofPrefix p ∈ withdrawal.2.withdrawn := hk ▸ List.mem_map_of_mem hp'
  have hnone : t.route peer (.ofPrefix p) = none := by
    rcases apply_update_route (c := withdrawal) trivial ht (.ofPrefix p) with ⟨-, hr⟩ | ⟨hw, -⟩ | ⟨hw, -⟩
    · exact hr
    · exact absurd hmem hw
    · exact absurd hmem hw
  refine ⟨hnone, ?_⟩
  intro hothers
  have hdec := apply_decided (apply_decided (run_decided hr) hs) ht (.ofPrefix p)
  rw [← Option.isNone_iff_eq_none, ← Option.isSome_eq_false_iff, ← Bool.not_eq_true, hdec.isSome_iff]
  rintro ⟨q, hq⟩
  by_cases hqp : q = peer
  · rw [hqp, hnone] at hq
    cases hq
  · rw [hothers q hqp] at hq
    cases hq

theorem key_eq_of_withdraws {p p' : Prefix} (hw : Withdraws p p') : PrefixKey.ofPrefix p = .ofPrefix p' := by
  by_contra hk
  let announcement : Host × RibOp := (sampleHost, .processUpdate (samplePeer 1) 65001 [p] {} [])
  let withdrawal : Host × RibOp := (sampleHost, .processUpdate (samplePeer 1) 65001 [] {} [p'])
  obtain ⟨s, hs⟩ := exists_apply (r := start {} {}) rfl announcement.1 announcement.2
  have hm : s.rpki.mode = .disabled := by
    rw [apply_rpki hs]
    rfl
  obtain ⟨t, ht⟩ := exists_apply hm withdrawal.1 withdrawal.2
  have hnone := (hw {} {} [] _ s t _ _ _ _ _ _ _ _ _ _ _ rfl (List.mem_singleton_self p) hs
    (List.mem_singleton_self p') ht).1
  have hinstalls : (start {} {}).Installs (.ofPrefix p) announcement :=
    ⟨[], p, [], _, rfl, rfl, rfl, rfl, .notFound, rfl, rfl⟩
  have hannounced : ∃ route, s.route (samplePeer 1) (.ofPrefix p) = some route := by
    rcases apply_update_route (c := announcement) trivial hs (.ofPrefix p) with
      ⟨hw, -⟩ | ⟨-, -, route, hroute, -⟩ | ⟨-, hn, -⟩
    · cases hw
    · exact ⟨route, hroute⟩
    · exact absurd hinstalls hn
  have hkept : t.route (samplePeer 1) (.ofPrefix p) = s.route (samplePeer 1) (.ofPrefix p) := by
    rcases apply_update_route (c := withdrawal) trivial ht (.ofPrefix p) with ⟨hw, -⟩ | ⟨-, hi, -⟩ | ⟨-, -, hr⟩
    · exact absurd (List.mem_singleton.mp hw) hk
    · exact absurd hi not_once_nil
    · exact hr
  obtain ⟨route, hroute⟩ := hannounced
  rw [hkept, hroute] at hnone
  cases hnone

theorem prefix_identity_iff {b b' t t' : Bytes} {p p' : Prefix} (hp : Prefix.parse.run b = some (.ok p, t))
    (hp' : Prefix.parse.run b' = some (.ok p', t')) (hn : p.prefixLen = p'.prefixLen)
    (hle : p.prefixLen.toNat ≤ 32) (hb : SameNetwork p.prefixLen b.tail b'.tail) :
    (PrefixKey.ofPrefix p = .ofPrefix p' ↔ SamePadding p.prefixLen b.tail b'.tail) ∧
      (Withdraws p p' ↔ SamePadding p.prefixLen b.tail b'.tail) := by
  have hkey := key_eq_iff hp hp' hn hle hb
  exact ⟨hkey, ⟨fun hw => hkey.mp (key_eq_of_withdraws hw), fun h => withdraws_of_key_eq (hkey.mpr h)⟩⟩

theorem prefix_identity_iff_slash20 :
    Prefix.parse.run [20, 10, 1, 21] = some (.ok ⟨20, .new 10 1 21 0⟩, []) ∧
      Prefix.parse.run [20, 10, 1, 21, 7] = some (.ok ⟨20, .new 10 1 21 0⟩, [7]) ∧
      Withdraws ⟨20, .new 10 1 21 0⟩ ⟨20, .new 10 1 21 0⟩ := by
  have hp : Prefix.parse.run [20, 10, 1, 21] = some (.ok ⟨20, .new 10 1 21 0⟩, []) := by decide
  have hp' : Prefix.parse.run [20, 10, 1, 21, 7] = some (.ok ⟨20, .new 10 1 21 0⟩, [7]) := by decide
  exact ⟨hp, hp', (prefix_identity_iff hp hp' rfl (by decide) (by decide)).2.mpr (by decide)⟩

theorem prefix_identity_slash20_padded :
    Prefix.parse.run [20, 10, 1, 16] = some (.ok ⟨20, .new 10 1 16 0⟩, []) ∧
      Prefix.parse.run [20, 10, 1, 31] = some (.ok ⟨20, .new 10 1 31 0⟩, []) ∧
      SameNetwork 20 [10, 1, 16] [10, 1, 31] ∧
      PrefixKey.ofPrefix ⟨20, .new 10 1 16 0⟩ ≠ .ofPrefix ⟨20, .new 10 1 31 0⟩ ∧
      ¬ Withdraws ⟨20, .new 10 1 16 0⟩ ⟨20, .new 10 1 31 0⟩ := by
  have hk : PrefixKey.ofPrefix ⟨20, .new 10 1 16 0⟩ ≠ .ofPrefix ⟨20, .new 10 1 31 0⟩ := by decide
  exact ⟨by decide, by decide, by decide, hk, fun hw => hk (key_eq_of_withdraws hw)⟩

end Rib

end PathForge.Routing
