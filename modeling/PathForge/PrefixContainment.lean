import PathForge.Fallible
import PathForge.PrefixLists

namespace PathForge.Routing

open Tables Selection Wire Leading Fallible Policy

variable {a net : Ipv4Addr} {n l : UInt8}

def network (net : Ipv4Addr) (n : UInt8) : Set ℕ := block 32 n.toNat net.toU32.toNat

def SameNet (n : UInt8) (a net : Ipv4Addr) : Prop := SameLead 32 n.toNat a.toU32.toNat net.toU32.toNat

instance : Decidable (SameNet n a net) := inferInstanceAs (Decidable (SameLead _ _ _ _))

theorem le_width_iff : n ≤ 32 ↔ n.toNat ≤ 32 := UInt8.le_iff_toNat_le

theorem mem_network_iff : a.toU32.toNat ∈ network net n ↔ SameNet n a net := and_iff_right a.toU32.toNat_lt

theorem network_subset_iff (hn : n ≤ 32) : network a l ⊆ network net n ↔ n ≤ l ∧ SameNet n a net :=
  block_subset_iff (le_width_iff.mp hn) a.toU32.toNat_lt

section Widths

theorem toUInt32_le (hn : n ≤ 32) : n.toUInt32 ≤ 32 := by
  rw [UInt32.le_iff_toNat_le, UInt8.toNat_toUInt32]
  exact le_width_iff.mp hn

theorem toNat_width (hn : n ≤ 32) : (32 - n.toUInt32).toNat = 32 - n.toNat := by
  rw [UInt32.toNat_sub_of_le _ _ (toUInt32_le hn), UInt8.toNat_toUInt32]
  rfl

theorem width_lt (hn : n ≤ 32) (h0 : n ≠ 0) : (32 - n.toUInt32).toNat < 32 := by
  rw [toNat_width hn]
  have hpos : n.toNat ≠ 0 := fun h => h0 (UInt8.toNat_inj.mp h)
  omega

theorem sameLead_width (hn : n ≤ 32) :
    SameLead 32 (32 - (32 - n.toUInt32).toNat) a.toU32.toNat net.toU32.toNat ↔ SameNet n a net := by
  rw [toNat_width hn, Nat.sub_sub_self (le_width_iff.mp hn), SameNet]

theorem sameNet_zero : SameNet 0 a net := fun _ hi => absurd hi (Nat.not_lt_zero _)

theorem checkedSub_width (hn : n ≤ 32) : checkedSub 32 n.toUInt32 = some (32 - n.toUInt32) :=
  if_pos (toUInt32_le hn)

end Widths

section Tests

theorem matchFilter_eq (hn : n ≤ 32) : Rib.matchFilter a ⟨net, n⟩ = some (decide (SameNet n a net)) := by
  by_cases h0 : n = 0
  · subst h0
    exact (congrArg some (decide_eq_true sameNet_zero)).symm
  · have hs := width_lt hn h0
    have hshr (x : UInt32) : checkedShr x (32 - n.toUInt32) = some (x >>> (32 - n.toUInt32)) := if_pos hs
    simp only [Rib.matchFilter, if_neg h0, checkedSub_width hn, hshr, Option.bind_eq_bind, Option.bind_some,
      Option.pure_def, beq_eq_decide, shiftRight_eq_iff hs, sameLead_width hn]

theorem isSubnet_eq (hn : n ≤ 32) : isSubnet a l net n = some (decide (n ≤ l ∧ SameNet n a net)) := by
  by_cases hl : l < n
  · rw [isSubnet, if_pos hl, decide_eq_false fun h => absurd hl (UInt8.not_lt.mpr h.1)]
  · have hle : n ≤ l := UInt8.not_lt.mp hl
    rw [isSubnet, if_neg hl]
    by_cases h0 : n = 0
    · subst h0
      rw [if_pos rfl, decide_eq_true ⟨hle, sameNet_zero⟩]
    · have hs := width_lt hn h0
      have hshl : checkedShl 1 (32 - n.toUInt32) = some (1 <<< (32 - n.toUInt32)) := if_pos hs
      simp only [if_neg h0, checkedSub_width hn, hshl, Option.bind_eq_bind, Option.bind_some, Option.pure_def,
        beq_eq_decide, masked_eq_iff hs, sameLead_width hn, hle, true_and]
      exact congrArg some (decide_eq_decide.mpr ⟨SameLead.symm, SameLead.symm⟩)

theorem Roa.covers_eq {roa : Roa} (hn : roa.prefixLen ≤ 32) :
    roa.covers a l = if l < roa.prefixLen ∨ roa.maxLength < l then some false
      else if roa.prefixLen = 0 then none else some (decide (SameNet roa.prefixLen a roa.net)) := by
  rw [Roa.covers, if_neg (UInt8.not_lt.mpr hn)]
  congr 1
  by_cases h0 : roa.prefixLen = 0
  · rw [if_pos h0, h0]
    rfl
  · rw [if_neg h0]
    have hs := width_lt hn h0
    have hbits : (32 - roa.prefixLen).toUInt32 = 32 - roa.prefixLen.toUInt32 := by
      apply UInt32.toNat_inj.mp
      rw [toNat_width hn, UInt8.toNat_toUInt32, UInt8.toNat_sub_of_le _ _ hn]
      rfl
    have hout (x : UInt32) : shiftOut x (32 - roa.prefixLen) =
        some (x >>> (32 - roa.prefixLen.toUInt32) <<< (32 - roa.prefixLen.toUInt32)) := by
      rw [shiftOut, hbits, if_pos]
      rw [UInt8.lt_iff_toNat_lt, ← UInt8.toNat_toUInt32, hbits]
      exact hs
    simp only [hout, Option.bind_eq_bind, Option.bind_some, Option.pure_def, beq_eq_decide,
      shiftOut_eq_iff hs, sameLead_width hn]
    exact congrArg some (decide_eq_decide.mpr ⟨SameLead.symm, SameLead.symm⟩)

theorem containment_tests_agree_iff (asn : UInt32) (hn : n ≤ l) (hl : l ≤ 32) :
    (Rib.matchFilter a ⟨net, n⟩ = some (decide (SameNet n a net)) ∧
      isSubnet a l net n = some (decide (SameNet n a net)) ∧
      (Roa.mk net n 32 asn).covers a l = some (decide (SameNet n a net))) ↔ 0 < n := by
  have hn32 : n ≤ 32 := UInt8.le_trans hn hl
  have hlen : ¬ (l < n ∨ 32 < l) := not_or.mpr ⟨UInt8.not_lt.mpr hn, UInt8.not_lt.mpr hl⟩
  have hpos : 0 < n ↔ n ≠ 0 := UInt8.pos_iff_ne_zero
  rw [hpos, matchFilter_eq hn32, isSubnet_eq hn32, Roa.covers_eq hn32]
  simp only [hn, true_and, if_neg hlen]
  by_cases h0 : n = 0
  · simp [h0]
  · simp [h0]

theorem containment_tests_agree_slash8 :
    (8 : UInt8) ≤ 16 ∧ (16 : UInt8) ≤ 32 ∧
      Rib.matchFilter (.new 10 1 0 0) ⟨.new 10 255 0 0, 8⟩ =
        some (decide (SameNet 8 (.new 10 1 0 0) (.new 10 255 0 0))) ∧
      isSubnet (.new 10 1 0 0) 16 (.new 10 255 0 0) 8 =
        some (decide (SameNet 8 (.new 10 1 0 0) (.new 10 255 0 0))) ∧
      (Roa.mk (.new 10 255 0 0) 8 32 65001).covers (.new 10 1 0 0) 16 =
        some (decide (SameNet 8 (.new 10 1 0 0) (.new 10 255 0 0))) :=
  ⟨by decide, by decide, (containment_tests_agree_iff 65001 (by decide) (by decide)).mpr (by decide)⟩

theorem containment_tests_differ_default_route :
    Rib.matchFilter (.new 10 0 0 0) ⟨.new 0 0 0 0, 0⟩ = some true ∧
      isSubnet (.new 10 0 0 0) 8 (.new 0 0 0 0) 0 = some true ∧
      (Roa.mk (.new 0 0 0 0) 0 32 65001).covers (.new 10 0 0 0) 8 = none :=
  ⟨rfl, rfl, rfl⟩

end Tests

section LongestMatch

variable {r : Rib} {addr : Ipv4Addr} {key key' : PrefixKey}

def CanonicalKey (key : PrefixKey) : Prop :=
  key.prefixLen ≤ 32 ∧ Canonical 32 key.prefixLen.toNat key.address.toU32.toNat

theorem CanonicalKey.eq_of_sameNet (hk : CanonicalKey key) (hk' : CanonicalKey key')
    (hl : key.prefixLen = key'.prefixLen)
    (h : SameNet key.prefixLen addr key.address) (h' : SameNet key'.prefixLen addr key'.address) : key = key' := by
  obtain ⟨a, n⟩ := key
  obtain ⟨a', n'⟩ := key'
  obtain rfl : n = n' := hl
  have ha : a.toU32 = a'.toU32 := by
    apply UInt32.toNat_inj.mp
    exact (h.symm.trans h').eq_of_canonical a.toU32.toNat_lt a'.toU32.toNat_lt hk.2 hk'.2
  rw [← a.ofU32_toU32, ha, a'.ofU32_toU32]

def Rib.matching (h : Host) (r : Rib) (addr : Ipv4Addr) : List (PrefixKey × Route) :=
  (r.locRib.iterBy h.keys).filter fun e => decide (SameNet e.1.prefixLen addr e.1.address)

theorem Rib.mem_matching {h : Host} {route : Route} :
    (key, route) ∈ r.matching h addr ↔ r.locRib.lookup key = some route ∧
      SameNet key.prefixLen addr key.address := by
  rw [matching, List.mem_filter, HashMap.mem_iterBy, decide_eq_true_eq]

theorem Rib.longestMatch_eq (hkeys : ∀ key, (r.locRib.lookup key).isSome → CanonicalKey key) (h : Host)
    (addr : Ipv4Addr) :
    r.longestMatch h addr = some (maxByKey (fun e => e.1.prefixLen.toNat) (r.matching h addr)) := by
  have hfilter : (r.locRib.iterBy h.keys).filterM (fun e => matchFilter addr e.1) = some (r.matching h addr) := by
    apply filterM_eq
    rintro ⟨key, route⟩ he
    exact matchFilter_eq (hkeys key (by rw [HashMap.mem_iterBy.mp he]; rfl)).1
  rw [longestMatch, hfilter]
  rfl

theorem Rib.longestMatch_longest (hkeys : ∀ key, (r.locRib.lookup key).isSome → CanonicalKey key) (h : Host)
    (addr : Ipv4Addr) :
    ∃ found, r.longestMatch h addr = some found ∧
      (found = none ↔
        ∀ key, (r.locRib.lookup key).isSome → addr.toU32.toNat ∉ network key.address key.prefixLen) ∧
      ∀ key route, found = some (key, route) ↔
        r.locRib.lookup key = some route ∧ addr.toU32.toNat ∈ network key.address key.prefixLen ∧
          ∀ key', (r.locRib.lookup key').isSome → addr.toU32.toNat ∈ network key'.address key'.prefixLen →
            key' ≠ key → key'.prefixLen < key.prefixLen := by
  refine ⟨_, longestMatch_eq hkeys h addr, ?_, ?_⟩
  · rw [maxByKey_eq_none, List.eq_nil_iff_forall_not_mem]
    simp only [mem_network_iff, Option.isSome_iff_exists]
    constructor
    · rintro hnone key ⟨route, hr⟩ hnet
      exact hnone (key, route) (mem_matching.mpr ⟨hr, hnet⟩)
    · rintro hnone ⟨key, route⟩ he
      obtain ⟨hr, hnet⟩ := mem_matching.mp he
      exact hnone key ⟨route, hr⟩ hnet
  · intro key route
    simp only [mem_network_iff]
    constructor
    · intro hmax
      obtain ⟨hr, hnet⟩ := mem_matching.mp (maxByKey_mem hmax)
      refine ⟨hr, hnet, ?_⟩
      intro key' hsome hnet' hne
      obtain ⟨route', hr'⟩ := Option.isSome_iff_exists.mp hsome
      have hle := le_maxByKey hmax (mem_matching.mpr ⟨hr', hnet'⟩)
      refine UInt8.lt_of_le_of_ne (UInt8.le_iff_toNat_le.mpr hle) ?_
      intro hl
      exact hne ((hkeys key' hsome).eq_of_sameNet (hkeys key (by rw [hr]; rfl)) hl hnet' hnet)
    · rintro ⟨hr, hnet, hlongest⟩
      have hmem : (key, route) ∈ r.matching h addr := mem_matching.mpr ⟨hr, hnet⟩
      rcases hmax : maxByKey (fun e => e.1.prefixLen.toNat) (r.matching h addr) with _ | ⟨key', route'⟩
      · exact absurd (maxByKey_eq_none.mp hmax ▸ hmem) List.not_mem_nil
      · obtain ⟨hr', hnet'⟩ := mem_matching.mp (maxByKey_mem hmax)
        have hle := le_maxByKey hmax hmem
        by_cases hkk : key' = key
        · subst hkk
          rw [hmax, Option.some.inj (hr'.symm.trans hr)]
        · have hlt := hlongest key' (by rw [hr']; rfl) hnet' hkk
          exact absurd (UInt8.lt_iff_toNat_lt.mp hlt) (Nat.not_lt.mpr hle)

def nestedRoute (n : UInt8) : Route :=
  ⟨⟨n, .new 10 1 0 0⟩, {}, .v4 (.new 10 0 0 1) 179, 65001, 0, false, .notFound⟩

def nestedRib : Rib :=
  { locRib := ((AList.insert ⟨.new 10 1 0 0, 16⟩ (nestedRoute 16) ∅).insert ⟨.new 0 0 0 0, 0⟩
    (nestedRoute 0)).insert
      ⟨.new 10 0 0 0, 8⟩ (nestedRoute 8) }

theorem longestMatch_longest_nested :
    (∀ key, (nestedRib.locRib.lookup key).isSome → CanonicalKey key) ∧
      nestedRib.longestMatch ⟨fun n => n, fun _ _ p => p, .listed, .listed⟩ (.new 10 1 2 5) =
        some (some (⟨.new 10 1 0 0, 16⟩, nestedRoute 16)) := by
  have hkeys : ∀ key, (nestedRib.locRib.lookup key).isSome → CanonicalKey key := by
    intro key hkey
    rw [AList.lookup_isSome, AList.mem_keys] at hkey
    revert key
    unfold CanonicalKey
    decide
  obtain ⟨found, hfound, -, hiff⟩ :=
    Rib.longestMatch_longest hkeys ⟨fun n => n, fun _ _ p => p, .listed, .listed⟩ (.new 10 1 2 5)
  refine ⟨hkeys, hfound.trans (congrArg some ((hiff _ _).mpr ⟨rfl, ?_⟩))⟩
  simp only [mem_network_iff]
  refine ⟨by decide, ?_⟩
  intro key' hsome
  rw [AList.lookup_isSome, AList.mem_keys] at hsome
  revert key'
  decide

end LongestMatch

end PathForge.Routing
