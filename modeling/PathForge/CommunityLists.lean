import PathForge.PrefixLists
import Mathlib.Data.List.TakeDrop

namespace PathForge.Policy

open Wire

section Decimals

variable {c : Char} {s t : List Char}

theorem splitOnce_append (h : c ∉ s) : splitOnce c (s ++ c :: t) = some (s, t) := by
  have hs : ∀ x ∈ s, decide (x ≠ c) = true := by
    intro x hx
    exact decide_eq_true fun hxc => h (hxc ▸ hx)
  rw [splitOnce, List.span_eq_takeWhile_dropWhile, List.takeWhile_append_of_pos hs,
    List.dropWhile_append_of_pos hs]
  simp

theorem not_mem_toDigits (n : ℕ) (hc : c.isDigit = false) : c ∉ Nat.toDigits 10 n := by
  intro h
  have hd := Nat.isDigit_of_mem_toDigits (by decide) (by decide) h
  rw [hc] at hd
  cases hd

variable {α : Type} {size n : ℕ} {ofNat : ℕ → α}

theorem decimal_toDigits (hn : n < size) : decimal size ofNat (Nat.toDigits 10 n) = some (ofNat n) := by
  have hdigits : (Nat.toDigits 10 n).all Char.isDigit = true :=
    List.all_eq_true.mpr fun c hc => Nat.isDigit_of_mem_toDigits (by decide) (by decide) hc
  rw [decimal, if_neg (by simp [hdigits, Nat.toDigits_ne_nil])]
  simp only [Nat.ofDigitChars_ten_toDigits]
  rw [if_pos hn]

theorem parseUnsigned_toDigits (hn : n < size) : parseUnsigned size ofNat (Nat.toDigits 10 n) = some
    (ofNat n) := by
  have hplus := not_mem_toDigits (c := '+') n rfl
  unfold parseUnsigned
  split
  · rename_i h
    rw [h] at hplus
    exact absurd List.mem_cons_self hplus
  · exact decimal_toDigits hn

theorem parseU8_toDigits (n : UInt8) : parseU8 (Nat.toDigits 10 n.toNat) = some n := by
  rw [parseU8, parseUnsigned_toDigits n.toNat_lt, UInt8.ofNat_toNat]

theorem parseU16_toDigits (n : UInt16) : parseU16 (Nat.toDigits 10 n.toNat) = some n := by
  rw [parseU16, parseUnsigned_toDigits n.toNat_lt, UInt16.ofNat_toNat]

theorem parseU32_toDigits (n : UInt32) : parseU32 (Nat.toDigits 10 n.toNat) = some n := by
  rw [parseU32, parseUnsigned_toDigits n.toNat_lt, UInt32.ofNat_toNat]

end Decimals

section Communities

variable (c : Community)

theorem asn_value_bits : (c.asn.toUInt32 <<< 16) ||| c.value.toUInt32 = c.bits := by
  have hx := c.bits.toNat_lt
  have hhigh : c.bits.toNat >>> 16 % 2 ^ 16 = c.bits.toNat / 2 ^ 16 := by
    rw [Nat.shiftRight_eq_div_pow]
    exact Nat.mod_eq_of_lt (by omega)
  have hshift : (c.bits.toNat / 2 ^ 16) <<< 16 % 2 ^ 32 = (c.bits.toNat / 2 ^ 16) <<< 16 := by
    rw [Nat.shiftLeft_eq]
    exact Nat.mod_eq_of_lt (by omega)
  apply UInt32.toNat_inj.mp
  simp only [Community.asn, Community.value, UInt32.toNat_or, UInt32.toNat_shiftLeft, UInt16.toNat_toUInt32,
    UInt32.toNat_toUInt16, UInt32.toNat_shiftRight]
  change (c.bits.toNat >>> 16 % 2 ^ 16) <<< 16 % 2 ^ 32 ||| c.bits.toNat % 2 ^ 16 = c.bits.toNat
  rw [hhigh, hshift, ← Nat.shiftLeft_add_eq_or_of_lt (Nat.mod_lt _ (Nat.two_pow_pos 16)), Nat.shiftLeft_eq]
  omega

def numeric : List Char := Nat.toDigits 10 c.asn.toNat ++ ':' :: Nat.toDigits 10 c.value.toNat

theorem toString_cases :
    (c = .noExport ∧ c.toString = "no-export") ∨ (c = .noAdvertise ∧ c.toString = "no-advertise") ∨
      (c = .noExportSubconfed ∧ c.toString = "no-export-subconfed") ∨ c.toString.toList = numeric c := by
  unfold Community.toString
  split_ifs with h₁ h₂ h₃
  · exact Or.inl ⟨h₁, rfl⟩
  · exact Or.inr (Or.inl ⟨h₂, rfl⟩)
  · exact Or.inr (Or.inr (Or.inl ⟨h₃, rfl⟩))
  · refine Or.inr (Or.inr (Or.inr ?_))
    have hdigits (n : UInt16) : (ToString.toString n).toList = Nat.toDigits 10 n.toNat := Nat.toList_repr
    rw [String.toList_append, String.toList_append, hdigits, hdigits]
    simp [numeric]

theorem parseCommunityStr_numeric {s : String} (hs : s.toList = numeric c) : parseCommunityStr s = some c := by
  -- a numeric text has a colon, which none of the names has
  have hname {name : String} (hn : ':' ∉ name.toList) : s ≠ name := by
    rintro rfl
    exact hn (by simp [hs, numeric])
  have hcolon := not_mem_toDigits (c := ':') c.asn.toNat rfl
  rw [parseCommunityStr, if_neg (hname (by decide)), if_neg (hname (by decide)), if_neg (hname (by decide)),
    hs, numeric, splitOnce_append hcolon]
  simp only [Option.bind_eq_bind, Option.bind_some, parseU16_toDigits, asn_value_bits, Option.pure_def]

theorem parseCommunityStr_toString : parseCommunityStr c.toString = some c := by
  rcases toString_cases c with ⟨rfl, h⟩ | ⟨rfl, h⟩ | ⟨rfl, h⟩ | h
  · rfl
  · rfl
  · rfl
  · exact parseCommunityStr_numeric c h

theorem space_not_mem_toString : ' ' ∉ c.toString.toList := by
  rcases toString_cases c with ⟨-, h⟩ | ⟨-, h⟩ | ⟨-, h⟩ | h
  · rw [h]; decide
  · rw [h]; decide
  · rw [h]; decide
  · rw [h, numeric, List.mem_append, List.mem_cons, not_or, not_or]
    exact ⟨not_mem_toDigits _ rfl, by decide, not_mem_toDigits _ rfl⟩

end Communities

section Matching

/-- The line that `cmd_bgp_rib_prefix` prints for the communities of a route. -/
def communitiesLine (attrs : PathAttributes) : String :=
  if attrs.communities = [] then ""
  else "  Communities:     " ++ " ".intercalate (attrs.communities.map Community.toString) ++ "\n"

variable {attrs : PathAttributes}

theorem splitOn_join {cs : List Community} (hcs : cs ≠ []) :
    (" ".intercalate (cs.map Community.toString)).toList.splitOn ' ' = cs.map fun c => c.toString.toList := by
  rw [String.toList_intercalate, List.map_map]
  apply List.splitOn_intercalate
  · rw [List.forall_mem_map]
    exact fun c _ => space_not_mem_toString c
  · simpa using hcs

theorem communitiesLine_texts (h : attrs.communities ≠ []) :
    ∃ texts, communitiesLine attrs = "  Communities:     " ++ texts ++ "\n" ∧
      (texts.toList.splitOn ' ').map String.ofList = attrs.communities.map Community.toString := by
  refine ⟨_, if_neg h, ?_⟩
  rw [splitOn_join h, List.map_map]
  exact List.map_congr_left fun c _ => String.ofList_toList

theorem hasCommunity_toString (c : Community) :
    PolicyEngine.hasCommunity attrs c.toString = true ↔ c ∈ attrs.communities := by
  rw [PolicyEngine.hasCommunity, parseCommunityStr_toString]
  exact List.contains_iff_mem

theorem matchesCommunityList_copied {e : PolicyEngine} {listName : String} {cl : CommunityList} {own : List String}
    {copied : List Community} (hl : e.policy.communityLists.find? (fun l => l.name == listName) = some cl)
    (hcl : cl.communities = own ++ copied.map Community.toString) :
    e.matchesCommunityList listName attrs = true ↔
      (∃ text ∈ own, PolicyEngine.hasCommunity attrs text = true) ∨ ∃ c ∈ copied, c ∈ attrs.communities := by
  rw [PolicyEngine.matchesCommunityList, hl]
  simp only [hcl, List.any_append, List.any_map, Bool.or_eq_true, List.any_eq_true, Function.comp_apply,
    hasCommunity_toString]

theorem shown_communities_match :
    (∀ c : Community, parseCommunityStr c.toString = some c) ∧
    (∀ shown : PathAttributes, shown.communities ≠ [] →
      ∃ texts, communitiesLine shown = "  Communities:     " ++ texts ++ "\n" ∧
        (texts.toList.splitOn ' ').map String.ofList = shown.communities.map Community.toString) ∧
    ∀ (e : PolicyEngine) (listName : String) (cl : CommunityList) (own : List String) (copied : List Community)
      (attrs : PathAttributes), e.policy.communityLists.find? (fun l => l.name == listName) = some cl →
      cl.communities = own ++ copied.map Community.toString →
      (e.matchesCommunityList listName attrs = true ↔
        (∃ text ∈ own, PolicyEngine.hasCommunity attrs text = true) ∨ ∃ c ∈ copied, c ∈ attrs.communities) :=
  ⟨parseCommunityStr_toString, fun _ h => communitiesLine_texts h, fun _ _ _ _ _ _ hl hcl =>
    matchesCommunityList_copied hl hcl⟩

def sampleLists : PolicyEngine := ⟨⟨[], [⟨"no-export-comms", ["no-export", "65001:100"]⟩]⟩⟩

theorem shown_communities_match_sample :
    let shown : PathAttributes := { communities := [.noExport, ⟨0xFDE90064⟩] }
    (∃ texts, communitiesLine shown = "  Communities:     " ++ texts ++ "\n" ∧
        (texts.toList.splitOn ' ').map String.ofList = ["no-export", "65001:100"]) ∧
      (sampleLists.matchesCommunityList "no-export-comms" { communities := [⟨0xFDE90064⟩] } = true ↔
        (∃ text ∈ ([] : List String), PolicyEngine.hasCommunity { communities := [⟨0xFDE90064⟩] } text = true) ∨
          ∃ c ∈ shown.communities, c ∈ [(⟨0xFDE90064⟩ : Community)]) := by
  intro shown
  have htexts : shown.communities.map Community.toString = ["no-export", "65001:100"] := by decide
  refine ⟨htexts ▸ shown_communities_match.2.1 shown (by decide), ?_⟩
  exact shown_communities_match.2.2 sampleLists "no-export-comms" _ [] shown.communities _ rfl htexts.symm

end Matching

end PathForge.Policy
