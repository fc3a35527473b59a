import PathForge.PrefixContainment

namespace PathForge.Policy

open Wire Routing

section Lists

variable {α : Type} {P : α → Prop} {l : List α} {a x : α}

def FirstMatch (P : α → Prop) (l : List α) (a : α) : Prop :=
  ∃ before after, l = before ++ a :: after ∧ (∀ x ∈ before, ¬ P x) ∧ P a

theorem not_firstMatch_nil : ¬ FirstMatch P [] a := by
  rintro ⟨before, after, h, -⟩
  simp at h

theorem firstMatch_cons_pos (hx : P x) : FirstMatch P (x :: l) a ↔ a = x := by
  constructor
  · rintro ⟨before, after, h, hb, -⟩
    cases before with
    | nil => exact (List.cons.inj h).1.symm
    | cons y before =>
      obtain rfl := (List.cons.inj h).1
      exact absurd hx (hb x List.mem_cons_self)
  · rintro rfl
    exact ⟨[], l, rfl, fun _ h => absurd h List.not_mem_nil, hx⟩

theorem firstMatch_cons_neg (hx : ¬ P x) : FirstMatch P (x :: l) a ↔ FirstMatch P l a := by
  constructor
  · rintro ⟨before, after, h, hb, ha⟩
    cases before with
    | nil =>
      obtain rfl := (List.cons.inj h).1
      exact absurd ha hx
    | cons y before => exact ⟨before, after, (List.cons.inj h).2, fun z hz => hb z (List.mem_cons_of_mem y hz), ha⟩
  · rintro ⟨before, after, rfl, hb, ha⟩
    exact ⟨x :: before, after, rfl, List.forall_mem_cons.mpr ⟨hx, hb⟩, ha⟩

theorem find?_eq_some_iff_firstMatch {p : α → Bool} : l.find? p = some a ↔
    FirstMatch (fun x => p x = true) l a := by
  rw [List.find?_eq_some_iff_append]
  constructor
  · rintro ⟨ha, before, after, rfl, hb⟩
    exact ⟨before, after, rfl, fun x hx => by simpa using hb x hx, ha⟩
  · rintro ⟨before, after, rfl, hb, ha⟩
    exact ⟨ha, before, after, rfl, fun x hx => by simpa using hb x hx⟩

end Lists

variable {entry : PrefixListEntry} {p : Prefix} {attrs : PathAttributes}

def PrefixListEntry.Matches (entry : PrefixListEntry) (p : Prefix) : Prop :=
  ∃ net n, parsePrefix entry.pfx = some (net, n) ∧ n ≤ 32 ∧ network p.address p.prefixLen ⊆ network net n ∧
    max n.toNat (entry.ge.getD n).toNat ≤ p.prefixLen.toNat ∧
    p.prefixLen ≤ entry.le.getD (if entry.ge.isSome then 32 else n)

namespace PolicyEngine

theorem bounds_iff {n pl : UInt8} {ge le : Option UInt8} (hn : n ≤ pl) (hp : pl ≤ 32) :
    ((ge.map fun ge => decide (ge ≤ pl)).getD true && (le.map fun le => decide (pl ≤ le)).getD true &&
      if ge.isNone && le.isNone then pl == n else true) = true ↔
      max n.toNat (ge.getD n).toNat ≤ pl.toNat ∧ pl ≤ le.getD (if ge.isSome then 32 else n) := by
  have heq : pl = n ↔ pl ≤ n := ⟨fun h => UInt8.le_of_eq h, fun h => UInt8.le_antisymm h hn⟩
  rw [Nat.max_le, ← UInt8.le_iff_toNat_le, ← UInt8.le_iff_toNat_le, and_iff_right hn]
  rcases ge with _ | ge
  · rcases le with _ | le
    · simp [hn, heq]
    · simp [hn]
  · rcases le with _ | le
    · simp [hp]
    · simp

theorem matchesEntry_spec (hp : p.prefixLen ≤ 32) (entry : PrefixListEntry) :
    ∃ b, matchesEntry entry p = some b ∧ (b = true ↔ entry.Matches p) := by
  rcases hs : parsePrefix entry.pfx with _ | ⟨net, n⟩
  · refine ⟨false, by rw [matchesEntry, hs], ?_⟩
    simp [PrefixListEntry.Matches, hs]
  · have hiff : entry.Matches p ↔ n ≤ 32 ∧ network p.address p.prefixLen ⊆ network net n ∧
        max n.toNat (entry.ge.getD n).toNat ≤ p.prefixLen.toNat ∧
        p.prefixLen ≤ entry.le.getD (if entry.ge.isSome then 32 else n) := by
      simp [PrefixListEntry.Matches, hs]
    simp only [hiff, matchesEntry, hs]
    by_cases hn : n ≤ 32
    · rw [isSubnet_eq hn, network_subset_iff hn]
      by_cases hsub : n ≤ p.prefixLen ∧ SameNet n p.address net
      · refine ⟨_, by rw [decide_eq_true hsub]; rfl, ?_⟩
        rw [bounds_iff hsub.1 hp]
        simp [hn, hsub]
      · exact ⟨false, by rw [decide_eq_false hsub]; rfl, by simp [hsub]⟩
    · -- a length beyond that of any route: the test stops at the comparison of the lengths
      have hlt : p.prefixLen < n := UInt8.lt_of_le_of_lt hp (UInt8.not_le.mp hn)
      exact ⟨false, by rw [isSubnet, if_pos hlt]; rfl, by simp [hn]⟩

theorem evaluateEntries_spec (hp : p.prefixLen ≤ 32) (entries : List PrefixListEntry) :
    ∃ b, evaluateEntries p entries = some b ∧
      (b = true ↔ ∃ entry, FirstMatch (fun e => e.Matches p) entries entry ∧ entry.action = .permit) := by
  induction entries with
  | nil => exact ⟨false, rfl, by simp [not_firstMatch_nil]⟩
  | cons entry entries ih =>
    obtain ⟨b, hb, hm⟩ := matchesEntry_spec hp entry
    rw [evaluateEntries, hb]
    by_cases h : b = true
    · have hfirst (x : PrefixListEntry) : FirstMatch (fun e => e.Matches p) (entry :: entries) x ↔ x = entry :=
        firstMatch_cons_pos (hm.mp h)
      refine ⟨entry.action == .permit, by simp [h], ?_⟩
      simp only [hfirst, exists_eq_left, beq_iff_eq]
    · have hmatch : ¬ entry.Matches p := fun hc => h (hm.mpr hc)
      have hfirst (x : PrefixListEntry) : FirstMatch (fun e => e.Matches p) (entry :: entries) x ↔
          FirstMatch (fun e => e.Matches p) entries x := firstMatch_cons_neg hmatch
      simp only [hfirst]
      simpa [h] using ih

theorem apply_permits_iff (e : PolicyEngine) (policyName : String) (hp : p.prefixLen ≤ 32)
    (attrs : PathAttributes) :
    ∃ accepted, e.apply policyName p attrs = some accepted ∧
      (accepted = true ↔ (∀ list ∈ e.policy.prefixLists, list.name ≠ policyName) ∨
        ∃ list entry, FirstMatch (fun l => l.name = policyName) e.policy.prefixLists list ∧
          FirstMatch (fun e => e.Matches p) list.entries entry ∧ entry.action = .permit) := by
  rcases hf : e.policy.prefixLists.find? (fun l => l.name == policyName) with _ | list
  · have hnone : ∀ list ∈ e.policy.prefixLists, list.name ≠ policyName := by simpa using hf
    exact ⟨true, by rw [apply, hf], iff_of_true rfl (Or.inl hnone)⟩
  · obtain ⟨b, hb, hspec⟩ := evaluateEntries_spec hp list.entries
    have hfirst : FirstMatch (fun l => l.name = policyName) e.policy.prefixLists list := by
      simpa using find?_eq_some_iff_firstMatch.mp hf
    refine ⟨b, by rw [apply, hf]; exact hb, hspec.trans ?_⟩
    constructor
    · rintro ⟨entry, hentry⟩
      exact Or.inr ⟨list, entry, hfirst, hentry⟩
    · rintro (hnone | ⟨list', entry, hfirst', hentry⟩)
      · obtain ⟨before, after, hl, -, hn⟩ := hfirst
        exact absurd hn (hnone list (by rw [hl]; simp))
      · have hf' : e.policy.prefixLists.find? (fun l => l.name == policyName) = some list' := by
          rw [find?_eq_some_iff_firstMatch]
          simpa using hfirst'
        obtain rfl := Option.some.inj (hf.symm.trans hf')
        exact ⟨entry, hentry⟩

def sampleEngine : PolicyEngine :=
  ⟨⟨[⟨"allow-rfc1918", [⟨.deny, "10.0.0.0", none, none⟩, ⟨.permit, "10.0.0.0/8", some 8, some 24⟩]⟩], []⟩⟩

theorem apply_permits_slash16 :
    (16 : UInt8) ≤ 32 ∧ sampleEngine.apply "allow-rfc1918" ⟨16, .new 10 1 0 0⟩ {} = some true := by
  have hp : (16 : UInt8) ≤ 32 := by decide
  obtain ⟨accepted, happly, hiff⟩ :=
    apply_permits_iff sampleEngine "allow-rfc1918" (p := ⟨16, .new 10 1 0 0⟩) hp {}
  have hmatch : PrefixListEntry.Matches ⟨.permit, "10.0.0.0/8", some 8, some 24⟩ ⟨16, .new 10 1 0 0⟩ :=
    ⟨.new 10 0 0 0, 8, by decide, by decide, (network_subset_iff (by decide)).mpr
      (by decide), by decide, by decide⟩
  have hskip : ¬ PrefixListEntry.Matches ⟨.deny, "10.0.0.0", none, none⟩ ⟨16, .new 10 1 0 0⟩ := by
    rintro ⟨net, n, hs, -⟩
    exact absurd hs (by rw [show parsePrefix "10.0.0.0" = none by decide]; simp)
  have hfirst : FirstMatch (fun e : PrefixListEntry => e.Matches ⟨16, .new 10 1 0 0⟩)
      [⟨.deny, "10.0.0.0", none, none⟩, ⟨.permit, "10.0.0.0/8", some 8, some 24⟩] _ :=
    ⟨[_], [], rfl, List.forall_mem_singleton.mpr hskip, hmatch⟩
  have haccepted := hiff.mpr (Or.inr ⟨_, _, ⟨[], [], rfl, fun _ h => absurd h List.not_mem_nil, rfl⟩, hfirst, rfl⟩)
  exact ⟨hp, happly.trans (congrArg some haccepted)⟩

end PolicyEngine

end PathForge.Policy
