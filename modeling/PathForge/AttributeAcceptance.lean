import PathForge.AttributePassThrough
import PathForge.UpdateMessages

namespace PathForge.Wire

open Fallible ByteReader

section Words

theorem exists_putU16 {v : Bytes} (h : 2 ≤ v.length) : ∃ n rest, v = putU16 n ++ rest := by
  have hr : (getU16 : Reader AttrError UInt16).run v = some (.ok (UInt16.ofNat (beNat (v.take 2))), v.drop 2) :=
    run_bind_ok _ (if_pos h)
  exact ⟨_, _, run_getU16_eq_ok.mp hr⟩

theorem exists_putU32 {v : Bytes} (h : 4 ≤ v.length) : ∃ n rest, v = putU32 n ++ rest := by
  have hr : (getU32 : Reader AttrError UInt32).run v = some (.ok (UInt32.ofNat (beNat (v.take 4))), v.drop 4) :=
    run_bind_ok _ (if_pos h)
  exact ⟨_, _, run_getU32_eq_ok.mp hr⟩

theorem exists_words (v : Bytes) : ∃ (xs : List UInt32) (rest : Bytes), v = xs.flatMap putU32 ++ rest ∧
    rest.length < 4 := by
  induction hn : v.length using Nat.strong_induction_on generalizing v with
  | _ n ih =>
    by_cases h : v.length < 4
    · exact ⟨[], v, rfl, h⟩
    · obtain ⟨x, v', rfl⟩ := exists_putU32 (Nat.not_lt.mp h)
      rw [List.length_append, putU32_length] at hn
      obtain ⟨xs, rest, rfl, hrest⟩ := ih v'.length (by omega) v' rfl
      exact ⟨x :: xs, rest, by rw [List.flatMap_cons, List.append_assoc], hrest⟩

end Words

def Segments (n : ℕ) (v : Bytes) : Prop :=
  ∃ (segs : List AsPathSegment) (rest : Bytes), v = segs.flatMap AsPathSegment.serialize ++ rest ∧
    rest.length < n ∧
    ∀ seg ∈ segs, seg.asNumbers.length < 256

namespace RawAttribute

def Accepted (raw : RawAttribute) : Prop :=
  match raw.typeCode.toNat with
  | 1 => ∃ o rest, raw.value = o :: rest ∧ o.toNat ≤ 2
  | 2 => Segments 2 raw.value
  | 3 | 4 | 5 | 9 => 4 ≤ raw.value.length
  | 7 => 6 ≤ raw.value.length
  | _ => True

def Tight (raw : RawAttribute) : Prop :=
  match raw.typeCode.toNat with
  | 1 => raw.value.length = 1
  | 2 => Segments 1 raw.value
  | 3 | 4 | 5 | 9 => raw.value.length = 4
  | 6 => raw.value.length = 0
  | 7 => raw.value.length = 6
  | 8 | 10 => 4 ∣ raw.value.length
  | _ => True

def Void (raw : RawAttribute) : Prop :=
  raw.typeCode.toNat = 2 ∧ raw.value.length < 2 ∨
    (raw.typeCode.toNat = 8 ∨ raw.typeCode.toNat = 10) ∧ raw.value.length < 4

end RawAttribute

theorem exists_u32Value {v : Bytes} (h : 4 ≤ v.length) (s : Bytes) :
    ∃ n, (u32Value v).run s = some (.ok n, s) := by
  obtain ⟨n, rest, rfl⟩ := exists_putU32 h
  refine ⟨n, run_within_ok s (outcome_eq_some.mpr ⟨rest, ?_⟩)⟩
  rw [run_bind_ok _ (run_check h)]
  exact reads_getU32 n rest

theorem le_of_u32Value {v s t : Bytes} {n : UInt32} (h : (u32Value v).run s = some (.ok n, t)) : 4 ≤ v.length := by
  obtain ⟨u, hu⟩ := outcome_eq_some.mp (run_within_eq_ok.mp h).2
  obtain ⟨_, w, hw, -⟩ := run_bind_eq_ok.mp hu
  exact (run_ensure_eq_ok.mp hw).1

theorem exists_aggregatorValue {v : Bytes} (h : 6 ≤ v.length) (s : Bytes) :
    ∃ r, (aggregatorValue v).run s = some (.ok r, s) := by
  obtain ⟨asn, rest, rfl⟩ := exists_putU16 (v := v) (by omega)
  have hr : 4 ≤ rest.length := by
    rw [List.length_append, putU16_length] at h
    omega
  obtain ⟨ip, rest, rfl⟩ := exists_putU32 hr
  refine ⟨(asn, .ofU32 ip), run_within_ok s (outcome_eq_some.mpr ⟨rest, ?_⟩)⟩
  rw [run_bind_ok _ (run_check h), run_bind_ok _ (reads_getU16 asn _),
    run_bind_ok _ (reads_getU32 ip rest), run_pure]

theorem le_of_aggregatorValue {v s t : Bytes} {r : UInt16 × Ipv4Addr}
    (h : (aggregatorValue v).run s = some (.ok r, t)) : 6 ≤ v.length := by
  obtain ⟨u, hu⟩ := outcome_eq_some.mp (run_within_eq_ok.mp h).2
  obtain ⟨_, w, hw, -⟩ := run_bind_eq_ok.mp hu
  exact (run_ensure_eq_ok.mp hw).1

theorem Origin.exists_tryFrom_iff {v : UInt8} : (∃ o, Origin.tryFrom v = .ok o) ↔ v.toNat ≤ 2 := by
  constructor
  · rintro ⟨o, h⟩
    unfold tryFrom at h
    split at h
    · omega
    · omega
    · omega
    · cases h
  · intro h
    have hcases : v.toNat = 0 ∨ v.toNat = 1 ∨ v.toNat = 2 := by omega
    unfold tryFrom
    rcases hcases with hv | hv | hv
    · exact ⟨.igp, by simp only [hv]⟩
    · exact ⟨.egp, by simp only [hv]⟩
    · exact ⟨.incomplete, by simp only [hv]⟩

section Lists

theorem run_pushWords {α : Type} (f : UInt32 → α) (acc : List α) (v s : Bytes) :
    ∃ l, (within v (pushWhile 4 (getU32 >>= fun n => pure (f n)) acc) : Reader AttrError _).run s =
      some (.ok l, s) ∧
      (l = [] ↔ acc = [] ∧ v.length < 4) := by
  obtain ⟨xs, rest, rfl, hrest⟩ := exists_words v
  have hr : (pushWhile 4 (getU32 >>= fun n => pure (f n)) acc : Reader AttrError _).run
      (xs.flatMap putU32 ++ rest) =
      some (.ok (xs.foldl (fun acc n => acc ++ [f n]) acc), rest) := by
    apply loop_flatMap (pushWhile_decreases consumes_wordItem)
    · intro n _ acc b
      refine ⟨by simp, ?_⟩
      rw [push, run_bind_ok _ ((reads_getU32 n).map b), run_pure]
    · intro acc
      simpa using hrest
  refine ⟨_, run_within_ok s (outcome_eq_some.mpr ⟨rest, hr⟩), ?_⟩
  rw [List.foldl_append_eq_append, List.append_eq_nil_iff, ← List.flatMap_def, List.length_append]
  have hl : (xs.flatMap putU32).length = 4 * xs.length := flatMap_putU32_length (fun n => n) xs
  cases xs with
  | nil => simp [hrest]
  | cons x xs =>
    rw [hl, List.length_cons]
    simp
    omega

theorem pushWords_eq_nil_iff {α : Type} {f : UInt32 → α} {acc l : List α} {v s t : Bytes}
    (h : (within v (pushWhile 4 (getU32 >>= fun n => pure (f n)) acc) : Reader AttrError _).run s =
      some (.ok l, t)) :
    l = [] ↔ acc = [] ∧ v.length < 4 := by
  obtain ⟨l', hl', hnil⟩ := run_pushWords f acc v s
  rw [hl'] at h
  simp only [Option.some.injEq, Prod.mk.injEq, Except.ok.injEq] at h
  rwa [← h.1]

theorem pushSegments_spec {v s t : Bytes} {acc l : List AsPathSegment}
    (h : (within v (pushWhile 2 AsPathSegment.parse acc)).run s = some (.ok l, t)) :
    Segments 2 v ∧ (l = [] ↔ acc = [] ∧ v.length < 2) := by
  obtain ⟨rest, hr⟩ := outcome_eq_some.mp (run_within_eq_ok.mp h).2
  obtain ⟨hrest, segs, rfl, rfl, hsegs⟩ := pushWhile_sound AsPathSegment.consumes_parse
    (fun s x t hx => (AsPathSegment.run_parse_eq_ok.mp hx).symm) hr
  refine ⟨⟨segs, rest, rfl, hrest, hsegs⟩, ?_⟩
  cases segs with
  | nil => simp [hrest]
  | cons seg segs => simp [AsPathSegment.serialize]

theorem exists_pushSegments {v : Bytes} (h : Segments 2 v) (acc : List AsPathSegment) (s : Bytes) :
    ∃ l, (within v (pushWhile 2 AsPathSegment.parse acc)).run s = some (.ok l, s) := by
  obtain ⟨segs, rest, rfl, hrest, hsegs⟩ := h
  have hitems : ∀ seg ∈ segs, Reads AsPathSegment.parse seg.serialize seg ∧ 2 ≤ seg.serialize.length := by
    intro seg hseg
    exact ⟨fun t => AsPathSegment.run_parse_eq_ok.mpr ⟨hsegs seg hseg, rfl⟩, by simp [AsPathSegment.serialize]⟩
  exact ⟨_, run_within_ok s (outcome_eq_some.mpr ⟨rest, run_pushWhile AsPathSegment.consumes_parse hitems hrest⟩)⟩

end Lists

namespace PathAttributes

variable {a a' : PathAttributes} {raw : RawAttribute} {s t : Bytes}

theorem isEmpty_iff : a.isEmpty = true ↔ a = {} := by
  obtain ⟨origin, asPath, nextHop, med, localPref, atomicAggregate, aggregator, communities, originatorId,
      clusterList,
    unknown⟩ := a
  simp [isEmpty, and_assoc]

theorem exists_store (h : raw.Accepted) (a : PathAttributes) (s : Bytes) :
    ∃ a', (a.store raw).run s = some (.ok a', s) := by
  have field {α : Type} {x : Reader AttrError α} (f : α → PathAttributes) (hx : ∃ v, x.run s = some (.ok v, s)) :
      ∃ a', (x >>= fun v => pure (f v)).run s = some (.ok a', s) := by
    obtain ⟨v, hv⟩ := hx
    exact ⟨f v, by rw [run_bind_ok _ hv, run_pure]⟩
  unfold RawAttribute.Accepted at h
  unfold store
  split <;> rename_i ht <;> simp only [ht] at h
  case h_1 =>
    obtain ⟨o, rest, hv, ho⟩ := h
    rw [hv]
    apply field
    obtain ⟨v, hv⟩ := Origin.exists_tryFrom_iff.mpr ho
    exact ⟨v, by rw [run_ofExcept, hv]⟩
  case h_2 => exact field _ (exists_pushSegments h a.asPath s)
  case h_6 => exact ⟨_, rfl⟩
  case h_7 => exact field _ (exists_aggregatorValue h s)
  case h_8 =>
    obtain ⟨l, hl, -⟩ := run_pushWords Community.mk a.communities raw.value s
    exact field _ ⟨l, hl⟩
  case h_10 =>
    obtain ⟨l, hl, -⟩ := run_pushWords Ipv4Addr.ofU32 a.clusterList raw.value s
    exact field _ ⟨l, hl⟩
  case h_11 => exact ⟨_, rfl⟩
  all_goals exact field _ (exists_u32Value h s)

theorem store_spec (h : (a.store raw).run s = some (.ok a', t)) :
    raw.Accepted ∧ (a' = {} ↔ a = {} ∧ raw.Void) := by
  unfold store at h
  unfold RawAttribute.Accepted RawAttribute.Void
  split at h <;> rename_i ht <;> simp only [ht]
  case h_1 =>
    split at h
    · simp at h
    · rename_i o rest hv
      obtain ⟨v, u, ho, hp⟩ := run_bind_eq_ok.mp h
      obtain ⟨rfl, -⟩ := run_pure_eq_ok.mp hp
      simp only [run_ofExcept, Option.some.injEq, Prod.mk.injEq] at ho
      exact ⟨⟨o, rest, hv, Origin.exists_tryFrom_iff.mp ⟨v, ho.1⟩⟩, by simp⟩
  case h_2 =>
    obtain ⟨segs, u, hs, hp⟩ := run_bind_eq_ok.mp h
    obtain ⟨rfl, -⟩ := run_pure_eq_ok.mp hp
    obtain ⟨hsegs, hnil⟩ := pushSegments_spec hs
    refine ⟨hsegs, ?_⟩
    rw [← isEmpty_iff, ← isEmpty_iff]
    simp [isEmpty, hnil]
    tauto
  case h_6 =>
    obtain ⟨rfl, -⟩ := run_pure_eq_ok.mp h
    simp
  case h_7 =>
    obtain ⟨v, u, hv, hp⟩ := run_bind_eq_ok.mp h
    obtain ⟨rfl, -⟩ := run_pure_eq_ok.mp hp
    exact ⟨le_of_aggregatorValue hv, by simp⟩
  case h_8 =>
    obtain ⟨cs, u, hs, hp⟩ := run_bind_eq_ok.mp h
    obtain ⟨rfl, -⟩ := run_pure_eq_ok.mp hp
    have hnil := pushWords_eq_nil_iff hs
    rw [← isEmpty_iff, ← isEmpty_iff]
    simp [isEmpty, hnil]
    tauto
  case h_10 =>
    obtain ⟨ids, u, hs, hp⟩ := run_bind_eq_ok.mp h
    obtain ⟨rfl, -⟩ := run_pure_eq_ok.mp hp
    have hnil := pushWords_eq_nil_iff hs
    rw [← isEmpty_iff, ← isEmpty_iff]
    simp [isEmpty, hnil]
    tauto
  case h_11 h2 _ _ _ _ _ h8 _ =>
    obtain ⟨rfl, -⟩ := run_pure_eq_ok.mp h
    have h10 : raw.typeCode.toNat ≠ 10 := ht
    simp [h10]
    tauto
  all_goals
    obtain ⟨v, u, hv, hp⟩ := run_bind_eq_ok.mp h
    obtain ⟨rfl, -⟩ := run_pure_eq_ok.mp hp
    exact ⟨le_of_u32Value hv, by simp⟩

structure Loose (b : Bytes) (raws : List RawAttribute) (rest : Bytes) : Prop where
  split : b = raws.flatMap RawAttribute.octets ++ rest
  rest_lt : rest.length < 3
  accepted : ∀ raw ∈ raws, raw.Fits ∧ raw.Accepted

theorem Loose.splitAttributes_eq {b rest : Bytes} {raws : List RawAttribute} (h : Loose b raws rest) :
    splitAttributes b = raws := by
  rw [h.split]
  exact splitAttributes_octets (fun raw hraw => (h.accepted raw hraw).1) h.rest_lt

theorem exists_parseFrom {raws : List RawAttribute} {rest : Bytes} (hrest : rest.length < 3)
    (h : ∀ raw ∈ raws, raw.Fits ∧ raw.Accepted) (a : PathAttributes) :
    ∃ a', a.parseFrom.run (raws.flatMap RawAttribute.octets ++ rest) = some (.ok a', rest) := by
  induction raws generalizing a with
  | nil => exact ⟨a, loop_stop parseFrom_decreases (by simpa using hrest)⟩
  | cons raw raws ih =>
    obtain ⟨hfits, hacc⟩ := h raw List.mem_cons_self
    obtain ⟨a₁, ha₁⟩ := exists_store hacc a (raws.flatMap RawAttribute.octets ++ rest)
    obtain ⟨a', ha'⟩ := ih (fun r hr => h r (List.mem_cons_of_mem raw hr)) a₁
    refine ⟨a', ?_⟩
    rw [List.flatMap_cons, List.append_assoc, parseFrom_octets hfits ha₁]
    exact ha'

theorem Loose.exists_parse {b rest : Bytes} {raws : List RawAttribute} (h : Loose b raws rest) :
    ∃ a, parse.outcome b = some (.ok a) := by
  obtain ⟨a, ha⟩ := exists_parseFrom h.rest_lt h.accepted {}
  exact ⟨a, outcome_eq_some.mpr ⟨rest, by rw [h.split]; exact ha⟩⟩

structure Taken (b : Bytes) (raws : List RawAttribute) (a : PathAttributes) (rest : Bytes) : Prop where
  split : b = raws.flatMap RawAttribute.octets ++ rest
  accepted : ∀ raw ∈ raws, raw.Fits ∧ raw.Accepted
  empty_iff : a = {} ↔ ∀ raw ∈ raws, raw.Void

theorem Taken.round {b : Bytes} {raws : List RawAttribute} (ht : Taken b raws a s)
    (h : a.parseRound.run s = some (.ok a', t)) : ∃ raw, Taken b (raws ++ [raw]) a' t := by
  obtain ⟨raw, u, hraw, hs⟩ := run_bind_eq_ok.mp h
  obtain ⟨hfits, rfl⟩ := RawAttribute.run_parse_eq_ok.mp hraw
  obtain rfl := store_rest hs
  obtain ⟨hacc, hempty⟩ := store_spec hs
  refine ⟨raw, by simp [ht.split], ?_, ?_⟩
  · intro r hr
    rcases List.mem_append.mp hr with hr | hr
    · exact ht.accepted r hr
    · rw [List.mem_singleton.mp hr]
      exact ⟨hfits, hacc⟩
  · rw [hempty, ht.empty_iff, List.forall_mem_append, List.forall_mem_singleton]

theorem loose_of_parse {b : Bytes} (h : parse.outcome b = some (.ok a)) :
    ∃ raws rest, Loose b raws rest ∧ (a = {} ↔ ∀ raw ∈ raws, raw.Void) := by
  obtain ⟨rest, hr⟩ := outcome_eq_some.mp h
  have hinv : (∃ raws, Taken b raws a rest) ∧ decide (3 ≤ rest.length) = false := by
    apply loop_invariant (I := fun a t => ∃ raws, Taken b raws a t) parseFrom_decreases _ _ hr
    · rintro a s a' t ⟨raws, ht⟩ _ hround
      obtain ⟨raw, ht'⟩ := ht.round hround
      exact ⟨_, ht'⟩
    · exact ⟨[], by simp, by simp, by simp⟩
  obtain ⟨⟨raws, ht⟩, hlt⟩ := hinv
  exact ⟨raws, rest, ⟨ht.split, by simpa using hlt, ht.accepted⟩, ht.empty_iff⟩

/-- A byte string is a row of whole attributes, with no octet between, in or behind them left unread. -/
def ReadWhole (b : Bytes) : Prop := ∃ raws : List RawAttribute, b = raws.flatMap RawAttribute.octets ∧
  ∀ raw ∈ raws, raw.Fits ∧ raw.Tight

/-- Attributes that each have the octets they need, and one or two octets behind them or too many in one of
them. -/
def Surplus (b : Bytes) : Prop := ∃ raws rest, Loose b raws rest ∧ (rest ≠ [] ∨ ∃ raw ∈ raws, ¬ raw.Tight)

theorem Surplus.not_readWhole {b : Bytes} (h : Surplus b) : ¬ ReadWhole b := by
  rintro ⟨raws', hb, htight⟩
  obtain ⟨raws, rest, hloose, hs⟩ := h
  have heq : raws' = raws := by
    rw [← hloose.splitAttributes_eq, hb]
    have hs : splitAttributes (raws'.flatMap RawAttribute.octets ++ []) = raws' :=
      splitAttributes_octets (fun raw hraw => (htight raw hraw).1) (by decide)
    rw [List.append_nil] at hs
    exact hs.symm
  subst heq
  have hrest : rest = [] := by
    have hsplit := hloose.split
    rw [hb] at hsplit
    exact List.self_eq_append_right.mp hsplit
  rcases hs with hs | ⟨raw, hraw, hs⟩
  · exact hs hrest
  · exact hs (htight raw hraw).2

theorem readWhole_of_parse {b : Bytes} (hs : ¬ Surplus b) (h : parse.outcome b = some (.ok a)) : ReadWhole b := by
  obtain ⟨raws, rest, hloose, -⟩ := loose_of_parse h
  have hrest : rest = [] := by
    by_contra hne
    exact hs ⟨raws, rest, hloose, Or.inl hne⟩
  refine ⟨raws, by rw [hloose.split, hrest, List.append_nil], ?_⟩
  intro raw hraw
  refine ⟨(hloose.accepted raw hraw).1, ?_⟩
  by_contra ht
  exact hs ⟨raws, rest, hloose, Or.inr ⟨raw, hraw, ht⟩⟩

theorem parse_readWhole_iff (b : Bytes) :
    ((∀ a, parse.outcome b = some (.ok a) → ReadWhole b) ∧
      (¬ ReadWhole b → ∃ e, parse.outcome b = some (.error e))) ↔ ¬ Surplus b := by
  constructor
  · rintro ⟨hok, -⟩ hs
    obtain ⟨raws, rest, hloose, -⟩ := id hs
    obtain ⟨a, ha⟩ := hloose.exists_parse
    exact hs.not_readWhole (hok a ha)
  · intro hs
    refine ⟨fun a => readWhole_of_parse hs, ?_⟩
    intro hw
    rcases hp : parse.outcome b with _ | r
    · exact absurd (outcome_eq_none.mp hp) (run_parse_ne_none b)
    · cases r with
      | error e => exact ⟨e, rfl⟩
      | ok a => exact absurd (readWhole_of_parse hs hp) hw

def longOrigin : RawAttribute := ⟨0x40, 1, [0, 7]⟩

theorem parse_longOrigin :
    parse.outcome [0x40, 1, 2, 0, 7] = some (.ok { origin := some .igp }) ∧ ¬ ReadWhole [0x40, 1, 2, 0, 7] := by
  have hacc : longOrigin.Fits ∧ longOrigin.Accepted :=
    ⟨by unfold RawAttribute.Fits; decide, 0, [7], rfl, by decide⟩
  have htight : ¬ longOrigin.Tight := fun h : [(0 : UInt8), 7].length = 1 => absurd h (by decide)
  refine ⟨by decide, Surplus.not_readWhole ⟨[longOrigin], [], ⟨by decide, by decide, ?_⟩, Or.inr ⟨_, ?_, htight⟩⟩⟩
  · exact List.forall_mem_singleton.mpr hacc
  · exact List.mem_singleton_self longOrigin

end PathAttributes

end PathForge.Wire
