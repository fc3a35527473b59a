import PathForge.AttributeAcceptance
import PathForge.KeyedRuns

namespace PathForge.Wire

open Fallible ByteReader Keyed

inductive AttrField where
  | origin | asPath | nextHop | multiExitDisc | localPref | atomicAggregate | aggregator | communities
  | originatorId | clusterList | unknown
  deriving DecidableEq

def RawAttribute.field (raw : RawAttribute) : AttrField :=
  match raw.typeCode.toNat with
  | 1 => .origin
  | 2 => .asPath
  | 3 => .nextHop
  | 4 => .multiExitDisc
  | 5 => .localPref
  | 6 => .atomicAggregate
  | 7 => .aggregator
  | 8 => .communities
  | 9 => .originatorId
  | 10 => .clusterList
  | _ => .unknown

namespace PathAttributes

variable {a a' c : PathAttributes} {raw : RawAttribute} {s t : Bytes}

def transplant (a c : PathAttributes) : AttrField → PathAttributes
  | .origin => { c with origin := a.origin }
  | .asPath => { c with asPath := a.asPath }
  | .nextHop => { c with nextHop := a.nextHop }
  | .multiExitDisc => { c with multiExitDisc := a.multiExitDisc }
  | .localPref => { c with localPref := a.localPref }
  | .atomicAggregate => { c with atomicAggregate := a.atomicAggregate }
  | .aggregator => { c with aggregator := a.aggregator }
  | .communities => { c with communities := a.communities }
  | .originatorId => { c with originatorId := a.originatorId }
  | .clusterList => { c with clusterList := a.clusterList }
  | .unknown => { c with unknown := a.unknown }

def SameField (a c : PathAttributes) : AttrField → Prop
  | .origin => a.origin = c.origin
  | .asPath => a.asPath = c.asPath
  | .nextHop => a.nextHop = c.nextHop
  | .multiExitDisc => a.multiExitDisc = c.multiExitDisc
  | .localPref => a.localPref = c.localPref
  | .atomicAggregate => a.atomicAggregate = c.atomicAggregate
  | .aggregator => a.aggregator = c.aggregator
  | .communities => a.communities = c.communities
  | .originatorId => a.originatorId = c.originatorId
  | .clusterList => a.clusterList = c.clusterList
  | .unknown => a.unknown = c.unknown

variable {k k' : AttrField}

theorem sameField_transplant (k : AttrField) : SameField a (transplant a c k) k := by
  cases k <;> rfl

theorem sameField_of_ne (h : k' ≠ k) : SameField c (transplant a c k) k' := by
  cases k <;> cases k' <;> first | rfl | exact absurd rfl h

theorem SameField.refl (a : PathAttributes) (k : AttrField) : SameField a a k := by
  cases k <;> rfl

theorem SameField.symm (h : SameField a c k) : SameField c a k := by
  cases k <;> exact Eq.symm h

theorem SameField.trans (h : SameField a a' k) (h' : SameField a' c k) : SameField a c k := by
  cases k <;> exact Eq.trans h h'

theorem eq_of_sameField (h : ∀ k, SameField a c k) : a = c := by
  cases a
  cases c
  rw [mk.injEq]
  exact ⟨h .origin, h .asPath, h .nextHop, h .multiExitDisc, h .localPref, h .atomicAggregate, h .aggregator,
    h .communities, h .originatorId, h .clusterList, h .unknown⟩

section Store

theorem run_value {α : Type} {x : Reader AttrError α} {f : α → PathAttributes} {v : Bytes}
    (h : (within v x >>= fun n => pure (f n)).run s = some (.ok a', t)) (u : Bytes) :
    ∃ n, a' = f n ∧ ∀ g : α → PathAttributes, (within v x >>= fun n => pure (g n)).run u =
      some (.ok (g n), u) := by
  obtain ⟨n, w, hn, hp⟩ := run_bind_eq_ok.mp h
  obtain ⟨-, ho⟩ := run_within_eq_ok.mp hn
  refine ⟨n, (run_pure_eq_ok.mp hp).1.symm, ?_⟩
  intro g
  rw [run_bind_ok _ (run_within_ok u ho), run_pure]

theorem store_transplant (h : (a.store raw).run s = some (.ok a', t)) (hc : SameField a c raw.field) (u : Bytes) :
    (c.store raw).run u = some (.ok (transplant a' c raw.field), u) := by
  unfold RawAttribute.field at hc ⊢
  unfold store at h ⊢
  split at h <;> rename_i ht <;> simp only [ht] at hc ⊢
  case h_1 =>
    cases hv : raw.value with
    | nil => simp [hv] at h
    | cons v rest =>
      simp only [hv] at h ⊢
      obtain ⟨o, w, ho, hp⟩ := run_bind_eq_ok.mp h
      simp only [run_ofExcept, Option.some.injEq, Prod.mk.injEq] at ho
      obtain ⟨rfl, -⟩ := run_pure_eq_ok.mp hp
      rw [ho.1]
      rfl
  case h_2 =>
    rw [← show a.asPath = c.asPath from hc]
    obtain ⟨segs, rfl, hrun⟩ := run_value h u
    exact hrun _
  case h_8 =>
    rw [← show a.communities = c.communities from hc]
    obtain ⟨cs, rfl, hrun⟩ := run_value h u
    exact hrun _
  case h_10 =>
    rw [← show a.clusterList = c.clusterList from hc]
    obtain ⟨ids, rfl, hrun⟩ := run_value h u
    exact hrun _
  case h_6 =>
    obtain ⟨rfl, -⟩ := run_pure_eq_ok.mp h
    rfl
  case h_11 =>
    obtain ⟨rfl, -⟩ := run_pure_eq_ok.mp h
    rw [← show a.unknown = c.unknown from hc]
    rfl
  all_goals
    obtain ⟨n, rfl, hrun⟩ := run_value h u
    exact hrun _

def stored (a : PathAttributes) (raw : RawAttribute) : Option PathAttributes :=
  match (a.store raw).outcome [] with
  | some (.ok a') => some a'
  | _ => none

theorem transplant_stored (h : (a.store raw).run s = some (.ok a', t)) : transplant a' a raw.field = a' := by
  have hown := store_transplant h (.refl a _) s
  rw [h] at hown
  simp only [Option.some.injEq, Prod.mk.injEq, Except.ok.injEq] at hown
  exact hown.1.symm

theorem stored_of_run (h : (a.store raw).run s = some (.ok a', t)) : a.stored raw = some a' := by
  have hown := store_transplant h (.refl a _) []
  rw [transplant_stored h] at hown
  simp only [stored, outcome_eq_some.mpr ⟨[], hown⟩]

theorem run_of_stored (h : a.stored raw = some a') (s : Bytes) : (a.store raw).run s = some (.ok a', s) := by
  unfold stored at h
  split at h
  · rename_i hr
    obtain rfl := Option.some.inj h
    obtain ⟨t, hr⟩ := outcome_eq_some.mp hr
    have hown := store_transplant hr (.refl a _) s
    rwa [transplant_stored hr] at hown
  · cases h

theorem stored_local : Local stored RawAttribute.field Eq fun k a c => SameField a c k where
  refl := fun k a => .refl a k
  symm := .symm
  trans := .trans
  owner_eq := congrArg _
  frame := by
    intro k a raw a' h hk
    rw [← transplant_stored (run_of_stored h [])]
    exact sameField_of_ne hk
  congr := by
    rintro a c raw raw' a' rfl hc h
    exact ⟨_, stored_of_run (store_transplant (run_of_stored h []) hc []), sameField_transplant _⟩

end Store

section Order

theorem parseFrom_iff {raws : List RawAttribute} {rest u : Bytes} (hf : ∀ raw ∈ raws, raw.Fits)
    (hrest : rest.length < 3) :
    a.parseFrom.run (raws.flatMap RawAttribute.octets ++ rest) = some (.ok a', u) ↔
      raws.foldlM stored a = some a' ∧ u = rest := by
  induction raws generalizing a with
  | nil =>
    rw [List.flatMap_nil, List.nil_append, parseFrom, loop_stop parseFrom_decreases (by simpa using hrest)]
    simp [eq_comm]
  | cons raw raws ih =>
    rw [List.forall_mem_cons] at hf
    rw [List.flatMap_cons, List.append_assoc, List.foldlM_cons]
    cases hs : a.stored raw with
    | some a₁ =>
      rw [parseFrom_octets hf.1 (run_of_stored hs _)]
      exact ih hf.2
    | none =>
      refine iff_of_false ?_ (by simp)
      intro h
      rw [parseFrom, loop_eq parseFrom_decreases] at h
      have hlong : decide (3 ≤ (raw.octets ++ (raws.flatMap RawAttribute.octets ++ rest)).length) = true := by
        rw [decide_eq_true_eq, List.length_append, raw.octets_length]
        split_ifs <;> omega
      rw [if_pos hlong] at h
      obtain ⟨a₁, w, hround, -⟩ := run_bind_eq_ok.mp h
      rw [parseRound, run_bind_ok _ (RawAttribute.reads_parse hf.1 _)] at hround
      rw [stored_of_run hround] at hs
      cases hs

theorem parse_reordered {b : Bytes} (h : parse.outcome b = some (.ok a)) {raws : List RawAttribute} {rest : Bytes}
    (hsame : ∀ k, (raws.filter fun raw => raw.field = k) = (splitAttributes b).filter fun raw => raw.field = k)
    (hrest : rest.length < 3) : parse.outcome (raws.flatMap RawAttribute.octets ++ rest) = some (.ok a) := by
  obtain ⟨read, rest', hloose, -⟩ := loose_of_parse h
  rw [hloose.splitAttributes_eq] at hsame
  have hfits : ∀ raw ∈ raws, raw.Fits := by
    intro raw hraw
    have hmem : raw ∈ raws.filter fun raw' => raw'.field = raw.field := List.mem_filter.mpr ⟨hraw, by simp⟩
    rw [hsame, List.mem_filter] at hmem
    exact (hloose.accepted raw hmem.1).1
  obtain ⟨u, hr⟩ := outcome_eq_some.mp h
  rw [hloose.split] at hr
  have hfold := ((parseFrom_iff (fun raw hraw => (hloose.accepted raw hraw).1) hloose.rest_lt).mp hr).1
  obtain ⟨a', ha', hfields⟩ := stored_local.run_interleave (fun _ => rfl)
    (fun k => List.forall₂_eq_eq_eq ▸ (hsame k).symm) hfold
  rw [eq_of_sameField hfields]
  exact outcome_eq_some.mpr ⟨rest, (parseFrom_iff hfits hrest).mpr ⟨ha', rfl⟩⟩

def wireAttributes : List RawAttribute :=
  [⟨0x40, 3, [10, 0, 0, 1]⟩, ⟨0xC0, 99, [171]⟩, ⟨0x40, 5, [0, 0, 0, 200]⟩, ⟨0x40, 3, [10, 0, 0, 2]⟩]

def movedAttributes : List RawAttribute :=
  [⟨0x40, 5, [0, 0, 0, 200]⟩, ⟨0x40, 3, [10, 0, 0, 1]⟩, ⟨0x40, 3, [10, 0, 0, 2]⟩, ⟨0xC0, 99, [171]⟩]

theorem parse_reordered_sample :
    parse.outcome (wireAttributes.flatMap RawAttribute.octets) =
        some (.ok { nextHop := some (.new 10 0 0 2), localPref := some 200, unknown := [⟨0xC0, 99, [171]⟩] }) ∧
      parse.outcome (movedAttributes.flatMap RawAttribute.octets ++ [7]) =
        some (.ok { nextHop := some (.new 10 0 0 2), localPref := some 200, unknown := [⟨0xC0, 99, [171]⟩] }) := by
  have hwire : parse.outcome (wireAttributes.flatMap RawAttribute.octets) =
      some (.ok { nextHop := some (.new 10 0 0 2), localPref := some 200, unknown := [⟨0xC0, 99, [171]⟩] }) := by
        decide
  have hsplit : splitAttributes (wireAttributes.flatMap RawAttribute.octets) = wireAttributes := by decide
  refine ⟨hwire, parse_reordered hwire ?_ (by decide)⟩
  rw [hsplit]
  intro k
  cases k <;> decide

end Order

end PathAttributes

end PathForge.Wire
