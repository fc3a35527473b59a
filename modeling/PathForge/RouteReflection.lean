import PathForge.PathAttributes
import PathForge.RunHistory
import Mathlib.Data.Finset.Card
import Mathlib.Data.Fintype.Basic

namespace PathForge.Reflection

open Wire History

structure RrConfig where
  clusterId : Ipv4Addr
  deriving DecidableEq

structure RouteReflector where
  config : RrConfig
  routerId : Ipv4Addr
  deriving DecidableEq

namespace RouteReflector

def prepareReflectedAttrs (rr : RouteReflector) (attrs : PathAttributes) (originatorId : Ipv4Addr) :
    PathAttributes :=
  let reflected := if attrs.originatorId = none then { attrs with originatorId := some originatorId } else attrs
  { reflected with clusterList := rr.config.clusterId :: reflected.clusterList }

def hasClusterLoop (rr : RouteReflector) (attrs : PathAttributes) : Bool :=
  attrs.clusterList.contains rr.config.clusterId

def hasOriginatorLoop (rr : RouteReflector) (attrs : PathAttributes) : Bool :=
  attrs.originatorId == some rr.routerId

def hasLoop (rr : RouteReflector) (attrs : PathAttributes) : Bool :=
  rr.hasClusterLoop attrs || rr.hasOriginatorLoop attrs

end RouteReflector

structure Hop where
  reflector : RouteReflector
  originatorId : Ipv4Addr

def Hop.clusterId (hop : Hop) : Ipv4Addr := hop.reflector.config.clusterId

def Hop.pass (attrs : PathAttributes) (hop : Hop) : Option PathAttributes :=
  if hop.reflector.hasLoop attrs then none else some (hop.reflector.prepareReflectedAttrs attrs hop.originatorId)

def reflect (attrs : PathAttributes) (hops : List Hop) : Option PathAttributes := hops.foldlM Hop.pass attrs

theorem Hop.pass_eq_some {attrs attrs' : PathAttributes} {hop : Hop} :
    hop.pass attrs = some attrs' ↔
      hop.clusterId ∉ attrs.clusterList ∧ attrs.originatorId ≠ some hop.reflector.routerId ∧
        attrs' = { attrs with
                   originatorId := some (attrs.originatorId.getD hop.originatorId),
                   clusterList := hop.clusterId :: attrs.clusterList } := by
  have hloop : hop.reflector.hasLoop attrs = true ↔
      hop.clusterId ∈ attrs.clusterList ∨ attrs.originatorId = some hop.reflector.routerId := by
    simp [RouteReflector.hasLoop, RouteReflector.hasClusterLoop, RouteReflector.hasOriginatorLoop, Hop.clusterId]
  have hprep : hop.reflector.prepareReflectedAttrs attrs hop.originatorId =
      { attrs with
        originatorId := some (attrs.originatorId.getD hop.originatorId),
        clusterList := hop.clusterId :: attrs.clusterList } := by
    obtain ⟨origin, asPath, nextHop, med, pref, atomic, aggr, comms, _ | id, clusters, unknown⟩ := attrs <;> rfl
  unfold Hop.pass
  split_ifs with hl
  · simp only [false_iff, not_and]
    intro hc ho
    exact absurd (hloop.mp hl) (not_or.mpr ⟨hc, ho⟩)
  · rw [hloop, not_or] at hl
    rw [Option.some.injEq, hprep, eq_comm]
    exact ⟨fun h => ⟨hl.1, hl.2, h⟩, fun h => h.2.2⟩

structure Traversed (attrs : PathAttributes) (hops : List Hop) (attrs' : PathAttributes) : Prop where
  distinct : (hops.map Hop.clusterId).Nodup
  fresh : ∀ hop ∈ hops, hop.clusterId ∉ attrs.clusterList
  clusterList : attrs'.clusterList = (hops.map Hop.clusterId).reverse ++ attrs.clusterList
  originatorId : attrs'.originatorId = attrs.originatorId.or (hops.head?.map Hop.originatorId)
  others : { attrs' with originatorId := attrs.originatorId, clusterList := attrs.clusterList } = attrs

theorem Traversed.pass {attrs attrs' attrs'' : PathAttributes} {hops : List Hop} {hop : Hop}
    (h : Traversed attrs hops attrs') (hp : hop.pass attrs' = some attrs'') :
    Traversed attrs (hops ++ [hop]) attrs'' := by
  obtain ⟨hc, -, rfl⟩ := Hop.pass_eq_some.mp hp
  rw [h.clusterList, List.mem_append, not_or, List.mem_reverse] at hc
  refine ⟨?_, ?_, ?_, ?_, h.others⟩
  · rw [List.map_append, List.nodup_append]
    refine ⟨h.distinct, List.nodup_singleton _, ?_⟩
    rintro id hid id' hid' rfl
    obtain rfl := List.mem_singleton.mp hid'
    exact hc.1 hid
  · rw [List.forall_mem_append, List.forall_mem_singleton]
    exact ⟨h.fresh, hc.2⟩
  · simp [h.clusterList]
  · simp only [h.originatorId]
    cases attrs.originatorId <;> cases hops <;> simp

theorem traversed_of_reflect {attrs attrs' : PathAttributes} {hops : List Hop}
    (h : reflect attrs hops = some attrs') :
    Traversed attrs hops attrs' := by
  induction hops using List.reverseRecOn generalizing attrs' with
  | nil =>
    obtain rfl := Option.some.inj h
    exact ⟨List.nodup_nil, by simp, rfl, by simp, rfl⟩
  | append_singleton hops hop ih =>
    obtain ⟨b, hb, hp⟩ := foldlM_snoc.mp h
    exact (ih hb).pass hp

theorem exists_reflect_append {attrs attrs' : PathAttributes} {first later : List Hop}
    (h : reflect attrs (first ++ later) = some attrs') :
    ∃ b, reflect attrs first = some b ∧ reflect b later = some attrs' := by
  rw [reflect, List.foldlM_append] at h
  exact Option.bind_eq_some_iff.mp h

theorem originatorId_of_reflect {attrs attrs' : PathAttributes} {first later : List Hop} (hf : first ≠ [])
    (h : reflect attrs (first ++ later) = some attrs') :
    (∃ b, reflect attrs first = some b ∧ b.originatorId = attrs'.originatorId) ∧
      ∀ hop ∈ later, attrs'.originatorId ≠ some hop.reflector.routerId := by
  have hhead (rest : List Hop) : (first ++ rest).head? = first.head? := List.head?_append_of_ne_nil first hf
  have hid : attrs'.originatorId = attrs.originatorId.or (first.head?.map Hop.originatorId) := by
    rw [(traversed_of_reflect h).originatorId, hhead]
  constructor
  · obtain ⟨b, hb, -⟩ := exists_reflect_append h
    exact ⟨b, hb, by rw [hid, (traversed_of_reflect hb).originatorId]⟩
  · intro hop hmem
    obtain ⟨before, after, rfl⟩ := List.append_of_mem hmem
    rw [← List.append_assoc] at h
    obtain ⟨b, hb, hrest⟩ := exists_reflect_append h
    rw [reflect, List.foldlM_cons] at hrest
    obtain ⟨b', hb', -⟩ := Option.bind_eq_some_iff.mp hrest
    rw [hid, ← hhead before, ← (traversed_of_reflect hb).originatorId]
    exact (Hop.pass_eq_some.mp hb').2.1

theorem reflect_loopFree {attrs attrs' : PathAttributes} {hops : List Hop} (h : reflect attrs hops = some attrs') :
    (hops.map Hop.clusterId).Nodup ∧ (∀ hop ∈ hops, hop.clusterId ∉ attrs.clusterList) ∧
      attrs'.clusterList = (hops.map Hop.clusterId).reverse ++ attrs.clusterList ∧
      attrs'.originatorId = attrs.originatorId.or (hops.head?.map Hop.originatorId) ∧
      (∀ first later, hops = first ++ later → first ≠ [] →
        (∃ b, reflect attrs first = some b ∧ b.originatorId = attrs'.originatorId) ∧
          ∀ hop ∈ later, attrs'.originatorId ≠ some hop.reflector.routerId) ∧
      { attrs' with originatorId := attrs.originatorId, clusterList := attrs.clusterList } = attrs ∧
      ∀ ids : Finset Ipv4Addr, (∀ hop ∈ hops, hop.clusterId ∈ ids) → hops.length ≤ ids.card := by
  have ht := traversed_of_reflect h
  refine ⟨ht.distinct, ht.fresh, ht.clusterList, ht.originatorId, ?_, ht.others, ?_⟩
  · rintro first later rfl hf
    exact originatorId_of_reflect hf h
  · intro ids hids
    rw [← List.length_map Hop.clusterId, ← List.toFinset_card_of_nodup ht.distinct]
    apply Finset.card_le_card
    intro id hid
    obtain ⟨hop, hmem, rfl⟩ := List.mem_map.mp (List.mem_toFinset.mp hid)
    exact hids hop hmem

def sampleHop (n : UInt8) : Hop := ⟨⟨⟨.new 10 0 0 n⟩, .new 10 0 1 n⟩, .new 192 0 2 n⟩

theorem reflect_loopFree_sample :
    ∃ attrs, reflect {} [sampleHop 1, sampleHop 2] = some attrs ∧
      attrs.clusterList = [.new 10 0 0 2, .new 10 0 0 1] ∧
      attrs.originatorId = some (.new 192 0 2 1) := by
  have h : (reflect {} [sampleHop 1, sampleHop 2]).isSome := by decide
  obtain ⟨attrs, ha⟩ := Option.isSome_iff_exists.mp h
  obtain ⟨-, -, hc, ho, -⟩ := reflect_loopFree ha
  exact ⟨attrs, ha, hc, ho⟩

end PathForge.Reflection
