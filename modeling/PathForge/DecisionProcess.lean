import PathForge.RoutingBase
import Mathlib.Data.Prod.Lex

namespace PathForge.Routing

open Tables Selection Wire

namespace Route

def fresh (r : Route) : Route := { r with stale := false }

def rank (r : Route) : ℕᵒᵈ ×ₗ ℕ ×ₗ ℕ ×ₗ ℕ ×ₗ ℕ :=
  toLex (OrderDual.toDual r.localPref, toLex (r.attrs.asPathLen, toLex (r.origin, toLex (r.med, r.receivedAt))))

theorem rank_fresh (r : Route) : r.fresh.rank = r.rank := rfl

theorem receivedAt_fresh (r : Route) : r.fresh.receivedAt = r.receivedAt := rfl

theorem eq_of_fresh {α : Type} {r r' : Route} (h : r.fresh = r'.fresh) (f : Route → α)
    (hf : ∀ x : Route, f x.fresh = f x) :
    f r = f r' := by rw [← hf r, h, hf]

theorem then_isLE {x y : ℕ} {o : Ordering} :
    ((compare x y).then o).isLE = true ↔ x < y ∨ x = y ∧ o.isLE = true := by
  rcases lt_trichotomy x y with h | h | h
  · simp [compare_lt_iff_lt.mpr h, h]
  · simp [h]
  · simp [compare_gt_iff_gt.mpr h, h.not_gt, h.ne']

theorem rankedBy_cmp : RankedBy cmp rank := by
  intro a b
  simp only [cmp, then_isLE, rank, Prod.Lex.toLex_le_toLex, OrderDual.toDual_lt_toDual,
    EmbeddingLike.apply_eq_iff_eq, Nat.isLE_compare]
  rw [eq_comm (a := b.localPref)]

end Route

namespace Rib

structure SameTables (r r' : Rib) : Prop where
  adjRibIn : r.adjRibIn = r'.adjRibIn
  dampening : r.dampening = r'.dampening
  rpki : r.rpki = r'.rpki

theorem SameTables.symm {r r' : Rib} (h : SameTables r r') : SameTables r' r :=
  ⟨h.adjRibIn.symm, h.dampening.symm, h.rpki.symm⟩

theorem SameTables.trans {r r' r'' : Rib} (h : SameTables r r') (h' : SameTables r' r'') : SameTables r r'' :=
  ⟨h.adjRibIn.trans h'.adjRibIn, h.dampening.trans h'.dampening, h.rpki.trans h'.rpki⟩

theorem SameTables.route_eq {r r' : Rib} (h : SameTables r r') (peer : SocketAddr) (key : PrefixKey) :
    r.route peer key = r'.route peer key := by rw [route, route, h.adjRibIn]

def best (h : Host) (r : Rib) (key : PrefixKey) : Option Route := first Route.cmp (r.candidates h key)

theorem mem_candidates {h : Host} {r : Rib} {key : PrefixKey} {b : Route} :
    b ∈ r.candidates h key ↔ ∃ peer, r.route peer key = some b := by
  rw [candidates, List.mem_filterMap]
  constructor
  · rintro ⟨peer, -, hr⟩
    exact ⟨peer, hr⟩
  · rintro ⟨peer, hr⟩
    refine ⟨peer, ?_, hr⟩
    rw [HashMap.mem_keysBy]
    obtain ⟨adj, ha, -⟩ := Option.bind_eq_some_iff.mp hr
    rw [ha]
    rfl

section Decisions

variable (h : Host) (r : Rib)

theorem runDecisionProcess_sameTables (key : PrefixKey) : SameTables (r.runDecisionProcess h key) r := by
  unfold runDecisionProcess
  split <;> exact ⟨rfl, rfl, rfl⟩

theorem lookup_runDecisionProcess (key k : PrefixKey) :
    (r.runDecisionProcess h key).locRib.lookup k = if k = key then r.best h key else r.locRib.lookup k := by
  unfold runDecisionProcess best
  split
  · rename_i hb
    rw [hb]
    exact HashMap.lookup_erase _ _ _
  · rename_i b hb
    rw [hb]
    exact HashMap.lookup_insert _ _ _ _

theorem runDecisions_sameTables (keys : List PrefixKey) : SameTables (r.runDecisions h keys) r := by
  induction keys generalizing r with
  | nil => exact ⟨rfl, rfl, rfl⟩
  | cons key keys ih => exact (ih _).trans (runDecisionProcess_sameTables h r key)

theorem SameTables.best_eq {r r' : Rib} (ht : SameTables r r') (key : PrefixKey) :
    r.best h key = r'.best h key := by
  simp only [best, candidates, route, ht.adjRibIn]

theorem lookup_runDecisions (keys : List PrefixKey) (k : PrefixKey) :
    (r.runDecisions h keys).locRib.lookup k = if k ∈ keys then r.best h k else r.locRib.lookup k := by
  induction keys generalizing r with
  | nil => simp [runDecisions]
  | cons key keys ih =>
    rw [runDecisions, List.foldl_cons, ← runDecisions, ih, (runDecisionProcess_sameTables h r key).best_eq,
      lookup_runDecisionProcess]
    by_cases hk : k ∈ keys <;> by_cases he : k = key <;> simp [hk, he]

theorem lookup_runDecisions_of_mem {keys : List PrefixKey} {k : PrefixKey} (hk : k ∈ keys) :
    (r.runDecisions h keys).locRib.lookup k = (r.runDecisions h keys).best h k := by
  rw [lookup_runDecisions, if_pos hk, (runDecisions_sameTables h r keys).best_eq]

end Decisions

end Rib

end PathForge.Routing
