import Mathlib.Data.List.AList

namespace PathForge.Tables

variable {κ ν : Type} [DecidableEq κ]

abbrev HashMap (κ ν : Type) := AList (fun _ : κ => ν)

/-- The order in which a map yields its keys: any rearrangement of them. -/
structure IterOrder (κ : Type) where
  arrange : List κ → List κ
  perm : ∀ l, (arrange l).Perm l

def IterOrder.listed : IterOrder κ := ⟨id, fun _ => .refl _⟩

def IterOrder.leading (k : κ) : IterOrder κ where
  arrange l := if k ∈ l then k :: l.erase k else l
  perm l := by
    split_ifs with hk
    · exact (List.perm_cons_erase hk).symm
    · exact .refl l

namespace HashMap

def keysBy (m : HashMap κ ν) (o : IterOrder κ) : List κ := o.arrange m.keys

def iterBy (m : HashMap κ ν) (o : IterOrder κ) : List (κ × ν) :=
  (m.keysBy o).filterMap fun k => (m.lookup k).map fun v => (k, v)

def mapValues (m : HashMap κ ν) (f : ν → ν) : HashMap κ ν :=
  ⟨m.entries.map fun e => ⟨e.1, f e.2⟩, by
    have h := m.nodupKeys
    rw [List.NodupKeys, List.keys] at h ⊢
    rwa [List.map_map]⟩

def retain (m : HashMap κ ν) (p : κ → Bool) : HashMap κ ν :=
  ⟨m.entries.filter fun e => p e.1, m.nodupKeys.sublist List.filter_sublist⟩

def eraseAll (m : HashMap κ ν) (ks : List κ) : HashMap κ ν := ks.foldl (fun m k => m.erase k) m

theorem mem_keysBy (m : HashMap κ ν) (o : IterOrder κ) (k : κ) : k ∈ m.keysBy o ↔ (m.lookup k).isSome := by
  rw [keysBy, (o.perm _).mem_iff, AList.lookup_isSome, AList.mem_keys]

theorem mem_iterBy {m : HashMap κ ν} {o : IterOrder κ} {e : κ × ν} : e ∈ m.iterBy o ↔ m.lookup e.1 = some e.2 := by
  obtain ⟨k, v⟩ := e
  rw [iterBy, List.mem_filterMap]
  constructor
  · rintro ⟨k', -, h⟩
    obtain ⟨v', hv, he⟩ := Option.map_eq_some_iff.mp h
    obtain ⟨rfl, rfl⟩ := Prod.mk.inj he
    exact hv
  · intro h
    dsimp only at h
    exact ⟨k, (mem_keysBy m o k).mpr (by rw [h]; rfl), by rw [h]; rfl⟩

theorem iterBy_empty {o : IterOrder κ} : (∅ : HashMap κ ν).iterBy o = [] := by
  rw [List.eq_nil_iff_forall_not_mem]
  intro e he
  rw [mem_iterBy, AList.lookup_empty] at he
  cases he

theorem map_fst_iterBy {m : HashMap κ ν} {o : IterOrder κ} : (m.iterBy o).map Prod.fst = m.keysBy o := by
  rw [iterBy, List.map_filterMap]
  have hsome : ∀ k ∈ m.keysBy o, ((m.lookup k).map fun v => (k, v)).map Prod.fst = some k := by
    intro k hk
    obtain ⟨v, hv⟩ := Option.isSome_iff_exists.mp ((mem_keysBy m o k).mp hk)
    rw [hv]
    rfl
  rw [List.filterMap_congr hsome, List.filterMap_some]

theorem keysBy_leading {m : HashMap κ ν} {k : κ} (hk : (m.lookup k).isSome) :
    m.keysBy (.leading k) = k :: m.keys.erase k := by
  rw [AList.lookup_isSome, AList.mem_keys] at hk
  exact if_pos hk

omit [DecidableEq κ] in
theorem keysBy_perm (m : HashMap κ ν) (o o' : IterOrder κ) : (m.keysBy o).Perm (m.keysBy o') :=
  (o.perm _).trans (o'.perm _).symm

omit [DecidableEq κ] in
theorem nodup_keysBy (m : HashMap κ ν) (o : IterOrder κ) : (m.keysBy o).Nodup :=
  (o.perm _).nodup_iff.mpr m.nodupKeys

theorem lookup_insert (m : HashMap κ ν) (k k' : κ) (v : ν) :
    (m.insert k v).lookup k' = if k' = k then some v else m.lookup k' := by
  split_ifs with h
  · rw [h, AList.lookup_insert]
  · exact AList.lookup_insert_ne h

theorem lookup_erase (m : HashMap κ ν) (k k' : κ) :
    (m.erase k).lookup k' = if k' = k then none else m.lookup k' := by
  split_ifs with h
  · rw [h, AList.lookup_erase]
  · exact AList.lookup_erase_ne h

theorem lookup_eraseAll (m : HashMap κ ν) (ks : List κ) (k : κ) :
    (m.eraseAll ks).lookup k = if k ∈ ks then none else m.lookup k := by
  induction ks generalizing m with
  | nil => simp [eraseAll]
  | cons k' ks ih =>
    rw [eraseAll, List.foldl_cons, ← eraseAll, ih, lookup_erase]
    by_cases hk : k ∈ ks <;> by_cases he : k = k' <;> simp [hk, he]

theorem lookup_mapValues (m : HashMap κ ν) (f : ν → ν) (k : κ) :
    (m.mapValues f).lookup k = (m.lookup k).map f := by
  obtain ⟨entries, hn⟩ := m
  simp only [AList.lookup, mapValues]
  clear hn
  induction entries with
  | nil => rfl
  | cons e es ih =>
    obtain ⟨k', v⟩ := e
    by_cases hk : k = k'
    · subst hk; simp
    · rw [List.map_cons, List.dlookup_cons_ne _ _ hk, List.dlookup_cons_ne _ _ hk, ih]

theorem lookup_retain (m : HashMap κ ν) (p : κ → Bool) (k : κ) :
    (m.retain p).lookup k = if p k then m.lookup k else none := by
  obtain ⟨entries, hn⟩ := m
  simp only [AList.lookup, retain]
  clear hn
  induction entries with
  | nil => simp
  | cons e es ih =>
    obtain ⟨k', v⟩ := e
    by_cases hk : k = k'
    · subst hk
      by_cases hp : p k
      · simp [hp]
      · simpa [List.filter_cons, hp] using ih
    · rw [List.dlookup_cons_ne _ _ hk, List.filter_cons]
      split_ifs at ih ⊢ with hp hp'
      · rw [List.dlookup_cons_ne _ _ hk, ih]
      · rw [List.dlookup_cons_ne _ _ hk, ih]
      · exact ih
      · exact ih

theorem length_keys_eq_iff {m m' : HashMap κ ν} (h : ∀ k, (m'.lookup k).isSome → (m.lookup k).isSome) :
    m'.keys.length = m.keys.length ↔ ∀ k, (m.lookup k).isSome → (m'.lookup k).isSome := by
  simp only [AList.lookup_isSome, AList.mem_keys] at h ⊢
  have hsub : m'.keys.Subperm m.keys := List.subperm_of_subset m'.nodupKeys h
  constructor
  · intro hlen k hk
    exact (hsub.perm_of_length_le (Nat.le_of_eq hlen.symm)).mem_iff.mpr hk
  · intro hback
    exact ((List.perm_ext_iff_of_nodup m'.nodupKeys m.nodupKeys).mpr fun k => ⟨h k, hback k⟩).length_eq

theorem eraseAll_perm (m : HashMap κ ν) {ks ks' : List κ} (h : ks.Perm ks') : m.eraseAll ks = m.eraseAll ks' :=
  h.foldl_eq' (fun k _ k' _ m => AList.erase_erase k k' m) m

end HashMap

end PathForge.Tables
