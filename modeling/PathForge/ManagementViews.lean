import PathForge.ManagementCommands

namespace PathForge.Management

open Tables Texts Wire Routing Peering Policy

section Columns

variable (attrs : PathAttributes)

theorem oneLine_asPathText : OneLine (asPathText attrs) := by
  apply OneLine.intercalate (show '\n' ∉ " ".toList by decide)
  rw [List.forall_mem_map]
  exact fun asn _ => oneLine_repr _

theorem oneLine_asPathOr {empty : String} (h : OneLine empty) : OneLine (asPathOr attrs empty) := by
  unfold asPathOr
  split_ifs
  · exact h
  · exact oneLine_asPathText attrs

theorem oneLine_nextHopText : OneLine (nextHopText attrs) := by
  unfold nextHopText
  cases attrs.nextHop with
  | none => exact show '\n' ∉ "-".toList by decide
  | some a => exact Solid.oneLine (solid_toString a)

theorem oneLine_originText : OneLine (originText attrs) := by
  unfold originText OneLine
  rcases attrs.origin with _ | _ | _ | _ <;> decide

end Columns

section Rows

def readKey (row : List Char) : Option PrefixKey :=
  (parsePrefix (String.ofList (row.takeWhile (· ≠ ' ')))).map fun (address, prefixLen) => ⟨address, prefixLen⟩

def networks (headings : ℕ) (answer : String) : List (Option PrefixKey) :=
  ((answer.toList.splitOn '\n').drop headings).dropLast.map readKey

structure Shows (row : PrefixKey × Route → String) : Prop where
  starts : ∀ e, ∃ t, (row e).toList = e.1.toString.toList ++ ' ' :: t
  oneLine : ∀ e, OneLine (row e)

variable {row : PrefixKey × Route → String}

theorem Shows.readKey_eq (h : Shows row) (e : PrefixKey × Route) : readKey (row e).toList = some e.1 := by
  obtain ⟨t, ht⟩ := h.starts e
  have hblank : ∀ c ∈ e.1.toString.toList, decide (c ≠ ' ') = true := by
    intro c hc
    refine decide_eq_true ?_
    rintro rfl
    exact e.1.solid_toString.notMem rfl hc
  rw [readKey, ht, List.takeWhile_append_of_pos hblank, List.takeWhile_cons_of_neg (by simp), List.append_nil,
    String.ofList_toList, PrefixKey.parsePrefix_toString]
  rfl

theorem Shows.networks_eq (h : Shows row) {n : ℕ} {heads : List String} (hn : heads.length = n)
    (hheads : ∀ l ∈ heads, OneLine l) (es : List (PrefixKey × Route)) :
    networks n (ofLines (heads ++ es.map row)) = (es.map Prod.fst).map some := by
  have hlines : ∀ l ∈ heads ++ es.map row, '\n' ∉ l.toList := by
    rw [List.forall_mem_append, List.forall_mem_map]
    exact ⟨hheads, fun e _ => h.oneLine e⟩
  have hdrop : ((heads ++ es.map row).map String.toList ++ [[]]).drop n =
      (es.map fun e => (row e).toList) ++ [[]] := by
    rw [List.map_append, List.append_assoc, List.drop_left' (by simpa using hn), List.map_map]
    rfl
  rw [networks, splitOn_ofLines hlines, hdrop, List.dropLast_concat, List.map_map, List.map_map]
  exact List.map_congr_left fun e _ => h.readKey_eq e

theorem starts_padEnd (s : String) (width : ℕ) {rest : String} {r : List Char} (h : rest.toList = ' ' :: r) :
    ∃ t, (padEnd width s ++ rest).toList = s.toList ++ ' ' :: t := by
  simp only [padEnd, String.toList_append, String.toList_ofList, List.append_assoc, h]
  cases width - s.length with
  | zero => exact ⟨r, rfl⟩
  | succ n => exact ⟨List.replicate n ' ' ++ ' ' :: r, rfl⟩

theorem shows_ribRow : Shows ribRow where
  starts := by
    intro e
    simp only [ribRow, String.append_assoc]
    exact starts_padEnd _ _ String.toList_append
  oneLine := by
    intro e
    have hblank : OneLine " " := show '\n' ∉ " ".toList by decide
    have hdash : OneLine "-" := show '\n' ∉ "-".toList by decide
    apply OneLine.append _ (oneLine_originText _)
    apply OneLine.append _ hblank
    apply OneLine.append _ ((oneLine_nextHopText _).padEnd _)
    apply OneLine.append _ hblank
    apply OneLine.append _ ((oneLine_asPathOr _ hdash).padStart _)
    apply OneLine.append _ hblank
    apply OneLine.append _ ((oneLine_repr _).padStart _)
    apply OneLine.append _ hblank
    apply OneLine.append _ ((oneLine_repr _).padStart _)
    exact ((Solid.oneLine e.1.solid_toString).padEnd _).append hblank

theorem shows_asPathRow : Shows asPathRow where
  starts := by
    intro e
    simp only [asPathRow, String.append_assoc]
    exact starts_padEnd _ _ String.toList_append
  oneLine := by
    intro e
    have hvia : OneLine " via " := show '\n' ∉ " via ".toList by decide
    have hpath : OneLine " path " := show '\n' ∉ " path ".toList by decide
    apply OneLine.append _ (oneLine_asPathText _)
    apply OneLine.append _ hpath
    apply OneLine.append _ (oneLine_nextHopText _)
    exact ((Solid.oneLine e.1.solid_toString).padEnd _).append hvia

theorem shows_nextHopRow : Shows nextHopRow where
  starts := by
    intro e
    simp only [nextHopRow, String.append_assoc]
    exact starts_padEnd _ _ String.toList_append
  oneLine := by
    intro e
    have hdash : OneLine "-" := show '\n' ∉ "-".toList by decide
    have hpref : OneLine " local-pref=" := show '\n' ∉ " local-pref=".toList by decide
    have hpath : OneLine " path=" := show '\n' ∉ " path=".toList by decide
    apply OneLine.append _ (oneLine_asPathOr _ hdash)
    apply OneLine.append _ hpath
    apply OneLine.append _ (oneLine_repr _)
    exact ((Solid.oneLine e.1.solid_toString).padEnd _).append hpref

end Rows

section Listings

variable {v v' : View}

theorem rank_injective : Function.Injective rank := by
  rintro ⟨⟨⟨o, ho⟩⟩, n⟩ ⟨⟨⟨o', ho'⟩⟩, n'⟩ h
  obtain ⟨hoctets, hlen⟩ := Prod.mk.inj (toLex.injective h)
  obtain rfl := List.map_injective_iff.mpr (fun a b => UInt8.toNat_inj.mp) hoctets
  obtain rfl : n = n' := UInt8.toNat_inj.mp hlen
  rfl

def listedKeys (rib : Rib) : List PrefixKey := (rib.locRib.listing .listed rank fun _ => true).map Prod.fst

theorem pairwise_listedKeys (rib : Rib) : (listedKeys rib).Pairwise fun k k' => rank k < rank k' :=
  List.pairwise_map.mpr (HashMap.pairwise_listing rank_injective)

theorem mem_listedKeys {rib : Rib} {k : PrefixKey} : k ∈ listedKeys rib ↔ (rib.locRib.lookup k).isSome := by
  rw [listedKeys, List.mem_map, Option.isSome_iff_exists]
  constructor
  · rintro ⟨e, he, rfl⟩
    exact ⟨e.2, (HashMap.mem_listing.mp he).1⟩
  · rintro ⟨route, h⟩
    exact ⟨(k, route), HashMap.mem_listing.mpr ⟨h, rfl⟩, rfl⟩

def ofKey (rib : Rib) (p : PrefixKey × Route → Bool) (k : PrefixKey) : Bool :=
  ((rib.locRib.lookup k).map fun route => p (k, route)).getD false

theorem map_fst_listing (p : PrefixKey × Route → Bool) :
    (v.rib.locRib.listing v.keys rank p).map Prod.fst = (listedKeys v.rib).filter (ofKey v.rib p) := by
  apply eq_of_pairwise_lt rank
  · exact List.pairwise_map.mpr (HashMap.pairwise_listing rank_injective)
  · exact (pairwise_listedKeys v.rib).filter _
  · intro k
    rw [List.mem_map, List.mem_filter, mem_listedKeys]
    constructor
    · rintro ⟨e, he, rfl⟩
      obtain ⟨hv, hp⟩ := HashMap.mem_listing.mp he
      simp [ofKey, hv, hp]
    · rintro ⟨hk, hp⟩
      obtain ⟨route, hv⟩ := Option.isSome_iff_exists.mp hk
      refine ⟨(k, route), HashMap.mem_listing.mpr ⟨hv, ?_⟩, rfl⟩
      simpa [ofKey, hv] using hp

theorem keys_eq_nil : v.rib.locRib.keys = [] ↔ listedKeys v.rib = [] := by
  simp only [List.eq_nil_iff_forall_not_mem, mem_listedKeys, AList.lookup_isSome, AList.mem_keys]

theorem filter_ofKey_true (rib : Rib) : (listedKeys rib).filter (ofKey rib fun _ => true) = listedKeys rib := by
  rw [List.filter_eq_self]
  intro k hk
  obtain ⟨route, hv⟩ := Option.isSome_iff_exists.mp (mem_listedKeys.mp hk)
  simp [ofKey, hv]

theorem networks_cmdBgpRib : networks 4 (cmdBgpRib v) = (listedKeys v.rib).map some := by
  unfold cmdBgpRib
  split_ifs with h
  · rw [keys_eq_nil.mp h]
    decide
  · rw [shows_ribRow.networks_eq, map_fst_listing, filter_ofKey_true]
    · rfl
    · unfold OneLine
      decide

theorem networks_cmdMatches {p : PrefixKey × Route → Bool} {empty title : String}
    {row : PrefixKey × Route → String} (h : Shows row) (hempty : OneLine empty) (htitle : OneLine title) :
    networks 2 (cmdMatches v p empty title row) = ((listedKeys v.rib).filter (ofKey v.rib p)).map some := by
  rw [← map_fst_listing]
  unfold cmdMatches
  split_ifs with hnone
  · have hlines : ofLines [empty] = empty ++ "\n" := by simp [ofLines, String.join_cons]
    rw [HashMap.listing, hnone, networks, ← hlines, splitOn_ofLines (List.forall_mem_singleton.mpr hempty)]
    rfl
  · have hbar : OneLine (repeated 40 '=') := by
      unfold OneLine
      decide
    rw [h.networks_eq]
    · rfl
    · simpa using ⟨htitle, hbar⟩

end Listings

section Commands

def command (words : List String) : String := " ".intercalate words

theorem splitWhitespace_rib {word arg : String} (hword : word ≠ "" ∧ Solid word.toList)
    (harg : arg ≠ "" ∧ Solid arg.toList) :
    splitWhitespace (command ["show", "bgp", "rib", word, arg]) = ["show", "bgp", "rib", word, arg] := by
  have hshow : "show" ≠ "" ∧ Solid "show".toList := by decide
  have hbgp : "bgp" ≠ "" ∧ Solid "bgp".toList := by decide
  have hrib : "rib" ≠ "" ∧ Solid "rib".toList := by decide
  apply splitWhitespace_intercalate
  simp only [List.forall_mem_cons, List.not_mem_nil, false_implies, implies_true, and_true]
  exact ⟨hshow, hbgp, hrib, hword, harg⟩

variable {rustc : Option String} {v : View}

theorem processCommand_aspath (asn : UInt32) :
    processCommand rustc v (command ["show", "bgp", "rib", "aspath", asn.toNat.repr]) =
      cmdMatches v (viaAsn asn) ("No routes with ASN " ++ asn.toNat.repr ++ " in AS_PATH.")
        ("Routes with ASN " ++ asn.toNat.repr ++ " in AS_PATH") asPathRow := by
  have hword : "aspath" ≠ "" ∧ Solid "aspath".toList := by decide
  have hsolid : Solid asn.toNat.repr.toList := Nat.toList_repr ▸ solid_toDigits _
  have hcmd : processCommand rustc v (command ["show", "bgp", "rib", "aspath", asn.toNat.repr]) =
      cmdBgpRibAspath v asn.toNat.repr := by
    rw [processCommand, splitWhitespace_rib hword ⟨Nat.repr_ne_empty, hsolid⟩]
    rfl
  rw [hcmd, cmdBgpRibAspath, Nat.toList_repr, parseU32_toDigits]

theorem processCommand_nexthop (target : Ipv4Addr) :
    processCommand rustc v (command ["show", "bgp", "rib", "nexthop", target.toString]) =
      cmdMatches v (viaNextHop target) ("No routes with next-hop " ++ target.toString ++ ".")
        ("Routes via next-hop " ++ target.toString) nextHopRow := by
  have hword : "nexthop" ≠ "" ∧ Solid "nexthop".toList := by decide
  have hcmd : processCommand rustc v (command ["show", "bgp", "rib", "nexthop", target.toString]) =
      cmdBgpRibNexthop v target.toString := by
    rw [processCommand, splitWhitespace_rib hword ⟨toString_ne_empty target, solid_toString target⟩]
    rfl
  rw [hcmd, cmdBgpRibNexthop, addrFromStr_toString]

theorem processCommand_prefix (k : PrefixKey) :
    processCommand rustc v (command ["show", "bgp", "rib", "prefix", k.toString]) =
      (v.rib.locRib.lookup k).elim ("Prefix " ++ k.toString ++ " not found in Loc-RIB.\n")
        (prefixDetail k.toString) := by
  have hword : "prefix" ≠ "" ∧ Solid "prefix".toList := by decide
  have hcmd : processCommand rustc v (command ["show", "bgp", "rib", "prefix", k.toString]) =
      cmdBgpRibPrefix v k.toString := by
    rw [processCommand, splitWhitespace_rib hword ⟨k.toString_ne_empty, k.solid_toString⟩]
    rfl
  rw [hcmd, cmdBgpRibPrefix, k.toString_toList, splitOnce_append (notMem_toString _ rfl (by decide))]
  simp only [addrFromStr_toString, parseU8_toDigits]
  cases v.rib.locRib.lookup k <;> rfl

theorem listing_congr {v v' : View} (h : ∀ k, v.rib.locRib.lookup k = v'.rib.locRib.lookup k)
    (p : PrefixKey × Route → Bool) :
    v.rib.locRib.listing v.keys rank p = v'.rib.locRib.listing v'.keys rank p :=
  HashMap.listing_eq rank_injective h

theorem cmdMatches_congr {v v' : View} (h : ∀ k, v.rib.locRib.lookup k = v'.rib.locRib.lookup k)
    (p : PrefixKey × Route → Bool) (empty title : String) (row : PrefixKey × Route → String) :
    cmdMatches v p empty title row = cmdMatches v' p empty title row := by
  have hnil : (v.rib.locRib.iterBy v.keys).filter p = [] ↔ (v'.rib.locRib.iterBy v'.keys).filter p = [] := by
    simp only [List.filter_eq_nil_iff, HashMap.mem_iterBy, h]
  simp only [cmdMatches, hnil, listing_congr h]

theorem processCommand_congr {v v' : View} (h : ∀ k, v.rib.locRib.lookup k = v'.rib.locRib.lookup k) {cmd : String}
    {words : List String} (hcmd : splitWhitespace cmd = "show" :: "bgp" :: "rib" :: words) :
    processCommand rustc v cmd = processCommand rustc v' cmd := by
  have hnil : v.rib.locRib.keys = [] ↔ v'.rib.locRib.keys = [] := by
    simp only [List.eq_nil_iff_forall_not_mem, ← AList.mem_keys, ← AList.lookup_isSome, h]
  unfold processCommand
  rw [hcmd]
  split
  case h_2 => simp only [cmdBgpRib, hnil, listing_congr h]
  case h_3 => simp only [cmdBgpRibPrefix, h]
  case h_4 => simp only [cmdBgpRibAspath, cmdMatches_congr h]
  case h_5 => simp only [cmdBgpRibNexthop, cmdMatches_congr h]
  case h_15 => rfl
  all_goals
    rename_i hwords
    simp at hwords

theorem viaAsn_eq (asn : UInt32) (e : PrefixKey × Route) : viaAsn asn e = decide (asn ∈ asNumbers e.2.attrs) := by
  rw [Bool.eq_iff_iff, decide_eq_true_iff, asNumbers, List.mem_flatMap, viaAsn, List.any_eq_true]
  simp

theorem viaNextHop_eq (target : Ipv4Addr) (e : PrefixKey × Route) :
    viaNextHop target e = decide (e.2.attrs.nextHop = some target) := by
  rw [Bool.eq_iff_iff, decide_eq_true_iff, viaNextHop, beq_iff_eq]

theorem networks_aspath (asn : UInt32) :
    networks 2 (processCommand rustc v (command ["show", "bgp", "rib", "aspath", asn.toNat.repr])) =
      ((listedKeys v.rib).filter (ofKey v.rib fun e => asn ∈ asNumbers e.2.attrs)).map some := by
  have hasn : '\n' ∉ asn.toNat.repr.toList := oneLine_repr _
  rw [processCommand_aspath, networks_cmdMatches shows_asPathRow, funext (viaAsn_eq asn)]
  · simpa [OneLine] using hasn
  · simpa [OneLine] using hasn

theorem networks_nexthop (target : Ipv4Addr) :
    networks 2 (processCommand rustc v (command ["show", "bgp", "rib", "nexthop", target.toString])) =
      ((listedKeys v.rib).filter (ofKey v.rib fun e => e.2.attrs.nextHop = some target)).map some := by
  have htarget : '\n' ∉ target.toString.toList := (solid_toString target).notMem rfl
  rw [processCommand_nexthop, networks_cmdMatches shows_nextHopRow, funext (viaNextHop_eq target)]
  · simpa [OneLine] using htarget
  · simpa [OneLine] using htarget

theorem networks_rib :
    networks 4 (processCommand rustc v (command ["show", "bgp", "rib"])) = (listedKeys v.rib).map some := by
  have hsplit : splitWhitespace (command ["show", "bgp", "rib"]) = ["show", "bgp", "rib"] := by decide
  have hcmd : processCommand rustc v (command ["show", "bgp", "rib"]) = cmdBgpRib v := by
    rw [processCommand, hsplit]
    rfl
  rw [hcmd, networks_cmdBgpRib]

theorem length_listedKeys (rib : Rib) : (listedKeys rib).length = (summary rib).2.2 := by
  apply List.Perm.length_eq
  rw [List.perm_ext_iff_of_nodup]
  · intro k
    rw [mem_listedKeys, AList.lookup_isSome, AList.mem_keys]
  · exact (pairwise_listedKeys rib).imp fun h he => absurd (he ▸ h) (lt_irrefl _)
  · exact rib.locRib.nodupKeys

/-- The views of the Loc-RIB agree. Whatever order the hash maps yield, `show bgp rib` has one row for each
network, in the order of addresses and lengths, and the count in the summary is theirs; `aspath` and `nexthop`
list those of them they ask for; and what a row starts with, `prefix` finds. -/
theorem listings_agree (rustc : Option String) (rib : Rib) :
    ∃ keys : List PrefixKey, (keys.Pairwise fun k k' => rank k < rank k') ∧
      (∀ k, k ∈ keys ↔ (rib.locRib.lookup k).isSome) ∧ keys.length = (summary rib).2.2 ∧
      ∀ (state : MgmtState) (metrics : FullMetrics) (peers : IterOrder SocketAddr) (order : IterOrder PrefixKey),
        let answer := fun words => processCommand rustc ⟨state, rib, metrics, peers, order⟩ (command words)
        networks 4 (answer ["show", "bgp", "rib"]) = keys.map some ∧
        (∀ asn : UInt32, networks 2 (answer ["show", "bgp", "rib", "aspath", asn.toNat.repr]) =
          (keys.filter (ofKey rib fun e => asn ∈ asNumbers e.2.attrs)).map some) ∧
        (∀ target : Ipv4Addr, networks 2 (answer ["show", "bgp", "rib", "nexthop", target.toString]) =
          (keys.filter (ofKey rib fun e => e.2.attrs.nextHop = some target)).map some) ∧
        ∀ k : PrefixKey, answer ["show", "bgp", "rib", "prefix", k.toString] =
          (rib.locRib.lookup k).elim ("Prefix " ++ k.toString ++ " not found in Loc-RIB.\n")
            (prefixDetail k.toString) := by
  refine ⟨listedKeys rib, pairwise_listedKeys rib, fun k => mem_listedKeys, length_listedKeys rib, ?_⟩
  intro state metrics peers order
  exact ⟨networks_rib, networks_aspath, networks_nexthop, processCommand_prefix⟩

end Commands

end PathForge.Management
