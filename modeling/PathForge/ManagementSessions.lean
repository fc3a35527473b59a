import PathForge.ManagementViews

namespace PathForge.Management

open Tables Texts Wire Routing Peering Policy

/-- The lines `next_line` yields. The carriage return it drops from one, `trim` drops as well. -/
def inputLines (input : String) : List String :=
  let ls := input.toList.splitOn '\n'
  (if ls.getLast? = some [] then ls.dropLast else ls).map fun l => String.ofList (trim l)

/-- What is written to a client over the whole of a connection, where `view i` is what there is to read when
its line `i` is taken. -/
def handleMgmtConn (rustc : Option String) (view : ℕ → View) (input : String) : String :=
  let responses := (inputLines input).zipIdx.map fun (line, i) => processCommand rustc (view i) line
  "PathForge BGP Management\n> " ++ String.join (responses.map fun response => response ++ "\n> ")

section Tame

def Tame (l : String) : Prop := OneLine l ∧ l.toList.head? ≠ some '>'

def Titled (l : String) : Prop := Tame l ∧ l ≠ ""

instance (l : String) : Decidable (OneLine l) := inferInstanceAs (Decidable (¬ _))
instance (l : String) : Decidable (Tame l) := inferInstanceAs (Decidable (_ ∧ _))
instance (l : String) : Decidable (Titled l) := inferInstanceAs (Decidable (_ ∧ _))

theorem Titled.append {s t : String} (hs : Titled s) (ht : OneLine t) : Titled (s ++ t) := by
  obtain ⟨⟨hline, hhead⟩, hne⟩ := hs
  have hnil : s.toList ≠ [] := by simpa using hne
  refine ⟨⟨hline.append ht, ?_⟩, ?_⟩
  · rwa [String.toList_append, List.head?_append_of_ne_nil _ hnil]
  · intro h
    have hl := congrArg String.toList h
    simp [hne] at hl

def Plain (s : String) : Prop := ∀ l ∈ s.toList.splitOn '\n', l.head? ≠ some '>'

instance (s : String) : Decidable (Plain s) := inferInstanceAs (Decidable (∀ _ ∈ _, _))

theorem plain_ofLines {ls : List String} (h : ∀ l ∈ ls, Tame l) : Plain (ofLines ls) := by
  intro l hl
  rw [splitOn_ofLines fun l hl => (h l hl).1, List.mem_append, List.mem_map, List.mem_singleton] at hl
  rcases hl with ⟨s, hs, rfl⟩ | rfl
  · exact (h s hs).2
  · simp

theorem ofLines_singleton (s : String) : ofLines [s] = s ++ "\n" := by
  simp [ofLines, String.join_cons]

theorem ofLines_append (ls ls' : List String) : ofLines (ls ++ ls') = ofLines ls ++ ofLines ls' := by
  rw [ofLines, List.map_append, String.join_append]
  rfl

theorem Titled.plain {s : String} (h : Titled s) : Plain (s ++ "\n") := by
  rw [← ofLines_singleton]
  exact plain_ofLines (List.forall_mem_singleton.mpr h.1)

theorem Titled.plain_append {title x close text : String} (ht : Titled title) (hx : OneLine x)
    (hclose : OneLine close) (htext : text = close ++ "\n") : Plain (title ++ x ++ text) := by
  rw [htext, ← String.append_assoc]
  exact ((ht.append hx).append hclose).plain

theorem Plain.not_prefix {s : String} (h : Plain s) : ∀ l ∈ s.toList.splitOn '\n', ¬ ['>', ' '] <+: l := by
  intro l hl hprefix
  apply h l hl
  obtain ⟨t, rfl⟩ := hprefix
  rfl

theorem Plain.quiet {s : String} (h : Plain s) : Quiet ['>', ' '] s.toList :=
  fun l hl => h.not_prefix l (List.mem_of_mem_tail hl)

end Tame

section Columns

theorem hexDigit_notMem (n : ℕ) : '\n' ∉ Nat.toDigits 16 n := by
  have hdigit : ∀ n < 16, '\n' ∉ [n.digitChar] := by decide
  induction n using Nat.strongRecOn with
  | ind n ih =>
    rw [Nat.toDigits_eq_if (by decide)]
    split_ifs with hsmall
    · exact hdigit n hsmall
    · rw [List.mem_append, not_or]
      exact ⟨ih (n / 16) (by omega), hdigit (n % 16) (Nat.mod_lt _ (by decide))⟩

theorem oneLine_ipv4Addr (a : Ipv4Addr) : OneLine a.toString := Solid.oneLine (solid_toString a)

theorem oneLine_subslice (chunk : List ℕ) : OneLine (Ipv6Addr.subslice chunk) := by
  apply OneLine.intercalate (by decide)
  rw [List.forall_mem_map]
  intro n _
  rw [OneLine, String.toList_ofList]
  exact hexDigit_notMem n

theorem oneLine_ipv6Addr (a : Ipv6Addr) : OneLine a.toString := by
  unfold Ipv6Addr.toString
  split
  · exact OneLine.append (by decide) (oneLine_ipv4Addr _)
  · dsimp only
    split_ifs
    · exact ((oneLine_subslice _).append (by decide)).append (oneLine_subslice _)
    · exact oneLine_subslice _

theorem oneLine_socketAddr (a : SocketAddr) : OneLine a.toString := by
  cases a with
  | v4 ip port => exact ((oneLine_ipv4Addr ip).append (by decide)).append (oneLine_repr _)
  | v6 ip port flowinfo scopeId =>
    have hopen : OneLine ("[" ++ ip.toString) := OneLine.append (by decide) (oneLine_ipv6Addr ip)
    rw [SocketAddr.toString]
    split_ifs
    · exact (hopen.append (by decide)).append (oneLine_repr _)
    · exact (((hopen.append (by decide)).append (oneLine_repr _)).append (by decide)).append (oneLine_repr _)

theorem oneLine_community (c : Community) : OneLine c.toString := by
  rcases toString_cases c with ⟨-, h⟩ | ⟨-, h⟩ | ⟨-, h⟩ | h
  · rw [h]; decide
  · rw [h]; decide
  · rw [h]; decide
  · rw [OneLine, h, numeric, List.mem_append, List.mem_cons, not_or, not_or]
    exact ⟨not_mem_toDigits _ rfl, by decide, not_mem_toDigits _ rfl⟩

end Columns

section Answers

variable {v : View} {rustc : Option String}

theorem Shows.titled {row : PrefixKey × Route → String} (h : Shows row) (e : PrefixKey × Route) :
    Tame (row e) := by
  refine ⟨h.oneLine e, ?_⟩
  obtain ⟨t, ht⟩ := h.starts e
  have hkey : '>' ∉ e.1.toString.toList := by
    rw [e.1.toString_toList, List.mem_append, List.mem_cons, not_or, not_or]
    exact ⟨notMem_toString _ rfl (by decide), by decide, not_mem_toDigits _ rfl⟩
  have hne : e.1.toString.toList ≠ [] := by simpa using e.1.toString_ne_empty
  rw [ht, List.head?_append_of_ne_nil _ hne]
  intro hhead
  exact hkey (List.mem_of_head? hhead)

theorem plain_cmdBgpRib : Plain (cmdBgpRib v) := by
  unfold cmdBgpRib
  split_ifs
  · decide
  · apply plain_ofLines
    rw [List.forall_mem_append, List.forall_mem_map]
    exact ⟨by decide, fun e _ => shows_ribRow.titled e⟩

theorem plain_cmdMatches {p : PrefixKey × Route → Bool} {empty title : String} {row : PrefixKey × Route → String}
    (h : Shows row) (hempty : Titled empty) (htitle : Titled title) : Plain (cmdMatches v p empty title row) := by
  unfold cmdMatches
  split_ifs
  · exact hempty.plain
  · apply plain_ofLines
    rw [List.forall_mem_append, List.forall_mem_map, List.forall_mem_cons]
    exact ⟨⟨htitle.1, by decide⟩, fun e _ => h.titled e⟩

theorem plain_prefixDetail {pfx : String} (hpfx : OneLine pfx) (route : Route) :
    Plain (prefixDetail pfx route) := by
  have hcommunities : ∃ ls : List String, (∀ l ∈ ls, Tame l) ∧ communitiesLine route.attrs = ofLines ls := by
    unfold communitiesLine
    split_ifs
    · exact ⟨[], by simp, rfl⟩
    · refine ⟨["  Communities:     " ++ " ".intercalate (route.attrs.communities.map Community.toString)], ?_, ?_⟩
      · rw [List.forall_mem_singleton]
        refine (Titled.append (by decide) (OneLine.intercalate (by decide) ?_)).1
        rw [List.forall_mem_map]
        exact fun c _ => oneLine_community c
      · rw [ofLines_singleton]
  obtain ⟨ls, hls, hline⟩ := hcommunities
  rw [prefixDetail, hline, ← ofLines_append]
  apply plain_ofLines
  rw [List.forall_mem_append]
  refine ⟨?_, hls⟩
  have hempty : OneLine "(empty)" := by decide
  simp only [List.forall_mem_cons, List.not_mem_nil, false_implies, implies_true, and_true]
  exact ⟨(Titled.append (by decide) hpfx).1, (Titled.append (by decide) (oneLine_socketAddr _)).1,
    (Titled.append (by decide) (oneLine_repr _)).1, (Titled.append (by decide) (oneLine_nextHopText _)).1,
    (Titled.append (by decide) (oneLine_repr _)).1, (Titled.append (by decide) (oneLine_repr _)).1,
    (Titled.append (by decide) (oneLine_originText _)).1,
      (Titled.append (by decide) (oneLine_asPathOr _ hempty)).1⟩

theorem eq_append_of_splitOnce {c : Char} {s before after : List Char} (h : splitOnce c s = some (before, after)) :
    ∃ c', s = before ++ c' :: after := by
  have hs := List.takeWhile_append_dropWhile (p := fun x => decide (x ≠ c)) (l := s)
  rw [splitOnce, List.span_eq_takeWhile_dropWhile] at h
  split at h
  · cases h
  · rename_i before' c' after' hspan
    obtain ⟨rfl, rfl⟩ := Prod.mk.inj (Option.some.inj h)
    obtain ⟨hb, ha⟩ := Prod.mk.inj hspan
    rw [hb, ha] at hs
    exact ⟨c', hs.symm⟩

theorem plain_cmdBgpRibPrefix {pfx : String} (hpfx : OneLine pfx) : Plain (cmdBgpRibPrefix v pfx) := by
  have hquote : OneLine "'" := by decide
  unfold cmdBgpRibPrefix
  split
  · exact Titled.plain_append (by decide) hpfx (show OneLine "'. Use X.X.X.X/LEN" by decide) rfl
  · rename_i addrS lenS hsplit
    obtain ⟨c, hparts⟩ := eq_append_of_splitOnce hsplit
    rw [OneLine, hparts, List.mem_append, List.mem_cons, not_or, not_or] at hpfx
    split
    · exact Titled.plain_append (by decide) (by simpa [OneLine] using hpfx.1) hquote rfl
    · split
      · exact Titled.plain_append (by decide) (by simpa [OneLine] using hpfx.2.2) hquote rfl
      · have hpfx : OneLine pfx := by
          rw [OneLine, hparts, List.mem_append, List.mem_cons, not_or, not_or]
          exact hpfx
        split
        · exact plain_prefixDetail hpfx _
        · exact Titled.plain_append (by decide) hpfx (show OneLine " not found in Loc-RIB." by decide) rfl

theorem plain_cmdBgpRibAspath {asn : String} (hasn : OneLine asn) : Plain (cmdBgpRibAspath v asn) := by
  unfold cmdBgpRibAspath
  split
  · exact Titled.plain_append (by decide) hasn (show OneLine "'" by decide) rfl
  · apply plain_cmdMatches shows_asPathRow
    · exact Titled.append (Titled.append (by decide) (oneLine_repr _)) (by decide)
    · exact Titled.append (Titled.append (by decide) (oneLine_repr _)) (by decide)

theorem plain_cmdBgpRibNexthop {ip : String} (hip : OneLine ip) : Plain (cmdBgpRibNexthop v ip) := by
  unfold cmdBgpRibNexthop
  split
  · exact Titled.plain_append (by decide) hip (show OneLine "'" by decide) rfl
  · apply plain_cmdMatches shows_nextHopRow
    · exact Titled.append (Titled.append (by decide) (oneLine_ipv4Addr _)) (by decide)
    · exact Titled.append (by decide) (oneLine_ipv4Addr _)

theorem plain_textSummary (m : FullMetrics) : Plain m.textSummary := by
  apply plain_ofLines
  have hrow (n : UInt64) {title : String} (h : Titled title) : Tame (title ++ n.toNat.repr) :=
    (h.append (oneLine_repr _)).1
  have htotal (n : UInt64) {title : String} (h : Titled title) : Tame (title ++ n.toNat.repr ++ " (total)") :=
    ((h.append (oneLine_repr _)).append (by decide)).1
  simp only [List.forall_mem_cons, List.not_mem_nil, false_implies, implies_true, and_true]
  exact ⟨by decide, by decide, by decide, hrow _ (by decide), htotal _ (by decide), htotal _ (by decide),
    by decide, hrow _ (by decide), hrow _ (by decide), hrow _ (by decide), hrow _ (by decide),
    by decide, hrow _ (by decide), hrow _ (by decide), hrow _ (by decide), hrow _ (by decide),
    by decide, hrow _ (by decide), htotal _ (by decide), htotal _ (by decide), htotal _ (by decide),
    by decide, hrow _ (by decide), hrow _ (by decide), hrow _ (by decide)⟩

theorem plain_prometheusText (m : FullMetrics) : Plain m.prometheusText := by
  have hkind (c : Metric) : OneLine c.kind.toString := by
    unfold MetricKind.toString
    split <;> decide
  apply plain_ofLines
  rw [List.forall_mem_flatMap]
  intro c hc
  obtain ⟨hhead, -, hline, hhelp⟩ := readable_metrics c hc
  have hname : Titled c.name := by
    refine ⟨⟨hline, by simp [hhead]⟩, ?_⟩
    intro he
    simp [he] at hhead
  simp only [Metric.lines, List.forall_mem_cons, List.not_mem_nil, false_implies, implies_true, and_true]
  have hblank : OneLine " " := by decide
  exact ⟨(((Titled.append (by decide) hname.1.1).append hblank).append hhelp).1,
    (((Titled.append (by decide) hname.1.1).append hblank).append (hkind c)).1,
    ((hname.append hblank).append (oneLine_repr _)).1⟩

theorem plain_cmdBgpSummary (hs : v.state = {}) : Plain (cmdBgpSummary v) := by
  have hcount : Tame ("Total prefixes in Loc-RIB: " ++ (summary v.rib).2.2.repr) :=
    (Titled.append (by decide) (oneLine_repr _)).1
  rw [cmdBgpSummary, hs, HashMap.iterBy_empty]
  apply plain_ofLines
  simp only [List.map_nil, List.append_nil, List.forall_mem_append, List.forall_mem_cons, List.not_mem_nil,
    false_implies, implies_true, and_true]
  exact ⟨⟨by decide, by decide, hcount, by decide, by decide, by decide⟩, by decide⟩

theorem plain_cmdBgpNeighbors (hs : v.state = {}) (ip : Option String) : Plain (cmdBgpNeighbors v ip) := by
  have hnone : cmdBgpNeighbors v ip = "No matching neighbors.\n" := by
    unfold cmdBgpNeighbors
    rw [hs, HashMap.iterBy_empty]
    cases ip <;> rfl
  rw [hnone]
  decide

theorem plain_cmdVersion (hrustc : ∀ s ∈ rustc, OneLine s) : Plain (cmdVersion rustc) := by
  have hname : OneLine (rustc.getD "unknown") := by
    cases rustc with
    | none => decide
    | some s => exact hrustc s rfl
  apply plain_ofLines
  simp only [List.forall_mem_cons, List.not_mem_nil, false_implies, implies_true, and_true]
  exact ⟨by decide, by decide, (Titled.append (by decide) hname).1⟩

theorem plain_cmdHelp : Plain cmdHelp := by
  apply plain_ofLines
  simp [Tame, OneLine]

theorem plain_unknown {cmd : String} (hcmd : OneLine cmd) :
    Plain ("Unknown command: '" ++ cmd ++ "'\nType 'help' for available commands.\n") := by
  have hlines : "Unknown command: '" ++ cmd ++ "'\nType 'help' for available commands.\n" =
      ofLines ["Unknown command: '" ++ cmd ++ "'", "Type 'help' for available commands."] := by
    simp [ofLines, String.join_cons, String.append_assoc]
  rw [hlines]
  apply plain_ofLines
  simp only [List.forall_mem_cons, List.not_mem_nil, false_implies, implies_true, and_true]
  exact ⟨((Titled.append (by decide) hcmd).append (by decide)).1, by decide⟩

theorem plain_processCommand {cmd : String} (hs : v.state = {}) (hrustc : ∀ s ∈ rustc, OneLine s)
    (hcmd : OneLine cmd) :
    Plain (processCommand rustc v cmd) := by
  have hword {w : String} (hw : w ∈ splitWhitespace cmd) : OneLine w :=
    fun h => hcmd (of_mem_splitWhitespace hw _ h)
  unfold processCommand
  split
  · exact plain_cmdBgpSummary hs
  · exact plain_cmdBgpRib
  · rename_i h
    exact plain_cmdBgpRibPrefix (hword (by rw [h]; simp))
  · rename_i h
    exact plain_cmdBgpRibAspath (hword (by rw [h]; simp))
  · rename_i h
    exact plain_cmdBgpRibNexthop (hword (by rw [h]; simp))
  · exact plain_cmdBgpNeighbors hs _
  · exact plain_cmdBgpNeighbors hs _
  · exact plain_textSummary _
  · exact plain_prometheusText _
  · exact plain_cmdVersion hrustc
  · exact plain_cmdHelp
  · exact plain_cmdHelp
  · decide
  · decide
  · exact plain_unknown hcmd

theorem oneLine_inputLines {input line : String} (h : line ∈ inputLines input) : OneLine line := by
  have hsub : ∀ ls : List (List Char), (if ls.getLast? = some [] then ls.dropLast else ls) ⊆ ls := by
    intro ls
    split_ifs
    · exact (List.dropLast_sublist ls).subset
    · exact List.Subset.refl ls
  obtain ⟨l, hl, rfl⟩ := List.mem_map.mp h
  rw [OneLine, String.toList_ofList]
  exact fun hc => newline_notMem_of_mem_splitOn (hsub _ hl) (of_mem_trim hc)

theorem toList_prompted (responses : List String) :
    ("PathForge BGP Management\n> " ++ String.join (responses.map fun response => response ++ "\n> ")).toList =
      "PathForge BGP Management".toList ++ '\n' :: prompted ['>', ' '] (responses.map String.toList) := by
  have hgreeting : "PathForge BGP Management\n> ".toList = "PathForge BGP Management".toList ++
      ['\n', '>', ' '] := by
    decide
  rw [prompted_eq, String.toList_append, hgreeting, String.toList_join, List.flatMap_map, List.flatMap_map]
  simp

theorem readAnswers_responses {responses : List String}
    (h : ∀ response ∈ responses, Quiet ['>', ' '] response.toList) :
    readAnswers ['>', ' '] ("PathForge BGP Management".toList ++ '\n' ::
      prompted ['>', ' '] (responses.map String.toList)) =
      responses.map String.toList := by
  have hgreeting : Plain "PathForge BGP Management" := by decide
  apply readAnswers_prompted (by decide) hgreeting.not_prefix
  rwa [List.forall_mem_map]

/-- Whatever a client sends, and whatever the sessions do in the meantime, the answers it has been sent can be
told apart: one for each of its lines, in their order, also for those after a `quit`. -/
theorem readAnswers_handleMgmtConn (view : ℕ → View) (hview : ∀ i, (view i).state = {})
    (hrustc : ∀ s ∈ rustc, OneLine s) (input : String) :
    (readAnswers ['>', ' '] (handleMgmtConn rustc view input).toList).map String.ofList =
      (inputLines input).zipIdx.map fun (line, i) => processCommand rustc (view i) line := by
  have hquiet : ∀ response ∈ (inputLines input).zipIdx.map fun (line, i) => processCommand rustc (view i) line,
      Quiet ['>', ' '] response.toList := by
    rw [List.forall_mem_map]
    rintro ⟨line, i⟩ hline
    have hmem : line ∈ inputLines input := (List.mem_zipIdx' hline).2 ▸ List.getElem_mem _
    exact (plain_processCommand (hview i) hrustc (oneLine_inputLines hmem)).quiet
  unfold handleMgmtConn
  generalize (inputLines input).zipIdx.map (fun (line, i) => processCommand rustc (view i) line) =
    responses at hquiet ⊢
  dsimp only
  rw [toList_prompted, readAnswers_responses hquiet, List.map_map]
  exact (List.map_congr_left fun response _ => String.ofList_toList).trans (List.map_id responses)

theorem readAnswers_handleMgmtConn_sample :
    (readAnswers ['>', ' ']
      (handleMgmtConn none (fun _ => { rib := .new, metrics := {} }) "quit\nversion\n").toList).map
        String.ofList = ["Bye!\n", "PathForge BGP daemon\nVersion: 0.1.0\nRustc:   unknown\n"] := by
  rw [readAnswers_handleMgmtConn _ (fun _ => rfl) (by simp)]
  decide

end Answers

end PathForge.Management
