import PathForge.ManagementSessions
import PathForge.ScheduleIndependence

namespace PathForge.Peering

open Tables Texts History Routing Management Session

def Counter.metric : Counter → String
  | .sessionsEstablished => "bgp_sessions_established_total"
  | .sessionsFailed => "bgp_sessions_failed_total"
  | .messagesRxOpen => "bgp_messages_received_total\x7btype=\"open\"\x7d"
  | .messagesRxKeepalive => "bgp_messages_received_total\x7btype=\"keepalive\"\x7d"
  | .messagesRxUpdate => "bgp_messages_received_total\x7btype=\"update\"\x7d"
  | .messagesRxNotification => "bgp_messages_received_total\x7btype=\"notification\"\x7d"
  | .messagesTxOpen => "bgp_messages_sent_total\x7btype=\"open\"\x7d"
  | .messagesTxKeepalive => "bgp_messages_sent_total\x7btype=\"keepalive\"\x7d"
  | .messagesTxNotification => "bgp_messages_sent_total\x7btype=\"notification\"\x7d"
  | .routesReceived => "bgp_routes_received_total"
  | .routesWithdrawn => "bgp_routes_withdrawn_total"
  | .holdTimerExpirations => "bgp_hold_timer_expirations_total"

namespace Daemon

/-- What the management commands read of a daemon. No session fills their table of peers. -/
def view (d : Daemon) (peers : IterOrder SocketAddr) (keys : IterOrder PrefixKey) : View :=
  { rib := d.rib, metrics := { toMetrics := d.metrics }, peers := peers, keys := keys }

section Routes

variable {actions actions' : List Action}

theorem distinct_of_keys (hd : ∀ k ∈ (actions.foldl act {}).rib.locRib.keys, (actions.foldl act {}).rib.Distinct k)
    (k : PrefixKey) : (actions.foldl act {}).rib.Distinct k := by
  by_cases hk : k ∈ (actions.foldl act {}).rib.locRib.keys
  · exact hd k hk
  · have hdecided := (running_foldl actions).reached.decided k
    intro p q s t hs
    rw [← AList.mem_keys, ← AList.lookup_isSome, hdecided.isSome_iff] at hk
    exact absurd ⟨p, Option.isSome_iff_exists.mpr ⟨s, hs⟩⟩ hk

theorem answers_scheduled (rustc : Option String) (actions actions' : List Action)
    (hs : starts actions = starts actions')
    (hn : ((starts actions).map Prod.fst).Nodup) (hg : ∀ j, given j 0 actions = given j 0 actions')
    (hd : ∀ k ∈ (actions.foldl act {}).rib.locRib.keys, (actions.foldl act {}).rib.Distinct k) {cmd : String}
    {words : List String} (hcmd : splitWhitespace cmd = "show" :: "bgp" :: "rib" :: words)
    (peers peers' : IterOrder SocketAddr) (keys keys' : IterOrder PrefixKey) :
    processCommand rustc ((actions.foldl act {}).view peers keys) cmd =
      processCommand rustc ((actions'.foldl act {}).view peers' keys') cmd :=
  processCommand_congr (fun k => lookup_eq_of_given hs hn hg (distinct_of_keys hd k)) hcmd

theorem answers_scheduled_sample :
    processCommand none
        (((bothStarts ++ speaking 0 sampleInput ++ speaking 1 laterInput).foldl act {}).view .listed .listed)
          "show bgp rib" =
      processCommand none
        (((bothStarts ++ speaking 1 laterInput ++ speaking 0 sampleInput).foldl act {}).view .listed .listed)
        "show bgp rib" := by
  have hg (j : ℕ) : given j 0 (bothStarts ++ speaking 0 sampleInput ++ speaking 1 laterInput) =
      given j 0 (bothStarts ++ speaking 1 laterInput ++ speaking 0 sampleInput) := by
    match j with
    | 0 => rfl
    | 1 => rfl
    | j + 2 => rfl
  have hn : ((starts (bothStarts ++ speaking 0 sampleInput ++ speaking 1 laterInput)).map Prod.fst).Nodup := by
    decide
  have hs : starts (bothStarts ++ speaking 0 sampleInput ++ speaking 1 laterInput) =
      starts (bothStarts ++ speaking 1 laterInput ++ speaking 0 sampleInput) := rfl
  have hkeys : ((bothStarts ++ speaking 0 sampleInput ++ speaking 1 laterInput).foldl act {}).rib.locRib.keys =
      [sampleKey] := by
    decide
  have hd : ∀ k ∈ ((bothStarts ++ speaking 0 sampleInput ++ speaking 1 laterInput).foldl act {}).rib.locRib.keys,
      ((bothStarts ++ speaking 0 sampleInput ++ speaking 1 laterInput).foldl act {}).rib.Distinct k := by
    rw [hkeys, List.forall_mem_singleton]
    decide
  have hcmd : splitWhitespace "show bgp rib" = ["show", "bgp", "rib"] := by decide
  exact answers_scheduled none _ _ hs hn hg hd hcmd _ _ _ _

theorem answer_prefix (rustc : Option String) (actions : List Action) (peers : IterOrder SocketAddr)
    (keys : IterOrder PrefixKey) (k : PrefixKey) :
    let d := actions.foldl act {}
    let answer := processCommand rustc (d.view peers keys) (command ["show", "bgp", "rib", "prefix", k.toString])
    (answer = "Prefix " ++ k.toString ++ " not found in Loc-RIB.\n" ∧ ∀ p, d.rib.route p k = none) ∨
      ∃ route, answer = prefixDetail k.toString route ∧ route.peerAddr ∈ d.addrs ∧
        d.rib.route route.peerAddr k = some route ∧ ∀ p s, d.rib.route p k = some s → ¬ s.rank < route.rank := by
  intro d answer
  have hdecided : d.rib.Decided k := (running_foldl actions).reached.decided k
  have hanswer : answer = (d.rib.locRib.lookup k).elim ("Prefix " ++ k.toString ++ " not found in Loc-RIB.\n")
      (prefixDetail k.toString) := processCommand_prefix k
  rcases hb : d.rib.locRib.lookup k with _ | route
  · refine Or.inl ⟨by rw [hanswer, hb]; rfl, ?_⟩
    intro p
    rw [Option.eq_none_iff_forall_ne_some]
    intro s hs
    have hsome := hdecided.isSome_iff.mpr ⟨p, Option.isSome_iff_exists.mpr ⟨s, hs⟩⟩
    rw [hb] at hsome
    cases hsome
  · have hroute := (current_foldl actions).best_route hdecided hb
    exact Or.inr ⟨route, by rw [hanswer, hb]; rfl, mem_addrs_of_route actions hroute, hroute,
      hdecided.best route hb⟩

end Routes

section Counters

variable {v : View}

theorem mem_scrape (c : Counter) (n : ℕ) :
    (c.metric, n) ∈ scrape v.metrics.prometheusText ↔ n = (v.metrics.get c).toNat := by
  rw [scrape_eq]
  cases c <;> simp [FullMetrics.metrics, Counter.metric, Metrics.get, eq_comm]

theorem scrape_counts (rustc : Option String) (actions : List Action) (peers : IterOrder SocketAddr)
    (keys : IterOrder PrefixKey) (c : Counter) (n : ℕ) :
    (c.metric, n) ∈ scrape (processCommand rustc ((actions.foldl act {}).view peers keys) "metrics") ↔
      n = tally act (counts c) {} actions % 2 ^ 64 := by
  have hsplit : splitWhitespace "metrics" = ["metrics"] := by decide
  have hanswer (v : View) : processCommand rustc v "metrics" = v.metrics.prometheusText := by
    unfold processCommand
    rw [hsplit]
    rfl
  have hvalue : ((actions.foldl act {}).metrics.get c).toNat = tally act (counts c) {} actions % 2 ^ 64 := by
    rw [get_foldl, get_new, UInt64.zero_add, UInt64.toNat_ofNat']
  rw [hanswer, mem_scrape, ← hvalue]
  rfl

end Counters

end Daemon

end PathForge.Peering
