import PathForge.DisplayTexts

namespace PathForge.Peering

open Texts Policy

/-- `Metrics`, with the counters that no session touches. -/
structure FullMetrics extends Metrics where
  messagesTxUpdate : UInt64 := 0
  routesAdvertised : UInt64 := 0
  parseErrors : UInt64 := 0
  fsmErrors : UInt64 := 0
  deriving DecidableEq

inductive MetricKind where
  | gauge | counter
  deriving DecidableEq

def MetricKind.toString : MetricKind → String
  | .gauge => "gauge"
  | .counter => "counter"

structure Metric where
  kind : MetricKind
  name : String
  help : String
  get : FullMetrics → UInt64

def Metric.lines (m : FullMetrics) (c : Metric) : List String :=
  ["# HELP " ++ c.name ++ " " ++ c.help,
    "# TYPE " ++ c.name ++ " " ++ c.kind.toString,
    c.name ++ " " ++ (c.get m).toNat.repr]

namespace FullMetrics

def metrics : List Metric :=
  [⟨.gauge, "bgp_sessions_active", "Currently active BGP sessions", fun m => m.sessionsActive⟩,
    ⟨.counter, "bgp_sessions_established_total", "Total BGP sessions ever established",
      fun m => m.sessionsEstablished⟩,
    ⟨.counter, "bgp_sessions_failed_total", "Total BGP session failures", fun m => m.sessionsFailed⟩,
    ⟨.counter, "bgp_messages_received_total\x7btype=\"open\"\x7d", "OPEN messages received",
      fun m => m.messagesRxOpen⟩,
    ⟨.counter, "bgp_messages_received_total\x7btype=\"keepalive\"\x7d", "KEEPALIVE messages received",
      fun m => m.messagesRxKeepalive⟩,
    ⟨.counter, "bgp_messages_received_total\x7btype=\"update\"\x7d", "UPDATE messages received",
      fun m => m.messagesRxUpdate⟩,
    ⟨.counter, "bgp_messages_received_total\x7btype=\"notification\"\x7d", "NOTIFICATION messages received",
      fun m => m.messagesRxNotification⟩,
    ⟨.counter, "bgp_messages_sent_total\x7btype=\"open\"\x7d", "OPEN messages sent", fun m => m.messagesTxOpen⟩,
    ⟨.counter, "bgp_messages_sent_total\x7btype=\"keepalive\"\x7d", "KEEPALIVE messages sent",
      fun m => m.messagesTxKeepalive⟩,
    ⟨.counter, "bgp_messages_sent_total\x7btype=\"update\"\x7d", "UPDATE messages sent",
      fun m => m.messagesTxUpdate⟩,
    ⟨.counter, "bgp_messages_sent_total\x7btype=\"notification\"\x7d", "NOTIFICATION messages sent",
      fun m => m.messagesTxNotification⟩,
    ⟨.counter, "bgp_routes_received_total", "Total routes received (NLRI)", fun m => m.routesReceived⟩,
    ⟨.counter, "bgp_routes_withdrawn_total", "Total routes withdrawn", fun m => m.routesWithdrawn⟩,
    ⟨.gauge, "bgp_routes_loc_rib", "Current routes in Loc-RIB", fun m => m.routesLocRib⟩,
    ⟨.counter, "bgp_routes_advertised_total", "Total routes advertised to peers", fun m => m.routesAdvertised⟩,
    ⟨.counter, "bgp_hold_timer_expirations_total", "Hold timer expiration events",
      fun m => m.holdTimerExpirations⟩,
    ⟨.counter, "bgp_parse_errors_total", "BGP message parse errors", fun m => m.parseErrors⟩,
    ⟨.counter, "bgp_fsm_errors_total", "BGP FSM state errors", fun m => m.fsmErrors⟩]

def prometheusText (m : FullMetrics) : String := ofLines (metrics.flatMap (Metric.lines m))

-- the source indents these lines in a string that drops the indent
def textSummary (m : FullMetrics) : String :=
  ofLines
    ["PathForge BGP Metrics",
      "=====================",
      "Sessions:",
      "active:      " ++ m.sessionsActive.toNat.repr,
      "established: " ++ m.sessionsEstablished.toNat.repr ++ " (total)",
      "failed:      " ++ m.sessionsFailed.toNat.repr ++ " (total)",
      "Messages received:",
      "OPEN:         " ++ m.messagesRxOpen.toNat.repr,
      "KEEPALIVE:    " ++ m.messagesRxKeepalive.toNat.repr,
      "UPDATE:       " ++ m.messagesRxUpdate.toNat.repr,
      "NOTIFICATION: " ++ m.messagesRxNotification.toNat.repr,
      "Messages sent:",
      "OPEN:         " ++ m.messagesTxOpen.toNat.repr,
      "KEEPALIVE:    " ++ m.messagesTxKeepalive.toNat.repr,
      "UPDATE:       " ++ m.messagesTxUpdate.toNat.repr,
      "NOTIFICATION: " ++ m.messagesTxNotification.toNat.repr,
      "Routes:",
      "Loc-RIB:    " ++ m.routesLocRib.toNat.repr,
      "received:   " ++ m.routesReceived.toNat.repr ++ " (total)",
      "withdrawn:  " ++ m.routesWithdrawn.toNat.repr ++ " (total)",
      "advertised: " ++ m.routesAdvertised.toNat.repr ++ " (total)",
      "Errors:",
      "hold timer:  " ++ m.holdTimerExpirations.toNat.repr,
      "parse:       " ++ m.parseErrors.toNat.repr,
      "fsm:         " ++ m.fsmErrors.toNat.repr]

end FullMetrics

section Scraping

/-- How a scraper reads a line: one that is not a comment is a name, a blank and a number. -/
def sample (line : List Char) : Option (String × ℕ) :=
  if line = [] ∨ line.head? = some '#' then none
  else (splitOnce ' ' line).map fun (name, value) => (String.ofList name, Nat.ofDigitChars 10 value 0)

def scrape (text : String) : List (String × ℕ) := (text.toList.splitOn '\n').filterMap sample

variable (m : FullMetrics)

def Metric.Readable (c : Metric) : Prop :=
  c.name.toList.head? = some 'b' ∧ ' ' ∉ c.name.toList ∧ '\n' ∉ c.name.toList ∧ '\n' ∉ c.help.toList

instance (c : Metric) : Decidable c.Readable := inferInstanceAs (Decidable (_ ∧ _))

theorem readable_metrics : ∀ c ∈ FullMetrics.metrics, c.Readable := by decide

variable {m} {c : Metric}

theorem Metric.newline_notMem_lines (hc : c.Readable) : ∀ l ∈ c.lines m, '\n' ∉ l.toList := by
  obtain ⟨-, -, hname, hhelp⟩ := hc
  have hkind : '\n' ∉ c.kind.toString.toList := by cases c.kind <;> decide
  have hvalue := (solid_toDigits (c.get m).toNat).notMem (c := '\n') rfl
  simp [lines, hname, hhelp, hkind, hvalue, Nat.toList_repr]

theorem Metric.filterMap_lines (hc : c.Readable) :
    ((c.lines m).map String.toList).filterMap sample = [(c.name, (c.get m).toNat)] := by
  obtain ⟨hhead, hblank, -, -⟩ := hc
  have hcomment (s : List Char) : sample ('#' :: s) = none := by simp [sample]
  have hname : c.name.toList ≠ [] := by
    intro he
    simp [he] at hhead
  have hvalue : sample (c.name ++ " " ++ (c.get m).toNat.repr).toList = some (c.name, (c.get m).toNat) := by
    have htext : (c.name ++ " " ++ (c.get m).toNat.repr).toList =
        c.name.toList ++ ' ' :: Nat.toDigits 10 (c.get m).toNat := by
      simp [Nat.toList_repr]
    rw [htext, sample, if_neg, splitOnce_append hblank]
    · simp [Nat.ofDigitChars_ten_toDigits]
    · rw [List.head?_append_of_ne_nil _ hname, not_or]
      exact ⟨by simp, by simp [hhead]⟩
  rw [lines, List.map_cons, List.map_cons, List.map_singleton, List.filterMap_cons_none, List.filterMap_cons_none,
    List.filterMap_cons_some hvalue, List.filterMap_nil]
  · simp [hcomment]
  · simp [hcomment]

theorem scrape_eq : scrape m.prometheusText = FullMetrics.metrics.map fun c => (c.name, (c.get m).toNat) := by
  rw [scrape, FullMetrics.prometheusText, splitOn_ofLines, List.filterMap_append]
  · rw [List.map_flatMap, List.filterMap_flatMap, List.map_eq_flatMap]
    exact (List.append_nil _).trans
      (List.flatMap_congr fun c hc => Metric.filterMap_lines (readable_metrics c hc))
  · rw [List.forall_mem_flatMap]
    exact fun c hc => Metric.newline_notMem_lines (readable_metrics c hc)

end Scraping

end PathForge.Peering
