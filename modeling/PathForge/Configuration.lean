import PathForge.DisplayTexts
import PathForge.SpeakerPair

namespace PathForge.Configuration

open Peering Session

structure RouterConfig where
  localAs : UInt32
  routerId : Ipv4Addr
  listen : SocketAddr := .v4 (.new 0 0 0 0) 179
  holdTime : UInt16 := 90
  keepaliveInterval : Option UInt16 := none
  deriving DecidableEq

structure NeighborConfig where
  addr : IpAddr
  remoteAs : UInt32
  holdTime : Option UInt16 := none
  md5Password : Option String := none
  deriving DecidableEq

structure Config where
  router : RouterConfig
  neighbors : List NeighborConfig := []
  deriving DecidableEq

def bailIf (fault : Bool) (message : String) : Except String Unit := if fault then .error message else .ok ()

def shortHoldTime (secs : UInt16) : Bool := secs != 0 && decide (secs < 3)

namespace RouterConfig

def check (r : RouterConfig) : Except String Unit := do
  bailIf (r.localAs == 0) "local_as must be non-zero"
  bailIf (r.routerId == .new 0 0 0 0) "router_id must not be 0.0.0.0"
  bailIf (r.routerId == .new 255 255 255 255) "router_id must not be 255.255.255.255"
  bailIf (r.routerId.octets.toList.head? == some 127) "router_id must not be a loopback address (127.x.x.x)"
  bailIf (shortHoldTime r.holdTime) "hold_time must be 0 or >= 3 seconds (RFC 4271)"
  bailIf (r.keepaliveInterval == some 0) "keepalive_interval must be > 0"
  bailIf (r.keepaliveInterval.any fun ka => r.holdTime != 0 && decide (r.holdTime ≤ ka))
    "keepalive_interval must be less than hold_time"

structure Sound (r : RouterConfig) : Prop where
  localAs : r.localAs ≠ 0
  unspecified : r.routerId ≠ .new 0 0 0 0
  broadcast : r.routerId ≠ .new 255 255 255 255
  loopback : r.routerId.octets.toList.head? ≠ some 127
  holdTime : ValidHoldTime r.holdTime
  keepalive : ∀ ka ∈ r.keepaliveInterval, ka ≠ 0 ∧ (r.holdTime = 0 ∨ ka < r.holdTime)

end RouterConfig

namespace NeighborConfig

def check (seenAddrs : List IpAddr) (n : NeighborConfig) : Except String (List IpAddr) := do
  bailIf (seenAddrs.contains n.addr) ("duplicate neighbor address: " ++ n.addr.toString)
  bailIf (n.remoteAs == 0) ("neighbor " ++ n.addr.toString ++ ": remote_as must be non-zero")
  bailIf (n.holdTime.any shortHoldTime) ("neighbor " ++ n.addr.toString ++ ": hold_time must be 0 or >= 3 seconds")
  bailIf (n.md5Password == some "") ("neighbor " ++ n.addr.toString ++ ": md5_password must not be empty")
  bailIf (n.md5Password.any fun pw => decide (80 < pw.utf8ByteSize))
    ("neighbor " ++ n.addr.toString ++ ": md5_password exceeds 80 bytes (RFC 2385)")
  return n.addr :: seenAddrs

structure Sound (n : NeighborConfig) : Prop where
  remoteAs : n.remoteAs ≠ 0
  holdTime : ∀ secs ∈ n.holdTime, ValidHoldTime secs
  md5Password : ∀ pw ∈ n.md5Password, pw ≠ "" ∧ pw.utf8ByteSize ≤ 80

end NeighborConfig

namespace Config

def validate (c : Config) : Except String Unit := do
  c.router.check
  let _ ← c.neighbors.foldlM NeighborConfig.check []
  return ()

structure Sound (c : Config) : Prop where
  router : c.router.Sound
  distinct : (c.neighbors.map NeighborConfig.addr).Nodup
  neighbors : ∀ n ∈ c.neighbors, n.Sound

end Config

section Checks

variable {α : Type} {fault : Bool} {message e : String} {next : Unit → Except String α} {a : α}

theorem bailIf_eq_ok : bailIf fault message = .ok () ↔ fault = false := by
  cases fault <;> simp [bailIf]

theorem bailIf_eq_error : bailIf fault message = .error e ↔ fault = true ∧ message = e := by
  cases fault <;> simp [bailIf]

theorem bind_eq_ok {x : Except String Unit} : (x >>= next) = .ok a ↔ x = .ok () ∧ next () = .ok a := by
  cases x <;> simp [Bind.bind, Except.bind]

theorem bind_eq_error {x : Except String Unit} :
    (x >>= next) = .error e ↔ x = .error e ∨ x = .ok () ∧ next () = .error e := by
  cases x <;> simp [Bind.bind, Except.bind]

theorem shortHoldTime_eq_false {secs : UInt16} : shortHoldTime secs = false ↔ ValidHoldTime secs := by
  rw [shortHoldTime, ValidHoldTime, Bool.and_eq_false_iff, decide_eq_false_iff_not, UInt16.not_lt,
    bne_eq_false_iff_eq]

theorem RouterConfig.check_eq_ok {r : RouterConfig} : r.check = .ok () ↔ r.Sound := by
  have hkeepalive : (r.keepaliveInterval ≠ some 0 ∧
      (r.keepaliveInterval.any fun ka => r.holdTime != 0 && decide (r.holdTime ≤ ka)) = false) ↔
        ∀ ka ∈ r.keepaliveInterval, ka ≠ 0 ∧ (r.holdTime = 0 ∨ ka < r.holdTime) := by
    cases r.keepaliveInterval with
    | none => simp
    | some ka => simp [UInt16.not_le, Classical.or_iff_not_imp_left]
  simp only [check, bind_eq_ok, bailIf_eq_ok, shortHoldTime_eq_false, beq_eq_false_iff_ne, hkeepalive]
  constructor
  · rintro ⟨has, hzero, hones, hloop, hhold, hka⟩
    exact ⟨has, hzero, hones, hloop, hhold, hka⟩
  · rintro ⟨has, hzero, hones, hloop, hhold, hka⟩
    exact ⟨has, hzero, hones, hloop, hhold, hka⟩

theorem NeighborConfig.check_eq_ok {n : NeighborConfig} {seen seen' : List IpAddr} :
    n.check seen = .ok seen' ↔ n.addr ∉ seen ∧ n.Sound ∧ seen' = n.addr :: seen := by
  have hdistinct : seen.contains n.addr = false ↔ n.addr ∉ seen := by simp
  have hhold : n.holdTime.any shortHoldTime = false ↔ ∀ secs ∈ n.holdTime, ValidHoldTime secs := by
    cases n.holdTime with
    | none => simp
    | some secs => simp [shortHoldTime_eq_false]
  have hpassword : (n.md5Password ≠ some "" ∧
      (n.md5Password.any fun pw => decide (80 < pw.utf8ByteSize)) = false) ↔
      ∀ pw ∈ n.md5Password, pw ≠ "" ∧ pw.utf8ByteSize ≤ 80 := by
    cases n.md5Password with
    | none => simp
    | some pw => simp
  simp only [check, bind_eq_ok, bailIf_eq_ok, beq_eq_false_iff_ne, hdistinct, hhold]
  constructor
  · rintro ⟨hd, has, hh, hempty, hlong, hs⟩
    exact ⟨hd, ⟨has, hh, hpassword.mp ⟨hempty, hlong⟩⟩, (Except.ok.inj hs).symm⟩
  · rintro ⟨hd, ⟨has, hh, hpw⟩, rfl⟩
    obtain ⟨hempty, hlong⟩ := hpassword.mpr hpw
    exact ⟨hd, has, hh, hempty, hlong, rfl⟩

theorem NeighborConfig.check_eq_error {n : NeighborConfig} {seen : List IpAddr} (h : n.check seen = .error e) :
    n.addr ∈ seen ∧ e = "duplicate neighbor address: " ++ n.addr.toString ∨
      n.addr ∉ seen ∧ ¬ n.Sound ∧ ∃ fault, e = "neighbor " ++ n.addr.toString ++ fault := by
  have hunsound : n.addr ∉ seen → ¬ n.Sound := by
    intro hd hs
    rw [check_eq_ok.mpr ⟨hd, hs, rfl⟩] at h
    cases h
  simp only [check, bind_eq_error, bailIf_eq_error, bailIf_eq_ok] at h
  rcases h with ⟨hd, he⟩ | ⟨hd, h⟩
  · exact .inl ⟨by simpa using hd, he.symm⟩
  · rw [List.contains_eq_mem, decide_eq_false_iff_not] at hd
    refine .inr ⟨hd, hunsound hd, ?_⟩
    rcases h with ⟨-, he⟩ | ⟨-, ⟨-, he⟩ | ⟨-, ⟨-, he⟩ | ⟨-, ⟨-, he⟩ | ⟨-, he⟩⟩⟩⟩
    · exact ⟨_, he.symm⟩
    · exact ⟨_, he.symm⟩
    · exact ⟨_, he.symm⟩
    · exact ⟨_, he.symm⟩
    · cases he

end Checks

section Neighbors

variable {ns : List NeighborConfig} {seen seen' : List IpAddr} {e : String}

theorem foldlM_check_eq_ok :
    ns.foldlM NeighborConfig.check seen = .ok seen' ↔
      (ns.map NeighborConfig.addr).Nodup ∧ (∀ n ∈ ns, n.addr ∉ seen) ∧ (∀ n ∈ ns, n.Sound) ∧
        seen' = (ns.map NeighborConfig.addr).reverse ++ seen := by
  induction ns generalizing seen with
  | nil =>
    rw [List.foldlM_nil]
    exact ⟨fun h => ⟨List.nodup_nil, by simp, by simp, (Except.ok.inj h).symm⟩, fun h => by rw [h.2.2.2]; rfl⟩
  | cons n ns ih =>
    rw [List.foldlM_cons, List.map_cons, List.nodup_cons, List.forall_mem_cons, List.forall_mem_cons,
      List.reverse_cons, List.append_assoc]
    cases hn : n.check seen with
    | ok seen₁ =>
      obtain ⟨hd, hs, rfl⟩ := NeighborConfig.check_eq_ok.mp hn
      refine (@ih (n.addr :: seen)).trans ?_
      have hlater : (∀ m ∈ ns, m.addr ∉ n.addr :: seen) ↔
          n.addr ∉ ns.map NeighborConfig.addr ∧ ∀ m ∈ ns, m.addr ∉ seen := by
        simp only [List.mem_cons, not_or, forall_and, List.mem_map, not_exists, not_and]
      rw [hlater]
      constructor
      · rintro ⟨hnodup, ⟨hne, hfresh⟩, hsound, rfl⟩
        exact ⟨⟨hne, hnodup⟩, ⟨hd, hfresh⟩, ⟨hs, hsound⟩, rfl⟩
      · rintro ⟨⟨hne, hnodup⟩, ⟨-, hfresh⟩, ⟨-, hsound⟩, rfl⟩
        exact ⟨hnodup, ⟨hne, hfresh⟩, hsound, rfl⟩
    | error e =>
      refine iff_of_false (by intro h; cases h) ?_
      rintro ⟨⟨hd, -⟩, ⟨hfresh, -⟩, ⟨hs, -⟩, -⟩
      rw [NeighborConfig.check_eq_ok.mpr ⟨hfresh, hs, rfl⟩] at hn
      cases hn

theorem foldlM_check_eq_error (h : ns.foldlM NeighborConfig.check seen = .error e) :
    ∃ before n after seen', ns = before ++ n :: after ∧ before.foldlM NeighborConfig.check seen = .ok seen' ∧
      n.check seen' = .error e := by
  induction ns generalizing seen with
  | nil => cases h
  | cons n ns ih =>
    rw [List.foldlM_cons] at h
    cases hn : n.check seen with
    | ok seen₁ =>
      rw [hn] at h
      obtain ⟨before, m, after, seen', rfl, hbefore, hm⟩ := ih h
      exact ⟨n :: before, m, after, seen', rfl, by rw [List.foldlM_cons, hn]; exact hbefore, hm⟩
    | error e' =>
      rw [hn] at h
      obtain rfl := Except.error.inj h
      exact ⟨[], n, ns, seen, rfl, rfl, hn⟩

end Neighbors

namespace Config

variable {c : Config} {e : String}

theorem validate_eq_ok : c.validate = .ok () ↔ c.Sound := by
  rw [validate, bind_eq_ok, RouterConfig.check_eq_ok]
  cases hns : c.neighbors.foldlM NeighborConfig.check [] with
  | ok seen =>
    obtain ⟨hd, -, hs, -⟩ := foldlM_check_eq_ok.mp hns
    exact ⟨fun h => ⟨h.1, hd, hs⟩, fun h => ⟨h.router, rfl⟩⟩
  | error e =>
    refine ⟨fun h => ?_, fun h => ?_⟩
    · cases h.2
    · rw [foldlM_check_eq_ok.mpr ⟨h.distinct, by simp, h.neighbors, rfl⟩] at hns
      cases hns

theorem validate_exact (c : Config) :
    (c.validate = .ok () ↔ c.Sound) ∧ (¬ c.router.Sound → ∃ e, c.router.check = .error e ∧ c.validate = .error e) ∧
      ∀ e, c.router.Sound → c.validate = .error e →
        ∃ before n after, c.neighbors = before ++ n :: after ∧ (before.map NeighborConfig.addr).Nodup ∧
          (∀ m ∈ before, m.Sound) ∧
          (n.addr ∈ before.map NeighborConfig.addr ∧ e = "duplicate neighbor address: " ++ n.addr.toString ∨
            n.addr ∉ before.map NeighborConfig.addr ∧ ¬ n.Sound ∧
              ∃ fault, e = "neighbor " ++ n.addr.toString ++ fault) := by
  refine ⟨validate_eq_ok, ?_, ?_⟩
  · intro hrouter
    cases hr : c.router.check with
    | ok u => exact absurd (RouterConfig.check_eq_ok.mp hr) hrouter
    | error e => exact ⟨e, rfl, by rw [validate, hr]; rfl⟩
  · intro e hrouter h
    rw [validate, bind_eq_error, RouterConfig.check_eq_ok.mpr hrouter] at h
    obtain he | ⟨-, he⟩ := h
    · cases he
    cases hns : c.neighbors.foldlM NeighborConfig.check [] with
    | ok seen =>
      rw [hns] at he
      cases he
    | error e' =>
      rw [hns] at he
      obtain rfl := Except.error.inj he
      obtain ⟨before, n, after, seen, hsplit, hbefore, hn⟩ := foldlM_check_eq_error hns
      obtain ⟨hd, -, hs, rfl⟩ := foldlM_check_eq_ok.mp hbefore
      have herror := NeighborConfig.check_eq_error hn
      rw [List.append_nil, List.mem_reverse] at herror
      exact ⟨before, n, after, hsplit, hd, hs, herror⟩

end Config

theorem ne_of_validHoldTime {secs : UInt16} (h : ValidHoldTime secs) : secs ≠ 1 ∧ secs ≠ 2 := by
  constructor
  · rintro rfl
    revert h
    unfold ValidHoldTime
    decide
  · rintro rfl
    revert h
    unfold ValidHoldTime
    decide

/-- The command line, less the path of the file and of the socket. -/
structure Cli where
  listen : Option SocketAddr := none
  localAs : Option UInt32 := none
  routerId : Option Ipv4Addr := none
  holdTime : Option UInt16 := none
  deriving DecidableEq

def localConfig (localAs : UInt32) (routerId : Ipv4Addr) : LocalConfig := ⟨localAs, routerId, 90⟩

/-- What `main` starts the server with, where a configuration file, if there is one, reads and parses. -/
def settings (cli : Cli) : Option Config → Except String (LocalConfig × SocketAddr)
  | some cfg => do
    cfg.validate
    return ({ localConfig cfg.router.localAs cfg.router.routerId with holdTime := cfg.router.holdTime },
      cli.listen.getD cfg.router.listen)
  | none =>
    return ({ localConfig (cli.localAs.getD 65000) (cli.routerId.getD (.new 1 1 1 1)) with
        holdTime := cli.holdTime.getD 90 },
      cli.listen.getD (.v4 (.new 0 0 0 0) 179))

theorem holdTime_of_settings {cli : Cli} {cfg : Config} {config : LocalConfig} {listen : SocketAddr}
    (h : settings cli (some cfg) = .ok (config, listen)) :
    config.holdTime = cfg.router.holdTime ∧ ValidHoldTime cfg.router.holdTime := by
  obtain ⟨hv, hc⟩ := bind_eq_ok.mp h
  obtain ⟨rfl, -⟩ := Prod.mk.inj (Except.ok.inj hc)
  exact ⟨rfl, (Config.validate_eq_ok.mp hv).router.holdTime⟩

end PathForge.Configuration

namespace PathForge.Peering.Pair

open Session Wire PathForge.Configuration

variable {addr : Bool → SocketAddr} {config : Bool → LocalConfig} {rib : Bool → Routing.Rib}
  {metrics : Bool → Metrics}

theorem opens_localOpen {moves : List Move} {d : Bool} {a b : List Event} {e : Event} {o : OpenMessage}
    (he : (join addr config rib metrics).history d moves = a ++ e :: b)
    (ho : (((join addr config rib metrics).ends d).run a).opens e = some o) :
    o = ((join addr config rib metrics).ends !d).peer.localOpen := by
  obtain ⟨msg, ht, hopen⟩ := Option.bind_eq_some_iff.mp ho
  obtain ⟨done, rest, hw, hm, -⟩ := @join_split addr config rib metrics moves d
  have hscript := @join_script addr config rib metrics moves !d
  have hmem : msg ∈ (join addr config rib metrics).messages d moves := by
    rw [Pair.messages, he]
    exact mem_messages ht
  rw [hm] at hmem
  obtain ⟨m, hdone, rfl⟩ := List.mem_map.mp hmem
  have hwritten : m ∈ (join addr config rib metrics).written (!d) moves := hw ▸ List.mem_append_left rest hdone
  rcases hscript.opens with hnil | ⟨tail, hcons, htail⟩
  · rw [hnil] at hwritten
    cases hwritten
  · rw [hcons] at hwritten
    rcases List.mem_cons.mp hwritten with rfl | hlater
    · rw [opened_framed_open] at hopen
      exact (Option.some.inj hopen).symm
    · rw [opened_framed (htail m hlater)] at hopen
      cases hopen

theorem configured_timers {cli : Bool → Cli} {cfg : Bool → Config} {listen : Bool → SocketAddr}
    (h : ∀ d, settings (cli d) (some (cfg d)) = .ok (config d, listen d)) (moves : List Move) (d : Bool) :
    let s := (moves.foldl act (join addr config rib metrics)).ends d
    ¬ s.Ended → s.peer.state.Confirmed →
      TimersSound s.peer ∧ s.peer.negotiatedHoldTime = min (cfg d).router.holdTime (cfg !d).router.holdTime := by
  intro s hend hc
  obtain ⟨hown, hvalid⟩ := holdTime_of_settings (h d)
  obtain ⟨hother, hvalid'⟩ := holdTime_of_settings (h !d)
  have hrun : s = ((join addr config rib metrics).ends d).run ((join addr config rib metrics).history d moves) :=
    (@join_joined addr config rib metrics moves).ends d
  have hstart : ¬ ((join addr config rib metrics).ends d).peer.state.Confirmed := by
    rintro (hs | hs) <;> cases hs
  have hshort : ((join addr config rib metrics).ends d).NoShortOpens
      ((join addr config rib metrics).history d moves) := by
    intro a i b o he ho _ _
    have ho' : o.holdTime = (cfg !d).router.holdTime := by
      rw [opens_localOpen he ho]
      exact hother
    rw [ho']
    exact ne_of_validHoldTime hvalid'
  have hterms := terms_of_confirmed moves d hc
  change s.peer.terms = _ at hterms
  rw [hrun] at hend hc hterms ⊢
  obtain ⟨hset, hsecs⟩ := run_setTo hstart (hown ▸ hvalid) (.inr hshort) hend hc
  refine ⟨timersSound_of_setTo hset hsecs, ?_⟩
  rw [← hown, ← hother]
  exact congrArg Terms.holdTime hterms

def sampleConfig (d : Bool) : Config :=
  if d then { router := { localAs := 4200000001, routerId := .new 10 0 0 1, holdTime := 30 } }
  else { router := { localAs := 65000, routerId := .new 10 0 0 254 } }

theorem configured_timers_sample :
    TimersSound ((sampleMoves.foldl act samplePair).ends true).peer ∧
      ((sampleMoves.foldl act samplePair).ends true).peer.negotiatedHoldTime = 30 := by
  have hsettings : ∀ d, settings {} (some (sampleConfig d)) = .ok (sampleConfigs d, .v4 (.new 0 0 0 0) 179) := by
    decide
  have hgoes : ¬ ((sampleMoves.foldl act samplePair).ends true).Ended := by
    rintro ⟨how, hp⟩
    revert hp
    rw [show ((sampleMoves.foldl act samplePair).ends true).phase = .waiting by decide]
    simp
  exact configured_timers hsettings sampleMoves true hgoes (by decide)

end PathForge.Peering.Pair
