import PathForge.RouteProvenance
import PathForge.SessionTerms

namespace PathForge.Peering

open Tables Fallible ByteReader Wire Routing

def Carries (addr : SocketAddr) (asn : UInt32) (r r' : Rib) : Prop :=
  ∀ k t, r'.route addr k = some t → (∃ t₀, r.route addr k = some t₀ ∧ t.fresh = t₀.fresh) ∨ t.peerAs = asn

namespace Carries

variable {addr : SocketAddr} {asn : UInt32} {r r' r'' : Rib}

theorem refl (addr : SocketAddr) (asn : UInt32) (r : Rib) : Carries addr asn r r := fun _ t ht => .inl ⟨t, ht, rfl⟩

theorem trans (h : Carries addr asn r r') (h' : Carries addr asn r' r'') : Carries addr asn r r'' := by
  intro k t ht
  rcases h' k t ht with ⟨t₁, ht₁, hf⟩ | ha
  · rcases h k t₁ ht₁ with ⟨t₀, ht₀, hf'⟩ | ha
    · exact .inl ⟨t₀, ht₀, hf.trans hf'⟩
    · right
      change t.fresh.peerAs = asn
      rw [hf, ← ha]
      rfl
  · exact .inr ha

theorem of_apply (h : Host) (op : RibOp) (ha : r.apply h op = some r')
    (hop : ∀ peerAs nlri attrs withdrawn, op = .processUpdate addr peerAs nlri attrs withdrawn → peerAs = asn) :
    Carries addr asn r r' := by
  obtain ⟨c, keys, hc, rfl⟩ := Rib.exists_change ha
  intro k t ht
  rw [(Rib.runDecisions_sameTables h c keys).route_eq] at ht
  rcases Rib.change_route_cases hc ht with hold | ⟨peerAs, nlri, attrs, withdrawn, he, hi⟩
  · exact .inl hold
  · exact .inr (hi.peerAs.trans (hop _ _ _ _ he))

theorem removePeer (h : Host) (r : Rib) : Carries addr asn r (r.removePeer h addr).2 :=
  of_apply h (.removePeer addr) rfl (by intro _ _ _ _ he; cases he)

theorem markPeerStale (r : Rib) : Carries addr asn r (r.markPeerStale addr) :=
  of_apply Rib.sampleHost (.markPeerStale addr) rfl (by intro _ _ _ _ he; cases he)

theorem removeStale (h : Host) (r : Rib) : Carries addr asn r (r.removeStaleForPeer h addr).2 :=
  of_apply h (.removeStaleForPeer addr) rfl (by intro _ _ _ _ he; cases he)

theorem updateRib {h : Host} {p : Peer} {u : UpdateMessage} (hu : Session.updateRib h p u r = some r') :
    Carries p.addr p.remoteAs r r' := by
  obtain ⟨r₁, hr₁, hr'⟩ := Option.bind_eq_some_iff.mp hu
  obtain rfl := Option.some.inj hr'
  have hupdate : Carries p.addr p.remoteAs r r₁ := by
    apply of_apply h (.processUpdate p.addr p.remoteAs u.nlri u.pathAttributes u.withdrawnRoutes) hr₁
    intro peerAs nlri attrs withdrawn he
    exact (RibOp.processUpdate.inj he).2.1.symm
  split_ifs
  · exact hupdate.trans (removeStale h r₁)
  · exact hupdate

end Carries

namespace Session

variable {i : Input} {s : Session} {msg : BgpMessage}

section Routes

def KeepsAs (s : Session) (r : Rib) : Prop := Carries s.peer.addr s.peer.remoteAs s.rib r

theorem handleUpdate_keepsAs (u : UpdateMessage) : s.KeepsAs (s.handleUpdate i u).2.rib := by
  unfold handleUpdate
  simp only
  split
  · exact .refl _ _ _
  · rename_i rib hrib
    exact Carries.updateRib hrib

theorem handleMessage_keepsAs : s.KeepsAs (s.handleMessage i msg).2.rib := by
  have hsame : s.KeepsAs s.rib := .refl _ _ _
  have hpeer := s.countRx_peer msg.header.msgType
  have hrib := s.countRx_rib msg.header.msgType
  unfold handleMessage KeepsAs at *
  simp only
  rw [← hpeer, ← hrib] at hsame ⊢
  generalize s.countRx msg.header.msgType = s at hsame
  have hbody {α : Type} (r : Option (Except MessageError α)) (k : α → Outcome × Session)
      (hk : ∀ a, s.KeepsAs (k a).2.rib) : s.KeepsAs (s.withBody r k).2.rib :=
    withBody_induction (P := fun t => s.KeepsAs t.rib) r hsame hk
  cases msg.header.msgType with
  | «open» =>
    apply hbody
    intro o
    obtain ⟨caps, hcaps⟩ := Capability.exists_parseFromOpenParams o.optionalParams
    simp only [hcaps, handleOpen]
    split_ifs <;> exact hsame
  | keepalive =>
    simp only [handleKeepalive]
    split_ifs <;> exact hsame
  | update => exact hbody _ _ handleUpdate_keepsAs
  | notification => exact hbody _ _ fun _ => Carries.removePeer _ _
  | routeRefresh => exact hsame

theorem handleDisconnect_keepsAs : s.KeepsAs (s.handleDisconnect i).rib := by
  unfold handleDisconnect
  simp only
  split_ifs
  · exact Carries.markPeerStale _
  · exact Carries.removePeer _ _

theorem receive_keepsAs : s.KeepsAs (s.receive i).rib := by
  unfold receive
  split
  · exact handleDisconnect_keepsAs
  · exact .refl _ _ _
  · exact .refl _ _ _
  · exact .refl _ _ _

theorem wait_keepsAs : s.KeepsAs (s.wait i).rib := by
  rcases s.wait_cases i with ⟨-, hw⟩ | ⟨-, -, -, hw⟩ | ⟨-, -, t, ht, hw⟩
  · rw [hw]
    exact handleDisconnect_keepsAs
  · rw [hw]
    exact .refl _ _ _
  · rw [hw]
    rcases ht with rfl | ⟨clock, rfl⟩ <;> exact receive_keepsAs

theorem drain_keepsAs : s.KeepsAs (s.drain i).rib := by
  rcases s.drain_cases i with ⟨e, buf, -, hd⟩ | ⟨buf, -, hd⟩ | ⟨msg, buf, outcome, t, -, hb, hd⟩
  · rw [hd]
    exact .refl _ _ _
  · rw [hd]
    exact .refl _ _ _
  · have hk : s.KeepsAs t.rib := by
      have hk : s.KeepsAs (({ s with buf := buf } : Session).handleMessage i msg).2.rib := handleMessage_keepsAs
      rwa [hb] at hk
    rcases hd with ⟨-, hd⟩ | ⟨-, how, -, hd⟩ <;> rwa [hd]

theorem advance_keepsAs (e : Event) (hf : ∀ h op, e = .other h op → op.peer ≠ s.peer.addr) :
    s.KeepsAs (s.advance e).rib := by
  cases e with
  | other h op =>
    rcases ha : s.rib.apply h op with _ | r
    · simp only [advance, ha]
      exact .refl _ _ _
    · simp only [advance, ha]
      apply Carries.of_apply h op ha
      rintro peerAs nlri attrs withdrawn rfl
      exact absurd rfl (hf _ _ rfl)
  | step i =>
    simp only [advance, step]
    split
    · simp only [sendOpen]
      split_ifs <;> exact .refl _ _ _
    · exact wait_keepsAs
    · exact drain_keepsAs
    · exact .refl _ _ _

theorem run_keepsAs {events : List Event} (hf : Foreign s.peer.addr events)
    (ho : ∀ a e b, events = a ++ e :: b → (s.run a).opens e = none) : s.KeepsAs (s.run events).rib := by
  suffices h : (s.run events).peer.addr = s.peer.addr ∧ (s.run events).peer.remoteAs = s.peer.remoteAs ∧
      s.KeepsAs (s.run events).rib from h.2.2
  induction events using List.reverseRecOn with
  | nil => exact ⟨rfl, rfl, .refl _ _ _⟩
  | append_singleton events e ih =>
    obtain ⟨haddr, has, hkeeps⟩ := ih (fun h op hm => hf h op (List.mem_append_left _ hm))
      fun a e' b he => ho a e' (b ++ [e]) (by simp [he])
    have hfollows := (s.run events).advance_follows e
    rw [ho events e [] rfl] at hfollows
    have hstep : (s.run events).KeepsAs ((s.run events).advance e).rib := by
      apply advance_keepsAs
      rintro h op rfl
      rw [haddr]
      exact hf h op (by simp)
    rw [KeepsAs, haddr, has] at hstep
    rw [run_concat]
    exact ⟨hfollows.addr.trans haddr, (congrArg Terms.remoteAs hfollows.terms).trans has, hkeeps.trans hstep⟩

end Routes

section LocalOpen

theorem advance_step (s : Session) (i : Input) : s.advance (.step i) = s.step i := rfl

theorem toUInt16_min_iff (n : UInt32) : (min n 65535).toUInt16.toUInt32 = n ↔ n ≤ 65535 := by
  have hmin : (min n 65535).toNat = min n.toNat 65535 := by
    change (if n ≤ 65535 then n else 65535).toNat = _
    split_ifs with hn
    · rw [UInt32.le_iff_toNat_le] at hn
      change n.toNat ≤ 65535 at hn
      omega
    · rw [UInt32.le_iff_toNat_le] at hn
      change ¬ n.toNat ≤ 65535 at hn
      change 65535 = _
      omega
  rw [← UInt32.toNat_inj, UInt16.toNat_toUInt32, UInt32.toNat_toUInt16, hmin, UInt32.le_iff_toNat_le]
  change min n.toNat 65535 % 2 ^ 16 = n.toNat ↔ n.toNat ≤ 65535
  omega

theorem localOpen_eq (p : Peer) :
    p.localOpen = ⟨4, (min p.config.localAs 65535).toUInt16, p.config.holdTime, p.config.routerId,
      [⟨2, p.localCaps.flatMap Capability.toBytes⟩]⟩ := by
  rw [Peer.localOpen, newWithCapabilities, if_neg (by simp [Peer.localCaps])]
  rfl

theorem localOpen_optBuf (p : Peer) : p.localOpen.optBuf.length = 20 := by
  rw [localOpen_eq]
  simp [OpenMessage.optBuf, OptionalParam.serialize, Peer.localCaps, Capability.toBytes, Capability.value]

theorem opens_localOpen (p : Peer) (s : Session) (i : Input) (rest : Bytes) :
    ({ s with phase := .draining, buf := p.localOpen.serialize ++ rest } : Session).opens (.step i) =
      some p.localOpen := by
  have hopt := localOpen_optBuf p
  generalize p.localOpen = o at hopt
  have hlen : o.optBuf.length ≤ 255 := by omega
  have hparse := OpenMessage.run_parse_serialize hlen rest
  have hbody : OpenMessage.parse.outcome o.body = some (.ok o) := OpenMessage.outcome_parse_body hlen
  have houtcome : BgpMessage.parse.outcome (o.serialize ++ rest) =
      some (.ok (some ⟨Header.new .open o.body.length, o.body⟩)) :=
    outcome_eq_some.mpr ⟨rest, hparse⟩
  have htaken : ({ s with phase := .draining, buf := o.serialize ++ rest } : Session).taken (.step i) =
      some ⟨Header.new .open o.body.length, o.body⟩ :=
    taken_step_eq_some.mpr ⟨rfl, houtcome⟩
  exact Option.bind_eq_some_iff.mpr ⟨_, htaken, opened_eq_some.mpr ⟨rfl, hbody⟩⟩

theorem remoteAs_iff (speaker : Peer) (s : Session) (i : Input) (rest : Bytes) :
    let s' := ({ s with phase := .draining, buf := speaker.localOpen.serialize ++ rest } : Session).step i
    (s'.peer.remoteAs = speaker.config.localAs ∧
      ∀ events, Foreign s'.peer.addr events → (∀ a e b, events = a ++ e :: b → (s'.run a).opens e = none) →
        Carries s'.peer.addr speaker.config.localAs s'.rib (s'.run events).rib) ↔
      speaker.config.localAs ≤ 65535 := by
  intro s'
  have hf := ({ s with
    phase := .draining, buf := speaker.localOpen.serialize ++ rest } : Session).advance_follows (.step i)
  rw [opens_localOpen, advance_step] at hf
  change Peer.Follows _ _ s'.peer at hf
  clear_value s'
  have has : s'.peer.remoteAs = (min speaker.config.localAs 65535).toUInt16.toUInt32 := by
    have hterms := hf.terms
    rw [Option.elim_some, Peer.offered, localOpen_eq] at hterms
    exact congrArg Terms.remoteAs hterms
  rw [has, toUInt16_min_iff, and_iff_left_iff_imp]
  intro hle events hforeign hopens
  have hkeeps := run_keepsAs hforeign hopens
  rwa [KeepsAs, has, (toUInt16_min_iff _).mpr hle] at hkeeps

def wideSpeaker : Peer := .new samplePeer 0 ⟨131072, .new 10 0 0 1, 90⟩

theorem remoteAs_wideSpeaker :
    let rest := KeepaliveMessage.serialize ⟨⟩ ++ ((Header.new .update 8).serialize ++
      [0, 0, 0, 0, 24, 192, 168, 1])
    let s := ({ sampleSession with
      phase := .draining, buf := wideSpeaker.localOpen.serialize ++ rest } : Session).step (sampleInput .timeout)
    .fourOctetAsn 131072 ∈ s.peer.peerCapabilities ∧ s.peer.remoteAs = 65535 ∧
      s.peer.remoteAs ≠ wideSpeaker.config.localAs ∧
      ((s.run [.step (sampleInput .timeout), .step (sampleInput .timeout)]).rib.route samplePeer sampleKey).map
        Route.peerAs = some 65535 := by decide

end LocalOpen

end Session

end PathForge.Peering
