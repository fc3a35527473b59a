import PathForge.NlriPrefixes
import PathForge.AttributeRoundTrip

namespace PathForge.Wire

open Fallible ByteReader

structure UpdateMessage where
  withdrawnRoutes : List Prefix := []
  pathAttributes : PathAttributes := {}
  nlri : List Prefix := []
  deriving DecidableEq

namespace UpdateMessage

def parse : Reader MessageError UpdateMessage := do
  checkRemaining 4 (.tooShort 4)
  let withdrawnLen ← getU16
  checkRemaining withdrawnLen.toNat (.tooShort withdrawnLen.toNat)
  let withdrawnBuf ← copyToBytes withdrawnLen.toNat
  let withdrawnRoutes ← within withdrawnBuf (pushWhile 1 Prefix.parse [])
  -- nothing has checked that two octets remain here
  let attrLen ← getU16
  checkRemaining attrLen.toNat (.tooShort attrLen.toNat)
  let attrBytes ← copyToBytes attrLen.toNat
  let pathAttributes ← within attrBytes (mapError (fun e => .parse e.toString) PathAttributes.parse)
  let nlri ← pushWhile 1 Prefix.parse []
  return ⟨withdrawnRoutes, pathAttributes, nlri⟩

def serializePrefixes : List Prefix → Option Bytes
  | [] => some []
  | p :: ps => do
    let b ← p.serialize
    let bs ← serializePrefixes ps
    return b ++ bs

def serialize (m : UpdateMessage) : Option Bytes := do
  let withdrawnBuf ← serializePrefixes m.withdrawnRoutes
  let attrBuf := m.pathAttributes.serialize
  let nlriBuf ← serializePrefixes m.nlri
  let bodyLen := 2 + withdrawnBuf.length + 2 + attrBuf.length + nlriBuf.length
  let hdr := Header.new .update bodyLen
  return hdr.serialize ++ putU16 (UInt16.ofNat withdrawnBuf.length) ++ withdrawnBuf ++
    putU16 (UInt16.ofNat attrBuf.length) ++ attrBuf ++ nlriBuf

end UpdateMessage

section Totality

theorem ends_u32Value {value s : Bytes} : Ends (u32Value value) (onOk fun _ t => t = s) s := by
  apply ends_within
  have h : Ends (checkRemaining 4 (fun _ => AttrError.tooShort) >>= fun _ => getU32)
      (onOk fun _ _ => True) value := by
    apply ends_bind ends_check
    rintro _ _ ⟨hl, rfl⟩
    exact (ends_getU32 hl).mono fun _ _ _ => trivial
  exact h.ne_none

theorem ends_aggregatorValue {value s : Bytes} : Ends (aggregatorValue value) (onOk fun _ t => t = s) s := by
  apply ends_within
  apply Ends.ne_none (Q := onOk fun _ _ => True)
  apply ends_bind ends_check
  rintro _ _ ⟨hl, rfl⟩
  apply ends_bind (ends_getU16 (by omega))
  rintro asn t rfl
  rw [List.length_append, putU16_length] at hl
  apply ends_bind (ends_getU32 (by omega))
  intro ip u _
  exact ends_pure trivial

theorem PathAttributes.ends_store {a : PathAttributes} {raw : RawAttribute} {s : Bytes} :
    Ends (a.store raw) (onOk fun _ t => t = s) s := by
  have field {α : Type} {x : Reader AttrError α} (f : α → PathAttributes)
      (hx : Ends x (onOk fun _ t => t = s) s) :
      Ends (x >>= fun v => pure (f v)) (onOk fun _ t => t = s) s :=
    ends_bind hx fun v t ht => ends_pure ht
  unfold store
  split
  case h_1 =>
    split
    · exact ends_fail
    · apply field
      exact ⟨_, _, rfl, by cases Origin.tryFrom _ <;> trivial⟩
  case h_2 => exact field _ (ends_pushWhile_within fun s hs => AsPathSegment.ends_parse hs)
  case h_7 => exact field _ ends_aggregatorValue
  case h_8 => exact field _ (ends_pushWhile_within fun s hs => ends_wordItem hs)
  case h_10 => exact field _ (ends_pushWhile_within fun s hs => ends_wordItem hs)
  case h_6 => exact ends_pure rfl
  case h_11 => exact ends_pure rfl
  all_goals exact field _ ends_u32Value

theorem PathAttributes.run_parse_ne_none (b : Bytes) : PathAttributes.parse.run b ≠ none := by
  have h : Ends PathAttributes.parse (onOk fun _ t => True ∧ decide (3 ≤ t.length) = false) b := by
    apply ends_loop (I := fun _ _ => True) _ trivial
    intro a s _ hc
    have hs : 3 ≤ s.length := by simpa using hc
    apply ends_bind (RawAttribute.ends_parse (by omega))
    intro raw t ht
    apply ends_store.mono
    rintro a' _ rfl
    exact ⟨trivial, ht⟩
  exact h.ne_none

theorem ends_pushPrefixes {acc : List Prefix} {s : Bytes} :
    Ends (pushWhile 1 Prefix.parse acc) (onOk fun _ t => t.length < 1) s :=
  ends_pushWhile fun _ _ => Prefix.ends_parse

end Totality

section Panics

/-- Octets that are read as whole prefixes, each with at least the octets its length asks for behind it. -/
inductive PrefixList : Bytes → Prop
  | nil : PrefixList []
  | cons (n : UInt8) (c rest : Bytes) (hl : byteLen n ≤ (c ++ rest).length) (hc : c.length = min 4 (byteLen n))
      (h : PrefixList rest) : PrefixList (n :: (c ++ rest))

theorem PrefixList.pushWhile {w : Bytes} (h : PrefixList w) (acc : List Prefix) :
    ∃ l, (pushWhile 1 Prefix.parse acc).run w = some (.ok l, []) := by
  have hd := pushWhile_decreases (k := 1) Prefix.consumes_parse
  induction h generalizing acc with
  | nil => exact ⟨acc, loop_stop hd rfl⟩
  | cons n c rest hl hc h ih =>
    have hp : Prefix.parse.run (n :: (c ++ rest)) = some (.ok ⟨n, ⟨.padded 4 c⟩⟩, rest) :=
      Prefix.run_parse_eq_ok.mpr ⟨c, rfl, hl, hc, rfl⟩
    obtain ⟨l, hr⟩ := ih (acc ++ [⟨n, ⟨.padded 4 c⟩⟩])
    refine ⟨l, ?_⟩
    rw [ByteReader.pushWhile, loop_step hd (by simp) (by rw [push, run_bind_ok _ hp, run_pure])]
    exact hr

theorem prefixList_of_pushWhile {w t : Bytes} {acc l : List Prefix}
    (h : (pushWhile 1 Prefix.parse acc).run w = some (.ok l, t)) : PrefixList w := by
  have hd := pushWhile_decreases (k := 1) Prefix.consumes_parse
  induction hn : w.length using Nat.strong_induction_on generalizing w acc with
  | _ n ih =>
    rw [ByteReader.pushWhile, loop_eq hd] at h
    split_ifs at h with hc
    · obtain ⟨acc', u, hb, hr⟩ := run_bind_eq_ok.mp h
      have hlt := hd acc w acc' u hc hb
      obtain ⟨p, v, hp, he⟩ := run_bind_eq_ok.mp hb
      obtain ⟨-, rfl⟩ := run_pure_eq_ok.mp he
      obtain ⟨c, rfl, hl, hc, -⟩ := Prefix.run_parse_eq_ok.mp hp
      exact .cons _ c v hl hc (ih v.length (by omega) hr rfl)
    · have hw : w = [] := by simpa using hc
      rw [hw]
      exact .nil

theorem ends_withdrawn {w s : Bytes} :
    Ends (within w (pushWhile 1 Prefix.parse [])) (onOk fun _ t => t = s ∧ PrefixList w) s := by
  have hends : Ends (pushWhile 1 Prefix.parse []) (onOk fun _ t => t.length < 1) w := ends_pushPrefixes
  obtain ⟨r, t, h, -⟩ := hends
  have hr : (within w (pushWhile 1 Prefix.parse [])).run s = some (r, s) := by
    simp [within, Prog.outcome, h]
  refine ⟨r, s, hr, ?_⟩
  cases r with
  | error e => trivial
  | ok l => exact ⟨rfl, prefixList_of_pushWhile h⟩

namespace UpdateMessage

/-- The withdrawn routes are sound and reach so far that no room is left for the attribute length. -/
def CutOff (b : Bytes) : Prop :=
  ∃ n w rest, b = putU16 n ++ (w ++ rest) ∧ w.length = n.toNat ∧ 4 ≤ b.length ∧ rest.length < 2 ∧ PrefixList w

theorem run_parse_cutOff {b : Bytes} (h : CutOff b) : parse.run b = none := by
  obtain ⟨n, w, rest, rfl, hn, hb, hrest, hw⟩ := h
  obtain ⟨l, hl⟩ := hw.pushWhile []
  have hcopy : (copyToBytes n.toNat).run (w ++ rest) = some (.ok w, rest) :=
    run_copyToBytes_eq_ok (ε := MessageError).mpr ⟨rfl, hn⟩
  have hread : (getU16 : Reader MessageError UInt16).run rest = none := by
    apply run_bind_panic
    rw [copyToBytes]
    exact if_neg (by omega)
  rw [parse, run_bind_ok _ (run_check hb), run_bind_ok _ (reads_getU16 n _),
    run_bind_ok _ (run_check (by simp; omega)), run_bind_ok _ hcopy,
    run_bind_ok _ (run_within_ok rest (outcome_eq_some.mpr ⟨[], hl⟩)), run_bind_panic _ hread]

theorem ends_parse {b : Bytes} (h : ¬ CutOff b) : Ends parse (onOk fun _ _ => True) b := by
  apply ends_bind ends_check
  rintro _ _ ⟨hb, rfl⟩
  apply ends_bind (ends_getU16 (by omega))
  rintro n s rfl
  apply ends_bind ends_check
  rintro _ _ ⟨hn, rfl⟩
  apply ends_bind (ends_copyToBytes hn)
  rintro w rest ⟨rfl, hw⟩
  apply ends_bind ends_withdrawn
  rintro routes rest ⟨rfl, hp⟩
  have hroom : 2 ≤ rest.length := by
    by_contra hlt
    exact h ⟨n, w, rest, rfl, hw, hb, by omega, hp⟩
  apply ends_bind (ends_getU16 hroom)
  rintro k s rfl
  apply ends_bind ends_check
  rintro _ _ ⟨hk, rfl⟩
  apply ends_bind (ends_copyToBytes hk)
  rintro attrBytes s _
  apply ends_bind (ends_within ?_)
  · rintro attrs _ rfl
    apply ends_bind ends_pushPrefixes
    intro nlri t _
    exact ends_pure trivial
  · simpa [mapError] using PathAttributes.run_parse_ne_none attrBytes

theorem parse_returns_iff (b : Bytes) : (∃ r, parse.outcome b = some r) ↔ ¬ CutOff b := by
  rw [exists_outcome_iff]
  constructor
  · intro hr h
    exact hr (run_parse_cutOff h)
  · intro h
    exact (ends_parse h).ne_none

theorem parse_withdrawn_only : parse.outcome [0, 2, 8, 10] = none := by decide

end UpdateMessage

end Panics

end PathForge.Wire
