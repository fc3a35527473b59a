import Mathlib.Data.List.Basic
import Mathlib.Data.List.TakeDrop

namespace PathForge.Texts

/-- The format `{:<width}` of a text. -/
def padEnd (width : ℕ) (s : String) : String := s ++ String.ofList (List.replicate (width - s.length) ' ')

/-- The format `{:>width}` of a text. -/
def padStart (width : ℕ) (s : String) : String := String.ofList (List.replicate (width - s.length) ' ') ++ s

/-- `char::is_whitespace`, the White_Space property of Unicode. -/
def isWhitespace (c : Char) : Bool :=
  9 ≤ c.toNat && c.toNat ≤ 13 || 0x2000 ≤ c.toNat && c.toNat ≤ 0x200A ||
    [0x20, 0x85, 0xA0, 0x1680, 0x2028, 0x2029, 0x202F, 0x205F, 0x3000].contains c.toNat

def splitWhitespace (s : String) : List String :=
  ((s.toList.splitOnP isWhitespace).filter (· ≠ [])).map String.ofList

def ofLines (ls : List String) : String := String.join (ls.map fun l => l ++ "\n")

def trim (s : List Char) : List Char := ((s.dropWhile isWhitespace).reverse.dropWhile isWhitespace).reverse

section Words

def Solid (s : List Char) : Prop := ∀ c ∈ s, isWhitespace c = false

instance (s : List Char) : Decidable (Solid s) := List.decidableBAll (fun c => isWhitespace c = false) s

theorem solid_toDigits (n : ℕ) : Solid (Nat.toDigits 10 n) := by
  intro c hc
  have hd := Nat.isDigit_of_mem_toDigits (by decide) (by decide) hc
  simp only [Char.isDigit, ge_iff_le, Bool.and_eq_true, decide_eq_true_eq, UInt32.le_iff_toNat_le] at hd
  change 48 ≤ c.toNat ∧ c.toNat ≤ 57 at hd
  simp only [isWhitespace, Bool.or_eq_false_iff, Bool.and_eq_false_iff, decide_eq_false_iff_not,
    List.contains_eq_mem, List.mem_cons, List.not_mem_nil, or_false]
  omega

theorem Solid.append {s t : List Char} (hs : Solid s) (ht : Solid t) : Solid (s ++ t) :=
  List.forall_mem_append.mpr ⟨hs, ht⟩

theorem Solid.notMem {s : List Char} (hs : Solid s) {c : Char} (hc : isWhitespace c = true) : c ∉ s := by
  intro h
  rw [hs c h] at hc
  cases hc

theorem filter_splitOnP_intercalate {words : List (List Char)} (h : ∀ w ∈ words, w ≠ [] ∧ Solid w) :
    (([' '].intercalate words).splitOnP isWhitespace).filter (· ≠ []) = words := by
  induction words with
  | nil => rfl
  | cons w words ih =>
    rw [List.forall_mem_cons] at h
    cases words with
    | nil =>
      rw [List.intercalate_singleton, List.splitOnP_eq_singleton h.1.2]
      simp [h.1.1]
    | cons w' words =>
      rw [List.intercalate_cons_cons, List.append_assoc, List.singleton_append,
        List.splitOnP_append_cons_of_forall_mem h.1.2 ' ' rfl, List.filter_cons, if_pos (by simp [h.1.1]), ih h.2]

theorem splitWhitespace_intercalate {words : List String} (h : ∀ w ∈ words, w ≠ "" ∧ Solid w.toList) :
    splitWhitespace (" ".intercalate words) = words := by
  have hlists : ∀ w ∈ words.map String.toList, w ≠ [] ∧ Solid w := by
    rw [List.forall_mem_map]
    intro w hw
    exact ⟨fun he => (h w hw).1 (String.toList_eq_nil_iff.mp he), (h w hw).2⟩
  have hsplit := filter_splitOnP_intercalate hlists
  rw [splitWhitespace, String.toList_intercalate]
  change List.map String.ofList (List.filter _ (([' '].intercalate _).splitOnP isWhitespace)) = words
  rw [hsplit, List.map_map]
  exact (List.map_congr_left fun w _ => String.ofList_toList).trans (List.map_id words)

theorem of_mem_splitOnP {p : Char → Bool} {s w : List Char} (hw : w ∈ s.splitOnP p) :
    ∀ c ∈ w, c ∈ s ∧ p c = false := by
  induction s generalizing w with
  | nil =>
    rw [List.splitOnP_nil, List.mem_singleton] at hw
    simp [hw]
  | cons x s ih =>
    have hlater {w : List Char} (hw : w ∈ s.splitOnP p) : ∀ c ∈ w, c ∈ x :: s ∧ p c = false :=
      fun c hc => ⟨List.mem_cons_of_mem x (ih hw c hc).1, (ih hw c hc).2⟩
    rw [List.splitOnP_cons_eq_if_modifyHead] at hw
    split_ifs at hw with hx
    · rcases List.mem_cons.mp hw with rfl | hw
      · simp
      · exact hlater hw
    · obtain ⟨first, rest, hs⟩ := List.exists_cons_of_ne_nil (List.splitOnP_ne_nil p s)
      rw [hs, List.modifyHead_cons] at hw
      rcases List.mem_cons.mp hw with rfl | hw
      · rw [List.forall_mem_cons]
        exact ⟨⟨List.mem_cons_self, Bool.eq_false_iff.mpr hx⟩, hlater (hs ▸ List.mem_cons_self)⟩
      · exact hlater (hs ▸ List.mem_cons_of_mem first hw)

theorem newline_notMem_of_mem_splitOn {s l : List Char} (h : l ∈ s.splitOn '\n') : '\n' ∉ l := by
  intro hc
  have hne := (of_mem_splitOnP h _ hc).2
  simp at hne

theorem of_mem_splitWhitespace {s w : String} (hw : w ∈ splitWhitespace s) : ∀ c ∈ w.toList, c ∈ s.toList := by
  obtain ⟨w', hmem, rfl⟩ := List.mem_map.mp hw
  rw [String.toList_ofList]
  exact fun c hc => (of_mem_splitOnP (List.mem_filter.mp hmem).1 c hc).1

theorem of_mem_trim {s : List Char} {c : Char} (h : c ∈ trim s) : c ∈ s := by
  rw [trim, List.mem_reverse] at h
  exact (List.dropWhile_sublist _).mem (List.mem_reverse.mp ((List.dropWhile_sublist _).mem h))

end Words

section Lines

def OneLine (s : String) : Prop := '\n' ∉ s.toList

theorem OneLine.append {s t : String} (hs : OneLine s) (ht : OneLine t) : OneLine (s ++ t) := by
  rw [OneLine, String.toList_append, List.mem_append, not_or]
  exact ⟨hs, ht⟩

theorem Solid.oneLine {s : String} (h : Solid s.toList) : OneLine s := h.notMem rfl

theorem oneLine_repr (n : ℕ) : OneLine n.repr := by
  apply Solid.oneLine
  rw [Nat.toList_repr]
  exact solid_toDigits n

theorem oneLine_blanks (n : ℕ) : OneLine (String.ofList (List.replicate n ' ')) := by
  rw [OneLine, String.toList_ofList]
  intro h
  cases List.eq_of_mem_replicate h

theorem OneLine.padEnd {s : String} (h : OneLine s) (width : ℕ) : OneLine (padEnd width s) :=
  h.append (oneLine_blanks _)

theorem OneLine.padStart {s : String} (h : OneLine s) (width : ℕ) : OneLine (padStart width s) :=
  (oneLine_blanks _).append h

theorem OneLine.intercalate {sep : String} {ls : List String} (hsep : OneLine sep) (h : ∀ l ∈ ls, OneLine l) :
    OneLine (sep.intercalate ls) := by
  rw [OneLine, String.toList_intercalate]
  induction ls with
  | nil => simp
  | cons l ls ih =>
    rw [List.forall_mem_cons] at h
    cases ls with
    | nil =>
      rw [List.map_singleton, List.intercalate_singleton]
      exact h.1
    | cons l' ls =>
      rw [List.map_cons, List.map_cons, List.intercalate_cons_cons, List.mem_append, List.mem_append,
        not_or, not_or]
      exact ⟨⟨h.1, hsep⟩, ih h.2⟩

theorem splitOn_ofLines {ls : List String} (h : ∀ l ∈ ls, '\n' ∉ l.toList) :
    (ofLines ls).toList.splitOn '\n' = ls.map String.toList ++ [[]] := by
  induction ls with
  | nil => rfl
  | cons l ls ih =>
    rw [List.forall_mem_cons] at h
    have hcons : (ofLines (l :: ls)).toList = l.toList ++ '\n' :: (ofLines ls).toList := by
      simp [ofLines, String.join_cons]
    rw [hcons, List.splitOn_eq_splitOnP, List.splitOnP_append_cons_of_forall_mem,
      ← List.splitOn_eq_splitOnP, ih h.2]
    · rfl
    · intro c hc
      exact beq_false_of_ne fun he => h.1 (he ▸ hc)
    · rfl

end Lines

section Prompts

variable (prompt : List Char)

def groups : List (List Char) → List (List Char) × List (List (List Char))
  | [] => ([], [])
  | l :: ls =>
    if prompt.isPrefixOf l then
      ([], (l.drop prompt.length :: (groups ls).1) :: (groups ls).2)
    else
      (l :: (groups ls).1, (groups ls).2)

def readAnswers (text : List Char) : List (List Char) :=
  (groups prompt (text.splitOn '\n')).2.dropLast.map ['\n'].intercalate

def prompted : List (List Char) → List Char
  | [] => prompt
  | a :: as => prompt ++ a ++ '\n' :: prompted as

theorem prompted_eq (as : List (List Char)) :
    prompted prompt as = prompt ++ as.flatMap fun a => a ++ '\n' :: prompt := by
  induction as with
  | nil => simp [prompted]
  | cons a as ih => simp [prompted, ih]

def Quiet (a : List Char) : Prop := ∀ l ∈ (a.splitOn '\n').tail, ¬ prompt <+: l

variable {prompt} {a b : List Char} {as : List (List Char)}

theorem groups_append {ls rest : List (List Char)} (h : ∀ l ∈ ls, ¬ prompt <+: l) :
    groups prompt (ls ++ rest) = (ls ++ (groups prompt rest).1, (groups prompt rest).2) := by
  induction ls with
  | nil => rfl
  | cons l ls ih =>
    rw [List.forall_mem_cons] at h
    have hl : ¬ prompt.isPrefixOf l = true := by
      rw [List.isPrefixOf_iff_prefix]
      exact h.1
    rw [List.cons_append, groups, if_neg hl, ih h.2]
    rfl

theorem splitOn_append_cons : (a ++ '\n' :: b).splitOn '\n' = a.splitOn '\n' ++ b.splitOn '\n' := by
  rw [List.splitOn_eq_splitOnP, List.splitOnP_append_cons _ _ (by rfl)]
  rfl

theorem splitOn_prompt_append (hp : '\n' ∉ prompt) :
    ∃ first rest, a.splitOn '\n' = first :: rest ∧ (prompt ++ a).splitOn '\n' = (prompt ++ first) :: rest := by
  obtain ⟨first, rest, hs⟩ := List.exists_cons_of_ne_nil (List.splitOn_ne_nil '\n' a)
  refine ⟨first, rest, hs, ?_⟩
  induction prompt with
  | nil => exact hs
  | cons c prompt ih =>
    rw [List.mem_cons, not_or] at hp
    rw [List.cons_append, List.splitOn_eq_splitOnP, List.splitOnP_cons_eq_if_modifyHead,
      if_neg (by simpa using Ne.symm hp.1), ← List.splitOn_eq_splitOnP, ih hp.2]
    rfl

theorem groups_prompted (hp : '\n' ∉ prompt) (has : ∀ a ∈ as, Quiet prompt a) :
    groups prompt ((prompted prompt as).splitOn '\n') = ([], as.map (List.splitOn '\n') ++ [[[]]]) := by
  induction as with
  | nil =>
    have hsplit : prompt.splitOn '\n' = [prompt] :=
      List.splitOnP_eq_singleton fun c hc => beq_false_of_ne fun he => hp (he ▸ hc)
    rw [prompted, hsplit, groups, if_pos (by simp), List.drop_length]
    rfl
  | cons a as ih =>
    rw [List.forall_mem_cons] at has
    obtain ⟨first, rest, hs, hsplit⟩ := splitOn_prompt_append (a := a) hp
    have hrest : ∀ l ∈ rest, ¬ prompt <+: l := by
      have hquiet := has.1
      rwa [Quiet, hs, List.tail_cons] at hquiet
    rw [prompted, splitOn_append_cons, hsplit, List.cons_append, groups, if_pos (by simp),
      groups_append hrest, ih has.2, List.drop_left, List.append_nil, List.map_cons, hs, List.cons_append]

theorem readAnswers_prompted {greeting : List Char} (hp : '\n' ∉ prompt)
    (hg : ∀ l ∈ greeting.splitOn '\n', ¬ prompt <+: l) (has : ∀ a ∈ as, Quiet prompt a) :
    readAnswers prompt (greeting ++ '\n' :: prompted prompt as) = as := by
  rw [readAnswers, splitOn_append_cons, groups_append hg, groups_prompted hp has, List.dropLast_concat,
    List.map_map]
  exact (List.map_congr_left fun a _ => List.intercalate_splitOn '\n').trans (List.map_id as)

end Prompts

end PathForge.Texts
