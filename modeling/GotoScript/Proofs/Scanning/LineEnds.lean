import GotoScript.Proofs.Scanning.Places

/-!
# Unified line ends

A text and the same text with its line ends unified are read side by side:

* `unifyInOnePass` : one line feed for each line end, in one pass; `unifyLineEnds_eq_unifyInOnePass` : the two
  replacements come to the same;
* `Cuts a b` : the place between two texts parts a carriage return from its line feed;
  `unifyLineEnds_append` : elsewhere a text is unified in parts;
* `exists_of_unifyLineEnds_append` : a part of the unified text comes from a part of the text;
* `loneReturns` : the carriage returns that no line feed follows, which are the lines that unifying adds;
  `loneReturns_eq_zero_iff` : there are none if every carriage return is followed by a line feed;
* `lastLine` : the characters after the last line feed, on which a column is counted;
* `byteLength_eq_length_unifyLineEnds_iff` : which texts have as many bytes as characters once unified.
-/

namespace GotoScript.Text

/-! ## One pass -/

theorem head?_ne_newline {cs : List Char} (h : ∀ rest, cs = '\n' :: rest → False) :
    cs.head? ≠ some '\n' := by
  intro hhead
  obtain ⟨rest, hrest⟩ := List.head?_eq_some_iff.1 hhead
  exact h rest hrest

/-- One line feed for each line end: for a carriage return with the line feed after it, and for a carriage
return alone. -/
def unifyInOnePass : List Char → List Char
  | [] => []
  | '\r' :: '\n' :: rest => '\n' :: unifyInOnePass rest
  | '\r' :: rest => '\n' :: unifyInOnePass rest
  | c :: rest => c :: unifyInOnePass rest

/-- What the first replacement puts in is nothing for the second to find, so both come to one pass. -/
theorem unifyLineEnds_eq_unifyInOnePass (cs : List Char) : unifyLineEnds cs = unifyInOnePass cs := by
  fun_induction unifyInOnePass cs with
  | case1 => rfl
  | case2 rest ih => rw [unifyLineEnds_pair, ih]
  | case3 rest hno ih => rw [unifyLineEnds_return (head?_ne_newline hno), ih]
  | case4 c rest _ hc ih => rw [unifyLineEnds_of_ne hc, ih]

/-! ## Parts of a text -/

/-- A carriage return ends the first text, and its line feed starts the second. -/
def Cuts (a b : List Char) : Prop :=
  a.getLast? = some '\r' ∧ b.head? = some '\n'

theorem Cuts.of_cons {c : Char} {a b : List Char} (h : Cuts a b) : Cuts (c :: a) b := by
  refine ⟨?_, h.2⟩
  rw [List.getLast?_cons, h.1]
  rfl

theorem Cuts.cons_cases {c : Char} {a b : List Char} (h : Cuts (c :: a) b) :
    (a = [] ∧ c = '\r') ∨ Cuts a b := by
  cases a with
  | nil => exact .inl ⟨rfl, Option.some.inj h.1⟩
  | cons d a => exact .inr ⟨by rw [← h.1, List.getLast?_cons_cons], h.2⟩

theorem unifyLineEnds_append {a b : List Char} (h : ¬ Cuts a b) :
    unifyLineEnds (a ++ b) = unifyLineEnds a ++ unifyLineEnds b := by
  induction a using unifyInOnePass.induct with
  | case1 => rfl
  | case2 rest ih =>
    have hrest : ¬ Cuts rest b := fun hcuts => h hcuts.of_cons.of_cons
    rw [List.cons_append, List.cons_append, unifyLineEnds_pair, unifyLineEnds_pair, ih hrest, List.cons_append]
  | case3 rest hno ih =>
    -- the return stands alone, and does so in the whole text unless the cut is right behind it
    have hhead : (rest ++ b).head? ≠ some '\n' := by
      intro hhead
      cases rest with
      | nil => exact h ⟨rfl, hhead⟩
      | cons c cs =>
        obtain rfl : c = '\n' := Option.some.inj hhead
        exact hno cs rfl
    rw [List.cons_append, unifyLineEnds_return hhead, unifyLineEnds_return (head?_ne_newline hno),
      ih fun hcuts => h hcuts.of_cons, List.cons_append]
  | case4 c rest _ hc ih =>
    rw [List.cons_append, unifyLineEnds_of_ne hc, unifyLineEnds_of_ne hc, ih fun hcuts => h hcuts.of_cons,
      List.cons_append]

/-- What stands in a unified text in two parts, stands in two parts in the text, too. -/
theorem exists_of_unifyLineEnds_append {cs a b : List Char} (h : unifyLineEnds cs = a ++ b) :
    ∃ a' b', cs = a' ++ b' ∧ unifyLineEnds a' = a ∧ unifyLineEnds b' = b ∧ ¬ Cuts a' b' := by
  have hnil (cs : List Char) : ¬ Cuts [] cs := fun hcuts => by cases hcuts.1
  -- a pair of return and line feed goes to one side as a whole
  induction cs using unifyInOnePass.induct generalizing a with
  | case1 =>
    obtain ⟨rfl, rfl⟩ := List.append_eq_nil_iff.1 h.symm
    exact ⟨[], [], rfl, rfl, rfl, hnil []⟩
  | case2 rest ih =>
    cases a with
    | nil => exact ⟨[], _, rfl, rfl, h, hnil _⟩
    | cons d a =>
      rw [unifyLineEnds_pair] at h
      obtain ⟨rfl, hrest⟩ := List.cons.inj h
      obtain ⟨a', b', rfl, rfl, rfl, hcuts⟩ := ih hrest
      refine ⟨'\r' :: '\n' :: a', b', rfl, unifyLineEnds_pair a', rfl, fun h => ?_⟩
      rcases h.cons_cases with ⟨h, -⟩ | h
      · cases h
      rcases h.cons_cases with ⟨-, h⟩ | h
      · cases h
      · exact hcuts h
  | case3 rest hno ih =>
    cases a with
    | nil => exact ⟨[], _, rfl, rfl, h, hnil _⟩
    | cons d a =>
      have hhead := head?_ne_newline hno
      rw [unifyLineEnds_return hhead] at h
      obtain ⟨rfl, hrest⟩ := List.cons.inj h
      obtain ⟨a', b', rfl, rfl, rfl, hcuts⟩ := ih hrest
      have hhead' : a'.head? ≠ some '\n' := by
        intro hnew
        rw [List.head?_append, hnew] at hhead
        exact hhead rfl
      refine ⟨'\r' :: a', b', rfl, unifyLineEnds_return hhead', rfl, fun h => ?_⟩
      rcases h.cons_cases with ⟨rfl, -⟩ | hcuts'
      · exact hhead h.2
      · exact hcuts hcuts'
  | case4 c rest hpair hc ih =>
    have hne : c ≠ '\r' := hc
    cases a with
    | nil => exact ⟨[], _, rfl, rfl, h, hnil _⟩
    | cons d a =>
      rw [unifyLineEnds_of_ne hne] at h
      obtain ⟨rfl, hrest⟩ := List.cons.inj h
      obtain ⟨a', b', rfl, rfl, rfl, hcuts⟩ := ih hrest
      refine ⟨c :: a', b', rfl, unifyLineEnds_of_ne hne a', rfl, fun h => ?_⟩
      rcases h.cons_cases with ⟨-, rfl⟩ | h
      · exact hne rfl
      · exact hcuts h

/-! ## Carriage returns that stand alone -/

/-- How many carriage returns no line feed follows. -/
def loneReturns : List Char → Nat
  | [] => 0
  | '\r' :: '\n' :: rest => loneReturns rest
  | '\r' :: rest => loneReturns rest + 1
  | _ :: rest => loneReturns rest

/-- Unifying turns lone carriage returns into line feeds, and adds no other. -/
theorem count_unifyLineEnds (cs : List Char) :
    (unifyLineEnds cs).count '\n' = cs.count '\n' + loneReturns cs := by
  fun_induction loneReturns cs with
  | case1 => rfl
  | case2 rest ih =>
    rw [unifyLineEnds_pair, List.count_cons_self, ih, List.count_cons_of_ne (by decide), List.count_cons_self]
    omega
  | case3 rest hno ih =>
    rw [unifyLineEnds_return (head?_ne_newline hno), List.count_cons_self, ih,
      List.count_cons_of_ne (by decide)]
    omega
  | case4 c rest hpair hc ih =>
    rw [unifyLineEnds_of_ne hc, List.count_cons, List.count_cons, ih]
    omega

/-- Every carriage return is directly followed by a line feed. -/
def PairedReturns (cs : List Char) : Prop :=
  ∀ pre post, cs = pre ++ '\r' :: post → post.head? = some '\n'

theorem pairedReturns_cons {c : Char} {cs : List Char} :
    PairedReturns (c :: cs) ↔ (c = '\r' → cs.head? = some '\n') ∧ PairedReturns cs := by
  constructor
  · intro h
    refine ⟨fun hc => h [] cs (by rw [hc]; rfl), fun pre post hcs => h (c :: pre) post ?_⟩
    rw [hcs, List.cons_append]
  · rintro ⟨hhead, hcs⟩ pre post h
    rcases List.cons_eq_append_iff.1 h with ⟨-, hpost⟩ | ⟨pre, -, hpre⟩
    · obtain ⟨rfl, rfl⟩ := List.cons.inj hpost
      exact hhead rfl
    · exact hcs pre post hpre

/-- No carriage return stands alone if each is followed by a line feed. -/
theorem loneReturns_eq_zero_iff {cs : List Char} : loneReturns cs = 0 ↔ PairedReturns cs := by
  fun_induction loneReturns cs with
  | case1 => exact iff_of_true rfl fun pre post h => absurd h.symm (by simp)
  | case2 rest ih => simp [pairedReturns_cons, ih]
  | case3 rest hno ih =>
    rw [pairedReturns_cons]
    exact iff_of_false (Nat.succ_ne_zero _) fun h => head?_ne_newline hno (h.1 rfl)
  | case4 c rest hpair hc ih =>
    have hne : c ≠ '\r' := hc
    rw [ih, pairedReturns_cons, and_iff_right fun h => absurd h hne]

theorem loneReturns_append {a b : List Char} (h : ¬ Cuts a b) :
    loneReturns (a ++ b) = loneReturns a + loneReturns b := by
  have hcount := count_unifyLineEnds (a ++ b)
  rw [unifyLineEnds_append h, List.count_append, List.count_append, count_unifyLineEnds,
    count_unifyLineEnds] at hcount
  omega

/-! ## The last line -/

/-- The characters after the last line feed. -/
def lastLine : List Char → List Char
  | [] => []
  | c :: cs => if '\n' ∈ c :: cs then lastLine cs else c :: cs

theorem lastLine_of_notMem {cs : List Char} (h : '\n' ∉ cs) : lastLine cs = cs := by
  cases cs with
  | nil => rfl
  | cons c cs => exact if_neg h

@[simp]
theorem lastLine_newline (cs : List Char) : lastLine ('\n' :: cs) = lastLine cs :=
  if_pos (.head _)

theorem lastLine_append {before more : List Char} (h : '\n' ∉ more) :
    lastLine (before ++ more) = lastLine before ++ more := by
  induction before with
  | nil => exact lastLine_of_notMem h
  | cons c cs ih =>
    have hmem : '\n' ∈ c :: (cs ++ more) ↔ '\n' ∈ c :: cs := by
      rw [← List.cons_append, List.mem_append, or_iff_left h]
    rw [List.cons_append, lastLine, lastLine, if_congr hmem ih rfl]
    split <;> rfl

/-- Without lone carriage returns, unifying changes nothing after the last line feed. -/
theorem lastLine_unifyLineEnds {cs : List Char} (h : loneReturns cs = 0) :
    lastLine (unifyLineEnds cs) = lastLine cs := by
  fun_induction loneReturns cs with
  | case1 => rfl
  | case2 rest ih =>
    rw [unifyLineEnds_pair, lastLine_newline, ih h, lastLine, if_pos (by simp), lastLine_newline]
  | case3 rest hno ih => cases h
  | case4 c rest hpair hc ih =>
    have hcount := count_unifyLineEnds rest
    have hmem : '\n' ∈ unifyLineEnds rest ↔ '\n' ∈ rest := by
      rw [← List.count_pos_iff, ← List.count_pos_iff, hcount, h, Nat.add_zero]
    rw [unifyLineEnds_of_ne hc, lastLine, lastLine, ih h]
    by_cases hin : '\n' ∈ c :: rest
    · rw [if_pos hin, if_pos (by simpa [hmem] using hin)]
    · -- nothing but the last line is left, and there the texts agree
      have hrest : '\n' ∉ rest := fun hmem => hin (.tail _ hmem)
      have hsame : unifyLineEnds rest = rest := by
        have hlast := ih h
        rwa [lastLine_of_notMem (mt hmem.1 hrest), lastLine_of_notMem hrest] at hlast
      rw [if_neg hin, hsame, if_neg hin]

/-! ## Bytes -/

theorem length_unifyLineEnds_le (cs : List Char) : (unifyLineEnds cs).length ≤ cs.length := by
  rw [unifyLineEnds_eq_unifyInOnePass]
  fun_induction unifyInOnePass cs with
  | case1 => exact Nat.le_refl _
  | case2 rest ih => exact Nat.succ_le_succ (Nat.le_succ_of_le ih)
  | case3 rest _ ih => exact Nat.succ_le_succ ih
  | case4 c rest _ _ ih => exact Nat.succ_le_succ ih

theorem length_le_byteLength (cs : List Char) : cs.length ≤ byteLength cs := by
  induction cs with
  | nil => exact Nat.le_refl _
  | cons c cs ih =>
    have hsize := c.utf8Size_pos
    rw [List.length_cons, byteLength]
    omega

/-- A text has as many bytes as it has characters once unified if all its characters are single bytes and no
carriage return is dropped. -/
theorem byteLength_eq_length_unifyLineEnds_iff (cs : List Char) :
    byteLength cs = (unifyLineEnds cs).length ↔
      (∀ c ∈ cs, c.utf8Size = 1) ∧ ¬ ['\r', '\n'] <:+: cs := by
  induction cs using unifyInOnePass.induct with
  | case1 => simp [unifyLineEnds, replace, replaceFrom, byteLength]
  | case2 rest ih =>
    have hle := (length_unifyLineEnds_le rest).trans (length_le_byteLength rest)
    refine iff_of_false ?_ fun h => h.2 ⟨[], rest, rfl⟩
    simp only [unifyLineEnds_pair, List.length_cons, byteLength, show '\r'.utf8Size = 1 from rfl,
      show '\n'.utf8Size = 1 from rfl]
    omega
  | case3 rest hno ih =>
    have hprefix : ¬ ['\r', '\n'] <+: '\r' :: rest := by
      rintro ⟨more, hmore⟩
      exact hno more (List.cons.inj hmore).2.symm
    rw [List.forall_mem_cons, List.infix_cons_iff, not_or, and_iff_right (show '\r'.utf8Size = 1 from rfl),
      and_iff_right hprefix, ← ih, unifyLineEnds_return (head?_ne_newline hno)]
    simp only [List.length_cons, byteLength, show '\r'.utf8Size = 1 from rfl]
    omega
  | case4 c rest hpair hc ih =>
    have hprefix : ¬ ['\r', '\n'] <+: c :: rest := by
      rintro ⟨more, hmore⟩
      exact hc (List.cons.inj hmore).1.symm
    have hsize := c.utf8Size_pos
    have hle := (length_unifyLineEnds_le rest).trans (length_le_byteLength rest)
    rw [List.forall_mem_cons, List.infix_cons_iff, not_or, and_iff_right hprefix, and_assoc, ← ih,
      unifyLineEnds_of_ne hc]
    simp only [List.length_cons, byteLength]
    omega

/-! ## Starts of a text -/

theorem getLast?_unifyLineEnds {cs : List Char} (h : cs.getLast? = some '\r') :
    (unifyLineEnds cs).getLast? = some '\n' := by
  obtain ⟨front, rfl⟩ := List.getLast?_eq_some_iff.1 h
  rw [unifyLineEnds_append fun hcuts => absurd hcuts.2 (by decide)]
  exact List.getLast?_append_of_ne_nil _ (List.cons_ne_nil _ _)

theorem eq_nil_of_unifyLineEnds_eq_nil {cs : List Char} (h : unifyLineEnds cs = []) : cs = [] := by
  rw [unifyLineEnds_eq_unifyInOnePass] at h
  fun_induction unifyInOnePass cs with
  | case1 => rfl
  | _ => cases h

/-- Two starts of one text that read alike are the same, unless they end in a line end. -/
theorem eq_of_unifyLineEnds_eq {a b x y : List Char} (h : a ++ x = b ++ y)
    (heq : unifyLineEnds a = unifyLineEnds b) (hlast : (unifyLineEnds a).getLast? ≠ some '\n') :
    a = b := by
  have hshort {a x : List Char} (heq : unifyLineEnds (a ++ x) = unifyLineEnds a)
      (hlast : (unifyLineEnds a).getLast? ≠ some '\n') : x = [] := by
    rw [unifyLineEnds_append fun hcuts => hlast (getLast?_unifyLineEnds hcuts.1)] at heq
    exact eq_nil_of_unifyLineEnds_eq_nil (List.append_right_eq_self.1 heq)
  -- one of them is the longer, and what it has more reads as nothing
  rcases List.append_eq_append_iff.1 h with ⟨more, rfl, -⟩ | ⟨more, rfl, -⟩
  · rw [hshort heq.symm hlast, List.append_nil]
  · rw [hshort heq (heq ▸ hlast), List.append_nil]

/-- A line end is one of its two characters, and perhaps the other one as well. -/
theorem exists_of_unifyLineEnds_cons {cs rest : List Char} (h : unifyLineEnds cs = '\n' :: rest) :
    ∃ c more, cs = c :: more ∧ (c = '\n' ∨ c = '\r') := by
  cases cs with
  | nil => cases h
  | cons c more =>
    refine ⟨c, more, rfl, ?_⟩
    by_cases hc : c = '\r'
    · exact .inr hc
    · rw [unifyLineEnds_of_ne hc] at h
      exact .inl (List.cons.inj h).1

end GotoScript.Text
