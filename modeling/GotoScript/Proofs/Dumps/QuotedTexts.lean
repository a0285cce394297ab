import GotoScript.Text.Quoted
import Mathlib.Data.Nat.Basic
import Mathlib.Tactic.Common

/-!
# Quoted texts can be told apart

In a longer text a quoted text shows where it ends and what it quotes:

* `append_inj_of_forall` : two runs of characters of one class, each followed by something else;
* `QuotedAs`, `QuotedAs.append_inj` : one character as it is quoted;
* `quoted_append_inj` : a whole quoted text.
-/

namespace GotoScript.Text

/-- Runs of characters of a class end at the first character that is not of the class. -/
theorem append_inj_of_forall {p : Char → Prop} {run run' rest rest' : List Char} (hrun : ∀ c ∈ run, p c)
    (hrun' : ∀ c ∈ run', p c) (hrest : ∀ c ∈ rest.head?, ¬ p c) (hrest' : ∀ c ∈ rest'.head?, ¬ p c)
    (h : run ++ rest = run' ++ rest') : run = run' ∧ rest = rest' := by
  induction run generalizing run' with
  | nil =>
    cases run' with
    | nil => exact ⟨rfl, h⟩
    | cons c run' =>
      subst h
      exact absurd (hrun' c List.mem_cons_self) (hrest c rfl)
  | cons c run ih =>
    cases run' with
    | nil =>
      subst h
      exact absurd (hrun c List.mem_cons_self) (hrest' c rfl)
    | cons c' run' =>
      obtain ⟨rfl, htail⟩ := List.cons.inj h
      obtain ⟨rfl, hsame⟩ := ih (List.forall_mem_cons.1 hrun).2 (List.forall_mem_cons.1 hrun').2 htail
      exact ⟨rfl, hsame⟩

/-! ## Code points -/

theorem digitChar_inj {m n : Nat} (hm : m < 16) (hn : n < 16) (h : m.digitChar = n.digitChar) : m = n := by
  have hall : ∀ i j : Fin 16, Nat.digitChar i = Nat.digitChar j → i = j := by decide
  exact congrArg Fin.val (hall ⟨m, hm⟩ ⟨n, hn⟩ h)

theorem brace_notMem_toDigits (n : Nat) : '\x7d' ∉ Nat.toDigits 16 n := by
  have hdigit : ∀ i : Fin 16, '\x7d' ≠ Nat.digitChar i := by decide
  induction n using Nat.strongRecOn with
  | _ n ih =>
    rw [Nat.toDigits_eq_if (by decide)]
    split
    · next hn => exact mt List.mem_singleton.1 (hdigit ⟨n, hn⟩)
    · rw [List.mem_append, not_or, List.mem_singleton]
      exact ⟨ih (n / 16) (by omega), hdigit ⟨n % 16, Nat.mod_lt n (by decide)⟩⟩

theorem toDigits_inj (m n : Nat) (h : Nat.toDigits 16 m = Nat.toDigits 16 n) : m = n := by
  induction m using Nat.strongRecOn generalizing n with
  | _ m ih =>
    have hpos (k : Nat) : 0 < (Nat.toDigits 16 k).length := Nat.length_toDigits_pos
    rw [Nat.toDigits_eq_if (by decide), Nat.toDigits_eq_if (n := n) (by decide)] at h
    split at h
    · next hm =>
      split at h
      · next hn => exact digitChar_inj hm hn (List.cons.inj h).1
      · have hlength := congrArg List.length h
        rw [List.length_append] at hlength
        have := hpos (n / 16)
        simp only [List.length_cons, List.length_nil] at hlength
        omega
    · split at h
      · have hlength := congrArg List.length h
        rw [List.length_append] at hlength
        have := hpos (m / 16)
        simp only [List.length_cons, List.length_nil] at hlength
        omega
      · obtain ⟨hquotient, hdigit⟩ := List.append_singleton_inj.1 h
        have hdiv := ih (m / 16) (by omega) (n / 16) hquotient
        have hmod := digitChar_inj (Nat.mod_lt m (by decide)) (Nat.mod_lt n (by decide)) hdigit
        omega

/-! ## Quoted characters -/

/-- The characters that have a letter or a mark of their own after a backslash. -/
def shortEscapes : List (Char × Char) :=
  [('0', '\x00'), ('t', '\t'), ('r', '\r'), ('n', '\n'), ('"', '"'), ('\\', '\\')]

/-- The three ways to quote a character. -/
inductive QuotedAs (c : Char) : List Char → Prop where
  | self (hquote : c ≠ '"') (hslash : c ≠ '\\') : QuotedAs c [c]
  | escape {x : Char} (h : (x, c) ∈ shortEscapes) : QuotedAs c ['\\', x]
  | codePoint : QuotedAs c (codePointEscape c)

theorem quotedAs_quoteChar (c : Char) : QuotedAs c (quoteChar c) := by
  unfold quoteChar
  split
  · next h => exact .escape (by simp [shortEscapes, h])
  split
  · next h => exact .escape (by simp [shortEscapes, h])
  split
  · next h => exact .escape (by simp [shortEscapes, h])
  split
  · next h => exact .escape (by simp [shortEscapes, h])
  split
  · next h =>
    rw [Bool.or_eq_true, decide_eq_true_eq, decide_eq_true_eq] at h
    obtain rfl | rfl := h <;> exact .escape (by simp [shortEscapes])
  next h =>
  split
  · exact .codePoint
  · simp only [Bool.or_eq_true, decide_eq_true_eq, not_or] at h
    exact .self h.1 h.2

theorem shortEscapes_functional {x c d : Char} (hc : (x, c) ∈ shortEscapes) (hd : (x, d) ∈ shortEscapes) : c = d := by
  simp only [shortEscapes, List.mem_cons, Prod.mk.injEq, List.not_mem_nil, or_false] at hc hd
  rcases hc with ⟨rfl, rfl⟩ | ⟨rfl, rfl⟩ | ⟨rfl, rfl⟩ | ⟨rfl, rfl⟩ | ⟨rfl, rfl⟩ | ⟨rfl, rfl⟩ <;> simp_all

theorem not_mem_shortEscapes (c : Char) : ('u', c) ∉ shortEscapes := by
  simp [shortEscapes]

theorem QuotedAs.append_inj {c d : Char} {cs ds rest rest' : List Char} (hc : QuotedAs c cs) (hd : QuotedAs d ds)
    (h : cs ++ rest = ds ++ rest') : c = d ∧ rest = rest' := by
  have hslash {c : Char} {more rest rest' : List Char} (hc : c ≠ '\\') :
      [c] ++ rest ≠ '\\' :: more ++ rest' := fun h => hc (List.cons.inj h).1
  have hletter {x c : Char} {more rest rest' : List Char} (hx : (x, c) ∈ shortEscapes) :
      ['\\', x] ++ rest ≠ '\\' :: 'u' :: more ++ rest' := by
    intro h
    obtain rfl := (List.cons.inj (List.cons.inj h).2).1
    exact not_mem_shortEscapes c hx
  cases hc with
  | self hquote hs =>
    cases hd with
    | self => exact List.cons.inj h
    | escape => exact absurd h (hslash hs)
    | codePoint => exact absurd h (hslash hs)
  | escape hx =>
    cases hd with
    | self _ hs => exact absurd h.symm (hslash hs)
    | escape hx' =>
      obtain ⟨rfl, hrest⟩ := List.cons.inj (List.cons.inj h).2
      exact ⟨shortEscapes_functional hx hx', hrest⟩
    | codePoint => exact absurd h (hletter hx)
  | codePoint =>
    cases hd with
    | self _ hs => exact absurd h.symm (hslash hs)
    | escape hx => exact absurd h.symm (hletter hx)
    | codePoint =>
      have hbrace (n : Nat) : ∀ x ∈ Nat.toDigits 16 n, x ≠ '\x7d' := fun x hx heq =>
        brace_notMem_toDigits n (heq ▸ hx)
      unfold codePointEscape at h
      simp only [List.append_assoc, List.append_cancel_left_eq, List.singleton_append] at h
      obtain ⟨hdigits, hrest⟩ := append_inj_of_forall (hbrace _) (hbrace _) (by simp) (by simp) h
      exact ⟨Char.toNat_inj.1 (toDigits_inj _ _ hdigits), (List.cons.inj hrest).2⟩

theorem QuotedAs.head_ne {c : Char} {cs : List Char} (h : QuotedAs c cs) :
    ∃ x more, cs = x :: more ∧ x ≠ '"' := by
  cases h with
  | self hquote _ => exact ⟨c, [], rfl, hquote⟩
  | @escape x _ => exact ⟨'\\', [x], rfl, by decide⟩
  | codePoint => exact ⟨'\\', _, rfl, by decide⟩

/-! ## Quoted texts -/

theorem flatMap_quoteChar_append_inj {cs ds rest rest' : List Char}
    (h : cs.flatMap quoteChar ++ '"' :: rest = ds.flatMap quoteChar ++ '"' :: rest') : cs = ds ∧ rest = rest' := by
  have hclosed {c : Char} {more rest rest' : List Char} :
      '"' :: rest ≠ quoteChar c ++ more ++ '"' :: rest' := by
    obtain ⟨x, tail, htail, hx⟩ := (quotedAs_quoteChar c).head_ne
    rw [htail]
    exact fun h => hx (List.cons.inj h).1.symm
  induction cs generalizing ds with
  | nil =>
    cases ds with
    | nil => exact ⟨rfl, (List.cons.inj h).2⟩
    | cons d ds => exact absurd h hclosed
  | cons c cs ih =>
    cases ds with
    | nil => exact absurd h.symm hclosed
    | cons d ds =>
      rw [List.flatMap_cons, List.flatMap_cons, List.append_assoc, List.append_assoc] at h
      obtain ⟨rfl, htail⟩ := (quotedAs_quoteChar c).append_inj (quotedAs_quoteChar d) h
      obtain ⟨rfl, hrest⟩ := ih htail
      exact ⟨rfl, hrest⟩

theorem toList_quoted (s : String) : (quoted s).toList = '"' :: (s.toList.flatMap quoteChar ++ ['"']) := by
  simp only [quoted, String.toList_append, String.toList_ofList]
  rfl

theorem quoted_append_inj {s t : String} {rest rest' : List Char}
    (h : (quoted s).toList ++ rest = (quoted t).toList ++ rest') : s = t ∧ rest = rest' := by
  rw [toList_quoted, toList_quoted, List.cons_append, List.cons_append, List.append_assoc, List.append_assoc] at h
  obtain ⟨hchars, hrest⟩ := flatMap_quoteChar_append_inj (List.cons.inj h).2
  exact ⟨String.toList_inj.1 hchars, hrest⟩

end GotoScript.Text
