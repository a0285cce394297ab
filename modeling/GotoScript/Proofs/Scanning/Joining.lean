import GotoScript.Proofs.Scanning.Tokens

/-!
# Texts joined by a line end

A text is scanned alike at its end and before a character that breaks it off, as a kept line end does. So the
lexemes of two texts with a line end between them are those of the first, the line end, and those of the
second further on; and the tokens of the second stand further down.

* `item_induction` : induction over a text, item by item;
* `scanFrom_add` : a text is scanned alike at every offset;
* `scanFrom_append_text` : a text is scanned as before when more follows that breaks it off;
* `scan_append_newline` : the lexemes of two texts; `paired_scan_append_newline` : their tokens;
* `Position.down` : the same column, some lines further down.
-/

namespace GotoScript

/-- The same column, some lines further down. -/
def Position.down (n : Nat) (p : Position) : Position :=
  { p with line := p.line + UInt32.ofNat n }

theorem Position.touches_down (n : Nat) (p q : Position) :
    (p.down n).touches (q.down n) = p.touches q := by
  have hline : decide (p.line + UInt32.ofNat n = q.line + UInt32.ofNat n) =
      decide (p.line = q.line) := decide_eq_decide.2 (UInt32.add_left_inj _)
  exact congrArg (· && _) hline

/-- Where there is no overflow, a line number grows by the number of lines. -/
theorem Position.toNat_line_down {n : Nat} {p : Position} (h : p.line.toNat + n < UInt32.size) :
    (p.down n).line.toNat = p.line.toNat + n :=
  Text.toNat_add_ofNat h

namespace Lexeme

open Text (byteLength)

/-! ## Item by item -/

/-- Induction over a text, item by item, up to an item that is never closed. -/
theorem item_induction (keep : Bool) {P : List Char → Prop} (hnil : P [])
    (hunclosed : ∀ c cs, firstItem? keep c cs = none → P (c :: cs))
    (hitem : ∀ kind chars rest, Form keep kind chars rest → P rest → P (chars ++ rest)) :
    ∀ cs, P cs
  | [] => hnil
  | c :: cs => by
    cases hfirst : firstItem? keep c cs with
    | none => exact hunclosed c cs hfirst
    | some item =>
      obtain ⟨tail, hchars, htail⟩ := firstItem?_split hfirst
      have hlength := firstItem?_rest_length hfirst
      rw [← htail, ← List.cons_append, ← hchars]
      exact hitem _ _ _ (firstItem?_form hfirst) (item_induction keep hnil hunclosed hitem item.rest)
termination_by cs => cs.length
decreasing_by
  rw [List.length_cons]
  omega

theorem scanFrom_of_unclosed {keep : Bool} {c : Char} {cs : List Char}
    (h : firstItem? keep c cs = none) (offset : Nat) :
    scanFrom keep offset (c :: cs) = .error offset := by
  rw [scanFrom]
  split
  · rfl
  · next item hitem =>
    rw [h] at hitem
    cases hitem

/-- The same lexeme, some bytes further on. -/
def shifted (d : Nat) (l : Lexeme) : Lexeme :=
  { l with offset := l.offset + d }

/-- A text is scanned alike wherever it starts. -/
theorem scanFrom_add (keep : Bool) (d : Nat) (cs : List Char) (offset : Nat) :
    scanFrom keep (offset + d) cs =
      ((scanFrom keep offset cs).map (List.map (shifted d))).mapError (· + d) := by
  induction cs using item_induction keep generalizing offset with
  | hnil => rw [scanFrom, scanFrom]; rfl
  | hunclosed c cs h => rw [scanFrom_of_unclosed h, scanFrom_of_unclosed h]; rfl
  | hitem kind chars rest h ih =>
    rw [scanFrom_append h, scanFrom_append h, Nat.add_right_comm, ih]
    cases scanFrom keep (offset + byteLength chars) rest with
    | error e => rfl
    | ok later => cases kind <;> rfl

/-! ## Texts after one another -/

/-- A line comment is open at the end of the text. -/
def OpenComment (keep : Bool) (text : List Char) : Prop :=
  ∃ pre body, text = pre ++ '/' :: '/' :: body ∧ '\n' ∉ body ∧ ∃ ls, scan keep pre = .ok ls

/-- Only a line comment can run on into the text. -/
def Breaks (keep : Bool) (text : List Char) : Prop :=
  ∀ c ∈ text.head?, isBlank keep c = false ∧ isWordChar c = false ∧ c ≠ '/' ∧ c ≠ '*'

section append

variable {keep : Bool} {kind : Option Kind} {chars rest more : List Char}

/-- An item depends on the next character only, and a lexeme stays what it is before a space or a tab. -/
theorem Form.of_next {rest' : List Char} (h : Form keep kind chars rest)
    (hnext : ∀ d ∈ rest'.head?, d ∈ rest.head? ∨ kind ≠ none ∧ (d = ' ' ∨ d = '\t')) :
    Form keep kind chars rest' := by
  cases h with
  | blanks hne hall hend =>
    exact .blanks hne hall fun d hd => (hnext d hd).elim (hend d) fun hkind => absurd rfl hkind.1
  | lineComment hbody hend =>
    exact .lineComment hbody fun d hd => (hnext d hd).elim (hend d) fun hkind => absurd rfl hkind.1
  | blockComment hbody => exact .blockComment hbody
  | word hne hall hend =>
    refine .word hne hall fun d hd => (hnext d hd).elim (hend d) ?_
    rintro ⟨-, rfl | rfl⟩ <;> rfl
  | quoted hq hbody => exact .quoted hq hbody
  | lineEnd hkeep => exact .lineEnd hkeep
  | mark hc hend =>
    refine .mark hc fun hslash d hd => (hnext d hd).elim (hend hslash d) ?_
    rintro ⟨-, rfl | rfl⟩ <;> decide

/-- An item stays what it is when the text ends sooner after it. -/
theorem Form.take (h : Form keep kind chars (rest ++ more)) : Form keep kind chars rest := by
  refine h.of_next fun d hd => .inl ?_
  cases rest with
  | nil => cases hd
  | cons c cs => exact hd

/-- An item stays what it is when more text follows that breaks off all but line comments. -/
theorem Form.append (h : Form keep kind chars rest) (hmore : Breaks keep more)
    (hopen : OpenComment keep (chars ++ rest) → ∀ c ∈ more.head?, c = '\n') :
    Form keep kind chars (rest ++ more) := by
  have hhead {d : Char} (hd : d ∈ (rest ++ more).head?) : d ∈ rest.head? ∨ rest = [] ∧ d ∈ more.head? := by
    cases rest with
    | nil => exact .inr ⟨rfl, hd⟩
    | cons c cs => exact .inl hd
  cases h with
  | blanks hne hall hnext =>
    exact .blanks hne hall fun d hd => (hhead hd).elim (hnext d) fun hd => (hmore d hd.2).1
  | @lineComment body _ hbody hnext =>
    refine .lineComment hbody fun d hd => ?_
    rcases hhead hd with hd | ⟨rfl, hd⟩
    · exact hnext d hd
    · exact hopen ⟨[], body, List.append_nil _, hbody, [], by rw [scan, scanFrom]⟩ d hd
  | blockComment hbody => exact .blockComment hbody
  | word hne hall hnext =>
    exact .word hne hall fun d hd => (hhead hd).elim (hnext d) fun hd => (hmore d hd.2).2.1
  | quoted hq hbody => exact .quoted hq hbody
  | lineEnd hkeep => exact .lineEnd hkeep
  | mark hc hnext =>
    exact .mark hc fun hslash d hd => (hhead hd).elim (hnext hslash d) fun hd => (hmore d hd.2).2.2

theorem OpenComment.append (hform : Form keep kind chars rest) (h : OpenComment keep rest) :
    OpenComment keep (chars ++ rest) := by
  obtain ⟨pre, body, rfl, hbody, ls, hscan⟩ := h
  refine ⟨chars ++ pre, body, (List.append_assoc ..).symm, hbody, ?_⟩
  unfold scan at hscan ⊢
  rw [scanFrom_append hform.take, scanFrom_add, hscan]
  exact ⟨_, rfl⟩

/-- A text is scanned as before when more follows, up to where it ended. -/
theorem scanFrom_append_text {cs : List Char} {offset : Nat} {ls : List Lexeme}
    (h : scanFrom keep offset cs = .ok ls) (hmore : Breaks keep more)
    (hopen : OpenComment keep cs → ∀ c ∈ more.head?, c = '\n') :
    scanFrom keep offset (cs ++ more) =
      (scanFrom keep (offset + byteLength cs) more).map (ls ++ ·) := by
  induction cs using item_induction keep generalizing offset ls with
  | hnil =>
    rw [scanFrom] at h
    cases h
    exact (id_map (scanFrom keep offset more)).symm
  | hunclosed c cs hunclosed =>
    rw [scanFrom_of_unclosed hunclosed] at h
    cases h
  | hitem kind chars rest hform ih =>
    rw [scanFrom_append hform] at h
    cases hrest : scanFrom keep (offset + byteLength chars) rest with
    | error e =>
      rw [hrest] at h
      cases h
    | ok later =>
      rw [hrest] at h
      cases h
      rw [List.append_assoc, scanFrom_append (hform.append hmore hopen),
        ih hrest fun hcomment => hopen (hcomment.append hform), Text.byteLength_append, ← Nat.add_assoc]
      cases scanFrom keep (offset + byteLength chars + byteLength rest) more with
      | error e => rfl
      | ok after => exact congrArg Except.ok (List.append_assoc ..).symm

end append

/-! ## Before a line end -/

/-- The lexemes of two texts with a line end between them. -/
theorem scan_append_newline {cs : List Char} {ls : List Lexeme} (h : scan true cs = .ok ls)
    (more : List Char) :
    scan true (cs ++ '\n' :: more) =
      ((scan true more).map fun later =>
        ls ++ ⟨.lineEnd, "\n", byteLength cs⟩ :: later.map (shifted (byteLength cs + 1))).mapError
          (· + (byteLength cs + 1)) := by
  have hend : scanFrom true (byteLength cs) ('\n' :: more) =
      (scanFrom true (byteLength cs + 1) more).map (⟨.lineEnd, "\n", byteLength cs⟩ :: ·) :=
    scanFrom_append (.lineEnd rfl) (byteLength cs)
  have hbreaks : Breaks true ('\n' :: more) := by
    rintro c ⟨⟩
    decide
  have hfeed : ∀ c ∈ ('\n' :: more).head?, c = '\n' := by
    rintro c ⟨⟩
    rfl
  unfold scan
  rw [scanFrom_append_text h hbreaks fun _ => hfeed, Nat.zero_add, hend, ← Nat.zero_add (byteLength cs + 1),
    scanFrom_add]
  cases scanFrom true 0 more <;> simp [Except.map, Except.mapError]

/-! ## Tokens -/

theorem token_append {keep : Bool} {text : List Char} {ls : List Lexeme} {l : Lexeme}
    (h : scan keep text = .ok ls) (hl : l ∈ ls) (file : String) (more : List Char) :
    token file (text ++ more) l = token file text l := by
  obtain ⟨before, after, rfl, -, hoffset⟩ := exists_before h hl
  unfold token
  rw [hoffset, Text.place_append, List.append_assoc, Text.place_append]

theorem token_shifted {keep : Bool} {text : List Char} {ls : List Lexeme} {l : Lexeme}
    (h : scan keep text = .ok ls) (hl : l ∈ ls) (file : String) (cs : List Char) :
    token file (cs ++ '\n' :: text) (l.shifted (byteLength cs + 1)) =
      (token file text l).moved (Position.down (1 + cs.count '\n')) := by
  obtain ⟨before, after, rfl, -, hoffset⟩ := exists_before h hl
  have hlength : (l.shifted (byteLength cs + 1)).offset = byteLength (cs ++ '\n' :: before) := by
    rw [shifted, hoffset, Text.byteLength_append, Nat.add_comm, Nat.add_assoc]
    rfl
  have hline : (Text.after 1 1 cs).1 + 1 = 1 + UInt32.ofNat (1 + cs.count '\n') := by
    rw [Text.after_fst, UInt32.ofNat_add, UInt32.add_assoc, UInt32.add_comm (UInt32.ofNat _)]
    rfl
  have hafter : Text.after 1 1 (cs ++ '\n' :: before) =
      ((Text.after 1 1 before).1 + UInt32.ofNat (1 + cs.count '\n'), (Text.after 1 1 before).2) := by
    rw [Text.after_append, Text.after, if_pos rfl, hline, Text.after_add]
  unfold token
  rw [hlength, ← List.cons_append, ← List.append_assoc, Text.place_append, hafter, hoffset,
    Text.place_append]
  rfl

/-- No line number is greater than the number of characters allows. -/
theorem line_token_le {keep : Bool} {text : List Char} {ls : List Lexeme} {l : Lexeme}
    (h : scan keep text = .ok ls) (hl : l ∈ ls) (file : String) :
    (token file text l).position.line.toNat ≤ 1 + text.length := by
  obtain ⟨before, after, rfl, -, hoffset⟩ := exists_before h hl
  have hcount : before.count '\n' ≤ before.length := List.count_le_length
  unfold token
  rw [hoffset, Text.place_append, Text.after_fst, List.length_append]
  calc (1 + UInt32.ofNat (before.count '\n')).toNat
      ≤ 1 + (UInt32.ofNat (before.count '\n')).toNat := by
        rw [UInt32.toNat_add]
        exact Nat.mod_le ..
    _ ≤ 1 + before.count '\n' := Nat.add_le_add_left (Nat.mod_le ..) 1
    _ ≤ 1 + (before.length + after.length) := by omega

/-- The tokens of two texts with a line end between them: those of the second stand further down. -/
theorem paired_scan_append_lineEnd {cs ds : List Char} {ls ms : List Lexeme}
    (h : scan true cs = .ok ls) (h' : scan true ds = .ok ms) (file : String) :
    Token.paired ((ls ++ ⟨.lineEnd, "\n", byteLength cs⟩ ::
        ms.map (shifted (byteLength cs + 1))).map (token file (cs ++ '\n' :: ds))) =
      Token.paired (ls.map (token file cs)) ++
        token file (cs ++ '\n' :: ds) ⟨.lineEnd, "\n", byteLength cs⟩ ::
          (Token.paired (ms.map (token file ds))).map
            (Token.moved (Position.down (1 + cs.count '\n'))) := by
  have hfirst : ls.map (token file (cs ++ '\n' :: ds)) = ls.map (token file cs) :=
    List.map_congr_left fun l hl => token_append h hl file _
  have hsecond : (ms.map (shifted (byteLength cs + 1))).map (token file (cs ++ '\n' :: ds)) =
      (ms.map (token file ds)).map (Token.moved (Position.down (1 + cs.count '\n'))) := by
    rw [List.map_map, List.map_map]
    exact List.map_congr_left fun l hl => token_shifted h' hl file cs
  have hnewline : (token file (cs ++ '\n' :: ds) ⟨.lineEnd, "\n", byteLength cs⟩).isNewline := rfl
  rw [List.map_append, List.map_cons, hfirst, hsecond, Token.paired_append_newline hnewline,
    Token.paired_map_moved fun _ _ _ _ => Position.touches_down _ _ _]

theorem paired_scan_append_newline {cs ds : List Char} {ls ms : List Lexeme}
    (h : scan true cs = .ok ls) (h' : scan true ds = .ok ms) (file : String) :
    ∃ n : Token, n.isNewline ∧
      Token.paired ((ls ++ ⟨.lineEnd, "\n", byteLength cs⟩ ::
          ms.map (shifted (byteLength cs + 1))).map (token file (cs ++ '\n' :: ds))) =
        Token.paired (ls.map (token file cs)) ++
          n :: (Token.paired (ms.map (token file ds))).map
            (Token.moved (Position.down (1 + cs.count '\n'))) :=
  ⟨_, rfl, paired_scan_append_lineEnd h h' file⟩

end Lexeme

end GotoScript
