import GotoScript.Proofs.Scanning.LineEnds
import GotoScript.Proofs.Scanning.Tokens

/-!
# From tokens back to their texts

A line and a column lead back to an offset, and a token carries its line and its column. This module follows
both ways to the characters that a token was read from:

* `Text.toNat_after` : what lines and columns count, while they do not overflow;
* `Text.offsetOf?_append` : the line and the column of a place lead back to it;
  `Text.lt_of_offsetOf?` : a greater line leads further on;
* `Lexeme.Tiles.neighbours` : what stands between a lexeme and the next;
* `Token.Follows` : a token where its characters stand; `Token.exists_follows` : every token of a text stands
  so, also where two entries were joined.
-/

namespace GotoScript

namespace Text

/-! ## Lines and columns as numbers -/

theorem lastLine_suffix (cs : List Char) : lastLine cs <:+ cs := by
  induction cs with
  | nil => exact List.suffix_rfl
  | cons c cs ih =>
    unfold lastLine
    split
    · exact ih.trans (List.suffix_cons c cs)
    · exact List.suffix_rfl

/-- A column counts the characters since the last line feed. -/
theorem after_snd (line column : UInt32) (cs : List Char) :
    (after line column cs).2 =
      (if '\n' ∈ cs then 1 else column) + UInt32.ofNat (lastLine cs).length := by
  fun_induction after line column cs with
  | case1 => exact (UInt32.add_zero _).symm
  | case2 line column cs ih => rw [ih, lastLine_newline, if_pos List.mem_cons_self, ite_self]
  | case3 line column c cs hc ih =>
    rw [ih]
    by_cases hin : '\n' ∈ cs
    · have hin' : '\n' ∈ c :: cs := .tail _ hin
      rw [if_pos hin, lastLine, if_pos hin', if_pos hin']
    · have hout : '\n' ∉ c :: cs := fun hmem => (List.mem_cons.1 hmem).elim (fun h => hc h.symm) hin
      rw [if_neg hin, if_neg hout, lastLine_of_notMem hin, lastLine_of_notMem hout, List.length_cons,
        UInt32.ofNat_add, UInt32.add_assoc, UInt32.add_comm (UInt32.ofNat cs.length)]
      rfl

theorem toNat_one_add {n : Nat} (h : n < UInt32.size - 1) : (1 + UInt32.ofNat n).toNat = 1 + n := by
  apply toNat_add_ofNat
  change 1 + n < UInt32.size
  omega

/-- In a text that is not too long, a line counts the line feeds before a place, and a column the characters
since the last of them. -/
theorem toNat_after {cs : List Char} (h : cs.length < UInt32.size - 1) :
    (after 1 1 cs).1.toNat = 1 + cs.count '\n' ∧ (after 1 1 cs).2.toNat = 1 + (lastLine cs).length := by
  have hcount : cs.count '\n' ≤ cs.length := List.count_le_length
  have hlast : (lastLine cs).length ≤ cs.length := (lastLine_suffix cs).length_le
  rw [after_fst, after_snd, ite_self]
  exact ⟨toNat_one_add (by omega), toNat_one_add (by omega)⟩

/-- Characters that lead nowhere are none. -/
theorem eq_nil_of_after {line column : UInt32} {cs : List Char} (hlength : cs.length < UInt32.size)
    (h : after line column cs = (line, column)) : cs = [] := by
  have hzero {m : UInt32} {n : Nat} (hn : n < UInt32.size) (h : m + UInt32.ofNat n = m) : n = 0 := by
    have hofNat : UInt32.ofNat n = 0 := UInt32.add_eq_left.1 h
    exact (UInt32.toNat_ofNat_of_lt hn).symm.trans (congrArg UInt32.toNat hofNat)
  have hcount : cs.count '\n' ≤ cs.length := List.count_le_length
  have hfst := congrArg Prod.fst h
  rw [after_fst] at hfst
  have hin : '\n' ∉ cs := List.count_eq_zero.1 (hzero (by omega) hfst)
  have hsnd := congrArg Prod.snd h
  rw [after_snd, if_neg hin, lastLine_of_notMem hin] at hsnd
  exact List.length_eq_zero_iff.1 (hzero hlength hsnd)

/-! ## Back to offsets -/

/-- As many lines as end before a place lead to the start of its own line. -/
theorem skipLines_append (before rest : List Char) (offset : Nat) :
    ∃ start, skipLines (before.count '\n') offset (before ++ rest) = some (start, lastLine before ++ rest) ∧
      start + byteLength (lastLine before) = offset + byteLength before := by
  induction before generalizing offset with
  | nil => exact ⟨offset, by rw [List.count_nil, skipLines]; rfl, rfl⟩
  | cons c cs ih =>
    obtain ⟨start, hskip, hstart⟩ := ih (offset + c.utf8Size)
    have hsum : offset + byteLength (c :: cs) = offset + c.utf8Size + byteLength cs := by
      rw [byteLength, Nat.add_assoc]
    by_cases hin : '\n' ∈ c :: cs
    · refine ⟨start, ?_, by rw [lastLine, if_pos hin, hstart, hsum]⟩
      rw [lastLine, if_pos hin, ← hskip, List.cons_append]
      by_cases hc : c = '\n'
      · rw [hc, List.count_cons_self, skipLines, if_pos rfl]
      · -- a line feed is still ahead, so the walk goes on
        have hpos : 0 < cs.count '\n' :=
          List.count_pos_iff.2 ((List.mem_cons.1 hin).resolve_left (Ne.symm hc))
        rw [List.count_cons_of_ne hc, ← Nat.succ_pred_eq_of_pos hpos, skipLines, if_neg hc]
    · refine ⟨offset, ?_, by rw [lastLine_of_notMem hin]⟩
      rw [List.count_eq_zero.2 hin, lastLine_of_notMem hin, skipLines]

/-- The line and the column of a place lead back to it, if there is a character. -/
theorem offsetOf?_append {before rest : List Char} {line column : UInt32}
    (hline : line.toNat = 1 + before.count '\n') (hcolumn : column.toNat = 1 + (lastLine before).length)
    (hrest : rest ≠ []) : offsetOf? (before ++ rest) line column = some (byteLength before) := by
  obtain ⟨start, hskip, hstart⟩ := skipLines_append before rest 0
  have hpos : 0 < rest.length := List.length_pos_iff.2 hrest
  have hinside : (lastLine before).length < (lastLine before ++ rest).length := by
    rw [List.length_append]
    omega
  unfold offsetOf?
  rw [hline, hcolumn, Nat.add_sub_cancel_left, Nat.add_sub_cancel_left, hskip]
  change (if _ then _ else none) = _
  rw [if_pos hinside, List.take_left, hstart, Nat.zero_add]

theorem lt_of_skipLines {before rest more : List Char} {n offset start : Nat}
    (hn : before.count '\n' < n) (h : skipLines n offset (before ++ rest) = some (start, more)) :
    offset + byteLength before < start := by
  have hnone {n offset : Nat} (hn : 0 < n) {cs : List Char}
      (h : skipLines n offset cs = some (start, more)) : offset < start := by
    fun_induction skipLines n offset cs with
    | case1 => exact absurd hn (Nat.lt_irrefl 0)
    | case2 => cases h
    | case3 n offset cs ih =>
      have hsize := '\n'.utf8Size_pos
      cases n with
      | zero =>
        rw [skipLines] at h
        cases h
        omega
      | succ n => exact Nat.lt_of_le_of_lt (Nat.le_add_right ..) (ih (Nat.succ_pos n) h)
    | case4 n offset c cs hc ih => exact Nat.lt_of_le_of_lt (Nat.le_add_right ..) (ih hn h)
  induction before generalizing n offset with
  | nil => exact hnone (Nat.zero_lt_of_lt hn) h
  | cons c cs ih =>
    obtain ⟨n, rfl⟩ := Nat.exists_eq_succ_of_ne_zero (Nat.ne_zero_of_lt hn)
    rw [byteLength, ← Nat.add_assoc]
    rw [List.cons_append, skipLines] at h
    by_cases hc : c = '\n'
    · rw [if_pos hc] at h
      rw [hc, List.count_cons_self] at hn
      exact ih (Nat.lt_of_succ_lt_succ hn) h
    · rw [if_neg hc] at h
      rw [List.count_cons_of_ne hc] at hn
      exact ih hn h

/-- A line further down than a place leads to an offset after it. -/
theorem lt_of_offsetOf? {before rest : List Char} {line column : UInt32} {offset : Nat}
    (hline : 1 + before.count '\n' < line.toNat)
    (h : offsetOf? (before ++ rest) line column = some offset) : byteLength before < offset := by
  unfold offsetOf? at h
  obtain ⟨⟨start, more⟩, hskip, h⟩ := Option.bind_eq_some_iff.1 h
  have hlt := lt_of_skipLines (by omega) hskip
  dsimp only at h
  split at h
  · cases h
    omega
  · cases h

end Text

/-! ## Neighbours -/

/-- Between a lexeme and the next there is nothing but a gap. -/
theorem Lexeme.Tiles.neighbours {keep : Bool} {before text : List Char} {ls : List Lexeme}
    (h : Tiles keep before text ls) {l m : Lexeme} (hlm : [l, m] <:+: ls) :
    ∃ pre gap post, before ++ text = pre ++ (l.chars ++ (gap ++ (m.chars ++ post))) ∧
      Placed keep pre l (gap ++ (m.chars ++ post)) ∧ Placed keep (pre ++ (l.chars ++ gap)) m post := by
  induction h with
  | done => exact absurd (List.infix_nil.1 hlm) (List.cons_ne_nil _ _)
  | @lexeme before gap after l' ls hgap hl hls ih =>
    rcases List.infix_cons_iff.1 hlm with hprefix | hinfix
    · obtain ⟨rfl, hnext⟩ := List.cons_prefix_cons.1 hprefix
      cases hls with
      | done => exact absurd (List.prefix_nil.1 hnext) (List.cons_ne_nil _ _)
      | @lexeme _ gap' post m' _ _ hm _ =>
        obtain ⟨rfl, -⟩ := List.cons_prefix_cons.1 hnext
        refine ⟨before ++ gap, gap', post, by simp, hl, ?_⟩
        simpa using hm
    · obtain ⟨pre, gap', post, htext, hplaced⟩ := ih hinfix
      exact ⟨pre, gap', post, by simpa using htext, hplaced⟩

/-! ## Tokens -/

namespace Token

/-- A token is an entry, or two entries that follow each other and join. -/
theorem mem_paired {ts : List Token} {t : Token} (h : t ∈ paired ts) :
    t ∈ ts ∨ ∃ u v, [u, v] <:+: ts ∧ u.Joins v ∧ t = ⟨u.text ++ v.text, u.position, 2⟩ := by
  fun_induction paired ts with
  | case1 => exact .inl h
  | case2 => exact .inl h
  | case3 u v ts hjoins ih =>
    rcases List.mem_cons.1 h with rfl | h
    · exact .inr ⟨u, v, ⟨[], ts, rfl⟩, hjoins, rfl⟩
    · refine (ih h).imp (fun ht => .tail _ (.tail _ ht)) ?_
      rintro ⟨u', v', hinfix, hrest⟩
      exact ⟨u', v', hinfix.trans (List.suffix_append [u, v] ts).isInfix, hrest⟩
  | case4 u v ts _ ih =>
    rcases List.mem_cons.1 h with rfl | h
    · exact .inl (.head _)
    · refine (ih h).imp (.tail _) ?_
      rintro ⟨u', v', hinfix, hrest⟩
      exact ⟨u', v', hinfix.trans (List.suffix_cons u (v :: ts)).isInfix, hrest⟩

/-- A token of a file after some characters. Only a token that is a line end ends in one. -/
structure Follows (file : String) (before : List Char) (t : Token) : Prop where
  position : t.position = ⟨file, (Text.after 1 1 before).1, (Text.after 1 1 before).2⟩
  ne_nil : t.text.toList ≠ []
  isNewline : t.text.toList.getLast? = some '\n' → t.isNewline

theorem Follows.toNat_position {file : String} {before : List Char} {t : Token}
    (h : t.Follows file before) (hlength : before.length < UInt32.size - 1) :
    t.position.line.toNat = 1 + before.count '\n' ∧
      t.position.column.toNat = 1 + (Text.lastLine before).length := by
  rw [h.position]
  exact Text.toNat_after hlength

end Token

theorem Lexeme.Form.eq_newline {keep : Bool} {kind : Kind} {chars rest : List Char}
    (h : Form keep (some kind) chars rest) (hlast : chars.getLast? = some '\n') : chars = ['\n'] := by
  cases h with
  | word hne hall _ => exact absurd (hall _ (List.mem_of_getLast? hlast)) (by decide)
  | @quoted q inner rest hq hbody =>
    rw [← List.cons_append, List.getLast?_append_of_ne_nil _ (List.cons_ne_nil _ _)] at hlast
    obtain rfl : q = '\n' := Option.some.inj hlast
    exact absurd hq (by decide)
  | lineEnd => rfl
  | mark hc _ => exact absurd (Option.some.inj hlast) hc.lineEnd

/-- A lexeme as an entry of its text. -/
theorem Lexeme.Placed.follows {keep : Bool} {before after : List Char} {l : Lexeme}
    (h : Placed keep before l after) (file : String) :
    (l.token file (before ++ (l.chars ++ after))).Follows file before := by
  refine ⟨?_, h.form.ne_nil, fun hlast => ?_⟩
  · unfold token
    rw [h.offset, Text.place_append]
  · have hchars : l.text.toList = ['\n'] := h.form.eq_newline hlast
    exact decide_eq_true (String.toList_inj.1 hchars)

/-- A lexeme and the next as entries of their text. -/
theorem Lexeme.exists_neighbours {keep : Bool} {text : List Char} {ls : List Lexeme} {l m : Lexeme}
    (hscan : scan keep text = .ok ls) (hlm : [l, m] <:+: ls) (file : String) :
    ∃ pre gap post, text = pre ++ (l.chars ++ (gap ++ (m.chars ++ post))) ∧
      Placed keep pre l (gap ++ (m.chars ++ post)) ∧ Placed keep (pre ++ (l.chars ++ gap)) m post ∧
      (l.token file text).Follows file pre ∧ (m.token file text).Follows file (pre ++ (l.chars ++ gap)) := by
  obtain ⟨pre, gap, post, htext, hl, hm⟩ := (tiles_of_scan hscan).neighbours hlm
  rw [List.nil_append] at htext
  refine ⟨pre, gap, post, htext, hl, hm, htext ▸ hl.follows file, ?_⟩
  have hfollows := hm.follows file
  rwa [show pre ++ (l.chars ++ gap) ++ (m.chars ++ post) = text by rw [htext]; simp] at hfollows

/-- Two texts that spell an operator are single marks. -/
theorem TokenStream.exists_mark_of_joined {s t : String} (hs : s.toList ≠ []) (ht : t.toList ≠ [])
    (h : s ++ t ∈ joinedOperators) : ∃ c ∈ ['=', '!', '<', '>'], s.toList = [c] ∧ t.toList = ['='] := by
  have hmarks : joinedOperators.map String.toList = ['=', '!', '<', '>'].map ([·, '=']) := by decide
  have hmem : (s ++ t).toList ∈ joinedOperators.map String.toList := List.mem_map_of_mem h
  rw [hmarks, String.toList_append] at hmem
  obtain ⟨c, hc, hchars⟩ := List.mem_map.1 hmem
  obtain ⟨a, as, has⟩ := List.exists_cons_of_ne_nil hs
  obtain ⟨b, bs, hbs⟩ := List.exists_cons_of_ne_nil ht
  rw [has, hbs] at hchars ⊢
  -- with a character on either side there is no third one
  cases as with
  | nil =>
    obtain ⟨rfl, hmark⟩ : c = a ∧ ['='] = b :: bs := List.cons.inj hchars
    exact ⟨c, hc, rfl, hmark.symm⟩
  | cons a' as => simp at hchars

/-- Nothing stands between two tokens that join. -/
theorem Token.Joins.eq_nil {file : String} {pre gap : List Char} {u v : Token} (h : u.Joins v)
    (hu : u.Follows file pre) (hv : v.Follows file (pre ++ (u.text.toList ++ gap)))
    (hlength : gap.length < UInt32.size) : gap = [] := by
  obtain ⟨hoperator, htouches⟩ := h
  obtain ⟨c, hmark, hc, -⟩ := TokenStream.exists_mark_of_joined hu.ne_nil hv.ne_nil hoperator
  have hfeed : c ≠ '\n' := by
    rintro rfl
    exact absurd hmark (by decide)
  have hplace := hv.position
  rw [hc, List.singleton_append, Text.after_append, Text.after, if_neg hfeed] at hplace
  rw [Position.touches, hu.position, hplace, Bool.and_eq_true, decide_eq_true_eq, decide_eq_true_eq]
    at htouches
  exact Text.eq_nil_of_after hlength (Prod.ext htouches.1.symm htouches.2.symm)

/-- Every token of a text is a part of it, and stands where that part begins. -/
theorem Token.exists_follows {keep : Bool} {text : List Char} {ls : List Lexeme} {file : String} {t : Token}
    (hscan : Lexeme.scan keep text = .ok ls) (hlength : text.length < UInt32.size)
    (ht : t ∈ paired (ls.map (Lexeme.token file text))) :
    ∃ before after, text = before ++ (t.text.toList ++ after) ∧ t.Follows file before := by
  rcases mem_paired ht with ht | ⟨u, v, hinfix, hjoins, rfl⟩
  · obtain ⟨l, hl, rfl⟩ := List.mem_map.1 ht
    obtain ⟨before, after, htext, hplaced⟩ := (Lexeme.tiles_of_scan hscan).slice l hl
    rw [List.nil_append] at htext
    exact ⟨before, after, htext, htext ▸ hplaced.follows file⟩
  · obtain ⟨lm, hlm, hmap⟩ := List.infix_map_iff.1 hinfix
    obtain ⟨l, m, rfl, rfl, rfl⟩ : ∃ l m, lm = [l, m] ∧ u = l.token file text ∧ v = m.token file text := by
      match lm, hmap with
      | [l, m], hmap => exact ⟨l, m, rfl, (List.cons.inj hmap).1, (List.cons.inj (List.cons.inj hmap).2).1⟩
    obtain ⟨pre, gap, post, htext, -, -, hu, hv⟩ := Lexeme.exists_neighbours hscan hlm file
    have hgap : gap.length < UInt32.size := by
      rw [htext] at hlength
      simp only [List.length_append] at hlength
      omega
    obtain rfl := hjoins.eq_nil hu hv hgap
    refine ⟨pre, post, by rw [htext, String.toList_append, List.append_assoc]; rfl, hu.position, ?_, ?_⟩
    · rw [String.toList_append]
      exact List.append_ne_nil_of_left_ne_nil hu.ne_nil _
    · intro hlast
      -- no operator holds a line end
      rw [String.toList_append, List.getLast?_append_of_ne_nil _ hv.ne_nil] at hlast
      exact absurd hjoins (not_joins_of_isNewline (.inr (hv.isNewline hlast)))

end GotoScript
