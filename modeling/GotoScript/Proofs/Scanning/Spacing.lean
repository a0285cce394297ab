import GotoScript.Proofs.Scanning.Consolidation
import GotoScript.Proofs.Scanning.Failures

/-!
# Blanks between tokens

Spaces and tabs behind a token are skipped, however many there are. Put in where none were, they change no token, but
those behind them on the same line stand further right.

* `Position.right` : places behind a given one on its line, some columns further right;
* `Lexeme.scanFrom_cut` : a text can be cut behind any of its lexemes;
  `Lexeme.exists_scan_insert` : its lexemes with blanks put in there;
* `Token.paired_append_of_startsAt` : entries are paired apart where no operator runs across;
* `Lexeme.paired_scan_insert` : the tokens with blanks put in.
-/

namespace GotoScript

/-! ## Places further right -/

namespace Text

theorem coordinates_append_of_notMem {before more : List Char} (h : '\n' ∉ more) :
    coordinates (before ++ more) = ((coordinates before).1, (coordinates before).2 + more.length) := by
  unfold coordinates
  rw [List.count_append, List.count_eq_zero.2 h, lastLine_append h, List.length_append, Nat.add_zero, Nat.add_assoc]

theorem coordinates_append_of_mem (before : List Char) {more : List Char} (h : '\n' ∈ more) :
    (coordinates before).1 < (coordinates (before ++ more)).1 := by
  have hpos := List.count_pos_iff.2 h
  unfold coordinates
  rw [List.count_append]
  dsimp only
  omega

/-- What stands further right stays so up to the end of the line. -/
theorem after_add_column (line column n : UInt32) (cs : List Char) :
    after line (column + n) cs =
      if '\n' ∈ cs then after line column cs
      else ((after line column cs).1, (after line column cs).2 + n) := by
  have hline : (after line (column + n) cs).1 = (after line column cs).1 := by rw [after_fst, after_fst]
  by_cases hfeed : '\n' ∈ cs
  · rw [if_pos hfeed]
    refine Prod.ext hline ?_
    rw [after_snd, after_snd, if_pos hfeed, if_pos hfeed]
  · rw [if_neg hfeed]
    refine Prod.ext hline ?_
    rw [after_snd, after_snd, if_neg hfeed, if_neg hfeed, add_right_comm]

theorem after_of_notMem {cs : List Char} (h : '\n' ∉ cs) (line column : UInt32) :
    after line column cs = (line, column + UInt32.ofNat cs.length) := by
  refine Prod.ext ?_ ?_
  · rw [after_fst, List.count_eq_zero.2 h]
    exact UInt32.add_zero line
  · rw [after_snd, if_neg h, lastLine_of_notMem h]

end Text

namespace Position

open Text (coordinates)

/-- The place behind some characters of a file. -/
def behind (file : String) (before : List Char) : Position :=
  ⟨file, (Text.after 1 1 before).1, (Text.after 1 1 before).2⟩

/-- Places on the line of `start` that are not before it go `n` columns to the right. -/
def right (start : Nat × Nat) (n : Nat) (p : Position) : Position :=
  if p.line.toNat = start.1 ∧ start.2 ≤ p.column.toNat then { p with column := p.column + UInt32.ofNat n } else p

@[simp]
theorem file_right (start : Nat × Nat) (n : Nat) (p : Position) : (p.right start n).file = p.file := by
  unfold right
  split <;> rfl

@[simp]
theorem line_right (start : Nat × Nat) (n : Nat) (p : Position) : (p.right start n).line = p.line := by
  unfold right
  split <;> rfl

theorem toNat_column_right {start : Nat × Nat} {n : Nat} {p : Position} (h : p.column.toNat + n < UInt32.size) :
    (p.right start n).column.toNat =
      p.column.toNat + if p.line.toNat = start.1 ∧ start.2 ≤ p.column.toNat then n else 0 := by
  unfold right
  split
  · exact Text.toNat_add_ofNat h
  · rfl

/-- Places that are not before `start` on its line touch as they did. -/
theorem touches_right {start : Nat × Nat} {p q : Position} (hp : p.line.toNat = start.1 → start.2 ≤ p.column.toNat)
    (hq : q.line.toNat = start.1 → start.2 ≤ q.column.toNat) (n : Nat) :
    (p.right start n).touches (q.right start n) = p.touches q := by
  unfold touches
  rw [line_right, line_right]
  by_cases hline : p.line = q.line
  · congr 1
    unfold right
    by_cases hstart : p.line.toNat = start.1
    · have hstart' : q.line.toNat = start.1 := hline ▸ hstart
      rw [if_pos ⟨hstart, hp hstart⟩, if_pos ⟨hstart', hq hstart'⟩]
      refine decide_eq_decide.2 ?_
      dsimp only
      rw [add_right_comm, UInt32.add_left_inj]
    · have hstart' : ¬ q.line.toNat = start.1 := hline ▸ hstart
      rw [if_neg fun h => hstart h.1, if_neg fun h => hstart' h.1]
  · rw [decide_eq_false hline, Bool.false_and, Bool.false_and]

section behind

variable {file : String} {before more : List Char}

theorem toNat_behind (file : String) (h : before.length < UInt32.size - 1) :
    (behind file before).line.toNat = (coordinates before).1 ∧
      (behind file before).column.toNat = (coordinates before).2 :=
  Text.toNat_after h

theorem right_behind_of_before (hmore : more ≠ []) (hlength : (before ++ more).length < UInt32.size - 1) (n : Nat) :
    (behind file before).right (coordinates (before ++ more)) n = behind file before := by
  have hshort : before.length < UInt32.size - 1 := by
    rw [List.length_append] at hlength
    omega
  obtain ⟨hline, hcolumn⟩ := toNat_behind file hshort
  apply if_neg
  rw [hline, hcolumn]
  rintro ⟨hsame, hle⟩
  by_cases hfeed : '\n' ∈ more
  · have hlt := Text.coordinates_append_of_mem before hfeed
    omega
  · have hpos := List.length_pos_iff.2 hmore
    rw [Text.coordinates_append_of_notMem hfeed] at hle
    dsimp only at hle
    omega

theorem le_column_behind (hlength : (before ++ more).length < UInt32.size - 1)
    (h : (behind file (before ++ more)).line.toNat = (coordinates before).1) :
    (coordinates before).2 ≤ (behind file (before ++ more)).column.toNat := by
  obtain ⟨hline, hcolumn⟩ := toNat_behind file hlength
  rw [hline] at h
  rw [hcolumn]
  by_cases hfeed : '\n' ∈ more
  · have hlt := Text.coordinates_append_of_mem before hfeed
    omega
  · rw [Text.coordinates_append_of_notMem hfeed]
    exact Nat.le_add_right ..

theorem right_behind_of_after {blanks : List Char} (hblanks : '\n' ∉ blanks)
    (hlength : (before ++ more).length < UInt32.size - 1) :
    (behind file (before ++ more)).right (coordinates before) blanks.length =
      behind file (before ++ (blanks ++ more)) := by
  have hafter : Text.after 1 1 (before ++ (blanks ++ more)) =
      if '\n' ∈ more then Text.after 1 1 (before ++ more)
      else ((Text.after 1 1 (before ++ more)).1,
        (Text.after 1 1 (before ++ more)).2 + UInt32.ofNat blanks.length) := by
    rw [Text.after_append, Text.after_append _ _ blanks, Text.after_of_notMem hblanks, Text.after_add_column,
      ← Text.after_append]
  by_cases hfeed : '\n' ∈ more
  · -- the place is further down
    have hlt := Text.coordinates_append_of_mem before hfeed
    obtain ⟨hline, -⟩ := toNat_behind file hlength
    rw [right, if_neg fun h => by omega]
    unfold behind
    rw [hafter, if_pos hfeed]
  · have hline : (behind file (before ++ more)).line.toNat = (coordinates before).1 := by
      rw [(toNat_behind file hlength).1, Text.coordinates_append_of_notMem hfeed]
    rw [right, if_pos ⟨hline, le_column_behind hlength hline⟩]
    unfold behind
    rw [hafter, if_neg hfeed]

end behind

end Position

/-! ## Cutting a text behind a lexeme -/

/-- A text is cut in one way after so many bytes. -/
theorem Text.append_inj_of_byteLength {a b c d : List Char} (h : a ++ b = c ++ d)
    (hbytes : byteLength a = byteLength c) : a = c ∧ b = d := by
  induction a generalizing c with
  | nil =>
    cases c with
    | nil => exact ⟨rfl, h⟩
    | cons x c =>
      have hpos := Lexeme.byteLength_pos (List.cons_ne_nil x c)
      rw [← hbytes] at hpos
      exact absurd hpos (Nat.lt_irrefl 0)
  | cons x a ih =>
    cases c with
    | nil =>
      have hpos := Lexeme.byteLength_pos (List.cons_ne_nil x a)
      rw [hbytes] at hpos
      exact absurd hpos (Nat.lt_irrefl 0)
    | cons y c =>
      obtain ⟨rfl, hrest⟩ := List.cons.inj h
      obtain ⟨rfl, rfl⟩ := ih hrest (Nat.add_left_cancel hbytes)
      exact ⟨rfl, rfl⟩

namespace Lexeme

open Text (byteLength)

/-- A text can be cut behind any of its lexemes. What comes before the cut is scanned alike if another text follows
that goes on with the same character, or with a space or a tab. -/
theorem scanFrom_cut {keep : Bool} {text : List Char} {offset : Nat} {ls₁ ls₂ : List Lexeme} {l : Lexeme}
    (h : scanFrom keep offset text = .ok (ls₁ ++ l :: ls₂)) :
    ∃ before after, text = before ++ after ∧ before ≠ [] ∧ l.stop = offset + byteLength before ∧
      ∀ rest, (∀ c ∈ rest.head?, c ∈ after.head? ∨ c = ' ' ∨ c = '\t') →
        scanFrom keep offset (before ++ rest) =
          (scanFrom keep (offset + byteLength before) rest).map (ls₁ ++ l :: ·) := by
  induction text using item_induction keep generalizing offset ls₁ with
  | hnil =>
    rw [scanFrom] at h
    simp at h
  | hunclosed c cs hunclosed =>
    rw [scanFrom_of_unclosed hunclosed] at h
    cases h
  | hitem kind chars rest hform ih =>
    rw [scanFrom_append hform] at h
    obtain ⟨later, hlater, hls⟩ : ∃ later, scanFrom keep (offset + byteLength chars) rest = .ok later ∧
        Item.lexemes ⟨kind, chars, rest⟩ offset ++ later = ls₁ ++ l :: ls₂ := by
      cases hrest : scanFrom keep (offset + byteLength chars) rest with
      | error e =>
        rw [hrest] at h
        cases h
      | ok later =>
        rw [hrest] at h
        exact ⟨later, rfl, Except.ok.inj h⟩
    -- the lexeme is this item, or one of those behind it
    have hwhere : kind ≠ none ∧ ls₁ = [] ∧ Item.lexemes ⟨kind, chars, rest⟩ offset = [l] ∨
        ∃ ls₁', ls₁ = Item.lexemes ⟨kind, chars, rest⟩ offset ++ ls₁' ∧ later = ls₁' ++ l :: ls₂ := by
      cases kind with
      | none => exact .inr ⟨ls₁, rfl, hls⟩
      | some kind =>
        cases ls₁ with
        | nil => exact .inl ⟨Option.some_ne_none kind, rfl, congrArg ([·]) (List.cons.inj hls).1⟩
        | cons l' ls₁ =>
          obtain ⟨rfl, hlater⟩ := List.cons.inj hls
          exact .inr ⟨ls₁, rfl, hlater⟩
    obtain ⟨hkind, rfl, hl⟩ | ⟨ls₁', rfl, rfl⟩ := hwhere
    · refine ⟨chars, rest, rfl, hform.ne_nil, ?_, ?_⟩
      · obtain ⟨kind, rfl⟩ := Option.ne_none_iff_exists'.1 hkind
        cases hl
        rw [stop, chars_mk_ofList]
      · intro rest' hrest'
        have hform' : Form keep kind chars rest' :=
          hform.of_next fun d hd => (hrest' d hd).imp_right fun hblank => ⟨hkind, hblank⟩
        rw [scanFrom_append hform', show Item.lexemes ⟨kind, chars, rest'⟩ offset = [l] from hl]
        rfl
    · obtain ⟨before, after, rfl, hne, hstop, hcut⟩ := ih hlater
      refine ⟨chars ++ before, after, (List.append_assoc ..).symm, ?_, ?_, ?_⟩
      · exact List.append_ne_nil_of_left_ne_nil hform.ne_nil before
      · rw [hstop, Text.byteLength_append, Nat.add_assoc]
      · intro rest hrest
        have hform' : Form keep kind chars (before ++ rest) := by
          refine hform.of_next fun d hd => .inl ?_
          rwa [List.head?_append_of_ne_nil _ hne] at hd ⊢
        rw [List.append_assoc, scanFrom_append hform', hcut rest hrest, Text.byteLength_append, ← Nat.add_assoc]
        cases scanFrom keep (offset + byteLength chars + byteLength before) rest with
        | error e => rfl
        | ok later => exact congrArg Except.ok (List.append_assoc ..).symm

theorem scan_of_scanFrom {keep : Bool} {offset : Nat} {text : List Char} {ls : List Lexeme}
    (h : scanFrom keep offset text = .ok ls) : ∃ ms, scan keep text = .ok ms ∧ ls = ms.map (shifted offset) := by
  rw [← Nat.zero_add offset, scanFrom_add] at h
  unfold scan
  cases hscan : scanFrom keep 0 text with
  | error e =>
    rw [hscan] at h
    cases h
  | ok ms =>
    rw [hscan] at h
    exact ⟨ms, rfl, (Except.ok.inj h).symm⟩

/-- The lexemes of a text before and behind the end of one of them, and of the text with blanks put in there. -/
theorem exists_scan_insert {keep : Bool} {before after blanks : List Char} {ls : List Lexeme} {k : Nat} {l : Lexeme}
    (h : scan keep (before ++ after) = .ok ls) (hl : ls[k]? = some l) (hstop : l.stop = byteLength before)
    (hblanks : ∀ c ∈ blanks, c = ' ' ∨ c = '\t') :
    ∃ ls₁ ms, scan keep before = .ok ls₁ ∧ scan keep after = .ok ms ∧ ls₁.length = k + 1 ∧
      ls = ls₁ ++ ms.map (shifted (byteLength before)) ∧
      scan keep (before ++ (blanks ++ after)) =
        .ok (ls₁ ++ ms.map (shifted (byteLength before + byteLength blanks))) := by
  obtain ⟨hk, rfl⟩ := List.getElem?_eq_some_iff.1 hl
  have hls : ls = ls.take k ++ ls[k] :: ls.drop (k + 1) := by
    rw [← List.drop_eq_getElem_cons hk, List.take_append_drop]
  rw [hls] at h
  obtain ⟨before', after', htext, -, hstop', hcut⟩ := scanFrom_cut h
  rw [Nat.zero_add] at hstop' hcut
  obtain ⟨rfl, rfl⟩ := Text.append_inj_of_byteLength htext (hstop.symm.trans hstop')
  have hbefore : scan keep before = .ok (ls.take k ++ [ls[k]]) := by
    have hnil : scanFrom keep (byteLength before) [] = .ok [] := by rw [scanFrom]
    have hend := hcut [] fun c hc => absurd hc (Option.not_mem_none c)
    rw [List.append_nil, hnil] at hend
    exact hend
  have hafter : scanFrom keep (byteLength before) after = .ok (ls.drop (k + 1)) := by
    have hwhole := (hcut after fun c hc => .inl hc).symm.trans h
    cases hrest : scanFrom keep (byteLength before) after with
    | error e =>
      rw [hrest] at hwhole
      cases hwhole
    | ok later =>
      rw [hrest] at hwhole
      have hlater := List.append_cancel_left (Except.ok.inj hwhole)
      exact congrArg Except.ok (List.cons.inj hlater).2
  obtain ⟨ms, hms, hdrop⟩ := scan_of_scanFrom hafter
  refine ⟨_, ms, hbefore, hms, ?_, ?_, ?_⟩
  · rw [List.length_append, List.length_take, Nat.min_eq_left (Nat.le_of_lt hk)]
    rfl
  · rw [← hdrop, List.append_assoc]
    exact hls
  · have hskipped : ∀ c ∈ blanks, isBlank keep c := by
      intro c hc
      obtain rfl | rfl := hblanks c hc <;> simp [isBlank]
    have hnext : ∀ c ∈ (blanks ++ after).head?, c ∈ after.head? ∨ c = ' ' ∨ c = '\t' := by
      intro c hc
      cases blanks with
      | nil => exact .inl hc
      | cons b bs => exact .inr (hblanks c (List.mem_of_mem_head? hc))
    have hlater : scanFrom keep (byteLength before + byteLength blanks) after =
        .ok (ms.map (shifted (byteLength before + byteLength blanks))) := by
      rw [← Nat.zero_add (byteLength before + byteLength blanks), scanFrom_add, Nat.zero_add,
        show scanFrom keep 0 after = .ok ms from hms]
      rfl
    rw [scan, hcut _ hnext, scanFrom_blanks hskipped, hlater, List.append_assoc]
    rfl

end Lexeme

/-! ## Entries apart -/

namespace Token

/-- Where no operator starts at the last entry before a cut, the entries on either side are paired apart. -/
theorem paired_append_of_startsAt {ts us : List Token} (hts : ∀ t ∈ ts, t.width = 1)
    (h : ∀ k t, k + 1 = ts.length → StartsAt (paired (ts ++ us)) k t → t.width ≠ 2) :
    paired (ts ++ us) = paired ts ++ paired us := by
  fun_induction paired ts with
  | case1 => rfl
  | case2 t =>
    cases us with
    | nil => rfl
    | cons u us =>
      refine paired_of_not_joins ?_
      intro v hv hjoins
      obtain rfl : u = v := Option.some.inj hv
      refine h 0 ⟨t.text ++ u.text, t.position, 2⟩ rfl ⟨[], paired us, ?_, rfl⟩ rfl
      rw [List.singleton_append, paired, if_pos hjoins]
      rfl
  | case3 t u ts hjoins ih =>
    rw [List.cons_append, List.cons_append, paired, if_pos hjoins, ih, List.cons_append]
    · intro v hv
      exact hts v (.tail _ (.tail _ hv))
    · intro k v hk hv
      refine h (k + 2) v (by rw [List.length_cons, List.length_cons]; omega) ?_
      rw [List.cons_append, List.cons_append, paired, if_pos hjoins]
      exact startsAt_cons_iff.2 (.inr ⟨k, Nat.add_comm k 2, hv⟩)
  | case4 t u ts hjoins ih =>
    have hwidth : t.width.toNat = 1 := by
      rw [hts t (.head _)]
      rfl
    rw [List.cons_append, List.cons_append, paired, if_neg hjoins, ← List.cons_append, ih, List.cons_append]
    · intro v hv
      exact hts v (.tail _ hv)
    · intro k v hk hv
      refine h (k + 1) v (by rw [List.length_cons]; omega) ?_
      rw [List.cons_append, List.cons_append, paired, if_neg hjoins, ← List.cons_append]
      exact startsAt_cons_iff.2 (.inr ⟨k, by rw [hwidth, Nat.add_comm], hv⟩)

end Token

/-! ## Tokens with blanks put in -/

namespace Lexeme

open Text (byteLength coordinates)
open Position (behind right)

/-- The entries of a text after some characters. -/
theorem exists_token_behind {keep : Bool} {text : List Char} {ms : List Lexeme} {m : Lexeme}
    (h : scan keep text = .ok ms) (hm : m ∈ ms) :
    ∃ mid rest, text = mid ++ rest ∧ rest ≠ [] ∧
      ∀ file front, token file (front ++ text) (m.shifted (byteLength front)) =
        ⟨m.text, behind file (front ++ mid), 1⟩ := by
  obtain ⟨mid, rest, rfl, hrest, hoffset⟩ := exists_before h hm
  refine ⟨mid, rest, rfl, hrest, ?_⟩
  intro file front
  have hplace : (m.shifted (byteLength front)).offset = byteLength (front ++ mid) := by
    rw [shifted, hoffset, Text.byteLength_append, Nat.add_comm]
  unfold token behind
  rw [hplace, ← List.append_assoc, Text.place_append]
  rfl

section insert

variable {keep : Bool} {file : String} {before after blanks : List Char}

/-- The entries before the blanks stay where they are. -/
theorem moved_token_of_before {ls : List Lexeme} {l : Lexeme} (h : scan keep before = .ok ls) (hl : l ∈ ls)
    (hlength : before.length < UInt32.size - 1) (n : Nat) :
    (token file before l).moved (right (coordinates before) n) = token file before l := by
  obtain ⟨mid, rest, rfl, hrest, htoken⟩ := exists_token_behind h hl
  have hentry : token file (mid ++ rest) l = ⟨l.text, behind file mid, 1⟩ := htoken file []
  rw [hentry, Token.moved, Position.right_behind_of_before hrest hlength]

/-- The entries behind the blanks go as many columns to the right as there are blanks, up to the end of the line. -/
theorem moved_token_of_after {ms : List Lexeme} {m : Lexeme} (h : scan keep after = .ok ms) (hm : m ∈ ms)
    (hblanks : '\n' ∉ blanks) (hlength : (before ++ after).length < UInt32.size - 1) :
    (token file (before ++ after) (m.shifted (byteLength before))).moved (right (coordinates before) blanks.length) =
      token file (before ++ (blanks ++ after)) (m.shifted (byteLength before + byteLength blanks)) := by
  obtain ⟨mid, rest, rfl, -, htoken⟩ := exists_token_behind h hm
  have hshort : (before ++ mid).length < UInt32.size - 1 := by
    simp only [List.length_append] at hlength ⊢
    omega
  have hentry := htoken file (before ++ blanks)
  rw [Text.byteLength_append, List.append_assoc, List.append_assoc] at hentry
  rw [htoken, hentry, Token.moved, Position.right_behind_of_after hblanks hshort]

/-- The tokens before the blanks stay where they are. -/
theorem moved_paired_of_before {ls : List Lexeme} (h : scan keep before = .ok ls)
    (hlength : before.length < UInt32.size - 1) (n : Nat) :
    (Token.paired (ls.map (token file before))).map (Token.moved (right (coordinates before) n)) =
      Token.paired (ls.map (token file before)) := by
  have hfixed : ∀ t ∈ Token.paired (ls.map (token file before)), t.moved (right (coordinates before) n) = id t := by
    intro t ht
    obtain ⟨u, hu, hposition⟩ := Token.position_mem_of_paired ht
    obtain ⟨l, hl, rfl⟩ := List.mem_map.1 hu
    have hentry : (token file before l).position.right (coordinates before) n = (token file before l).position :=
      congrArg Token.position (moved_token_of_before h hl hlength n)
    rw [Token.moved, ← hposition, hentry, hposition]
    rfl
  rw [List.map_congr_left hfixed, List.map_id]

/-- The tokens behind the blanks are made of the same entries, further right. -/
theorem paired_of_after {ms : List Lexeme} (h : scan keep after = .ok ms) (hblanks : '\n' ∉ blanks)
    (hlength : (before ++ after).length < UInt32.size - 1) :
    Token.paired ((ms.map (shifted (byteLength before + byteLength blanks))).map
        (token file (before ++ (blanks ++ after)))) =
      (Token.paired ((ms.map (shifted (byteLength before))).map (token file (before ++ after)))).map
        (Token.moved (right (coordinates before) blanks.length)) := by
  have hbehind : ∀ t ∈ (ms.map (shifted (byteLength before))).map (token file (before ++ after)),
      t.position.line.toNat = (coordinates before).1 → (coordinates before).2 ≤ t.position.column.toNat := by
    intro t ht
    rw [List.map_map] at ht
    obtain ⟨m, hm, rfl⟩ := List.mem_map.1 ht
    obtain ⟨mid, rest, rfl, -, htoken⟩ := exists_token_behind h hm
    rw [Function.comp_apply, htoken]
    apply Position.le_column_behind
    simp only [List.length_append] at hlength ⊢
    omega
  rw [← Token.paired_map_moved fun t ht u hu => Position.touches_right (hbehind t ht) (hbehind u hu) _]
  simp only [List.map_map]
  exact congrArg Token.paired (List.map_congr_left fun m hm => (moved_token_of_after h hm hblanks hlength).symm)

end insert

section cut

variable {keep : Bool} {file : String} {text : List Char} {k : Nat}

theorem paired_token_append {ls₁ ls₂ : List Lexeme} (hlast : ls₁.length = k + 1)
    (h : ∀ t, Token.StartsAt (Token.paired ((ls₁ ++ ls₂).map (token file text))) k t → t.width ≠ 2) :
    Token.paired ((ls₁ ++ ls₂).map (token file text)) =
      Token.paired (ls₁.map (token file text)) ++ Token.paired (ls₂.map (token file text)) := by
  rw [List.map_append] at h ⊢
  apply Token.paired_append_of_startsAt width_of_mem_map_token
  intro j t hj ht
  rw [List.length_map, hlast] at hj
  obtain rfl : j = k := Nat.add_right_cancel hj
  exact h t ht

/-- No operator starts at a lexeme that does not touch the next. -/
theorem width_ne_two_of_apart {ls : List Lexeme} (h : scan keep text = .ok ls) (hlength : text.length < UInt32.size)
    (hapart : ∀ l m, ls[k]? = some l → ls[k + 1]? = some m → l.stop ≠ m.offset) {t : Token}
    (ht : Token.StartsAt (Token.paired (ls.map (token file text))) k t) : t.width ≠ 2 := by
  obtain ⟨hmakes, -⟩ := makes_of_startsAt h hlength ht
  cases hmakes with
  | single _ _ hwidth _ =>
    rw [hwidth]
    decide
  | operator hl hm hpairs => exact absurd hpairs.touch (hapart _ _ hl hm)

end cut

/-- With blanks put in behind a lexeme that is not the first mark of an operator, the tokens are the same ones, some of
them further right. -/
theorem paired_scan_insert {keep : Bool} {before after blanks : List Char} {ls : List Lexeme} {k : Nat} {l : Lexeme}
    {file : String} (h : scan keep (before ++ after) = .ok ls) (hl : ls[k]? = some l)
    (hstop : l.stop = byteLength before)
    (hwhole : ∀ t, Token.StartsAt (Token.paired (ls.map (token file (before ++ after)))) k t → t.width ≠ 2)
    (hblanks : ∀ c ∈ blanks, c = ' ' ∨ c = '\t') (hne : blanks ≠ [])
    (hlength : (before ++ (blanks ++ after)).length < UInt32.size - 1) :
    ∃ ls', scan keep (before ++ (blanks ++ after)) = .ok ls' ∧
      Token.paired (ls'.map (token file (before ++ (blanks ++ after)))) =
        (Token.paired (ls.map (token file (before ++ after)))).map
          (Token.moved (right (coordinates before) blanks.length)) := by
  have hfeed : '\n' ∉ blanks := by
    intro hmem
    obtain hc | hc := hblanks _ hmem <;> cases hc
  have hshort : before.length < UInt32.size - 1 ∧ (before ++ after).length < UInt32.size - 1 := by
    simp only [List.length_append] at hlength ⊢
    omega
  obtain ⟨ls₁, ms, hbefore, hafter, hlast, rfl, hinserted⟩ := exists_scan_insert h hl hstop hblanks
  have hapart : ∀ l' m, (ls₁ ++ ms.map (shifted (byteLength before + byteLength blanks)))[k]? = some l' →
      (ls₁ ++ ms.map (shifted (byteLength before + byteLength blanks)))[k + 1]? = some m → l'.stop ≠ m.offset := by
    intro l' m hl' hm
    have hlt : k < ls₁.length := by omega
    rw [List.getElem?_append_left hlt] at hl hl'
    rw [List.getElem?_append_right (by omega)] at hm
    obtain rfl : l = l' := Option.some.inj (hl.symm.trans hl')
    obtain ⟨m', -, rfl⟩ := List.mem_map.1 (List.mem_of_getElem? hm)
    -- the blanks are between the two
    have hpos := byteLength_pos hne
    rw [hstop, shifted]
    dsimp only
    omega
  have hfirst (rest : List Char) : ls₁.map (token file (before ++ rest)) = ls₁.map (token file before) :=
    List.map_congr_left fun l hl => token_append hbefore hl file rest
  refine ⟨_, hinserted, ?_⟩
  rw [paired_token_append hlast hwhole,
    paired_token_append hlast fun t ht => width_ne_two_of_apart hinserted (by omega) hapart ht, hfirst, hfirst,
    List.map_append, moved_paired_of_before hbefore hshort.1, paired_of_after hafter hfeed hshort.2]

end Lexeme

end GotoScript
