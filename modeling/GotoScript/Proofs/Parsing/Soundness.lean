import GotoScript.Proofs.Parsing.Outcomes

/-!
# What the parser gives is derived

A successful reading splits the tokens into those it used and those it left, and the used ones derive
its result. The recursion is the parser's own: it descends through the tiers without using a token,
and goes on to shorter sequences otherwise.
-/

namespace GotoScript.Grammar

variable {file : String}

theorem tiers_length : Parser.tiers.length = 6 := rfl

mutual

theorem chain_derives (tiers : List (List String)) (tokens : List Token) {e : Expr}
    {rest : List Token} (h : (Parser.chain file tiers tokens).Gives e rest) :
    ∃ used, tokens = used ++ rest ∧ Chain tiers used e := by
  match tiers with
  | [] =>
      obtain ⟨used, rfl, hu⟩ := unary_derives tokens (Parser.chain_nil_gives_iff.1 h)
      exact ⟨used, rfl, .unary hu⟩
  | operators :: tighter =>
      obtain ⟨first, left, more, hf, hm, rfl⟩ := Parser.chain_cons_gives_iff.1 h
      have hleft := hf.length_le
      obtain ⟨ts, htok, ht⟩ := chain_derives tighter tokens hf
      obtain ⟨ls, rfl, hl⟩ := links_derives operators tighter left hm
      by_cases hne : more = []
      · subst hne
        cases hl
        rw [Parser.chainOf_nil]
        exact ⟨ts, htok, .single ht⟩
      · rw [Parser.chainOf_of_ne_nil first hne]
        exact ⟨ts ++ ls, by rw [htok, List.append_assoc], .joined ht hl hne⟩
termination_by 20 * tokens.length + tiers.length + 3
decreasing_by
  all_goals
    simp only [List.length_cons, List.length_nil]
    omega

theorem links_derives (operators : List String) (tighter : List (List String)) (tokens : List Token)
    {more : List (Token × Expr)} {rest : List Token}
    (h : (Parser.chainRest file operators tighter tokens).Gives more rest) :
    ∃ used, tokens = used ++ rest ∧ Links operators tighter used more := by
  rcases Parser.chainRest_gives_iff.1 h with
    ⟨rfl, rfl, -⟩ | ⟨op, ts, e, left, more', htok, hop, he, hm, rfl⟩
  · exact ⟨[], rfl, .nil⟩
  · have hlen : tokens.length = ts.length + 1 := by rw [htok, List.length_cons]
    have hleft := he.length_le
    obtain ⟨us, rfl, hu⟩ := chain_derives tighter ts he
    obtain ⟨ls, rfl, hl⟩ := links_derives operators tighter left hm
    exact ⟨op :: us ++ ls, by simp [htok], .cons hop hu hl⟩
termination_by 20 * tokens.length + tighter.length + 3
decreasing_by all_goals omega

theorem unary_derives (tokens : List Token) {e : Expr} {rest : List Token}
    (h : (Parser.unary file tokens).Gives e rest) :
    ∃ used, tokens = used ++ rest ∧ Unary used e := by
  rcases Parser.unary_gives_iff.1 h with
    ⟨t, ts, operand, htok, ht, ho, rfl⟩ | ⟨t, ts, operand, htok, ht, ho, rfl⟩ | ⟨hn, hs⟩
  · have hlen : tokens.length = ts.length + 1 := by rw [htok, List.length_cons]
    obtain ⟨used, rfl, hu⟩ := unary_derives ts ho
    exact ⟨t :: used, htok, .not ht hu⟩
  · have hlen : tokens.length = ts.length + 1 := by rw [htok, List.length_cons]
    obtain ⟨used, rfl, hu⟩ := unary_derives ts ho
    exact ⟨t :: used, htok, .negate ht hu⟩
  · have hnot : NoneAhead ["not"] tokens := fun t ht hmem => hn t ht (by simp_all)
    obtain ⟨used, htok, hu⟩ := suffixed_derives tokens hnot hs
    exact ⟨used, htok, .suffixed hu⟩
termination_by 20 * tokens.length + 2
decreasing_by all_goals omega

theorem suffixed_derives (tokens : List Token) {e : Expr} {rest : List Token}
    (hn : NoneAhead ["not"] tokens) (h : (Parser.suffixed file tokens).Gives e rest) :
    ∃ used, tokens = used ++ rest ∧ Suffixed used e := by
  obtain ⟨root, left, hp, hs⟩ := Parser.suffixed_gives_iff.1 h
  have hleft := hp.length_le
  obtain ⟨ss, rfl, hs'⟩ := suffixes_derives root left hs
  rcases Parser.primary_gives_iff.1 hp with ⟨l, ts, r, htok, hl, he, hr⟩ | ⟨-, he⟩
  · have hlen : tokens.length = ts.length + 1 := by rw [htok, List.length_cons]
    obtain ⟨us, rfl, hu⟩ := chain_derives Parser.tiers ts he
    exact ⟨l :: us ++ r :: ss, by simp [htok], .group hl hu hr hs'⟩
  · obtain ⟨ts, htok, hent, hw⟩ := Parser.entity_of_entity_gives hn he
    refine ⟨ts ++ ss, by rw [htok, List.append_assoc], .entity hent (fun hwhole => ?_) hs'⟩
    exact (hw hwhole).of_append
termination_by 20 * tokens.length + 1
decreasing_by
  all_goals
    have htiers := tiers_length
    omega

theorem suffixes_derives (root : Expr) (tokens : List Token) {e : Expr} {rest : List Token}
    (h : (Parser.suffixes file root tokens).Gives e rest) :
    ∃ used, tokens = used ++ rest ∧ Suffixes root used e := by
  rcases Parser.suffixes_gives_iff.1 h with
    ⟨rfl, rfl, -⟩ | ⟨point, name, ts, htok, hp, hw, hs⟩ |
    ⟨l, ts, key, r, left, htok, hl, hk, hr, hs⟩ | ⟨l, ts, args, left, htok, hl, ha, hs⟩
  · exact ⟨[], rfl, .nil⟩
  · have hlen : tokens.length = ts.length + 2 := by rw [htok, List.length_cons, List.length_cons]
    obtain ⟨ss, rfl, hs'⟩ := suffixes_derives (.field root name.text) ts hs
    exact ⟨point :: name :: ss, htok, .field hp hw hs'⟩
  · have hlen : tokens.length = ts.length + 1 := by rw [htok, List.length_cons]
    have hleft : left.length + 1 ≤ ts.length := hk.length_le
    obtain ⟨us, rfl, hu⟩ := chain_derives Parser.tiers ts hk
    obtain ⟨ss, rfl, hs'⟩ := suffixes_derives (.index root key) left hs
    exact ⟨l :: us ++ r :: ss, by simp [htok], .index hl hu hr hs'⟩
  · have hlen : tokens.length = ts.length + 1 := by rw [htok, List.length_cons]
    have hleft := ha.length_le
    obtain ⟨us, r, rfl, hu, hr⟩ := arguments_derives ts ha
    obtain ⟨ss, rfl, hs'⟩ := suffixes_derives (.call root args) left hs
    exact ⟨l :: us ++ r :: ss, by simp [htok], .call hl hu hr hs'⟩
termination_by 20 * tokens.length
decreasing_by
  all_goals
    have htiers := tiers_length
    omega

theorem arguments_derives (tokens : List Token) {args : List Expr} {rest : List Token}
    (h : (Parser.arguments file tokens).Gives args rest) :
    ∃ used r, tokens = used ++ r :: rest ∧ Arguments used args ∧ r.text = ")" := by
  rcases Parser.arguments_gives_iff.1 h with
    ⟨r, rfl, hr, rfl⟩ | ⟨-, e, left, es, he, hes, rfl⟩
  · exact ⟨[], r, rfl, .nil, hr⟩
  · have hleft := he.length_le
    obtain ⟨us, htok, hu⟩ := chain_derives Parser.tiers tokens he
    obtain ⟨ls, r, rfl, hl, hr⟩ := moreArguments_derives left hes
    exact ⟨us ++ ls, r, by simp [htok], .cons hu hl, hr⟩
termination_by 20 * tokens.length + 10
decreasing_by
  all_goals
    have htiers := tiers_length
    omega

theorem moreArguments_derives (tokens : List Token) {args : List Expr} {rest : List Token}
    (h : (Parser.moreArguments file tokens).Gives args rest) :
    ∃ used r, tokens = used ++ r :: rest ∧ MoreArguments used args ∧ r.text = ")" := by
  rcases Parser.moreArguments_gives_iff.1 h with
    ⟨r, rfl, hr, rfl⟩ | ⟨comma, ts, e, left, es, htok, hc, he, hes, rfl⟩
  · exact ⟨[], r, rfl, .nil, hr⟩
  · have hlen : tokens.length = ts.length + 1 := by rw [htok, List.length_cons]
    have hleft := he.length_le
    obtain ⟨us, rfl, hu⟩ := chain_derives Parser.tiers ts he
    obtain ⟨ls, r, rfl, hl, hr⟩ := moreArguments_derives left hes
    exact ⟨comma :: us ++ ls, r, by simp [htok], .cons hc hu hl, hr⟩
termination_by 20 * tokens.length
decreasing_by
  all_goals
    have htiers := tiers_length
    omega

end

end GotoScript.Grammar
