import GotoScript.Proofs.Parsing.Calls

/-!
# How long parsing takes

A step of the parser is a call of one of its procedures or a round of one of its loops; what it does besides
calling others is bounded. So a reading takes as many steps as there are calls below it:

* `Call.Below`, `Call.below_of_mem_callees` : a call starts where its caller is or further on, and a loop
  that goes on has taken a token;
* `Call.steps` : the number of calls, the call itself included;
* `Parsed.Costs` : the steps are paid for by the tokens that are taken, up to what the call has to spend
  without taking any. Each call stays within its allowance if the calls that it makes do;
* `TokenStream.parsing_progresses` : what this says of reading from a token table.
-/

namespace GotoScript

namespace Parser.Call

/-! ## What a call starts with -/

/-- Calls on the same tokens go down in rank. -/
@[simp]
def rank : Call → Nat
  | tier tiers _ => tiers.length + 4
  | operators _ tighter _ => tighter.length + 4
  | unary _ => 3
  | suffixed _ => 2
  | primary _ => 1
  | entity _ => 0
  | suffixes _ _ => 1
  | arguments _ => 11
  | moreArguments _ => 1
  | statement _ => 11
  | newlines _ => 0
  | statements _ => 12
  | program _ => 13

def size (c : Call) : Nat :=
  20 * c.tokens.length + c.rank

/-- The call `d` starts no earlier than `c` and has less to do; as a round of the same loop, it starts
later. -/
structure Below (d c : Call) : Prop where
  suffix : d.tokens <:+ c.tokens
  length_lt : c.loop? ≠ none → d.loop? = c.loop? → d.tokens.length < c.tokens.length
  size_lt : d.size < c.size

theorem below_of_rank {c d : Call} (h : d.tokens <:+ c.tokens) (hloop : c.loop? ≠ none → d.loop? ≠ c.loop?)
    (hrank : d.rank < c.rank) : Below d c := by
  refine ⟨h, fun hc hd => absurd hd (hloop hc), ?_⟩
  have hle := h.length_le
  unfold size
  omega

theorem below_of_length {c d : Call} (h : d.tokens <:+ c.tokens)
    (hlt : d.tokens.length < c.tokens.length) (hrank : d.rank < c.rank + 20) : Below d c := by
  refine ⟨h, fun _ _ => hlt, ?_⟩
  unfold size
  omega

/-- Behind a token that was taken. -/
theorem below_of_cons {c d : Call} {t : Token} {ts : List Token} (hc : c.tokens = t :: ts)
    (h : d.tokens <:+ ts) (hrank : d.rank < c.rank + 20) : Below d c := by
  refine below_of_length (hc ▸ h.trans (List.suffix_cons t ts)) ?_ hrank
  rw [hc]
  exact Nat.lt_succ_of_le h.length_le

end Parser.Call

namespace Parsed

variable {α β : Type} {ts : List Token} {p : Parsed α ts}
  {next : α → List Token → Parser.Asking (Reading β)} {answer : (c : Parser.Call) → Reading c.Value}

theorem Gives.asked_andAsk {a : α} {left : List Token} (h : p.Gives a left) :
    (p.reading.andAsk next).asked answer = (next a left).asked answer := by
  obtain ⟨result, rest, hle⟩ := p
  obtain ⟨rfl, rfl⟩ := h
  rfl

theorem Fails.asked_andAsk {e : CompileError} (h : p.Fails e) :
    (p.reading.andAsk next).asked answer = [] := by
  obtain ⟨result, rest, hle⟩ := p
  obtain rfl : result = .error e := h
  rfl

/-- What is asked after a reading is asked where the reading ends. -/
theorem Advances.forall_mem_asked (h : p.Advances) {property : Parser.Call → Prop}
    (hnext : ∀ a left, p.Gives a left → left <:+ ts → ∀ d ∈ (next a left).asked answer, property d) :
    ∀ d ∈ (p.reading.andAsk next).asked answer, property d := by
  obtain ⟨a, hp⟩ | ⟨e, hp⟩ := p.gives_or_fails
  · rw [hp.asked_andAsk]
    exact hnext a p.rest hp h.keeps
  · rw [hp.asked_andAsk]
    exact List.forall_mem_nil _

end Parsed

namespace Parser.Call

open Parsed Grammar Asking

variable {file : String}

theorem below_of_mem_tier (tiers : List (List String)) (ts : List Token) :
    ∀ d ∈ (tier tiers ts).callees file, Below d (tier tiers ts) := by
  cases tiers with
  | nil =>
    rw [callees, body, asked_ask_done, List.forall_mem_singleton]
    exact below_of_rank (List.suffix_refl ts) (absurd rfl) (by simp)
  | cons ops tighter =>
    rw [callees, body, asked, List.forall_mem_cons]
    refine ⟨below_of_rank (List.suffix_refl ts) (absurd rfl) (by simp), ?_⟩
    refine (chain_advances tighter ts).forall_mem_asked fun _ left _ hleft => ?_
    rw [asked_ask_done, List.forall_mem_singleton]
    exact below_of_rank hleft (absurd rfl) (by simp)

theorem below_of_mem_operators (ops : List String) (tighter : List (List String)) (ts : List Token) :
    ∀ d ∈ (operators ops tighter ts).callees file, Below d (operators ops tighter ts) := by
  cases ts with
  | nil => exact List.forall_mem_nil _
  | cons t ts =>
    rw [callees, body]
    split
    · rw [asked, List.forall_mem_cons]
      refine ⟨below_of_cons rfl (List.suffix_refl ts) (by simp), ?_⟩
      refine (chain_advances tighter ts).forall_mem_asked fun _ left _ hleft => ?_
      rw [asked_ask_done, List.forall_mem_singleton]
      exact below_of_cons rfl hleft (by simp)
    · exact List.forall_mem_nil _

theorem below_of_mem_unary (ts : List Token) :
    ∀ d ∈ (unary ts).callees file, Below d (unary ts) := by
  cases ts with
  | nil =>
    rw [callees, body, asked_ask_done, List.forall_mem_singleton]
    exact below_of_rank (List.suffix_refl []) (absurd rfl) (by decide)
  | cons t ts =>
    have hsign : ∀ d ∈ [unary ts], Below d (unary (t :: ts)) := by
      rw [List.forall_mem_singleton]
      exact below_of_cons rfl (List.suffix_refl ts) (by simp)
    rw [callees, body]
    split
    · exact hsign
    split
    · exact hsign
    · rw [asked_ask_done, List.forall_mem_singleton]
      exact below_of_rank (List.suffix_refl _) (absurd rfl) (by simp)

theorem below_of_mem_suffixed (ts : List Token) :
    ∀ d ∈ (suffixed ts).callees file, Below d (suffixed ts) := by
  rw [callees, body, asked, List.forall_mem_cons]
  refine ⟨below_of_rank (List.suffix_refl ts) (absurd rfl) (by simp), ?_⟩
  refine (primary_advances ts).forall_mem_asked fun _ left _ hleft => ?_
  rw [asked_ask_done, List.forall_mem_singleton]
  exact below_of_rank hleft (absurd rfl) (by simp)

theorem below_of_mem_primary (ts : List Token) :
    ∀ d ∈ (primary ts).callees file, Below d (primary ts) := by
  cases ts with
  | nil =>
    rw [callees, body, asked_ask_done, List.forall_mem_singleton]
    exact below_of_rank (List.suffix_refl []) (absurd rfl) (by decide)
  | cons t ts =>
    rw [callees, body]
    split
    · rw [asked, List.forall_mem_cons]
      refine ⟨below_of_cons rfl (List.suffix_refl ts) (by simp [tiers_length]), ?_⟩
      exact (chain_advances tiers ts).forall_mem_asked fun _ _ _ _ => List.forall_mem_nil _
    · rw [asked_ask_done, List.forall_mem_singleton]
      exact below_of_rank (List.suffix_refl _) (absurd rfl) (by simp)

theorem below_of_mem_suffixes (root : Expr) (ts : List Token) :
    ∀ d ∈ (suffixes root ts).callees file, Below d (suffixes root ts) := by
  cases ts with
  | nil => exact List.forall_mem_nil _
  | cons t ts =>
    have hround (e : Expr) {left : List Token} (hleft : left <:+ ts) :
        ∀ d ∈ [suffixes e left], Below d (suffixes root (t :: ts)) := by
      rw [List.forall_mem_singleton]
      exact below_of_cons rfl hleft (by simp)
    rw [callees, body]
    split
    · exact (word_advances ts).forall_mem_asked fun _ left _ hleft => hround _ hleft
    split
    · rw [asked, List.forall_mem_cons]
      refine ⟨below_of_cons rfl (List.suffix_refl ts) (by simp [tiers_length]), ?_⟩
      refine (chain_advances tiers ts).forall_mem_asked fun _ left _ hleft => ?_
      exact (expect_advances "]" left).forall_mem_asked fun _ left' _ hleft' =>
        hround _ (hleft'.trans hleft)
    split
    · rw [asked, List.forall_mem_cons]
      refine ⟨below_of_cons rfl (List.suffix_refl ts) (by simp), ?_⟩
      exact (arguments_advances ts).forall_mem_asked fun _ left _ hleft => hround _ hleft
    · exact List.forall_mem_nil _

theorem below_of_mem_arguments (ts : List Token) :
    ∀ d ∈ (arguments ts).callees file, Below d (arguments ts) := by
  rw [callees, body]
  split
  · exact List.forall_mem_nil _
  · rw [asked, List.forall_mem_cons]
    refine ⟨below_of_rank (List.suffix_refl ts) (fun _ => by simp [loop?]) (by simp [tiers_length]), ?_⟩
    refine (chain_advances tiers ts).forall_mem_asked fun e left h hleft => ?_
    rw [asked_ask_done, List.forall_mem_singleton]
    exact below_of_length hleft ((chain_advances tiers ts).length_lt e left h) (by simp)

theorem below_of_mem_moreArguments (ts : List Token) :
    ∀ d ∈ (moreArguments ts).callees file, Below d (moreArguments ts) := by
  cases ts with
  | nil => exact List.forall_mem_nil _
  | cons t ts =>
    rw [callees, body]
    split
    · exact List.forall_mem_nil _
    split
    · rw [asked, List.forall_mem_cons]
      refine ⟨below_of_cons rfl (List.suffix_refl ts) (by simp [tiers_length]), ?_⟩
      refine (chain_advances tiers ts).forall_mem_asked fun _ left _ hleft => ?_
      rw [asked_ask_done, List.forall_mem_singleton]
      exact below_of_cons rfl hleft (by simp)
    · exact List.forall_mem_nil _

theorem below_of_mem_statement (ts : List Token) :
    ∀ d ∈ (statement ts).callees file, Below d (statement ts) := by
  cases ts with
  | nil => exact List.forall_mem_nil _
  | cons start ts =>
    have hword : Below (tier tiers ts) (statement (start :: ts)) :=
      below_of_cons rfl (List.suffix_refl ts) (by simp [tiers_length])
    rw [callees, body, asked_map]
    unfold actionBody
    split
    · exact List.forall_mem_nil _
    split
    · rw [asked, List.forall_mem_cons]
      exact ⟨hword, (chain_advances tiers ts).forall_mem_asked fun _ _ _ _ => List.forall_mem_nil _⟩
    split
    · exact List.forall_mem_nil _
    split
    · rw [asked_ask_done, List.forall_mem_singleton]
      exact hword
    · rw [asked, List.forall_mem_cons]
      refine ⟨below_of_rank (List.suffix_refl _) (absurd rfl) (by simp [tiers_length]), ?_⟩
      refine (chain_advances tiers (start :: ts)).forall_mem_asked fun target left _ hleft => ?_
      cases left with
      | nil => exact List.forall_mem_nil _
      | cons sign left =>
        dsimp only
        split
        · cases target with
          | var name =>
            rw [asked_ask_done, List.forall_mem_singleton]
            refine below_of_length ((List.suffix_cons sign left).trans hleft) ?_ (by simp [tiers_length])
            exact Nat.lt_of_lt_of_le (Nat.lt_succ_self _) hleft.length_le
          | _ => exact List.forall_mem_nil _
        · exact List.forall_mem_nil _

theorem below_of_mem_newlines (ts : List Token) :
    ∀ d ∈ (newlines ts).callees file, Below d (newlines ts) := by
  cases ts with
  | nil => exact List.forall_mem_nil _
  | cons t ts =>
    rw [callees, body]
    split
    · rw [asked_ask_done, List.forall_mem_singleton]
      exact below_of_cons rfl (List.suffix_refl ts) (by simp)
    · exact List.forall_mem_nil _

theorem below_of_mem_statements (ts : List Token) :
    ∀ d ∈ (statements ts).callees file, Below d (statements ts) := by
  cases ts with
  | nil => exact List.forall_mem_nil _
  | cons start ts =>
    rw [callees, body, asked, List.forall_mem_cons]
    refine ⟨below_of_rank (List.suffix_refl _) (fun _ => by simp [loop?]) (by simp), ?_⟩
    refine (statement_advances (start :: ts)).forall_mem_asked fun _ left _ hleft => ?_
    cases left with
    | nil => exact List.forall_mem_nil _
    | cons t left =>
      have hlt : left.length < (start :: ts).length :=
        Nat.lt_of_lt_of_le (Nat.lt_succ_self _) hleft.length_le
      have hlater : left <:+ start :: ts := (List.suffix_cons t left).trans hleft
      dsimp only
      split
      · rw [asked, asked_ask_done, List.forall_mem_cons, List.forall_mem_singleton]
        refine ⟨below_of_length hlater hlt (by simp), ?_⟩
        exact below_of_length ((dropNewlines_suffix left).trans hlater)
          (Nat.lt_of_le_of_lt (dropNewlines_length_le left) hlt) (by simp)
      · exact List.forall_mem_nil _

theorem below_of_mem_program (ts : List Token) :
    ∀ d ∈ (program ts).callees file, Below d (program ts) := by
  rw [callees, body, asked, asked_ask_done, List.forall_mem_cons, List.forall_mem_singleton]
  exact ⟨below_of_rank (List.suffix_refl ts) (absurd rfl) (by simp),
    below_of_rank (dropNewlines_suffix ts) (absurd rfl) (by simp)⟩

theorem below_of_mem_callees {c d : Call} (h : d ∈ c.callees file) : Below d c := by
  cases c with
  | tier tiers ts => exact below_of_mem_tier tiers ts d h
  | operators ops tighter ts => exact below_of_mem_operators ops tighter ts d h
  | unary ts => exact below_of_mem_unary ts d h
  | suffixed ts => exact below_of_mem_suffixed ts d h
  | primary ts => exact below_of_mem_primary ts d h
  | entity ts => cases h
  | suffixes root ts => exact below_of_mem_suffixes root ts d h
  | arguments ts => exact below_of_mem_arguments ts d h
  | moreArguments ts => exact below_of_mem_moreArguments ts d h
  | statement ts => exact below_of_mem_statement ts d h
  | newlines ts => exact below_of_mem_newlines ts d h
  | statements ts => exact below_of_mem_statements ts d h
  | program ts => exact below_of_mem_program ts d h

/-! ## Steps -/

variable (file) in
/-- The number of calls that the call takes, itself included. -/
def steps (c : Call) : Nat :=
  1 + ((c.callees file).attach.map fun d => steps d.1).sum
termination_by c.size
decreasing_by exact (below_of_mem_callees d.2).size_lt

variable (file) in
/-- The steps of some calls together. -/
def total (calls : List Call) : Nat :=
  (calls.map (steps file)).sum

theorem total_nil : total file [] = 0 := rfl

theorem total_append (calls more : List Call) :
    total file (calls ++ more) = total file calls + total file more := by
  rw [total, List.map_append, List.sum_append]
  rfl

theorem steps_eq (c : Call) : c.steps file = 1 + total file (c.callees file) := by
  rw [steps, total, List.attach_map_val]

theorem total_singleton (c : Call) : total file [c] = 1 + total file (c.callees file) := by
  rw [total, List.map_singleton, List.sum_singleton, steps_eq]

/-- The steps that a token pays for. -/
def perToken : Nat :=
  2 * tiers.length + 9

end Parser.Call

namespace Parsed

open Parser.Call Grammar

variable {α β γ : Type} {ts : List Token} {p : Parsed α ts} {calls : List Parser.Call} {a b : Nat}
variable {file : String}

/-- The calls of a reading are paid for by the tokens that it takes and `a` more. -/
def Costs (file : String) (p : Parsed α ts) (calls : List Parser.Call) (a : Nat) : Prop :=
  total file calls + perToken * p.rest.length ≤ perToken * ts.length + a

theorem Costs.mono (h : p.Costs file calls a) (hle : a ≤ b) : p.Costs file calls b :=
  Nat.le_trans h (Nat.add_le_add_left hle _)

theorem costs_nil (p : Parsed α ts) (a : Nat) : p.Costs file [] a := by
  have hle := Nat.mul_le_mul_left perToken p.rest_le
  rw [Costs, total_nil]
  omega

theorem Costs.map (h : p.Costs file calls a) (f : α → β) : (p.map f).Costs file calls a := h

/-- A token that was taken pays its share. -/
theorem Costs.after (h : p.Costs file calls (a + perToken)) {t : Token} :
    (p.after (t := t)).Costs file calls a := by
  unfold Costs at h ⊢
  rw [List.length_cons, Nat.mul_add, Nat.mul_one]
  change total file calls + perToken * p.rest.length ≤ _
  omega

/-- What is asked after a reading is paid for by what is read after it. -/
theorem Costs.andThen (h : p.Costs file calls a)
    {next : α → (rest : List Token) → rest.length ≤ ts.length → Parsed β rest}
    {asking : α → List Token → Parser.Asking (Reading γ)}
    (hnext : ∀ x left hle, (next x left hle).Costs file ((asking x left).asked (outcome file)) b) :
    (p.andThen next).Costs file (calls ++ (p.reading.andAsk asking).asked (outcome file)) (a + b) := by
  unfold Costs at h hnext ⊢
  obtain ⟨x, hp⟩ | ⟨e, hp⟩ := p.gives_or_fails
  · have hmore := hnext x p.rest p.rest_le
    rw [hp.rest_andThen, hp.asked_andAsk, total_append]
    omega
  · rw [hp.rest_andThen, hp.asked_andAsk, List.append_nil]
    omega

/-- A call is one step more than those that it calls. -/
theorem costs_call {c : Parser.Call} (h : p.Costs file (c.callees file) a) : p.Costs file [c] (a + 1) := by
  unfold Costs at h ⊢
  rw [total_singleton]
  omega

end Parsed

namespace Parser

open Parsed Grammar

variable {file : String}

theorem entity_costs (ts : List Token) : (entity file ts).Costs file [.entity ts] 1 :=
  costs_call (costs_nil (entity file ts) 0)

-- The recursion of the parser once more. What a call has to spend without taking a token is fixed for each
-- procedure, and a loop that goes on pays for its round with the token that it took.
mutual

theorem chain_costs (tiers : List (List String)) (htiers : tiers.length ≤ Parser.tiers.length)
    (ts : List Token) :
    (chain file tiers ts).Costs file [.tier tiers ts] (2 * tiers.length + 6) := by
  match tiers with
  | [] =>
    refine costs_call ?_
    rw [chain]
    exact unary_costs ts
  | operators :: tighter =>
    rw [List.length_cons] at htiers
    refine costs_call ?_
    rw [chain, Call.callees, Call.body]
    refine Costs.mono ?_ (show 2 * tighter.length + 6 + 1 ≤ 2 * (tighter.length + 1) + 5 by omega)
    exact (chain_costs tighter (by omega) ts).andThen fun first rest hle =>
      (chainRest_costs operators tighter (by omega) rest).map _
termination_by 20 * ts.length + tiers.length + 3
decreasing_by
  all_goals
    simp only [List.length_cons, List.length_nil]
    omega

theorem chainRest_costs (operators : List String) (tighter : List (List String))
    (htighter : tighter.length ≤ Parser.tiers.length) (ts : List Token) :
    (chainRest file operators tighter ts).Costs file [.operators operators tighter ts] 1 := by
  refine costs_call ?_
  match ts with
  | [] => exact costs_nil _ 0
  | t :: ts =>
    rw [chainRest, Call.callees, Call.body]
    split
    · refine Costs.after (Costs.mono ?_ (show 2 * tighter.length + 6 + 1 ≤ 0 + Call.perToken from ?_))
      · exact (chain_costs tighter htighter ts).andThen fun e rest hle =>
          (chainRest_costs operators tighter htighter rest).map _
      · rw [Call.perToken]
        omega
    · exact costs_nil _ 0
termination_by 20 * ts.length + tighter.length + 3
decreasing_by
  all_goals
    simp only [List.length_cons]
    omega

theorem unary_costs (ts : List Token) : (unary file ts).Costs file [.unary ts] 5 := by
  refine costs_call ?_
  match ts with
  | [] =>
    rw [unary]
    exact suffixed_costs []
  | t :: ts =>
    have hsign (f : Expr → Expr) : (((unary file ts).map f).after (t := t)).Costs file [.unary ts] 4 := by
      refine Costs.after (Costs.mono ((unary_costs ts).map f) ?_)
      rw [Call.perToken]
      omega
    rw [unary, Call.callees, Call.body]
    split
    · exact hsign Expr.not
    split
    · exact hsign Expr.negate
    · exact suffixed_costs (t :: ts)
termination_by 20 * ts.length + 2
decreasing_by all_goals simp

theorem suffixed_costs (ts : List Token) : (suffixed file ts).Costs file [.suffixed ts] 4 := by
  refine costs_call ?_
  rw [suffixed, Call.callees, Call.body]
  refine (primary_costs ts).andThen (b := 1) fun root rest hle => ?_
  exact suffixes_costs root rest
termination_by 20 * ts.length + 1
decreasing_by all_goals omega

theorem primary_costs (ts : List Token) : (primary file ts).Costs file [.primary ts] 2 := by
  refine costs_call ?_
  match ts with
  | [] =>
    rw [primary]
    exact entity_costs []
  | t :: ts =>
    rw [primary, Call.callees, Call.body]
    split
    · refine Costs.after (Costs.mono ?_ (show 2 * Parser.tiers.length + 6 ≤ 1 + Call.perToken from ?_))
      · refine (chain_costs tiers (Nat.le_refl _) ts).andThen (b := 0) fun e rest hle => ?_
        exact costs_nil _ 0
      · rw [Call.perToken]
        omega
    · exact entity_costs (t :: ts)
termination_by 20 * ts.length
decreasing_by
  all_goals
    have htiers := tiers_length
    simp only [List.length_cons]
    omega

theorem suffixes_costs (root : Expr) (ts : List Token) :
    (suffixes file root ts).Costs file [.suffixes root ts] 1 := by
  refine costs_call ?_
  match ts with
  | [] => exact costs_nil _ 0
  | t :: ts =>
    have hper : Call.perToken = 2 * Parser.tiers.length + 9 := rfl
    rw [suffixes, Call.callees, Call.body]
    split
    · refine Costs.after (Costs.mono ?_ (show 0 + 1 ≤ 0 + Call.perToken by omega))
      exact (costs_nil (word file ts) 0).andThen fun name rest hle =>
        suffixes_costs (.field root name.text) rest
    split
    · refine Costs.after (Costs.mono ?_
        (show 2 * Parser.tiers.length + 6 + (0 + 1) ≤ 0 + Call.perToken by omega))
      refine (chain_costs tiers (Nat.le_refl _) ts).andThen fun key rest hle => ?_
      exact (costs_nil (expect file "]" rest) 0).andThen fun _ rest' hle' =>
        suffixes_costs (.index root key) rest'
    split
    · refine Costs.after (Costs.mono ?_
        (show 2 * Parser.tiers.length + 8 + 1 ≤ 0 + Call.perToken by omega))
      exact (arguments_costs ts).andThen fun args rest hle => suffixes_costs (.call root args) rest
    · exact costs_nil _ 0
termination_by 20 * ts.length
decreasing_by
  all_goals
    have htiers := tiers_length
    simp only [List.length_cons]
    omega

theorem arguments_costs (ts : List Token) :
    (arguments file ts).Costs file [.arguments ts] (2 * Parser.tiers.length + 8) := by
  refine costs_call ?_
  rw [arguments, Call.callees, Call.body]
  split
  · exact costs_nil _ _
  · refine (chain_costs tiers (Nat.le_refl _) ts).andThen (b := 1) fun e rest hle => ?_
    exact (moreArguments_costs rest).map _
termination_by 20 * ts.length + 10
decreasing_by
  all_goals
    have htiers := tiers_length
    omega

theorem moreArguments_costs (ts : List Token) :
    (moreArguments file ts).Costs file [.moreArguments ts] 1 := by
  refine costs_call ?_
  match ts with
  | [] => exact costs_nil _ 0
  | t :: ts =>
    rw [moreArguments, Call.callees, Call.body]
    split
    · exact costs_nil _ 0
    split
    · refine Costs.after (Costs.mono ?_
        (show 2 * Parser.tiers.length + 6 + 1 ≤ 0 + Call.perToken from ?_))
      · exact (chain_costs tiers (Nat.le_refl _) ts).andThen fun e rest hle =>
          (moreArguments_costs rest).map _
      · rw [Call.perToken]
        omega
    · exact costs_nil _ 0
termination_by 20 * ts.length
decreasing_by
  all_goals
    have htiers := tiers_length
    simp only [List.length_cons]
    omega

end

/-! ## Statements -/

theorem expression_costs (ts : List Token) :
    (expression file ts).Costs file [.tier tiers ts] (2 * tiers.length + 6) :=
  chain_costs tiers (Nat.le_refl _) ts

theorem action_costs (start : Token) (ts : List Token) :
    (action file start ts).Costs file ((Call.actionBody file start ts).asked (Call.outcome file))
      (2 * tiers.length + 6) := by
  have hword {p : Parsed Action ts} {calls : List Call} (hp : p.Costs file calls (2 * tiers.length + 6)) :
      (p.after (t := start)).Costs file calls (2 * tiers.length + 6) :=
    Costs.after (hp.mono (Nat.le_add_right _ _))
  unfold action Call.actionBody branch
  split
  · exact costs_nil _ _
  split
  · refine hword ((expression_costs ts).andThen (b := 0) fun condition left hle => ?_)
    exact costs_nil _ 0
  split
  · exact costs_nil _ _
  split
  · exact hword ((expression_costs ts).map _)
  refine Costs.andThen (b := 0) (expression_costs (start :: ts)) fun target left hle => ?_
  cases left with
  | nil => exact costs_nil _ 0
  | cons sign left =>
    dsimp only
    split
    · cases target with
      | var name =>
        refine Costs.after (Costs.mono ((expression_costs left).map _) ?_)
        rw [Call.perToken]
        omega
      | _ => exact costs_nil _ 0
    · exact costs_nil _ 0

theorem statement_costs (ts : List Token) :
    (statement file ts).Costs file [.statement ts] (2 * tiers.length + 7) := by
  refine costs_call ?_
  cases ts with
  | nil => exact costs_nil _ _
  | cons start ts =>
    rw [Call.callees, Call.body, Asking.asked_map]
    exact (action_costs start ts).map _

/-! ## Programs -/

theorem total_newlines_le (ts : List Token) :
    Call.total file [.newlines ts] + Call.perToken * (dropNewlines ts).length
      ≤ Call.perToken * ts.length + 1 := by
  induction ts with
  | nil =>
    rw [Call.total_singleton]
    rfl
  | cons t ts ih =>
    have hper : Call.perToken = 2 * tiers.length + 9 := rfl
    rw [Call.total_singleton, Call.callees, Call.body, dropNewlines, List.dropWhile_cons]
    split
    · change 1 + Call.total file [.newlines ts] + Call.perToken * (dropNewlines ts).length ≤ _
      rw [List.length_cons, Nat.mul_succ]
      omega
    · rw [Asking.asked, Call.total_nil]
      omega

/-- The statement, the line end after it, and the blank lines are paid for before the next round. -/
theorem statements_costs (ts : List Token) :
    (statements file ts).Costs file [.statements ts] (2 * tiers.length + 8) := by
  induction hlength : ts.length using Nat.strong_induction_on generalizing ts with
  | _ n ih =>
    refine costs_call ?_
    cases ts with
    | nil => exact costs_nil _ _
    | cons start ts =>
      rw [statements, Call.callees, Call.body]
      refine Costs.andThen (b := 0) (statement_costs (start :: ts)) fun s left hle => ?_
      cases left with
      | nil => exact costs_nil _ _
      | cons t left =>
        dsimp only
        split
        · have hshorter : (dropNewlines left).length < n := by
            have hdropped := dropNewlines_length_le left
            rw [List.length_cons] at hle
            omega
          have hround := ih _ hshorter (dropNewlines left) rfl
          have hblank := @total_newlines_le file left
          have hper : Call.perToken = 2 * tiers.length + 9 := rfl
          unfold Costs at hround ⊢
          rw [List.length_cons, Nat.mul_succ]
          change Call.total file ([.newlines left] ++ [.statements (dropNewlines left)])
            + Call.perToken * (statements file (dropNewlines left)).rest.length ≤ _
          rw [Call.total_append]
          omega
        · exact costs_nil _ _

theorem steps_program_le (ts : List Token) :
    (Call.program ts).steps file ≤ Call.perToken * ts.length + (2 * tiers.length + 10) := by
  have hblank := @total_newlines_le file ts
  have hround := @statements_costs file (dropNewlines ts)
  unfold Costs at hround
  rw [Call.steps_eq]
  change 1 + Call.total file ([.newlines ts] ++ [.statements (dropNewlines ts)]) ≤ _
  rw [Call.total_append]
  omega

variable (file) in
/-- The calls that read `n` expressions one after another, each from what the one before it left, also
after a failure. -/
def expressionCalls : Nat → List Token → List Call
  | 0, _ => []
  | n + 1, ts => .tier tiers ts :: expressionCalls n (expression file ts).rest

theorem total_expressionCalls_le (n : Nat) (ts : List Token) :
    Call.total file (expressionCalls file n ts)
      ≤ Call.perToken * ts.length + n * (2 * tiers.length + 6) := by
  induction n generalizing ts with
  | zero => exact Nat.zero_le _
  | succ n ih =>
    have hfirst := @expression_costs file ts
    have hlater := ih (expression file ts).rest
    unfold Costs at hfirst
    rw [Nat.succ_mul]
    change Call.total file ([.tier tiers ts] ++ expressionCalls file n (expression file ts).rest) ≤ _
    rw [Call.total_append]
    omega

end Parser

/-! ## Token tables -/

namespace TokenStream

open GotoScript.Parser

variable {α : Type} {s : TokenStream}

/-- The reading leaves the stream where it is or further on, and further on if it gives something. -/
def Passes (s : TokenStream) (p : Parsed α s.tokens) : Prop :=
  ∃ later, s.Ahead later ∧ p.rest = later.tokens ∧ ((∃ a, p.result = .ok a) → s.index < later.index)

theorem passes_of_advances {p : Parsed α s.tokens} (h : p.Advances) : s.Passes p := by
  obtain ⟨later, hahead, hrest, hlt⟩ := exists_ahead_of_suffix h.keeps
  refine ⟨later, hahead, hrest, fun ⟨a, ha⟩ => hlt ?_⟩
  exact h.length_lt a p.rest ⟨ha, rfl⟩

theorem ahead_of_mem_callees {file : String} {c d : Parser.Call} (hc : c.tokens = s.tokens)
    (hd : d ∈ c.callees file) :
    ∃ later, s.Ahead later ∧ d.tokens = later.tokens ∧
      (c.loop? ≠ none → d.loop? = c.loop? → s.index < later.index) := by
  have hbelow := Parser.Call.below_of_mem_callees hd
  obtain ⟨later, hahead, htokens, hlt⟩ := exists_ahead_of_suffix (hc ▸ hbelow.suffix)
  refine ⟨later, hahead, htokens, fun hloop hsame => hlt ?_⟩
  rw [← hc]
  exact hbelow.length_lt hloop hsame

theorem perToken_mul_length_le (s : TokenStream) :
    Parser.Call.perToken * s.tokens.length ≤ Parser.Call.perToken * (s.table.size - s.index) :=
  Nat.mul_le_mul_left _ (length_tokensFrom_le s.table s.index)

/-- Reading from a token table, whatever it holds, goes on and comes to an end: what is read passes at least
one entry and nothing goes back, each loop passes an entry in every round after which it goes on, and the
number of steps, which are the calls that the procedures make, is bounded by the entries that are left and the
number of tiers. -/
theorem parsing_progresses (file : String) (s : TokenStream) :
    (∀ tiers, s.Passes (chain file tiers s.tokens)) ∧ s.Passes (expression file s.tokens) ∧
    s.Passes (unary file s.tokens) ∧ s.Passes (suffixed file s.tokens) ∧ s.Passes (entity file s.tokens) ∧
    (∀ c : Parser.Call, (c.body file).run (Parser.Call.outcome file) = c.outcome file ∧
      (c.body file).asked (Parser.Call.outcome file) = c.callees file) ∧
    (∀ c d : Parser.Call, c.tokens = s.tokens → d ∈ c.callees file →
      ∃ later, s.Ahead later ∧ d.tokens = later.tokens ∧
        (c.loop? ≠ none → d.loop? = c.loop? → s.index < later.index)) ∧
    (Parser.Call.program s.tokens).steps file ≤
      (2 * tiers.length + 9) * (s.table.size - s.index) + (2 * tiers.length + 10) ∧
    ∀ n, Parser.Call.total file (expressionCalls file n s.tokens) ≤
      (2 * tiers.length + 9) * (s.table.size - s.index) + n * (2 * tiers.length + 6) := by
  have hentries := perToken_mul_length_le s
  refine ⟨fun tiers => passes_of_advances (chain_advances tiers _), passes_of_advances (expression_advances _),
    passes_of_advances (unary_advances _), passes_of_advances (suffixed_advances _),
    passes_of_advances (entity_advances _), fun c => ⟨Parser.Call.run_body file c, rfl⟩,
    fun c d => ahead_of_mem_callees, ?_, fun n => ?_⟩
  · exact Nat.le_trans (steps_program_le s.tokens) (Nat.add_le_add_right hentries _)
  · exact Nat.le_trans (total_expressionCalls_le n s.tokens) (Nat.add_le_add_right hentries _)

end TokenStream

end GotoScript
