import GotoScript.Program.Dump
import GotoScript.Proofs.Dumps.QuotedTexts

/-!
# Dumps as trees

A dump is the text of a tree of atoms, quoted texts and lists. Where every atom is made of characters that
mean nothing else, the text of a tree can be told from every other, and it shows where it ends:

* `Sexp.render`, `Sexp.Clean`, `Sexp.render_append_inj` : trees and their texts;
* `Expr.sexp`, `Action.sexp` : the trees of expressions and statements;
* `Expr.toList_dump`, `Action.toList_dump` : dumps are the texts of these trees;
* `Program.sexps_of_dump_eq` : programs with the same dump have the same trees.
-/

namespace GotoScript

inductive Sexp where
  | atom (text : String)
  | quoted (text : String)
  | list (items : List Sexp)

namespace Sexp

/-! ## Texts of trees -/

mutual

def render : Sexp → List Char
  | atom text => text.toList
  | quoted text => (Text.quoted text).toList
  | list [] => ['(', ')']
  | list (first :: rest) => '(' :: (render first ++ (renderRest rest ++ [')']))

def renderRest : List Sexp → List Char
  | [] => []
  | item :: rest => ' ' :: (render item ++ renderRest rest)

end

/-- The characters that mean something between atoms. -/
def isMark (c : Char) : Bool :=
  c = ' ' || c = '(' || c = ')' || c = '"' || c = '\n'

def IsAtom (text : String) : Prop :=
  text.toList ≠ [] ∧ ∀ c ∈ text.toList, ¬ isMark c

mutual

/-- Every atom of the tree is an atom when it is read. -/
def Clean : Sexp → Prop
  | atom text => IsAtom text
  | quoted _ => True
  | list items => CleanAll items

def CleanAll : List Sexp → Prop
  | [] => True
  | item :: rest => Clean item ∧ CleanAll rest

end

/-- What follows a tree in a text: nothing, or a mark that opens no tree. -/
def Ends (rest : List Char) : Prop :=
  ∀ c ∈ rest.head?, isMark c ∧ c ≠ '(' ∧ c ≠ '"'

theorem ends_renderRest (items : List Sexp) (rest : List Char) : Ends (renderRest items ++ ')' :: rest) := by
  cases items with
  | nil =>
    rintro c ⟨⟩
    decide
  | cons item items =>
    rintro c ⟨⟩
    decide

/-- How the text of a tree starts says what kind of tree it is. -/
inductive Starts : Sexp → Char → Prop where
  | atom {text : String} {c : Char} (h : ¬ isMark c) : Starts (atom text) c
  | quoted {text : String} : Starts (quoted text) '"'
  | list {items : List Sexp} : Starts (list items) '('

theorem exists_starts {s : Sexp} (h : s.Clean) : ∃ c cs, s.render = c :: cs ∧ Starts s c := by
  cases s with
  | atom text =>
    obtain ⟨hne, hall⟩ := h
    obtain ⟨c, cs, htext⟩ := List.exists_cons_of_ne_nil hne
    exact ⟨c, cs, htext, .atom (hall c (htext ▸ List.mem_cons_self))⟩
  | quoted text => exact ⟨'"', _, Text.toList_quoted text, .quoted⟩
  | list items =>
    cases items with
    | nil => exact ⟨'(', _, rfl, .list⟩
    | cons first rest => exact ⟨'(', _, rfl, .list⟩

/-- Trees whose texts start alike are of one kind. -/
theorem starts_of_append_eq {s t : Sexp} (hs : s.Clean) (ht : t.Clean) {rest rest' : List Char}
    (h : s.render ++ rest = t.render ++ rest') : ∃ c, Starts s c ∧ Starts t c := by
  obtain ⟨c, cs, hrender, hc⟩ := exists_starts hs
  obtain ⟨d, ds, hrender', hd⟩ := exists_starts ht
  rw [hrender, hrender'] at h
  obtain rfl := (List.cons.inj h).1
  exact ⟨c, hc, hd⟩

theorem atom_append_inj {text text' : String} {rest rest' : List Char} (h : IsAtom text) (h' : IsAtom text')
    (hrest : Ends rest) (hrest' : Ends rest') (heq : text.toList ++ rest = text'.toList ++ rest') :
    text = text' ∧ rest = rest' := by
  obtain ⟨htext, hsame⟩ := Text.append_inj_of_forall h.2 h'.2 (fun c hc hno => hno (hrest c hc).1)
    (fun c hc hno => hno (hrest' c hc).1) heq
  exact ⟨String.toList_inj.1 htext, hsame⟩

-- Along the first tree: its text starts as the other one does, so both are of one kind, and what follows
-- an item starts with a mark, so that the items end at the same place.
mutual

theorem render_append_inj {s t : Sexp} (hs : s.Clean) (ht : t.Clean) {rest rest' : List Char}
    (hrest : Ends rest) (hrest' : Ends rest') (h : s.render ++ rest = t.render ++ rest') :
    s = t ∧ rest = rest' := by
  obtain ⟨c, hc, hd⟩ := starts_of_append_eq hs ht h
  match s with
  | .atom text =>
    cases hc with
    | atom hmark =>
      cases hd with
      | atom =>
        obtain ⟨rfl, hsame⟩ := atom_append_inj hs ht hrest hrest' h
        exact ⟨rfl, hsame⟩
      | quoted => exact absurd rfl hmark
      | list => exact absurd rfl hmark
  | .quoted text =>
    cases hc
    cases hd with
    | atom hmark => exact absurd rfl hmark
    | quoted =>
      obtain ⟨rfl, hsame⟩ := Text.quoted_append_inj h
      exact ⟨rfl, hsame⟩
  | .list [] =>
    cases hc
    cases hd with
    | atom hmark => exact absurd rfl hmark
    | @list items =>
      cases items with
      | nil => exact ⟨rfl, List.append_cancel_left h⟩
      | cons first items =>
        obtain ⟨x, cs, hrender, hx⟩ := exists_starts ht.1
        rw [render, render, hrender] at h
        obtain rfl := (List.cons.inj (List.cons.inj h).2).1
        cases hx with
        | atom hmark => exact absurd rfl hmark
  | .list (first :: items) =>
    cases hc
    cases hd with
    | atom hmark => exact absurd rfl hmark
    | @list items' =>
      cases items' with
      | nil =>
        obtain ⟨x, cs, hrender, hx⟩ := exists_starts hs.1
        rw [render, render, hrender] at h
        obtain rfl := (List.cons.inj (List.cons.inj h).2).1
        cases hx with
        | atom hmark => exact absurd rfl hmark
      | cons first' items' =>
        rw [render, render, List.cons_append, List.cons_append] at h
        simp only [List.append_assoc, List.singleton_append] at h
        obtain ⟨hfirst, hafter⟩ := render_append_inj hs.1 ht.1 (ends_renderRest items rest)
          (ends_renderRest items' rest') (List.cons.inj h).2
        obtain ⟨hitems, hsame⟩ := renderRest_append_inj hs.2 ht.2 hafter
        rw [hfirst, hitems]
        exact ⟨rfl, hsame⟩

theorem renderRest_append_inj {items items' : List Sexp} (hs : CleanAll items) (ht : CleanAll items')
    {rest rest' : List Char} (h : renderRest items ++ ')' :: rest = renderRest items' ++ ')' :: rest') :
    items = items' ∧ rest = rest' := by
  match items with
  | [] =>
    cases items' with
    | nil => exact ⟨rfl, (List.cons.inj h).2⟩
    | cons item' items' => exact absurd (List.cons.inj h).1 (by decide)
  | item :: items =>
    cases items' with
    | nil => exact absurd (List.cons.inj h).1 (by decide)
    | cons item' items' =>
      rw [renderRest, renderRest, List.cons_append, List.cons_append, List.append_assoc, List.append_assoc] at h
      obtain ⟨hitem, hafter⟩ := render_append_inj hs.1 ht.1 (ends_renderRest items rest)
        (ends_renderRest items' rest') (List.cons.inj h).2
      obtain ⟨hitems, hsame⟩ := renderRest_append_inj hs.2 ht.2 hafter
      rw [hitem, hitems]
      exact ⟨rfl, hsame⟩

end

end Sexp

/-! ## Trees of programs -/

namespace Expr

mutual

def sexp : Expr → Sexp
  | int n => .atom (toString n.toInt)
  | float x => .atom (dumpLayout.text x)
  | text s => .quoted s
  | bool b => .atom (boolText b)
  | null => .atom "null"
  | var name => .atom name
  | system name => .atom ("$" ++ name)
  | serviceRoot => .atom rootWord
  | chain [] _ => .list []
  | chain (first :: rest) operators => .list (first.sexp :: linkSexps rest operators)
  | field root name => .list [.atom ".", root.sexp, .atom name]
  | index root key => .list [.atom "[]", root.sexp, key.sexp]
  | call root args => .list (.atom "call" :: root.sexp :: sexps args)
  | not e => .list [.atom "not", e.sexp]
  | negate e => .list [.atom "-", e.sexp]

/-- The operands after the first, each after its operator as long as there are operators. -/
def linkSexps : List Expr → List Token → List Sexp
  | [], _ => []
  | e :: rest, [] => e.sexp :: linkSexps rest []
  | e :: rest, operator :: operators => .atom operator.text :: e.sexp :: linkSexps rest operators

def sexps : List Expr → List Sexp
  | [] => []
  | e :: rest => e.sexp :: sexps rest

end

mutual

theorem toList_dump (e : Expr) : e.dump.toList = e.sexp.render := by
  match e with
  | int _ | float _ | text _ | bool _ | null | var _ | system _ | serviceRoot => rfl
  | chain [] _ =>
    rw [dump, sexp, Sexp.render]
    rfl
  | chain (first :: rest) operators =>
    rw [dump, sexp, Sexp.render, String.toList_append, String.toList_append, String.toList_append,
      toList_dump first, toList_dumpRest rest operators, List.append_assoc, List.append_assoc]
    rfl
  | field root name =>
    rw [dump, sexp, Sexp.render, String.toList_append, String.toList_append, String.toList_append,
      String.toList_append, toList_dump root]
    simp [Sexp.render, Sexp.renderRest]
  | index root key =>
    rw [dump, sexp, Sexp.render, String.toList_append, String.toList_append, String.toList_append,
      String.toList_append, toList_dump root, toList_dump key]
    simp [Sexp.render, Sexp.renderRest]
  | call root args =>
    rw [dump, sexp, Sexp.render, Sexp.renderRest, String.toList_append, String.toList_append, String.toList_append,
      toList_dump root, toList_dumpArgs args]
    simp [Sexp.render]
  | not e =>
    rw [dump, sexp, Sexp.render, String.toList_append, String.toList_append, toList_dump e]
    simp [Sexp.render, Sexp.renderRest]
  | negate e =>
    rw [dump, sexp, Sexp.render, String.toList_append, String.toList_append, toList_dump e]
    simp [Sexp.render, Sexp.renderRest]

theorem toList_dumpRest (es : List Expr) (operators : List Token) :
    (dumpRest es operators).toList = Sexp.renderRest (linkSexps es operators) := by
  match es, operators with
  | [], _ => rfl
  | e :: rest, [] =>
    rw [dumpRest, linkSexps, Sexp.renderRest, String.toList_append, String.toList_append, toList_dump e,
      toList_dumpRest rest [], List.append_assoc]
    rfl
  | e :: rest, operator :: operators =>
    rw [dumpRest, linkSexps, Sexp.renderRest, Sexp.renderRest, String.toList_append, String.toList_append,
      String.toList_append, String.toList_append, toList_dump e, toList_dumpRest rest operators]
    simp [Sexp.render]

theorem toList_dumpArgs (es : List Expr) : (dumpArgs es).toList = Sexp.renderRest (sexps es) := by
  match es with
  | [] => rfl
  | e :: rest =>
    rw [dumpArgs, sexps, Sexp.renderRest, String.toList_append, String.toList_append, toList_dump e,
      toList_dumpArgs rest, List.append_assoc]
    rfl

end

end Expr

namespace Action

/-- The name of a label as it stands in a statement. -/
def labelSexp (name : String) : Sexp :=
  .atom ("@" ++ name)

def sexp : Action → Sexp
  | label name => labelSexp name
  | branch condition whenTrue none => .list [.atom "if", condition.sexp, labelSexp whenTrue]
  | branch condition whenTrue (some whenFalse) =>
    .list [.atom "if", condition.sexp, labelSexp whenTrue, labelSexp whenFalse]
  | jump target => .list [.atom "goto", labelSexp target]
  | print e => .list [.atom "print", e.sexp]
  | assign target value => .list [.atom "=", target.sexp, value.sexp]
  | evaluate e => e.sexp

theorem toList_dump (action : Action) : action.dump.toList = action.sexp.render := by
  cases action with
  | label name => rfl
  | branch condition whenTrue whenFalse =>
    cases whenFalse with
    | none => simp [dump, sexp, labelSexp, Sexp.render, Sexp.renderRest, Expr.toList_dump]
    | some whenFalse => simp [dump, sexp, labelSexp, Sexp.render, Sexp.renderRest, Expr.toList_dump]
  | jump target => simp [dump, sexp, labelSexp, Sexp.render, Sexp.renderRest]
  | print e => simp [dump, sexp, Sexp.render, Sexp.renderRest, Expr.toList_dump]
  | assign target value => simp [dump, sexp, Sexp.render, Sexp.renderRest, Expr.toList_dump]
  | evaluate e => exact e.toList_dump

end Action

namespace Program

/-- The trees of the statements. -/
def sexps (p : Program) : List Sexp :=
  p.statements.map (·.action.sexp)

theorem toList_dump (p : Program) : p.dump.toList = p.sexps.flatMap fun s => s.render ++ ['\n'] := by
  obtain ⟨statements⟩ := p
  unfold dump sexps
  dsimp only
  induction statements with
  | nil => rfl
  | cons s statements ih =>
    rw [List.map_cons, List.map_cons, List.flatMap_cons, String.join_cons, String.toList_append,
      String.toList_append, Action.toList_dump, ih]
    rfl

theorem dump_eq_of_sexps_eq {p q : Program} (h : p.sexps = q.sexps) : p.dump = q.dump := by
  rw [← String.toList_inj, toList_dump, toList_dump, h]

end Program

theorem Sexp.lines_inj {ss ts : List Sexp} (hs : ∀ s ∈ ss, s.Clean) (ht : ∀ t ∈ ts, t.Clean)
    (h : (ss.flatMap fun s => s.render ++ ['\n']) = ts.flatMap fun t => t.render ++ ['\n']) : ss = ts := by
  have hends (rest : List Char) : Ends ('\n' :: rest) := by
    rintro c ⟨⟩
    decide
  induction ss generalizing ts with
  | nil =>
    cases ts with
    | nil => rfl
    | cons t ts => simp at h
  | cons s ss ih =>
    cases ts with
    | nil => simp at h
    | cons t ts =>
      rw [List.flatMap_cons, List.flatMap_cons, List.append_assoc, List.append_assoc] at h
      rw [List.forall_mem_cons] at hs ht
      obtain ⟨rfl, hafter⟩ := render_append_inj hs.1 ht.1 (hends _) (hends _) h
      rw [ih hs.2 ht.2 (List.cons.inj hafter).2]

/-- Programs with the same dump have the same trees. -/
theorem Program.sexps_of_dump_eq {p q : Program} (hp : ∀ s ∈ p.sexps, s.Clean) (hq : ∀ s ∈ q.sexps, s.Clean)
    (h : p.dump = q.dump) : p.sexps = q.sexps := by
  rw [← String.toList_inj, toList_dump, toList_dump] at h
  exact Sexp.lines_inj hp hq h

end GotoScript
