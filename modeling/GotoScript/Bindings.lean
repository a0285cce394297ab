/-!
# Names bound to values

`Bindings α` gives each bound name one value and keeps the names in the order in which they were
first bound. Binding a name again replaces its value in place, so `size` counts names. Variables,
label targets and the shelves of a service registry are all kept this way.
-/

namespace GotoScript

structure Bindings (α : Type) where
  entries : List (String × α) := []

namespace Bindings

variable {α : Type}

def find? (b : Bindings α) (name : String) : Option α :=
  b.entries.lookup name

/-- The entries with `name` bound to `value`, in its old place or at the end. -/
def put (name : String) (value : α) : List (String × α) → List (String × α)
  | [] => [(name, value)]
  | (n, v) :: rest => if n = name then (n, value) :: rest else (n, v) :: put name value rest

def set (b : Bindings α) (name : String) (value : α) : Bindings α :=
  ⟨put name value b.entries⟩

def size (b : Bindings α) : Nat :=
  b.entries.length

def isEmpty (b : Bindings α) : Bool :=
  b.entries.isEmpty

def names (b : Bindings α) : List String :=
  b.entries.map Prod.fst

theorem lookup_put_self (name : String) (value : α) (l : List (String × α)) :
    (put name value l).lookup name = some value := by
  induction l with
  | nil => simp [put]
  | cons e rest ih =>
    obtain ⟨n, v⟩ := e
    by_cases h : n = name
    · subst h; simp [put]
    · have : (name == n) = false := by simpa using fun h' => h h'.symm
      simp [put, h, List.lookup_cons, this, ih]

theorem lookup_put_of_ne {name other : String} (h : other ≠ name) (value : α)
    (l : List (String × α)) : (put name value l).lookup other = l.lookup other := by
  induction l with
  | nil =>
    have : (other == name) = false := by simpa using h
    simp [put, List.lookup_cons, this]
  | cons e rest ih =>
    obtain ⟨n, v⟩ := e
    by_cases hn : n = name
    · subst hn
      have : (other == n) = false := by simpa using h
      simp [put, List.lookup_cons, this]
    · simp only [put, hn, if_false, List.lookup_cons]
      split <;> simp_all

@[simp]
theorem find?_set_self (b : Bindings α) (name : String) (value : α) :
    (b.set name value).find? name = some value :=
  lookup_put_self name value b.entries

theorem find?_set_of_ne {name other : String} (h : other ≠ name) (b : Bindings α) (value : α) :
    (b.set name value).find? other = b.find? other :=
  lookup_put_of_ne h value b.entries

@[simp]
theorem find?_empty (name : String) : ({} : Bindings α).find? name = none := rfl

end Bindings

end GotoScript
