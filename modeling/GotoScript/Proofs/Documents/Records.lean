import Mathlib.Data.List.Basic
import GotoScript.Proofs.Documents.RoundTrip

/-!
# Records in any order

The fields of a record are found by their names. This module says what that means for a document and
for the form in which it is sent, where the fields are sorted.

* `Document.Proper` : what is sent without loss: the fields of an object have different names, and
  floats are finite;
* `Document.values?` : the values of a record, and `Document.needed?` : what is read from a record that
  has to be complete;
* `Document.values?_canonical`, `Document.needed?_sorted` : both do not depend on the order of fields;
* `Document.Proper.read_canonical`, `Document.listOf?_sorted` : the same for simple values and lists.
-/

namespace GotoScript

namespace Document

/-- Fields have different names within each object, and floats are finite. -/
inductive Proper : Document → Prop where
  | null : Proper null
  | bool (b : Bool) : Proper (bool b)
  | int (n : Int) : Proper (int n)
  | float {x : Float} (h : x.isFinite) : Proper (float x)
  | text (s : String) : Proper (text s)
  | list {items : List Document} (h : ∀ d ∈ items, Proper d) : Proper (list items)
  | object {fields : List (String × Document)} (hnames : (fields.map Prod.fst).Nodup)
    (h : ∀ field ∈ fields, Proper field.2) : Proper (object fields)

/-! ## Records -/

/-- The documents directly inside another one. -/
def inside : Document → List Document
  | list items => items
  | object fields => fields.map Prod.snd
  | _ => []

theorem sizeOf_lt_of_mem_inside {d part : Document} (h : part ∈ d.inside) :
    sizeOf part < sizeOf d := by
  cases d with
  | list items => exact sizeOf_lt_of_mem_list h
  | object fields =>
    obtain ⟨field, hfield, rfl⟩ := List.mem_map.1 h
    exact sizeOf_lt_of_mem_object hfield
  | _ => exact absurd h List.not_mem_nil

theorem Proper.of_mem_inside {d part : Document} (hd : d.Proper) (h : part ∈ d.inside) :
    part.Proper := by
  cases hd with
  | list hitems => exact hitems part h
  | object _ hfields =>
    obtain ⟨field, hfield, rfl⟩ := List.mem_map.1 h
    exact hfields field hfield
  | _ => exact absurd h List.not_mem_nil

/-- The values that an object has under one of `names`. -/
def under (names : List String) (fields : List (String × Document)) : List Document :=
  fields.filterMap fun field => if field.1 ∈ names then some field.2 else none

theorem map_named (fields : List (String × Document)) (names : List String) :
    (named fields names).map Subtype.val = under names fields := by
  have hread (field : { field // field ∈ fields }) :
      (if field.1.1 ∈ names then some (⟨field.1.2, sizeOf_lt_of_mem_object field.2⟩ : Part (object fields))
        else none).map Subtype.val = if field.1.1 ∈ names then some field.1.2 else none := by
    split <;> rfl
  unfold named under
  rw [List.map_filterMap]
  simp only [hread]
  change fields.attach.filterMap ((fun field => if field.1 ∈ names then some field.2 else none) ∘
    Subtype.val) = _
  rw [← List.filterMap_map, List.attach_map_subtype_val]

theorem one?_map {α β : Type} (f : α → β) (l : List α) : one? (l.map f) = (one? l).map (Option.map f) := by
  match l with
  | [] => rfl
  | [a] => rfl
  | a :: b :: rest => rfl

theorem one?_perm {α : Type} {l l' : List α} (h : l.Perm l') : one? l = one? l' := by
  match l, l' with
  | [], l' => rw [List.nil_perm.1 h]
  | [a], l' => rw [List.singleton_perm.1 h]
  | _, [] => rw [List.perm_nil.1 h]
  | _, [a] => rw [List.perm_singleton.1 h]
  | a :: b :: rest, a' :: b' :: rest' => rfl

theorem mem_of_one? {α : Type} {l : List α} {a : α} (h : one? l = some (some a)) : a ∈ l := by
  match l with
  | [] => cases h
  | [b] =>
    cases h
    exact List.mem_singleton_self a
  | b :: c :: rest => cases h

/-- The values of a record, as `record?` finds them. -/
def values? (d : Document) (fields : List (List String)) : Option (List (Option Document)) :=
  (d.record? fields).map (List.map (Option.map Subtype.val))

theorem map_mapM_option {α β γ : Type} (f : α → Option β) (g : β → γ) (l : List α) :
    (l.mapM f).map (List.map g) = l.mapM fun a => (f a).map g := by
  induction l with
  | nil => rfl
  | cons a rest ih =>
    rw [List.mapM_cons, List.mapM_cons, ← ih]
    cases f a with
    | none => rfl
    | some b => cases rest.mapM f <;> rfl

theorem values?_object (given : List (String × Document)) (fields : List (List String)) :
    (object given).values? fields = fields.mapM fun names => one? (under names given) := by
  unfold values? record?
  rw [map_mapM_option]
  congr 1
  funext names
  rw [← one?_map, map_named]

theorem values?_list (items : List Document) (fields : List (List String)) :
    (list items).values? fields =
      if items.length ≤ fields.length then
        some (items.map some ++ List.replicate (fields.length - items.length) none)
      else none := by
  unfold values? record?
  simp only
  split
  · simp only [Option.map_some, List.map_append, List.map_map, List.map_replicate, Option.map_none]
    change some (items.attach.map (some ∘ Subtype.val) ++ _) = _
    rw [← List.map_map, List.attach_map_subtype_val]
  · rfl

/-- What is found by reading every item was found by reading one of them. -/
theorem mem_of_mapM_eq_some {α β : Type} {f : α → Option β} {l : List α} {found : List β}
    (h : l.mapM f = some found) {b : β} (hb : b ∈ found) : ∃ a ∈ l, f a = some b := by
  induction l generalizing found with
  | nil =>
    cases h
    exact absurd hb List.not_mem_nil
  | cons a rest ih =>
    rw [List.mapM_cons] at h
    obtain ⟨c, hc, h⟩ := Option.bind_eq_some_iff.1 h
    obtain ⟨more, hmore, h⟩ := Option.bind_eq_some_iff.1 h
    cases h
    rcases List.mem_cons.1 hb with rfl | hb
    · exact ⟨a, List.mem_cons_self, hc⟩
    · obtain ⟨a', ha', hfound⟩ := ih hmore hb
      exact ⟨a', List.mem_cons_of_mem a ha', hfound⟩

theorem length_of_mapM_eq_some {α β : Type} {f : α → Option β} {l : List α} {found : List β}
    (h : l.mapM f = some found) : found.length = l.length := by
  induction l generalizing found with
  | nil =>
    cases h
    rfl
  | cons a rest ih =>
    rw [List.mapM_cons] at h
    obtain ⟨c, -, h⟩ := Option.bind_eq_some_iff.1 h
    obtain ⟨more, hmore, h⟩ := Option.bind_eq_some_iff.1 h
    cases h
    rw [List.length_cons, List.length_cons, ih hmore]

theorem record?_length {d : Document} {fields : List (List String)} {parts : List (Option d.Part)}
    (h : d.record? fields = some parts) : parts.length = fields.length := by
  cases d with
  | list items =>
    unfold record? at h
    simp only at h
    split at h
    · cases h
      simp
      omega
    · cases h
  | object given => exact length_of_mapM_eq_some h
  | _ => cases h

theorem values?_length {d : Document} {fields : List (List String)}
    {values : List (Option Document)} (h : d.values? fields = some values) :
    values.length = fields.length := by
  obtain ⟨parts, hparts, rfl⟩ := Option.map_eq_some_iff.1 h
  rw [List.length_map, record?_length hparts]

theorem mem_inside_of_values? {d part : Document} {fields : List (List String)}
    {values : List (Option Document)} (h : d.values? fields = some values)
    (hpart : some part ∈ values) : part ∈ d.inside := by
  cases d with
  | list items =>
    rw [values?_list] at h
    split at h
    · cases h
      rcases List.mem_append.1 hpart with hitem | hnone
      · obtain ⟨item, hitem, heq⟩ := List.mem_map.1 hitem
        cases heq
        exact hitem
      · cases List.eq_of_mem_replicate hnone
    · cases h
  | object given =>
    rw [values?_object] at h
    obtain ⟨names, -, hone⟩ := mem_of_mapM_eq_some h hpart
    have hunder : part ∈ under names given := mem_of_one? hone
    obtain ⟨field, hfield, heq⟩ := List.mem_filterMap.1 hunder
    split at heq
    · cases heq
      exact List.mem_map_of_mem hfield
    · cases heq
  | _ => cases h

theorem insertField_perm (name : String) (value : Document) (fields : List (String × Document)) :
    (insertField name value fields).Perm ((name, value) :: fields) := by
  induction fields with
  | nil => exact List.Perm.refl _
  | cons field rest ih =>
    unfold insertField
    split
    · exact List.Perm.refl _
    · exact (ih.cons _).trans (List.Perm.swap ..)

theorem insertField_ne_nil (name : String) (value : Document) (fields : List (String × Document)) :
    insertField name value fields ≠ [] := by
  intro hnil
  have hperm := insertField_perm name value fields
  rw [hnil] at hperm
  cases List.nil_perm.1 hperm

theorem canonicalFields_perm (fields : List (String × Document)) :
    (canonicalFields fields).Perm (fields.map fun field => (field.1, field.2.canonical)) := by
  induction fields with
  | nil => exact List.Perm.refl _
  | cons field rest ih =>
    rw [canonicalFields, List.map_cons]
    exact (insertField_perm ..).trans (ih.cons _)

theorem under_canonicalFields (names : List String) (fields : List (String × Document)) :
    (under names (canonicalFields fields)).Perm ((under names fields).map canonical) := by
  refine ((canonicalFields_perm fields).filterMap _).trans (List.Perm.of_eq ?_)
  rw [under, List.filterMap_map, List.map_filterMap]
  congr 1
  funext field
  simp only [Function.comp_apply]
  split <;> rfl

/-- The values of a record do not depend on the order in which the fields stand. -/
theorem values?_canonical (d : Document) (fields : List (List String)) :
    d.canonical.values? fields = (d.values? fields).map (List.map (Option.map canonical)) := by
  cases d with
  | float x =>
    rw [canonical]
    cases x.isFinite <;> rfl
  | list items =>
    rw [canonical_list, canonicalItems_eq_map, values?_list, values?_list, List.length_map]
    split
    · simp
    · rfl
  | object given =>
    rw [canonical, values?_object, values?_object, map_mapM_option]
    congr 1
    funext names
    rw [one?_perm (under_canonicalFields names given), one?_map]
  | _ => rfl

/-! ## Simple values, lists and types -/

theorem canonical_float {x : Float} (h : x.isFinite) : (float x).canonical = float x := by
  rw [canonical, if_pos h]

/-- What reads neither lists nor objects reads a document as it is sent. -/
theorem Proper.read_canonical {α : Type} {read : Document → Option α}
    (hlist : ∀ items, read (.list items) = none) (hobject : ∀ fields, read (.object fields) = none)
    {d : Document} (hd : d.Proper) : read d.canonical = read d := by
  cases hd with
  | float h => rw [canonical_float h]
  | list _ => rw [canonical_list, hlist, hlist]
  | object _ _ => rw [canonical, hobject, hobject]
  | _ => rfl

section
variable {d : Document} (hd : d.Proper)
include hd

theorem Proper.text?_canonical : d.canonical.text? = d.text? :=
  hd.read_canonical (fun _ => rfl) (fun _ => rfl)

theorem Proper.bool?_canonical : d.canonical.bool? = d.bool? :=
  hd.read_canonical (fun _ => rfl) (fun _ => rfl)

theorem Proper.float?_canonical : d.canonical.float? = d.float? :=
  hd.read_canonical (fun _ => rfl) (fun _ => rfl)

theorem Proper.int64?_canonical : d.canonical.int64? = d.int64? :=
  hd.read_canonical (fun _ => rfl) (fun _ => rfl)

theorem Proper.uint32?_canonical : d.canonical.uint32? = d.uint32? :=
  hd.read_canonical (fun _ => rfl) (fun _ => rfl)

theorem Proper.uint64?_canonical : d.canonical.uint64? = d.uint64? :=
  hd.read_canonical (fun _ => rfl) (fun _ => rfl)

theorem Proper.nameOrPlace?_canonical (types : List String) :
    d.canonical.nameOrPlace? types = d.nameOrPlace? types :=
  hd.read_canonical (fun _ => rfl) (fun _ => rfl)

end

theorem mapM_congr {α β : Type} {f g : α → Option β} {l : List α} (h : ∀ a ∈ l, f a = g a) :
    l.mapM f = l.mapM g := by
  induction l with
  | nil => rfl
  | cons a rest ih =>
    obtain ⟨ha, hrest⟩ := List.forall_mem_cons.1 h
    rw [List.mapM_cons, List.mapM_cons, ha, ih hrest]

theorem listOf?_sorted {α : Type} {read : Document → Option α} {d : Document}
    (h : ∀ part ∈ d.inside, read part.canonical = read part) :
    d.canonical.listOf? read = d.listOf? read := by
  cases d with
  | float x =>
    rw [canonical]
    cases x.isFinite <;> rfl
  | list items =>
    rw [canonical_list, canonicalItems_eq_map, listOf?, listOf?, List.mapM_map]
    exact mapM_congr h
  | _ => rfl

/-- Reading the items of a list part by part. -/
theorem items?_bind_mapM {α β : Type} (d : Document) (read : Document → Option α)
    (next : List α → Option β) :
    (d.items?.bind fun parts => (parts.mapM fun part => read part.1).bind next) =
      (d.listOf? read).bind next := by
  cases d with
  | list items =>
    rw [← Option.bind_assoc, mapM_items?]
    rfl
  | _ => rfl

/-! ## Records that have to be complete -/

/-- Reads a record whose fields have to be there, all of them. -/
def needed? {α : Type} (d : Document) (names : List String) (read : List Document → Option α) :
    Option α :=
  (d.values? (names.map ([·]))).bind fun values => (values.mapM id).bind read

theorem record?_bind_eq_needed? {α : Type} {d : Document} (names : List String)
    {read : List Document → Option α} {readParts : List (Option d.Part) → Option α}
    (h : ∀ parts, parts.length = names.length →
      readParts parts = ((parts.map (Option.map Subtype.val)).mapM id).bind read) :
    (d.record? (names.map ([·]))).bind readParts = d.needed? names read := by
  unfold needed? values?
  cases hparts : d.record? (names.map ([·])) with
  | none => rfl
  | some parts =>
    have hlength := record?_length hparts
    rw [List.length_map] at hlength
    exact h parts hlength

theorem needed?_sorted {α : Type} {d : Document} {names : List String}
    {read : List Document → Option α}
    (h : ∀ values : List Document, values.length = names.length → (∀ v ∈ values, v ∈ d.inside) →
      read (values.map canonical) = read values) :
    d.canonical.needed? names read = d.needed? names read := by
  unfold needed?
  rw [values?_canonical]
  cases hvalues : d.values? (names.map ([·])) with
  | none => rfl
  | some values =>
    rw [Option.map_some, Option.bind_some, Option.bind_some]
    have hcanonical : (values.map (Option.map canonical)).mapM id =
        (values.mapM id).map (List.map canonical) := by
      rw [List.mapM_map, map_mapM_option]
      rfl
    rw [hcanonical]
    cases hall : values.mapM id with
    | none => rfl
    | some found =>
      refine h found ?_ fun v hv => ?_
      · rw [length_of_mapM_eq_some hall, values?_length hvalues, List.length_map]
      · obtain ⟨value, hvalue, rfl⟩ := mem_of_mapM_eq_some hall hv
        exact mem_inside_of_values? hvalues hvalue

end Document

end GotoScript
