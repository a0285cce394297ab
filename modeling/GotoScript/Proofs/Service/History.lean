import GotoScript.Proofs.Service.VersionOrder
import GotoScript.Service.Registry

/-!
# What a registry remembers of its registrations

* `Registry.ofCalls calls` : the registry after these registrations, in this order;
  `registrations name calls` : those of them under one name;
* `Shelf.Records history shelf` : the latest slot holds the first registration that no other one
  surpasses, and under each version stands the last registration of exactly that text;
* `Records.add` : one registration keeps this; `ofHistory_records` : so does any number of them;
* `resolve_latest_first_version_last` : the latest slot holds the first service that was registered
  under its version, and asking for that version gives the last one.
-/

namespace GotoScript

/-! ## One shelf -/

namespace Shelf

/-- What is known about a shelf after the registrations `history`. -/
structure Records (history : List Registration) (shelf : Shelf) : Prop where
  latest : ∃ earlier later, history = earlier ++ shelf.latest :: later ∧
    (∀ r ∈ earlier, Version.compare r.version shelf.latest.version = .lt) ∧
    ∀ r ∈ later, (Version.compare r.version shelf.latest.version).isLE
  versions : ∀ v, shelf.versions.find? v = (history.filter (·.version = v)).getLast?

theorem single_records (r : Registration) : Records [r] (single r) where
  latest := ⟨[], [], rfl, by simp, by simp⟩
  versions v := by
    unfold single
    by_cases hv : r.version = v
    · subst hv
      rw [Bindings.find?_set_self]
      simp
    · rw [Bindings.find?_set_of_ne (Ne.symm hv), Bindings.find?_empty]
      simp [hv]

theorem versions_add {history : List Registration} {shelf : Shelf} (h : Records history shelf)
    (r : Registration) (v : String) :
    (shelf.add r).versions.find? v = ((history ++ [r]).filter (·.version = v)).getLast? := by
  unfold add
  by_cases hv : r.version = v
  · subst hv
    rw [Bindings.find?_set_self]
    simp
  · rw [Bindings.find?_set_of_ne (Ne.symm hv), h.versions]
    simp [hv]

theorem Records.isLE {history : List Registration} {shelf : Shelf} (h : Records history shelf)
    {r : Registration} (hr : r ∈ history) :
    (Version.compare r.version shelf.latest.version).isLE := by
  obtain ⟨earlier, later, rfl, hearlier, hlater⟩ := h.latest
  rcases List.mem_append.1 hr with hr | hr
  · exact Ordering.isLE_of_eq_lt (hearlier r hr)
  · rcases List.mem_cons.1 hr with rfl | hr
    · exact Ordering.isLE_of_eq_eq Std.ReflCmp.compare_self
    · exact hlater r hr

/-- A registration keeps what is known, whether it takes the latest slot or not. -/
theorem Records.add {history : List Registration} {shelf : Shelf} (h : Records history shelf)
    (r : Registration) : Records (history ++ [r]) (shelf.add r) where
  latest := by
    unfold Shelf.add
    by_cases hgt : Version.compare r.version shelf.latest.version = .gt
    · -- the new one is above the old latest, which nothing surpassed
      have hlt : Version.compare shelf.latest.version r.version = .lt :=
        Std.OrientedCmp.lt_of_gt hgt
      rw [if_pos hgt]
      refine ⟨history, [], rfl, fun x hx => ?_, by simp⟩
      exact Std.TransCmp.lt_of_isLE_of_lt (h.isLE hx) hlt
    · obtain ⟨earlier, later, hsplit, hearlier, hlater⟩ := h.latest
      rw [if_neg hgt]
      refine ⟨earlier, later ++ [r], by simp [hsplit], hearlier, fun x hx => ?_⟩
      rcases List.mem_append.1 hx with hx | hx
      · exact hlater x hx
      · obtain rfl := List.mem_singleton.1 hx
        exact Ordering.isLE_iff_ne_gt.2 hgt
  versions := versions_add h r

/-- The shelf after one more registration, the first of which makes it. -/
def record : Option Shelf → Registration → Option Shelf
  | none, r => some (single r)
  | some shelf, r => some (shelf.add r)

/-- The shelf after the registrations, if there are any. -/
def ofHistory (history : List Registration) : Option Shelf :=
  history.foldl record none

theorem foldl_record {past : List Registration} {shelf : Shelf} (h : Records past shelf)
    (history : List Registration) :
    ∃ after, history.foldl record (some shelf) = some after ∧ Records (past ++ history) after := by
  induction history generalizing past shelf with
  | nil => exact ⟨shelf, rfl, by simpa using h⟩
  | cons r rs ih =>
    obtain ⟨after, hafter, hrecords⟩ := ih (h.add r)
    exact ⟨after, hafter, by simpa using hrecords⟩

theorem ofHistory_records {history : List Registration} (hne : history ≠ []) :
    ∃ shelf, ofHistory history = some shelf ∧ Records history shelf := by
  cases history with
  | nil => exact absurd rfl hne
  | cons r rs => exact foldl_record (single_records r) rs

/-- The registration in the latest slot is the first under its version. -/
theorem Records.latest_head {history : List Registration} {shelf : Shelf}
    (h : Records history shelf) :
    (history.filter (·.version = shelf.latest.version)).head? = some shelf.latest := by
  obtain ⟨earlier, later, hsplit, hearlier, -⟩ := h.latest
  have hnone : earlier.filter (·.version = shelf.latest.version) = [] := by
    rw [List.filter_eq_nil_iff]
    intro r hr
    rw [decide_eq_true_eq]
    intro heq
    have hself : Version.compare r.version r.version = .eq := Std.ReflCmp.compare_self
    have hlt := hearlier r hr
    rw [← heq, hself] at hlt
    cases hlt
  rw [hsplit, List.filter_append, hnone]
  simp

/-- Under the version of the latest slot stands a registration, the last of that version. -/
theorem Records.latest_last {history : List Registration} {shelf : Shelf}
    (h : Records history shelf) :
    ∃ r, shelf.versions.find? shelf.latest.version = some r ∧ r.version = shelf.latest.version ∧
      (history.filter (·.version = shelf.latest.version)).getLast? = some r := by
  obtain ⟨others, hothers⟩ := List.head?_eq_some_iff.1 h.latest_head
  have hlast : (history.filter (·.version = shelf.latest.version)).getLast? =
      some (others.getLast?.getD shelf.latest) := by
    rw [hothers, List.getLast?_cons]
  have hmem := (List.mem_filter.1 (List.mem_of_getLast? hlast)).2
  exact ⟨_, (h.versions _).trans hlast, of_decide_eq_true hmem, hlast⟩

end Shelf

/-! ## Histories of a registry -/

/-- A registration of a service under a name and a version. -/
structure Call where
  name : String
  version : String
  service : Service

/-- The registrations under one name, in order. -/
def registrations (name : String) (calls : List Call) : List Registration :=
  (calls.filter (·.name = name)).map fun c => ⟨c.version, c.service⟩

/-- The services registered under one name and version, in order. -/
def servicesAt (name version : String) (calls : List Call) : List Service :=
  ((registrations name calls).filter (·.version = version)).map (·.service)

namespace Registry

def call (r : Registry) (c : Call) : Registry :=
  r.register c.name c.version c.service

/-- The registry after the registrations. -/
def ofCalls (calls : List Call) : Registry :=
  calls.foldl call {}

/-- A registration adds to the shelf of its name. -/
theorem find?_call_self (r : Registry) (c : Call) :
    (r.call c).shelves.find? c.name =
      Shelf.record (r.shelves.find? c.name) ⟨c.version, c.service⟩ := by
  unfold call register
  cases h : r.shelves.find? c.name with
  | none => exact Bindings.find?_set_self _ _ _
  | some shelf => exact Bindings.find?_set_self _ _ _

/-- A registration leaves the shelves of other names alone. -/
theorem find?_call_of_ne (r : Registry) {c : Call} {name : String} (hne : c.name ≠ name) :
    (r.call c).shelves.find? name = r.shelves.find? name := by
  unfold call register
  cases h : r.shelves.find? c.name with
  | none => exact Bindings.find?_set_of_ne (Ne.symm hne) _ _
  | some shelf => exact Bindings.find?_set_of_ne (Ne.symm hne) _ _

theorem find?_foldl_call (name : String) (calls : List Call) (r : Registry) :
    (calls.foldl call r).shelves.find? name =
      (registrations name calls).foldl Shelf.record (r.shelves.find? name) := by
  induction calls generalizing r with
  | nil => rfl
  | cons c cs ih =>
    rw [List.foldl_cons, ih]
    by_cases hc : c.name = name
    · subst hc
      rw [find?_call_self]
      simp [registrations]
    · rw [find?_call_of_ne r hc]
      simp [registrations, hc]

/-- Every name has the shelf of its own registrations. -/
theorem find?_ofCalls (name : String) (calls : List Call) :
    (ofCalls calls).shelves.find? name = Shelf.ofHistory (registrations name calls) :=
  find?_foldl_call name calls {}

/-- A name that was registered has a shelf, and its registrations are on record there. -/
theorem shelf_of_registered {name : String} {calls : List Call} (h : ∃ c ∈ calls, c.name = name) :
    ∃ shelf, (ofCalls calls).shelves.find? name = some shelf ∧
      Shelf.Records (registrations name calls) shelf := by
  rw [find?_ofCalls]
  apply Shelf.ofHistory_records
  obtain ⟨c, hc, hname⟩ := h
  have hmem : c ∈ calls.filter (·.name = name) := by simp [hc, hname]
  simpa [registrations] using List.ne_nil_of_mem hmem

theorem latestVersion?_of_shelf {r : Registry} {name : String} {shelf : Shelf}
    (h : r.shelves.find? name = some shelf) : r.latestVersion? name = some shelf.latest.version := by
  unfold latestVersion?
  rw [h, Option.map_some]

theorem resolve_none_of_shelf {r : Registry} {name : String} {shelf : Shelf}
    (h : r.shelves.find? name = some shelf) :
    r.resolve name none = .ok ⟨name, shelf.latest.version, shelf.latest.service⟩ := by
  unfold resolve
  rw [h]

theorem resolve_some_of_shelf {r : Registry} {name version : String} {shelf : Shelf}
    {registration : Registration} (h : r.shelves.find? name = some shelf)
    (hv : shelf.versions.find? version = some registration) :
    r.resolve name (some version) = .ok ⟨name, registration.version, registration.service⟩ := by
  unfold resolve
  rw [h]
  simp only [hv]

/-- Whatever was registered, in whatever order, the latest slot of a registered name is bound to the
first service under the latest version, and that version asked for by its text to the last one. So
the two agree when the version was registered once. -/
theorem resolve_latest_first_version_last (calls : List Call) (name : String)
    (h : ∃ c ∈ calls, c.name = name) :
    ∃ version first last,
      (ofCalls calls).latestVersion? name = some version ∧
      (ofCalls calls).resolve name none = .ok ⟨name, version, first⟩ ∧
      (ofCalls calls).resolve name (some version) = .ok ⟨name, version, last⟩ ∧
      (servicesAt name version calls).head? = some first ∧
      (servicesAt name version calls).getLast? = some last ∧
      ((servicesAt name version calls).length = 1 → first = last) := by
  obtain ⟨shelf, hfind, hrecords⟩ := shelf_of_registered h
  obtain ⟨r, hfound, hversion, hlast⟩ := hrecords.latest_last
  refine ⟨shelf.latest.version, shelf.latest.service, r.service, latestVersion?_of_shelf hfind,
    resolve_none_of_shelf hfind, ?_, ?_, ?_, ?_⟩
  · rw [resolve_some_of_shelf hfind hfound, hversion]
  · rw [servicesAt, List.head?_map, hrecords.latest_head, Option.map_some]
  · rw [servicesAt, List.getLast?_map, hlast, Option.map_some]
  · intro hlen
    rw [servicesAt, List.length_map] at hlen
    obtain ⟨only, honly⟩ := List.length_eq_one_iff.1 hlen
    have hhead := hrecords.latest_head
    rw [honly] at hhead hlast
    cases hhead
    cases hlast
    rfl

/-- Two services registered under the same version. -/
def registeredTwice : List Call :=
  [⟨"a", "1.0", .tokenizer⟩, ⟨"a", "1.0", .runner⟩, ⟨"b", "2", .treeRunner⟩]

theorem resolve_registeredTwice :
    (∃ c ∈ registeredTwice, c.name = "a") ∧
      ∃ version first last,
        (ofCalls registeredTwice).latestVersion? "a" = some version ∧
        (ofCalls registeredTwice).resolve "a" none = .ok ⟨"a", version, first⟩ ∧
        (ofCalls registeredTwice).resolve "a" (some version) = .ok ⟨"a", version, last⟩ ∧
        (servicesAt "a" version registeredTwice).head? = some first ∧
        (servicesAt "a" version registeredTwice).getLast? = some last := by
  have hmem : ∃ c ∈ registeredTwice, c.name = "a" := ⟨⟨"a", "1.0", .tokenizer⟩, .head _, rfl⟩
  obtain ⟨version, first, last, hversion, hfirst, hlast, hhead, hend, -⟩ :=
    resolve_latest_first_version_last registeredTwice "a" hmem
  exact ⟨hmem, version, first, last, hversion, hfirst, hlast, hhead, hend⟩

/-- The latest slot and its version asked for by text need not be bound to the same service. -/
theorem not_resolve_latest_eq_version :
    ¬ ∀ (calls : List Call) (name version : String),
      (ofCalls calls).latestVersion? name = some version →
        (ofCalls calls).resolve name none = (ofCalls calls).resolve name (some version) := by
  intro h
  have heq := h registeredTwice "a" "1.0" rfl
  have hfirst : (ofCalls registeredTwice).resolve "a" none = .ok ⟨"a", "1.0", .tokenizer⟩ := rfl
  have hlast : (ofCalls registeredTwice).resolve "a" (some "1.0") = .ok ⟨"a", "1.0", .runner⟩ := rfl
  rw [hfirst, hlast] at heq
  cases heq

end Registry

end GotoScript
