import GotoScript.Proofs.Service.History

/-!
# The latest slot is a maximum

* `firstUnsurpassed history` : the earliest registration than which none is greater;
* `Shelf.Records.firstUnsurpassed` : it is what the latest slot holds;
* `Registry.resolve_none`, `Registry.resolve_some` : what a look-up finds, told by the registrations under
  its name alone;
* `Registry.latest_is_maximum` : the whole statement for a history of registrations, in any order.
-/

namespace GotoScript

/-- The earliest registration than which no registration is greater. -/
def firstUnsurpassed (history : List Registration) : Option Registration :=
  history.find? fun r => history.all fun s => Version.compare s.version r.version ≠ .gt

namespace Shelf

theorem Records.firstUnsurpassed {history : List Registration} {shelf : Shelf}
    (h : Records history shelf) : firstUnsurpassed history = some shelf.latest := by
  unfold GotoScript.firstUnsurpassed
  rw [List.find?_eq_some_iff_append]
  constructor
  · rw [List.all_eq_true]
    intro r hr
    exact decide_eq_true (Ordering.isLE_iff_ne_gt.1 (h.isLE hr))
  · obtain ⟨earlier, later, hsplit, hearlier, -⟩ := h.latest
    refine ⟨earlier, later, hsplit, ?_⟩
    intro r hr
    -- the latest itself surpasses whatever was registered before it
    have hgt : Version.compare shelf.latest.version r.version = .gt :=
      Std.OrientedCmp.gt_of_lt (hearlier r hr)
    have hmem : shelf.latest ∈ history := by simp [hsplit]
    rw [Bool.not_eq_true', List.all_eq_false]
    exact ⟨shelf.latest, hmem, by simp [hgt]⟩

/-- The latest of the same registrations in another order is an equal version. -/
theorem Records.latest_perm {history other : List Registration} {shelf shelf' : Shelf}
    (h : Records history shelf) (h' : Records other shelf') (hperm : other.Perm history) :
    Version.compare shelf.latest.version shelf'.latest.version = .eq := by
  have hmem {history : List Registration} {shelf : Shelf} (h : Records history shelf) :
      shelf.latest ∈ history := by
    obtain ⟨earlier, later, hsplit, -, -⟩ := h.latest
    simp [hsplit]
  have hle : (Version.compare shelf.latest.version shelf'.latest.version).isLE :=
    h'.isLE (hperm.mem_iff.2 (hmem h))
  have hge : (Version.compare shelf'.latest.version shelf.latest.version).isLE :=
    h.isLE (hperm.mem_iff.1 (hmem h'))
  exact Std.OrientedCmp.isLE_antisymm hle hge

end Shelf

namespace Registry

/-- The answer of a look-up that found this registration, or none. -/
def answer (name : String) (version : Option String) (found : Option Registration) :
    Except ServiceError Client :=
  found.elim (.error (.notFound name version)) fun r => .ok ⟨name, r.version, r.service⟩

theorem registrations_eq_nil_iff {name : String} {calls : List Call} :
    registrations name calls = [] ↔ ∀ c ∈ calls, c.name ≠ name := by
  simp [registrations]

/-- The shelf of a name, if it has one, and the registrations that are on record there. -/
theorem shelf_cases (name : String) (calls : List Call) :
    (registrations name calls = [] ∧ (ofCalls calls).shelves.find? name = none) ∨
      ∃ shelf, (ofCalls calls).shelves.find? name = some shelf ∧
        Shelf.Records (registrations name calls) shelf := by
  rw [find?_ofCalls]
  by_cases hnil : registrations name calls = []
  · rw [hnil]
    exact .inl ⟨rfl, rfl⟩
  · exact .inr (Shelf.ofHistory_records hnil)

theorem latestVersion?_eq (name : String) (calls : List Call) :
    (ofCalls calls).latestVersion? name =
      (firstUnsurpassed (registrations name calls)).map (·.version) := by
  rcases shelf_cases name calls with ⟨hnil, hfind⟩ | ⟨shelf, hfind, hrecords⟩
  · unfold latestVersion?
    rw [hfind, hnil]
    rfl
  · rw [latestVersion?_of_shelf hfind, hrecords.firstUnsurpassed, Option.map_some]

theorem resolve_none (name : String) (calls : List Call) :
    (ofCalls calls).resolve name none =
      answer name none (firstUnsurpassed (registrations name calls)) := by
  rcases shelf_cases name calls with ⟨hnil, hfind⟩ | ⟨shelf, hfind, hrecords⟩
  · unfold resolve
    rw [hfind, hnil]
    rfl
  · rw [resolve_none_of_shelf hfind, hrecords.firstUnsurpassed]
    rfl

theorem resolve_some (name version : String) (calls : List Call) :
    (ofCalls calls).resolve name (some version) =
      answer name (some version)
        ((registrations name calls).filter (·.version = version)).getLast? := by
  rcases shelf_cases name calls with ⟨hnil, hfind⟩ | ⟨shelf, hfind, hrecords⟩
  · unfold resolve
    rw [hfind, hnil]
    rfl
  · rw [← hrecords.versions]
    cases hv : shelf.versions.find? version with
    | none =>
      unfold resolve
      rw [hfind]
      simp only [hv]
      rfl
    | some registration => exact resolve_some_of_shelf hfind hv

theorem latestVersion?_eq_none_iff {name : String} {calls : List Call} :
    (ofCalls calls).latestVersion? name = none ↔ ∀ c ∈ calls, c.name ≠ name := by
  rw [← registrations_eq_nil_iff]
  rcases shelf_cases name calls with ⟨hnil, hfind⟩ | ⟨shelf, hfind, hrecords⟩
  · unfold latestVersion?
    rw [hfind]
    exact iff_of_true rfl hnil
  · obtain ⟨earlier, later, hsplit, -, -⟩ := hrecords.latest
    rw [latestVersion?_of_shelf hfind, hsplit]
    simp

/-- Only the registrations under a name count for it. -/
theorem registrations_filter (name : String) (calls : List Call) :
    registrations name (calls.filter (·.name = name)) = registrations name calls := by
  unfold registrations
  rw [List.filter_filter]
  simp only [Bool.and_self]

theorem latestVersion?_perm {calls shuffled : List Call} (hperm : shuffled.Perm calls)
    (name : String) :
    Option.Rel (fun v w => Version.compare v w = .eq) ((ofCalls calls).latestVersion? name)
      ((ofCalls shuffled).latestVersion? name) := by
  have hshuffled : (registrations name shuffled).Perm (registrations name calls) :=
    (hperm.filter _).map _
  rcases shelf_cases name calls with ⟨hnil, hfind⟩ | ⟨shelf, hfind, hrecords⟩
  · have hnil' : registrations name shuffled = [] := (hnil ▸ hshuffled).eq_nil
    rw [latestVersion?_eq, latestVersion?_eq, hnil, hnil']
    exact .none
  · rcases shelf_cases name shuffled with ⟨hnil', -⟩ | ⟨shelf', hfind', hrecords'⟩
    · obtain ⟨earlier, later, hsplit, -, -⟩ := hrecords.latest
      rw [hnil', hsplit] at hshuffled
      exact absurd hshuffled.symm.eq_nil (by simp)
    · rw [latestVersion?_of_shelf hfind, latestVersion?_of_shelf hfind']
      exact .some (hrecords.latest_perm hrecords' hshuffled)

/-- After any registrations, a name that was registered has as its latest the earliest registration that
none surpasses. A version that is asked for by its text is the last one of exactly that text, and not
found if there is none. Other names have no influence, and another order leads to an equal version. -/
theorem latest_is_maximum (calls : List Call) (name : String) :
    ((ofCalls calls).latestVersion? name = none ↔ ∀ c ∈ calls, c.name ≠ name) ∧
      (ofCalls calls).latestVersion? name =
        (firstUnsurpassed (registrations name calls)).map (·.version) ∧
      (ofCalls calls).resolve name none =
        answer name none (firstUnsurpassed (registrations name calls)) ∧
      (∀ version, (ofCalls calls).resolve name (some version) =
        answer name (some version)
          ((registrations name calls).filter (·.version = version)).getLast?) ∧
      (∀ version, (∀ c ∈ calls, c.name = name → c.version ≠ version) →
        ∃ e, (ofCalls calls).resolve name (some version) = .error e ∧ e.code = .serviceNotFound) ∧
      ((ofCalls (calls.filter (·.name = name))).latestVersion? name =
          (ofCalls calls).latestVersion? name ∧
        ∀ version, (ofCalls (calls.filter (·.name = name))).resolve name version =
          (ofCalls calls).resolve name version) ∧
      ∀ shuffled : List Call, shuffled.Perm calls →
        Option.Rel (fun v w => Version.compare v w = .eq) ((ofCalls calls).latestVersion? name)
          ((ofCalls shuffled).latestVersion? name) := by
  refine ⟨latestVersion?_eq_none_iff, latestVersion?_eq name calls, resolve_none name calls,
    fun version => resolve_some name version calls, ?_, ⟨?_, ?_⟩,
    fun shuffled hperm => latestVersion?_perm hperm name⟩
  · intro version hnone
    have hempty : (registrations name calls).filter (·.version = version) = [] := by
      unfold registrations
      rw [List.filter_map, List.filter_filter, List.map_eq_nil_iff, List.filter_eq_nil_iff]
      intro c hc
      simpa using fun hversion hname => hnone c hc hname hversion
    exact ⟨.notFound name (some version), by rw [resolve_some, hempty]; rfl, rfl⟩
  · rw [latestVersion?_eq, latestVersion?_eq, registrations_filter]
  · intro version
    cases version with
    | none => rw [resolve_none, resolve_none, registrations_filter]
    | some version => rw [resolve_some, resolve_some, registrations_filter]

/-- Three spellings of one version under one name, and a greater version under another. -/
def respelled : List Call :=
  [⟨"a", "0.9", .tokenizer⟩, ⟨"a", "1.0", .runner⟩, ⟨"b", "7", .tokenizer⟩, ⟨"a", "01", .treeRunner⟩,
    ⟨"a", "1x.0", .treeBuilder⟩]

theorem latest_respelled :
    (ofCalls respelled).latestVersion? "a" = some "1.0" ∧
      (ofCalls respelled.reverse).latestVersion? "a" = some "1x.0" ∧
      Version.compare "1.0" "1x.0" = .eq ∧
      (∀ c ∈ respelled, c.name = "a" → c.version ≠ "7") ∧
      ∃ e, (ofCalls respelled).resolve "a" (some "7") = .error e ∧ e.code = .serviceNotFound := by
  obtain ⟨-, -, -, -, hmissing, -, hperm⟩ := latest_is_maximum respelled "a"
  have hlatest : (ofCalls respelled).latestVersion? "a" = some "1.0" := by decide +kernel
  have hreversed : (ofCalls respelled.reverse).latestVersion? "a" = some "1x.0" := by decide +kernel
  have hequal := hperm respelled.reverse (List.reverse_perm respelled)
  rw [hlatest, hreversed, Option.rel_some_some] at hequal
  have habsent : ∀ c ∈ respelled, c.name = "a" → c.version ≠ "7" := by simp [respelled]
  exact ⟨hlatest, hreversed, hequal, habsent, hmissing "7" habsent⟩

end Registry

end GotoScript
