import GoldenCircuit.Catalog

/-! Looking families up in a catalog. Links only append, so a selection that finds a family finds the
same one after all further links, and a name finds what stands at the place of its first link. -/
namespace GoldenCircuit

/-- What a family builds: the circuit that an argument string describes, or the standard one if there
is no argument string. -/
def Family.build (family : Family) : (args : Option String) → Except Fault Specimen
  | some args => family.ofArgs args
  | none => .ok family.standard

namespace Catalog

variable {links more : List Family} {name : String} {position : Nat} {family : Family}

/-- Links families to a catalog, one after the other. -/
def linkAll (catalog : Catalog) (links : List Family) : Catalog :=
  links.foldl link catalog

theorem families_linkAll (catalog : Catalog) (links : List Family) :
    (catalog.linkAll links).families = catalog.families ++ links := by
  induction links generalizing catalog with
  | nil => exact (List.append_nil _).symm
  | cons family links ih =>
    show ((catalog.link family).linkAll links).families = _
    rw [ih, link, List.append_assoc, List.singleton_append]

/-- The family is the first one of that name among those linked, and that is its position. -/
structure IsFirst (links : List Family) (name : String) (position : Nat) (family : Family) :
    Prop where
  found : links[position]? = some family
  named : family.name = name
  first : ∀ earlier < position, ∀ other, links[earlier]? = some other → other.name ≠ name

theorem IsFirst.append (first : IsFirst links name position family) (more : List Family) :
    IsFirst (links ++ more) name position family where
  found := by
    rw [List.getElem?_append_left (List.getElem?_eq_some_iff.mp first.found).1]
    exact first.found
  named := first.named
  first earlier before other found := by
    have within := (List.getElem?_eq_some_iff.mp first.found).1
    rw [List.getElem?_append_left (Nat.lt_trans before within)] at found
    exact first.first earlier before other found

/-! ### By name -/

theorem find_eq_ok_iff {catalog : Catalog} :
    catalog.find name = .ok family ↔ ∃ position, IsFirst catalog.families name position family := by
  have looked : catalog.find name = .ok family ↔
      catalog.families.find? (·.name == name) = some family := by
    unfold find
    cases catalog.families.find? (·.name == name) <;> simp
  rw [looked, List.find?_eq_some_iff_getElem]
  constructor
  · rintro ⟨named, position, within, here, others⟩
    refine ⟨position, List.getElem?_eq_some_iff.mpr ⟨within, here⟩, beq_iff_eq.mp named, ?_⟩
    intro earlier before other found
    obtain ⟨_, rfl⟩ := List.getElem?_eq_some_iff.mp found
    simpa using others earlier before
  · rintro ⟨position, found, named, first⟩
    obtain ⟨within, here⟩ := List.getElem?_eq_some_iff.mp found
    refine ⟨beq_iff_eq.mpr named, position, within, here, fun earlier before => ?_⟩
    simpa using first earlier before _ (List.getElem?_eq_getElem (Nat.lt_trans before within))

theorem find_eq_error_iff {catalog : Catalog} {fault : Fault} :
    catalog.find name = .error fault ↔
      fault = .unknownFamily name ∧ ∀ family ∈ catalog.families, family.name ≠ name := by
  have looked : catalog.find name = .error fault ↔
      fault = .unknownFamily name ∧ catalog.families.find? (·.name == name) = none := by
    unfold find
    cases catalog.families.find? (·.name == name) <;> simp [eq_comm]
  simp [looked, List.find?_eq_none]

/-! ### By position -/

theorem get_eq_ok_iff {catalog : Catalog} {index : Nat} :
    catalog.get index = .ok family ↔ catalog.families[index]? = some family := by
  unfold get
  cases catalog.families[index]? <;> simp

theorem get_eq_error_iff {catalog : Catalog} {index : Nat} {fault : Fault} :
    catalog.get index = .error fault ↔
      fault = .familyOutOfRange index catalog.families.length ∧ catalog.families.length ≤ index := by
  have looked : catalog.get index = .error fault ↔
      fault = .familyOutOfRange index catalog.families.length ∧ catalog.families[index]? = none := by
    unfold get size
    cases catalog.families[index]? <;> simp [eq_comm]
  rw [looked, List.getElem?_eq_none_iff]

/-! ### Growth -/

/-- Whatever a selection finds, it finds after all further links. -/
theorem select_linkAll {catalog : Catalog} {selection : Selection}
    (selected : catalog.select selection = .ok family) (more : List Family) :
    (catalog.linkAll more).select selection = .ok family := by
  cases selection with
  | index place =>
    have found : catalog.families[place.toNat]? = some family := get_eq_ok_iff.mp selected
    refine get_eq_ok_iff.mpr ?_
    rw [families_linkAll, List.getElem?_append_left (List.getElem?_eq_some_iff.mp found).1, found]
  | name name =>
    obtain ⟨position, first⟩ := find_eq_ok_iff.mp selected
    refine find_eq_ok_iff.mpr ⟨position, ?_⟩
    rw [families_linkAll]
    exact first.append more

theorem instantiate_of_select {catalog : Catalog} {selection : Selection}
    (selected : catalog.select selection = .ok family) (args : Option String) :
    catalog.instantiate selection args = family.build args := by
  simp only [instantiate, selected, bind, Except.bind]
  cases args <;> rfl

/-- Any families can be linked, and names may be repeated. The catalog holds them in the order of the
links; a name finds the first family of that name and a position what was linked there; and every
other name or position is refused. Selecting by a name that is found builds what selecting by the
position of its first link does, and further links change neither. -/
theorem lookup_linkAll (links : List Family) :
    let catalog := empty.linkAll links
    catalog.families = links ∧ catalog.names = links.map (·.name) ∧
    (∀ name family, catalog.find name = .ok family ↔
      ∃ position, IsFirst links name position family) ∧
    (∀ name fault, catalog.find name = .error fault ↔
      fault = .unknownFamily name ∧ ∀ family ∈ links, family.name ≠ name) ∧
    (∀ index family, catalog.get index = .ok family ↔ links[index]? = some family) ∧
    (∀ index fault, catalog.get index = .error fault ↔
      fault = .familyOutOfRange index links.length ∧ links.length ≤ index) ∧
    ∀ name family (place : UInt64), IsFirst links name place.toNat family → ∀ args more,
      ∀ known ∈ [catalog, catalog.linkAll more],
        known.instantiate (.name name) args = family.build args ∧
        known.instantiate (.index place) args = family.build args := by
  intro catalog
  have families : catalog.families = links := by
    rw [families_linkAll]
    exact List.nil_append links
  refine ⟨families, by rw [names, families], ?_, ?_, ?_, ?_, ?_⟩
  · intro name family
    rw [find_eq_ok_iff, families]
  · intro name fault
    rw [find_eq_error_iff, families]
  · intro index family
    rw [get_eq_ok_iff, families]
  · intro index fault
    rw [get_eq_error_iff, families]
  · intro name family place first args more known among
    have by_name : catalog.select (.name name) = .ok family :=
      find_eq_ok_iff.mpr ⟨_, families.symm ▸ first⟩
    have by_place : catalog.select (.index place) = .ok family :=
      get_eq_ok_iff.mpr (families.symm ▸ first.found)
    rcases List.mem_cons.mp among with rfl | grown
    · exact ⟨instantiate_of_select by_name args, instantiate_of_select by_place args⟩
    · obtain rfl := List.mem_singleton.mp grown
      exact ⟨instantiate_of_select (select_linkAll by_name more) args,
        instantiate_of_select (select_linkAll by_place more) args⟩

/-- Trees under another name, with another standard tree. -/
def treesAs (name : String) (standard : AndTree) : Family :=
  { AndTree.family with
    name
    standard := standard.specimen }

/-- Two families of one name stand behind another family, and a third one is linked later. -/
theorem lookup_linkAll_of_repeated :
    let narrow := treesAs "chain" { width := ⟨2, by decide⟩, depth := 0 }
    let wide := treesAs "chain" { width := ⟨64, by decide⟩, depth := 8 }
    let links := [AndTree.family, narrow, wide]
    let catalog := empty.linkAll links
    IsFirst links "chain" 1 narrow ∧
    ∀ args, ∀ known ∈ [catalog, catalog.linkAll [wide]],
      known.instantiate (.name "chain") args = narrow.build args ∧
      known.instantiate (.index 1) args = narrow.build args := by
  intro narrow wide links catalog
  have first : IsFirst links "chain" 1 narrow := by
    refine ⟨rfl, rfl, fun earlier before other found => ?_⟩
    obtain rfl : earlier = 0 := Nat.lt_one_iff.mp before
    cases found
    decide
  exact ⟨first, fun args => (lookup_linkAll links).2.2.2.2.2.2 _ _ 1 first args _⟩

end Catalog
end GoldenCircuit
