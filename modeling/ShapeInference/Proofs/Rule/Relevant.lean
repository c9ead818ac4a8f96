import ShapeInference.Proofs.Descriptor.Union
import ShapeInference.Proofs.Rule.Parts

/-!
# The rules that matter

One strategy wins for a field that is present; `default` and `optional` decide about a field left
out. All other rules of a declaration are as good as absent, and so is what a catalog says about
names that the declaration does not use or that are reserved.

Main statements: `Rulebook.fieldType_of_narrows` and `Rulebook.fieldType_relevant`.

## Implementation notes

`Narrows` compares two declarations under two rulebooks. It is kept when the same names are erased
from both, which is how strategies go on, and the field types are compared for ever more rules:
builtin ones alone, without those about absence, and all.
-/

namespace ShapeInference

namespace OrderedMap

variable {α : Type}

/-- The map with some names only. -/
def keepAll (map : OrderedMap α) (names : List String) : OrderedMap α :=
  ⟨map.entries.filter fun entry => names.contains entry.1,
    map.distinct.sublist (List.filter_sublist.map Prod.fst)⟩

theorem get?_keepAll (map : OrderedMap α) (names : List String) (name : String) :
    (map.keepAll names).get? name = if name ∈ names then map.get? name else none := by
  rw [get?, keepAll, Bindings.get?_filter names.contains]
  by_cases h : name ∈ names <;> simp [h, get?]

end OrderedMap

/-! ## Relevant rules -/

/-- The names whose meaning no catalog decides. -/
def RuleName.reserved : List String :=
  absence ++ [customSanitizer, custom, isIn] ++ array

namespace Declaration

/-- The rules of one role in a catalog, but for the reserved names. -/
def namesInRole (declaration : Declaration) (catalog : Catalog) (role : RuleRole) : List String :=
  declaration.names.filter fun name =>
    !RuleName.reserved.contains name && (catalog.get? name).any fun b => b.role = role

/-- The sanitizers if there are any, the validators otherwise. -/
def builtinNames (declaration : Declaration) (catalog : Catalog) : List String :=
  match declaration.namesInRole catalog .sanitizer with
  | [] => declaration.namesInRole catalog .validator
  | names => names

/-- The rules of the strategy that decides about a field which is present. -/
def winningNames (declaration : Declaration) (catalog : Catalog) : List String :=
  if declaration.has RuleName.customSanitizer = true then [RuleName.customSanitizer]
  else if declaration.has RuleName.custom = true then [RuleName.custom]
  else if declaration.has RuleName.isIn = true then [RuleName.isIn]
  else if declaration.hasSome RuleName.array = true then
    RuleName.array ++ declaration.builtinNames catalog
  else declaration.builtinNames catalog

/-- Whether `default` says which value is given to a field left out. -/
def hasGivenDefault (declaration : Declaration) : Bool :=
  ((declaration.get? RuleName.default).bind (·.member? "options")).isSome

/-- The rules that decide about the type of a field. -/
def relevantNames (declaration : Declaration) (catalog : Catalog) : List String :=
  if declaration.hasGivenDefault = true then [RuleName.default]
  else RuleName.absence ++ declaration.winningNames catalog

/-- The part of a declaration that decides about the type of a field. -/
def relevant (declaration : Declaration) (catalog : Catalog) : Declaration :=
  declaration.keepAll (declaration.relevantNames catalog)

theorem hasGivenDefault_of_ok {declaration : Declaration} {given : Option Json}
    (h : declaration.givenDefault? = .ok given) : declaration.hasGivenDefault = given.isSome := by
  rw [givenDefault?] at h
  rw [hasGivenDefault]
  split at h
  · rename_i hnone
    obtain rfl := Except.ok.inj h
    rw [hnone]
    rfl
  · rename_i payload hpayload
    obtain rfl := Except.ok.inj h
    rw [hpayload]
    rfl
  · contradiction

theorem exists_given {declaration : Declaration} (h : declaration.hasGivenDefault = true) :
    ∃ value, declaration.givenDefault? = .ok (some value) := by
  rw [hasGivenDefault, Option.isSome_iff_exists] at h
  obtain ⟨value, h⟩ := h
  obtain ⟨payload, hpayload, hvalue⟩ := Option.bind_eq_some_iff.mp h
  refine ⟨value, ?_⟩
  cases payload with
  | object members =>
      rw [givenDefault?, hpayload]
      exact congrArg Except.ok hvalue
  | _ => contradiction

theorem mem_namesInRole {declaration : Declaration} {catalog : Catalog} {role : RuleRole}
    {name : String} :
    name ∈ declaration.namesInRole catalog role ↔
      name ∈ declaration.names ∧ name ∉ RuleName.reserved ∧
        ∃ behaviour, catalog.get? name = some behaviour ∧ behaviour.role = role := by
  simp [namesInRole, Option.any_eq_true]

theorem isSome_get?_of_mem_builtinNames {declaration : Declaration} {catalog : Catalog}
    {name : String} (h : name ∈ declaration.builtinNames catalog) :
    (catalog.get? name).isSome = true := by
  have hrole : ∃ role, name ∈ declaration.namesInRole catalog role := by
    rw [builtinNames] at h
    split at h
    · exact ⟨_, h⟩
    · exact ⟨_, h⟩
  obtain ⟨role, hmem⟩ := hrole
  obtain ⟨-, -, behaviour, hget, -⟩ := mem_namesInRole.mp hmem
  rw [hget]
  rfl

/-- Only rules that are reserved or in the catalog are relevant. -/
theorem reserved_or_known_of_mem_relevantNames {declaration : Declaration} {catalog : Catalog}
    {name : String} (h : name ∈ declaration.relevantNames catalog) :
    name ∈ RuleName.reserved ∨ (catalog.get? name).isSome = true := by
  have hwinning : ∀ other ∈ declaration.winningNames catalog,
      other ∈ RuleName.reserved ∨ (catalog.get? other).isSome = true := by
    intro other hother
    rw [winningNames] at hother
    split_ifs at hother
    case pos | pos | pos =>
      obtain rfl := List.mem_singleton.mp hother
      exact .inl (by decide)
    case pos =>
      rcases List.mem_append.mp hother with harray | hbuiltin
      · exact .inl (List.mem_append_right _ harray)
      · exact .inr (isSome_get?_of_mem_builtinNames hbuiltin)
    case neg => exact .inr (isSome_get?_of_mem_builtinNames hother)
  rw [relevantNames] at h
  split_ifs at h
  · obtain rfl := List.mem_singleton.mp h
    exact .inl (by decide)
  · rcases List.mem_append.mp h with habsence | hmem
    · exact .inl (List.mem_append_left _ (List.mem_append_left _ habsence))
    · exact hwinning name hmem

/-- The sanitizers of a declaration are always among the built-in rules that decide its type. -/
theorem sanitizers_subset_builtinNames (declaration : Declaration) (catalog : Catalog) :
    declaration.namesInRole catalog .sanitizer ⊆ declaration.builtinNames catalog := by
  rw [builtinNames]
  split
  · rename_i h
    rw [h]
    exact List.nil_subset _
  · exact List.Subset.refl _

end Declaration

theorem Catalog.mem_inRole {catalog : Catalog} {role : RuleRole} {names : List String}
    {entry : String × Behaviour} :
    entry ∈ catalog.inRole role names ↔
      entry.1 ∈ names ∧ catalog.get? entry.1 = some entry.2 ∧ entry.2.role = role := by
  obtain ⟨name, behaviour⟩ := entry
  rw [inRole, List.mem_filterMap]
  constructor
  · rintro ⟨other, hmem, h⟩
    split at h
    · rename_i found hfound
      by_cases hrole : found.role = role
      · rw [if_pos hrole] at h
        obtain ⟨rfl, rfl⟩ := Prod.mk.inj (Option.some.inj h)
        exact ⟨hmem, hfound, hrole⟩
      · rw [if_neg hrole] at h
        contradiction
    · contradiction
  · rintro ⟨hmem, hget, hrole⟩
    refine ⟨name, hmem, ?_⟩
    rw [hget]
    exact if_pos hrole

namespace Declaration

/-- Without a sanitizer the validators decide. -/
theorem builtinNames_of_no_sanitizer {declaration : Declaration} {catalog : Catalog}
    (h : catalog.inRole .sanitizer declaration.names = []) :
    declaration.builtinNames catalog = declaration.namesInRole catalog .validator := by
  have hnone : declaration.namesInRole catalog .sanitizer = [] := by
    rw [List.eq_nil_iff_forall_not_mem]
    intro name hname
    obtain ⟨hmem, -, behaviour, hget, hrole⟩ := mem_namesInRole.mp hname
    have hentry : (name, behaviour) ∈ catalog.inRole .sanitizer declaration.names :=
      Catalog.mem_inRole.mpr ⟨hmem, hget, hrole⟩
    rw [h] at hentry
    contradiction
  rw [builtinNames, hnone]

/-- Reserved names are none of the builtin ones. -/
theorem namesInRole_eraseAll {erased : List String} (h : erased ⊆ RuleName.reserved)
    (declaration : Declaration) (catalog : Catalog) (role : RuleRole) :
    namesInRole (declaration.eraseAll erased) catalog role =
      declaration.namesInRole catalog role := by
  rw [namesInRole, namesInRole, OrderedMap.names, OrderedMap.names, OrderedMap.eraseAll,
    Bindings.names, Bindings.names, List.filter_map, List.filter_map, List.filter_filter]
  congr 1
  apply List.filter_congr
  intro entry _
  by_cases hmem : entry.1 ∈ erased
  · simp [h hmem]
  · simp [hmem]

/-- Erasing reserved rules changes nothing about the built-in rules that decide. -/
theorem builtinNames_eraseAll {erased : List String} (h : erased ⊆ RuleName.reserved)
    (declaration : Declaration) (catalog : Catalog) :
    builtinNames (declaration.eraseAll erased) catalog = declaration.builtinNames catalog := by
  rw [builtinNames, builtinNames, namesInRole_eraseAll h, namesInRole_eraseAll h]

theorem winningNames_eraseAll_absence (declaration : Declaration) (catalog : Catalog) :
    winningNames (declaration.eraseAll RuleName.absence) catalog =
      declaration.winningNames catalog := by
  have hhas : ∀ name ∉ RuleName.absence,
      (declaration.eraseAll RuleName.absence).has name = declaration.has name := by
    intro name hname
    rw [OrderedMap.has_eraseAll, if_neg hname]
  have hsome : (declaration.eraseAll RuleName.absence).hasSome RuleName.array =
      declaration.hasSome RuleName.array := by
    simp [OrderedMap.hasSome, RuleName.array, hhas RuleName.isArray (by decide),
      hhas RuleName.toArray (by decide)]
  rw [winningNames, winningNames, hhas _ (by decide), hhas _ (by decide), hhas _ (by decide),
    hsome, builtinNames_eraseAll (by decide)]

end Declaration

/-! ## Declarations with fewer rules -/

/-- One declaration has no rules beyond those of another, and the same on some names; on the rules
of the other that are not reserved, the catalogs agree. -/
structure Narrows (rules' rules : Rulebook) (other declaration : Declaration)
    (names : List String) : Prop where
  fewer : ∀ name, other.has name = true → declaration.has name = true
  same : ∀ name ∈ names, other.get? name = declaration.get? name
  catalog : ∀ name ∈ declaration.names, name ∉ RuleName.reserved →
    rules'.catalog.get? name = rules.catalog.get? name
  widen : rules'.widenNested = rules.widenNested

namespace Narrows

variable {rules' rules : Rulebook} {other declaration : Declaration} {names : List String}

theorem has_eq (h : Narrows rules' rules other declaration names) {name : String}
    (hname : name ∈ names) : other.has name = declaration.has name := by
  rw [OrderedMap.has, OrderedMap.has, h.same name hname]

theorem has_eq_false (h : Narrows rules' rules other declaration names) {name : String}
    (hname : declaration.has name = false) : other.has name = false := by
  rw [Bool.eq_false_iff] at hname ⊢
  exact fun hother => hname (h.fewer name hother)

theorem hasSome_eq_false (h : Narrows rules' rules other declaration names) {some : List String}
    (hsome : declaration.hasSome some = false) : other.hasSome some = false := by
  rw [OrderedMap.hasSome_eq_false_iff] at hsome ⊢
  exact fun name hname => h.has_eq_false (hsome name hname)

/-- A narrowed declaration has one of the names it keeps exactly if the wider one has. -/
theorem hasSome_eq (h : Narrows rules' rules other declaration names) {some : List String}
    (hsome : some ⊆ names) : other.hasSome some = declaration.hasSome some := by
  rw [OrderedMap.hasSome, OrderedMap.hasSome, Bool.eq_iff_iff, List.any_eq_true, List.any_eq_true]
  exact exists_congr fun name => and_congr_right fun hname => by rw [h.has_eq (hsome hname)]

theorem mono {fewer : List String} (h : Narrows rules' rules other declaration names)
    (hfewer : fewer ⊆ names) : Narrows rules' rules other declaration fewer where
  fewer := h.fewer
  same name hname := h.same name (hfewer hname)
  catalog := h.catalog
  widen := h.widen

theorem eraseAll (h : Narrows rules' rules other declaration names) (erased : List String) :
    Narrows rules' rules (other.eraseAll erased) (declaration.eraseAll erased) names where
  fewer name hname := by
    rw [OrderedMap.has_eraseAll] at hname ⊢
    by_cases hmem : name ∈ erased
    · rw [if_pos hmem] at hname
      contradiction
    · rw [if_neg hmem] at hname ⊢
      exact h.fewer name hname
  same name hname := by
    rw [OrderedMap.get?_eraseAll, OrderedMap.get?_eraseAll, h.same name hname]
  catalog name hname := by
    rw [← OrderedMap.has_iff_mem_names, OrderedMap.has_eraseAll] at hname
    by_cases hmem : name ∈ erased
    · rw [if_pos hmem] at hname
      contradiction
    · rw [if_neg hmem] at hname
      exact h.catalog name (OrderedMap.has_iff_mem_names.mp hname)
  widen := h.widen

/-! Three ways to have fewer rules, or the same with other payloads -/

/-- The relevant rules of a declaration narrow it to their names. -/
theorem of_relevant (rules : Rulebook) (declaration : Declaration) :
    Narrows rules rules (declaration.relevant rules.catalog) declaration
      (declaration.relevantNames rules.catalog) where
  fewer name h := by
    rw [Declaration.relevant, OrderedMap.has, OrderedMap.get?_keepAll] at h
    split at h
    · exact h
    · contradiction
  same name hname := by
    rw [Declaration.relevant, OrderedMap.get?_keepAll, if_pos hname]
  catalog _ _ _ := rfl
  widen := rfl

theorem of_eraseAll (rules : Rulebook) (declaration : Declaration) {erased : List String}
    (hnames : ∀ name ∈ erased, name ∉ names) :
    Narrows rules rules (declaration.eraseAll erased) declaration names where
  fewer name h := by
    rw [OrderedMap.has_eraseAll] at h
    split at h
    · contradiction
    · exact h
  same name hname := by
    rw [OrderedMap.get?_eraseAll, if_neg fun hmem => hnames name hmem hname]
  catalog _ _ _ := rfl
  widen := rfl

/-- A declaration narrows itself with one more rule, on all names but that one. -/
theorem of_insert (rules : Rulebook) (declaration : Declaration) {name : String} (payload : Json)
    (hname : name ∉ names) :
    Narrows rules rules declaration (declaration.insert name payload) names where
  fewer other h := by
    rw [OrderedMap.has, OrderedMap.get?_insert]
    split
    · rfl
    · exact h
  same other hother := by
    rw [OrderedMap.get?_insert, if_neg]
    rintro rfl
    exact hname hother
  catalog _ _ _ := rfl
  widen := rfl

/-- Without reserved rules, the same builtin rules of a role are found. -/
theorem mem_inRole_iff {role : RuleRole}
    (h : Narrows rules' rules other declaration (declaration.namesInRole rules.catalog role))
    (hnone : ∀ name ∈ RuleName.reserved, declaration.has name = false)
    (entry : String × Behaviour) :
    entry ∈ rules'.catalog.inRole role other.names ↔
      entry ∈ rules.catalog.inRole role declaration.names := by
  have hfree : ∀ name ∈ declaration.names, name ∉ RuleName.reserved := by
    intro name hname hreserved
    rw [← OrderedMap.has_iff_mem_names, hnone name hreserved] at hname
    contradiction
  rw [Catalog.mem_inRole, Catalog.mem_inRole]
  constructor
  · rintro ⟨hname, hget, hrole⟩
    have hmem := OrderedMap.has_iff_mem_names.mp
      (h.fewer entry.1 (OrderedMap.has_iff_mem_names.mpr hname))
    exact ⟨hmem, h.catalog entry.1 hmem (hfree _ hmem) ▸ hget, hrole⟩
  · rintro ⟨hname, hget, hrole⟩
    have hsame := h.has_eq (Declaration.mem_namesInRole.mpr
      ⟨hname, hfree _ hname, entry.2, hget, hrole⟩)
    refine ⟨?_, (h.catalog entry.1 hname (hfree _ hname)).trans hget, hrole⟩
    rw [← OrderedMap.has_iff_mem_names, hsame, OrderedMap.has_iff_mem_names]
    exact hname

end Narrows

/-! ## Types of fields -/

namespace Rulebook

open Declaration

variable {rules' rules : Rulebook} {other declaration : Declaration}

/-- The built-in type depends only on which catalog entries of the role are declared. -/
theorem builtinType_congr {role : RuleRole}
    (h : ∀ entry, entry ∈ rules'.catalog.inRole role other.names ↔
      entry ∈ rules.catalog.inRole role declaration.names) (widen : Bool) :
    rules'.builtinType role widen other = rules.builtinType role widen declaration :=
  Descriptor.unionOf_congr fun d => by rw [List.mem_map, List.mem_map]; simp only [h]

/-- Without reserved rules, only the builtin ones of the stronger role matter. -/
theorem fieldType_of_narrows_builtin
    (h : Narrows rules' rules other declaration (declaration.builtinNames rules.catalog))
    (hnone : ∀ name ∈ RuleName.reserved, declaration.has name = false) (position : Position) :
    rules'.fieldType other position = rules.fieldType declaration position := by
  have hsanitizers := (h.mono (declaration.sanitizers_subset_builtinNames _)).mem_inRole_iff hnone
  have hfree : ∀ name ∈ RuleName.reserved, other.has name = false :=
    fun name hname => h.has_eq_false (hnone name hname)
  have hstrategy : ∀ {d : Declaration} {catalog : Catalog},
      (∀ name ∈ RuleName.reserved, d.has name = false) →
        d.strategy catalog =
          if catalog.inRole .sanitizer d.names = [] then
            if catalog.inRole .validator d.names = [] then .none else .builtinValidator
          else .builtinSanitizer := by
    intro d catalog hd
    simp [RuleName.reserved, RuleName.absence, RuleName.array] at hd
    simp [strategy_eq, OrderedMap.hasSome, RuleName.absence, RuleName.array, hd]
  have hempty : rules'.catalog.inRole .sanitizer other.names = [] ↔
      rules.catalog.inRole .sanitizer declaration.names = [] := by
    simp only [List.eq_nil_iff_forall_not_mem, hsanitizers]
  rw [fieldType_eq, fieldType_eq rules, hstrategy hnone, hstrategy hfree]
  by_cases hs : rules.catalog.inRole .sanitizer declaration.names = []
  · rw [builtinNames_of_no_sanitizer hs] at h
    have hvalidators := h.mem_inRole_iff hnone
    have hempty' : rules'.catalog.inRole .validator other.names = [] ↔
        rules.catalog.inRole .validator declaration.names = [] := by
      simp only [List.eq_nil_iff_forall_not_mem, hvalidators]
    have hwidens : rules'.widens position = rules.widens position := by
      cases position <;> first | rfl | exact h.widen
    rw [if_pos hs, if_pos (hempty.mpr hs)]
    by_cases hv : rules.catalog.inRole .validator declaration.names = []
    · rw [if_pos hv, if_pos (hempty'.mpr hv)]
    · rw [if_neg hv, if_neg (hempty'.not.mpr hv)]
      simp only [hwidens, builtinType_congr hvalidators]
  · rw [if_neg hs, if_neg (hempty.not.mpr hs)]
    simp only [builtinType_congr hsanitizers]

/-- Where `isArray` or `toArray` wins, only the two and the builtin rules matter. -/
theorem fieldType_of_narrows_array
    (h : Narrows rules' rules other declaration
      (RuleName.array ++ declaration.builtinNames rules.catalog))
    (hnone : ∀ name ∈ RuleName.reserved, name ∉ RuleName.array → declaration.has name = false)
    (harray : declaration.hasSome RuleName.array = true) (position : Position) :
    rules'.fieldType other position = rules.fieldType declaration position := by
  have hstrategy : ∀ {d : Declaration} {catalog : Catalog},
      (∀ name ∈ RuleName.reserved, name ∉ RuleName.array → d.has name = false) →
        d.hasSome RuleName.array = true → d.strategy catalog = .arrayWrapper := by
    intro d catalog hd hsome
    have habsence : d.hasSome RuleName.absence = false := by
      rw [OrderedMap.hasSome_eq_false_iff]
      exact fun name hname => hd name
        (List.mem_append_left _ (List.mem_append_left _ hname)) (by revert name; decide)
    simp [strategy_eq, habsence, hsome, hd RuleName.customSanitizer (by decide) (by decide),
      hd RuleName.custom (by decide) (by decide), hd RuleName.isIn (by decide) (by decide)]
  have hsame := (h.mono (List.subset_append_left _ _)).same
  have harray' : other.hasSome RuleName.array = true := by
    rw [h.hasSome_eq (List.subset_append_left _ _), harray]
  have hother : ∀ name ∈ RuleName.reserved, name ∉ RuleName.array → other.has name = false :=
    fun name hname hnot => h.has_eq_false (hnone name hname hnot)
  have hcheck : ∀ name ∈ RuleName.array,
      other.checkArrayPayload name = declaration.checkArrayPayload name := by
    intro name hname
    rw [checkArrayPayload, checkArrayPayload, hsame name hname]
  have hrest := (h.mono (List.subset_append_right _ _)).eraseAll RuleName.array
  rw [← builtinNames_eraseAll (show RuleName.array ⊆ RuleName.reserved by decide)] at hrest
  rw [fieldType_eq, fieldType_eq rules, hstrategy hnone harray, hstrategy hother harray']
  simp only [forM_congr hcheck]
  rw [fieldType_of_narrows_builtin hrest]
  intro name hname
  rw [OrderedMap.has_eraseAll]
  split
  · rfl
  · exact hnone name hname ‹_›

/-- Without rules about absence, only those of the winning strategy matter. -/
theorem fieldType_of_narrows_winning
    (h : Narrows rules' rules other declaration (declaration.winningNames rules.catalog))
    (hnone : declaration.hasSome RuleName.absence = false) (position : Position) :
    rules'.fieldType other position = rules.fieldType declaration position := by
  have hother := h.hasSome_eq_false hnone
  have hlacks : ∀ {name}, ¬ declaration.has name = true → other.has name = false :=
    fun hname => h.has_eq_false (Bool.eq_false_iff.mpr hname)
  by_cases hsanitizer : declaration.has RuleName.customSanitizer = true
  · rw [winningNames, if_pos hsanitizer] at h
    have hmem := List.mem_singleton_self RuleName.customSanitizer
    have hchosen : declaration.strategy rules.catalog = .customSanitizer := by
      simp [strategy_eq, hnone, hsanitizer]
    have hchosen' : other.strategy rules'.catalog = .customSanitizer := by
      simp [strategy_eq, hother, h.has_eq hmem, hsanitizer]
    rw [fieldType_eq, fieldType_eq rules, hchosen, hchosen']
    simp only [returnsHint, h.same _ hmem]
  by_cases hcustom : declaration.has RuleName.custom = true
  · rw [winningNames, if_neg hsanitizer, if_pos hcustom] at h
    have hmem := List.mem_singleton_self RuleName.custom
    have hchosen : declaration.strategy rules.catalog = .customValidator := by
      simp [strategy_eq, hnone, hsanitizer, hcustom]
    have hchosen' : other.strategy rules'.catalog = .customValidator := by
      simp [strategy_eq, hother, hlacks hsanitizer, h.has_eq hmem, hcustom]
    rw [fieldType_eq, fieldType_eq rules, hchosen, hchosen']
    simp only [returnsHint, h.same _ hmem]
  by_cases hisIn : declaration.has RuleName.isIn = true
  · rw [winningNames, if_neg hsanitizer, if_neg hcustom, if_pos hisIn] at h
    have hmem := List.mem_singleton_self RuleName.isIn
    have hchosen : declaration.strategy rules.catalog = .enumeration := by
      simp [strategy_eq, hnone, hsanitizer, hcustom, hisIn]
    have hchosen' : other.strategy rules'.catalog = .enumeration := by
      simp [strategy_eq, hother, hlacks hsanitizer, hlacks hcustom, h.has_eq hmem, hisIn]
    rw [fieldType_eq, fieldType_eq rules, hchosen, hchosen']
    simp only [allowedValues, h.same _ hmem]
  have hfree : ∀ name ∈ RuleName.reserved, name ∉ RuleName.array →
      declaration.has name = false := by
    rw [OrderedMap.hasSome_eq_false_iff] at hnone
    intro name hname harray
    simp only [RuleName.reserved, List.mem_append, List.mem_cons, List.not_mem_nil, or_false,
      harray] at hname
    rcases hname with habsence | rfl | rfl | rfl
    · exact hnone name habsence
    · exact Bool.eq_false_iff.mpr hsanitizer
    · exact Bool.eq_false_iff.mpr hcustom
    · exact Bool.eq_false_iff.mpr hisIn
  by_cases harray : declaration.hasSome RuleName.array = true
  · rw [winningNames, if_neg hsanitizer, if_neg hcustom, if_neg hisIn, if_pos harray] at h
    exact fieldType_of_narrows_array h hfree harray position
  · rw [winningNames, if_neg hsanitizer, if_neg hcustom, if_neg hisIn, if_neg harray] at h
    apply fieldType_of_narrows_builtin h
    intro name hname
    by_cases hmem : name ∈ RuleName.array
    · exact OrderedMap.hasSome_eq_false_iff.mp (Bool.eq_false_iff.mpr harray) name hmem
    · exact hfree name hname hmem

/-- Only the relevant rules matter. -/
theorem fieldType_of_narrows
    (h : Narrows rules' rules other declaration (declaration.relevantNames rules.catalog))
    (position : Position) :
    rules'.fieldType other position = rules.fieldType declaration position := by
  by_cases hgiven : declaration.hasGivenDefault = true
  · rw [relevantNames, if_pos hgiven] at h
    have hmem := List.mem_singleton_self RuleName.default
    obtain ⟨value, hvalue⟩ := exists_given hgiven
    have hvalue' : other.givenDefault? = .ok (some value) := by
      rw [← hvalue, givenDefault?, givenDefault?, h.same _ hmem]
    have hhas : declaration.has RuleName.default = true := Option.isSome_of_isSome_bind hgiven
    have hchosen : declaration.strategy rules.catalog = .defaultOrOptional := by
      simp [strategy_eq, OrderedMap.hasSome, RuleName.absence, hhas]
    have hchosen' : other.strategy rules'.catalog = .defaultOrOptional := by
      simp [strategy_eq, OrderedMap.hasSome, RuleName.absence, h.has_eq hmem, hhas]
    rw [fieldType_eq, fieldType_eq rules, hchosen, hchosen', hvalue, hvalue']
    rfl
  rw [relevantNames, if_neg hgiven] at h
  have hsame := (h.mono (List.subset_append_left _ _)).same
  have hdefault : other.givenDefault? = declaration.givenDefault? := by
    rw [givenDefault?, givenDefault?, hsame _ (by decide)]
  have habsence : other.declaredAbsence = declaration.declaredAbsence := by
    rw [declaredAbsence, declaredAbsence, h.hasSome_eq (List.subset_append_left _ _), absence,
      absence, hsame _ (by decide)]
  have hrest := (h.mono (List.subset_append_right _ _)).eraseAll RuleName.absence
  rw [← winningNames_eraseAll_absence] at hrest
  have hpresent : rules'.presentType other position = rules.presentType declaration position := by
    rw [presentType, presentType,
      fieldType_of_narrows_winning hrest (declaration.hasSome_eraseAll _)]
  rw [fieldType_eq_parts, fieldType_eq_parts rules, hdefault, habsence, hpresent]

/-- The relevant rules alone give the same type, or have the same fault. Rules that are not
relevant may be left out or take any payload, unknown ones among them, and the catalog may say
anything about names that are not used or are reserved. -/
theorem fieldType_relevant (rules : Rulebook) (declaration : Declaration) (position : Position) :
    rules.fieldType (declaration.relevant rules.catalog) position =
        rules.fieldType declaration position ∧
      (∀ names, (∀ name ∈ names, name ∉ declaration.relevantNames rules.catalog) →
        rules.fieldType (declaration.eraseAll names) position =
          rules.fieldType declaration position) ∧
      (∀ name payload, name ∉ relevantNames (declaration.insert name payload) rules.catalog →
        rules.fieldType (declaration.insert name payload) position =
          rules.fieldType declaration position) ∧
      (∀ name payload, name ∉ RuleName.reserved → rules.catalog.get? name = none →
        rules.fieldType (declaration.insert name payload) position =
          rules.fieldType declaration position) ∧
      ∀ catalog : Catalog,
        (∀ name ∈ declaration.names, name ∉ RuleName.reserved →
          catalog.get? name = rules.catalog.get? name) →
        fieldType ⟨catalog, rules.widenNested⟩ declaration position =
          rules.fieldType declaration position := by
  have hinsert : ∀ name payload,
      name ∉ relevantNames (declaration.insert name payload) rules.catalog →
        rules.fieldType (declaration.insert name payload) position =
          rules.fieldType declaration position :=
    fun name payload hname =>
      (fieldType_of_narrows (.of_insert rules declaration payload hname) position).symm
  refine ⟨fieldType_of_narrows (.of_relevant rules declaration) position, fun names hnames => ?_,
    hinsert, fun name payload hreserved hunknown => ?_, fun catalog hcatalog => ?_⟩
  · exact fieldType_of_narrows (.of_eraseAll rules declaration hnames) position
  · apply hinsert
    intro hmem
    rcases reserved_or_known_of_mem_relevantNames hmem with hname | hknown
    · exact hreserved hname
    · rw [hunknown] at hknown
      contradiction
  · have hnarrows : Narrows ⟨catalog, rules.widenNested⟩ rules declaration declaration
        (declaration.relevantNames rules.catalog) :=
      ⟨fun _ h => h, fun _ _ => rfl, hcatalog, rfl⟩
    exact fieldType_of_narrows hnarrows position

theorem fieldType_relevant_beside_faults :
    let declaration : Declaration :=
      .ofList [("isInt", .null), (RuleName.isIn, .null), (RuleName.custom, .object []),
        (RuleName.optional, .bool true)]
    let catalog : Catalog := Catalog.builtin.insert RuleName.custom ⟨.sanitizer, .date⟩
    builtin.fieldType (declaration.eraseAll ["isInt", RuleName.isIn]) .top =
        builtin.fieldType declaration .top ∧
      builtin.fieldType (declaration.insert RuleName.toArray .null) .top =
        builtin.fieldType declaration .top ∧
      builtin.fieldType (declaration.insert "isint" .null) .top =
        builtin.fieldType declaration .top ∧
      fieldType ⟨catalog, false⟩ declaration .top = builtin.fieldType declaration .top := by
  intro declaration catalog
  obtain ⟨-, herase, hinsert, hunknown, hcatalog⟩ := fieldType_relevant builtin declaration .top
  have hshadow : ∀ name ∈ declaration.names, name ∉ RuleName.reserved →
      catalog.get? name = builtin.catalog.get? name := by decide +kernel
  exact ⟨herase _ (by decide +kernel), hinsert _ _ (by decide +kernel),
    hunknown _ _ (by decide +kernel) (by decide +kernel), hcatalog catalog hshadow⟩

end Rulebook

end ShapeInference
