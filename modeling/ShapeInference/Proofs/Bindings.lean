import Mathlib.Data.List.Induction
import Mathlib.Data.List.Nodup
import Mathlib.Data.String.Basic
import ShapeInference.OrderedMap
import ShapeInference.Proofs.Outcome

/-!
# Sorted bindings

Bindings in strictly increasing order of names behave as finite maps: they are equal as soon as
they answer every name alike.

Main statements: `Bindings.Sorted.ext`, `Bindings.get?_sortedOfPairs`, which says what is found
among pairs bound one after another, `Bindings.sortedOfPairs_eq_iff` and
`Bindings.ofPairs_eq_self_iff`.
-/

namespace ShapeInference.Bindings

variable {α : Type}

/-! ## What is found under a name -/

@[simp] theorem names_nil : names ([] : Bindings α) = [] := rfl

@[simp] theorem names_cons (binding : String × α) (rest : Bindings α) :
    names (binding :: rest) = binding.1 :: names rest := rfl

theorem get?_cons (key : String) (value : α) (rest : Bindings α) (name : String) :
    get? ((key, value) :: rest) name = if key = name then some value else get? rest name := rfl

/-- Bindings of different names may change places. -/
theorem get?_swap {a b : String × α} (distinct : a.1 ≠ b.1) (rest : Bindings α) (name : String) :
    get? (a :: b :: rest) name = get? (b :: a :: rest) name := by
  rw [get?_cons, get?_cons, get?_cons, get?_cons]
  by_cases h : a.1 = name
  · rw [if_pos h, if_neg (h ▸ distinct.symm), if_pos h]
  · rw [if_neg h, if_neg h]

/-- A name is looked up in the first part before the second. -/
theorem get?_append (bindings more : Bindings α) (name : String) :
    get? (bindings ++ more) name = (get? bindings name).or (get? more name) := by
  induction bindings with
  | nil => rfl
  | cons b rest ih =>
      obtain ⟨key, value⟩ := b
      by_cases h : key = name
      · simp [get?, h]
      · simp [get?, h, ih]

theorem get?_eq_none_iff {bindings : Bindings α} {name : String} :
    get? bindings name = none ↔ name ∉ bindings.names := by
  induction bindings with
  | nil => simp [get?]
  | cons b rest ih =>
      obtain ⟨key, value⟩ := b
      by_cases h : key = name
      · simp [get?, h]
      · simp [get?, h, ih, Ne.symm h]

theorem isSome_get?_iff {bindings : Bindings α} {name : String} :
    (get? bindings name).isSome ↔ name ∈ bindings.names := by
  rw [← not_iff_not, ← get?_eq_none_iff]
  simp

theorem isSome_get?_reverse_iff {bindings : Bindings α} {name : String} :
    (get? bindings.reverse name).isSome ↔ name ∈ bindings.names := by
  rw [isSome_get?_iff, names, List.map_reverse, List.mem_reverse, names]

theorem mem_of_get?_eq_some {bindings : Bindings α} {name : String} {value : α}
    (h : get? bindings name = some value) : (name, value) ∈ bindings := by
  induction bindings with
  | nil => simp [get?] at h
  | cons b rest ih =>
      obtain ⟨key, old⟩ := b
      by_cases hk : key = name
      · simp only [get?, hk, if_true, Option.some.injEq] at h
        simp [hk, h]
      · simp only [get?, hk, if_false] at h
        exact List.mem_cons_of_mem _ (ih h)

theorem get?_eq_some_of_mem {bindings : Bindings α} (distinct : bindings.names.Nodup)
    {name : String} {value : α} (h : (name, value) ∈ bindings) :
    get? bindings name = some value := by
  induction bindings with
  | nil => simp at h
  | cons b rest ih =>
      obtain ⟨key, old⟩ := b
      obtain ⟨hnot, hrest⟩ := List.nodup_cons.mp distinct
      rcases List.mem_cons.mp h with heq | hmem
      · obtain ⟨rfl, rfl⟩ := Prod.mk.inj heq
        simp [get?]
      · have hne : key ≠ name := by
          rintro rfl
          exact hnot (List.mem_map.mpr ⟨(key, value), hmem, rfl⟩)
        simp [get?, hne, ih hrest hmem]

theorem get?_eq_some_iff {bindings : Bindings α} (distinct : bindings.names.Nodup)
    {name : String} {value : α} :
    get? bindings name = some value ↔ (name, value) ∈ bindings :=
  ⟨mem_of_get?_eq_some, get?_eq_some_of_mem distinct⟩

/-- With distinct names the order of the bindings does not matter to a lookup. -/
theorem get?_reverse {bindings : Bindings α} (distinct : bindings.names.Nodup) (name : String) :
    get? bindings.reverse name = get? bindings name := by
  have hrev : (names bindings.reverse).Nodup := by
    simpa only [names, List.map_reverse] using (List.reverse_perm _).nodup_iff.mpr distinct
  apply Option.ext
  intro value
  rw [get?_eq_some_iff hrev, get?_eq_some_iff distinct, List.mem_reverse]

theorem get?_map {β : Type} (f : String → α → β) (bindings : Bindings α) (name : String) :
    get? (bindings.map fun binding => (binding.1, f binding.1 binding.2)) name =
      (get? bindings name).map (f name) := by
  induction bindings with
  | nil => rfl
  | cons b rest ih =>
      obtain ⟨key, value⟩ := b
      rw [List.map_cons, get?_cons, get?_cons, ih]
      by_cases h : key = name
      · simp [h]
      · simp [h]

/-- Bindings are kept or dropped by their names. -/
theorem get?_filter (p : String → Bool) (bindings : Bindings α) (name : String) :
    get? (bindings.filter fun binding => p binding.1) name =
      if p name = true then get? bindings name else none := by
  induction bindings with
  | nil => simp [get?]
  | cons b rest ih =>
      obtain ⟨key, value⟩ := b
      rw [List.filter_cons, get?_cons]
      by_cases hkey : key = name
      · subst hkey
        by_cases hp : p key = true
        · rw [if_pos hp, get?_cons, if_pos rfl, if_pos hp, if_pos rfl]
        · rw [if_neg hp, ih, if_neg hp, if_neg hp]
      · rw [if_neg hkey, ← ih]
        split
        · rw [get?_cons, if_neg hkey]
        · rfl

/-- Where a test tells which binding something came from, it picks what came from one name. -/
theorem filter_flatMap_eq {β : Type} {bindings : Bindings α} (distinct : bindings.names.Nodup)
    {f : String × α → List β} {p : β → Bool} {name : String}
    (h : ∀ binding ∈ bindings, ∀ b ∈ f binding, p b = decide (binding.1 = name)) :
    (bindings.flatMap f).filter p =
      ((get? bindings name).map fun value => f (name, value)).getD [] := by
  induction bindings with
  | nil => rfl
  | cons binding rest ih =>
      obtain ⟨key, value⟩ := binding
      obtain ⟨hnot, hrest⟩ := List.nodup_cons.mp distinct
      obtain ⟨hhere, hthere⟩ := List.forall_mem_cons.mp h
      rw [List.flatMap_cons, List.filter_append, ih hrest hthere, get?_cons]
      by_cases heq : key = name
      · subst heq
        have hall : (f (key, value)).filter p = f (key, value) := by
          rw [List.filter_eq_self]
          intro b hb
          simpa using hhere b hb
        rw [hall, get?_eq_none_iff.mpr hnot, if_pos rfl]
        exact List.append_nil _
      · have hnone : (f (key, value)).filter p = [] := by
          rw [List.filter_eq_nil_iff]
          intro b hb
          simp [hhere b hb, heq]
        rw [hnone, if_neg heq, List.nil_append]

/-- Binding a name to what it is bound to already changes nothing. -/
theorem set_eq_self {bindings : Bindings α} {name : String} {value : α}
    (h : get? bindings name = some value) : set bindings name value = bindings := by
  induction bindings with
  | nil => simp [get?] at h
  | cons b rest ih =>
      obtain ⟨key, old⟩ := b
      by_cases hk : key = name
      · simp only [get?, hk, if_true, Option.some.injEq] at h
        simp [set, hk, h]
      · simp only [get?, hk, if_false] at h
        simp [set, hk, ih h]

/-- A name that is not bound yet comes last. -/
theorem set_of_not_mem {bindings : Bindings α} {name : String} (h : name ∉ bindings.names)
    (value : α) : set bindings name value = bindings ++ [(name, value)] := by
  induction bindings with
  | nil => rfl
  | cons binding rest ih =>
      rw [names_cons] at h
      obtain ⟨hne, hrest⟩ := List.ne_and_not_mem_of_not_mem_cons h
      rw [set, if_neg hne.symm, ih hrest]
      rfl

theorem eq_or_mem_of_mem_set {bindings : Bindings α} {name : String} {value : α}
    {binding : String × α} (h : binding ∈ set bindings name value) :
    binding = (name, value) ∨ binding ∈ bindings := by
  induction bindings with
  | nil => exact .inl (List.mem_singleton.mp h)
  | cons b rest ih =>
      obtain ⟨key, old⟩ := b
      by_cases hk : key = name
      · subst hk
        rw [set, if_pos rfl] at h
        exact (List.mem_cons.mp h).imp_right (List.mem_cons_of_mem _)
      · rw [set, if_neg hk] at h
        rcases List.mem_cons.mp h with rfl | hrest
        · exact .inr List.mem_cons_self
        · exact (ih hrest).imp_right (List.mem_cons_of_mem _)

theorem ofPairs_subset (pairs : List (String × α)) : ofPairs pairs ⊆ pairs := by
  induction pairs using List.reverseRecOn with
  | nil => exact List.Subset.refl _
  | append_singleton before pair ih =>
      intro binding hbinding
      rw [ofPairs, List.foldl_append] at hbinding
      rw [List.mem_append, List.mem_singleton]
      rcases eq_or_mem_of_mem_set hbinding with heq | hmem
      · exact .inr heq
      · exact .inl (ih hmem)

/-- A name takes its place when it is bound first. -/
theorem names_set_of_eraseDups {bindings : Bindings α} {names : List String}
    (h : bindings.names = names.eraseDups) (name : String) (value : α) :
    (set bindings name value).names = (names ++ [name]).eraseDups := by
  rw [names_set, h, List.eraseDups_append]
  by_cases hmem : name ∈ names
  · simp [hmem, List.removeAll]
  · simp [hmem, List.removeAll, List.eraseDups_cons]

/-! ## Pairs bound one after another -/

theorem ofPairs_append_singleton (before : List (String × α)) (pair : String × α) :
    ofPairs (before ++ [pair]) = set (ofPairs before) pair.1 pair.2 := by
  rw [ofPairs, List.foldl_append]
  rfl

/-- Each name stands where it was bound first. -/
theorem names_ofPairs (pairs : List (String × α)) :
    names (ofPairs pairs) = (names pairs).eraseDups := by
  induction pairs using List.reverseRecOn with
  | nil => rfl
  | append_singleton before pair ih =>
      rw [ofPairs_append_singleton, names_set_of_eraseDups ih, names, names, List.map_append]
      rfl

/-- Each name has the value that it was bound to last. -/
theorem get?_ofPairs (pairs : List (String × α)) (name : String) :
    get? (ofPairs pairs) name = get? pairs.reverse name := by
  induction pairs using List.reverseRecOn with
  | nil => rfl
  | append_singleton before pair ih =>
      rw [ofPairs_append_singleton, get?_set, ih, List.reverse_append, List.reverse_singleton,
        List.singleton_append, get?_cons]
      simp only [eq_comm]

theorem nodup_names_ofPairs (pairs : List (String × α)) : (names (ofPairs pairs)).Nodup := by
  induction pairs using List.reverseRecOn with
  | nil => exact List.nodup_nil
  | append_singleton before pair ih =>
      rw [ofPairs_append_singleton]
      exact nodup_names_set ih _ _

/-- Pairs stay as they are exactly if no name repeats. -/
theorem ofPairs_eq_self_iff {pairs : List (String × α)} :
    ofPairs pairs = pairs ↔ (names pairs).Nodup := by
  refine ⟨fun h => h ▸ nodup_names_ofPairs pairs, ?_⟩
  induction pairs using List.reverseRecOn with
  | nil => exact fun _ => rfl
  | append_singleton before pair ih =>
      intro h
      rw [names, List.map_append] at h
      obtain ⟨hbefore, -, hdisjoint⟩ := List.nodup_append'.mp h
      rw [ofPairs_append_singleton, ih hbefore]
      exact set_of_not_mem (fun hmem => hdisjoint hmem (List.mem_singleton_self _)) _

/-! ## Insertion in the order of the names -/

/-- A sorted insertion changes the lookup of its own name and of no other. -/
theorem get?_setSorted (bindings : Bindings α) (name other : String) (value : α) :
    (setSorted bindings name value).get? other =
      if other = name then some value else get? bindings other := by
  induction bindings with
  | nil => simp [setSorted, get?, eq_comm]
  | cons b rest ih =>
      obtain ⟨key, old⟩ := b
      simp only [setSorted]
      split
      · simp [get?, eq_comm]
      · split
        · rename_i hk
          subst hk
          by_cases ho : other = key
          · simp [get?, ho]
          · simp [get?, ho, Ne.symm ho]
        · rename_i hk
          by_cases ho : key = other
          · have hne : other ≠ name := fun e => hk (ho.trans e)
            simp [get?, ho, hne]
          · simp [get?, ho, ih]

theorem mem_names_setSorted {bindings : Bindings α} {name other : String} {value : α} :
    other ∈ names (setSorted bindings name value) ↔ other = name ∨ other ∈ bindings.names := by
  rw [← isSome_get?_iff, get?_setSorted, ← isSome_get?_iff]
  by_cases h : other = name <;> simp [h]

/-! ## Names bound all at once -/

/-- Reading a value for each name succeeds exactly if the result binds these names, in order, to
the values that were read. -/
theorem mapM_eq_some_iff {f : String → Option α} {names : List String} {bindings : Bindings α} :
    (names.mapM fun name => (f name).map (name, ·)) = some bindings ↔
      bindings.names = names ∧ ∀ binding ∈ bindings, f binding.1 = some binding.2 := by
  induction names generalizing bindings with
  | nil => cases bindings <;> simp
  | cons name rest ih =>
      rw [mapM_cons_eq_some_iff]
      constructor
      · rintro ⟨binding, hbinding, more, hmore, rfl⟩
        obtain ⟨value, hvalue, rfl⟩ := Option.map_eq_some_iff.mp hbinding
        obtain ⟨hnames, hall⟩ := ih.mp hmore
        exact ⟨congrArg (name :: ·) hnames, List.forall_mem_cons.mpr ⟨hvalue, hall⟩⟩
      · rintro ⟨hnames, hall⟩
        cases bindings with
        | nil => contradiction
        | cons binding more =>
            obtain ⟨hvalue, hmore⟩ := List.forall_mem_cons.mp hall
            obtain ⟨rfl, htail⟩ := List.cons.inj hnames
            exact ⟨binding, by rw [hvalue]; rfl, more, ih.mpr ⟨htail, hmore⟩, rfl⟩

/-! ## Order -/

/-- The names increase strictly. -/
def Sorted (bindings : Bindings α) : Prop :=
  bindings.names.Pairwise (· < ·)

instance (bindings : Bindings α) : Decidable (Sorted bindings) :=
  inferInstanceAs (Decidable (bindings.names.Pairwise (· < ·)))

theorem sorted_nil : Sorted ([] : Bindings α) := List.Pairwise.nil

theorem sorted_singleton (binding : String × α) : Sorted [binding] :=
  List.pairwise_singleton _ _

/-- Bindings are sorted exactly if the first name is below all others and the rest is sorted. -/
theorem sorted_cons {binding : String × α} {rest : Bindings α} :
    Sorted (binding :: rest) ↔ (∀ name ∈ rest.names, binding.1 < name) ∧ Sorted rest :=
  List.pairwise_cons

theorem Sorted.nodup {bindings : Bindings α} (h : Sorted bindings) : bindings.names.Nodup :=
  h.imp fun hlt => ne_of_lt hlt

theorem Sorted.get?_rest_eq_none {key : String} {value : α} {rest : Bindings α}
    (h : Sorted ((key, value) :: rest)) : get? rest key = none :=
  get?_eq_none_iff.mpr fun hmem => lt_irrefl _ ((sorted_cons.mp h).1 key hmem)

theorem Sorted.setSorted {bindings : Bindings α} (h : Sorted bindings) (name : String)
    (value : α) : Sorted (setSorted bindings name value) := by
  induction bindings with
  | nil => simp [Bindings.setSorted, Sorted]
  | cons b rest ih =>
      obtain ⟨key, old⟩ := b
      obtain ⟨hkey, hrest⟩ := sorted_cons.mp h
      simp only [Bindings.setSorted]
      split
      · rename_i hlt
        refine sorted_cons.mpr ⟨?_, h⟩
        intro other hother
        rcases List.mem_cons.mp hother with rfl | hmem
        · exact hlt
        · exact hlt.trans (hkey other hmem)
      · rename_i hge
        split
        · exact sorted_cons.mpr ⟨hkey, hrest⟩
        · rename_i hne
          refine sorted_cons.mpr ⟨?_, ih hrest⟩
          intro other hother
          rcases mem_names_setSorted.mp hother with rfl | hmem
          · exact lt_of_le_of_ne (not_lt.mp hge) hne
          · exact hkey other hmem

/-- Sorted bindings that answer every name alike are equal. -/
theorem Sorted.ext {left right : Bindings α} (hl : Sorted left) (hr : Sorted right)
    (h : ∀ name, get? left name = get? right name) : left = right := by
  have hmem : ∀ binding, binding ∈ left ↔ binding ∈ right := by
    rintro ⟨name, value⟩
    rw [← get?_eq_some_iff hl.nodup, ← get?_eq_some_iff hr.nodup, h]
  have hperm : left.Perm right :=
    (List.perm_ext_iff_of_nodup (List.Nodup.of_map _ hl.nodup)
      (List.Nodup.of_map _ hr.nodup)).mpr hmem
  refine hperm.eq_of_pairwise ?_ (List.pairwise_map.mp hl) (List.pairwise_map.mp hr)
  intro a b _ _ hab hba
  exact absurd hab (lt_asymm hba)

/-! ## Pairs bound in the order of the names -/

theorem sorted_sortedOfPairs (pairs : List (String × α)) : Sorted (sortedOfPairs pairs) := by
  have hfold : ∀ (pairs : List (String × α)) (bindings : Bindings α), Sorted bindings →
      Sorted (pairs.foldl (fun bindings pair => bindings.setSorted pair.1 pair.2) bindings) := by
    intro pairs
    induction pairs with
    | nil => exact fun _ h => h
    | cons pair rest ih => exact fun _ h => ih _ (h.setSorted _ _)
  exact hfold pairs [] sorted_nil

/-- The last pair of each name counts. -/
theorem get?_sortedOfPairs (pairs : List (String × α)) (name : String) :
    get? (sortedOfPairs pairs) name = get? pairs.reverse name := by
  have hfold : ∀ (pairs : List (String × α)) (bindings : Bindings α),
      get? (pairs.foldl (fun bindings pair => bindings.setSorted pair.1 pair.2) bindings) name =
        (get? pairs.reverse name).or (get? bindings name) := by
    intro pairs
    induction pairs with
    | nil => simp [get?]
    | cons pair rest ih =>
        obtain ⟨key, value⟩ := pair
        intro bindings
        rw [List.foldl_cons, ih, get?_setSorted, List.reverse_cons, get?_append]
        by_cases h : name = key
        · cases get? rest.reverse name <;> simp [get?, h]
        · cases get? rest.reverse name <;> simp [get?, h, Ne.symm h]
  rw [sortedOfPairs, hfold pairs [], get?, Option.or_none]

/-- Inserting the bindings of a sorted map gives the map back. -/
theorem Sorted.sortedOfPairs_eq {bindings : Bindings α} (h : Sorted bindings) :
    sortedOfPairs bindings = bindings :=
  (sorted_sortedOfPairs bindings).ext h fun name => by
    rw [get?_sortedOfPairs, get?_reverse h.nodup]

/-- Pairs make the same sorted bindings if the last pair of each name is the same. -/
theorem sortedOfPairs_eq_iff {pairs others : List (String × α)} :
    sortedOfPairs pairs = sortedOfPairs others ↔
      ∀ name, get? pairs.reverse name = get? others.reverse name := by
  constructor
  · intro h name
    rw [← get?_sortedOfPairs, h, get?_sortedOfPairs]
  · intro h
    apply (sorted_sortedOfPairs pairs).ext (sorted_sortedOfPairs others)
    intro name
    rw [get?_sortedOfPairs, get?_sortedOfPairs, h]

theorem sortedOfPairs_cons_congr {pairs others : List (String × α)}
    (h : sortedOfPairs pairs = sortedOfPairs others) (pair : String × α) :
    sortedOfPairs (pair :: pairs) = sortedOfPairs (pair :: others) := by
  rw [sortedOfPairs_eq_iff] at h ⊢
  intro name
  rw [List.reverse_cons, List.reverse_cons, get?_append, get?_append, h]

/-- Two neighbouring pairs of different names may be inserted in either order. -/
theorem sortedOfPairs_swap {a b : String × α} (distinct : a.1 ≠ b.1) (rest : List (String × α)) :
    sortedOfPairs (a :: b :: rest) = sortedOfPairs (b :: a :: rest) := by
  have hreverse : ∀ c d : String × α, (c :: d :: rest).reverse = rest.reverse ++ [d, c] := by simp
  rw [sortedOfPairs_eq_iff]
  intro name
  rw [hreverse, hreverse, get?_append, get?_append, get?_swap distinct.symm]

/-- Pairs with distinct names give the same sorted bindings in any order. -/
theorem sortedOfPairs_congr {pairs others : List (String × α)}
    (hpairs : (names pairs).Nodup) (hothers : (names others).Nodup)
    (h : ∀ pair, pair ∈ pairs ↔ pair ∈ others) : sortedOfPairs pairs = sortedOfPairs others := by
  rw [sortedOfPairs_eq_iff]
  intro name
  rw [get?_reverse hpairs, get?_reverse hothers]
  apply Option.ext
  intro value
  rw [get?_eq_some_iff hpairs, get?_eq_some_iff hothers, h]

end ShapeInference.Bindings

/-! ## Maps without repeated names -/

namespace ShapeInference.OrderedMap

variable {α : Type} {map : OrderedMap α} {name : String}

theorem entries_ofList (pairs : List (String × α)) :
    (ofList pairs).entries = Bindings.ofPairs pairs :=
  (List.foldl_hom entries fun _ _ => rfl).symm

theorem has_iff_mem_names : map.has name = true ↔ name ∈ map.names :=
  Bindings.isSome_get?_iff

theorem hasSome_eq_false_iff {names : List String} :
    map.hasSome names = false ↔ ∀ name ∈ names, map.has name = false := by
  simp [hasSome]

/-- Erasing names hides these names and no other. -/
theorem get?_eraseAll (map : OrderedMap α) (names : List String) (name : String) :
    (map.eraseAll names).get? name = if name ∈ names then none else map.get? name := by
  rw [get?, eraseAll, Bindings.get?_filter fun key => !names.contains key]
  by_cases h : name ∈ names <;> simp [h, get?]

theorem has_eraseAll (map : OrderedMap α) (names : List String) (name : String) :
    (map.eraseAll names).has name = if name ∈ names then false else map.has name := by
  rw [has, get?_eraseAll]
  split <;> rfl

theorem hasSome_eraseAll (map : OrderedMap α) (names : List String) :
    (map.eraseAll names).hasSome names = false := by
  rw [hasSome_eq_false_iff]
  intro name hname
  rw [has_eraseAll, if_pos hname]

/-- Names that are not bound need not be removed. -/
theorem eraseAll_eq_self {names : List String} (h : map.hasSome names = false) :
    map.eraseAll names = map := by
  obtain ⟨entries, distinct⟩ := map
  rw [hasSome_eq_false_iff] at h
  have hkept : entries.filter (fun entry => !names.contains entry.1) = entries := by
    rw [List.filter_eq_self]
    intro entry hentry
    have hbound : has ⟨entries, distinct⟩ entry.1 = true :=
      has_iff_mem_names.mpr (List.mem_map_of_mem hentry)
    by_contra hmem
    rw [Bool.not_eq_true, Bool.not_eq_false', List.contains_iff_mem] at hmem
    rw [h entry.1 hmem] at hbound
    contradiction
  simp only [eraseAll, hkept]

theorem get?_insert (map : OrderedMap α) (key : String) (value : α) (name : String) :
    (map.insert key value).get? name = if name = key then some value else map.get? name :=
  Bindings.get?_set _ _ _ _

end ShapeInference.OrderedMap
