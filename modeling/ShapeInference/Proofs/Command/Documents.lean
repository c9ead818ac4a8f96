import ShapeInference.Command.Documents
import ShapeInference.Proofs.Json.Text
import ShapeInference.Proofs.Outcome

/-!
# Loaded documents

Loading is followed from one state of the world outside to the next, whatever files, patterns and
filters do there. Every file gives its documents in order, under names that are numbered where the
file has several. Two documents share a name only if a file is named twice or is named like a
numbered document of another file.

Main statements: `Command.Gives.forall₂_of_mapM`, `Command.labels_of_loadFile` and
`Command.nodup_labels_of_loadDocuments`.
-/

namespace ShapeInference

namespace Command

variable {σ α β : Type}

/-! ## Actions that succeed -/

/-- An action on the world outside gives a value in one state and leaves another. -/
def Gives (action : ExceptT Causes (StateM σ) α) (before : σ) (value : α) (after : σ) : Prop :=
  action.run.run before = (.ok value, after)

theorem gives_pure_iff {a b : α} {before after : σ} :
    Gives (pure a) before b after ↔ a = b ∧ before = after := by
  change ((Except.ok a, before) : Except Causes α × σ) = (.ok b, after) ↔ _
  rw [Prod.mk.injEq, Except.ok.injEq]

/-- A result that is already there is given exactly if it is a value, in the same world. -/
theorem gives_lift_iff {result : Except Causes α} {value : α} {before after : σ} :
    Gives (liftM result) before value after ↔ result = .ok value ∧ before = after := by
  change ((result, before) : Except Causes α × σ) = (.ok value, after) ↔ _
  rw [Prod.mk.injEq]

/-- An action whose outcome holds a value gives it. -/
theorem exists_gives_of_toOption {action : ExceptT Causes (StateM σ) α} {before : σ} {value : α}
    (h : (action.run.run before).1.toOption = some value) :
    ∃ after, Gives action before value after :=
  ⟨_, Prod.ext (toOption_eq_some_iff.mp h) rfl⟩

/-- A sequence succeeds if both actions do, the second where the first has led. -/
theorem gives_bind_iff {action : ExceptT Causes (StateM σ) α}
    {next : α → ExceptT Causes (StateM σ) β} {before after : σ} {value : β} :
    Gives (action >>= next) before value after ↔
      ∃ first between, Gives action before first between ∧
        Gives (next first) between value after := by
  rw [Gives, ExceptT.run_bind, StateT.run_bind]
  constructor
  · intro h
    rcases hfirst : action.run.run before with ⟨first | first, between⟩
    · rw [hfirst] at h
      cases h
    · rw [hfirst] at h
      exact ⟨first, between, hfirst, h⟩
  · rintro ⟨first, between, hfirst, hnext⟩
    rw [Gives] at hfirst
    rw [hfirst]
    exact hnext

/-- What is done for each element of a list gives one value for each. -/
theorem Gives.forall₂_of_mapM {f : α → ExceptT Causes (StateM σ) β} {as : List α} {bs : List β}
    {before after : σ} (h : Gives (as.mapM f) before bs after) :
    List.Forall₂ (fun a b => ∃ s t, Gives (f a) s b t) as bs := by
  induction as generalizing bs before with
  | nil =>
      obtain ⟨rfl, -⟩ := gives_pure_iff.mp h
      exact .nil
  | cons a rest ih =>
      rw [List.mapM_cons] at h
      obtain ⟨b, between, hfirst, h⟩ := gives_bind_iff.mp h
      obtain ⟨others, last, hrest, h⟩ := gives_bind_iff.mp h
      obtain ⟨rfl, rfl⟩ := gives_pure_iff.mp h
      exact .cons ⟨_, _, hfirst⟩ (ih hrest)

/-! ## Names of documents -/

/-- A file with a number behind it. -/
def numbered (file : String) (number : Nat) : String :=
  s!"{file}#{number}"

theorem label_of_one_lt {count : Nat} (h : 1 < count) (file : String) (index : Nat) :
    label file count index = numbered file index :=
  if_pos h

theorem label_of_le_one {count : Nat} (h : count ≤ 1) (file : String) (index : Nat) :
    label file count index = file :=
  if_neg (Nat.not_lt.mpr h)

/-- A numbered label is the file, a `#` and the digits of the number. -/
theorem toList_numbered (file : String) (number : Nat) :
    (numbered file number).toList = file.toList ++ '#' :: Nat.toDigits 10 number := by
  have hnumber : toString number = String.ofList (Nat.toDigits 10 number) :=
    Nat.repr_eq_ofList_toDigits
  change (file ++ "#" ++ toString number).toList = _
  rw [hnumber, String.toList_append, String.toList_append, String.toList_ofList]
  simp

/-- The number is what stands behind the last number sign. -/
theorem numbered_inj {file other : String} {m n : Nat} (h : numbered file m = numbered other n) :
    file = other ∧ m = n := by
  have hsign : ∀ k : Nat, '#' ∉ (Nat.toDigits 10 k).reverse := by
    intro k
    rw [List.mem_reverse]
    exact Decimal.not_mem_of_isDigit
      (fun _ hc => Nat.isDigit_of_mem_toDigits (by decide) le_rfl hc) rfl
  have hcut : ∀ (name : String) (k : Nat), Decimal.cut '#' (numbered name k).toList.reverse =
      ((Nat.toDigits 10 k).reverse, name.toList.reverse) := by
    intro name k
    rw [toList_numbered, List.reverse_append, List.reverse_cons, List.append_assoc]
    exact Decimal.cut_append (hsign k) _
  have hparts := hcut file m
  rw [h, hcut other n] at hparts
  obtain ⟨hdigits, hfile⟩ := Prod.mk.inj hparts
  exact ⟨String.toList_inj.mp (List.reverse_injective hfile.symm),
    Number.toDigits_inj (List.reverse_injective hdigits.symm)⟩

/-- No file is named twice, and none is named like a numbered document of another one. -/
structure Distinguishable (files : List String) : Prop where
  once : files.Nodup
  unnumbered : ∀ file ∈ files, ∀ number, numbered file number ∉ files

/-- Files without a number sign in their names need only be named once. -/
theorem distinguishable_of_not_mem {files : List String} (once : files.Nodup)
    (h : ∀ file ∈ files, '#' ∉ file.toList) : Distinguishable files where
  once := once
  unnumbered file _ number hmem := by
    apply h _ hmem
    rw [toList_numbered]
    simp

theorem Distinguishable.tail {file : String} {rest : List String}
    (h : Distinguishable (file :: rest)) : Distinguishable rest where
  once := (List.nodup_cons.mp h.once).2
  unnumbered other hother number hmem :=
    h.unnumbered other (List.mem_cons_of_mem _ hother) number (List.mem_cons_of_mem _ hmem)

/-- A name tells which of some distinguishable files a document is from. -/
theorem Distinguishable.eq_of_label_eq {files : List String} (h : Distinguishable files)
    {file other : String} (hfile : file ∈ files) (hother : other ∈ files)
    {count count' index index' : Nat} (heq : label file count index = label other count' index') :
    file = other := by
  rcases Nat.lt_or_ge 1 count with hseveral | hone
  · rw [label_of_one_lt hseveral] at heq
    rcases Nat.lt_or_ge 1 count' with hseveral' | hone'
    · rw [label_of_one_lt hseveral'] at heq
      exact (numbered_inj heq).1
    · rw [label_of_le_one hone'] at heq
      exact absurd (heq ▸ hother) (h.unnumbered file hfile index)
  · rw [label_of_le_one hone] at heq
    rcases Nat.lt_or_ge 1 count' with hseveral' | hone'
    · rw [label_of_one_lt hseveral'] at heq
      exact absurd (heq ▸ hfile) (h.unnumbered other hother index')
    · rwa [label_of_le_one hone'] at heq

/-- The names of all documents of one file. -/
def labels (file : String) (count : Nat) : List String :=
  (List.range count).map (label file count)

theorem mem_labels {file name : String} {count : Nat} :
    name ∈ labels file count ↔ ∃ index < count, label file count index = name := by
  simp [labels]

/-- The documents of one file are labelled differently. -/
theorem nodup_labels (file : String) (count : Nat) : (labels file count).Nodup := by
  refine List.Nodup.map_on ?_ List.nodup_range
  intro m hm n hn heq
  rw [List.mem_range] at hm hn
  rcases Nat.lt_or_ge 1 count with hseveral | hone
  · rw [label_of_one_lt hseveral, label_of_one_lt hseveral] at heq
    exact (numbered_inj heq).2
  · omega

/-- The documents of a file are named after it in order. -/
theorem labels_of_documentsOf {file : String} {values : List Json} {documents : List Document}
    (h : documentsOf file values = .ok documents) :
    documents.map Document.label = labels file documents.length := by
  have hvalues : List.Forall₂
      (fun pair document => label file values.length pair.2 = document.label)
      values.zipIdx documents := by
    refine (forall₂_of_mapM_eq_ok h).imp fun pair document hdocument => ?_
    obtain ⟨schema, -, hdocument⟩ := bind_eq_ok_iff.mp hdocument
    rw [← Except.ok.inj hdocument]
  have hlength : values.length = documents.length := by
    rw [← hvalues.length_eq, List.length_zipIdx]
  have hlabels : values.zipIdx.map (fun pair => label file values.length pair.2) =
      documents.map Document.label := by
    rw [← List.forall₂_eq_eq_eq, List.forall₂_map_left_iff, List.forall₂_map_right_iff]
    exact hvalues
  calc
    documents.map Document.label = (values.zipIdx.map Prod.snd).map (label file values.length) := by
      rw [← hlabels, List.map_map]
      rfl
    _ = labels file documents.length := by
      rw [List.zipIdx_map_snd, ← List.range_eq_range', hlength, labels]

/-- Whatever its text and the filter are, a file gives documents that are named after it. -/
theorem labels_of_loadFile {env : Environment (StateM σ)} {filter : Option String} {file : String}
    {before after : σ} {documents : List Document}
    (h : Gives (loadFile env filter file) before documents after) :
    documents.map Document.label = labels file documents.length := by
  obtain ⟨text, s, -, h⟩ := gives_bind_iff.mp h
  obtain ⟨value, t, -, h⟩ := gives_bind_iff.mp h
  obtain ⟨values, u, hdocuments⟩ : ∃ (values : List Json) (u : σ),
      Gives (liftM (documentsOf file values)) u documents after := by
    cases filter with
    | none => exact ⟨[value], t, h⟩
    | some filter =>
        obtain ⟨values, u, -, h⟩ := gives_bind_iff.mp h
        exact ⟨values, u, h⟩
  exact labels_of_documentsOf (gives_lift_iff.mp hdocuments).1

/-- Documents of distinguishable files have different names. -/
theorem Distinguishable.nodup_labels {files : List String} (h : Distinguishable files)
    {batches : List (List Document)}
    (hbatches : List.Forall₂
      (fun file batch => batch.map Document.label = labels file batch.length) files batches) :
    (batches.flatten.map Document.label).Nodup := by
  induction hbatches with
  | nil => exact List.nodup_nil
  | @cons file batch rest others hfirst hrest ih =>
      rw [List.flatten_cons, List.map_append, List.nodup_append']
      refine ⟨hfirst ▸ Command.nodup_labels _ _, ih h.tail, ?_⟩
      intro name hname hlater
      obtain ⟨document, hdocument, hlabel⟩ := List.mem_map.mp hlater
      obtain ⟨later, hbatch, hmem⟩ := List.mem_flatten.mp hdocument
      obtain ⟨other, hother, hlabels⟩ := exists_mem_of_forall₂ hrest hbatch
      have hname' : name ∈ labels other later.length :=
        hlabels ▸ List.mem_map.mpr ⟨document, hmem, hlabel⟩
      rw [hfirst] at hname
      obtain ⟨m, -, hm⟩ := mem_labels.mp hname
      obtain ⟨n, -, hn⟩ := mem_labels.mp hname'
      have heq : file = other := h.eq_of_label_eq List.mem_cons_self
        (List.mem_cons_of_mem _ hother) (hm.trans hn.symm)
      exact (List.nodup_cons.mp h.once).1 (heq ▸ hother)

/-- The documents that are loaded have different names if their files are distinguishable. -/
theorem nodup_labels_of_loadDocuments {env : Environment (StateM σ)} {sources : Sources}
    {before after : σ} {documents : List Document}
    (h : Gives (loadDocuments env sources) before documents after) :
    ∃ paths between, Gives (sources.inputs.mapM (expand env)) before paths between ∧
      (Distinguishable paths.flatten → (documents.map Document.label).Nodup) := by
  obtain ⟨paths, between, hpaths, h⟩ := gives_bind_iff.mp h
  refine ⟨paths, between, hpaths, fun hdistinguishable => ?_⟩
  obtain ⟨batches, last, hbatches, h⟩ := gives_bind_iff.mp h
  obtain ⟨rfl, -⟩ := gives_pure_iff.mp h
  apply hdistinguishable.nodup_labels
  apply hbatches.forall₂_of_mapM.imp
  rintro file batch ⟨s, t, hbatch⟩
  exact labels_of_loadFile hbatch

end Command

end ShapeInference
