import DocMerge.Message.Catalogs
import DocMerge.Proofs.Outcomes
import DocMerge.Proofs.Stores
import Mathlib.Data.List.Induction

/-!
# Looking templates up

What files, directories and roots have for a key is said without putting any catalog together: of
those that have something, the last counts. One that cannot be read keeps all others from being
read. `lookups_uncached`: however requests for templates and new roots follow one another, every
request comes to what the roots of the moment have in the files, though most are answered from what
was read before.
-/

namespace DocMerge.Data.Json

end DocMerge.Data.Json

namespace DocMerge.Message

open Files (Path Store partsLE)
open Text (Symbol symbols)

-- ---------------------------------------------------------------------------
-- The last that has something
-- ---------------------------------------------------------------------------

/-- The last element of a list that has anything has the given thing. -/
def LastHas (has : α → β → Prop) (xs : List α) (b : β) : Prop :=
  ∃ before x behind, xs = before ++ x :: behind ∧ has x b ∧ ∀ y ∈ behind, ∀ b', ¬has y b'

theorem lastHas_nil (has : α → β → Prop) (b : β) : ¬LastHas has [] b := by
  simp [LastHas]

theorem lastHas_concat {has : α → β → Prop} {xs : List α} :
    LastHas has (xs ++ [x]) b ↔ has x b ∨ (∀ b', ¬has x b') ∧ LastHas has xs b := by
  constructor
  · rintro ⟨before, y, behind, hsplit, hy, hbehind⟩
    cases behind using List.reverseRecOn with
    | nil =>
      obtain ⟨-, rfl⟩ := List.append_inj' hsplit rfl |>.imp_right List.singleton_inj.mp
      exact .inl hy
    | append_singleton behind z =>
      rw [← List.cons_append, ← List.append_assoc] at hsplit
      obtain ⟨rfl, rfl⟩ := List.append_inj' hsplit rfl |>.imp_right List.singleton_inj.mp
      simp only [List.mem_append, List.mem_singleton, or_imp, forall_and, forall_eq] at hbehind
      exact .inr ⟨hbehind.2, before, y, behind, rfl, hy, hbehind.1⟩
  · rintro (hx | ⟨hnone, before, y, behind, rfl, hy, hbehind⟩)
    · exact ⟨xs, x, [], rfl, hx, by simp⟩
    · refine ⟨before, y, behind ++ [x], by simp, hy, ?_⟩
      simpa [or_imp, forall_and] using ⟨hbehind, hnone⟩

theorem lastHas_cons {has : α → β → Prop} {xs : List α} :
    LastHas has (x :: xs) b ↔ LastHas has xs b ∨ (∀ b', ¬LastHas has xs b') ∧ has x b := by
  induction xs using List.reverseRecOn generalizing b with
  | nil =>
    have hsingle : LastHas has ([] ++ [x]) b ↔ _ := lastHas_concat
    simpa [lastHas_nil] using hsingle
  | append_singleton xs y ih =>
    rw [← List.cons_append, lastHas_concat]
    simp only [lastHas_concat, ih]
    by_cases hy : ∃ b', has y b'
    · obtain ⟨b', hy⟩ := hy
      have hsome : ¬∀ b', ¬has y b' := fun h => h b' hy
      simp [hsome]
    · have hnone : ∀ b', ¬has y b' := fun b' h => hy ⟨b', h⟩
      simp [hnone]

theorem exists_lastHas {has : α → β → Prop} {xs : List α} (hx : x ∈ xs) (h : has x b) :
    ∃ b', LastHas has xs b' := by
  induction xs using List.reverseRecOn with
  | nil => simp at hx
  | append_singleton xs y ih =>
    by_cases hy : ∃ b', has y b'
    · obtain ⟨b', hy⟩ := hy
      exact ⟨b', lastHas_concat.mpr (.inl hy)⟩
    · have hne : x ≠ y := by
        rintro rfl
        exact hy ⟨b, h⟩
      rw [List.mem_append, List.mem_singleton, or_iff_left hne] at hx
      obtain ⟨b', hlast⟩ := ih hx
      exact ⟨b', lastHas_concat.mpr (.inr ⟨fun c hc => hy ⟨c, hc⟩, hlast⟩)⟩

theorem LastHas.unique {has : α → β → Prop} {xs : List α}
    (hunique : ∀ x b b', has x b → has x b' → b = b')
    (h : LastHas has xs b) (h' : LastHas has xs b') : b = b' := by
  induction xs with
  | nil => exact absurd h (lastHas_nil has b)
  | cons x xs ih =>
    rw [lastHas_cons] at h h'
    rcases h with h | ⟨hnone, h⟩ <;> rcases h' with h' | ⟨hnone', h'⟩
    · exact ih h h'
    · exact absurd h (hnone' b)
    · exact absurd h' (hnone b')
    · exact hunique x b b' h h'

-- ---------------------------------------------------------------------------
-- The first that has something
-- ---------------------------------------------------------------------------

/-- The first element of a list that has anything has the given thing. -/
def FirstHas (has : α → β → Prop) (xs : List α) (b : β) : Prop :=
  ∃ before x behind, xs = before ++ x :: behind ∧ has x b ∧ ∀ y ∈ before, ∀ b', ¬has y b'

theorem firstHas_nil (has : α → β → Prop) (b : β) : ¬FirstHas has [] b := by
  simp [FirstHas]

theorem firstHas_cons {has : α → β → Prop} {xs : List α} :
    FirstHas has (x :: xs) b ↔ has x b ∨ (∀ b', ¬has x b') ∧ FirstHas has xs b := by
  constructor
  · rintro ⟨before, y, behind, hsplit, hy, hbefore⟩
    cases before with
    | nil =>
      obtain ⟨rfl, -⟩ := List.cons_eq_cons.mp hsplit
      exact .inl hy
    | cons z before =>
      obtain ⟨rfl, rfl⟩ := List.cons_eq_cons.mp hsplit
      rw [List.forall_mem_cons] at hbefore
      exact .inr ⟨hbefore.1, before, y, behind, rfl, hy, hbefore.2⟩
  · rintro (hx | ⟨hnone, before, y, behind, rfl, hy, hbefore⟩)
    · exact ⟨[], x, xs, rfl, hx, by simp⟩
    · exact ⟨x :: before, y, behind, rfl, hy, List.forall_mem_cons.mpr ⟨hnone, hbefore⟩⟩

theorem FirstHas.exists_mem {has : α → β → Prop} (h : FirstHas has xs b) : ∃ x ∈ xs, has x b := by
  obtain ⟨before, x, behind, rfl, hx, -⟩ := h
  exact ⟨x, by simp, hx⟩

theorem exists_firstHas {has : α → β → Prop} {xs : List α} (hx : x ∈ xs) (h : has x b) :
    ∃ b', FirstHas has xs b' := by
  induction xs with
  | nil => simp at hx
  | cons y xs ih =>
    by_cases hy : ∃ b', has y b'
    · obtain ⟨b', hy⟩ := hy
      exact ⟨b', firstHas_cons.mpr (.inl hy)⟩
    · have hne : x ≠ y := by
        rintro rfl
        exact hy ⟨b, h⟩
      obtain ⟨b', hfirst⟩ := ih ((List.mem_cons.mp hx).resolve_left hne)
      exact ⟨b', firstHas_cons.mpr (.inr ⟨fun c hc => hy ⟨c, hc⟩, hfirst⟩)⟩

theorem mapM_eq_error_iff {f : α → Except ε β} {fails : α → ε → Prop}
    (h : ∀ x e, f x = .error e ↔ fails x e)
    {xs : List α} : xs.mapM f = .error e ↔ FirstHas fails xs e := by
  induction xs with
  | nil => simp [firstHas_nil, pure, Except.pure]
  | cons x xs ih =>
    simp only [List.mapM_cons, firstHas_cons, bind_eq_error_iff, ih, ← h x]
    cases f x <;> simp

-- ---------------------------------------------------------------------------
-- The order of paths
-- ---------------------------------------------------------------------------

theorem partsLE_cons (x y : String) (xs ys : List String) :
    partsLE (x :: xs) (y :: ys) = true ↔ x < y ∨ x = y ∧ partsLE xs ys = true := by
  simp [partsLE]

theorem partsLE_total (a b : List String) : (partsLE a b || partsLE b a) = true := by
  induction a generalizing b with
  | nil => simp [partsLE]
  | cons x xs ih =>
    cases b with
    | nil => simp [partsLE]
    | cons y ys =>
      rw [Bool.or_eq_true, partsLE_cons, partsLE_cons]
      by_cases hlt : x < y
      · exact .inl (.inl hlt)
      by_cases hgt : y < x
      · exact .inr (.inl hgt)
      obtain rfl := String.le_antisymm (String.not_lt.mp hgt) (String.not_lt.mp hlt)
      have hrest := ih ys
      rw [Bool.or_eq_true] at hrest
      exact hrest.imp (fun h => .inr ⟨rfl, h⟩) fun h => .inr ⟨rfl, h⟩

theorem partsLE_refl (a : List String) : partsLE a a = true := by
  simpa using partsLE_total a a

theorem partsLE_trans (a b c : List String) (hab : partsLE a b = true) (hbc : partsLE b c = true) :
    partsLE a c = true := by
  induction a generalizing b c with
  | nil => rfl
  | cons x xs ih =>
    cases b with
    | nil => cases hab
    | cons y ys =>
      cases c with
      | nil => cases hbc
      | cons z zs =>
        rw [partsLE_cons] at *
        rcases hab with hab | ⟨rfl, hab⟩ <;> rcases hbc with hbc | ⟨rfl, hbc⟩
        · exact .inl (String.lt_trans hab hbc)
        · exact .inl hab
        · exact .inl hbc
        · exact .inr ⟨rfl, ih _ _ hab hbc⟩

theorem partsLE_antisymm {a b : List String} (hab : partsLE a b = true) (hba : partsLE b a = true) :
    a = b := by
  induction a generalizing b with
  | nil =>
    cases b with
    | nil => rfl
    | cons y ys => cases hba
  | cons x xs ih =>
    cases b with
    | nil => cases hab
    | cons y ys =>
      rw [partsLE_cons] at hab hba
      rcases hab with hab | ⟨rfl, hab⟩
      · rcases hba with hba | ⟨rfl, -⟩
        · exact absurd (String.lt_trans hab hba) (String.lt_irrefl _)
        · exact absurd hab (String.lt_irrefl _)
      · rw [ih hab (hba.resolve_left (String.lt_irrefl _)).2]

theorem partsLE_append (way a b : List String) : partsLE (way ++ a) (way ++ b) = partsLE a b := by
  induction way with
  | nil => rfl
  | cons part way ih => simp [partsLE, ih]

theorem search_sorted (store : Store) (directory : Path) (ending : String) :
    (store.search directory ending).Pairwise fun p q => p.absolute = q.absolute ∧
    partsLE p.parts q.parts = true := by
  unfold Store.search
  split
  · exact .nil
  · rename_i place _
    split
    · have hbelow : (store.below place).Pairwise fun a b => partsLE a.1 b.1 = true :=
        List.pairwise_mergeSort (fun a b c => partsLE_trans a.1 b.1 c.1)
          (fun a b => partsLE_total a.1 b.1) _
      rw [List.pairwise_map]
      exact (hbelow.filter _).imp fun h => ⟨rfl, (partsLE_append ..).trans h⟩
    · exact .nil

-- ---------------------------------------------------------------------------
-- What files, directories and roots have for a key
-- ---------------------------------------------------------------------------

section
variable (limits : Limits) (store : Store)

def FileReads (file : Path) (outcome : Data.Json.Read Data.Json.Value) : Prop :=
  ∃ content text, store.read file = .ok content ∧ Files.textOf? content = some text ∧
    Data.Json.parse limits.catalogs text = outcome

/-- The template that a file has for a key. A file that cannot be read, is no UTF-8, or is no table
of values has none. -/
def FileHas (key : List Symbol) (file : Path) (template : List Symbol) : Prop :=
  ∃ fields, FileReads limits store file (.ok (.table fields)) ∧
    LastHas (fun field template => field.1 = key ∧
      Catalog.templateOf field.2 = template) fields template

def FileFails (file : Path) (e : LookupError) : Prop :=
  e = .tooDeep ∧ FileReads limits store file (.error .tooDeep)

/-- The template of a directory: that of the last of all files below it that have one, in the order
of their paths. -/
def DirectoryHas (fileHas : Path → List Symbol → Prop) (directory : Path) (template : List Symbol) :
    Prop :=
  ∃ file ∈ store.search directory ".json", fileHas file template ∧
    ∀ other ∈ store.search directory ".json", (∃ t, fileHas other t) →
    partsLE other.parts file.parts = true

/-- A directory cannot be searched: its path is too long, or the directories below it are too
deep. -/
def Unsearchable (directory : Path) : LookupError → Prop
  | .longName => store.isOverlong directory = true
  | .tooDeep =>
    store.isOverlong directory = false ∧ store.isDeeper directory limits.directories = true

def DirectoryFails (directory : Path) (e : LookupError) : Prop :=
  Unsearchable limits store directory e ∨
    (∀ e', ¬Unsearchable limits store directory e') ∧
      ∃ file ∈ store.search directory ".json", FileFails limits store file e

def Standard.directory (language : String) : Path :=
  ⟨true, "needle" :: (Path.ofString language).parts⟩

/-- The template of a root. What a project overrides counts before anything else in it. The path of
a directory can stand for a language, and is then taken instead of the standard catalogs. -/
def RootHas (language : String) (key : List Symbol) (root : Root) (template : List Symbol) : Prop :=
  match root with
  | .standard =>
    if (Path.ofString language).absolute then
      DirectoryHas store (FileHas limits store key) (Path.ofString language) template
    else
      DirectoryHas Standard.tree (fun file t => (Standard.catalogAt file).get? key = some t)
        (Standard.directory language) template
  | .directory path =>
    DirectoryHas store (FileHas limits store key)
      (path / ".docport" / "needle" / language) template ∨
      (∀ t, ¬DirectoryHas store (FileHas limits store key)
        (path / ".docport" / "needle" / language) t) ∧
        DirectoryHas store (FileHas limits store key) (path / "needle" / language) template

/-- A root cannot be read. What a project overrides is read behind anything else in it. -/
def RootFails (language : String) (root : Root) (e : LookupError) : Prop :=
  match root with
  | .standard =>
    if (Path.ofString language).absolute then DirectoryFails limits store (Path.ofString language) e
    else Unsearchable limits Standard.tree (Standard.directory language) e
  | .directory path =>
    DirectoryFails limits store (path / "needle" / language) e ∨
      (∀ e', ¬DirectoryFails limits store (path / "needle" / language) e') ∧
        DirectoryFails limits store (path / ".docport" / "needle" / language) e

def RootsHave (language : String) (key : List Symbol) (roots : List Root) (template : List Symbol) :
    Prop :=
  LastHas (RootHas limits store language key) roots template

def RootsFail (language : String) (roots : List Root) (e : LookupError) : Prop :=
  FirstHas (RootFails limits store language) roots e

end

namespace Catalog

theorem get?_append (first second : Catalog) (key : List Symbol) :
    get? (first ++ second) key = (get? second key).or (get? first key) := by
  simp [get?, List.lookup_append]

theorem get?_singleton (entry : List Symbol × List Symbol) (key t : List Symbol) :
    get? [entry] key = some t ↔ entry.1 = key ∧ entry.2 = t := by
  rw [get?, List.reverse_singleton, List.lookup_cons, List.lookup_nil]
  split
  · rename_i h
    simp [(beq_iff_eq.mp h).symm]
  · rename_i h
    simp [Ne.symm (beq_eq_false_iff_ne.mp h)]

theorem get?_map {g : α → List Symbol × List Symbol} {xs : List α} :
    get? (xs.map g) key = some template ↔
    LastHas (fun x t => (g x).1 = key ∧ (g x).2 = t) xs template := by
  induction xs generalizing template with
  | nil => simp [get?, lastHas_nil]
  | cons x xs ih =>
    rw [List.map_cons, ← List.singleton_append, get?_append,
      Option.or_eq_some_iff, lastHas_cons, ih,
      Option.eq_none_iff_forall_ne_some]
    simp only [ne_eq, ih, get?_singleton]

/-- Of catalogs that are read one after another, the last that has something for a key counts. -/
theorem get?_flatten {f : α → Except ε Catalog} {has : α → List Symbol → Prop}
    (h : ∀ x catalog, f x = .ok catalog → ∀ template,
      get? catalog key = some template ↔ has x template)
    {xs : List α} (hread : xs.mapM f = .ok catalogs) :
    get? catalogs.flatten key = some template ↔ LastHas has xs template := by
  induction xs generalizing catalogs template with
  | nil =>
    cases hread
    simp [get?, lastHas_nil]
  | cons x xs ih =>
    simp only [List.mapM_cons, bind_eq_ok_iff, pure_eq_ok_iff] at hread
    obtain ⟨first, hfirst, rest, hrest, rfl⟩ := hread
    rw [List.flatten_cons, get?_append, Option.or_eq_some_iff, lastHas_cons,
      ih hrest, h x first hfirst,
      Option.eq_none_iff_forall_ne_some]
    simp only [ne_eq, ih hrest]

section
variable {limits : Limits} {store : Store}

theorem ofFile_get? (h : ofFile limits store file = .ok catalog) (key template : List Symbol) :
    get? catalog key = some template ↔ FileHas limits store key file template := by
  have hnone : get? [] key = none := rfl
  unfold FileHas FileReads
  unfold ofFile ofContent at h
  cases hread : store.read file with
  | error e =>
    simp only [hread, Except.ok.injEq] at h
    simp [← h, hnone]
  | ok content =>
    cases htext : Files.textOf? content with
    | none =>
      simp only [hread, htext, Option.map_none, Except.ok.injEq] at h
      simp [htext, ← h, hnone]
    | some text =>
      cases hparse : Data.Json.parse limits.catalogs text with
      | error e => cases e <;> simp_all
      | ok value =>
        cases value with
        | table fields =>
          simp only [hread, htext, hparse, Option.map_some, Except.ok.injEq] at h
          simp [htext, hparse, ← h, get?_map]
        | _ =>
          simp only [hread, htext, hparse, Option.map_some, Except.ok.injEq] at h
          simp [htext, hparse, ← h, hnone]

theorem ofFile_eq_error_iff :
    ofFile limits store file = .error e ↔ FileFails limits store file e := by
  unfold ofFile ofContent FileFails FileReads
  cases hread : store.read file with
  | error => simp
  | ok content =>
    cases htext : Files.textOf? content with
    | none => simp [htext]
    | some text =>
      cases hparse : Data.Json.parse limits.catalogs text with
      | error e' => cases e' <;> simp [htext, hparse, eq_comm]
      | ok value => cases value <;> simp [htext, hparse]

theorem filesBelow_eq_error_iff :
    filesBelow limits store directory = .error e ↔ Unsearchable limits store directory e := by
  unfold filesBelow Unsearchable
  cases e <;> split_ifs <;> simp_all

theorem filesBelow_eq_ok (h : filesBelow limits store directory = .ok files) :
    files = store.search directory ".json" := by
  unfold filesBelow at h
  split_ifs at h
  exact (Except.ok.inj h).symm

/-- The last file in a directory that has something comes behind all others that do. -/
theorem lastHas_search_iff {fileHas : Path → List Symbol → Prop}
    (hunique : ∀ file t t', fileHas file t → fileHas file t' → t = t') :
    LastHas fileHas (store.search directory ".json") template ↔
    DirectoryHas store fileHas directory template := by
  have hsorted := search_sorted store directory ".json"
  constructor
  · rintro ⟨before, file, behind, hsplit, hfile, hbehind⟩
    refine ⟨file, by simp [hsplit], hfile, fun other hother ⟨t, ht⟩ => ?_⟩
    rw [hsplit, List.mem_append, List.mem_cons] at hother
    rcases hother with hother | rfl | hother
    · rw [hsplit, List.pairwise_append] at hsorted
      exact (hsorted.2.2 other hother file List.mem_cons_self).2
    · exact partsLE_refl _
    · exact absurd ht (hbehind other hother t)
  · rintro ⟨file, hfile, hhas, hlast⟩
    obtain ⟨t, hlastHas⟩ := exists_lastHas hfile hhas
    have hthe := hlastHas
    obtain ⟨before, last, behind, hsplit, hlastFile, hbehind⟩ := hlastHas
    have hle := hlast last (by simp [hsplit]) ⟨t, hlastFile⟩
    have hge : file.absolute = last.absolute ∧ partsLE file.parts last.parts = true := by
      rw [hsplit, List.mem_append, List.mem_cons] at hfile
      rcases hfile with hfile | rfl | hfile
      · rw [hsplit, List.pairwise_append] at hsorted
        exact hsorted.2.2 file hfile last List.mem_cons_self
      · exact ⟨rfl, hle⟩
      · exact absurd hhas (hbehind file hfile template)
    obtain rfl : file = last := by
      cases file; cases last
      simp only [Files.Path.mk.injEq]
      exact ⟨hge.1, partsLE_antisymm hge.2 hle⟩
    exact hunique file t template hlastFile hhas ▸ hthe

theorem FileHas.unique (h : FileHas limits store key file template)
    (h' : FileHas limits store key file template') :
    template = template' := by
  obtain ⟨fields, ⟨content, text, hread, htext, hparse⟩, hlast⟩ := h
  obtain ⟨fields', ⟨content', text', hread', htext', hparse'⟩, hlast'⟩ := h'
  obtain rfl := Except.ok.inj (hread.symm.trans hread')
  obtain rfl := Option.some.inj (htext.symm.trans htext')
  cases hparse.symm.trans hparse'
  exact hlast.unique (fun _ _ _ h h' => h.2.symm.trans h'.2) hlast'

theorem ofDirectory_get? (h : ofDirectory limits store directory = .ok catalog)
    (key template : List Symbol) :
    get? catalog key = some template ↔
    DirectoryHas store (FileHas limits store key) directory template := by
  simp only [ofDirectory, bind_eq_ok_iff, pure_eq_ok_iff] at h
  obtain ⟨files, hfiles, catalogs, hread, rfl⟩ := h
  obtain rfl := filesBelow_eq_ok hfiles
  rw [get?_flatten (fun _ _ hfile => ofFile_get? hfile key) hread]
  exact lastHas_search_iff fun _ _ _ => FileHas.unique

theorem ofDirectory_eq_error_iff :
    ofDirectory limits store directory = .error e ↔ DirectoryFails limits store directory e := by
  have hread : (store.search directory ".json").mapM (ofFile limits store) = .error e ↔
      ∃ file ∈ store.search directory ".json", FileFails limits store file e := by
    rw [mapM_eq_error_iff fun file e' => ofFile_eq_error_iff]
    refine ⟨FirstHas.exists_mem, ?_⟩
    rintro ⟨file, hfile, hfails⟩
    obtain ⟨e', hfirst⟩ := exists_firstHas hfile hfails
    obtain ⟨-, -, rfl, -⟩ := hfirst.exists_mem
    obtain ⟨rfl, -⟩ := hfails
    exact hfirst
  simp only [ofDirectory, DirectoryFails, ← hread, ← filesBelow_eq_error_iff, bind_eq_error_iff]
  cases hfiles : filesBelow limits store directory with
  | error => simp
  | ok files => simp [filesBelow_eq_ok hfiles]

end

end Catalog

section
variable {limits : Limits} {store : Store}

theorem Standard.mapM_catalogAt (paths : List Path) :
    paths.mapM (fun path => (.ok (catalogAt path) : Except LookupError Catalog)) =
    .ok (paths.map catalogAt) := by
  induction paths with
  | nil => rfl
  | cons path paths ih =>
    simp only [List.mapM_cons, ih, List.map_cons, bind, Except.bind, pure, Except.pure]

theorem Root.catalog_get? {root : Root} {catalog : Catalog}
    (h : root.catalog limits store language = .ok catalog)
    (key template : List Symbol) :
    catalog.get? key = some template ↔ RootHas limits store language key root template := by
  cases root with
  | standard =>
    simp only [Root.catalog, RootHas] at h ⊢
    split_ifs at h ⊢
    · exact Catalog.ofDirectory_get? h key template
    · simp only [bind_eq_ok_iff, pure_eq_ok_iff] at h
      obtain ⟨files, hfiles, rfl⟩ := h
      obtain rfl := Catalog.filesBelow_eq_ok hfiles
      have hfile : ∀ file catalog,
          (.ok (Standard.catalogAt file) : Except LookupError Catalog) = .ok catalog →
          ∀ t, catalog.get? key = some t ↔ (Standard.catalogAt file).get? key = some t := by
        rintro file _ ⟨⟩ t
        rfl
      rw [← Standard.directory, List.flatMap_def,
        Catalog.get?_flatten hfile (Standard.mapM_catalogAt _)]
      exact Catalog.lastHas_search_iff fun _ _ _ h h' => Option.some.inj (h.symm.trans h')
  | directory path =>
    simp only [Root.catalog, bind_eq_ok_iff, pure_eq_ok_iff] at h
    obtain ⟨provided, hprovided, own, hown, rfl⟩ := h
    rw [Catalog.get?_append, Option.or_eq_some_iff, Option.eq_none_iff_forall_ne_some]
    simp only [ne_eq, Catalog.ofDirectory_get? hprovided, Catalog.ofDirectory_get? hown, RootHas]

theorem Root.catalog_eq_error_iff {root : Root} :
    root.catalog limits store language = .error e ↔ RootFails limits store language root e := by
  cases root with
  | standard =>
    simp only [Root.catalog, RootFails]
    split_ifs
    · exact Catalog.ofDirectory_eq_error_iff
    · rw [bind_pure_eq_error_iff, Catalog.filesBelow_eq_error_iff, Standard.directory]
  | directory path =>
    simp only [Root.catalog, RootFails, ← Catalog.ofDirectory_eq_error_iff, bind_eq_error_iff]
    cases Catalog.ofDirectory limits store (path / "needle" / language) <;> simp

end

namespace Catalogs

section
variable (limits : Limits) (store : Store)

inductive Finds (language : String) (key : List Symbol) (roots : List Root) :
    Except LookupError (Option (List Symbol)) → Prop
  | unread (fails : RootsFail limits store language roots e) : Finds language key roots (.error e)
  | template (reads : ∀ e, ¬RootsFail limits store language roots e)
    (has : RootsHave limits store language key roots template) :
    Finds language key roots (.ok (some template))
  | nothing (reads : ∀ e, ¬RootsFail limits store language roots e)
    (hasNot : ∀ t, ¬RootsHave limits store language key roots t) :
    Finds language key roots (.ok none)

end

variable {limits : Limits} {store : Store} {c : Catalogs}

theorem read_eq_error_iff :
    c.read store language = .error e ↔ RootsFail c.limits store language c.roots e := by
  rw [read, bind_pure_eq_error_iff, mapM_eq_error_iff fun root e' =>
    Root.catalog_eq_error_iff, RootsFail]

theorem read_get? {catalog : Catalog} (h : c.read store language = .ok catalog)
    (key template : List Symbol) :
    catalog.get? key = some template ↔ RootsHave c.limits store language key c.roots template := by
  simp only [read, bind_eq_ok_iff, pure_eq_ok_iff] at h
  obtain ⟨catalogs, hread, rfl⟩ := h
  rw [Catalog.get?_flatten (fun _ _ hroot => Root.catalog_get? hroot key) hread, RootsHave]

theorem finds_iff (c : Catalogs) (language : String) (key : List Symbol) :
    Finds c.limits store language key c.roots result ↔
    result = (c.read store language).map (·.get? key) := by
  constructor
  · intro h
    cases h with
    | unread fails => rw [read_eq_error_iff.mpr fails]; rfl
    | template reads has =>
      simp only [← read_eq_error_iff] at reads
      cases hread : c.read store language with
      | error e => exact absurd hread (reads e)
      | ok catalog => exact congrArg Except.ok ((read_get? hread key _).mpr has).symm
    | nothing reads hasNot =>
      simp only [← read_eq_error_iff] at reads
      cases hread : c.read store language with
      | error e => exact absurd hread (reads e)
      | ok catalog =>
        simp only [← read_get? hread] at hasNot
        exact congrArg Except.ok (Option.eq_none_iff_forall_ne_some.mpr hasNot).symm
  · rintro rfl
    cases hread : c.read store language with
    | error e => exact .unread (read_eq_error_iff.mp hread)
    | ok catalog =>
      have hreads : ∀ e, ¬RootsFail c.limits store language c.roots e := fun e he => by
        simp [read_eq_error_iff.mpr he] at hread
      cases hget : catalog.get? key with
      | some template =>
        simpa [Except.map, hget] using Finds.template hreads ((read_get? hread key _).mp hget)
      | none =>
        have hasNot : ∀ t, ¬RootsHave c.limits store language key c.roots t := fun t ht => by
          simp [(read_get? hread key t).mpr ht] at hget
        simpa [Except.map, hget] using Finds.nothing hreads hasNot

-- ---------------------------------------------------------------------------
-- What has been read
-- ---------------------------------------------------------------------------

/-- What has been read is what the files have. -/
def IsCoherent (store : Store) (c : Catalogs) : Prop :=
  ∀ language catalog, c.loaded.lookup language = some catalog → c.read store language = .ok catalog

def withRoot (roots : List Root) (root : Root) : List Root :=
  if roots.contains root then roots else root :: roots

structure IsOver (store : Store) (roots : List Root) (c c' : Catalogs) : Prop where
  roots : c'.roots = roots
  preferred : c'.preferred = c.preferred
  limits : c'.limits = c.limits
  coherent : c'.IsCoherent store

theorem IsCoherent.addRoot (h : c.IsCoherent store) (root : Root) :
    IsOver store (withRoot c.roots root) c (c.addRoot root) := by
  unfold Catalogs.addRoot withRoot
  split
  · exact ⟨rfl, rfl, rfl, h⟩
  · exact ⟨rfl, rfl, rfl, fun language catalog hlookup => by cases hlookup⟩

/-- What is loaded is what the files hold. A language that cannot be read leaves everything as it
was. -/
theorem IsCoherent.load (h : c.IsCoherent store) (language : String) :
    (∀ key, Finds c.limits store language key c.roots
      ((c.load store language).1.map (·.get? key))) ∧
      IsOver store c.roots c (c.load store language).2 := by
  suffices hload : (c.load store language).1 = c.read store language ∧
      IsOver store c.roots c (c.load store language).2 from
    ⟨fun key => (finds_iff c language key).mpr (by rw [hload.1]), hload.2⟩
  unfold Catalogs.load
  cases hlookup : c.loaded.lookup language with
  | some catalog => exact ⟨(h language catalog hlookup).symm, rfl, rfl, rfl, h⟩
  | none =>
    cases hread : c.read store language with
    | error => exact ⟨rfl, rfl, rfl, rfl, h⟩
    | ok catalog =>
      refine ⟨rfl, rfl, rfl, rfl, fun other catalog' hother => ?_⟩
      rw [List.lookup_cons] at hother
      split at hother
      · rename_i heq
        obtain rfl := beq_iff_eq.mp heq
        exact Option.some.inj hother ▸ hread
      · exact h other catalog' hother

section
variable (limits : Limits) (store : Store) (preferred : Option String)

/-- What a request for a template comes to when nothing has been read before: the template in the
language asked for, else in the default language, else the key, unless a language cannot be read. -/
inductive Answers (roots : List Root) (key : String) (language : Option String) :
    Except LookupError (List Symbol) → Prop
  | unread (h : Finds limits store (target { roots, preferred } language)
    (symbols key) roots (.error e)) :
    Answers roots key language (.error e)
  | inTarget
    (h : Finds limits store (target { roots, preferred } language) (symbols key) roots
      (.ok (some template))) :
    Answers roots key language (.ok template)
  | inDefault
    (missing : Finds limits store (target { roots, preferred } language)
      (symbols key) roots (.ok none))
    (h : Finds limits store defaultLanguage (symbols key) roots outcome) :
    Answers roots key language (outcome.map (·.getD (symbols key)))

end

/-- A request comes to what the files give, whatever has been read. -/
theorem IsCoherent.get (h : c.IsCoherent store) (key : String) (language : Option String) :
    Answers c.limits store c.preferred c.roots key language (c.get store key language).1 ∧
      IsOver store c.roots c (c.get store key language).2 := by
  obtain ⟨hfirst, hread⟩ := h.load (c.target language)
  obtain ⟨hsecond, hover⟩ := hread.coherent.load defaultLanguage
  rw [hread.roots, hread.limits] at hsecond
  unfold Catalogs.get
  cases hload : c.load store (c.target language) with
  | mk loaded after =>
    rw [hload] at hfirst hread hsecond hover
    cases loaded with
    | error e => exact ⟨.unread (hfirst _), hread⟩
    | ok catalog =>
      have htarget := hfirst (symbols key)
      rw [Except.map] at htarget
      cases hget : catalog.get? (symbols key) with
      | some template =>
        rw [hget] at htarget
        simpa only [hget] using ⟨.inTarget htarget, hread⟩
      | none =>
        rw [hget] at htarget
        simp only [hget]
        refine ⟨?_, hover.roots.trans hread.roots, hover.preferred.trans hread.preferred,
          hover.limits.trans hread.limits, hover.coherent⟩
        have hdefault := Answers.inDefault htarget (hsecond _)
        cases hsecond' : (after.load store defaultLanguage).1 <;>
          rw [hsecond'] at hdefault <;> exact hdefault

-- ---------------------------------------------------------------------------
-- Requests one after another
-- ---------------------------------------------------------------------------

inductive Request
  | addRoot (root : Root)
  | get (key : String) (language : Option String)

def serve (store : Store) : Catalogs → List Request → List (Except LookupError (List Symbol))
  | _, [] => []
  | c, .addRoot root :: rest => serve store (c.addRoot root) rest
  | c, .get key language :: rest =>
    (c.get store key language).1 :: serve store (c.get store key language).2 rest

/-- Answers for which only the roots of the moment and the files count. -/
inductive AreAnswers (limits : Limits) (store : Store) (preferred : Option String) :
    List Root → List Request → List (Except LookupError (List Symbol)) → Prop
  | nil {roots : List Root} : AreAnswers limits store preferred roots [] []
  | addRoot {roots : List Root}
    (more : AreAnswers limits store preferred (withRoot roots root) rest answers) :
      AreAnswers limits store preferred roots (.addRoot root :: rest) answers
  | get {roots : List Root} (answer : Answers limits store preferred roots key language outcome)
      (more : AreAnswers limits store preferred roots rest answers) :
      AreAnswers limits store preferred roots (.get key language :: rest) (outcome :: answers)

theorem IsCoherent.serve (h : c.IsCoherent store) (requests : List Request) :
    AreAnswers c.limits store c.preferred c.roots requests (c.serve store requests) := by
  induction requests generalizing c with
  | nil => exact .nil
  | cons request rest ih =>
    cases request with
    | addRoot root =>
      have hover := h.addRoot root
      have hrest := ih hover.coherent
      rw [hover.roots, hover.preferred, hover.limits] at hrest
      exact .addRoot hrest
    | get key language =>
      obtain ⟨hanswer, hover⟩ := h.get key language
      have hrest := ih hover.coherent
      rw [hover.roots, hover.preferred, hover.limits] at hrest
      exact .get hanswer hrest

variable {roots : List Root} {preferred : Option String}

theorem Finds.unique (h : Finds limits store language key roots outcome)
    (h' : Finds limits store language key roots outcome') : outcome = outcome' :=
  ((finds_iff { roots, limits } language key).mp h).trans
    ((finds_iff { roots, limits } language key).mp h').symm

theorem Answers.unique (h : Answers limits store preferred roots key language outcome)
    (h' : Answers limits store preferred roots key language outcome') : outcome = outcome' := by
  cases h with
  | unread h =>
    cases h' with
    | unread h' => exact congrArg Except.error (Except.error.inj (h.unique h'))
    | inTarget h' => cases h.unique h'
    | inDefault missing' _ => cases h.unique missing'
  | inTarget h =>
    cases h' with
    | unread h' => cases h.unique h'
    | inTarget h' => exact congrArg Except.ok (Option.some.inj (Except.ok.inj (h.unique h')))
    | inDefault missing' _ => cases h.unique missing'
  | inDefault missing h =>
    cases h' with
    | unread h' => cases missing.unique h'
    | inTarget h' => cases missing.unique h'
    | inDefault _ h' => rw [h.unique h']

theorem AreAnswers.unique (h : AreAnswers limits store preferred roots requests answers)
    (h' : AreAnswers limits store preferred roots requests answers') : answers = answers' := by
  induction h generalizing answers' with
  | nil =>
    cases h'
    rfl
  | addRoot _ ih =>
    cases h' with
    | addRoot more => exact ih more
  | get answer _ ih =>
    cases h' with
    | get answer' more => rw [answer.unique answer', ih more]

end Catalogs

end DocMerge.Message
