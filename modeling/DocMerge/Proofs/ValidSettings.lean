import DocMerge.Proofs.Complaints
import DocMerge.Proofs.Outcomes

/-!
# Which settings are valid

Settings make a configuration exactly if all of them are known, each has a value that its kind
accepts, and none that is needed is missing. From others a complaint comes out, unless the first
value that is not accepted hides its failure. The names by which a configuration selects are not
empty, so none of them selects everything.
-/

namespace DocMerge

def Policy.selections (p : Policy) : List (List String) :=
  [p.includedAssemblies, p.excludedAssemblies, p.includedNamespaces,
    p.excludedNamespaces, p.includedTypes,
    p.excludedTypes]

def AreTidy (names : List String) : Prop := ∀ name ∈ names, name ≠ "" ∧ trimmed name = name

def Policy.IsTidy (p : Policy) : Prop := ∀ names ∈ p.selections, AreTidy names

theorem AreTidy.not_all (h : AreTidy names) : ¬ ∀ name, Policy.beginsWithAny names name = true := by
  intro hall
  obtain ⟨start, hstart, hempty⟩ := List.any_eq_true.mp (hall "")
  have hne := (h start hstart).1
  cases hchars : start.toList with
  | nil => exact hne (String.toList_inj.mp (by simpa using hchars))
  | cons c cs => simp [Text.hasStart, Text.dropStart?, hchars] at hempty

namespace Settings

open Data (Fields Table Value)
open Files (Path Store)

@[simp] theorem invalid_ne_ok :
    (invalid limits name value expected : Except Failure α) = .ok a ↔ False := by
  simp [invalid]

-- ---------------------------------------------------------------------------
-- Values
-- ---------------------------------------------------------------------------

/-- The texts that a value lists, be it a list or one text with commas: those that are not blank,
without blanks at their ends. -/
inductive Lists : Value → List String → Prop
  | text (s : String) : Lists (.text s) (commaList s)
  | list (texts : List String) : Lists (.list (texts.map .text)) (nonBlank texts)

inductive Counts : Value → Int → Prop
  | int (n : Int) : Counts (.int n) n
  | text (h : Text.integer? s.toList = some n) : Counts (.text s) n

theorem textsOf?_eq_some_iff : textsOf? items = some texts ↔ items = texts.map .text := by
  induction items generalizing texts with
  | nil => cases texts <;> simp [textsOf?]
  | cons item items ih =>
    cases item with
    | text s => cases texts <;> simp [textsOf?, ih, and_comm]
    | null | bool | int | float | moment | list | table => cases texts <;> simp [textsOf?]

theorem readTexts_eq_ok_iff :
    readTexts limits name (some value) = .ok texts ↔ Lists value texts := by
  constructor
  · intro h
    cases value with
    | text s =>
      obtain rfl := Except.ok.inj h
      exact .text s
    | list items =>
      simp only [readTexts] at h
      split at h
      · rename_i given hgiven
        obtain rfl := textsOf?_eq_some_iff.mp hgiven
        obtain rfl := Except.ok.inj h
        exact .list given
      · simp at h
    | null | bool | int | float | moment | table => simp [readTexts] at h
  · intro h
    cases h with
    | text s => rfl
    | list given => simp only [readTexts, textsOf?_eq_some_iff.mpr rfl]

theorem tidy_nonBlank (texts : List String) : AreTidy (nonBlank texts) := by
  intro name hname
  obtain ⟨hmem, hne⟩ := List.mem_filter.mp hname
  obtain ⟨raw, -, rfl⟩ := List.mem_map.mp hmem
  exact ⟨by simpa using hne, trimmed_trimmed raw⟩

theorem tidy_commaList (s : String) : AreTidy (commaList s) := by
  intro name hname
  obtain ⟨cs, hcs, rfl⟩ := List.mem_map.mp hname
  obtain ⟨hmem, hne⟩ := List.mem_filter.mp hcs
  obtain ⟨part, -, rfl⟩ := List.mem_map.mp hmem
  refine ⟨fun hempty => ?_, by simp [trimmed, Text.trim_trim]⟩
  have := congrArg String.toList hempty
  simp_all

theorem Lists.tidy (h : Lists value texts) : AreTidy texts := by
  cases h with
  | text s => exact tidy_commaList s
  | list given => exact tidy_nonBlank given

theorem readThreshold_passes_iff :
    failureOf (readThreshold limits value) = none ↔ ∃ n, Counts value n ∧ 0 ≤ n ∧ n ≤ 100 := by
  have hcheck : ∀ n, (∃ m, checkThreshold limits n = .ok m) ↔ 0 ≤ n ∧ n ≤ 100 := by
    intro n
    unfold checkThreshold
    split <;> simp_all
  rw [failureOf_eq_none_iff]
  constructor
  · intro h
    cases value with
    | int n => exact ⟨n, .int n, (hcheck n).mp h⟩
    | text s =>
      cases hn : Text.integer? s.toList with
      | none => simp [readThreshold, hn] at h
      | some n =>
        simp only [readThreshold, hn] at h
        exact ⟨n, .text hn, (hcheck n).mp h⟩
    | null | bool | float | moment | list | table => simp [readThreshold] at h
  · rintro ⟨n, hcounts, hrange⟩
    cases hcounts with
    | int n => exact (hcheck n).mpr hrange
    | text hn =>
      simp only [readThreshold, hn]
      exact (hcheck n).mpr hrange

theorem readField_passes_iff : failureOf (readField limits raw) = none ↔
    ∃ field ∈ DocField.all, field.name = String.ofList (Text.lowerCase raw.toList) := by
  rw [failureOf_eq_none_iff, readField, DocField.ofName?]
  cases hfind : DocField.all.find? (·.name == String.ofList (Text.lowerCase raw.toList)) with
  | some field =>
    have hname := List.find?_some hfind
    simp only [Except.ok.injEq, exists_eq', true_iff]
    exact ⟨field, List.mem_of_find?_eq_some hfind, by simpa using hname⟩
  | none =>
    have hno := List.find?_eq_none.mp hfind
    simpa using hno

section
variable (s : Surroundings) (base : Path)

def NamesDirectory (raw : String) : Prop :=
  ∃ path, s.expand (Path.ofString raw) = .ok path ∧ s.store.isOverlong (base.join path) = false ∧
    s.store.isDirectory (base.join path) = true

theorem readDirectory_passes_iff (name raw : String) :
    failureOf (readDirectory s base name raw) = none ↔ NamesDirectory s base raw := by
  rw [failureOf_eq_none_iff, readDirectory, NamesDirectory]
  cases s.expand (Path.ofString raw) with
  | error f => simp [bind, Except.bind]
  | ok path =>
    simp only [bind, Except.bind]
    split
    · simp_all
    · split <;> simp_all

def Kind.Accepts (value : Value) : Kind → Prop
  | switch => ∃ b, value = .bool b
  | names => ∃ texts, Lists value texts
  | directories => ∃ texts, Lists value texts ∧ ∀ raw ∈ texts, NamesDirectory s base raw
  | threshold => ∃ n, Counts value n ∧ 0 ≤ n ∧ n ≤ 100
  | fields => ∃ texts, Lists value texts ∧ ∀ raw ∈ texts,
    ∃ field ∈ DocField.all, field.name = String.ofList (Text.lowerCase raw.toList)

theorem readEach_passes_iff {read : String → Except Failure β} :
    failureOf (readTexts limits name (some value) >>= fun texts => texts.mapM read) = none ↔
      ∃ texts, Lists value texts ∧ ∀ raw ∈ texts, failureOf (read raw) = none := by
  have hlists : ∀ texts, Lists value texts ↔ readTexts limits name (some value) = .ok texts :=
    fun _ => readTexts_eq_ok_iff.symm
  simp only [hlists, failureOf_readEach]
  cases readTexts limits name (some value) <;> simp

theorem Kind.failure_eq_none_iff (kind : Kind) (name : String) (value : Value) :
    kind.failure s base name value = none ↔ kind.Accepts s base value := by
  cases kind with
  | switch => cases value <;> simp [Kind.failure, Kind.Accepts, failureOf_invalid]
  | names => simp only [Kind.failure, Kind.Accepts, failureOf_eq_none_iff, readTexts_eq_ok_iff]
  | directories =>
    simp only [Kind.failure, Kind.Accepts, readDirectories, readEach_passes_iff,
      readDirectory_passes_iff]
  | threshold => exact readThreshold_passes_iff
  | fields =>
    simp only [Kind.failure, Kind.Accepts, readFields, readEach_passes_iff, readField_passes_iff]

-- ---------------------------------------------------------------------------
-- Settings
-- ---------------------------------------------------------------------------

def ListsSome (values : Table) (name : String) : Prop :=
  ∃ value texts, Fields.get? values name = some value ∧ Lists value texts ∧ texts ≠ []

def IsAccepted (values : Table) (setting : String × Kind) : Prop :=
  ∀ value, Fields.get? values setting.1 = some value → setting.2.Accepts s base value

structure IsValid (needsSources : Bool) (values : Table) : Prop where
  known : ∀ setting ∈ values, setting.1 ∈ settingKinds.map (·.1)
  accepted : ∀ setting ∈ settingKinds, IsAccepted s base values setting
  docs : ListsSome values Mandatory.docs.name
  sources : needsSources = true → ListsSome values Mandatory.sources.name
  assemblies : ListsSome values Mandatory.assemblies.name

/-- Whether the first setting whose value is not accepted hides its failure. -/
def IsHidden (values : Table) : Prop :=
  (∀ setting ∈ values, setting.1 ∈ settingKinds.map (·.1)) ∧
    ∃ before setting behind f, settingKinds = before ++ setting :: behind ∧
      (∀ other ∈ before, IsAccepted s base values other) ∧ Hides s base values setting f

theorem unknownNames_eq_nil_iff (values : Table) :
    unknownNames values = [] ↔ ∀ setting ∈ values, setting.1 ∈ settingKinds.map (·.1) := by
  have hnames : settingKinds.map (·.1) = known := by
    simp [settingKinds, known, directorySettings, Function.comp_def]
  rw [unknownNames, hnames, ← List.length_eq_zero_iff, List.length_mergeSort,
    List.length_eq_zero_iff]
  simp [List.filter_eq_nil_iff]

theorem trouble_eq_none_iff (values : Table) (setting : String × Kind) :
    trouble s base values setting = none ↔ IsAccepted s base values setting := by
  simp only [trouble, Option.bind_eq_none_iff, Kind.failure_eq_none_iff, IsAccepted]

theorem readTexts_ne_nil_iff {values : Table}
    (h : readTexts limits name (Fields.get? values name) = .ok texts) :
    texts ≠ [] ↔ ListsSome values name := by
  unfold ListsSome
  cases hvalue : Fields.get? values name with
  | none =>
    rw [hvalue] at h
    obtain rfl : [] = texts := Except.ok.inj h
    simp
  | some value =>
    rw [hvalue] at h
    constructor
    · exact fun hne => ⟨value, texts, rfl, readTexts_eq_ok_iff.mp h, hne⟩
    · rintro ⟨value', texts', hvalue', hlists, hne⟩
      obtain rfl := Option.some.inj hvalue'
      obtain rfl := Except.ok.inj (h.symm.trans (readTexts_eq_ok_iff.mpr hlists))
      exact hne

theorem readDirectories_ne_nil_iff {values : Table}
    (h : readDirectories s base name (Fields.get? values name) = .ok paths) :
    paths ≠ [] ↔ ListsSome values name := by
  obtain ⟨texts, htexts, hpaths⟩ := bind_eq_ok_iff.mp h
  rw [← readTexts_ne_nil_iff htexts, ← List.length_pos_iff, ← List.length_pos_iff,
    length_of_mapM hpaths]

theorem checkMandatory_eq_ok_iff : checkMandatory needsSources c = .ok c' ↔
    c' = c ∧ c.docs ≠ [] ∧ (needsSources = true → c.sources ≠ []) ∧
    c.policy.includedAssemblies ≠ [] := by
  rw [eq_comm (a := c')]
  unfold checkMandatory
  split
  · rename_i hdocs
    simp [List.isEmpty_iff.mp hdocs]
  · rename_i hdocs
    split
    · rename_i hsources
      simp only [Bool.and_eq_true, List.isEmpty_iff] at hsources
      simp [hsources]
    · rename_i hsources
      split
      · rename_i hassemblies
        simp [List.isEmpty_iff.mp hassemblies]
      · rename_i hassemblies
        simp only [List.isEmpty_iff, Bool.and_eq_true, not_and] at hdocs hsources hassemblies
        simp only [Except.ok.injEq, ne_eq, hdocs, not_false_eq_true, hassemblies, true_and,
          and_true, iff_self_and]
        exact fun _ => hsources

theorem configure_eq_ok_iff {needsSources : Bool} {settings : Table} :
    configure s base needsSources settings = .ok c ↔
      unknownNames (given settings) = [] ∧ ∃ p,
      switches.foldlM (applySwitch s.limits (given settings)) {} = .ok p ∧
        ∃ q, nameSets.foldlM (applyNames s.limits (given settings)) p = .ok q ∧
        ∃ docs, readDirectories s base Mandatory.docs.name
          (Fields.get? (given settings) Mandatory.docs.name) = .ok docs ∧
        ∃ sources, readDirectories s base Mandatory.sources.name
          (Fields.get? (given settings) Mandatory.sources.name) =
          .ok sources ∧
        ∃ r, applyThreshold s.limits (given settings) q = .ok r ∧
        ∃ fields, readFields s.limits (Fields.get? (given settings) fieldsName) = .ok fields ∧
          checkMandatory needsSources
            { docs, sources, policy := { r with overwritten := fields.eraseDups } } = .ok c := by
  by_cases hknown : unknownNames (given settings) = []
  · have hnone : (!(unknownNames (given settings)).isEmpty) = false := by simp [hknown]
    rw [and_iff_right hknown]
    simp only [configure, hnone, Bool.false_eq_true, if_false, bind_eq_ok_iff]
  · have hthrown : (!(unknownNames (given settings)).isEmpty) = true := by simpa using hknown
    simp only [configure, hthrown, if_true, hknown, false_and, iff_false]
    intro h
    cases h

end

-- ---------------------------------------------------------------------------
-- Selections
-- ---------------------------------------------------------------------------

theorem eraseDups_eq_nil_iff {names : List String} : names.eraseDups = [] ↔ names = [] := by
  cases names <;> simp [List.eraseDups_cons]

theorem AreTidy.eraseDups (h : AreTidy names) : AreTidy names.eraseDups := fun name hname =>
  h name (List.mem_eraseDups.mp hname)

theorem setSwitch_selections :
    ∀ switch ∈ switches, ∀ p b, (switch.2 p b).selections = p.selections := by
  simp [switches, Policy.selections]

theorem setNames_selections :
    ∀ names ∈ nameSets, ∀ p texts, ∀ selection ∈ (names.2 p texts).selections,
    selection = texts ∨ selection ∈ p.selections := by
  simp [nameSets, Policy.selections]

theorem applySwitch_selections (hmem : switch ∈ switches)
    (h : applySwitch limits values p switch = .ok p') :
    p'.selections = p.selections := by
  unfold applySwitch at h
  split at h
  · rw [← Except.ok.inj h]
  · rw [← Except.ok.inj h]
    exact setSwitch_selections switch hmem p _
  · simp at h

theorem applyNames_tidy (hmem : names ∈ nameSets) (hp : p.IsTidy)
    (h : applyNames limits values p names = .ok p') :
    p'.IsTidy := by
  obtain ⟨texts, htexts, hset⟩ := bind_eq_ok_iff.mp h
  rw [← Except.ok.inj hset]
  intro selection hselection
  rcases setNames_selections names hmem p _ selection hselection with rfl | hbefore
  · cases hvalue : Fields.get? values names.1 with
    | none =>
      rw [hvalue] at htexts
      rw [← Except.ok.inj htexts]
      simp [AreTidy]
    | some value =>
      rw [hvalue, readTexts_eq_ok_iff] at htexts
      exact AreTidy.eraseDups htexts.tidy
  · exact hp selection hbefore

theorem applyThreshold_selections (h : applyThreshold limits values p = .ok p') :
    p'.selections = p.selections := by
  unfold applyThreshold at h
  split at h
  · rw [← Except.ok.inj h]
  · rename_i value hvalue
    cases hread : readThreshold limits value with
    | error f =>
      rw [hread] at h
      exact nomatch h
    | ok n =>
      rw [hread] at h
      rw [← Except.ok.inj h]
      rfl

/-- Of the sets of names, the first is that of the assemblies, and the others leave it alone. -/
theorem assemblies_ne_nil_iff (h : nameSets.foldlM (applyNames limits values) p = .ok q) :
    q.includedAssemblies ≠ [] ↔ ListsSome values Mandatory.assemblies.name := by
  rw [nameSets, List.foldlM_cons, bind_eq_ok_iff] at h
  obtain ⟨first, hfirst, hrest⟩ := h
  obtain ⟨texts, htexts, hset⟩ := bind_eq_ok_iff.mp hfirst
  have hassemblies : first.includedAssemblies = texts.eraseDups := by rw [← Except.ok.inj hset]
  have hkept : q.includedAssemblies = texts.eraseDups := by
    refine foldlM_keeps (P := fun p => p.includedAssemblies = texts.eraseDups)
      (fun names hnames p p' hp hstep => ?_)
      hassemblies hrest
    obtain ⟨others, -, hothers⟩ := bind_eq_ok_iff.mp hstep
    rw [← Except.ok.inj hothers, ← hp]
    simp only [List.mem_cons, List.not_mem_nil, or_false] at hnames
    rcases hnames with rfl | rfl | rfl | rfl | rfl <;> rfl
  rw [hkept, ne_eq, eraseDups_eq_nil_iff]
  exact readTexts_ne_nil_iff htexts

-- ---------------------------------------------------------------------------
-- Configurations
-- ---------------------------------------------------------------------------

section
variable {s : Surroundings} {base : Path} {needsSources : Bool} {settings : Table}

theorem configure_tidy (h : configure s base needsSources settings = .ok c) : c.policy.IsTidy := by
  obtain ⟨-, p, hp, q, hq, docs, -, sources, -, r, hr, fields, -, hmandatory⟩ :=
    (configure_eq_ok_iff s base).mp h
  obtain ⟨rfl, -⟩ := checkMandatory_eq_ok_iff.mp hmandatory
  have hdefault : ({} : Policy).IsTidy := by simp [Policy.IsTidy, Policy.selections, AreTidy]
  have hswitches : p.IsTidy := by
    refine foldlM_keeps (fun switch hswitch p p' htidy hstep => ?_) hdefault hp
    rwa [Policy.IsTidy, applySwitch_selections hswitch hstep]
  have hnames : q.IsTidy :=
    foldlM_keeps (fun names hmem p p' htidy hstep => applyNames_tidy hmem htidy hstep) hswitches hq
  rwa [Policy.IsTidy, ← applyThreshold_selections hr] at hnames

theorem isValid_of_configure (h : configure s base needsSources settings = .ok c) :
    IsValid s base needsSources (given settings) := by
  obtain ⟨hknown, p, hp, q, hq, docs, hdocs, sources, hsources, r, hr, fields,
      hfields, hmandatory⟩ :=
    (configure_eq_ok_iff s base).mp h
  obtain ⟨-, hsomeDocs, hsomeSources, hsomeAssemblies⟩ := checkMandatory_eq_ok_iff.mp hmandatory
  have hselections := applyThreshold_selections hr
  have hassemblies : r.includedAssemblies = q.includedAssemblies := (List.cons.inj hselections).1
  refine ⟨(unknownNames_eq_nil_iff _).mp hknown, fun setting hsetting => ?_, ?_,
    fun hneeds => ?_, ?_⟩
  · have hnone : settingKinds.findSome? (trouble s base (given settings)) = none := by
      rcases configure_failsAs s base hknown needsSources with hfails | ⟨hnone, -⟩
      · rw [← hfails, h]
        rfl
      · exact hnone
    exact (trouble_eq_none_iff s base _ _).mp (List.findSome?_eq_none_iff.mp hnone setting hsetting)
  · exact (readDirectories_ne_nil_iff s base hdocs).mp hsomeDocs
  · exact (readDirectories_ne_nil_iff s base hsources).mp (hsomeSources hneeds)
  · rw [← assemblies_ne_nil_iff hq, ← hassemblies]
    exact hsomeAssemblies

theorem configure_of_isValid (h : IsValid s base needsSources (given settings)) :
    ∃ c, configure s base needsSources settings = .ok c := by
  have hnone : ∀ setting ∈ settingKinds, trouble s base (given settings) setting = none :=
    fun setting hsetting =>
    (trouble_eq_none_iff s base _ _).mpr (h.accepted setting hsetting)
  simp only [settingKinds, directorySettings, List.forall_mem_append, List.forall_mem_map,
    List.forall_mem_cons,
    List.not_mem_nil, false_implies, implies_true, and_true, List.map_cons, List.map_nil] at hnone
  obtain ⟨⟨⟨hswitches, hnames⟩, hdocs, hsources⟩, hthreshold, hfields⟩ := hnone
  -- A setting without trouble is read, so each step makes something for the next one.
  rw [← List.findSome?_eq_none_iff,
    ← failureOf_foldlM (failureOf_applySwitch s base (given settings)) switches {},
    failureOf_eq_none_iff] at hswitches
  obtain ⟨p, hp⟩ := hswitches
  rw [← List.findSome?_eq_none_iff,
    ← failureOf_foldlM (failureOf_applyNames s base (given settings)) nameSets p,
    failureOf_eq_none_iff] at hnames
  obtain ⟨q, hq⟩ := hnames
  rw [← failureOf_readDirectories, failureOf_eq_none_iff] at hdocs hsources
  obtain ⟨docs, hdocs⟩ := hdocs
  obtain ⟨sources, hsources⟩ := hsources
  rw [← failureOf_applyThreshold s base (given settings) q, failureOf_eq_none_iff] at hthreshold
  obtain ⟨r, hr⟩ := hthreshold
  rw [← failureOf_readFields, failureOf_eq_none_iff] at hfields
  obtain ⟨fields, hfields⟩ := hfields
  have hassemblies : r.includedAssemblies = q.includedAssemblies :=
    (List.cons.inj (applyThreshold_selections hr)).1
  refine ⟨_, (configure_eq_ok_iff s base).mpr
    ⟨(unknownNames_eq_nil_iff _).mpr h.known, p, hp, q, hq, docs, hdocs, sources,
    hsources, r, hr, fields, hfields, checkMandatory_eq_ok_iff.mpr ⟨rfl, ?_, fun hneeds => ?_, ?_⟩⟩⟩
  · exact (readDirectories_ne_nil_iff s base hdocs).mpr h.docs
  · exact (readDirectories_ne_nil_iff s base hsources).mpr (h.sources hneeds)
  · rw [show r.includedAssemblies = q.includedAssemblies from hassemblies, assemblies_ne_nil_iff hq]
    exact h.assemblies

theorem isHidden_iff :
    IsHidden s base (given settings) ↔ ∃ f, configure s base needsSources settings = .error f ∧
    f.isTold = false := by
  simp only [configure_untold_iff, unknownNames_eq_nil_iff, trouble_eq_none_iff, IsHidden]
  constructor
  · rintro ⟨hknown, before, setting, behind, f, hsplit, hbefore, hhides⟩
    exact ⟨f, hknown, before, setting, behind, hsplit, hbefore, hhides⟩
  · rintro ⟨f, hknown, before, setting, behind, hsplit, hbefore, hhides⟩
    exact ⟨hknown, before, setting, behind, f, hsplit, hbefore, hhides⟩

theorem mem_directorySettings (h : (name, Kind.directories) ∈ settingKinds) :
    name ∈ directorySettings := by
  simpa [settingKinds, directorySettings] using h

/-- Nothing is hidden where all values can be shown and one can ask for every directory. -/
theorem not_isHidden {values : Table}
    (hshow : ∀ setting ∈ values, unshown? s.limits setting.2 = none)
    (hasked : ∀ name ∈ directorySettings, ∀ value texts, Fields.get? values name = some value →
      Lists value texts →
      ∀ raw ∈ texts, ∀ f, ¬ Unasked s base raw f) :
    ¬ IsHidden s base values := by
  rintro ⟨-, before, setting, behind, f, hsplit, -, hhides⟩
  cases hhides with
  | unshown hvalue hunshown =>
    have := hshow _ (mem_of_get? hvalue)
    simp_all
  | @directory name _ _ _ _ _ hvalue hread _ hraw =>
    have hname : (name, Kind.directories) ∈ settingKinds := by simp [hsplit]
    exact hasked _ (mem_directorySettings hname) _ _ hvalue
      (readTexts_eq_ok_iff.mp hread) _ (by simp) f hraw

/-- A configuration comes out exactly if the settings are valid, and otherwise a complaint, unless
the failure is hidden. No configuration selects by an empty name. -/
theorem configure_accepts (s : Surroundings) (base : Path) (needsSources : Bool)
    (settings : Table) :
    ((∃ c, configure s base needsSources settings = .ok c) ↔
      IsValid s base needsSources (given settings)) ∧
    ((∃ c, configure s base needsSources settings = .error (.complaint c)) ↔
      ¬ IsValid s base needsSources (given settings) ∧ ¬ IsHidden s base (given settings)) ∧
    ((∀ setting ∈ given settings, unshown? s.limits setting.2 = none) →
      (∀ name ∈ directorySettings, ∀ value texts, Fields.get? (given settings) name = some value →
        Lists value texts →
        ∀ raw ∈ texts, ∀ f, ¬ Unasked s base raw f) →
      ¬ IsHidden s base (given settings)) ∧
    (∀ c, configure s base needsSources settings = .ok c → c.policy.IsTidy ∧
      ∀ names ∈ c.policy.selections, ¬ ∀ name, Policy.beginsWithAny names name = true) := by
  have hvalid : (∃ c, configure s base needsSources settings = .ok c) ↔
      IsValid s base needsSources (given settings) :=
    ⟨fun ⟨_, h⟩ => isValid_of_configure h, configure_of_isValid⟩
  refine ⟨hvalid, ?_, not_isHidden, fun c h => ⟨configure_tidy h, fun names hnames => ?_⟩⟩
  · have hhidden : IsHidden s base (given settings) ↔
        ∃ f, configure s base needsSources settings = .error f ∧ f.isTold = false := isHidden_iff
    rw [← hvalid, hhidden]
    cases configure s base needsSources settings with
    | ok c => simp
    | error f => cases f <;> simp [Failure.isTold]
  · exact (configure_tidy h names hnames).not_all

theorem configure_alone {value : Value} (hset : isSet value = true)
    (hsplit : settingKinds = before ++ (name, kind) :: behind)
    (hfirst : ∀ other ∈ before, other.1 ≠ name)
    (hhides : Hides s base [(name, value)] (name, kind) f) :
    configure s base needsSources [(name, value)] = .error f := by
  have hgiven : given [(name, value)] = [(name, value)] := by simp [given, hset]
  have hknown : unknownNames [(name, value)] = [] := by
    rw [unknownNames_eq_nil_iff, hsplit]
    simp
  refine ((configure_untold_iff s base needsSources _).mpr ?_).1
  rw [hgiven]
  refine ⟨hknown, before, _, behind, hsplit, fun other hother => ?_, hhides⟩
  have hnone : Fields.get? [(name, value)] other.1 = none := by
    simp [Fields.get?, List.lookup_eq_none_iff, hfirst other hother]
  rw [trouble, hnone]
  rfl

def leastUnwritten : Int := Nat.pow 10 Text.longestInteger

/-- Nobody is told of a threshold with more digits than can be written, nor of a directory that is a
tilde behind a single dot. -/
theorem settings_hidden :
    configure { store := {} } ⟨true, []⟩ true [(thresholdName, .int leastUnwritten)] =
    .error .longInteger ∧
      configure { store := {} } ⟨true, []⟩ true
        [(Mandatory.docs.name, .text "./~nobody")] = .error .noHome ∧
      ¬ ∀ s base needsSources settings, (∃ c, configure s base needsSources settings = .ok c) ∨
        ∃ c, configure s base needsSources settings = .error (.complaint c) := by
  have hwritten : Text.isWritten leastUnwritten = false := by
    rw [Bool.eq_false_iff, ne_eq, Text.isWritten_iff, leastUnwritten, Int.natAbs_natCast]
    exact Nat.lt_irrefl _
  have hlong : unshown? {} (.int leastUnwritten) = some .longInteger := by
    simp [unshown?, Data.Datum.unshown?, hwritten]
  have hthreshold :
      configure { store := {} } ⟨true, []⟩ true [(thresholdName, .int leastUnwritten)] =
      .error .longInteger := by
    have hplace : settingKinds = settingKinds.take 16 ++ (thresholdName, .threshold) ::
        [(fieldsName, .fields)] := rfl
    exact configure_alone rfl hplace (by decide) (.unshown rfl hlong)
  have hitems : commaList "./~nobody" = ["./~nobody"] := by decide +kernel
  have hpath : Path.ofString "./~nobody" = ⟨false, ["~nobody"]⟩ := by decide +kernel
  have hhome : Surroundings.Homeless { store := {} } (Path.ofString "./~nobody") .noHome :=
    ⟨by rw [hpath], "~nobody", "nobody".toList, [], by rw [hpath], by decide,
      (homeOf_error_iff _).mpr (.inr ⟨by simp, rfl, rfl⟩)⟩
  have hread : readTexts {} Mandatory.docs.name (some (.text "./~nobody")) =
      .ok ([] ++ "./~nobody" :: []) :=
    congrArg Except.ok hitems
  have hdocs :
      configure { store := {} } ⟨true, []⟩ true [(Mandatory.docs.name, .text "./~nobody")] =
      .error .noHome := by
    have hplace :
        settingKinds = settingKinds.take 14 ++ (Mandatory.docs.name, .directories) ::
        settingKinds.drop 15 := rfl
    exact configure_alone rfl hplace (by decide) (.directory rfl hread (by simp) (.homeless hhome))
  refine ⟨hthreshold, hdocs, fun hall => ?_⟩
  rcases hall { store := {} } ⟨true, []⟩ true
    [(thresholdName, .int leastUnwritten)] with ⟨c, hc⟩ | ⟨c, hc⟩ <;>
    rw [hthreshold] at hc <;> cases hc

end

end Settings

end DocMerge
