import DocMerge.Command.Execution
import DocMerge.Proofs.Checks
import DocMerge.Proofs.Templates
import DocMerge.Proofs.Undocumented

/-!
# Failures of which nobody is told

Bad settings are to end in a complaint. Settings are read from a project file, overridden and
checked, so a configuration is had, or a complaint, unless the first failure is another one: the
project file cannot be looked up, is not UTF-8, or writes too long an integer or values too deep;
what should hold the settings of all tools is no table; a home directory is unknown; or a value that
is complained of cannot be shown. A command that is executed then stops and says nothing.
-/

namespace DocMerge.Settings

open Data (Fields Table Value)
open Files (Path Store)

-- ---------------------------------------------------------------------------
-- Project files
-- ---------------------------------------------------------------------------

inductive Misplaced (limits : Limits) (file : Table) : Failure → Prop
  | noTable (htool : Fields.get? file "tool" = some value) (hno : ∀ tools, value ≠ .table tools) :
    Misplaced limits file .noTable
  | unshown (htool : Fields.get? file "tool" = some (.table tools))
    (hvalue : Fields.get? tools "docport" = some value)
    (hno : ∀ settings, value ≠ .table settings) (hshow : unshown? limits value = some f) :
    Misplaced limits file f

section
variable (limits : Limits)

theorem inProject_untold_iff (file : Table) :
    inProject limits file = .error f ∧ f.isTold = false ↔ Misplaced limits file f := by
  constructor
  · rintro ⟨hfile, huntold⟩
    unfold inProject at hfile
    split at hfile
    · cases hfile
    · rename_i tools htool
      split at hfile
      · cases hfile
      · cases hfile
      · rename_i value hno hvalue
        have htells := tells_invalid limits Table sectionName value .table
        rw [hfile] at htells
        exact .unshown htool hvalue hno (htells.of_untold huntold)
    · rename_i value hno htool
      cases hfile
      exact .noTable htool hno
  · intro h
    cases h with
    | noTable htool hno => exact ⟨by simp only [inProject, htool], rfl⟩
    | unshown htool hvalue hno hshow =>
      refine ⟨?_, unshown?_untold hshow⟩
      simp only [inProject, htool, hvalue]
      exact failureOf_eq_some_iff.mp
        ((tells_invalid limits Table sectionName _ .table).of_unshown hshow)

/-- A failure of which nobody is told, of a project file with some content. -/
inductive Unparsed (limits : Limits) (content : ByteArray) : Failure → Prop
  | notUtf8 (htext : Files.textOf? content = none) : Unparsed limits content .notUtf8
  | longInteger (htext : Files.textOf? content = some text)
    (hparse : Data.Toml.parse limits.settings text = .error .longInteger) :
    Unparsed limits content .longInteger
  | tooDeep (htext : Files.textOf? content = some text)
    (hparse : Data.Toml.parse limits.settings text = .error .tooDeep) :
    Unparsed limits content .tooDeep
  | misplaced (htext : Files.textOf? content = some text)
    (hparse : Data.Toml.parse limits.settings text = .ok file)
    (hfile : Misplaced limits file f) : Unparsed limits content f

theorem parse_untold_iff (path : Path) (content : ByteArray) :
    parse limits path content = .error f ∧ f.isTold = false ↔ Unparsed limits content f := by
  constructor
  · rintro ⟨hparse, huntold⟩
    unfold parse at hparse
    split at hparse
    · rename_i htext
      cases hparse
      exact .notUtf8 htext
    · rename_i text htext
      split at hparse
      · rename_i file hfile
        exact .misplaced htext hfile ((inProject_untold_iff limits file).mp ⟨hparse, huntold⟩)
      · cases hparse
        cases huntold
      · rename_i hfile
        cases hparse
        exact .longInteger htext hfile
      · rename_i hfile
        cases hparse
        exact .tooDeep htext hfile
  · intro h
    cases h with
    | notUtf8 htext => exact ⟨by simp only [parse, htext], rfl⟩
    | longInteger htext hparse | tooDeep htext hparse =>
      exact ⟨by simp only [parse, htext, hparse], rfl⟩
    | misplaced htext hparse hfile =>
      simp only [parse, htext, hparse]
      exact (inProject_untold_iff limits _).mpr hfile

inductive Unread (store : Store) (start : Path) : Failure → Prop
  | longName (hlong : store.isOverlong (start.resolved / Files.projectFileName) = true) :
    Unread store start .longName
  | file (hshort : store.isOverlong (start.resolved / Files.projectFileName) = false)
    (hfile : Files.projectFile? store start = some path) (hread : store.read path = .ok content)
    (hunparsed : Unparsed limits content f) : Unread store start f

theorem read_untold_iff (store : Store) (start : Path) :
    ProjectSettings.read limits store start = .error f ∧ f.isTold = false ↔
    Unread limits store start f := by
  constructor
  · rintro ⟨hread, huntold⟩
    unfold ProjectSettings.read at hread
    split at hread
    · rename_i hlong
      cases hread
      exact .longName hlong
    · rename_i hshort
      split at hread
      · cases hread
      · rename_i path hfile
        split at hread
        · cases hread
          cases huntold
        · rename_i content hcontent
          rw [← failureOf_eq_some_iff, failureOf_map, failureOf_eq_some_iff] at hread
          exact .file (by simpa using hshort) hfile hcontent
            ((parse_untold_iff limits path content).mp ⟨hread, huntold⟩)
  · intro h
    cases h with
    | longName hlong => exact ⟨by simp [ProjectSettings.read, hlong], rfl⟩
    | @file path content f hshort hfile hread hunparsed =>
      obtain ⟨hparse, huntold⟩ := (parse_untold_iff limits path content).mpr hunparsed
      exact ⟨by simp [ProjectSettings.read, hshort, hfile, hread, hparse, Except.map], huntold⟩

end

-- ---------------------------------------------------------------------------
-- Overriding
-- ---------------------------------------------------------------------------

def itemsOf : Value → List Value
  | .text raw => (commaList raw).map .text
  | .list items => items
  | _ => []

def overridingItems (changes : Table) : List Value :=
  directorySettings.flatMap (fun name => ((Fields.get? changes name).map itemsOf).getD [])

section
variable (s : Surroundings) (here : Path)

theorem failureOf_anchor (value : Value) :
    failureOf (anchor s here value) = (itemsOf value).findSome?
      (fun item => failureOf (anchorItem s here item)) := by
  have hitems : ∀ items, failureOf (anchorItems s here items) =
      items.findSome? (fun item => failureOf (anchorItem s here item)) := by
    intro items
    rw [anchorItems, failureOf_map, failureOf_mapM]
  cases value with
  | text raw => exact hitems _
  | list items => exact hitems items
  | null | bool | int | float | moment | table => rfl

theorem failureOf_override (settings changes : Table) :
    failureOf (override s here settings changes) =
    (overridingItems changes).findSome? (fun item => failureOf (anchorItem s here item)) := by
  have hsetting : ∀ (settings : Table) (name : String),
      failureOf (anchorSetting s here changes settings name) =
      (((Fields.get? changes name).map itemsOf).getD []).findSome?
        (fun item => failureOf (anchorItem s here item)) := by
    intro settings name
    unfold anchorSetting
    cases Fields.get? changes name with
    | none => rfl
    | some value =>
      rw [failureOf_map]
      exact failureOf_anchor s here value
  rw [override, failureOf_foldlM hsetting]
  simp only [overridingItems, directorySettings, findSome?_cons, List.findSome?_nil,
    List.flatMap_cons, List.flatMap_nil,
    List.findSome?_append]

inductive Unanchored : Value → Failure → Prop
  | noText (hno : ∀ raw, item ≠ .text raw) : Unanchored item .noText
  | homeless (hraw : trimmed raw ≠ "") (hhome : s.Homeless (Path.ofString (trimmed raw)) f) :
    Unanchored (.text raw) f

theorem Unanchored.untold (h : Unanchored s item f) : f.isTold = false := by
  cases h with
  | noText => rfl
  | homeless _ hhome => exact hhome.untold

theorem anchorItem_error_iff : anchorItem s here item = .error f ↔ Unanchored s item f := by
  constructor
  · intro h
    unfold anchorItem at h
    split at h
    · split at h
      · cases h
      · rename_i raw hblank
        rw [← failureOf_eq_some_iff, failureOf_map, failureOf_eq_some_iff] at h
        exact .homeless (by simpa using hblank) ((expand_error_iff s).mp h)
    · rename_i hno
      obtain rfl := Except.error.inj h
      exact .noText hno
  · intro h
    cases h with
    | noText hno => simp only [anchorItem]
    | homeless hraw hhome =>
      rw [anchorItem, if_neg (by simpa using hraw), (expand_error_iff s).mpr hhome]
      rfl

/-- Settings cannot be overridden where the first directory with something wrong cannot be
anchored. -/
theorem override_error_iff (settings changes : Table) :
    override s here settings changes = .error f ↔
    ∃ first item rest, overridingItems changes = first ++ item :: rest ∧ Unanchored s item f ∧
      ∀ other ∈ first, ∀ g, ¬ Unanchored s other g := by
  rw [← failureOf_eq_some_iff, failureOf_override, List.findSome?_eq_some_iff]
  simp only [Option.eq_none_iff_forall_ne_some, ne_eq, failureOf_eq_some_iff, anchorItem_error_iff]

end

-- ---------------------------------------------------------------------------
-- Loading
-- ---------------------------------------------------------------------------

section
variable (s : Surroundings) (here : Path)

/-- The failures of which nobody is told. Each is the first of all that go wrong. -/
inductive Untold (overrides : Table) : Failure → Prop
  /-- The project file cannot be read. -/
  | project (hunread : Unread s.limits s.store here f) : Untold overrides f
  /-- A directory that overrides others has something wrong. -/
  | overriding (hread : ProjectSettings.read s.limits s.store here = .ok project)
    (hitems : overridingItems (given overrides) = first ++ item :: rest)
    (hitem : Unanchored s item f)
    (hfirst : ∀ other ∈ first, ∀ g, ¬ Unanchored s other g) : Untold overrides f
  /-- A setting has a value that hides its failure. -/
  | setting (hread : ProjectSettings.read s.limits s.store here = .ok project)
    (hoverride : override s here project.table (given overrides) = .ok settings)
    (hknown : unknownNames (given settings) = [])
    (hsplit : settingKinds = before ++ setting :: behind)
    (hbefore : ∀ other ∈ before, trouble s project.base (given settings) other = none)
    (hhides : Hides s project.base (given settings) setting f) : Untold overrides f

theorem configure_untold_iff (base : Path) (needsSources : Bool) (settings : Table) :
    configure s base needsSources settings = .error f ∧ f.isTold = false ↔
      unknownNames (given settings) = [] ∧ ∃ before setting behind,
      settingKinds = before ++ setting :: behind ∧
        (∀ other ∈ before, trouble s base (given settings) other = none) ∧
        Hides s base (given settings) setting f := by
  by_cases hknown : unknownNames (given settings) = []
  · rw [(configure_failsAs s base hknown needsSources).untold_iff, List.findSome?_eq_some_iff]
    constructor
    · rintro ⟨⟨before, setting, behind, hsplit, htrouble, hbefore⟩, huntold⟩
      exact ⟨hknown, before, setting, behind, hsplit, hbefore,
        (hides_iff s base _ setting).mp ⟨htrouble, huntold⟩⟩
    · rintro ⟨-, before, setting, behind, hsplit, hbefore, hhides⟩
      obtain ⟨htrouble, huntold⟩ := (hides_iff s base _ setting).mpr hhides
      exact ⟨⟨before, setting, behind, hsplit, htrouble, hbefore⟩, huntold⟩
  · have hthrown : (!(unknownNames (given settings)).isEmpty) = true := by simpa using hknown
    simp only [hknown, false_and, iff_false, not_and]
    intro hconfigure
    simp only [configure, hthrown, if_true] at hconfigure
    obtain rfl : _ = f := Except.error.inj hconfigure
    simp [Failure.isTold]

theorem load_of_read (hread : ProjectSettings.read s.limits s.store here = .ok project)
    (needsSources : Bool) (overrides : Table) :
    load s here needsSources overrides =
      override s here project.table (given overrides) >>=
        configure s project.base needsSources := by
  rw [load, hread]
  rfl

theorem load_of_override (hread : ProjectSettings.read s.limits s.store here = .ok project)
    (hoverride : override s here project.table (given overrides) = .ok settings)
    (needsSources : Bool) :
    load s here needsSources overrides = configure s project.base needsSources settings := by
  rw [load_of_read s here hread, hoverride]
  rfl

theorem load_untold_iff (needsSources : Bool) (overrides : Table) :
    load s here needsSources overrides = .error f ∧ f.isTold = false ↔
    Untold s here overrides f := by
  constructor
  · rintro ⟨hload, huntold⟩
    cases hread : ProjectSettings.read s.limits s.store here with
    | error g =>
      rw [load, hread] at hload
      obtain rfl : g = f := Except.error.inj hload
      exact .project ((read_untold_iff s.limits s.store here).mp ⟨hread, huntold⟩)
    | ok project =>
      cases hoverride : override s here project.table (given overrides) with
      | error g =>
        rw [load_of_read s here hread, hoverride] at hload
        obtain rfl : g = f := Except.error.inj hload
        obtain ⟨first, item, rest, hitems, hitem, hfirst⟩ :=
          (override_error_iff s here _ _).mp hoverride
        exact .overriding hread hitems hitem hfirst
      | ok settings =>
        rw [load_of_override s here hread hoverride] at hload
        obtain ⟨hknown, before, setting, behind, hsplit, hbefore, hhides⟩ :=
          (configure_untold_iff s project.base needsSources settings).mp ⟨hload, huntold⟩
        exact .setting hread hoverride hknown hsplit hbefore hhides
  · intro h
    cases h with
    | project hunread =>
      obtain ⟨hread, huntold⟩ := (read_untold_iff s.limits s.store here).mpr hunread
      exact ⟨by rw [load, hread]; rfl, huntold⟩
    | overriding hread hitems hitem hfirst =>
      refine ⟨?_, hitem.untold⟩
      rw [load_of_read s here hread,
        (override_error_iff s here _ _).mpr ⟨_, _, _, hitems, hitem, hfirst⟩]
      rfl
    | setting hread hoverride hknown hsplit hbefore hhides =>
      rw [load_of_override s here hread hoverride]
      exact (configure_untold_iff s _ needsSources _).mpr ⟨hknown, _, _, _, hsplit, hbefore, hhides⟩

theorem mem_of_get? {t : Table} (h : Fields.get? t name = some value) : (name, value) ∈ t := by
  obtain ⟨first, rest, rfl, -⟩ := List.lookup_eq_some_iff.mp h
  simp

theorem Misplaced.told_noText : ¬ Misplaced limits file .noText := by
  rintro ⟨⟩
  rename_i hshow
  obtain ⟨why, -, hwhy⟩ := Option.map_eq_some_iff.mp hshow
  cases why <;> cases hwhy

theorem Unread.told_noText : ¬ Unread limits store start .noText := by
  rintro ⟨⟩
  rename_i hunparsed
  cases hunparsed with
  | misplaced _ _ hfile => exact hfile.told_noText

theorem Surroundings.Homeless.ne_noText (h : s.Homeless path f) : f ≠ .noText := by
  obtain ⟨-, first, name, rest, -, -, hhome⟩ := h
  obtain ⟨-, rfl⟩ | ⟨-, -, rfl⟩ := (homeOf_error_iff s).mp hhome <;> nofun

/-- Only a list that is given to override a setting can hold something that is no text. -/
theorem Untold.of_noText (h : Untold s here overrides .noText) :
    ∃ name items item, (name, Data.Datum.list items) ∈ overrides ∧ item ∈ items ∧ ∀ raw,
    item ≠ .text raw := by
  cases h with
  | project hunread => exact absurd hunread Unread.told_noText
  | @overriding project first item rest _ hread hitems hitem hfirst =>
    have hno : ∀ raw, item ≠ .text raw := by
      cases hitem with
      | noText hno => exact hno
      | homeless _ hhome => exact absurd rfl hhome.ne_noText
    have hmem : item ∈ overridingItems (given overrides) := by simp [hitems]
    obtain ⟨name, -, hitem⟩ := List.mem_flatMap.mp hmem
    cases hvalue : Fields.get? (given overrides) name with
    | none => simp [hvalue] at hitem
    | some value =>
      rw [hvalue] at hitem
      have hgiven : (name, value) ∈ overrides := (List.mem_filter.mp (mem_of_get? hvalue)).1
      cases value with
      | text raw =>
        obtain ⟨part, -, rfl⟩ := List.mem_map.mp (show item ∈ (commaList raw).map .text from hitem)
        exact absurd rfl (hno part)
      | list items => exact ⟨name, items, item, hgiven, hitem, hno⟩
      | null | bool | int | float | moment | table => cases hitem
  | setting hread hoverride hknown hsplit hbefore hhides =>
    cases hhides with
    | unshown _ hshow =>
      obtain ⟨why, -, hwhy⟩ := Option.map_eq_some_iff.mp hshow
      cases why <;> cases hwhy
    | directory _ _ _ hraw =>
      cases hraw with
      | homeless hhome => exact absurd rfl hhome.ne_noText

theorem told_iff (needsSources : Bool) (overrides : Table) :
    (∃ c, load s here needsSources overrides = .ok c) ∨
    (∃ c, load s here needsSources overrides = .error (.complaint c)) ↔
      ∀ f, ¬ Untold s here overrides f := by
  simp only [← load_untold_iff s here needsSources overrides]
  cases load s here needsSources overrides with
  | ok c => simp
  | error f => cases f <;> simp [Failure.isTold]

end

end DocMerge.Settings

-- ---------------------------------------------------------------------------
-- Executing
-- ---------------------------------------------------------------------------

namespace DocMerge.Work

theorem run_tryCatch_of_error {work : Work α} {handle : Stop → Work α} {before after : Session}
    (h : work.run.run before = (.error stop, after)) :
    (tryCatch work handle : Work α).run.run before = (handle stop).run.run after := by
  have hbind : ∀ next : Except Stop α → StateM Session (Except Stop α),
      (work.run >>= next).run before = (next (.error stop)).run after := by
    intro next
    rw [StateT.run_bind, h]
    rfl
  simp only [tryCatch, tryCatchThe, MonadExceptOf.tryCatch, ExceptT.tryCatch, ExceptT.run_mk]
  exact hbind _

theorem run_configure (needsSources : Bool) (overrides : Data.Table)
    (next : Configuration → Work α) (t : Session) :
    (configure needsSources overrides >>= next).run.run t =
      match Settings.load t.surroundings t.here needsSources overrides with
      | .ok c => (next c).run.run t
      | .error f => (.error (.settings f), t) := by
  rw [configure, bind_assoc, run_get, run_orStop]
  cases Settings.load t.surroundings t.here needsSources overrides <;> rfl

end DocMerge.Work

namespace DocMerge.Command

open Data (Fields Table Value)
open Files (Path)
open Settings (Complaint Failure Surroundings Untold load)
open Message.Template (Field Fills IsField fill fillLayout given? lookup_of_sturdy)
open Text (symbols)
open Text.Symbol (char)

def Action.needsSources : Action → Bool
  | merge => true
  | report => false

def Request.configuration (r : Request) (t : Session) : Except Failure Configuration :=
  load t.surroundings t.here r.action.needsSources r.overrides

def complaintTemplate : String := "Configuration error: \x7berror\x7d"

def told (t : Session) (c : Complaint) : Ending × Session :=
  let (text, catalogs) :=
    t.catalogs.word t.voice "config.error" [("error", .complaint c.kind c.message)]
  match text.bind (t.voice.tell .error) with
  | .ok text => (.failed, { t with catalogs, said := t.said ++ [(.error, text)] })
  | .error e => (.stopped (.unsaid e), { t with catalogs })

section
variable {r : Request} {t : Session}

theorem work_of_error (h : r.configuration t = .error f) :
    (r.action.work r.overrides).run.run t = (.error (.settings f), t) := by
  unfold Request.configuration at h
  cases haction : r.action with
  | merge =>
    rw [haction] at h
    simp only [Action.work, complete, Work.run_configure]
    rw [show load t.surroundings t.here true r.overrides = .error f from h]
  | report =>
    rw [haction] at h
    simp only [Action.work, list, Work.run_configure]
    rw [show load t.surroundings t.here false r.overrides = .error f from h]

theorem execute_of_complaint (h : r.configuration t = .error (.complaint c)) :
    r.execute t = told t c := by
  rw [Request.execute, attempt, Work.run_tryCatch_of_error (work_of_error h)]
  simp only [Work.say, bind_assoc, Work.run_get, Work.run_set, Message.wordAll,
    Message.Notice.address,
    Message.Notice.arguments, Message.Notice.level, told]
  cases (t.catalogs.word t.voice "config.error" [("error", .complaint c.kind c.message)]).1.bind
      (t.voice.tell .error) with
  | ok text => rfl
  | error e =>
    dsimp only
    rw [List.append_nil]
    rfl

theorem execute_of_untold (h : r.configuration t = .error f) (huntold : f.isTold = false) :
    r.execute t = (.stopped (.settings f), t) := by
  rw [Request.execute, attempt, Work.run_tryCatch_of_error (work_of_error h)]
  cases f with
  | complaint => cases huntold
  | notUtf8 | longInteger | tooDeep | noTable | noText | noHome | brokenName | longName => rfl

theorem render_complaint (surface : Message.Surface) (address kind message : String) :
    Message.Template.render surface address (symbols complaintTemplate)
      [("error", .complaint kind message)] =
      .ok (symbols ("Configuration error: " ++ message)) := by
  have hname : symbols "error" = [char 'e', char 'r', char 'r', char 'o', char 'r'] := by
    simp [symbols]
  have hplain : symbols "Configuration error: " =
      [char 'C', char 'o', char 'n', char 'f', char 'i', char 'g', char 'u',
      char 'r', char 'a', char 't', char 'i', char 'o', char 'n', char ' ', char 'e', char 'r',
      char 'r', char 'o',
      char 'r', char ':', char ' '] := by simp [symbols]
  have hsplit : symbols complaintTemplate =
      symbols "Configuration error: " ++ char '\x7b' ::
      ((symbols "error" ++ [char '\x7d']) ++ []) := by
    simp [symbols, complaintTemplate]
  have hfield : IsField (symbols "error" ++ [char '\x7d']) { name := symbols "error" } := by
    rw [hname]
    exact .bare (.char (by decide)
      (.char (by decide) (.char (by decide) (.char (by decide) (.char (by decide) .nil)))))
  have hsturdy : Field.IsSturdy surface.memory { name := symbols "error" } := by
    rw [hname]
    exact ⟨by decide, by decide, by decide, .inl ⟨rfl, rfl⟩⟩
  have hfill : fill surface (fillLayout surface [("error", .complaint kind message)])
      [("error", .complaint kind message)] { name := symbols "error" } = .ok (symbols message) := by
    rw [fill, lookup_of_sturdy hsturdy]
    simp [given?]
    rfl
  refine Message.Template.render_eq_iff.mpr ?_
  rw [hsplit, show symbols ("Configuration error: " ++ message) =
    symbols "Configuration error: " ++ (symbols message ++ []) by simp [symbols]]
  exact .filled ((Fills.field hfield hfill .nil).behind_plain (by rw [hplain]; decide))

theorem told_of_template (c : Complaint)
    (h : (t.catalogs.get t.store "config.error" none).1 = .ok (symbols complaintTemplate))
    (htakes : ∀ text, t.takes .error text = true) :
    (told t c).1 = .failed ∧
      (told t c).2.said = t.said ++ [(.error, symbols ("Configuration error: " ++ c.message))] := by
  have hword : t.catalogs.word t.voice "config.error" [("error", .complaint c.kind c.message)] =
      (.ok (symbols ("Configuration error: " ++ c.message)),
        (t.catalogs.get t.store "config.error" none).2) := by
    have hvoice : t.voice.store = t.store := rfl
    rw [Message.Catalogs.word, hvoice]
    cases hget : t.catalogs.get t.store "config.error" none with
    | mk template catalogs =>
      rw [hget] at h
      obtain rfl : template = _ := h
      simp only [render_complaint]
      rfl
  have htell : t.voice.tell .error (symbols ("Configuration error: " ++ c.message)) =
      .ok (symbols ("Configuration error: " ++ c.message)) := if_pos (htakes _)
  rw [told, hword]
  simp [Except.bind, htell]

theorem told_status (t : Session) (c : Complaint) : (told t c).1.status = 1 := by
  simp only [told]
  split <;> rfl

end

structure Ends (r : Request) (t : Session) : Prop where
  /-- The user is told of a complaint. -/
  complaint : ∀ c, r.configuration t = .error (.complaint c) → r.execute t = told t c
  /-- The message is the complaint, where nobody has changed the template. -/
  template : (t.catalogs.get t.store "config.error" none).1 = .ok (symbols complaintTemplate) →
    (∀ text, t.takes .error text = true) →
    ∀ c, (told t c).1 = .failed ∧
      (told t c).2.said = t.said ++ [(.error, symbols ("Configuration error: " ++ c.message))]
  /-- Without a complaint nothing is said. -/
  untold : ∀ f, Untold t.surroundings t.here r.overrides f →
    r.execute t = (.stopped (.settings f), t)
  status : ∀ f, r.configuration t = .error f → (r.execute t).1.status = 1

theorem execute_ends (r : Request) (t : Session) : Ends r t where
  complaint _ := execute_of_complaint
  template h htakes c := told_of_template c h htakes
  untold f h := by
    obtain ⟨hload, huntold⟩ :=
      (Settings.load_untold_iff t.surroundings t.here r.action.needsSources r.overrides).mpr h
    exact execute_of_untold hload huntold
  status f h := by
    cases hf : f.isTold with
    | true =>
      obtain ⟨c, rfl⟩ : ∃ c, f = .complaint c := by
        cases f with
        | complaint c => exact ⟨c, rfl⟩
        | notUtf8 | longInteger | tooDeep | noTable | noText | noHome | brokenName | longName =>
          cases hf
      rw [execute_of_complaint h]
      exact told_status t c
    | false =>
      rw [execute_of_untold h hf]
      rfl

/-- Settings lead to a configuration or to a complaint exactly if no failure of which nobody is told
comes first; that a directory is no text is none of those unless a list is given that holds
something else. A command ends with status 1 if its settings cannot be had, and says so exactly if
there is a complaint. -/
theorem settings_told (s : Surroundings) (here : Path) (needsSources : Bool) (overrides : Table) :
    ((∃ c, load s here needsSources overrides = .ok c) ∨
      (∃ c, load s here needsSources overrides = .error (.complaint c)) ↔
        ∀ f, ¬ Untold s here overrides f) ∧
      (∀ f, Untold s here overrides f → load s here needsSources overrides = .error f) ∧
      (Untold s here overrides .noText →
        ∃ name items item, (name, Data.Datum.list items) ∈ overrides ∧ item ∈ items ∧ ∀ raw,
        item ≠ .text raw) ∧
      ∀ r t, Ends r t := by
  refine ⟨Settings.told_iff s here needsSources overrides, fun f h => ?_,
    Settings.Untold.of_noText s here, execute_ends⟩
  exact ((Settings.load_untold_iff s here needsSources overrides).mpr h).1

def alone (content : ByteArray) : Surroundings :=
  { store := Files.Store.addFile {} ["pyproject.toml"] content }

theorem load_alone (needsSources : Bool) (overrides : Table) (h : Settings.Unparsed {} content f) :
    load (alone content) ⟨true, []⟩ needsSources overrides = .error f := by
  have hshort : (alone content).store.isOverlong
      ((⟨true, []⟩ : Path).resolved / Files.projectFileName) = false := by
    have hname : ¬ Files.Store.longestName < "pyproject.toml".utf8ByteSize := by decide +kernel
    have hpath : ¬ Files.Store.longestPath <
        (⟨true, ["pyproject.toml"]⟩ : Path).toString.utf8ByteSize := by
      decide +kernel
    change Files.Store.isOverlong _ ⟨true, ["pyproject.toml"]⟩ = false
    simp [Files.Store.isOverlong, Files.Store.reachesLongName, hname, hpath]
  have hfile : Files.projectFile? (alone content).store ⟨true, []⟩ =
      some ⟨true, ["pyproject.toml"]⟩ := rfl
  have hread : (alone content).store.read ⟨true, ["pyproject.toml"]⟩ = .ok content := rfl
  have huntold : Untold (alone content) ⟨true, []⟩ overrides f :=
    .project (.file hshort hfile hread h)
  exact ((Settings.load_untold_iff (alone content) ⟨true, []⟩ needsSources overrides).mpr huntold).1

theorem ok_of_toOption {x : Except ε α} (h : x.toOption = some a) : x = .ok a := by
  cases x with
  | ok b => exact congrArg Except.ok (Option.some.inj h)
  | error e => cases h

def isNumber : Value → Bool
  | .int _ => true
  | _ => false

/-- Nobody is told of a project file that is not UTF-8, nor of one whose table of tools is a
number. -/
theorem settings_untold :
    load (alone ⟨#[0xff]⟩) ⟨true, []⟩ true [] = .error .notUtf8 ∧
      load (alone "tool = 1\n".toUTF8) ⟨true, []⟩ true [] = .error .noTable ∧
      ¬ ∀ s here needsSources overrides, (∃ c, load s here needsSources overrides = .ok c) ∨
        ∃ c, load s here needsSources overrides = .error (.complaint c) := by
  have hgarbled := load_alone true []
    (.notUtf8 (by decide +kernel : Files.textOf? ⟨#[0xff]⟩ = none))
  have htext : Files.textOf? "tool = 1\n".toUTF8 = some "tool = 1\n" := by decide +kernel
  let limits : Limits := {}
  have hnumber : ((Data.Toml.parse limits.settings "tool = 1\n").toOption.bind
      (Fields.get? · "tool")).any
      isNumber = true := by
    decide +kernel
  obtain ⟨value, hvalue, hinteger⟩ := (Option.any_eq_true _ _).mp hnumber
  obtain ⟨file, hfile, htool⟩ := Option.bind_eq_some_iff.mp hvalue
  have hparse : Data.Toml.parse limits.settings "tool = 1\n" = .ok file := ok_of_toOption hfile
  have hno : ∀ tools, value ≠ .table tools := by
    rintro tools rfl
    cases hinteger
  refine ⟨hgarbled, load_alone true []
    (.misplaced htext hparse (.noTable htool hno)), fun hall => ?_⟩
  rcases hall (alone ⟨#[0xff]⟩) ⟨true, []⟩ true [] with ⟨c, hc⟩ | ⟨c, hc⟩ <;>
    rw [hgarbled] at hc <;> cases hc

end DocMerge.Command
