import DocMerge.Command.Session
import DocMerge.Proofs.Saving
import DocMerge.Proofs.Templates
import DocMerge.Proofs.Undocumented

/-!
# What catalogs can do to a run

Merging tells its user what it does while it goes on. If each notice can be told, it ends as the run
itself does, whatever the words. A notice cannot be told if the catalogs cannot be read, its
template breaks, or the text cannot be written. That stops the run: before anything is written, or,
if the notice is one of those that tell what has been written, with everything written and the
result lost.
-/

namespace DocMerge.Message

open Files (Store)
open Text (Symbol symbols)

-- ---------------------------------------------------------------------------
-- Rows of notices
-- ---------------------------------------------------------------------------

section
variable (voice : Voice)

inductive Tells (catalogs : Catalogs) (notice : Notice) : Except Unsaid (List Symbol) → Prop
  | said (hget : (catalogs.get voice.store notice.address none).1 = .ok template)
    (hwords : Template.Words voice.surface notice.arguments notice.address template (.ok text))
    (htakes : voice.takes notice.level text = true) : Tells catalogs notice (.ok text)
  | unread (hget : (catalogs.get voice.store notice.address none).1 = .error e) :
    Tells catalogs notice (.error (.lookup e))
  | broken (hget : (catalogs.get voice.store notice.address none).1 = .ok template)
    (hwords : Template.Words voice.surface notice.arguments notice.address template (.error e)) :
    Tells catalogs notice (.error (.wording e))
  | unwritable (hget : (catalogs.get voice.store notice.address none).1 = .ok template)
    (hwords : Template.Words voice.surface notice.arguments notice.address template (.ok text))
    (htakes : voice.takes notice.level text = false) : Tells catalogs notice (.error .unwritable)

inductive Speaks : Catalogs → List Notice → Catalogs → Prop
  | nil (catalogs : Catalogs) : Speaks catalogs [] catalogs
  | cons (htells : Tells voice catalogs notice (.ok text))
    (h : Speaks (catalogs.get voice.store notice.address none).2 rest after) :
    Speaks catalogs (notice :: rest) after

/-- Notices the first of which that cannot be told is left unsaid. -/
inductive Breaks : Catalogs → List Notice → Unsaid → Prop
  | here (h : Tells voice catalogs notice (.error e)) (rest : List Notice) :
    Breaks catalogs (notice :: rest) e
  | later (htells : Tells voice catalogs notice (.ok text))
    (h : Breaks (catalogs.get voice.store notice.address none).2 rest e) :
    Breaks catalogs (notice :: rest) e

variable {voice}

theorem word_of_get {catalogs after : Catalogs}
    (hget : catalogs.get voice.store address none = (.ok template, after)) (arguments : Arguments) :
    catalogs.word voice address arguments =
      ((Template.render voice.surface address template arguments).mapError .wording, after) := by
  rw [Catalogs.word, hget]

theorem word_catalogs (voice : Voice) (catalogs : Catalogs) (address : String)
    (arguments : Arguments) :
    (catalogs.word voice address arguments).2 = (catalogs.get voice.store address none).2 := by
  unfold Catalogs.word
  split <;> simp_all

theorem tells_iff {catalogs : Catalogs} {notice : Notice} :
    (catalogs.word voice notice.address notice.arguments).1.bind
      (voice.tell notice.level) = result ↔
      Tells voice catalogs notice result := by
  cases hget : catalogs.get voice.store notice.address none with
  | mk template after =>
    constructor
    · rintro rfl
      cases template with
      | error e =>
        rw [Catalogs.word, hget]
        exact .unread (by rw [hget])
      | ok template =>
        rw [word_of_get hget]
        cases hrender : Template.render voice.surface notice.address template notice.arguments with
        | error e => exact .broken (by rw [hget]) (Template.render_eq_iff.mp hrender)
        | ok text =>
          have hwords := Template.render_eq_iff.mp hrender
          cases htakes : voice.takes notice.level text with
          | true =>
            have hsaid := Tells.said (by rw [hget]) hwords htakes
            simpa [Except.mapError, Except.bind, Voice.tell, htakes] using hsaid
          | false =>
            have hunsaid := Tells.unwritable (by rw [hget]) hwords htakes
            simpa [Except.mapError, Except.bind, Voice.tell, htakes] using hunsaid
    · intro h
      cases h with
      | unread hread =>
        rw [hget] at hread
        obtain rfl : template = .error _ := hread
        rw [Catalogs.word, hget]
        rfl
      | said hread hwords htakes | unwritable hread hwords htakes =>
        rw [hget] at hread
        obtain rfl : template = .ok _ := hread
        rw [word_of_get hget, Template.render_eq_iff.mpr hwords]
        simp [Except.mapError, Except.bind, Voice.tell, htakes]
      | broken hread hwords =>
        rw [hget] at hread
        obtain rfl : template = .ok _ := hread
        rw [word_of_get hget, Template.render_eq_iff.mpr hwords]
        rfl

theorem wordAll_cons_ok {catalogs : Catalogs} {notice : Notice}
    (h : Tells voice catalogs notice (.ok text))
    (rest : List Notice) :
    wordAll voice catalogs (notice :: rest) =
      let more := wordAll voice (catalogs.get voice.store notice.address none).2 rest
      { more with texts := (notice.level, text) :: more.texts } := by
  rw [wordAll, ← word_catalogs voice catalogs notice.address notice.arguments]
  simp only [tells_iff.mpr h]

theorem wordAll_cons_error {catalogs : Catalogs} {notice : Notice}
    (h : Tells voice catalogs notice (.error e))
    (rest : List Notice) :
    wordAll voice catalogs (notice :: rest) =
      { catalogs := (catalogs.get voice.store notice.address none).2, error := some e } := by
  rw [wordAll, ← word_catalogs voice catalogs notice.address notice.arguments]
  simp only [tells_iff.mpr h]

theorem Speaks.wordAll (h : Speaks voice catalogs notices after) :
    (wordAll voice catalogs notices).error = none ∧
    (wordAll voice catalogs notices).catalogs = after := by
  induction h with
  | nil => exact ⟨rfl, rfl⟩
  | cons htells _ ih =>
    rw [wordAll_cons_ok htells]
    exact ih

theorem Breaks.wordAll (h : Breaks voice catalogs notices e) :
    (wordAll voice catalogs notices).error = some e := by
  induction h with
  | here h rest => rw [wordAll_cons_error h]
  | later htells _ ih =>
    rw [wordAll_cons_ok htells]
    exact ih

theorem speaks_or_breaks (voice : Voice) (catalogs : Catalogs) (notices : List Notice) :
    (∃ after, Speaks voice catalogs notices after) ∨ ∃ e, Breaks voice catalogs notices e := by
  induction notices generalizing catalogs with
  | nil => exact .inl ⟨catalogs, .nil catalogs⟩
  | cons notice rest ih =>
    obtain ⟨result, htells⟩ : ∃ result, Tells voice catalogs notice result := ⟨_, tells_iff.mp rfl⟩
    cases result with
    | error e => exact .inr ⟨e, .here htells rest⟩
    | ok text =>
      obtain ⟨after, hspeaks⟩ | ⟨e, hbreaks⟩ := ih (catalogs.get voice.store notice.address none).2
      · exact .inl ⟨after, .cons htells hspeaks⟩
      · exact .inr ⟨e, .later htells hbreaks⟩

end

end DocMerge.Message

-- ---------------------------------------------------------------------------
-- Runs
-- ---------------------------------------------------------------------------

namespace DocMerge

open Files (Store)
open Message
open Text (Symbol symbols)
open Text.Symbol (char)

/-- A session in which the user has been told of notices, up to the first that cannot be told. -/
def Session.saying (s : Session) (notices : List Notice) : Session :=
  let worded := wordAll s.voice s.catalogs notices
  { s with catalogs := worded.catalogs, said := s.said ++ worded.texts }

@[simp] theorem Session.saying_store (s : Session) (notices : List Notice) :
    (s.saying notices).store = s.store := rfl
@[simp] theorem Session.saying_here (s : Session) (notices : List Notice) :
    (s.saying notices).here = s.here := rfl

namespace Work

theorem run_say (notices : List Notice) (next : PUnit → Work α) (s : Session) :
    (say notices >>= next).run.run s =
      match (wordAll s.voice s.catalogs notices).error with
      | some e => (.error (.unsaid e), s.saying notices)
      | none => (next ⟨⟩).run.run (s.saying notices) := by
  rw [say, bind_assoc, run_get]
  dsimp only
  rw [bind_assoc, run_set]
  cases (wordAll s.voice s.catalogs notices).error <;> rfl

section
variable (setting : Merge.Setting Xml.File) (files : List Merge.TypeFile) (s : Session)

def silent : Merge.Run Xml.File := Merge.run setting s.here s.store files

theorem silent_of_commit {setting : Merge.Setting Xml.File}
    {files : List Merge.TypeFile} {s : Session}
    (h : (Merge.prepare setting files).commit s.here s.store = .ok (store, result)) :
    silent setting files s =
      { documents := (Merge.prepare setting files).merges.documents, store
        notices := (Merge.prepare setting files).notices ++ Merge.commitNotices result.committed
        result := .ok result } := by
  rw [silent, Merge.run, h]

def voiceAfter : Voice := { s.voice with store := (silent setting files s).store }

theorem run_mergeFiles :
    (mergeFiles setting files).run.run s =
      let merged := s.saying (Merge.prepare setting files).notices
      match (wordAll s.voice s.catalogs (Merge.prepare setting files).notices).error with
      | some e => (.error (.unsaid e), merged)
      | none =>
        match (silent setting files s).result with
        | .error f => (.error (.fault f), merged)
        | .ok result =>
          let written := { merged with store := (silent setting files s).store }
          let told := written.saying (Merge.commitNotices result.committed)
          match (wordAll (voiceAfter setting files s) merged.catalogs
            (Merge.commitNotices result.committed)).error with
          | some e => (.error (.unsaid e), told)
          | none => (.ok ((silent setting files s).documents, result), told) := by
  rw [mergeFiles, run_say]
  cases (wordAll s.voice s.catalogs (Merge.prepare setting files).notices).error with
  | some e => rfl
  | none =>
    dsimp only
    rw [run_get, run_orStop, Session.saying_here, Session.saying_store]
    cases hcommit : (Merge.prepare setting files).commit s.here s.store with
    | error f => rw [silent, Merge.run, hcommit]
    | ok outcome =>
      obtain ⟨store, result⟩ := outcome
      have hvoice : voiceAfter setting files s = { s.voice with store } := by
        rw [voiceAfter, silent_of_commit hcommit]
      rw [hvoice, silent_of_commit hcommit]
      dsimp only
      rw [run_set, run_say]
      rfl

/-- How merging ends in a session, and the files then. -/
inductive Ends : Except Stop (List Merge.TypeFile × Merge.Result) → Store → Prop
  /-- A notice of the merging cannot be told, and nothing is written. -/
  | unwritten (hbreaks : Breaks s.voice s.catalogs (Merge.prepare setting files).notices e) :
    Ends (.error (.unsaid e)) s.store
  /-- A notice of the writing cannot be told, and all has been written that could be. -/
  | written (hspeaks : Speaks s.voice s.catalogs (Merge.prepare setting files).notices catalogs)
    (hrun : (silent setting files s).result = .ok result)
    (hbreaks : Breaks (voiceAfter setting files s) catalogs
      (Merge.commitNotices result.committed) e) :
    Ends (.error (.unsaid e)) (silent setting files s).store
  | fault (hspeaks : Speaks s.voice s.catalogs (Merge.prepare setting files).notices catalogs)
    (hrun : (silent setting files s).result = .error f) :
    Ends (.error (.fault f)) (silent setting files s).store
  | whole (hspeaks : Speaks s.voice s.catalogs (Merge.prepare setting files).notices catalogs)
    (hrun : (silent setting files s).result = .ok result)
    (hmore : Speaks (voiceAfter setting files s) catalogs
      (Merge.commitNotices result.committed) after) :
    Ends (.ok ((silent setting files s).documents, result)) (silent setting files s).store

end

section
variable {setting : Merge.Setting Xml.File} {files : List Merge.TypeFile} {s : Session}

theorem catalogs_of_speaks (h : Speaks s.voice s.catalogs notices after) :
    (s.saying notices).catalogs = after :=
  h.wordAll.2

theorem ends_mergeFiles :
    Ends setting files s ((mergeFiles setting files).run.run s).1
      ((mergeFiles setting files).run.run s).2.store := by
  rw [run_mergeFiles]
  obtain ⟨catalogs, hspeaks⟩ | ⟨e, hbreaks⟩ :=
    speaks_or_breaks s.voice s.catalogs (Merge.prepare setting files).notices
  · rw [hspeaks.wordAll.1]
    cases hrun : (silent setting files s).result with
    | error f =>
      have hfault := Ends.fault hspeaks hrun
      rw [show (silent setting files s).store = s.store
        from Merge.run_store_of_error hrun] at hfault
      exact hfault
    | ok result =>
      dsimp only
      rw [catalogs_of_speaks hspeaks]
      obtain ⟨after, hmore⟩ | ⟨e, hbreaks⟩ := speaks_or_breaks (voiceAfter setting files s) catalogs
        (Merge.commitNotices result.committed)
      · rw [hmore.wordAll.1]
        exact .whole hspeaks hrun hmore
      · rw [hbreaks.wordAll]
        exact .written hspeaks hrun hbreaks
  · rw [hbreaks.wordAll]
    exact .unwritten hbreaks

theorem Ends.run (h : Ends setting files s result store) :
    ((mergeFiles setting files).run.run s).1 = result ∧
    ((mergeFiles setting files).run.run s).2.store = store := by
  rw [run_mergeFiles]
  cases h with
  | unwritten hbreaks =>
    rw [hbreaks.wordAll]
    exact ⟨rfl, rfl⟩
  | fault hspeaks hrun =>
    rw [hspeaks.wordAll.1, hrun]
    exact ⟨rfl, (Merge.run_store_of_error hrun).symm⟩
  | written hspeaks hrun hbreaks =>
    rw [hspeaks.wordAll.1, hrun]
    dsimp only
    rw [catalogs_of_speaks hspeaks, hbreaks.wordAll]
    exact ⟨rfl, rfl⟩
  | whole hspeaks hrun hmore =>
    rw [hspeaks.wordAll.1, hrun]
    dsimp only
    rw [catalogs_of_speaks hspeaks, hmore.wordAll.1]
    exact ⟨rfl, rfl⟩

/-- How merging ends if every notice is told. -/
def undisturbed (setting : Merge.Setting Xml.File) (files : List Merge.TypeFile) (s : Session) :
    Except Stop (List Merge.TypeFile × Merge.Result) :=
  match (silent setting files s).result with
  | .error f => .error (.fault f)
  | .ok result => .ok ((silent setting files s).documents, result)

theorem Ends.undisturbed (h : Ends setting files s result store) :
    (∃ e, result = .error (.unsaid e)) ∨
      result = undisturbed setting files s ∧ store = (silent setting files s).store := by
  cases h with
  | unwritten | written => exact .inl ⟨_, rfl⟩
  | fault _ hrun | whole _ hrun _ => exact .inr ⟨by rw [Work.undisturbed, hrun], rfl⟩

def braceFor (address : String) : Catalogs :=
  { roots := [], loaded := [(Catalogs.defaultLanguage, [(symbols address, [char '\x7b'])])] }

theorem exists_breaks (voice : Voice) (h : notices ≠ []) :
    ∃ catalogs e, Breaks voice catalogs notices e := by
  obtain ⟨notice, rest, rfl⟩ := List.exists_cons_of_ne_nil h
  have hget : ((braceFor notice.address).get voice.store notice.address none).1 =
      .ok [char '\x7b'] := by
    simp [braceFor, Catalogs.get, Catalogs.target, Catalogs.load, Catalog.get?]
  exact ⟨braceFor notice.address, .wording .malformed,
    .here (.broken hget (Template.render_eq_iff.mp rfl)) rest⟩

end

/-- Messages are put into words as their templates say, or the templates break; sturdy ones never
do. Whatever the catalogs, merging ends as the run does unless a notice cannot be told, and each run
that says something can be stopped so. -/
theorem mergeFiles_wording (surface : Surface) (setting : Merge.Setting Xml.File)
    (files : List Merge.TypeFile)
    (s : Session) :
    (∀ address template arguments result,
      Template.render surface address template arguments = result ↔
      Template.Words surface arguments address template result) ∧
    (∀ template, Template.IsSturdy surface.memory template → ∀ address arguments, ∃ text,
      Template.render surface address template arguments = .ok text) ∧
    (∀ result store, Ends setting files s result store ↔
      ((mergeFiles setting files).run.run s).1 = result ∧
      ((mergeFiles setting files).run.run s).2.store = store) ∧
    (∀ catalogs, let ended := (mergeFiles setting files).run.run { s with catalogs }
      (∃ e, ended.1 = .error (.unsaid e)) ∨
        ended.1 = undisturbed setting files s ∧ ended.2.store = (silent setting files s).store) ∧
    ((Merge.prepare setting files).notices ≠ [] → ∃ catalogs e,
      ((mergeFiles setting files).run.run { s with catalogs }).1 = .error (.unsaid e)) := by
  refine ⟨fun _ _ _ _ => Template.render_eq_iff, ?_, ?_, ?_, ?_⟩
  · intro template h address arguments
    obtain ⟨text, hwords⟩ := h.words address
    exact ⟨text, Template.render_eq_iff.mpr hwords⟩
  · intro result store
    refine ⟨Ends.run, ?_⟩
    rintro ⟨rfl, rfl⟩
    exact ends_mergeFiles
  · intro catalogs
    exact (ends_mergeFiles (s := { s with catalogs })).undisturbed
  · intro hnotices
    obtain ⟨catalogs, e, hbreaks⟩ := exists_breaks s.voice hnotices
    exact ⟨catalogs, e, (Ends.unwritten (s := { s with catalogs }) hbreaks).run.1⟩

def leftOut : Merge.TypeFile := { Merge.Small.stack with body := default }

def emptySetting : Merge.Setting Xml.File where
  policy := {}
  interfaces := { policy := {}, index := none }
  index := {}
  render _ := .ok ""

theorem notices_leftOut :
    (Merge.prepare emptySetting [leftOut]).notices = [.typeExcluded "T:Stack"] := by
  have horder : Merge.inOrder [leftOut] = [leftOut] := by simp [Merge.inOrder]
  rw [Merge.prepare, Merge.Merges.ofDocuments, horder]
  rfl

def pathTemplate : List Symbol := symbols "\x7bpath!r:>40\x7d"

theorem isSturdy_pathTemplate : Template.IsSturdy Surface.counts.memory pathTemplate := by
  have hwritten : pathTemplate = char '\x7b' :: (([char 'p', char 'a', char 't', char 'h'] ++
      char '!' :: char 'r' :: char ':' :: ([char '>', char '4', char '0'] ++ [char '\x7d'])) ++
        []) := by
    simp [pathTemplate, symbols]
  have hname : Template.Names false [char 'p', char 'a', char 't', char 'h'] :=
    .char (by decide) (.char (by decide) (.char (by decide) (.char (by decide) .nil)))
  have hlayout : Template.Closes 0 [char '>', char '4', char '0'] :=
    .char (by decide) (by decide)
      (.char (by decide) (by decide) (.char (by decide) (by decide) .nil))
  rw [hwritten]
  refine .field (.convertedLaidOut (char 'r') hname hlayout) ?_ .nil
  exact ⟨by simp, by decide, by decide, .inr ⟨by simp, by decide, .inr ⟨_, _, rfl, rfl⟩⟩⟩

theorem mergeFiles_wording_leftOut :
    Template.IsSturdy Surface.counts.memory pathTemplate ∧
    (Merge.prepare emptySetting [leftOut]).notices ≠ [] ∧
    (∃ text, Template.render Surface.counts "write.saved" pathTemplate
      (Notice.fileSaved "a.xml").arguments =
      .ok text) ∧
    ∃ catalogs e, ((mergeFiles emptySetting [leftOut]).run.run
      { store := {}, here := ⟨true, []⟩, catalogs }).1 =
      .error (.unsaid e) := by
  have hnotices : (Merge.prepare emptySetting [leftOut]).notices ≠ [] := by simp [notices_leftOut]
  obtain ⟨-, hsturdy, -, -, hstops⟩ := mergeFiles_wording Surface.counts emptySetting [leftOut]
    { store := {}, here := ⟨true, []⟩, catalogs := { roots := [] } }
  exact ⟨isSturdy_pathTemplate, hnotices, hsturdy _ isSturdy_pathTemplate _ _, hstops hnotices⟩

/-- A catalog whose template is a single brace breaks. -/
theorem render_single_brace : ¬ ∀ (template : List Symbol) (notice : Notice), ∃ text,
    Template.render Surface.counts notice.address template notice.arguments = .ok text := by
  intro h
  obtain ⟨text, htext⟩ := h [char '\x7b'] .runStarted
  have hbreaks : Template.render Surface.counts Notice.runStarted.address [char '\x7b'] [] =
      .error .malformed := rfl
  exact absurd (hbreaks.symm.trans htext) (by simp)

end Work

end DocMerge
