import DocMerge.Files.Batch
import Mathlib.Data.List.Basic

/-!
# What a write does to a store

A path leads to its place by way of directories. Whether a file can be written there is decided by
what the store holds at the place and on the way (`takes`), and a write changes nothing but the file
and the directories that were missing (`Wrote`). What lies in a store never changes its kind, so a
later write can be kept from its place only by a file on its way or by a directory in its place.
-/

namespace DocMerge.Files

-- ---------------------------------------------------------------------------
-- Texts in files
-- ---------------------------------------------------------------------------

theorem textOf?_toUTF8 (s : String) : textOf? s.toUTF8 = some s := by
  have hvalid : s.toUTF8.IsValidUTF8 := s.isValidUTF8
  simp only [textOf?, String.fromUTF8?, dif_pos hvalid]
  rfl

theorem eq_toUTF8_of_textOf? (h : textOf? content = some text) : content = text.toUTF8 := by
  unfold textOf? String.fromUTF8? at h
  split at h
  · obtain rfl := Option.some.inj h
    rfl
  · cases h

-- ---------------------------------------------------------------------------
-- Ways
-- ---------------------------------------------------------------------------

namespace Path

def stepTo (place : Place) (part : String) : Place :=
  if part = ".." then place.dropLast else place ++ [part]

theorem walk_cons (place : Place) (part : String) (rest : List String) :
    walk place (part :: rest) = walk (stepTo place part) rest := by
  unfold stepTo
  split
  · rename_i h
    rw [h, walk]
  · rename_i h
    rw [walk]
    exact h

def stops (place : Place) : List String → List Place
  | [] => [place]
  | part :: rest => place :: stops (stepTo place part) rest

theorem self_mem_stops (place : Place) (parts : List String) : place ∈ stops place parts := by
  cases parts <;> simp [stops]

def place (p : Path) : Place := walk [] p.parts

/-- The places that a path goes through before its last part. -/
def way (p : Path) : List Place := stops [] p.parts.dropLast

theorem walk_concat (place : Place) (parts : List String) (last : String) :
    walk place (parts ++ [last]) = stepTo (walk place parts) last := by
  induction parts generalizing place with
  | nil => rw [List.nil_append, walk_cons, walk, walk]
  | cons part rest ih => rw [List.cons_append, walk_cons, walk_cons, ih]

def InWay (p q : Path) : Prop := p.place ∈ q.way ∨ q.place ∈ p.way

instance (p q : Path) : Decidable (p.InWay q) := inferInstanceAs (Decidable (_ ∨ _))

end Path

open Files.Path (stepTo stops walk_cons walk_concat self_mem_stops)

namespace Store

-- ---------------------------------------------------------------------------
-- Items
-- ---------------------------------------------------------------------------

def fileAt? (s : Store) (place : Place) : Option ByteArray :=
  match s.item? place with
  | some (.file content) => some content
  | _ => none

@[simp] theorem item?_nil (s : Store) : s.item? [] = some .directory := rfl

theorem fileAt?_eq_none_of_directory {s : Store} (h : s.item? place = some .directory) :
    s.fileAt? place = none := by
  rw [fileAt?, h]

theorem fileAt?_congr {s s' : Store} (h : s'.item? place = s.item? place) :
    s'.fileAt? place = s.fileAt? place := by
  rw [fileAt?, fileAt?, h]

theorem isDirectoryAt_iff {s : Store} :
    s.isDirectoryAt place = true ↔ s.item? place = some .directory := by
  unfold isDirectoryAt
  split <;> simp_all

theorem lookup_put (items : List (Place × Item)) (place q : Place) (item : Item) :
    (put items place item).lookup q = if q = place then some item else items.lookup q := by
  induction items with
  | nil =>
    by_cases h : q = place
    · simp [put, h]
    · simp [put, h, List.lookup_cons, beq_false_of_ne h]
  | cons head rest ih =>
    obtain ⟨other, known⟩ := head
    rw [put]
    by_cases hq : q = other
    · by_cases hother : other = place
      · simp [hq, hother]
      · simp [hq, hother]
    · by_cases hother : other = place
      · have hne : ¬ q = place := hother ▸ hq
        simp [hother, hne, List.lookup_cons, beq_false_of_ne hne]
      · simp [hother, List.lookup_cons, beq_false_of_ne hq, ih]

theorem item?_put {s : Store} (hplace : place ≠ []) (item : Item) (q : Place) :
    ({ s with items := put s.items place item } : Store).item? q =
      if q = place then some item else s.item? q := by
  rw [item?, lookup_put, item?]
  by_cases hq : q = place
  · simp [hq, hplace]
  · simp [hq]

-- ---------------------------------------------------------------------------
-- Directories
-- ---------------------------------------------------------------------------

structure Made (s : Store) (places : List Place) (made : Store) : Prop where
  item : ∀ q, made.item? q = if q ∈ places ∧ s.item? q = none then some .directory else s.item? q
  readOnly : made.readOnly = s.readOnly

theorem Made.directory {s made : Store} (h : Made s places made)
    (hq : s.item? q = some .directory) : made.item? q = some .directory := by
  rw [h.item, hq]
  simp

theorem Made.directory_of_mem {s made : Store} (h : Made s places made) (hq : q ∈ places)
    (hfree : s.fileAt? q = none) : made.item? q = some .directory := by
  rw [h.item]
  cases hitem : s.item? q with
  | none => simp [hq]
  | some item =>
    cases item with
    | directory => simp
    | file content => simp [Store.fileAt?, hitem] at hfree

theorem Made.fileAt? {s made : Store} (h : Made s places made) (q : Place) :
    made.fileAt? q = s.fileAt? q := by
  by_cases hq : q ∈ places ∧ s.item? q = none
  · rw [fileAt?_eq_none_of_directory (by rw [h.item, if_pos hq]), Store.fileAt?, hq.2]
  · exact fileAt?_congr (by rw [h.item, if_neg hq])

def addMissing (s : Store) (place : Place) : Store :=
  if (s.item? place).isSome then s else { s with items := s.items ++ [(place, .directory)] }

theorem addDirectory_eq (s : Store) (place : Place) :
    s.addDirectory place =
      ((List.range place.length).map fun n => place.take (n + 1)).foldl addMissing s := by
  rw [List.foldl_map]
  rfl

theorem foldl_addMissing (s : Store) (places : List Place)
    (h : ∀ q ∈ places, s.item? q = some .directory) : places.foldl addMissing s = s := by
  induction places with
  | nil => rfl
  | cons q places ih =>
    obtain ⟨hq, hplaces⟩ := List.forall_mem_cons.mp h
    rw [List.foldl_cons, addMissing, hq]
    exact ih hplaces

/-- Where all above a place are directories, it is the only one that is made. -/
theorem addDirectory_made {s : Store} (habove : ∀ q, q <+: place → s.item? q = some .directory)
    (hnone : s.item? (place ++ [part]) = none) :
    Made s [place ++ [part]] (s.addDirectory (place ++ [part])) := by
  have hplaces : (List.range (place ++ [part]).length).map
      (fun n => (place ++ [part]).take (n + 1)) =
      (List.range place.length).map (fun n => place.take (n + 1)) ++ [place ++ [part]] := by
    rw [List.length_append, List.length_singleton, List.range_succ, List.map_append]
    congr 1
    · refine List.map_congr_left fun n hn => List.take_append_of_le_length ?_
      exact List.mem_range.mp hn
    · rw [List.map_singleton, List.take_of_length_le (by simp)]
  have hadded : s.addDirectory (place ++ [part]) =
      { s with items := s.items ++ [(place ++ [part], .directory)] } := by
    rw [addDirectory_eq, hplaces, List.foldl_append, foldl_addMissing s _ ?_, List.foldl_cons,
      addMissing, hnone]
    · rfl
    · intro q hq
      obtain ⟨n, -, rfl⟩ := List.mem_map.mp hq
      exact habove _ (List.take_prefix _ _)
  refine ⟨fun q => ?_, by rw [hadded]⟩
  have hitem : (s.addDirectory (place ++ [part])).item? q =
      (s.item? q).or (if q = place ++ [part] then some .directory else none) := by
    rw [hadded, item?, item?, List.lookup_append]
    by_cases hempty : q.isEmpty = true
    · simp [hempty]
    · by_cases hq : q = place ++ [part]
      · simp [hq]
      · simp [hempty, hq, List.lookup_cons, beq_false_of_ne hq]
  rw [hitem]
  by_cases hq : q = place ++ [part]
  · simp [hq, hnone]
  · simp [hq]

/-- What comes of making directories: they have been made if there is no file at any of the places,
and only then. -/
def MakesWay (s : Store) (places : List Place) (place : Place)
    (outcome : Except FileError (Store × Place)) : Prop :=
  (∃ made, outcome = .ok (made, place) ∧ Made s places made ∧ ∀ q ∈ places, s.fileAt? q = none) ∨
    (∃ e, outcome = .error e) ∧ ∃ q ∈ places, s.fileAt? q ≠ none

theorem MakesWay.cons (hstart : s.item? start = some .directory)
    (h : MakesWay s places place outcome) :
    MakesWay s (start :: places) place outcome := by
  rcases h with ⟨made, houtcome, hmade, hfree⟩ | ⟨herror, q, hq, hfile⟩
  · refine .inl ⟨made, houtcome, ⟨fun q => ?_, hmade.readOnly⟩, ?_⟩
    · rw [hmade.item]
      by_cases hq : q = start
      · simp [hq, hstart]
      · simp [hq]
    · exact List.forall_mem_cons.mpr ⟨fileAt?_eq_none_of_directory hstart, hfree⟩
  · exact .inr ⟨herror, q, List.mem_cons_of_mem start hq, hfile⟩

theorem MakesWay.of_made (hmade : Made s [next] t) (hnext : next ∈ places)
    (h : MakesWay t places place outcome) : MakesWay s places place outcome := by
  rcases h with ⟨made, houtcome, hrest, hfree⟩ | ⟨herror, q, hq, hfile⟩
  · refine .inl ⟨made, houtcome, ⟨fun q => ?_, hrest.readOnly.trans hmade.readOnly⟩, ?_⟩
    · rw [hrest.item, hmade.item]
      by_cases hq : q = next
      · subst hq
        cases s.item? q <;> simp [hnext]
      · simp [hq]
    · exact fun q hq => hmade.fileAt? q ▸ hfree q hq
  · exact .inr ⟨herror, q, hq, hmade.fileAt? q ▸ hfile⟩

theorem makeDirectoriesFrom_makesWay (s : Store) (place : Place) (parts : List String)
    (habove : ∀ q, q <+: place → s.item? q = some .directory) :
    MakesWay s (stops place parts) (Path.walk place parts) (s.makeDirectoriesFrom place parts) := by
  induction parts generalizing s place with
  | nil =>
    have hplace := habove place List.prefix_rfl
    refine MakesWay.cons hplace (.inl ⟨s, rfl, ⟨fun q => by simp, rfl⟩, by simp⟩)
  | cons part rest ih =>
    rw [stops, walk_cons, makeDirectoriesFrom]
    refine MakesWay.cons (habove place List.prefix_rfl) ?_
    by_cases hback : part = ".."
    · rw [if_pos hback, stepTo, if_pos hback]
      exact ih s place.dropLast fun q hq => habove q (hq.trans (List.dropLast_prefix place))
    · rw [if_neg hback, stepTo, if_neg hback]
      have hbelow : ∀ t : Store, t.item? (place ++ [part]) = some .directory →
          (∀ q, q <+: place → t.item? q = some .directory) →
          ∀ q, q <+: place ++ [part] → t.item? q = some .directory := fun t hnext habove q hq => by
        rcases List.prefix_concat_iff.mp hq with rfl | hq
        · exact hnext
        · exact habove q hq
      cases hitem : s.item? (place ++ [part]) with
      | none =>
        have hmade := addDirectory_made habove hitem
        refine .of_made hmade (self_mem_stops _ rest) (ih _ _ (hbelow _ ?_ fun q hq => ?_))
        · rw [hmade.item, hitem]
          simp
        · exact hmade.directory (habove q hq)
      | some item =>
        cases item with
        | directory => exact ih s _ (hbelow s hitem habove)
        | file content =>
          exact .inr ⟨⟨_, rfl⟩, place ++ [part], self_mem_stops _ rest, by simp [fileAt?, hitem]⟩

theorem locateFrom_ok (s : Store) (place : Place) (parts : List String)
    (hway : ∀ q ∈ stops place parts.dropLast, s.item? q = some .directory) :
    s.locateFrom place parts = .ok (Path.walk place parts) := by
  induction parts generalizing place with
  | nil => rfl
  | cons part rest ih =>
    have hplace : s.item? place = some .directory := hway place (self_mem_stops _ _)
    rw [locateFrom, hplace, walk_cons, stepTo]
    dsimp only
    cases rest with
    | nil => rfl
    | cons next rest => exact ih _ fun q hq => hway q (List.mem_cons_of_mem place hq)

-- ---------------------------------------------------------------------------
-- A write
-- ---------------------------------------------------------------------------

/-- Whether a file can be written: its place is not protected, there is no file on the way and no
directory in the place, nor would one be made there. -/
def takes (s : Store) (p : Path) : Bool :=
  !s.readOnly.contains p.place && p.way.all (fun q => (s.fileAt? q).isNone) &&
    !p.way.contains p.place && !s.isDirectoryAt p.place

theorem takes_iff {s : Store} {p : Path} : s.takes p = true ↔
    p.place ∉ s.readOnly ∧ (∀ q ∈ p.way, s.fileAt? q = none) ∧ p.place ∉ p.way ∧
      s.item? p.place ≠ some .directory := by
  simp [takes, ← isDirectoryAt_iff, and_assoc]

/-- A store in which a file has been written, and directories have been made on its way. -/
structure Wrote (s : Store) (p : Path) (content : ByteArray) (after : Store) : Prop where
  item : ∀ q, after.item? q =
    if q = p.place then some (.file content)
    else if q ∈ p.way ∧ s.item? q = none then some .directory else s.item? q
  readOnly : after.readOnly = s.readOnly

/-- Behind a way of directories, the last part of a path leads to its place. -/
theorem locateFrom_last {made : Store} (parts : List String)
    (hway : made.item? (Path.walk [] parts.dropLast) = some .directory) :
    made.locateFrom (Path.walk [] parts.dropLast) parts.getLast?.toList =
      .ok (Path.walk [] parts) := by
  rcases List.eq_nil_or_concat parts with rfl | ⟨init, last, rfl⟩
  · rfl
  · rw [List.concat_eq_append, List.dropLast_concat] at *
    rw [List.getLast?_concat, walk_concat]
    have hlast := locateFrom_ok made _ [last] (by simpa [stops] using hway)
    rwa [walk_cons, Path.walk] at hlast

theorem walk_mem_stops (place : Place) (parts : List String) :
    Path.walk place parts ∈ stops place parts := by
  induction parts generalizing place with
  | nil => exact List.mem_singleton_self place
  | cons part rest ih =>
    rw [walk_cons]
    exact List.mem_cons_of_mem place (ih _)

section
variable {s made : Store} {p : Path} (hfree : p.place ∉ s.readOnly)
  (hmade : Made s p.way made) (hway : ∀ q ∈ p.way, s.fileAt? q = none)
include hfree hmade hway

/-- Once directories have been made on the way, only one in the place itself is left to refuse. -/
theorem takes_of_made : s.takes p = true ↔ made.item? p.place ≠ some .directory := by
  rw [takes_iff, and_iff_right hfree, and_iff_right hway]
  constructor
  · rintro ⟨hplace, hitem⟩
    rwa [hmade.item, if_neg fun h => hplace h.1]
  · exact fun hitem => ⟨fun hplace => hitem (hmade.directory_of_mem hplace (hway _ hplace)),
      fun hdirectory => hitem (hmade.directory hdirectory)⟩

theorem write_of_made (content : ByteArray)
    (houtcome : s.makeDirectoriesFrom [] p.parts.dropLast =
      .ok (made, Path.walk [] p.parts.dropLast)) :
    s.write p content =
      match made.item? p.place with
      | some .directory => .error .isDirectory
      | _ => .ok { made with items := put made.items p.place (.file content) } := by
  have hprotected : s.readOnly.contains (Path.walk [] p.parts) = false := by
    simpa [Path.place] using hfree
  have hlast := locateFrom_last p.parts
    (hmade.directory_of_mem (walk_mem_stops [] _) (hway _ (walk_mem_stops [] _)))
  rw [write, hprotected, houtcome]
  simp only [Bool.false_eq_true, if_false, bind, Except.bind, pure, Except.pure, hlast, Path.place]
  rfl

end

theorem write_cases (s : Store) (p : Path) (content : ByteArray) :
    (s.takes p = true ∧ ∃ after, s.write p content = .ok after ∧ Wrote s p content after) ∨
      s.takes p = false ∧ ∃ e, s.write p content = .error e := by
  by_cases hfree : p.place ∈ s.readOnly
  · refine .inr ⟨Bool.eq_false_iff.mpr fun h => (takes_iff.mp h).1 hfree, .refused, ?_⟩
    have hprotected : s.readOnly.contains (Path.walk [] p.parts) = true := by
      simpa [Path.place] using hfree
    rw [write, hprotected]
    rfl
  · rcases makeDirectoriesFrom_makesWay s [] p.parts.dropLast fun q hq => by
        rw [List.prefix_nil.mp hq, item?_nil] with
      ⟨made, houtcome, hmade, hway⟩ | ⟨⟨e, herror⟩, q, hq, hfile⟩
    · have htakes := takes_of_made hfree hmade hway
      rw [write_of_made hfree hmade hway content houtcome]
      by_cases hdirectory : made.item? p.place = some .directory
      · refine .inr ⟨Bool.eq_false_iff.mpr fun h => htakes.mp h hdirectory, .isDirectory, ?_⟩
        rw [hdirectory]
      · have hplace : p.place ≠ [] := fun h => hdirectory (by rw [h, item?_nil])
        refine .inl ⟨htakes.mpr hdirectory,
          { made with items := put made.items p.place (.file content) }, ?_, fun q => ?_,
          hmade.readOnly⟩
        · split
          · contradiction
          · rfl
        · rw [item?_put hplace, hmade.item]
          rfl
    · refine .inr ⟨Bool.eq_false_iff.mpr fun h => hfile ((takes_iff.mp h).2.1 q hq), e, ?_⟩
      have hprotected : s.readOnly.contains (Path.walk [] p.parts) = false := by
        simpa [Path.place] using hfree
      rw [write, hprotected, herror]
      rfl

-- ---------------------------------------------------------------------------
-- What stays
-- ---------------------------------------------------------------------------

section
variable {s after : Store} {p : Path} {content : ByteArray} (h : Wrote s p content after)
  (htakes : s.takes p = true)
include h

theorem Wrote.item_of_ne (hq : q ≠ p.place) :
    after.item? q = s.item? q ∨
      q ∈ p.way ∧ s.item? q = none ∧ after.item? q = some .directory := by
  rw [h.item, if_neg hq]
  split
  · rename_i hmade
    exact .inr ⟨hmade.1, hmade.2, rfl⟩
  · exact .inl rfl

theorem Wrote.fileAt_of_ne (hq : q ≠ p.place) : after.fileAt? q = s.fileAt? q := by
  rcases h.item_of_ne hq with hsame | ⟨-, hnone, hmade⟩
  · exact fileAt?_congr hsame
  · rw [fileAt?_eq_none_of_directory hmade, fileAt?, hnone]

theorem Wrote.fileAt_self : after.fileAt? p.place = some content := by
  simp [fileAt?, h.item]

include htakes

theorem Wrote.directory (hq : s.item? q = some .directory) : after.item? q = some .directory := by
  have hne : q ≠ p.place := fun hq' => (takes_iff.mp htakes).2.2.2 (hq' ▸ hq)
  rw [h.item, if_neg hne, hq]
  simp

theorem Wrote.way (hq : q ∈ p.way) : after.item? q = some .directory := by
  obtain ⟨-, hway, hplace, -⟩ := takes_iff.mp htakes
  have hne : q ≠ p.place := fun heq => hplace (heq ▸ hq)
  rw [h.item, if_neg hne]
  cases hitem : s.item? q with
  | none => simp [hq]
  | some item =>
    cases item with
    | directory => simp
    | file content => simpa [fileAt?, hitem] using hway q hq

theorem Wrote.takes_of_takes {other : Path} (hother : after.takes other = true) :
    s.takes other = true := by
  obtain ⟨hfree, hway, hplace, hitem⟩ := takes_iff.mp hother
  refine takes_iff.mpr ⟨h.readOnly ▸ hfree, fun q hq => ?_, hplace,
    fun hdirectory => hitem (h.directory htakes hdirectory)⟩
  have hne : q ≠ p.place := by
    rintro rfl
    simpa [h.fileAt_self] using hway _ hq
  exact (h.fileAt_of_ne hne).symm.trans (hway q hq)

omit htakes

/-- A store takes a file after a write as before it unless one of the two is in the way of the
other. -/
theorem Wrote.takes_or_inWay {other : Path} (hother : s.takes other = true) :
    after.takes other = true ∨ p.InWay other := by
  obtain ⟨hfree, hway, hplace, hitem⟩ := takes_iff.mp hother
  by_cases hleft : p.place ∈ other.way
  · exact .inr (.inl hleft)
  by_cases hright : other.place ∈ p.way
  · exact .inr (.inr hright)
  refine .inl (takes_iff.mpr ⟨h.readOnly ▸ hfree, fun q hq => ?_, hplace, ?_⟩)
  · exact (h.fileAt_of_ne fun heq => hleft (heq ▸ hq)).trans (hway q hq)
  · by_cases hself : other.place = p.place
    · simp [h.item, hself]
    · rcases h.item_of_ne hself with hsame | ⟨hmade, -⟩
      · rwa [hsame]
      · exact absurd hmade hright

end

theorem read_ok {s : Store} {p : Path} {content : ByteArray}
    (hway : ∀ q ∈ p.way, s.item? q = some .directory)
    (hitem : s.item? p.place = some (.file content)) :
    s.read p = .ok content := by
  rw [read, locate, locateFrom_ok s [] p.parts hway]
  rw [Path.place] at hitem
  simp [bind, Except.bind, hitem]

end Store

-- ---------------------------------------------------------------------------
-- A batch of writes
-- ---------------------------------------------------------------------------

namespace Batch

open Store (write_cases Wrote takes_iff)

variable {root : Path}

theorem commitAll_cons (root : Path) (s : Store) (w : Write) (rest : List Write) :
    (s.takes (root.join w.path) = true ∧ ∃ next, Wrote s (root.join w.path) w.content.toUTF8 next ∧
      commitAll root s (w :: rest) = ((commitAll root next rest).1,
        { (commitAll root next rest).2 with
          written := w.path :: (commitAll root next rest).2.written })) ∨
    s.takes (root.join w.path) = false ∧ ∃ e,
      commitAll root s (w :: rest) = ((commitAll root s rest).1,
        { (commitAll root s rest).2 with failed := (w.path, e) ::
          (commitAll root s rest).2.failed }) := by
  rcases write_cases s (root.join w.path) w.content.toUTF8 with
    ⟨htakes, next, hwrite, hwrote⟩ | ⟨htakes, e, hwrite⟩
  · exact .inl ⟨htakes, next, hwrote, by rw [commitAll, hwrite]⟩
  · exact .inr ⟨htakes, e, by rw [commitAll, hwrite]⟩

def IsAlone (root : Path) (paths : List Path) (p : Path) : Prop :=
  ∀ q ∈ paths, (root.join q).place = (root.join p).place → q = p

structure Commits (root : Path) (s : Store) (writes : List Write) (after : Store) (c : Committed) :
    Prop where
  /-- The paths that were written, in order. -/
  written : c.written.Sublist (writes.map (·.path))
  /-- All others have failed, in order. -/
  failed : c.failed.map (·.1) = (writes.map (·.path)).filter fun p => !c.written.contains p
  taken : ∀ p ∈ c.written, s.takes (root.join p) = true
  /-- What the store would have taken fails only for a file that was written before. -/
  refused : ∀ w ∈ writes, w.path ∉ c.written →
    s.takes (root.join w.path) = false ∨ ∃ p ∈ c.written, (root.join p).InWay (root.join w.path)
  holds : ∀ w ∈ writes, w.path ∈ c.written → IsAlone root c.written w.path →
    after.read (root.join w.path) = .ok w.content.toUTF8
  /-- Elsewhere nothing has changed but that there are directories now on the ways to what was
  written. -/
  others : ∀ q, (∀ p ∈ c.written, (root.join p).place ≠ q) →
    after.item? q = s.item? q ∨ s.item? q = none ∧ after.item? q = some .directory ∧
      ∃ p ∈ c.written, q ∈ (root.join p).way
  readOnly : after.readOnly = s.readOnly

/-- Nothing that was written was a directory before. -/
theorem Commits.directory (h : Commits root s writes after c) (hq : s.item? q = some .directory) :
    after.item? q = some .directory := by
  rcases h.others q fun p hp hplace => (takes_iff.mp (h.taken p hp)).2.2.2 (hplace ▸ hq) with
    hsame | ⟨hnone, -⟩
  · exact hsame.trans hq
  · simp [hq] at hnone

/-- Of files that are not in each other's way, those are written that the store takes. -/
theorem Commits.mem_written_iff (h : Commits root s writes after c)
    (hapart : ∀ v ∈ writes, ∀ w ∈ writes, ¬ (root.join v.path).InWay (root.join w.path))
    (hw : w ∈ writes) : w.path ∈ c.written ↔ s.takes (root.join w.path) = true := by
  refine ⟨h.taken w.path, fun htakes => ?_⟩
  by_contra hnot
  rcases h.refused w hw hnot with hrefused | ⟨p, hp, hway⟩
  · simp [htakes] at hrefused
  · obtain ⟨v, hv, rfl⟩ := List.mem_map.mp (h.written.subset hp)
    exact hapart v hv w hw hway

section
variable {s next after : Store} {w : Write} {rest : List Write} {c : Committed}
  (hother : ∀ v ∈ rest, v.path ≠ w.path)
include hother

theorem Commits.not_mem_written (h : Commits root s rest after c) :
    w.path ∉ c.written := fun hmem => by
  obtain ⟨v, hv, hpath⟩ := List.mem_map.mp (h.written.subset hmem)
  exact hother v hv hpath

theorem Commits.cons_failed (htakes : s.takes (root.join w.path) = false)
    (h : Commits root s rest after c) :
    Commits root s (w :: rest) after { c with failed := (w.path, e) :: c.failed } where
  written := h.written.cons w.path
  failed := by
    have hw := h.not_mem_written hother
    rw [List.map_cons, List.map_cons, h.failed, List.filter_cons_of_pos (by simpa using hw)]
  taken := h.taken
  refused v hv hmem := by
    rcases List.mem_cons.mp hv with rfl | hv
    · exact .inl htakes
    · exact h.refused v hv hmem
  holds v hv hmem halone := by
    rcases List.mem_cons.mp hv with rfl | hv
    · exact (h.not_mem_written hother hmem).elim
    · exact h.holds v hv hmem halone
  others := h.others
  readOnly := h.readOnly

theorem Commits.cons_written (htakes : s.takes (root.join w.path) = true)
    (hwrote : Wrote s (root.join w.path) w.content.toUTF8 next)
    (h : Commits root next rest after c) :
    Commits root s (w :: rest) after { c with written := w.path :: c.written } where
  written := h.written.cons_cons w.path
  failed := by
    have hrest : (rest.map (·.path)).filter (fun p => !(w.path :: c.written).contains p) =
        (rest.map (·.path)).filter fun p => !c.written.contains p := by
      refine List.filter_congr fun p hp => ?_
      obtain ⟨v, hv, rfl⟩ := List.mem_map.mp hp
      simp [hother v hv]
    rw [List.map_cons, List.filter_cons_of_neg (by simp), hrest]
    exact h.failed
  taken := List.forall_mem_cons.mpr
    ⟨htakes, fun p hp => hwrote.takes_of_takes htakes (h.taken p hp)⟩
  refused v hv hmem := by
    rcases List.mem_cons.mp hv with rfl | hv
    · exact absurd List.mem_cons_self hmem
    · cases hbefore : s.takes (root.join v.path) with
      | false => exact .inl rfl
      | true =>
        right
        rcases h.refused v hv fun h => hmem (List.mem_cons_of_mem _ h) with hlost | ⟨p, hp, hway⟩
        · exact ⟨w.path, List.mem_cons_self,
            (hwrote.takes_or_inWay hbefore).resolve_left (by simp [hlost])⟩
        · exact ⟨p, List.mem_cons_of_mem _ hp, hway⟩
  holds v hv hmem halone := by
    obtain ⟨hfirst, hrest⟩ := List.forall_mem_cons.mp halone
    rcases List.mem_cons.mp hv with rfl | hv
    · have hitem : next.item? (root.join v.path).place = some (.file v.content.toUTF8) := by
        rw [hwrote.item, if_pos rfl]
      refine Store.read_ok (fun q hq => h.directory (hwrote.way htakes hq)) ?_
      rcases h.others _ fun p hp hplace => h.not_mem_written hother (hrest p hp hplace ▸ hp) with
        hsame | ⟨hnone, -⟩
      · rw [hsame, hitem]
      · simp [hitem] at hnone
    · exact h.holds v hv ((List.mem_cons.mp hmem).resolve_left (hother v hv)) hrest
  others q hq := by
    obtain ⟨hself, hq⟩ := List.forall_mem_cons.mp hq
    have hfirst := hwrote.item_of_ne hself.symm
    rcases h.others q hq with hsame | ⟨hnone, hmade, p, hp, hway⟩
    · rcases hfirst with hsame' | ⟨hway, hnone, hmade⟩
      · exact .inl (hsame.trans hsame')
      · exact .inr ⟨hnone, hsame.trans hmade, w.path, List.mem_cons_self, hway⟩
    · rcases hfirst with hsame' | ⟨-, -, hmade'⟩
      · exact .inr ⟨hsame' ▸ hnone, hmade, p, List.mem_cons_of_mem _ hp, hway⟩
      · simp [hmade'] at hnone
  readOnly := h.readOnly.trans hwrote.readOnly

end

theorem commitAll_commits (s : Store) (writes : List Write) (hpaths : (writes.map (·.path)).Nodup) :
    Commits root s writes (commitAll root s writes).1 (commitAll root s writes).2 := by
  induction writes generalizing s with
  | nil =>
    exact ⟨List.Sublist.refl _,
      rfl, by simp [commitAll], by simp, by simp, fun q _ => .inl rfl, rfl⟩
  | cons w rest ih =>
    rw [List.map_cons, List.nodup_cons] at hpaths
    have hother : ∀ v ∈ rest, v.path ≠ w.path := fun v hv heq =>
      hpaths.1 (heq ▸ List.mem_map_of_mem hv)
    rcases commitAll_cons root s w rest with ⟨htakes, next, hwrote, heq⟩ | ⟨htakes, e, heq⟩
    · rw [heq]
      exact .cons_written hother htakes hwrote (ih next hpaths.2)
    · rw [heq]
      exact .cons_failed hother htakes (ih s hpaths.2)

end Batch

end DocMerge.Files
