import DocMerge.Merge.Fields
import Mathlib.Data.List.Basic

/-!
# What the merge of an entry's fields does

Each field takes a text or stays as it is, whatever the other fields do. `mergeOffer_receives` reads
the merge of all fields as `settled` at each of them, with one label for each text taken and one for
each offered name that the entry does not have.
-/

namespace DocMerge.Merge

-- ---------------------------------------------------------------------------
-- One field
-- ---------------------------------------------------------------------------

theorem replaces_iff :
    replaces policy field current incoming = true ↔ isUndocumented incoming = false ∧
      (isUndocumented current = true ∨ field ∈ policy.overwritten ∧ current ≠ incoming) := by
  simp only [replaces, Bool.and_eq_true, Bool.not_eq_true', Bool.or_eq_true, List.contains_iff_mem,
    bne_iff_ne]

theorem taken?_eq_some_iff :
    taken? policy field current incoming = some text ↔
      ∃ known offered, current = some known ∧ incoming = some offered ∧ text = trimmed offered ∧
        isUndocumented text = false ∧
        (isUndocumented known = true ∨ field ∈ policy.overwritten ∧ known ≠ text) := by
  cases current with
  | none => simp [taken?]
  | some known =>
    cases incoming with
    | none => simp [taken?]
    | some offered =>
      simp only [taken?, Option.map_some, Option.ite_none_right_eq_some, replaces_iff,
        Option.some.injEq]
      constructor
      · rintro ⟨hwhy, rfl⟩
        exact ⟨known, offered, rfl, rfl, rfl, hwhy⟩
      · rintro ⟨_, _, rfl, rfl, rfl, hwhy⟩
        exact ⟨hwhy, rfl⟩

theorem taken?_ne (h : taken? policy field current incoming = some text) : current ≠ some text := by
  obtain ⟨known, offered, rfl, rfl, rfl, hdoc, hwhy⟩ := taken?_eq_some_iff.mp h
  rcases hwhy with hempty | ⟨-, hne⟩
  · intro heq
    simp only [Option.some.injEq] at heq
    subst heq
    simp_all
  · simpa using hne

@[simp] theorem taken?_no_offer : taken? policy field current none = none := by
  cases current <;> rfl

@[simp] theorem taken?_no_field : taken? policy field none incoming = none := rfl

def settled (policy : Policy) (field : DocField) (current incoming : Option String) :
    Option String :=
  (taken? policy field current incoming).or current

@[simp] theorem settled_no_offer : settled policy field current none = current := by
  simp [settled]

theorem settled_eq_none_iff : settled policy field current incoming = none ↔ current = none := by
  cases current <;> simp [settled]

theorem settled_ne_iff :
    settled policy field current incoming ≠ current ↔
      (taken? policy field current incoming).isSome := by
  cases h : taken? policy field current incoming with
  | none => simp [settled, h]
  | some text => simpa [settled, h] using (taken?_ne h).symm

theorem taken?_settled :
    taken? policy field (settled policy field current incoming) incoming = none := by
  cases h : taken? policy field current incoming with
  | none => simp [settled, h]
  | some text =>
    obtain ⟨known, offered, rfl, rfl, rfl, hdoc, -⟩ := taken?_eq_some_iff.mp h
    have hsame : replaces policy field (trimmed offered) (trimmed offered) = false := by
      simp_all [replaces]
    rw [settled, h, Option.some_or]
    simp [taken?, hsame]

-- ---------------------------------------------------------------------------
-- The records of a merge
-- ---------------------------------------------------------------------------

namespace Merged

/-- A merge has reported the given labels and orphans and has otherwise written to fields alone. -/
structure Adds (m after : Merged) (labels orphans : List Label) : Prop where
  updated : after.updated = m.updated ++ labels
  orphans : after.orphans = m.orphans ++ orphans
  changed : after.docs.changed = (m.docs.changed || !labels.isEmpty)
  present : after.docs.present = m.docs.present
  exceptions : after.docs.exceptions = m.docs.exceptions
  notices : after.notices = m.notices
  fault : after.fault = m.fault

theorem Adds.refl (m : Merged) : Adds m m [] [] := by
  constructor <;> simp

theorem Adds.trans {first second left right : List Label} (h : Adds a b first left)
    (h' : Adds b c second right) : Adds a c (first ++ second) (left ++ right) where
  updated := by rw [h'.updated, h.updated, List.append_assoc]
  orphans := by rw [h'.orphans, h.orphans, List.append_assoc]
  changed := by rw [h'.changed, h.changed]; cases first <;> cases second <;> simp
  present := h'.present.trans h.present
  exceptions := h'.exceptions.trans h.exceptions
  notices := h'.notices.trans h.notices
  fault := h'.fault.trans h.fault

@[simp] theorem mark_docs (m : Merged) (docs : DocFields) :
    (m.mark docs label).docs = docs.markIf true := rfl

theorem mark_adds (m : Merged) (docs : DocFields) (label : Label)
    (hpresent : docs.present = m.docs.present) (hexceptions : docs.exceptions = m.docs.exceptions) :
    Adds m (m.mark docs label) [label] [] where
  updated := rfl
  orphans := (List.append_nil _).symm
  changed := by simp
  present := hpresent
  exceptions := hexceptions
  notices := rfl
  fault := rfl

end Merged

-- ---------------------------------------------------------------------------
-- Scalar fields
-- ---------------------------------------------------------------------------

def scalarLabels (policy : Policy) (offer : Offer) (docs : DocFields) (fields : List ScalarField) :
    List Label :=
  (fields.filter (fun f => (taken? policy f.toField (docs.scalar f) (offer.scalar f)).isSome)).map
    .scalar

namespace Merged

theorem mergeScalar_scalar (m : Merged) (f g : ScalarField) :
    (m.mergeScalar policy f incoming).docs.scalar g =
      if g = f then settled policy f.toField (m.docs.scalar f) incoming else m.docs.scalar g := by
  unfold mergeScalar settled
  cases taken? policy f.toField (m.docs.scalar f) incoming with
  | none => by_cases h : g = f <;> simp [h]
  | some text => simp

theorem mergeScalar_named (m : Merged) (f : ScalarField) (g : NamedField) :
    (m.mergeScalar policy f incoming).docs.named g = m.docs.named g := by
  unfold mergeScalar
  split <;> simp

theorem mergeScalar_adds (m : Merged) (f : ScalarField) :
    Adds m (m.mergeScalar policy f incoming)
      (if (taken? policy f.toField (m.docs.scalar f) incoming).isSome
        then [.scalar f] else []) [] := by
  unfold mergeScalar
  cases taken? policy f.toField (m.docs.scalar f) incoming with
  | none => exact .refl m
  | some text => exact mark_adds m _ _ (by simp) (by simp)

theorem mergeScalars_scalar (m : Merged) (hf : fields.Nodup) (g : ScalarField) :
    (m.mergeScalars policy offer fields).docs.scalar g =
      if g ∈ fields then settled policy g.toField (m.docs.scalar g) (offer.scalar g)
      else m.docs.scalar g := by
  induction fields generalizing m with
  | nil => simp [mergeScalars]
  | cons f rest ih =>
    have hf := List.nodup_cons.mp hf
    simp only [mergeScalars, List.foldl_cons] at ih ⊢
    rw [ih _ hf.2, mergeScalar_scalar]
    by_cases h : g = f
    · subst h; simp [hf.1]
    · simp [h]

theorem mergeScalars_named (m : Merged) (fields : List ScalarField) (g : NamedField) :
    (m.mergeScalars policy offer fields).docs.named g = m.docs.named g := by
  induction fields generalizing m with
  | nil => rfl
  | cons f rest ih =>
    simp only [mergeScalars, List.foldl_cons] at ih ⊢
    rw [ih, mergeScalar_named]

theorem mergeScalars_adds (policy : Policy) (offer : Offer) (m : Merged) (hf : fields.Nodup) :
    Adds m (m.mergeScalars policy offer fields) (scalarLabels policy offer m.docs fields) [] := by
  induction fields generalizing m with
  | nil => exact .refl m
  | cons f rest ih =>
    have hf := List.nodup_cons.mp hf
    have h := (mergeScalar_adds m f).trans (ih (m.mergeScalar policy f (offer.scalar f)) hf.2)
    have hlater : scalarLabels policy offer (m.mergeScalar policy f (offer.scalar f)).docs rest =
        scalarLabels policy offer m.docs rest := by
      unfold scalarLabels
      congr 1
      refine List.filter_congr fun g hg => ?_
      rw [mergeScalar_scalar, if_neg (by rintro rfl; exact hf.1 hg)]
    have hlabels : scalarLabels policy offer m.docs (f :: rest) =
        (if (taken? policy f.toField (m.docs.scalar f) (offer.scalar f)).isSome then [.scalar f]
          else []) ++ scalarLabels policy offer m.docs rest := by
      simp only [scalarLabels, List.filter_cons]
      split <;> simp
    rw [hlater] at h
    rw [hlabels]
    exact h

end Merged

-- ---------------------------------------------------------------------------
-- Texts by name
-- ---------------------------------------------------------------------------

def nameLabels (policy : Policy) (f : NamedField) (texts : NamedTexts)
    (incoming : List (String × String)) : List Label :=
  (incoming.filter (fun pair =>
    (taken? policy f.toField (texts.lookup pair.1) (some pair.2)).isSome)).map
      (fun pair => .named f pair.1)

def missingLabels (f : NamedField) (texts : NamedTexts) (incoming : List (String × String)) :
    List Label :=
  (incoming.filter (fun pair => pair.1 ∉ texts.names)).map (fun pair => .named f pair.1)

namespace Merged

theorem mergeName_scalar (m : Merged) (f : NamedField) (g : ScalarField) :
    (m.mergeName policy f name text).docs.scalar g = m.docs.scalar g := by
  unfold mergeName
  dsimp only
  repeat' split
  all_goals simp

theorem mergeName_names (m : Merged) (f g : NamedField) :
    ((m.mergeName policy f name text).docs.named g).names = (m.docs.named g).names := by
  unfold mergeName
  dsimp only
  split
  · rfl
  · rename_i known hknown
    have hmem : name ∈ (m.docs.named f).names := NamedTexts.mem_names_of_lookup hknown
    split
    · by_cases h : g = f
      · subst h; simpa using NamedTexts.names_set _ hmem
      · simp [h]
    · rfl

theorem mergeName_lookup (m : Merged) (f g : NamedField) (other : String) :
    ((m.mergeName policy f name text).docs.named g).lookup other =
      if g = f ∧ other = name then
        settled policy f.toField ((m.docs.named f).lookup name) (some text)
      else (m.docs.named g).lookup other := by
  unfold mergeName settled
  dsimp only
  split
  · rename_i hnone
    simp only [hnone, taken?_no_field, Option.or_none]
    split
    · rename_i h; obtain ⟨rfl, rfl⟩ := h; exact hnone
    · rfl
  · rename_i known hknown
    rw [hknown]
    split
    · rename_i hnew
      rw [hnew]
      by_cases h : g = f
      · subst h; by_cases h : other = name <;> simp [h]
      · simp [h]
    · rename_i hnew
      rw [hnew]
      split
      · rename_i h; obtain ⟨rfl, rfl⟩ := h; simpa using hknown
      · rfl

theorem mergeName_adds (m : Merged) (f : NamedField) (name text : String) :
    Adds m (m.mergeName policy f name text) (nameLabels policy f (m.docs.named f) [(name, text)])
      (missingLabels f (m.docs.named f) [(name, text)]) := by
  unfold mergeName nameLabels missingLabels
  dsimp only
  cases hknown : (m.docs.named f).lookup name with
  | none =>
    have hmem : name ∉ (m.docs.named f).names := NamedTexts.lookup_eq_none_iff.mp hknown
    constructor <;> simp [hknown, hmem]
  | some known =>
    have hmem : name ∈ (m.docs.named f).names := NamedTexts.mem_names_of_lookup hknown
    cases hnew : taken? policy f.toField (some known) (some text) with
    | none => simpa [hknown, hnew, hmem] using Adds.refl m
    | some new => simpa [hknown, hnew, hmem] using mark_adds m _ (.named f name) (by simp) (by simp)

theorem mergeNames_scalar (m : Merged) (f : NamedField) (incoming : List (String × String))
    (g : ScalarField) : (m.mergeNames policy f incoming).docs.scalar g = m.docs.scalar g := by
  induction incoming generalizing m with
  | nil => rfl
  | cons pair rest ih =>
    simp only [mergeNames, List.foldl_cons] at ih ⊢
    rw [ih, mergeName_scalar]

theorem mergeNames_names (m : Merged) (f g : NamedField) (incoming : List (String × String)) :
    ((m.mergeNames policy f incoming).docs.named g).names = (m.docs.named g).names := by
  induction incoming generalizing m with
  | nil => rfl
  | cons pair rest ih =>
    simp only [mergeNames, List.foldl_cons] at ih ⊢
    rw [ih, mergeName_names]

theorem mergeNames_lookup (m : Merged) (f g : NamedField) (hd : (incoming.map (·.1)).Nodup)
    (other : String) :
    ((m.mergeNames policy f incoming).docs.named g).lookup other =
      if g = f then settled policy f.toField ((m.docs.named f).lookup other) (incoming.lookup other)
      else (m.docs.named g).lookup other := by
  induction incoming generalizing m with
  | nil => by_cases h : g = f <;> simp [mergeNames, h]
  | cons pair rest ih =>
    obtain ⟨name, text⟩ := pair
    have hd := List.nodup_cons.mp hd
    have hlater : rest.lookup name = none := by
      rw [List.lookup_eq_none_iff]
      intro pair hp
      simp only [bne_iff_ne, ne_eq]
      rintro rfl
      exact hd.1 (List.mem_map.mpr ⟨_, hp, rfl⟩)
    simp only [mergeNames, List.foldl_cons] at ih ⊢
    rw [ih _ hd.2, mergeName_lookup, mergeName_lookup, List.lookup_cons]
    by_cases hg : g = f
    · subst hg
      by_cases ho : other = name
      · subst ho; simp [hlater]
      · simp [ho, beq_false_of_ne ho]
    · simp [hg]

theorem mergeNames_adds (m : Merged) (f : NamedField) (hd : (incoming.map (·.1)).Nodup) :
    Adds m (m.mergeNames policy f incoming) (nameLabels policy f (m.docs.named f) incoming)
      (missingLabels f (m.docs.named f) incoming) := by
  induction incoming generalizing m with
  | nil => exact .refl m
  | cons pair rest ih =>
    obtain ⟨name, text⟩ := pair
    have hd := List.nodup_cons.mp hd
    have h := (mergeName_adds m f name text).trans (ih (m.mergeName policy f name text) hd.2)
    -- What the later names find is what was there before the first one.
    have hlookup : ∀ pair ∈ rest, ((m.mergeName policy f name text).docs.named f).lookup pair.1 =
        (m.docs.named f).lookup pair.1 := by
      intro pair hp
      rw [mergeName_lookup, if_neg]
      rintro ⟨-, rfl⟩
      exact hd.1 (List.mem_map.mpr ⟨_, hp, rfl⟩)
    have hlabels : nameLabels policy f ((m.mergeName policy f name text).docs.named f) rest =
        nameLabels policy f (m.docs.named f) rest := by
      unfold nameLabels
      congr 1
      exact List.filter_congr fun pair hp => by rw [hlookup pair hp]
    have hmissing : missingLabels f ((m.mergeName policy f name text).docs.named f) rest =
        missingLabels f (m.docs.named f) rest := by
      simp only [missingLabels, mergeName_names]
    rw [hlabels, hmissing] at h
    have hsplit : (name, text) :: rest = [(name, text)] ++ rest := rfl
    rw [hsplit, nameLabels, missingLabels, List.filter_append, List.filter_append, List.map_append,
      List.map_append]
    exact h

theorem mergeNamed_scalar (m : Merged) (fields : List NamedField) (g : ScalarField) :
    (m.mergeNamed policy offer fields).docs.scalar g = m.docs.scalar g := by
  induction fields generalizing m with
  | nil => rfl
  | cons f rest ih =>
    simp only [mergeNamed, List.foldl_cons] at ih ⊢
    rw [ih, mergeNames_scalar]

theorem mergeNamed_names (m : Merged) (fields : List NamedField) (g : NamedField) :
    ((m.mergeNamed policy offer fields).docs.named g).names = (m.docs.named g).names := by
  induction fields generalizing m with
  | nil => rfl
  | cons f rest ih =>
    simp only [mergeNamed, List.foldl_cons] at ih ⊢
    rw [ih, mergeNames_names]

theorem mergeNamed_lookup (m : Merged) (hf : fields.Nodup) (g : NamedField) (name : String) :
    ((m.mergeNamed policy offer fields).docs.named g).lookup name =
      if g ∈ fields then
        settled policy g.toField ((m.docs.named g).lookup name) ((offer.named g).lookup name)
      else (m.docs.named g).lookup name := by
  induction fields generalizing m with
  | nil => simp [mergeNamed]
  | cons f rest ih =>
    have hf := List.nodup_cons.mp hf
    simp only [mergeNamed, List.foldl_cons] at ih ⊢
    rw [ih _ hf.2, mergeNames_lookup _ _ _ (offer.named f).distinct]
    by_cases h : g = f
    · subst h; simp [hf.1, NamedTexts.lookup]
    · simp [h]

theorem mergeNamed_adds (policy : Policy) (offer : Offer) (m : Merged) (hf : fields.Nodup) :
    Adds m (m.mergeNamed policy offer fields)
      (fields.flatMap (fun f => nameLabels policy f (m.docs.named f) (offer.named f).toList))
      (fields.flatMap (fun f => missingLabels f (m.docs.named f) (offer.named f).toList)) := by
  induction fields generalizing m with
  | nil => exact .refl m
  | cons f rest ih =>
    have hf := List.nodup_cons.mp hf
    have h := (mergeNames_adds m f (offer.named f).distinct).trans
      (ih (m.mergeNames policy f (offer.named f).toList) hf.2)
    -- The later fields are as they were before the first one.
    have hlookup : ∀ g ∈ rest, ∀ name,
        ((m.mergeNames policy f (offer.named f).toList).docs.named g).lookup name =
          (m.docs.named g).lookup name := by
      intro g hg name
      rw [mergeNames_lookup _ _ _ (offer.named f).distinct, if_neg]
      rintro rfl
      exact hf.1 hg
    have hlabels : rest.flatMap (fun g => nameLabels policy g
          ((m.mergeNames policy f (offer.named f).toList).docs.named g) (offer.named g).toList) =
        rest.flatMap (fun g => nameLabels policy g (m.docs.named g) (offer.named g).toList) :=
      List.flatMap_congr fun g hg => by simp only [nameLabels, hlookup g hg]
    simp only [hlabels, missingLabels, mergeNames_names] at h
    exact h

end Merged

-- ---------------------------------------------------------------------------
-- All fields
-- ---------------------------------------------------------------------------

structure Receives (policy : Policy) (offer : Offer) (before after : DocFields) : Prop where
  scalar : ∀ f, after.scalar f = settled policy f.toField (before.scalar f) (offer.scalar f)
  names : ∀ f, (after.named f).names = (before.named f).names
  lookup : ∀ f name, (after.named f).lookup name =
    settled policy f.toField ((before.named f).lookup name) ((offer.named f).lookup name)

def takenLabels (policy : Policy) (offer : Offer) (docs : DocFields) : List Label :=
  scalarLabels policy offer docs ScalarField.all ++
    NamedField.all.flatMap (fun f => nameLabels policy f (docs.named f) (offer.named f).toList)

def orphanLabels (offer : Offer) (docs : DocFields) : List Label :=
  NamedField.all.flatMap (fun f => missingLabels f (docs.named f) (offer.named f).toList)

theorem scalarField_mem_all (f : ScalarField) : f ∈ ScalarField.all := by
  cases f <;> simp [ScalarField.all]

theorem namedField_mem_all (f : NamedField) : f ∈ NamedField.all := by
  cases f <;> simp [NamedField.all]

theorem mergeOffer_receives (policy : Policy) (offer : Offer) (m : Merged) :
    Receives policy offer m.docs (m.mergeOffer policy offer).docs where
  scalar f := by
    simp only [Merged.mergeOffer, Merged.mergeNamed_scalar]
    rw [Merged.mergeScalars_scalar m (by decide), if_pos (scalarField_mem_all f)]
  names f := by
    simp only [Merged.mergeOffer, Merged.mergeNamed_names, Merged.mergeScalars_named]
  lookup f name := by
    simp only [Merged.mergeOffer]
    rw [Merged.mergeNamed_lookup _ (by decide), if_pos (namedField_mem_all f),
      Merged.mergeScalars_named]

theorem mergeOffer_adds (policy : Policy) (offer : Offer) (m : Merged) :
    Merged.Adds m (m.mergeOffer policy offer) (takenLabels policy offer m.docs)
      (orphanLabels offer m.docs) := by
  have hscalars : Merged.Adds m _ (scalarLabels policy offer m.docs ScalarField.all) [] :=
    Merged.mergeScalars_adds policy offer m (by decide)
  have hnamed := Merged.mergeNamed_adds policy offer (m.mergeScalars policy offer ScalarField.all)
    (by decide : NamedField.all.Nodup)
  simp only [Merged.mergeScalars_named] at hnamed
  exact hscalars.trans hnamed

end DocMerge.Merge
