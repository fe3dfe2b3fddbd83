import DocMerge.Proofs.Qualifiers
import DocMerge.Proofs.Words
import Mathlib.Data.List.TakeDrop

/-!
# The key of a signature

Every spelling of a signature has one key, its DocId. `Reads` tells how a text fares in the
rewritings of an identifier, whatever stands behind it, and each way of writing a type makes such a
text from others.
-/

namespace DocMerge.DocId

open Text (Pattern replaceAll isNameStart isDigit joinWith cutAt? isBlank)

-- ---------------------------------------------------------------------------
-- Texts of types
-- ---------------------------------------------------------------------------

structure Reads (outside : Char → Prop) (written canonical : List Char) : Prop where
  chars : ∀ c ∈ written, isTypeChar c = true
  bracketed : Bracketed outside written
  unqualified : ∀ rest, Unqualified rest → Unqualified (written ++ rest)
  unbound : ∀ rest, Unbound rest → Unbound (written.map argumentChar ++ rest)
  rewritten : ∀ rest, Unbound rest →
    replaceAll lowerBound (written.map argumentChar ++ rest) = canonical ++
    replaceAll lowerBound rest

namespace Reads

theorem nil : Reads outside [] [] where
  chars := by simp
  bracketed := .nil
  unqualified _ h := h
  unbound _ h := h
  rewritten _ _ := rfl

theorem mono (h : Reads outside written canonical) (hall : ∀ c, outside c → allowed c) :
    Reads allowed written canonical :=
  { h with bracketed := h.bracketed.mono hall }

theorem append (h : Reads outside written canonical) (hmore : Reads outside written' canonical') :
    Reads outside (written ++ written') (canonical ++ canonical') where
  chars := by
    intro c hc
    rcases List.mem_append.mp hc with hc | hc
    · exact h.chars c hc
    · exact hmore.chars c hc
  bracketed := h.bracketed.append hmore.bracketed
  unqualified rest hrest := by
    rw [List.append_assoc]
    exact h.unqualified _ (hmore.unqualified rest hrest)
  unbound rest hrest := by
    rw [List.map_append, List.append_assoc]
    exact h.unbound _ (hmore.unbound rest hrest)
  rewritten rest hrest := by
    rw [List.map_append, List.append_assoc, h.rewritten _ (hmore.unbound rest hrest),
      hmore.rewritten rest hrest,
      List.append_assoc]

theorem single (hc : isTypeChar c = true) (hbracket : isBracket c = false) (hcolon : c ≠ ':')
    (houtside : outside c) : Reads outside [c] [argumentChar c] := by
  have hkept : argumentChar c ≠ '-' ∧ argumentChar c ≠ ':' := by
    unfold argumentChar dotted
    split
    · decide
    · decide
    · decide
    · split
      · decide
      · exact ⟨ne_of_isTypeChar hc (by decide), hcolon⟩
  exact {
    chars := by simpa using hc
    bracketed := .plain houtside hbracket .nil
    unqualified := fun rest hrest => unqualified_cons (by rintro rfl; cases hbracket) hrest
    unbound := fun rest hrest => unbound_cons hkept.1 hkept.2 hrest
    rewritten := fun rest hrest => by
      rw [List.map_singleton, List.singleton_append, replaceAll_lowerBound_cons,
        write_scanFrom hrest]
      rfl }

theorem plain (hall : ∀ c ∈ cs, outside c ∧ isPlain c = true) : Reads outside cs cs := by
  induction cs with
  | nil => exact .nil
  | cons c rest ih =>
    rw [List.forall_mem_cons] at hall
    obtain ⟨⟨houtside, hc⟩, hrest⟩ := hall
    have hfirst : Reads outside [c] [argumentChar c] :=
      .single (isTypeChar_of_isPlain hc) (isBracket_of_isPlain hc)
        (ne_of_isPlain hc (by decide)) houtside
    rw [argumentChar_of_isPlain hc] at hfirst
    exact hfirst.append (ih hrest)

theorem name (name : Name) : Reads (· ≠ ',') name.chars name.chars :=
  .plain fun c hc => ⟨ne_of_isPlain (name.isPlain c hc) (by decide), name.isPlain c hc⟩

theorem separator (h : IsSeparator c) : Reads (· ≠ ',') [c] ['.'] := by
  rcases h with rfl | rfl | rfl <;> exact .single (by decide) (by decide) (by decide) (by decide)

theorem enclosed (hencloses : Encloses o close) (h : Reads outside written canonical) :
    Reads allowed (o :: (written ++ [close])) ('\x7b' :: (canonical ++ ['\x7d'])) := by
  obtain ⟨hcloses, hopen, hshut, hsquare, hchars⟩ :
      opener? close = some o ∧ argumentChar o = '\x7b' ∧ argumentChar close = '\x7d' ∧
        (o ≠ '[' ∧ close ≠ '[') ∧ isTypeChar o = true ∧ isTypeChar close = true := by
    cases hencloses <;> decide
  have hbehind : ∀ rest, Unbound rest → Unbound ('\x7d' :: rest) := fun rest =>
    unbound_cons (by decide) (by decide)
  refine ⟨?_, .within hcloses h.bracketed, fun rest hrest => ?_, fun rest hrest => ?_,
    fun rest hrest => ?_⟩
  · intro c hc
    rcases List.mem_cons.mp hc with rfl | hc
    · exact hchars.1
    · rcases List.mem_append.mp hc with hc | hc
      · exact h.chars c hc
      · obtain rfl := List.mem_singleton.mp hc
        exact hchars.2
  · rw [List.cons_append, List.append_assoc]
    exact unqualified_cons hsquare.1 (h.unqualified _ (unqualified_cons hsquare.2 hrest))
  · simp only [List.map_cons, List.map_append, List.map_nil, hopen, hshut, List.cons_append,
      List.append_assoc]
    exact unbound_cons (by decide) (by decide) (h.unbound _ (hbehind rest hrest))
  · simp only [List.map_cons, List.map_append, List.map_nil, hopen, hshut, List.cons_append,
      List.append_assoc,
      List.nil_append]
    rw [replaceAll_lowerBound_cons, write_scanFrom (h.unbound _ (hbehind rest hrest)),
      h.rewritten _ (hbehind rest hrest), replaceAll_lowerBound_cons, write_scanFrom hrest]

theorem of_dimensions (h : Dimensions commas text) :
    Reads outside ('[' :: (text ++ [']'])) ('[' :: (List.replicate commas ',' ++ [']'])) := by
  have hchars : ∀ c ∈ text, isTypeChar c = true ∧ isBracket c = false ∧ isNameStart c = false ∧
      argumentChar c = c := by
    intro c hc
    rcases h.chars c hc with hdigit | rfl | rfl
    · have hplain := isPlain_of_isDigit hdigit
      refine ⟨isTypeChar_of_isPlain hplain, isBracket_of_isPlain hplain, ?_,
        argumentChar_of_isPlain hplain⟩
      rw [← Bool.not_eq_true]
      exact fun hstart => by simp [isDigit_of_isNameStart hstart] at hdigit
    · decide
    · decide
  have hmap : (text ++ [']']).map argumentChar = text ++ [']'] := by
    rw [List.map_append, map_eq_self fun c hc => (hchars c hc).2.2.2]
    rfl
  refine ⟨?_, ?_, fun rest hrest => ⟨fun _ => ?_, ?_⟩, fun rest hrest => ?_, fun rest hrest => ?_⟩
  · simp only [List.mem_cons, List.mem_append, List.not_mem_nil, or_false]
    rintro c (rfl | hc | rfl)
    · decide
    · exact (hchars c hc).1
    · decide
  · have hinner : Bracketed (fun _ => True) text :=
      .of_plain fun c hc => ⟨trivial, (hchars c hc).2.1⟩
    exact .within rfl hinner
  · intro d hd
    cases text with
    | nil =>
      cases hd
      decide
    | cons c more =>
      cases hd
      exact (hchars d List.mem_cons_self).2.2.1
  · show Unqualified (text ++ [']'] ++ rest)
    rw [List.append_assoc]
    refine unqualified_append (fun c hc => ?_) (unqualified_cons (by decide) hrest)
    rintro rfl
    have hbracket := (hchars '[' hc).2.1
    cases hbracket
  · exact unbound_of_not_digit (by decide) (by decide) (by decide) _
  · have hopen : argumentChar '[' = '[' := rfl
    rw [List.map_cons, hopen, hmap, List.cons_append, List.append_assoc, List.singleton_append,
      replaceAll_lowerBound_cons, h.write (.inl rfl), replaceAll_lowerBound_cons,
      write_scanFrom hrest]
    simp

end Reads

-- ---------------------------------------------------------------------------
-- Spelled types
-- ---------------------------------------------------------------------------

theorem SpelledArguments.reads (h : SpelledArguments arguments text)
    (htypes : ∀ {text}, SpelledTypes arguments text →
      Reads (fun _ => True) text (joinWith [','] (docIds arguments))) :
    Reads outside text (braced (docIds arguments)) := by
  cases h with
  | none => exact .nil
  | some hencloses h => exact .enclosed hencloses (htypes h)

mutual
theorem TypeRef.Spelled.reads : {t : TypeRef} → t.Spelled text → Reads (· ≠ ',') text t.docId
  | .named name arguments, h => by
    cases h with
    | named harguments =>
      rw [TypeRef.docId]
      exact (Reads.name name).append (harguments.reads fun htypes => htypes.reads)
  | .nested outer name arguments, h => by
    cases h with
    | nested houter hseparator harguments =>
      rw [TypeRef.docId]
      have hname := (Reads.name name).append (harguments.reads fun htypes => htypes.reads)
      exact houter.reads.append ((Reads.separator hseparator).append hname)
  | .array element commas, h => by
    cases h with
    | array helement hdimensions =>
      rw [TypeRef.docId]
      exact helement.reads.append (.of_dimensions hdimensions)
  | .reference element, h => by
    cases h with
    | reference helement hmark =>
      rw [TypeRef.docId]
      refine helement.reads.append ?_
      rcases hmark with rfl | rfl <;> exact .single (by decide) (by decide) (by decide) (by decide)
theorem SpelledTypes.reads : {types : List TypeRef} → SpelledTypes types text →
    Reads (fun _ => True) text (joinWith [','] (docIds types))
  | [], .none => .nil
  | [_], .last h => h.reads.mono fun _ _ => trivial
  | t :: next :: rest, h => by
    cases h with
    | more h hrest =>
      rw [docIds, docIds, joinWith_cons_cons, ← docIds]
      have hcomma : Reads (fun _ => True) [','] [','] :=
        .single (by decide) (by decide) (by decide) trivial
      exact (h.reads.mono fun _ _ => trivial).append (hcomma.append hrest.reads)
end

-- ---------------------------------------------------------------------------
-- Counted arguments
-- ---------------------------------------------------------------------------

theorem cutAt?_append (h : mark ∉ before) (rest : List Char) :
    cutAt? [mark] (before ++ mark :: rest) = some (before, rest) := by
  induction before with
  | nil => simp [cutAt?, Text.dropStart?]
  | cons c more ih =>
    rw [List.mem_cons, not_or] at h
    rw [List.cons_append, cutAt?, Text.dropStart?, if_neg h.1, ih h.2]
    rfl

theorem countArguments_listed (tick : List Char) (h : '<' ∉ name) (inner : List Char) :
    countArguments tick (name ++ '<' :: (inner ++ ['>'])) =
      name ++ tick ++ (toString (splitTop ',' 0 inner).length).toList := by
  have hend : Text.hasEnd ['>'] (name ++ '<' :: (inner ++ ['>'])) = true := by
    simp [Text.hasEnd, Text.hasStart, Text.dropStart?]
  rw [countArguments, cutAt?_append h]
  simp only [hend, if_true, List.dropLast_concat]

theorem countArguments_plain (tick : List Char) (h : '<' ∉ cs) : countArguments tick cs = cs := by
  unfold countArguments
  split
  · rename_i hcut
    rw [Text.cutAt?_eq_some hcut] at h
    simp at h
  · rfl

theorem Bracketed.map_dotted (h : Bracketed outside cs)
    (hall : ∀ c, outside c → allowed (dotted c)) :
    Bracketed allowed (cs.map dotted) := by
  refine h.map (fun c hc => ?_) (fun c hc => ?_) hall
  · have hkept : ∀ c ∈ ['(', '[', '\x7b', '<', ')', ']', '\x7d', '>'], dotted c = c := by decide
    exact hkept c (mem_brackets hc)
  · unfold dotted
    split
    · rfl
    · exact hc

theorem TypeRef.Spelled.comma {t : TypeRef} (h : t.Spelled text) :
    Bracketed (· ≠ ',') (text.map dotted) :=
  h.reads.bracketed.map_dotted fun c hc => by
    unfold dotted
    split
    · decide
    · exact hc

theorem SpelledTypes.count : {types : List TypeRef} → SpelledTypes types text → types ≠ [] →
    (splitTop ',' 0 (text.map dotted)).length = types.length
  | [], _, hne => absurd rfl hne
  | [_], .last h, _ => by
    rw [h.comma.splitTop_eq (by decide) (by simp)]
    rfl
  | _ :: next :: rest, h, _ => by
    cases h with
    | more h hrest =>
      have hcomma : dotted ',' = ',' := rfl
      rw [List.map_append, List.map_cons, hcomma,
        h.comma.splitTop_separator (by decide) (by simp), List.length_cons,
        hrest.count (List.cons_ne_nil next rest)]
      rfl

theorem digits_plain (n : Nat) : ∀ c ∈ (toString n).toList, isPlain c = true := fun c hc =>
  isPlain_of_isDigit
    (by rw [isDigit, Text.digitValue?_of_isDigit (Text.isDigit_of_mem_repr hc)]; rfl)

def IsTick (tick : List Char) : Prop := ∀ c ∈ tick, c = '`'

theorem Segment.plain_docId (htick : IsTick tick) (segment : Segment) :
    ∀ c ∈ segment.docId tick, isPlain c = true := by
  obtain ⟨name, arguments⟩ := segment
  cases arguments with
  | nil => exact name.isPlain
  | cons t rest =>
    simp only [docId, List.mem_append]
    rintro c ((hc | hc) | hc)
    · exact name.isPlain c hc
    · obtain rfl := htick c hc
      decide
    · exact digits_plain _ c hc

theorem Name.map_dotted (name : Name) : name.chars.map dotted = name.chars :=
  map_eq_self fun c hc => dotted_of_isPlain (name.isPlain c hc)

theorem map_dotted_listed (name : Name) (text : List Char) :
    (name.chars ++ '<' :: (text ++ ['>'])).map dotted = name.chars ++ '<' ::
    (text.map dotted ++ ['>']) := by
  rw [List.map_append, name.map_dotted, List.map_cons, List.map_append]
  rfl

section
variable {tick text : List Char} {segment : Segment}

theorem Segment.Spelled.counts (htick : IsTick tick) (h : segment.Spelled tick text) :
    countArguments tick (text.map dotted) = segment.docId tick := by
  cases h with
  | counted =>
    have hplain := segment.plain_docId htick
    rw [map_eq_self fun c hc => dotted_of_isPlain (hplain c hc), countArguments_plain]
    exact fun hmem => absurd rfl (ne_of_isPlain (hplain _ hmem) (by decide))
  | listed name htypes =>
    have hname : '<' ∉ name.chars := fun hmem =>
      absurd rfl (ne_of_isPlain (name.isPlain _ hmem) (by decide))
    rw [map_dotted_listed, countArguments_listed tick hname, htypes.count (List.cons_ne_nil _ _)]
    rfl

theorem Segment.Spelled.dot (htick : IsTick tick) (h : segment.Spelled tick text) :
    Bracketed (· ≠ '.') (text.map dotted) := by
  have hplain : ∀ {cs}, (∀ c ∈ cs, isPlain c = true) → Bracketed (· ≠ '.') cs := fun hall =>
    .of_plain fun c hc => ⟨ne_of_isPlain (hall c hc) (by decide), isBracket_of_isPlain (hall c hc)⟩
  cases h with
  | counted =>
    have hall := segment.plain_docId htick
    rw [map_eq_self fun c hc => dotted_of_isPlain (hall c hc)]
    exact hplain hall
  | listed name htypes =>
    have hinner : Bracketed (fun _ => True) (List.map dotted _) :=
      htypes.reads.bracketed.map_dotted fun _ _ => trivial
    rw [map_dotted_listed]
    exact (hplain name.isPlain).append (.within rfl hinner)

theorem Segment.Spelled.reads (htick : IsTick tick) (h : segment.Spelled tick text) :
    ∃ canonical, Reads (· ≠ ',') text canonical := by
  cases h with
  | counted =>
    have hall := segment.plain_docId htick
    exact ⟨_, .plain fun c hc => ⟨ne_of_isPlain (hall c hc) (by decide), hall c hc⟩⟩
  | listed name htypes => exact ⟨_, (Reads.name name).append (.enclosed .angle htypes.reads)⟩

theorem Segment.Spelled.ne_nil (h : segment.Spelled tick text) : text ≠ [] := by
  cases h with
  | listed => simp
  | counted =>
    obtain ⟨name, arguments⟩ := segment
    cases arguments <;> simp [Segment.docId, name.ne_nil]

end

-- ---------------------------------------------------------------------------
-- Paths
-- ---------------------------------------------------------------------------

theorem isTick_one : IsTick ['`'] := by
  simp [IsTick]

theorem Signature.isTick_lastTick (signature : Signature) : IsTick signature.lastTick := by
  unfold lastTick
  split <;> simp [IsTick]

section
variable {lastTick text : List Char} {path : List Segment}

theorem SpelledPath.reads (htick : IsTick lastTick) (h : SpelledPath lastTick path text) :
    ∃ canonical, Reads (· ≠ ',') text canonical := by
  induction h with
  | last h => exact h.reads htick
  | more h hseparator _ ih =>
    obtain ⟨first, hfirst⟩ := h.reads isTick_one
    obtain ⟨rest, hrest⟩ := ih
    exact ⟨_, hfirst.append ((Reads.separator hseparator).append hrest)⟩

theorem SpelledPath.ne_nil (h : SpelledPath lastTick path text) : text ≠ [] := by
  cases h with
  | more => simp
  | last h => exact h.ne_nil

/-- The parts of a path are its segments, and each is written with the number of its arguments. -/
theorem SpelledPath.canonical (htick : IsTick lastTick) (h : SpelledPath lastTick path text) :
    joinWith ['.'] (mapWithLast (countArguments ['`']) (countArguments lastTick)
      (splitTop '.' 0 (text.map dotted))) =
      pathDocId lastTick path := by
  induction h with
  | last h =>
    rw [(h.dot htick).splitTop_eq (by decide) (by simp), mapWithLast, h.counts htick]
    rfl
  | more h hseparator _ ih =>
    rw [List.map_append, List.map_cons, hseparator.dotted,
      (h.dot isTick_one).splitTop_separator (by decide) (by simp),
      joinWith_mapWithLast_cons _ (splitTop_ne_nil _ _ _), h.counts isTick_one, ih,
      pathDocId, pathDocId,
      joinWith_mapWithLast_cons _ (List.cons_ne_nil _ _)]

end

theorem plain_pathDocId (htick : IsTick lastTick) (path : List Segment) :
    ∀ c ∈ pathDocId lastTick path, isPlain c = true ∨ c = '.' := by
  induction path with
  | nil => simp [pathDocId, mapWithLast, joinWith]
  | cons segment rest ih =>
    cases rest with
    | nil => exact fun c hc => .inl (segment.plain_docId htick c hc)
    | cons next rest =>
      rw [pathDocId, joinWith_mapWithLast_cons segment (List.cons_ne_nil next rest)]
      intro c hc
      rcases List.mem_append.mp hc with hc | hc
      · exact .inl (segment.plain_docId isTick_one c hc)
      · rcases List.mem_cons.mp hc with rfl | hc
        · exact .inr rfl
        · exact ih c hc

theorem canonicalName_of_spelled (signature : Signature)
    (h : SpelledPath signature.lastTick signature.path text) :
    canonicalName ([signature.kind, ':'] == ['M', ':']) text =
    pathDocId signature.lastTick signature.path := by
  have htick := signature.isTick_lastTick
  have hmark : '#' ∉ pathDocId signature.lastTick signature.path := by
    intro hmem
    rcases plain_pathDocId htick _ _ hmem with hplain | heq
    · exact ne_of_isPlain hplain (by decide) rfl
    · cases heq
  have hlast : (if [signature.kind, ':'] == ['M', ':'] then ['`', '`'] else ['`']) =
      signature.lastTick := by
    simp [Signature.lastTick]
  simp only [canonicalName, hlast, h.canonical htick]
  exact replaceAll_interfaceMark hmark

-- ---------------------------------------------------------------------------
-- Keys
-- ---------------------------------------------------------------------------

theorem splitSignature_append (hname : '(' ∉ name)
    (harguments : arguments = [] ∨ ∃ more, arguments = '(' :: more) :
    splitSignature (name ++ arguments) = (name, arguments) := by
  have hall : ∀ c ∈ name, (c != '(') = true := fun c hc => by
    rw [bne_iff_ne]
    rintro rfl
    exact hname hc
  rw [splitSignature, List.span_eq_takeWhile_dropWhile, List.takeWhile_append_of_pos hall,
    List.dropWhile_append_of_pos hall]
  rcases harguments with rfl | ⟨more, rfl⟩ <;> simp

section
variable {parameters : Option (List TypeRef)} {written : List Char}

theorem SpelledParameters.chars (h : SpelledParameters parameters written) :
    ∀ c ∈ written, isTypeChar c = true ∨ c = '(' ∨ c = ')' := by
  cases h with
  | none => simp
  | some htypes =>
    simp only [List.mem_cons, List.mem_append, List.not_mem_nil, or_false]
    rintro c (rfl | hc | rfl)
    · exact .inr (.inl rfl)
    · exact .inl (htypes.reads.chars c hc)
    · exact .inr (.inr rfl)

theorem SpelledParameters.bracketed (h : SpelledParameters parameters written) :
    Bracketed (fun _ => True) written := by
  cases h with
  | none => exact .nil
  | some htypes => exact .within rfl htypes.reads.bracketed

theorem SpelledParameters.unqualified (h : SpelledParameters parameters written) :
    Unqualified written := by
  cases h with
  | none => trivial
  | some htypes =>
    exact unqualified_cons (by decide)
      (htypes.reads.unqualified _ (unqualified_cons (by decide) trivial))

theorem SpelledParameters.canonical (h : SpelledParameters parameters written) :
    canonicalArguments written = parametersDocId parameters := by
  cases h with
  | none => rfl
  | @some types text htypes =>
    have hend : Unbound [')'] := unbound_cons (by decide) (by decide) unbound_nil
    have hmap : ('(' :: (text ++ [')'])).map argumentChar = '(' ::
        (text.map argumentChar ++ [')']) := by
      rw [List.map_cons, List.map_append]
      rfl
    rw [canonicalArguments, hmap, replaceAll_lowerBound_cons,
      write_scanFrom (htypes.reads.unbound _ hend),
      htypes.reads.rewritten _ hend]
    rfl

theorem SpelledParameters.splitSignature (h : SpelledParameters parameters written)
    (hname : '(' ∉ name) :
    splitSignature (name ++ written) = (name, written) := by
  refine splitSignature_append hname ?_
  cases h with
  | none => exact .inl rfl
  | some => exact .inr ⟨_, rfl⟩

end

theorem isPlain_of_isAlpha (h : c.isAlpha = true) : isPlain c = true := by
  simp [isPlain, isNameChar, Text.isWord, Char.isAlphanum, h]

theorem Signature.Spelled.keyOf {signature : Signature} (h : signature.Spelled cs) :
    keyOf cs = .canonical signature.docId := by
  cases h with
  | @intro letter name parameters hletter hkind hpath hparameters =>
    obtain ⟨_, hreads⟩ := hpath.reads signature.isTick_lastTick
    have hplain := isPlain_of_isAlpha hletter
    have hchars : ∀ c ∈ name ++ parameters, isTypeChar c = true ∨ c = '(' ∨ c = ')' := fun c hc =>
      (List.mem_append.mp hc).elim (fun hc => .inl (hreads.chars c hc)) (hparameters.chars c)
    have hbody : Bracketed (fun _ => True) (name ++ parameters) :=
      (hreads.bracketed.mono fun _ _ => trivial).append hparameters.bracketed
    have hbalanced : balanced (letter :: ':' :: (name ++ parameters)) = true :=
      (Bracketed.plain trivial (isBracket_of_isPlain hplain) (.plain trivial rfl hbody)).balanced
    have hsuffix : replaceAll assemblySuffix (name ++ parameters) = name ++ parameters := by
      refine replaceAll_assemblySuffix fun hmem => ?_
      rcases hchars _ hmem with hc | hc | hc <;> cases hc
    have hbrackets : replaceAll assemblyBrackets (name ++ parameters) = name ++ parameters :=
      replaceAll_assemblyBrackets (hreads.unqualified _ hparameters.unqualified)
    have hround : '(' ∉ name := fun hmem => by cases hreads.chars _ hmem
    have hne : (name ++ parameters).isEmpty = false := by
      simp [hpath.ne_nil]
    rw [DocId.keyOf, hbalanced]
    simp only [List.isEmpty_cons, Bool.not_true, Bool.or_false, Bool.false_eq_true, if_false,
      splitKind, kindLetter?,
      hletter, if_true, hkind, hne, canonicalBody, hsuffix, hbrackets,
      hparameters.splitSignature hround,
      canonicalName_of_spelled signature hpath, hparameters.canonical]
    rfl

theorem not_blank_of_isTypeChar (h : isTypeChar c = true ∨ c = '(' ∨ c = ')') :
    isBlank c = false := by
  have hall : ∀ c ∈ Text.blanks, isTypeChar c = false ∧ c ≠ '(' ∧ c ≠ ')' := by
    decide +kernel
  rw [← Bool.not_eq_true]
  intro hblank
  obtain ⟨hchar, hopen, hclose⟩ := hall c (Text.mem_blanks hblank)
  rcases h with h | h | h
  · simp [hchar] at h
  · exact hopen h
  · exact hclose h

theorem Signature.Spelled.withoutBlanks {signature : Signature} (h : signature.Spelled cs) :
    Text.withoutBlanks cs = cs := by
  cases h with
  | @intro letter name parameters hletter _ hpath hparameters =>
    obtain ⟨_, hreads⟩ := hpath.reads signature.isTick_lastTick
    rw [Text.withoutBlanks, List.filter_eq_self]
    intro c hc
    rw [Bool.not_eq_true', not_blank_of_isTypeChar]
    simp only [List.mem_cons, List.mem_append] at hc
    rcases hc with rfl | rfl | hc | hc
    · exact .inl (isTypeChar_of_isPlain (isPlain_of_isAlpha hletter))
    · exact .inl (by decide)
    · exact .inl (hreads.chars c hc)
    · exact hparameters.chars c hc

/-- However a signature is spelled, and wherever blanks stand in it, its key is its DocId. -/
theorem spellings_share_key (signature : Signature) :
    (∀ raw : String, signature.Spelled (Text.withoutBlanks raw.toList) →
      Key.ofDocId raw = .canonical signature.docId) ∧
    Key.ofDocId signature.docId = .canonical signature.docId := by
  refine ⟨fun raw h => h.keyOf, ?_⟩
  have hdocId := signature.spelled_docId
  rw [Key.ofDocId, hdocId.withoutBlanks]
  exact hdocId.keyOf

def stackName : Name := ⟨['S', 't', 'a', 'c', 'k'], by decide, by decide⟩
def pushName : Name := ⟨['P', 'u', 's', 'h'], by decide, by decide⟩
def itemName : Name := ⟨['T'], by decide, by decide⟩

def ownName : Name := ⟨['`', '`', '0'], by decide, by decide⟩

def pushing : Signature where
  kind := 'M'
  isUpper := by decide
  path := [⟨stackName, [.named itemName []]⟩, ⟨pushName, [.named itemName [], .named itemName []]⟩]
  ne_nil := by decide
  parameters := some
    [.reference (.named stackName [.array (.named ownName []) 1, .named itemName []])]

theorem spellings_share_key_pushing :
    pushing.docId = "M:Stack`1.Push``2(Stack\x7b``0[,],T\x7d@)" ∧
      pushing.Spelled (Text.withoutBlanks
        "m: Stack<T>+Push<T, T> (Stack<``0[0:,1:], T> &)".toList) ∧
      Key.ofDocId "m: Stack<T>+Push<T, T> (Stack<``0[0:,1:], T> &)" = .canonical pushing.docId := by
  have hitem : TypeRef.Spelled (.named itemName []) _ := .named .none
  have hbound : ∀ c, isDigit c = true → Bound [c, ':'] := fun c hc =>
    @Bound.lower [c] (by simp) (by simpa using hc)
  have harray : TypeRef.Spelled (.array (.named ownName []) 1) _ :=
    .array (.named .none) (.more (hbound '0' (by decide)) (.last (hbound '1' (by decide))))
  have hpath : SpelledPath pushing.lastTick pushing.path _ :=
    .more (.listed stackName (.last hitem)) (.inr (.inl rfl))
      (.last (.listed pushName (.more hitem (.last hitem))))
  have hparameters : SpelledParameters pushing.parameters _ :=
    .some (.last (.reference (.named (.some .angle (.more harray (.last hitem)))) (.inl rfl)))
  have hspelled : pushing.Spelled
      (Text.withoutBlanks "m: Stack<T>+Push<T, T> (Stack<``0[0:,1:], T> &)".toList) :=
    Eq.mp (congrArg pushing.Spelled (by rw [String.toList_ofList]; decide +kernel))
      (@Signature.Spelled.intro pushing 'm' _ _ rfl rfl hpath hparameters)
  exact ⟨by decide +kernel, hspelled, (spellings_share_key pushing).1 _ hspelled⟩

end DocMerge.DocId
