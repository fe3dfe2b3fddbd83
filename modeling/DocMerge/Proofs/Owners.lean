import DocMerge.Proofs.SignatureKeys

/-!
# The type of a member

The type that declares a member is read off the member's identifier before anything in it is
rewritten: it is what stands before the last dot outside of all brackets. `members_scoped`: however
the path of the type is spelled there, the type has the key of every spelling of that path.
-/

namespace DocMerge.DocId

open Text (consFirst joinWith)

-- ---------------------------------------------------------------------------
-- The parts of a text
-- ---------------------------------------------------------------------------

theorem foldr_consFirst_append (cs : List Char) (hne : parts ≠ []) (more : List (List Char)) :
    cs.foldr consFirst (parts ++ more) = cs.foldr consFirst parts ++ more := by
  obtain ⟨part, parts, rfl⟩ := List.exists_cons_of_ne_nil hne
  rw [List.cons_append, foldr_consFirst, foldr_consFirst, List.cons_append]

theorem joinWith_consFirst (separator : List Char) (c : Char) (hne : parts ≠ []) :
    joinWith separator (consFirst c parts) = c :: joinWith separator parts := by
  obtain ⟨part, parts, rfl⟩ := List.exists_cons_of_ne_nil hne
  cases parts <;> simp [consFirst, joinWith]

theorem joinWith_splitTop (separator : Char) (depth : Int) (cs : List Char) :
    joinWith [separator] (splitTop separator depth cs) = cs := by
  induction cs generalizing depth with
  | nil => rfl
  | cons c rest ih =>
    rw [splitTop]
    split
    · rename_i hsplit
      rw [Bool.and_eq_true, beq_iff_eq] at hsplit
      obtain ⟨part, parts, hparts⟩ :=
        List.exists_cons_of_ne_nil (splitTop_ne_nil separator (depth + weight c) rest)
      rw [hparts, joinWith_cons_cons, ← hparts, ih, hsplit.1, List.nil_append]
    · rw [joinWith_consFirst _ _ (splitTop_ne_nil _ _ _), ih]

/-- Behind a bracketed text, a separator divides its parts from those of the rest. -/
theorem Bracketed.splitTop_concat (h : Bracketed outside cs)
    (hseparator : isBracket separator = false)
    (rest : List Char) :
    splitTop separator 0 (cs ++ separator :: rest) = splitTop separator 0 cs ++
    splitTop separator 0 rest := by
  induction h with
  | nil => simp [splitTop, weight_of_not_bracket hseparator]
  | @plain _ c more _ hbracket _ ih =>
    simp only [List.cons_append, splitTop, weight_of_not_bracket hbracket, Int.add_zero, ih]
    split
    · rfl
    · exact foldr_consFirst_append [c] (splitTop_ne_nil _ _ _) _
  | @wrapped close o _ inner more hclose hinner _ _ ih =>
    have hwithin : Bracketed (fun _ => False) (o :: (inner ++ [close])) := .within hclose hinner
    have hpassed : ∀ more, splitTop separator 0 (o :: (inner ++ close :: more)) =
        (o :: (inner ++ [close])).foldr consFirst (splitTop separator 0 more) := fun more => by
      simpa using hwithin.splitTop_append hseparator (.inr ⟨rfl, id⟩) more
    rw [List.cons_append, List.append_assoc, List.cons_append, hpassed, hpassed, ih,
      foldr_consFirst_append _ (splitTop_ne_nil _ _ _)]

-- ---------------------------------------------------------------------------
-- Members
-- ---------------------------------------------------------------------------

/-- A member as it is written behind its type: a name with or without generic arguments, one that a
mark sets off, as that of a constructor, or one that names an interface and is divided by marks. -/
inductive SpelledMember : List Char → Prop
  | segment {segment : Segment} (h : segment.Spelled ['`', '`'] text) : SpelledMember text
  | marked (h : SpelledMember text) : SpelledMember ('#' :: text)
  | explicit {segment : Segment} (h : segment.Spelled ['`', '`'] text)
    (hrest : SpelledMember rest) :
    SpelledMember (text ++ '#' :: rest)

theorem isTick_two : IsTick ['`', '`'] := by
  simp [IsTick]

theorem isPlain_dot : isPlain '.' = false := by decide

theorem Segment.Spelled.bracketed {segment : Segment} (htick : IsTick tick)
    (h : segment.Spelled tick text) :
    Bracketed (isPlain · = true) text := by
  have hplain : ∀ {cs}, (∀ c ∈ cs, isPlain c = true) →
      Bracketed (isPlain · = true) cs := fun hall =>
    .of_plain fun c hc => ⟨hall c hc, isBracket_of_isPlain (hall c hc)⟩
  cases h with
  | counted => exact hplain (segment.plain_docId htick)
  | listed name htypes => exact (hplain name.isPlain).append (.within rfl htypes.reads.bracketed)

theorem Segment.Spelled.not_round {segment : Segment} (htick : IsTick tick)
    (h : segment.Spelled tick text) :
    '(' ∉ text := by
  obtain ⟨_, hreads⟩ := h.reads htick
  intro hmem
  cases hreads.chars _ hmem

theorem SpelledMember.bracketed (h : SpelledMember text) : Bracketed (· ≠ '.') text := by
  have hsegment : ∀ {segment : Segment} {text}, segment.Spelled ['`', '`'] text →
      Bracketed (· ≠ '.') text :=
    fun h => (h.bracketed isTick_two).mono fun c hc => ne_of_isPlain hc isPlain_dot
  induction h with
  | segment h => exact hsegment h
  | marked _ ih => exact .plain (by decide) rfl ih
  | explicit h _ ih => exact (hsegment h).append (.plain (by decide) rfl ih)

theorem SpelledMember.not_round (h : SpelledMember text) : '(' ∉ text := by
  induction h with
  | segment h => exact h.not_round isTick_two
  | marked _ ih => simpa using ih
  | explicit h _ ih => simpa using ⟨h.not_round isTick_two, ih⟩

-- ---------------------------------------------------------------------------
-- Types
-- ---------------------------------------------------------------------------

def Signature.ofType (path : List Segment) (ne_nil : path ≠ []) : Signature where
  kind := 'T'
  isUpper := by decide
  path := path
  ne_nil := ne_nil

theorem SpelledPath.path_ne_nil {path : List Segment} (h : SpelledPath lastTick path text) :
    path ≠ [] := by
  cases h <;> exact List.cons_ne_nil _ _

theorem SpelledPath.keyOf {path : List Segment} (h : SpelledPath ['`'] path text) :
    keyOf ('T' :: ':' :: text) = .canonical (Signature.ofType path h.path_ne_nil).docId := by
  have hspelled : (Signature.ofType path h.path_ne_nil).Spelled ('T' :: ':' :: (text ++ [])) :=
    .intro rfl rfl h .none
  rw [List.append_nil] at hspelled
  exact hspelled.keyOf

theorem toUpper_ne_T {letter : Char} (hupper : letter ≠ 'T') (hlower : letter ≠ 't') :
    letter.toUpper ≠ 'T' := by
  delta Char.toUpper
  split
  · intro heq
    have hval := congrArg Char.val heq
    dsimp only at hval
    have hletter : letter.val = 'T'.val - ('A'.val - 'a'.val) := by grind
    refine hlower (Char.ext ?_)
    rw [hletter]
    decide
  · exact hupper

/-- What stands before the last dot outside of all brackets is the type. -/
theorem ofContainingType_eq {raw : String} (hletter : letter.isAlpha = true)
    (hkind : letter.toUpper ≠ 'T')
    (hpath : Bracketed outside path) (hmember : Bracketed (· ≠ '.') member)
    (hround : '(' ∉ path ++ '.' :: member) (harguments : arguments = [] ∨ ∃ more,
      arguments = '(' :: more)
    (hraw : Text.withoutBlanks raw.toList = letter :: ':' :: (path ++ '.' :: member ++ arguments)) :
    Key.ofContainingType raw = keyOf ('T' :: ':' :: path) := by
  have hsplitKind : splitKind (letter :: ':' :: (path ++ '.' :: member ++ arguments)) =
      ([letter.toUpper, ':'], path ++ '.' :: member ++ arguments) := by
    rw [splitKind, kindLetter?, if_pos hletter]
  have hmemberKind : ([letter.toUpper, ':'] == ['T', ':']) = false := by simpa using hkind
  have hparts : splitTop '.' 0 (path ++ '.' :: member) = splitTop '.' 0 path ++ [member] := by
    rw [hpath.splitTop_concat rfl, hmember.splitTop_eq rfl (by simp)]
  obtain ⟨part, parts, hpart⟩ := List.exists_cons_of_ne_nil (splitTop_ne_nil '.' 0 path)
  obtain ⟨second, more, hmore⟩ :=
    List.exists_cons_of_ne_nil (List.append_ne_nil_of_right_ne_nil parts
    (List.cons_ne_nil member []))
  have hall : splitTop '.' 0 (path ++ '.' :: member) = part :: second :: more := by
    rw [hparts, hpart, List.cons_append, hmore]
  have hbefore : joinWith ['.'] (part :: second :: more).dropLast = path := by
    rw [← hall, hparts, List.dropLast_concat, joinWith_splitTop]
  rw [Key.ofContainingType, hraw, hsplitKind]
  simp only [hmemberKind, splitSignature_append hround harguments, hall, hbefore,
    Bool.false_eq_true, if_false]

/-- A member of any kind belongs to its type however the path of the type is spelled in front of it
and whatever arguments stand behind it. -/
theorem members_scoped {path : List Segment} {raw : String} (hletter : letter.isAlpha = true)
    (hkind : letter ≠ 'T' ∧ letter ≠ 't') (hpath : SpelledPath ['`'] path text)
    (hmember : SpelledMember member)
    (harguments : arguments = [] ∨ ∃ more, arguments = '(' :: more)
    (hraw : Text.withoutBlanks raw.toList = letter :: ':' :: (text ++ '.' :: member ++ arguments)) :
    (Key.ofContainingType raw).isValid = true ∧
      ∀ other : String, (∃ spelling, SpelledPath ['`'] path spelling ∧
        Text.withoutBlanks other.toList = 'T' :: ':' :: spelling) →
          Key.ofContainingType raw = Key.ofDocId other := by
  obtain ⟨_, hreads⟩ := hpath.reads isTick_one
  have hround : '(' ∉ text ++ '.' :: member := by
    rw [List.mem_append, List.mem_cons, not_or, not_or]
    refine ⟨fun hmem => ?_, by decide, hmember.not_round⟩
    cases hreads.chars _ hmem
  have hkey := (ofContainingType_eq hletter (toUpper_ne_T hkind.1 hkind.2) hreads.bracketed
    hmember.bracketed hround
    harguments hraw).trans hpath.keyOf
  refine ⟨by rw [hkey]; rfl, ?_⟩
  rintro other ⟨spelling, hspelling, hother⟩
  rw [hkey, Key.ofDocId, hother, hspelling.keyOf]

def nodeName : Name := ⟨['N', 'o', 'd', 'e'], by decide, by decide⟩
def countedName : Name := ⟨['I', 'C', 'o', 'u', 'n', 't', 'e', 'd'], by decide, by decide⟩
def countName : Name := ⟨['C', 'o', 'u', 'n', 't'], by decide, by decide⟩

def nodePath : List Segment := [⟨stackName, [.named itemName []]⟩, ⟨nodeName, []⟩]

theorem members_scoped_count :
    let raw := "p: Stack<T> + Node.ICounted#Count(System.Int32[0:], A.B)"
    let text := "Stack<T>+Node".toList
    let member := "ICounted#Count".toList
    let arguments := "(System.Int32[0:],A.B)".toList
    SpelledPath ['`'] nodePath text ∧ SpelledMember member ∧
    (arguments = [] ∨ ∃ more, arguments = '(' :: more) ∧
      Text.withoutBlanks raw.toList = 'p' :: ':' :: (text ++ '.' :: member ++ arguments) ∧
      (Key.ofContainingType raw).isValid = true ∧
      Key.ofContainingType raw = Key.ofDocId "T:Stack`1/Node" := by
  intro raw text member arguments
  have hitem : SpelledTypes [.named itemName []] ['T'] := .last (.named .none)
  have hstack : Segment.Spelled ['`'] ⟨stackName, [.named itemName []]⟩ _ := .listed stackName hitem
  have hpath : SpelledPath ['`'] nodePath text :=
    .more hstack (.inr (.inl rfl)) (.last (.counted ⟨nodeName, []⟩))
  have hother : SpelledPath ['`'] nodePath "Stack`1/Node".toList :=
    .more (.counted _) (.inr (.inr rfl)) (.last (.counted ⟨nodeName, []⟩))
  have hmember : SpelledMember member :=
    .explicit (.counted ⟨countedName, []⟩) (.segment (.counted ⟨countName, []⟩))
  have hraw : Text.withoutBlanks raw.toList = 'p' :: ':' ::
      (text ++ '.' :: member ++ arguments) := by
    decide +kernel
  obtain ⟨hvalid, hscoped⟩ :=
    members_scoped (by decide) (by decide) hpath hmember (.inr ⟨_, rfl⟩) hraw
  exact ⟨hpath, hmember, .inr ⟨_, rfl⟩, hraw, hvalid, hscoped _ ⟨_, hother, by decide +kernel⟩⟩

end DocMerge.DocId
