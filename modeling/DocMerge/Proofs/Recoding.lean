import DocMerge.Proofs.Prologs

/-!
# Texts that are read in other encodings

A document may declare an encoding other than the one its text is in. Characters of ASCII are the
same in all encodings and nothing else is read as one of them, so what is marked by such characters
stays where it is.
-/

namespace DocMerge.Xml

open Text (EndsAt dropStart? endsAt_nil endsAt_cons endsAt_of_append)

def IsAscii (c : Char) : Prop := c.toNat < 128

instance (c : Char) : Decidable (IsAscii c) := inferInstanceAs (Decidable (c.toNat < 128))

-- ---------------------------------------------------------------------------
-- Bytes
-- ---------------------------------------------------------------------------

theorem toList_loop (bytes : ByteArray) (index : Nat) (found : List UInt8) :
    ByteArray.toList.loop bytes index found = found.reverse ++ bytes.data.toList.drop index := by
  induction index, found using ByteArray.toList.loop.induct bytes with
  | case1 index found hindex ih =>
    have hdrop : bytes.data.toList.drop index = bytes.data[index] ::
        bytes.data.toList.drop (index + 1) :=
      List.drop_eq_getElem_cons (by simpa using hindex)
    rw [ByteArray.toList.loop, if_pos hindex, ih, hdrop]
    simp [ByteArray.get!, hindex]
  | case2 index found hindex =>
    have hdrop : bytes.data.toList.drop index = [] := List.drop_of_length_le (by simpa using hindex)
    rw [ByteArray.toList.loop, if_neg hindex, hdrop, List.append_nil]

theorem toList_toByteArray (bytes : List UInt8) : bytes.toByteArray.toList = bytes := by
  rw [ByteArray.toList, toList_loop]
  simp

theorem utf8EncodeChar_ascii (h : IsAscii c) : String.utf8EncodeChar c = [UInt8.ofNat c.toNat] := by
  have hsize : c.val.toNat ≤ 127 := Nat.le_of_lt_succ h
  exact if_pos hsize

theorem utf8EncodeChar_wide (h : ¬IsAscii c) :
    String.utf8EncodeChar c ≠ [] ∧ ∀ b ∈ String.utf8EncodeChar c, 128 ≤ b.toNat := by
  have hsize : ¬c.val.toNat ≤ 127 := fun hle => h (Nat.lt_succ_of_le hle)
  simp only [String.utf8EncodeChar, if_neg hsize]
  split
  · simp
    omega
  split
  · simp
    omega
  · simp
    omega

namespace Encoding

def reread? (e : Encoding) (text : List Char) : Option (List Char) :=
  e.decode? (String.ofList text).toUTF8

theorem reread?_utf8 (text : List Char) : utf8.reread? text = some text := by
  have htext : String.fromUTF8? (String.ofList text).toUTF8 = some (String.ofList text) := by
    have hvalid : (String.ofList text).toUTF8.IsValidUTF8 := (String.ofList text).isValidUTF8
    rw [String.fromUTF8?, dif_pos hvalid]
    rfl
  rw [reread?, decode?, htext]
  simp

theorem windowsSpecials_wide :
    ∀ n ∈ windowsSpecials, n = 0 ∨ 128 ≤ (Char.ofNat n).toNat := by decide

/-- All other encodings read one byte after another, and those of ASCII alike. -/
theorem exists_reader (h : e ≠ utf8) : ∃ read : UInt8 → Option Char,
    (∀ bytes, e.decode? bytes = bytes.toList.mapM read) ∧
      (∀ b, b.toNat < 128 → read b = some (Char.ofNat b.toNat)) ∧
      ∀ b c, read b = some c → 128 ≤ b.toNat → ¬IsAscii c := by
  have hwide : ∀ b : UInt8, 128 ≤ b.toNat → ¬IsAscii (Char.ofNat b.toNat) := by
    intro b hb hascii
    have hvalid : b.toNat.isValidChar := .inl (Nat.lt_trans b.toNat_lt (by decide))
    have hchar : (Char.ofNat b.toNat).toNat = b.toNat := by
      rw [Char.ofNat, dif_pos hvalid]
      rfl
    rw [IsAscii, hchar] at hascii
    omega
  cases e with
  | utf8 => exact absurd rfl h
  | latin1 =>
    refine ⟨fun b => some (Char.ofNat b.toNat), fun bytes => ?_, fun b _ => rfl, ?_⟩
    · exact (List.mapM_pure (m := Option) (l := bytes.toList)
        (f := fun b => Char.ofNat b.toNat)).symm
    · rintro b _ ⟨rfl⟩ hb
      exact hwide b hb
  | ascii =>
    refine ⟨fun b => if b < 128 then some (Char.ofNat b.toNat) else none, fun bytes => rfl,
      fun b hb => ?_, ?_⟩
    · exact if_pos hb
    · intro b c hread hb
      obtain ⟨hascii, -⟩ := Option.ite_none_right_eq_some.mp hread
      exact absurd hascii (Nat.not_lt.mpr hb)
  | windows1252 =>
    refine ⟨fun b => windowsChar? b.toNat, fun bytes => rfl, fun b hb => ?_, fun b c hread hb => ?_⟩
    · exact if_pos (by simp [hb])
    · simp only [windowsChar?] at hread
      split at hread
      · obtain rfl := Option.some.inj hread
        exact hwide b hb
      · split at hread
        · cases hread
        · cases hread
        · rename_i n hne hspecial
          obtain rfl := Option.some.inj hread
          rcases windowsSpecials_wide n (List.mem_of_getElem? hspecial) with rfl | hn
          · exact absurd rfl hne
          · exact Nat.not_lt.mpr hn

theorem reread?_append_eq_some_iff (e : Encoding) (first second : List Char) :
    e.reread? (first ++ second) = some result ↔
      ∃ a b, e.reread? first = some a ∧ e.reread? second = some b ∧ a ++ b = result := by
  by_cases h : e = utf8
  · subst h
    simp [reread?_utf8]
  · obtain ⟨readByte, hdecode, -⟩ := exists_reader h
    simp only [reread?, hdecode, String.toUTF8, String.toByteArray_ofList, List.utf8Encode,
      toList_toByteArray,
      List.flatMap_append, List.mapM_append, Option.bind_eq_bind,
      Option.bind_eq_some_iff, Option.pure_def,
      Option.some.injEq]
    constructor
    · rintro ⟨a, ha, b, hb, rfl⟩
      exact ⟨a, b, ha, hb, rfl⟩
    · rintro ⟨a, b, ha, hb, rfl⟩
      exact ⟨a, ha, b, hb, rfl⟩

theorem reread?_nil (e : Encoding) : e.reread? [] = some [] := by
  by_cases h : e = utf8
  · exact h ▸ reread?_utf8 []
  · obtain ⟨readByte, hdecode, -⟩ := exists_reader h
    simp only [reread?, hdecode, String.toUTF8, String.toByteArray_ofList, List.utf8Encode,
      toList_toByteArray,
      List.flatMap_nil, List.mapM_nil]
    rfl

theorem reread?_ascii (e : Encoding) (hc : IsAscii c) (h : e.reread? [c] = some result) :
    result = [c] := by
  by_cases hutf8 : e = utf8
  · subst hutf8
    rw [reread?_utf8] at h
    exact (Option.some.inj h).symm
  · obtain ⟨readByte, hdecode, hascii, -⟩ := exists_reader hutf8
    have hbyte : (UInt8.ofNat c.toNat).toNat = c.toNat := by
      rw [IsAscii] at hc
      simp
      omega
    have hchar := hascii (UInt8.ofNat c.toNat) (hbyte.trans_lt hc)
    rw [hbyte, Char.ofNat_toNat] at hchar
    simp only [reread?, hdecode, String.toUTF8, String.toByteArray_ofList, List.utf8Encode,
      toList_toByteArray,
      List.flatMap_cons, List.flatMap_nil, utf8EncodeChar_ascii hc, List.append_nil,
      List.mapM_cons, List.mapM_nil,
      hchar] at h
    exact (Option.some.inj h).symm

theorem reread?_wide (e : Encoding) (hc : ¬IsAscii c) (h : e.reread? [c] = some result) :
    result ≠ [] ∧ ∀ d ∈ result, ¬IsAscii d := by
  by_cases hutf8 : e = utf8
  · subst hutf8
    rw [reread?_utf8] at h
    obtain rfl := Option.some.inj h
    exact ⟨by simp, by simpa using hc⟩
  · obtain ⟨readByte, hdecode, -, hwide⟩ := exists_reader hutf8
    obtain ⟨hne, hbytes⟩ := utf8EncodeChar_wide hc
    simp only [reread?, hdecode, String.toUTF8, String.toByteArray_ofList, List.utf8Encode,
      toList_toByteArray,
      List.flatMap_cons, List.flatMap_nil, List.append_nil, mapM_eq_some_iff] at h
    refine ⟨?_, fun d hd => ?_⟩
    · rintro rfl
      exact hne (List.forall₂_nil_right_iff.mp h)
    · generalize String.utf8EncodeChar c = bytes at h hbytes
      induction h with
      | nil => cases hd
      | @cons b _ _ _ hb _ ih =>
        obtain ⟨hfirst, hrest⟩ := List.forall_mem_cons.mp hbytes
        rcases List.mem_cons.mp hd with rfl | hd
        · exact hwide b d hb hfirst
        · exact ih hd hrest

end Encoding

-- ---------------------------------------------------------------------------
-- Places of characters of ASCII
-- ---------------------------------------------------------------------------

/-- Whether a text may be read as another: characters of ASCII stay, and each other one becomes some
that are not of ASCII either. -/
inductive IsRecoded : List Char → List Char → Prop
  | nil : IsRecoded [] []
  | ascii (ascii : IsAscii c) (behind : IsRecoded text result) : IsRecoded (c :: text) (c :: result)
  | wide (wide : ¬IsAscii c) (ne : found ≠ []) (found_wide : ∀ d ∈ found, ¬IsAscii d)
      (behind : IsRecoded text result) : IsRecoded (c :: text) (found ++ result)

theorem Encoding.isRecoded (e : Encoding) (h : e.reread? text = some result) :
    IsRecoded text result := by
  induction text generalizing result with
  | nil =>
    obtain rfl := Option.some.inj (e.reread?_nil.symm.trans h)
    exact .nil
  | cons c text ih =>
    obtain ⟨found, more, hfound, hmore, rfl⟩ := (e.reread?_append_eq_some_iff [c] text).mp h
    by_cases hc : IsAscii c
    · obtain rfl := e.reread?_ascii hc hfound
      exact .ascii hc (ih hmore)
    · obtain ⟨hne, hwide⟩ := e.reread?_wide hc hfound
      exact .wide hc hne hwide (ih hmore)

/-- A text is read in two parts where a character of ASCII is read. -/
theorem Encoding.reread?_split (e : Encoding) (hc : IsAscii c)
    (h : e.reread? text = some (first ++ c :: second)) :
    ∃ before after, text = before ++ after ∧ e.reread? before = some first ∧
    e.reread? after = some (c :: second) := by
  induction text generalizing first with
  | nil => simp [e.reread?_nil] at h
  | cons d text ih =>
    obtain ⟨found, more, hfound, hmore, hsplit⟩ := (e.reread?_append_eq_some_iff [d] text).mp h
    rcases List.append_eq_append_iff.mp hsplit with ⟨inner, rfl, rfl⟩ | ⟨inner, rfl, hinner⟩
    · obtain ⟨before, after, rfl, hbefore, hafter⟩ := ih hmore
      exact ⟨d :: before, after, rfl,
        (e.reread?_append_eq_some_iff [d] before).mpr ⟨found, inner, hfound, hbefore, rfl⟩, hafter⟩
    · cases inner with
      | nil =>
        rw [List.append_nil] at hfound
        exact ⟨[d], text, rfl, hfound, hmore.trans (congrArg some hinner.symm)⟩
      | cons c' inner =>
        obtain ⟨rfl, rfl⟩ := List.cons.inj hinner
        -- The character is all that is read of the first one.
        by_cases hd : IsAscii d
        · have hsame := e.reread?_ascii hd hfound
          obtain ⟨rfl, -⟩ : first = [] ∧ c :: inner = [d] := by
            cases first with
            | nil => exact ⟨rfl, hsame⟩
            | cons _ first => simp at hsame
          exact ⟨[], d :: text, rfl, e.reread?_nil, h⟩
        · exact absurd hc ((e.reread?_wide hd hfound).2 c (by simp))

namespace IsRecoded

theorem refl (text : List Char) : IsRecoded text text := by
  induction text with
  | nil => exact .nil
  | cons c text ih =>
    by_cases hc : IsAscii c
    · exact .ascii hc ih
    · exact .wide hc (List.cons_ne_nil c []) (by simpa using hc) ih

theorem cons_ascii (h : IsRecoded text (c :: result)) (hc : IsAscii c) :
    ∃ behind, text = c :: behind ∧ IsRecoded behind result := by
  generalize hall : c :: result = all at h
  cases h with
  | nil => cases hall
  | ascii _ hbehind =>
    obtain ⟨rfl, rfl⟩ := List.cons.inj hall
    exact ⟨_, rfl, hbehind⟩
  | @wide _ found _ _ _ hne hwide =>
    obtain ⟨d, found, rfl⟩ := List.exists_cons_of_ne_nil hne
    obtain ⟨rfl, -⟩ := List.cons.inj hall
    exact absurd hc (hwide c List.mem_cons_self)

theorem append_ascii (hmark : ∀ c ∈ mark, IsAscii c) (h : IsRecoded text (mark ++ result)) :
    ∃ behind, text = mark ++ behind ∧ IsRecoded behind result := by
  induction mark generalizing text with
  | nil => exact ⟨text, rfl, h⟩
  | cons c mark ih =>
    obtain ⟨hc, hrest⟩ := List.forall_mem_cons.mp hmark
    obtain ⟨behind, rfl, hbehind⟩ := h.cons_ascii hc
    obtain ⟨behind, rfl, hresult⟩ := ih hrest hbehind
    exact ⟨behind, rfl, hresult⟩

theorem dropStart?_isSome (h : IsRecoded text result) (hmark : ∀ c ∈ mark, IsAscii c)
    (htext : (dropStart? mark text).isSome) : (dropStart? mark result).isSome := by
  induction mark generalizing text result with
  | nil => simp [dropStart?]
  | cons m mark ih =>
    obtain ⟨hm, hrest⟩ := List.forall_mem_cons.mp hmark
    cases h with
    | nil => exact htext
    | @ascii c _ _ _ hbehind =>
      rw [dropStart?] at htext ⊢
      split
      · rename_i hc
        rw [if_pos hc] at htext
        exact ih hbehind hrest htext
      · rename_i hc
        rw [if_neg hc] at htext
        exact htext
    | @wide c _ _ _ hwide =>
      have hc : m ≠ c := by
        rintro rfl
        exact hwide hm
      rw [dropStart?, if_neg hc] at htext
      cases htext

/-- A text is split where the other one has a character of ASCII. -/
theorem split (h : IsRecoded text (first ++ c :: second)) (hc : IsAscii c) :
    ∃ before after, text = before ++ c :: after ∧ IsRecoded before first ∧
    IsRecoded after second := by
  generalize hall : first ++ c :: second = all at h
  induction h generalizing first with
  | nil => simp at hall
  | @ascii d text result hd hbehind ih =>
    cases first with
    | nil =>
      obtain ⟨rfl, rfl⟩ := List.cons.inj hall
      exact ⟨[], text, rfl, .nil, hbehind⟩
    | cons d' first =>
      obtain ⟨rfl, hrest⟩ := List.cons.inj hall
      obtain ⟨before, after, rfl, hbefore, hafter⟩ := ih hrest
      exact ⟨d' :: before, after, rfl, .ascii hd hbefore, hafter⟩
  | @wide d found text result hd hne hwide hbehind ih =>
    rcases List.append_eq_append_iff.mp hall with ⟨inner, rfl, hinner⟩ | ⟨inner, rfl, hinner⟩
    · cases inner with
      | nil =>
        obtain ⟨before, after, rfl, hbefore, hafter⟩ := @ih [] hinner
        refine ⟨d :: before, after, rfl, ?_, hafter⟩
        simpa using hbefore.wide hd hne hwide
      | cons c' inner =>
        obtain ⟨rfl, -⟩ := List.cons.inj hinner
        exact absurd hc (hwide c (by simp))
    · obtain ⟨before, after, rfl, hbefore, hafter⟩ := ih hinner.symm
      exact ⟨d :: before, after, rfl, .wide hd hne hwide hbefore, hafter⟩

theorem eq_nil (h : IsRecoded text []) : text = [] := by
  generalize hall : [] = all at h
  cases h with
  | nil => rfl
  | ascii => cases hall
  | wide _ hne => exact absurd (List.append_eq_nil_iff.mp hall.symm).1 hne

theorem append (h : IsRecoded first result) (hsecond : IsRecoded second more) :
    IsRecoded (first ++ second) (result ++ more) := by
  induction h with
  | nil => exact hsecond
  | ascii hc _ ih => exact .ascii hc ih
  | wide hc hne hwide _ ih =>
    rw [List.append_assoc]
    exact .wide hc hne hwide ih

theorem endsAt (h : IsRecoded text result) (hmark : ∀ c ∈ m :: mark, IsAscii c)
    (hends : EndsAt (m :: mark) result) :
    EndsAt (m :: mark) text := by
  induction h with
  | nil => exact endsAt_nil _
  | @ascii c text result hc hbehind ih =>
    obtain ⟨hdrop, hrest⟩ := endsAt_cons.mp hends
    refine endsAt_cons.mpr ⟨?_, ih hrest⟩
    have hsome := (hbehind.append (refl (m :: mark))).ascii hc |>.dropStart?_isSome hmark
    rw [hdrop] at hsome
    simpa using hsome
  | @wide c _ _ _ hc _ _ _ ih =>
    have hne : m ≠ c := by
      rintro rfl
      exact hc (hmark m List.mem_cons_self)
    exact endsAt_cons.mpr ⟨by rw [dropStart?, if_neg hne], ih (endsAt_of_append hends)⟩

theorem split_enclosed (h : IsRecoded text (s ++ rest)) (henclosed : IsEnclosed start (m :: stop) s)
    (hstart : ∀ c ∈ start, IsAscii c) (hstop : ∀ c ∈ m :: stop, IsAscii c) :
    ∃ s' rest', text = s' ++ rest' ∧ IsEnclosed start (m :: stop) s' ∧ IsRecoded rest' rest := by
  obtain ⟨body, rfl, hends⟩ := henclosed
  obtain ⟨hm, hmarks⟩ := List.forall_mem_cons.mp hstop
  simp only [List.append_assoc, List.cons_append] at h
  obtain ⟨behind, rfl, hbehind⟩ := h.append_ascii hstart
  obtain ⟨before, after, rfl, hbefore, hafter⟩ := hbehind.split hm
  obtain ⟨rest', rfl, hrest⟩ := hafter.append_ascii hmarks
  exact ⟨start ++ before ++ (m :: stop),
    rest', by simp, ⟨before, rfl, hbefore.endsAt hstop hends⟩, hrest⟩

theorem isLeading (h : IsRecoded text result) (hresult : IsLeading result) : IsLeading text := by
  induction hresult generalizing text with
  | nil =>
    obtain rfl := h.eq_nil
    exact .nil
  | @space c _ hc _ ih =>
    have hascii : IsAscii c := by
      simp only [isSpace, Bool.or_eq_true, beq_iff_eq] at hc
      rcases hc with ((rfl | rfl) | rfl) | rfl <;> decide
    obtain ⟨behind, rfl, hbehind⟩ := h.cons_ascii hascii
    exact .space hc (ih hbehind)
  | comment hcomment _ ih =>
    obtain ⟨s, rest, rfl, hs, hrest⟩ := h.split_enclosed hcomment (by decide) (by decide)
    exact .comment hs (ih hrest)
  | instruction hinstruction _ ih =>
    obtain ⟨s, rest, rfl, hs, hrest⟩ := h.split_enclosed hinstruction (by decide) (by decide)
    exact .instruction hs (ih hrest)

theorem head?_of_ascii (h : IsRecoded text result) (hc : IsAscii c) (htext : text.head? = some c) :
    result.head? = some c := by
  cases h with
  | nil => cases htext
  | ascii => exact htext
  | wide hwide =>
    obtain rfl := Option.some.inj htext
    exact absurd hc hwide

theorem endsProlog (h : IsRecoded text result) (hresult : StartsElement result) :
    EndsProlog text := by
  obtain ⟨c, more, rfl, hc⟩ := hresult
  obtain ⟨behind, rfl, hbehind⟩ := h.cons_ascii (by decide)
  refine ⟨behind, rfl, fun d hd => ⟨?_, ?_⟩⟩
  · rintro rfl
    exact isNameStart_ne hc (by decide) (Option.some.inj (hbehind.head?_of_ascii (by decide) hd))
  · rintro rfl
    exact isNameStart_ne hc (by decide) (Option.some.inj (hbehind.head?_of_ascii (by decide) hd))

end IsRecoded

end DocMerge.Xml
