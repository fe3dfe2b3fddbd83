import DocMerge.Proofs.Tokens

/-!
# Fences take the places of the tokens

A fence is made of the text of its code block, and has no null characters where the text has none.
So when the tokens have given way to the fences, `markdown?_keeps_fences`: each fence stands in the
markdown once, and no null character is left of a token.
-/

namespace DocMerge.Text

-- ---------------------------------------------------------------------------
-- Lines
-- ---------------------------------------------------------------------------

theorem mem_joinWith (h : c ∈ joinWith separator parts) :
    c ∈ separator ∨ ∃ part ∈ parts, c ∈ part := by
  induction parts with
  | nil => simp [joinWith] at h
  | cons part parts ih =>
    cases parts with
    | nil => exact .inr ⟨part, List.mem_cons_self, h⟩
    | cons next parts =>
      rw [joinWith, List.mem_append, List.mem_append] at h
      · rcases h with (hpart | hseparator) | hrest
        · exact .inr ⟨part, List.mem_cons_self, hpart⟩
        · exact .inl hseparator
        · obtain hseparator | ⟨later, hlater, hc⟩ := ih hrest
          · exact .inl hseparator
          · exact .inr ⟨later, List.mem_cons_of_mem part hlater, hc⟩
      · exact List.cons_ne_nil next parts

theorem subset_of_mem_splitAt (h : part ∈ splitAt isSeparator cs) : part ⊆ cs := by
  induction cs generalizing part with
  | nil =>
    rw [splitAt, List.mem_singleton] at h
    simp [h]
  | cons c cs ih =>
    rw [splitAt] at h
    split at h
    · rcases List.mem_cons.mp h with rfl | h
      · exact List.nil_subset _
      · exact fun d hd => List.mem_cons_of_mem c (ih h hd)
    · cases hparts : splitAt isSeparator cs with
      | nil =>
        rw [hparts, consFirst, List.mem_singleton] at h
        simp [h]
      | cons first parts =>
        rw [hparts] at ih h
        rcases List.mem_cons.mp h with rfl | h
        · exact List.cons_subset_cons c (ih List.mem_cons_self)
        · exact fun d hd => List.mem_cons_of_mem c (ih (List.mem_cons_of_mem first h) hd)

theorem mem_dedent (h : c ∈ dedent cs) : c = '\n' ∨ c ∈ cs := by
  rcases mem_joinWith h with hnewline | ⟨part, hpart, hc⟩
  · exact .inl (List.mem_singleton.mp hnewline)
  · obtain ⟨line, hline, rfl⟩ := List.mem_map.mp hpart
    obtain ⟨whole, hwhole, rfl⟩ := List.mem_map.mp hline
    have hc := List.mem_of_mem_drop hc
    split at hc
    · cases hc
    · exact .inr (subset_of_mem_splitAt hwhole hc)

end DocMerge.Text

namespace DocMerge.Markdown

open Text

-- ---------------------------------------------------------------------------
-- Fences
-- ---------------------------------------------------------------------------

theorem codeBlock_subset (h : codeBlock before cs = some (block, rest)) :
    block.language ⊆ cs ∧ block.body ⊆ cs := by
  simp only [codeBlock, Option.bind_eq_bind, Option.bind_eq_some_iff, Prod.exists,
    Option.some.injEq,
    Prod.mk.injEq] at h
  obtain ⟨tail, hstart, body, _, hcontent, rfl, rfl⟩ := h
  obtain rfl := dropStart?_eq_some_iff.mp hstart
  have hlanguage : (codeLanguage tail).1 ⊆ tail ∧ (codeLanguage tail).2 ⊆ tail := by
    unfold codeLanguage
    cases hnamed : (dropBlanks? tail).bind fun rest =>
        (attribute? "language" rest).or (attribute? "lang" rest) with
    | none => exact ⟨List.nil_subset _, fun _ hc => hc⟩
    | some named =>
      simp only [Option.bind_eq_some_iff, Option.or_eq_some_iff] at hnamed
      obtain ⟨rest, hblanks, hattribute⟩ := hnamed
      obtain ⟨m, -, rfl⟩ := dropBlanks?_eq_some hblanks
      have hrest : named.1 ⊆ rest ∧ named.2 ⊆ rest := by
        rcases hattribute with hattribute | ⟨-, hattribute⟩ <;>
          rw [attribute?_eq_some hattribute] <;> constructor <;> intro c hc <;> simp [hc]
      exact ⟨fun c hc => List.mem_append_right m (hrest.1 hc), fun c hc =>
        List.mem_append_right m (hrest.2 hc)⟩
  have htag : AllMarkup "code".toList := by decide
  obtain ⟨m, m', -, -, -, hrest⟩ := content?_eq_some htag hcontent
  refine ⟨fun c hc => List.mem_append_right _ (hlanguage.1 hc), fun c hc => ?_⟩
  refine List.mem_append_right _ (hlanguage.2 ?_)
  rw [hrest]
  simp [hc]

theorem mem_unescape (h : c ∈ unescape cs) : c = '&' ∨ c = '<' ∨ c = '>' ∨ c ∈ cs := by
  rcases mem_replaceText h with hc | h
  · exact .inl (List.mem_singleton.mp hc)
  · rcases mem_replaceText h with hc | h
    · exact .inr (.inl (List.mem_singleton.mp hc))
    · rcases mem_replaceText h with hc | h
      · exact .inr (.inr (.inl (List.mem_singleton.mp hc)))
      · exact .inr (.inr (.inr h))

theorem mem_trimNewlines (h : c ∈ trimNewlines cs) : c ∈ cs := by
  rw [trimNewlines, List.mem_reverse] at h
  have h := (List.dropWhile_suffix _).subset h
  exact (List.dropWhile_suffix _).subset (List.mem_reverse.mp h)

theorem not_mem_fence {block : CodeBlock} (hlanguage : '\x00' ∉ block.language)
    (hbody : '\x00' ∉ block.body) :
    '\x00' ∉ block.fence := by
  have hlines : '\x00' ∉ trimEnd (dedent (trimNewlines (unescape block.body))) := by
    intro h
    rcases mem_dedent ((isPrefix_trimEnd _).subset h) with h | h
    · exact absurd h (by decide)
    · rcases mem_unescape (mem_trimNewlines h) with h | h | h | h
      · exact absurd h (by decide)
      · exact absurd h (by decide)
      · exact absurd h (by decide)
      · exact hbody h
  simp [CodeBlock.fence, hlanguage, hlines]

theorem not_mem_fences (h : '\x00' ∉ cs) (hfence : fence ∈ fences cs) : '\x00' ∉ fence := by
  obtain ⟨block, hblock, rfl⟩ := List.mem_map.mp hfence
  obtain ⟨part, hpart, hright⟩ := List.mem_filterMap.mp hblock
  obtain rfl := Sum.getRight?_eq_some_iff.mp hright
  obtain ⟨_, text, _, htext, hread⟩ := exists_of_inr_mem_scanFrom hpart
  obtain ⟨hlanguage, hbody⟩ := codeBlock_subset hread
  exact not_mem_fence (fun hc => h (htext.subset (hlanguage hc)))
    (fun hc => h (htext.subset (hbody hc)))

end DocMerge.Markdown

namespace DocMerge

open Markdown
open Text (scan)

/-- The markdown of a text without null characters is written by putting each fence in the place of
its token, and there is one token for each code block of the text. -/
theorem markdown?_keeps_fences (h : '\x00' ∉ text.toList) :
    ∃ result, markdown? text = some result ∧ '\x00' ∉ result.toList ∧
      (scan tokenMark (tokenized text.toList)).found.Perm
        (List.range (scan codeBlock text.toList).found.length) ∧
      result.toList =
        (scan tokenMark (tokenized text.toList)).write fun n => (fences text.toList).getD n [] := by
  obtain ⟨hperm, hplain⟩ := tokens_restored h
  have hmarkdown : markdown? text = _ := congrArg (Option.map String.ofList) (ofMarkup?_eq_some h)
  refine ⟨_, hmarkdown, ?_, ?_, String.toList_ofList⟩
  · rw [String.toList_ofList]
    refine Text.Scanned.not_mem_write hplain fun n hn => ?_
    have hn : n < (fences text.toList).length := List.mem_range.mp (hperm.subset hn)
    rw [List.getD_eq_getElem?_getD, List.getElem?_eq_getElem hn, Option.getD_some]
    exact not_mem_fences h (List.getElem_mem hn)
  · rwa [fences, List.length_map] at hperm

def Markdown.malformed : String :=
  "<see cref=\"T:A\">a <code>x &lt; y</code></see> <c><code lang=\"cs\">\n  z</c></code> </para"

theorem markdown?_keeps_fences_malformed : '\x00' ∉ malformed.toList ∧
    (fences malformed.toList).map String.ofList = ["```\nx < y\n```", "```cs\nz</c>\n```"] ∧
    ∃ result, markdown? malformed = some result ∧ '\x00' ∉ result.toList ∧
      (scan tokenMark (tokenized malformed.toList)).found.Perm [0, 1] := by
  have hnull : '\x00' ∉ malformed.toList := by
    rw [malformed, String.toList_ofList]
    decide
  have hfences : (fences malformed.toList).map String.ofList =
      ["```\nx < y\n```", "```cs\nz</c>\n```"] := by
    rw [malformed, String.toList_ofList]
    decide +kernel
  obtain ⟨result, hresult, hplain, hperm, -⟩ := markdown?_keeps_fences hnull
  have hlength : (scan codeBlock malformed.toList).found.length = 2 := by
    rw [malformed, String.toList_ofList]
    decide +kernel
  rw [hlength] at hperm
  exact ⟨hnull, hfences, result, hresult, hplain, hperm⟩

end DocMerge
