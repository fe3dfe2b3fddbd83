import Mathlib.Data.List.TakeWhile
import DocMerge.Message.Template

/-!
# What templates say

A template is characters, doubled braces and fields. It can be filled up to the first brace that is
neither doubled nor opens a field, or the first field that cannot be filled; then it is told what is
missing, or the template breaks. Fields that name an argument alone, and ask for nothing that texts
do not have, never break a template.
-/

namespace DocMerge.Message

open Text (Symbol symbols)
open Text.Symbol (char)

theorem map_map (f : α → β) (g : β → γ) (r : Except ε α) : (r.map f).map g = r.map (g ∘ f) := by
  cases r <;> rfl

namespace Template

-- ---------------------------------------------------------------------------
-- Fields as they are written
-- ---------------------------------------------------------------------------

inductive Names : Bool → List Symbol → Prop
  | nil : Names false []
  | char (hc : c ∉ [char '\x7b', char '\x7d', char ':', char '!', char '[']) (h : Names false cs) :
    Names false (c :: cs)
  | opening (h : Names true cs) : Names false (char '[' :: cs)
  | inside (hc : c ≠ char ']') (h : Names true cs) : Names true (c :: cs)
  | closing (h : Names false cs) : Names true (char ']' :: cs)

inductive Closes : Nat → List Symbol → Prop
  | nil : Closes 0 []
  | char (hopen : c ≠ char '\x7b') (hclose : c ≠ char '\x7d') (h : Closes n cs) : Closes n (c :: cs)
  | opening (h : Closes (n + 1) cs) : Closes n (char '\x7b' :: cs)
  | closing (h : Closes n cs) : Closes (n + 1) (char '\x7d' :: cs)

abbrev IsMark (c : Symbol) : Prop := c ∈ [char '\x7d', char ':', char '!']

theorem readName_inside (c : Symbol) (cs : List Symbol) :
    readName true (c :: cs) = (readName (c != char ']') cs).map fun read =>
      (c :: read.1, read.2) := by
  rw [readName]
  cases readName (c != char ']') cs <;> rfl

theorem readName_char (hc : c ∉ [char '\x7b', char '\x7d', char ':', char '!']) (cs : List Symbol) :
    readName false (c :: cs) = (readName (c == char '[') cs).map fun read =>
      (c :: read.1, read.2) := by
  have hne : c ≠ char '\x7b' ∧ c ≠ char '\x7d' ∧ c ≠ char ':' ∧ c ≠ char '!' := by simpa using hc
  rw [readName]
  cases readName (c == char '[') cs <;> simp [hne, bind, Except.bind, pure, Except.pure, Except.map]

theorem readName_mark (hmark : IsMark mark) (cs : List Symbol) :
    readName false (mark :: cs) = .ok ([], mark, cs) := by
  have hmark : mark = char '\x7d' ∨ mark = char ':' ∨ mark = char '!' := by
    simpa [IsMark] using hmark
  obtain rfl | rfl | rfl := hmark <;> rfl

theorem readName_append (h : Names inside name) (hmark : IsMark mark) :
    readName inside (name ++ mark :: rest) = .ok (name, mark, rest) := by
  induction h with
  | nil => exact readName_mark hmark rest
  | @char c cs hc _ ih =>
    have hne : c ≠ char '[' := by simp_all
    rw [List.cons_append, readName_char (by simp_all), beq_eq_false_iff_ne.mpr hne, ih]
    rfl
  | opening _ ih =>
    rw [List.cons_append, readName_char (by decide), beq_self_eq_true, ih]
    rfl
  | inside hc _ ih =>
    rw [List.cons_append, readName_inside, bne_iff_ne.mpr hc, ih]
    rfl
  | closing _ ih =>
    rw [List.cons_append, readName_inside, bne_self_eq_false, ih]
    rfl

/-- What has been read of a text is a name and a mark; what cannot be read is malformed. -/
theorem readName_cases (inside : Bool) (cs : List Symbol) :
    readName inside cs = .error .malformed ∨
      ∃ name mark rest, readName inside cs = .ok (name, mark, rest) ∧
      Names inside name ∧ IsMark mark ∧
        cs = name ++ mark :: rest := by
  induction cs generalizing inside with
  | nil => cases inside <;> exact .inl rfl
  | cons c cs ih =>
    cases inside with
    | true =>
      rw [readName_inside]
      obtain herror | ⟨name, mark, rest, hread, hname, hmark, rfl⟩ := ih (c != char ']')
      · exact .inl (by rw [herror]; rfl)
      · refine .inr ⟨c :: name, mark, rest, by rw [hread]; rfl, ?_, hmark, rfl⟩
        by_cases hc : c = char ']'
        · subst hc
          exact .closing hname
        · rw [bne_iff_ne.mpr hc] at hname
          exact .inside hc hname
    | false =>
      by_cases hopen : c = char '\x7b'
      · exact .inl (by rw [hopen]; rfl)
      by_cases hmark : IsMark c
      · exact .inr ⟨[], c, cs, readName_mark hmark cs, .nil, hmark, rfl⟩
      have hc : c ∉ [char '\x7b', char '\x7d', char ':', char '!'] := by simp_all [IsMark]
      rw [readName_char hc]
      obtain herror | ⟨name, mark, rest, hread, hname, hmark, rfl⟩ := ih (c == char '[')
      · exact .inl (by rw [herror]; rfl)
      · refine .inr ⟨c :: name, mark, rest, by rw [hread]; rfl, ?_, hmark, rfl⟩
        by_cases hc : c = char '['
        · subst hc
          exact .opening hname
        · rw [beq_eq_false_iff_ne.mpr hc] at hname
          exact .char (by simp_all) hname

theorem readLayout_opening (n : Nat) (cs : List Symbol) :
    readLayout n (char '\x7b' :: cs) = (readLayout (n + 1) cs).map fun read =>
      (char '\x7b' :: read.1, read.2) := by
  cases hmore : readLayout (n + 1) cs <;>
    simp_all [readLayout, bind, Except.bind, pure, Except.pure, Except.map]

theorem readLayout_closing (n : Nat) (cs : List Symbol) :
    readLayout (n + 1) (char '\x7d' :: cs) = (readLayout n cs).map fun read =>
      (char '\x7d' :: read.1, read.2) := by
  cases hmore : readLayout n cs <;>
    simp_all [readLayout, bind, Except.bind, pure, Except.pure, Except.map]

theorem readLayout_char (hopen : c ≠ char '\x7b') (hclose : c ≠ char '\x7d') (n : Nat)
    (cs : List Symbol) :
    readLayout n (c :: cs) = (readLayout n cs).map fun read => (c :: read.1, read.2) := by
  cases hmore : readLayout n cs <;>
    simp_all [readLayout, bind, Except.bind, pure, Except.pure, Except.map]

theorem readLayout_append (h : Closes n layout) :
    readLayout n (layout ++ char '\x7d' :: rest) = .ok (layout, rest) := by
  induction h with
  | nil => rfl
  | char hopen hclose _ ih => rw [List.cons_append, readLayout_char hopen hclose, ih, Except.map]
  | opening _ ih => rw [List.cons_append, readLayout_opening, ih, Except.map]
  | closing _ ih => rw [List.cons_append, readLayout_closing, ih, Except.map]

theorem readLayout_cases (n : Nat) (cs : List Symbol) :
    readLayout n cs = .error .malformed ∨
      ∃ layout rest, readLayout n cs = .ok (layout, rest) ∧ Closes n layout ∧
      cs = layout ++ char '\x7d' :: rest := by
  induction cs generalizing n with
  | nil => exact .inl rfl
  | cons c cs ih =>
    have hstep {m : Nat} (hread : readLayout n (c :: cs) = (readLayout m cs).map fun read =>
        (c :: read.1, read.2))
        (hcloses : ∀ layout, Closes m layout → Closes n (c :: layout)) :
        readLayout n (c :: cs) = .error .malformed ∨ ∃ layout rest,
          readLayout n (c :: cs) = .ok (layout, rest) ∧ Closes n layout ∧
          c :: cs = layout ++ char '\x7d' :: rest := by
      rw [hread]
      obtain herror | ⟨layout, rest, hmore, hlayout, rfl⟩ := ih m
      · exact .inl (by rw [herror]; rfl)
      · exact .inr ⟨c :: layout, rest, by rw [hmore]; rfl, hcloses layout hlayout, rfl⟩
    by_cases hopen : c = char '\x7b'
    · subst hopen
      exact hstep (readLayout_opening n cs) fun _ => .opening
    by_cases hclose : c = char '\x7d'
    · subst hclose
      cases n with
      | zero => exact .inr ⟨[], cs, rfl, .nil, rfl⟩
      | succ n => exact hstep (readLayout_closing n cs) fun _ => .closing
    · exact hstep (readLayout_char hopen hclose n cs) fun _ => .char hopen hclose

inductive IsField : List Symbol → Field → Prop
  | bare (h : Names false name) : IsField (name ++ [char '\x7d']) { name }
  | laidOut (h : Names false name) (hlayout : Closes 0 layout) :
    IsField (name ++ char ':' :: (layout ++ [char '\x7d'])) { name, layout }
  | converted (c : Symbol) (h : Names false name) :
    IsField (name ++ [char '!', c, char '\x7d']) { name, conversion := some c }
  | convertedLaidOut (c : Symbol) (h : Names false name) (hlayout : Closes 0 layout) :
    IsField (name ++ char '!' :: c :: char ':' :: (layout ++ [char '\x7d']))
      { name, conversion := some c, layout }

theorem IsField.read (h : IsField written field) (rest : List Symbol) :
    readField (written ++ rest) = .ok (field, rest) := by
  cases h with
  | bare h =>
    rw [List.append_assoc, readField, List.singleton_append, readName_append h (by decide)]
    rfl
  | laidOut h hlayout =>
    rw [List.append_assoc, readField, List.cons_append, readName_append h (by decide)]
    simp [bind, Except.bind, readLayout_append hlayout, pure, Except.pure]
  | converted c h =>
    rw [List.append_assoc, readField, List.cons_append, readName_append h (by decide)]
    rfl
  | convertedLaidOut c h hlayout =>
    rw [List.append_assoc, readField, List.cons_append, readName_append h (by decide)]
    simp [bind, Except.bind, readLayout_append hlayout, pure, Except.pure]

theorem readField_cases (cs : List Symbol) :
    readField cs = .error .malformed ∨ ∃ written field rest, IsField written field ∧
    cs = written ++ rest := by
  rw [readField]
  obtain herror | ⟨name, mark, rest, hread, hname, hmark, rfl⟩ := readName_cases false cs
  · exact .inl (by rw [herror]; rfl)
  have hmark : mark = char '\x7d' ∨ mark = char ':' ∨ mark = char '!' := by
    simpa [IsMark] using hmark
  rw [hread]
  obtain rfl | rfl | rfl := hmark
  · exact .inr ⟨_, _, rest, .bare hname, by simp⟩
  · obtain herror | ⟨layout, rest, -, hlayout, rfl⟩ := readLayout_cases 0 rest
    · exact .inl (by simp [bind, Except.bind, herror])
    · exact .inr ⟨_, _, rest, .laidOut hname hlayout, by simp⟩
  · match rest with
    | [] | [_] => exact .inl rfl
    | c :: d :: rest =>
      by_cases hclose : d = char '\x7d'
      · subst hclose
        exact .inr ⟨_, _, rest, .converted c hname, by simp⟩
      by_cases hcolon : d = char ':'
      · subst hcolon
        obtain herror | ⟨layout, rest, -, hlayout, rfl⟩ := readLayout_cases 0 rest
        · exact .inl (by simp [bind, Except.bind, herror])
        · exact .inr ⟨_, _, rest, .convertedLaidOut c hname hlayout, by simp⟩
      · refine .inl ?_
        simp only [bind, Except.bind]
        split
        · simp_all
        · split <;> simp_all [throw, throwThe, MonadExceptOf.throw]

-- ---------------------------------------------------------------------------
-- Templates
-- ---------------------------------------------------------------------------

section
variable {surface : Surface} {fillLayout : List Symbol → Except Failure (List Symbol)}
  {arguments : Arguments}

theorem IsField.head (h : IsField written field) :
    ∃ c more, written = c :: more ∧ c ≠ char '\x7b' := by
  have hnames {name : List Symbol} (h : Names false name) (mark : Symbol)
      (hmark : mark ≠ char '\x7b') (rest : List Symbol) :
      ∃ c more, name ++ mark :: rest = c :: more ∧ c ≠ char '\x7b' := by
    cases h with
    | nil => exact ⟨mark, rest, rfl, hmark⟩
    | char hc _ => exact ⟨_, _, rfl, by simp_all⟩
    | opening _ => exact ⟨_, _, rfl, by decide⟩
  cases h with
  | bare h | laidOut h _ | converted _ h | convertedLaidOut _ h _ => exact hnames h _ (by decide) _

abbrev IsBrace (c : Symbol) : Prop := c ∈ [char '\x7b', char '\x7d']

theorem expandWith_char (hc : ¬ IsBrace c) (fuel : Nat) (cs : List Symbol) :
    expandWith surface fillLayout arguments (fuel + 1) (c :: cs) =
      (expandWith surface fillLayout arguments fuel cs).map (c :: ·) := by
  have hne : c ≠ char '\x7b' ∧ c ≠ char '\x7d' := by simpa using hc
  cases hmore : expandWith surface fillLayout arguments fuel cs <;>
    simp [expandWith, hne, hmore, bind, Except.bind, pure, Except.pure, Except.map]

theorem expandWith_doubled (hc : IsBrace c) (fuel : Nat) (cs : List Symbol) :
    expandWith surface fillLayout arguments (fuel + 1) (c :: c :: cs) =
      (expandWith surface fillLayout arguments fuel cs).map (c :: ·) := by
  have hbrace : c = char '\x7b' ∨ c = char '\x7d' := by simpa using hc
  cases hmore : expandWith surface fillLayout arguments fuel cs <;>
    simp [expandWith, hbrace, hmore, bind, Except.bind, pure, Except.pure, Except.map]

theorem expandWith_opening (hne : cs ≠ []) (hopen : cs.head? ≠ some (char '\x7b')) (fuel : Nat) :
    expandWith surface fillLayout arguments (fuel + 1) (char '\x7b' :: cs) =
      invalidOr (readField cs) >>= fun read =>
        fill surface fillLayout arguments read.1 >>= fun text =>
          (expandWith surface fillLayout arguments fuel read.2).map (text ++ ·) := by
  cases hread : readField cs with
  | error e => simp [expandWith, hne, hopen, hread, invalidOr, Except.mapError, bind, Except.bind]
  | ok read =>
    obtain ⟨field, rest⟩ := read
    cases hfill : fill surface fillLayout arguments field with
    | error e =>
      simp [expandWith, hne, hopen, hread, hfill, invalidOr, Except.mapError, bind, Except.bind]
    | ok text =>
      cases hmore : expandWith surface fillLayout arguments fuel rest <;>
        simp [expandWith, hne, hopen, hread, hfill, hmore, invalidOr, Except.mapError, bind,
          Except.bind, pure,
          Except.pure, Except.map]

theorem expandWith_field (h : IsField written field) (fuel : Nat) (rest : List Symbol) :
    expandWith surface fillLayout arguments (fuel + 1) (char '\x7b' :: (written ++ rest)) =
      fill surface fillLayout arguments field >>= fun text =>
        (expandWith surface fillLayout arguments fuel rest).map (text ++ ·) := by
  obtain ⟨c, more, rfl, hopen⟩ := h.head
  rw [expandWith_opening (by simp) (by simpa using hopen), h.read]
  rfl

inductive Broken : List Symbol → Prop
  | closing (hsingle : cs.head? ≠ some (char '\x7d')) : Broken (char '\x7d' :: cs)
  | opening (hsingle : cs.head? ≠ some (char '\x7b'))
    (hno : ∀ written field rest, IsField written field → cs ≠ written ++ rest) :
    Broken (char '\x7b' :: cs)

inductive Starts : List Symbol → Prop
  | nil : Starts []
  | char (hc : ¬ IsBrace c) (cs : List Symbol) : Starts (c :: cs)
  | doubled (hc : IsBrace c) (cs : List Symbol) : Starts (c :: c :: cs)
  | field (hfield : IsField written field) (cs : List Symbol) :
    Starts (char '\x7b' :: (written ++ cs))
  | broken (h : Broken cs) : Starts cs

theorem starts : ∀ cs : List Symbol, Starts cs
  | [] => .nil
  | c :: cs => by
    by_cases hc : IsBrace c
    · by_cases hhead : cs.head? = some c
      · obtain ⟨rest, rfl⟩ := List.head?_eq_some_iff.mp hhead
        exact .doubled hc rest
      · obtain rfl | rfl : c = char '\x7b' ∨ c = char '\x7d' := by simpa using hc
        · by_cases hfield : ∃ written field rest, IsField written field ∧ cs = written ++ rest
          · obtain ⟨written, field, rest, hfield, rfl⟩ := hfield
            exact .field hfield rest
          · exact .broken (.opening hhead fun written field rest h heq =>
              hfield ⟨written, field, rest, h, heq⟩)
        · exact .broken (.closing hhead)
    · exact .char hc cs

theorem Broken.expand (h : Broken cs) (fuel : Nat) :
    expandWith surface fillLayout arguments (fuel + 1) cs = .error (.invalid .malformed) := by
  cases h with
  | closing hsingle => simp [expandWith, hsingle, throw, throwThe, MonadExceptOf.throw]
  | @opening cs hsingle hno =>
    by_cases hnil : cs = []
    · subst hnil
      rfl
    · rw [expandWith_opening hnil hsingle]
      obtain herror | ⟨written, field, rest, hfield, heq⟩ := readField_cases cs
      · rw [herror]
        rfl
      · exact absurd heq (hno written field rest hfield)

theorem expandWith_enough {fuel fuel' : Nat} (hfuel : cs.length < fuel)
    (hfuel' : cs.length < fuel') :
    expandWith surface fillLayout arguments fuel cs =
    expandWith surface fillLayout arguments fuel' cs := by
  induction fuel generalizing cs fuel' with
  | zero => omega
  | succ fuel ih =>
    obtain ⟨fuel', rfl⟩ : ∃ n, fuel' = n + 1 := ⟨fuel' - 1, by omega⟩
    cases starts cs with
    | nil => rfl
    | char hc cs =>
      rw [List.length_cons] at hfuel hfuel'
      rw [expandWith_char hc, expandWith_char hc,
        ih (by omega : cs.length < fuel) (by omega : cs.length < fuel')]
    | doubled hc cs =>
      rw [List.length_cons, List.length_cons] at hfuel hfuel'
      rw [expandWith_doubled hc, expandWith_doubled hc,
        ih (by omega : cs.length < fuel) (by omega : cs.length < fuel')]
    | field hfield cs =>
      rw [List.length_cons, List.length_append] at hfuel hfuel'
      rw [expandWith_field hfield, expandWith_field hfield,
        ih (by omega : cs.length < fuel) (by omega : cs.length < fuel')]
    | broken h => rw [h.expand, h.expand]

variable (surface fillLayout arguments) in
inductive Fills : List Symbol → List Symbol → Prop
  | nil : Fills [] []
  | char (hc : ¬ IsBrace c) (h : Fills cs text) : Fills (c :: cs) (c :: text)
  | doubled (hc : IsBrace c) (h : Fills cs text) : Fills (c :: c :: cs) (c :: text)
  | field (hfield : IsField written field)
    (hfill : fill surface fillLayout arguments field = .ok filled)
    (h : Fills cs text) : Fills (char '\x7b' :: (written ++ cs)) (filled ++ text)

variable (surface fillLayout arguments) in
inductive Stuck : List Symbol → Failure → Prop
  | broken (h : Broken cs) : Stuck cs (.invalid .malformed)
  | field (hfield : IsField written field)
    (hfill : fill surface fillLayout arguments field = .error e)
    (cs : List Symbol) : Stuck (char '\x7b' :: (written ++ cs)) e

variable (surface fillLayout arguments) in
/-- A text that can be filled up to a place where that stops. -/
def Stops (cs : List Symbol) (e : Failure) : Prop :=
  ∃ before text rest, Fills surface fillLayout arguments before text ∧
  Stuck surface fillLayout arguments rest e ∧
    cs = before ++ rest

theorem Fills.behind_plain (hplain : ∀ c ∈ plain, ¬ IsBrace c)
    (h : Fills surface fillLayout arguments cs text) :
    Fills surface fillLayout arguments (plain ++ cs) (plain ++ text) := by
  induction plain with
  | nil => exact h
  | cons c plain ih =>
    exact .char (hplain c List.mem_cons_self) (ih fun d hd => hplain d (List.mem_cons_of_mem _ hd))

/-- What can be filled is filled, and the filling goes on behind it. -/
theorem Fills.expand_append (h : Fills surface fillLayout arguments before text) {fuel fuel' : Nat}
    (hfuel : (before ++ rest).length < fuel) (hfuel' : rest.length < fuel') :
    expandWith surface fillLayout arguments fuel (before ++ rest) =
      (expandWith surface fillLayout arguments fuel' rest).map (text ++ ·) := by
  induction h generalizing fuel with
  | nil =>
    rw [List.nil_append, expandWith_enough (by simpa using hfuel) hfuel']
    cases expandWith surface fillLayout arguments fuel' rest <;> rfl
  | char hc _ ih =>
    obtain ⟨fuel, rfl⟩ : ∃ n, fuel = n + 1 := ⟨fuel - 1, by omega⟩
    rw [List.cons_append, expandWith_char hc, ih (by simpa using hfuel), map_map]
    rfl
  | doubled hc _ ih =>
    obtain ⟨fuel, rfl⟩ : ∃ n, fuel = n + 1 := ⟨fuel - 1, by omega⟩
    rw [List.cons_append, List.cons_append, List.length_cons, List.length_cons] at hfuel
    rw [List.cons_append, List.cons_append, expandWith_doubled hc, ih (by omega), map_map]
    rfl
  | field hfield hfill _ ih =>
    obtain ⟨fuel, rfl⟩ : ∃ n, fuel = n + 1 := ⟨fuel - 1, by omega⟩
    rw [List.cons_append, List.append_assoc, List.length_cons, List.length_append] at hfuel
    rw [List.cons_append, List.append_assoc, expandWith_field hfield, hfill, ih (by omega)]
    cases expandWith surface fillLayout arguments fuel' rest <;>
      simp [bind, Except.bind, Except.map]

theorem Stuck.expand (h : Stuck surface fillLayout arguments cs e) (fuel : Nat) :
    expandWith surface fillLayout arguments (fuel + 1) cs = .error e := by
  cases h with
  | broken h => exact h.expand fuel
  | field hfield hfill cs =>
    rw [expandWith_field hfield, hfill]
    rfl

/-- A text can be filled, or filled up to a place where that stops. -/
theorem fills_or_stops (cs : List Symbol) : (∃ text, Fills surface fillLayout arguments cs text) ∨
    ∃ e, Stops surface fillLayout arguments cs e := by
  induction hlength : cs.length using Nat.strongRecOn generalizing cs with
  | _ n ih =>
    -- What is put in front of a text is filled first.
    have hfront (front shown : List Symbol) {cs : List Symbol} (hlt : cs.length < n)
        (hfills : ∀ {more text}, Fills surface fillLayout arguments more text →
          Fills surface fillLayout arguments (front ++ more) (shown ++ text)) :
        (∃ text, Fills surface fillLayout arguments (front ++ cs) text) ∨
          ∃ e, Stops surface fillLayout arguments (front ++ cs) e := by
      obtain ⟨text, htext⟩ | ⟨e, before, text, rest, hbefore, hstuck, rfl⟩ := ih _ hlt cs rfl
      · exact .inl ⟨_, hfills htext⟩
      · exact .inr ⟨e, front ++ before, _, rest, hfills hbefore, hstuck, by rw [List.append_assoc]⟩
    cases starts cs with
    | nil => exact .inl ⟨[], .nil⟩
    | char hc cs => exact hfront [_] [_] (by simp_all; omega) (.char hc)
    | doubled hc cs => exact hfront [_, _] [_] (by simp_all; omega) (.doubled hc)
    | @field written field hfield cs =>
      cases hfill : fill surface fillLayout arguments field with
      | error e => exact .inr ⟨e, [], [], _, .nil, .field hfield hfill cs, rfl⟩
      | ok shown =>
        exact hfront (char '\x7b' :: written) shown (by simp_all; omega) (.field hfield hfill)
    | broken h => exact .inr ⟨_, [], [], _, .nil, .broken h, rfl⟩

theorem Stops.expand (h : Stops surface fillLayout arguments cs e) (hfuel : cs.length < fuel) :
    expandWith surface fillLayout arguments fuel cs = .error e := by
  obtain ⟨before, text, rest, hbefore, hstuck, rfl⟩ := h
  rw [hbefore.expand_append hfuel (Nat.lt_succ_self _), hstuck.expand]
  rfl

theorem Fills.expand_self (h : Fills surface fillLayout arguments cs text)
    (hfuel : cs.length < fuel) :
    expandWith surface fillLayout arguments fuel cs = .ok text := by
  rw [← List.append_nil cs] at hfuel
  have hfill := h.expand_append hfuel (Nat.lt_succ_self _)
  rw [List.append_nil] at hfill
  rw [hfill]
  exact congrArg Except.ok (List.append_nil text)

theorem expandWith_eq_ok_iff (hfuel : cs.length < fuel) :
    expandWith surface fillLayout arguments fuel cs = .ok text ↔
    Fills surface fillLayout arguments cs text := by
  refine ⟨fun h => ?_, fun h => h.expand_self hfuel⟩
  obtain ⟨text', hfills⟩ | ⟨e, hstops⟩ := fills_or_stops cs
  · obtain rfl := Except.ok.inj (h.symm.trans (hfills.expand_self hfuel))
    exact hfills
  · cases h.symm.trans (hstops.expand hfuel)

theorem expandWith_eq_error_iff (hfuel : cs.length < fuel) :
    expandWith surface fillLayout arguments fuel cs = .error e ↔
    Stops surface fillLayout arguments cs e := by
  refine ⟨fun h => ?_, fun h => h.expand hfuel⟩
  obtain ⟨text, hfills⟩ | ⟨e', hstops⟩ := fills_or_stops cs
  · cases h.symm.trans (hfills.expand_self hfuel)
  · obtain rfl := Except.error.inj (h.symm.trans (hstops.expand hfuel))
    exact hstops

end

-- ---------------------------------------------------------------------------
-- Wordings
-- ---------------------------------------------------------------------------

section
variable (surface : Surface) (arguments : Arguments)

/-- What is made of a layout with fields. They may have layouts, but those no fields. -/
def fillLayout (layout : List Symbol) : Except Failure (List Symbol) :=
  expandWith surface (fun _ => .error (.invalid .malformed)) arguments (layout.length + 1) layout

def formattingError (address : String) (reason : List Char) : List Symbol :=
  symbols ("<formatting_error for '" ++ address ++ "': " ++ String.ofList reason ++ ">")

/-- What a template is put into for a message at an address. -/
inductive Words (address : String) (template : List Symbol) :
    Except TemplateError (List Symbol) → Prop
  | filled (h : Fills surface (fillLayout surface arguments) arguments template text) :
    Words address template (.ok text)
  | argument (h : Stops surface (fillLayout surface arguments) arguments template
    (.missing (.argument name))) :
    Words address template (.ok (formattingError address ("missing ".toList ++ Text.quoted name)))
  | part (h : Stops surface (fillLayout surface arguments) arguments template (.missing .part)) :
    Words address template (.ok (formattingError address "positional field".toList))
  | invalid (h : Stops surface (fillLayout surface arguments) arguments template (.invalid e)) :
    Words address template (.error e)

variable {surface arguments}

theorem expand_eq_ok_iff : expand surface arguments template = .ok text ↔
    Fills surface (fillLayout surface arguments) arguments template text :=
  expandWith_eq_ok_iff (Nat.lt_succ_self _)

theorem expand_eq_error_iff : expand surface arguments template = .error e ↔
    Stops surface (fillLayout surface arguments) arguments template e :=
  expandWith_eq_error_iff (Nat.lt_succ_self _)

theorem render_eq_iff {address : String} :
    render surface address template arguments = result ↔
    Words surface arguments address template result := by
  constructor
  · rintro rfl
    rw [render]
    match hresult : expand surface arguments template with
    | .ok text => exact .filled (expand_eq_ok_iff.mp hresult)
    | .error (.missing (.argument name)) => exact .argument (expand_eq_error_iff.mp hresult)
    | .error (.missing .part) => exact .part (expand_eq_error_iff.mp hresult)
    | .error (.invalid e) => exact .invalid (expand_eq_error_iff.mp hresult)
  · intro h
    cases h with
    | filled h => rw [render, expand_eq_ok_iff.mpr h]
    | argument h | part h =>
      rw [render, expand_eq_error_iff.mpr h]
      rfl
    | invalid h => rw [render, expand_eq_error_iff.mpr h]

-- ---------------------------------------------------------------------------
-- Templates that never break
-- ---------------------------------------------------------------------------

/-- A field that names an argument alone and asks for nothing that texts do not have, nor for more
symbols than there is memory for. -/
structure Field.IsSturdy (memory : Nat) (field : Field) : Prop where
  named : field.name ≠ []
  noNumber : isNumber field.name = false
  whole : ∀ c ∈ field.name, startsAccess c = false
  /-- It is shown as it is, or made a text that is laid out as one. -/
  shown : field.conversion = none ∧ field.layout = [] ∨
    field.conversion ∈ [some (char 's'), some (char 'r'), some (char 'a')] ∧
    char '\x7b' ∉ field.layout ∧
      (field.layout = [] ∨
        ∃ layout text, Layout.ofSymbols field.layout = .ok layout ∧
        layout.text memory [] = .ok text)

inductive IsSturdy (memory : Nat) : List Symbol → Prop
  | nil : IsSturdy memory []
  | char (hc : ¬ IsBrace c) (h : IsSturdy memory cs) : IsSturdy memory (c :: cs)
  | doubled (hc : IsBrace c) (h : IsSturdy memory cs) : IsSturdy memory (c :: c :: cs)
  | field (hfield : IsField written field) (hsturdy : field.IsSturdy memory)
    (h : IsSturdy memory cs) :
    IsSturdy memory (Symbol.char '\x7b' :: (written ++ cs))

theorem lookup_of_sturdy (h : Field.IsSturdy memory field) :
    lookup surface arguments field.name =
      match given? arguments field.name with
      | some argument => .ok argument
      | none => .error (.missing (.argument field.name)) := by
  have htake : field.name.takeWhile (!startsAccess ·) = field.name :=
    List.takeWhile_eq_self_iff.mpr fun c hc => by simp [h.whole c hc]
  have hdrop : field.name.dropWhile (!startsAccess ·) = [] :=
    List.dropWhile_eq_nil_iff.mpr fun c hc => by simp [h.whole c hc]
  have hfollow (fuel : Nat) (argument : Argument) :
      follow surface fuel argument [] = .ok argument := by
    cases fuel <;> rfl
  rw [lookup, htake, hdrop]
  simp only [h.noNumber, Bool.or_false, List.isEmpty_iff, h.named, ↓reduceIte, hfollow]
  cases given? arguments field.name <;> rfl

theorem Layout.text_ok (h : Layout.text layout memory cs = .ok shown) (ds : List Symbol) :
    ∃ shown, Layout.text layout memory ds = .ok shown := by
  simp only [Layout.text] at h ⊢
  split at h
  · cases h
  · rename_i hsuits
    split at h
    · cases h
    · rename_i hwidth
      exact ⟨_, by rw [if_neg hsuits, if_neg hwidth]⟩

theorem layOut_ok (surface : Surface)
    (h : cs = [] ∨ ∃ layout text, Layout.ofSymbols cs = .ok layout ∧
      layout.text surface.memory [] = .ok text)
    (shown : String) : ∃ text, layOut surface (.text shown) cs = .ok text := by
  obtain rfl | ⟨layout, text, hread, htext⟩ := h
  · exact ⟨symbols shown, rfl⟩
  · unfold layOut
    split
    · exact ⟨_, rfl⟩
    · obtain ⟨text, htext⟩ := Layout.text_ok htext (symbols shown)
      exact ⟨text, by rw [hread]; exact htext⟩

theorem fill_of_sturdy (surface : Surface) (h : Field.IsSturdy surface.memory field)
    (fillLayout : List Symbol → Except Failure (List Symbol)) (arguments : Arguments) :
    (∃ text, fill surface fillLayout arguments field = .ok text) ∨
      fill surface fillLayout arguments field = .error (.missing (.argument field.name)) := by
  rw [fill, lookup_of_sturdy h]
  cases hargument : given? arguments field.name with
  | none => exact .inr rfl
  | some argument =>
    left
    obtain ⟨hconversion, hlayout⟩ | ⟨hconversion, hopen, hsuits⟩ := h.shown
    · rw [hconversion, hlayout]
      exact ⟨symbols (Argument.plain argument), rfl⟩
    · obtain ⟨shown, hshown⟩ : ∃ shown, convert field.conversion argument = .ok (.text shown) := by
        simp only [List.mem_cons, List.not_mem_nil, or_false] at hconversion
        obtain hc | hc | hc := hconversion
        all_goals
          rw [hc]
          exact ⟨_, rfl⟩
      obtain ⟨text, htext⟩ := layOut_ok surface hsuits shown
      refine ⟨text, ?_⟩
      simp [bind, Except.bind, hshown, hopen, pure, Except.pure, htext, invalidOr, Except.mapError]

/-- A sturdy template is filled, unless an argument is missing. -/
theorem IsSturdy.fills (h : IsSturdy surface.memory cs)
    (fillLayout : List Symbol → Except Failure (List Symbol)) :
    (∃ text, Fills surface fillLayout arguments cs text) ∨
      ∃ name, Stops surface fillLayout arguments cs (.missing (.argument name)) := by
  induction h with
  | nil => exact .inl ⟨[], .nil⟩
  | char hc _ ih =>
    obtain ⟨text, htext⟩ | ⟨name, before, text, rest, hbefore, hstuck, rfl⟩ := ih
    · exact .inl ⟨_, .char hc htext⟩
    · exact .inr ⟨name, _, _, rest, .char hc hbefore, hstuck, rfl⟩
  | doubled hc _ ih =>
    obtain ⟨text, htext⟩ | ⟨name, before, text, rest, hbefore, hstuck, rfl⟩ := ih
    · exact .inl ⟨_, .doubled hc htext⟩
    · exact .inr ⟨name, _, _, rest, .doubled hc hbefore, hstuck, rfl⟩
  | field hfield hsturdy _ ih =>
    obtain ⟨shown, hfill⟩ | hmissing := fill_of_sturdy surface hsturdy fillLayout arguments
    · obtain ⟨text, htext⟩ | ⟨name, before, text, rest, hbefore, hstuck, rfl⟩ := ih
      · exact .inl ⟨_, .field hfield hfill htext⟩
      · exact .inr ⟨name, _, _, rest, .field hfield hfill hbefore, hstuck, by simp⟩
    · exact .inr ⟨_, [], [], _, .nil, .field hfield hmissing _, rfl⟩

theorem IsSturdy.words (h : IsSturdy surface.memory template) (address : String) :
    ∃ text, Words surface arguments address template (.ok text) := by
  obtain ⟨text, htext⟩ | ⟨name, hstops⟩ := h.fills (fillLayout surface arguments)
  · exact ⟨_, .filled htext⟩
  · exact ⟨_, .argument hstops⟩

end

end Template

end DocMerge.Message
