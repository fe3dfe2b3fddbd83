import DocMerge.Settings.ProjectSettings

/-!
# Checks of settings

A configuration is read by a row of checks, of which the first that fails decides. Whoever made a
mistake is told of it by a complaint, which shows the value that is wrong. Some failures are no
complaints: a value may be too long or too deep to be shown, a home directory unknown, and a path
too long to be looked up.
-/

namespace DocMerge.Text

-- ---------------------------------------------------------------------------
-- Integers
-- ---------------------------------------------------------------------------

theorem digitValue?_lt (h : digitValue? c = some v) : v < 10 := by
  unfold digitValue? at h
  split at h
  · rename_i hdigit
    have hrange : 48 ≤ c.toNat ∧ c.toNat ≤ 57 := by
      simpa [Char.isDigit, UInt32.le_iff_toNat_le] using hdigit
    obtain rfl := Option.some.inj h
    omega
  · split at h
    · cases h
    · obtain ⟨first, hfirst, rfl⟩ := Option.map_eq_some_iff.mp h
      have hblock := List.find?_some hfirst
      simp only [Bool.and_eq_true, decide_eq_true_eq] at hblock
      omega

theorem decimal_lt (digits : List Char) : decimal digits < Nat.pow 10 digits.length := by
  have hdigit : ∀ c, (digitValue? c).getD 0 < 10 := by
    intro c
    cases h : digitValue? c with
    | none => simp
    | some v => simpa using digitValue?_lt h
  have hfrom : ∀ m,
      digits.foldl (fun n c => 10 * n + (digitValue? c).getD 0) m <
        (m + 1) * Nat.pow 10 digits.length := by
    induction digits with
    | nil => simp
    | cons c digits ih =>
      intro m
      have hc := hdigit c
      calc
        digits.foldl (fun n c => 10 * n + (digitValue? c).getD 0) (10 * m + (digitValue? c).getD 0)
          < (10 * m + (digitValue? c).getD 0 + 1) * Nat.pow 10 digits.length := ih _
        _ ≤ ((m + 1) * 10) * Nat.pow 10 digits.length := Nat.mul_le_mul_right _ (by omega)
        _ = (m + 1) * (Nat.pow 10 digits.length * 10) := by rw [Nat.mul_assoc, Nat.mul_comm 10]
  simpa [decimal] using hfrom 0

theorem powerOfTen_le (h : m ≤ n) : Nat.pow 10 m ≤ Nat.pow 10 n :=
  Nat.pow_le_pow_right (by decide) h

theorem isWritten_of_digits {n : Int} (h : n.natAbs < Nat.pow 10 count)
    (hcount : count ≤ longestInteger) :
    isWritten n = true :=
  isWritten_iff.mpr (Nat.lt_of_lt_of_le h (powerOfTen_le hcount))

theorem integer?_isWritten (h : integer? cs = some n) : isWritten n = true := by
  have hnatural : ∀ {cs n}, natural? cs = some n → n < Nat.pow 10 longestInteger := by
    intro cs n h
    unfold natural? at h
    dsimp only at h
    split at h
    · rename_i hdigits
      simp only [Bool.and_eq_true, decide_eq_true_eq] at hdigits
      obtain rfl := Option.some.inj h
      exact Nat.lt_of_lt_of_le (decimal_lt _) (powerOfTen_le hdigits.2)
    · cases h
  unfold integer? at h
  rw [isWritten_iff]
  split at h <;> obtain ⟨m, hm, rfl⟩ := Option.map_eq_some_iff.mp h <;> simpa using hnatural hm

end DocMerge.Text

namespace DocMerge.Settings

open Data (Fields Table Value)
open Files (Path Store)

-- ---------------------------------------------------------------------------
-- Rows of checks
-- ---------------------------------------------------------------------------

def Failure.isTold : Failure → Bool
  | .complaint _ => true
  | _ => false

def failureOf : Except Failure α → Option Failure
  | .ok _ => none
  | .error f => some f

section
variable {α β : Type}

@[simp] theorem failureOf_eq_some_iff {x : Except Failure α} : failureOf x = some f ↔
    x = .error f := by
  cases x <;> simp [failureOf]

theorem failureOf_eq_none_iff {x : Except Failure α} : failureOf x = none ↔ ∃ a, x = .ok a := by
  cases x <;> simp [failureOf]

@[simp] theorem failureOf_map (g : α → β) (x : Except Failure α) :
    failureOf (x.map g) = failureOf x := by
  cases x <;> rfl

theorem failureOf_bind {x : Except Failure α} {next : α → Except Failure β} {o : Option Failure}
    (h : ∀ a, failureOf (next a) = o) : failureOf (x >>= next) = (failureOf x).or o := by
  cases x with
  | ok a => exact h a
  | error f => rfl

theorem findSome?_cons (o : α → Option Failure) (a : α) (xs : List α) :
    (a :: xs).findSome? o = (o a).or (xs.findSome? o) := by
  rw [List.findSome?_cons]
  cases o a <;> rfl

theorem failureOf_mapM (g : α → Except Failure β) (xs : List α) :
    failureOf (xs.mapM g) = xs.findSome? (fun a => failureOf (g a)) := by
  induction xs with
  | nil => rfl
  | cons a xs ih =>
    have hrest : ∀ b, failureOf (xs.mapM g >>= fun bs => pure (b :: bs)) =
        failureOf (xs.mapM g) := by
      intro b
      cases xs.mapM g <;> rfl
    rw [List.mapM_cons, failureOf_bind hrest, ih, findSome?_cons]

/-- Steps whose failures do not depend on what was made before them fail as their row does. -/
theorem failureOf_foldlM {step : β → α → Except Failure β} {o : α → Option Failure}
    (h : ∀ b a, failureOf (step b a) = o a) (xs : List α) (b : β) :
    failureOf (xs.foldlM step b) = xs.findSome? o := by
  induction xs generalizing b with
  | nil => rfl
  | cons a xs ih =>
    rw [List.foldlM_cons, failureOf_bind ih, h, findSome?_cons]

/-- A row of checks fails as given, or passes them and fails with something that is told. -/
def FailsAs (x : Except Failure α) (o : Option Failure) : Prop :=
  failureOf x = o ∨ o = none ∧ ∀ f, failureOf x = some f → f.isTold = true

theorem FailsAs.bind {x : Except Failure α} {next : α → Except Failure β} (hx : failureOf x = first)
    (h : ∀ a, FailsAs (next a) second) : FailsAs (x >>= next) (first.or second) := by
  cases x with
  | ok a =>
    obtain rfl := hx
    exact h a
  | error f =>
    obtain rfl := hx
    exact .inl rfl

theorem FailsAs.untold_iff {x : Except Failure α} (h : FailsAs x o) :
    (x = .error f ∧ f.isTold = false) ↔ (o = some f ∧ f.isTold = false) := by
  rw [← failureOf_eq_some_iff]
  rcases h with rfl | ⟨rfl, htold⟩
  · exact Iff.rfl
  · constructor
    · rintro ⟨hf, huntold⟩
      simp [htold f hf] at huntold
    · rintro ⟨hf, -⟩
      cases hf

end

-- ---------------------------------------------------------------------------
-- Values
-- ---------------------------------------------------------------------------

theorem failureOf_invalid (limits : Limits) (setting : String) (value : Value)
    (expected : Expectation) :
    failureOf (invalid limits setting value expected : Except Failure α) =
      some ((unshown? limits value).getD (.complaint (.invalid setting value expected))) := rfl

theorem unshown?_untold (h : unshown? limits value = some f) : f.isTold = false := by
  obtain ⟨why, -, rfl⟩ := Option.map_eq_some_iff.mp h
  cases why <;> rfl

section
variable {limits : Limits} {value : Value} {failure : Option Failure}

/-- A failure of a value, if it has one, tells whether the value can be shown. -/
def Tells (limits : Limits) (value : Value) (failure : Option Failure) : Prop :=
  match unshown? limits value with
  | none => ∀ f ∈ failure, f.isTold = true
  | some f => failure = some f

theorem tells_of_shown (hshow : unshown? limits value = none) (h : ∀ f ∈ failure, f.isTold = true) :
    Tells limits value failure := by
  rwa [Tells, hshow]

theorem Tells.of_shown (h : Tells limits value failure) (hshow : unshown? limits value = none) :
    ∀ f ∈ failure, f.isTold = true := by
  rwa [Tells, hshow] at h

theorem Tells.of_unshown (h : Tells limits value failure) (hshow : unshown? limits value = some f) :
    failure = some f := by
  rwa [Tells, hshow] at h

theorem Tells.of_untold (h : Tells limits value (some f)) (huntold : f.isTold = false) :
    unshown? limits value = some f := by
  cases hshow : unshown? limits value with
  | none => simp [h.of_shown hshow f rfl] at huntold
  | some g => exact (h.of_unshown hshow).symm

end

section
variable (limits : Limits)

theorem tells_invalid (α : Type) (setting : String) (value : Value) (expected : Expectation) :
    Tells limits value (failureOf (invalid limits setting value expected : Except Failure α)) := by
  rw [failureOf_invalid, Tells]
  cases unshown? limits value <;> simp [Failure.isTold]

theorem shown_text (s : String) : unshown? limits (.text s) = none := by
  simp [unshown?, Data.Datum.unshown?]

theorem shown_bool (b : Bool) : unshown? limits (.bool b) = none := by
  simp [unshown?, Data.Datum.unshown?]

theorem shown_int (h : Text.isWritten n = true) : unshown? limits (.int n) = none := by
  simp [unshown?, Data.Datum.unshown?, h]

theorem shown_texts (h : textsOf? items = some texts) : unshown? limits (.list items) = none := by
  suffices hitems : Data.Datum.unshownItems? (limits.shown + 1) items = none by
    simp [unshown?, Data.Datum.unshown?, hitems]
  induction items generalizing texts with
  | nil => rfl
  | cons item items ih =>
    cases item with
    | text raw =>
      simp only [textsOf?, Option.map_eq_some_iff] at h
      obtain ⟨rest, hrest, -⟩ := h
      simp [Data.Datum.unshownItems?, Data.Datum.unshown?, ih hrest]
    | _ => simp [textsOf?] at h

theorem readTexts_tells (setting : String) (value : Value) :
    Tells limits value (failureOf (readTexts limits setting (some value))) := by
  cases value with
  | text s => exact tells_of_shown (shown_text limits s) (by simp [readTexts, failureOf])
  | list items =>
    cases h : textsOf? items with
    | some texts =>
      refine tells_of_shown (shown_texts limits h) ?_
      simp [readTexts, h, failureOf]
    | none =>
      simp only [readTexts, h]
      exact tells_invalid limits (List String) setting (.list items) .texts
  | null | bool | int | float | moment | table =>
    simp only [readTexts]
    exact tells_invalid limits (List String) setting _ .texts

theorem checkThreshold_tells (n : Int) :
    Tells limits (.int n) (failureOf (checkThreshold limits n)) := by
  unfold checkThreshold
  split
  · rename_i hn
    refine tells_of_shown (shown_int limits ?_) (by simp [failureOf])
    have hdigits : n.natAbs < Nat.pow 10 3 := by
      change n.natAbs < 1000
      omega
    exact Text.isWritten_of_digits hdigits (by decide)
  · exact tells_invalid limits Int thresholdName (.int n) .percentage

theorem readThreshold_tells (value : Value) :
    Tells limits value (failureOf (readThreshold limits value)) := by
  cases value with
  | int n => exact checkThreshold_tells limits n
  | text s =>
    -- A text can be shown, so the integer that it writes is either fit or complained of.
    refine tells_of_shown (shown_text limits s) fun f hf => ?_
    cases h : Text.integer? s.toList with
    | none =>
      simp only [readThreshold, h, failureOf_invalid, shown_text] at hf
      obtain rfl := Option.some.inj hf
      rfl
    | some n =>
      have hshow := shown_int limits (Text.integer?_isWritten h)
      simp only [readThreshold, h] at hf
      exact (checkThreshold_tells limits n).of_shown hshow f hf
  | null | bool | float | moment | list | table =>
    simp only [readThreshold]
    exact tells_invalid limits Int thresholdName _ .integer

theorem failureOf_readEach (read : String → Except Failure β) (setting : String)
    (value : Option Value) :
    failureOf (readTexts limits setting value >>= fun texts => texts.mapM read) =
      match readTexts limits setting value with
      | .ok texts => texts.findSome? (fun raw => failureOf (read raw))
      | .error f => some f := by
  cases readTexts limits setting value with
  | ok texts => exact failureOf_mapM read texts
  | error f => rfl

end

-- ---------------------------------------------------------------------------
-- Settings
-- ---------------------------------------------------------------------------

inductive Kind
  | switch | names | directories | threshold | fields

section
variable (s : Surroundings) (base : Path)

def Kind.failure (name : String) (value : Value) : Kind → Option Failure
  | switch =>
    match value with
    | .bool _ => none
    | value => failureOf (invalid s.limits name value .boolean : Except Failure Policy)
  | names => failureOf (readTexts s.limits name (some value))
  | directories => failureOf (readDirectories s base name (some value))
  | threshold => failureOf (readThreshold s.limits value)
  | fields => failureOf (readFields s.limits (some value))

def settingKinds : List (String × Kind) :=
  switches.map (fun switch => (switch.1, .switch)) ++
  nameSets.map (fun names => (names.1, .names)) ++
    directorySettings.map (fun name => (name, .directories)) ++
    [(thresholdName, .threshold), (fieldsName, .fields)]

def trouble (values : Table) (setting : String × Kind) : Option Failure :=
  (Fields.get? values setting.1).bind (fun value => setting.2.failure s base setting.1 value)

theorem failureOf_applySwitch (values : Table) (p : Policy)
    (switch : String × (Policy → Bool → Policy)) :
    failureOf (applySwitch s.limits values p switch) =
    trouble s base values (switch.1, .switch) := by
  unfold applySwitch trouble
  cases Fields.get? values switch.1 with
  | none => rfl
  | some value => cases value <;> rfl

theorem failureOf_applyNames (values : Table) (p : Policy)
    (names : String × (Policy → List String → Policy)) :
    failureOf (applyNames s.limits values p names) = trouble s base values (names.1, .names) := by
  have hset : ∀ texts : List String, failureOf (.ok (names.2 p texts.eraseDups)) =
      none := fun _ => rfl
  unfold applyNames trouble
  rw [failureOf_bind hset, Option.or_none]
  cases Fields.get? values names.1 <;> rfl

theorem failureOf_readDirectories (values : Table) (name : String) :
    failureOf (readDirectories s base name (Fields.get? values name)) =
    trouble s base values (name, .directories) := by
  unfold trouble
  cases Fields.get? values name <;> rfl

theorem failureOf_applyThreshold (values : Table) (p : Policy) :
    failureOf (applyThreshold s.limits values p) =
    trouble s base values (thresholdName, .threshold) := by
  unfold applyThreshold trouble
  cases Fields.get? values thresholdName with
  | none => rfl
  | some value => exact failureOf_map _ _

theorem failureOf_readFields (values : Table) :
    failureOf (readFields s.limits (Fields.get? values fieldsName)) =
    trouble s base values (fieldsName, .fields) := by
  unfold trouble
  cases Fields.get? values fieldsName <;> rfl

theorem checkMandatory_failsAs (needsSources : Bool) (c : Configuration) :
    FailsAs (checkMandatory needsSources c) none := by
  refine .inr ⟨rfl, fun f hf => ?_⟩
  unfold checkMandatory at hf
  split at hf
  · obtain rfl := Option.some.inj hf
    rfl
  · split at hf
    · obtain rfl := Option.some.inj hf
      rfl
    · split at hf
      · obtain rfl := Option.some.inj hf
        rfl
      · cases hf

/-- A configuration fails as the first of its settings with a wrong value does. -/
theorem configure_failsAs {settings : Table} (h : unknownNames (given settings) = [])
    (needsSources : Bool) :
    FailsAs (configure s base needsSources settings)
      (settingKinds.findSome? (trouble s base (given settings))) := by
  have hrow : settingKinds.findSome? (trouble s base (given settings)) =
      (switches.findSome? fun switch => trouble s base (given settings) (switch.1, .switch)).or
        ((nameSets.findSome? fun names => trouble s base (given settings) (names.1, .names)).or
          ((trouble s base (given settings) (Mandatory.docs.name, .directories)).or
            ((trouble s base (given settings) (Mandatory.sources.name, .directories)).or
              ((trouble s base (given settings) (thresholdName, .threshold)).or
                ((trouble s base (given settings) (fieldsName, .fields)).or none))))) := by
    simp only [settingKinds, directorySettings, List.findSome?_append, List.findSome?_map,
      Function.comp_def, Option.or_assoc,
      List.map_cons, List.map_nil, findSome?_cons, List.findSome?_nil, Option.or_none]
  have hnone : (!(unknownNames (given settings)).isEmpty) = false := by simp [h]
  rw [hrow]
  simp only [configure, hnone, Bool.false_eq_true, if_false]
  refine .bind (failureOf_foldlM (failureOf_applySwitch s base (given settings)) switches
    {}) fun policy => ?_
  refine .bind (failureOf_foldlM (failureOf_applyNames s base (given settings)) nameSets
    policy) fun policy => ?_
  refine .bind (failureOf_readDirectories s base (given settings) Mandatory.docs.name) fun docs =>
    ?_
  refine .bind (failureOf_readDirectories s base
    (given settings) Mandatory.sources.name) fun sources => ?_
  refine .bind (failureOf_applyThreshold s base (given settings) policy) fun policy => ?_
  refine .bind (failureOf_readFields s base (given settings)) fun overwritten => ?_
  exact checkMandatory_failsAs needsSources _

def Surroundings.Homeless (path : Path) (f : Failure) : Prop :=
  path.absolute = false ∧
    ∃ first name rest, path.parts = first :: rest ∧ first.toList = '~' :: name ∧
    s.homeOf name = .error f

theorem expand_error_iff {path : Path} : s.expand path = .error f ↔ s.Homeless path f := by
  obtain ⟨absolute, parts⟩ := path
  cases absolute with
  | true => simp [Surroundings.expand, Surroundings.Homeless]
  | false =>
    cases parts with
    | nil => simp [Surroundings.expand, Surroundings.Homeless]
    | cons first rest =>
      cases hfirst : first.toList with
      | nil => simp [Surroundings.expand, Surroundings.Homeless, hfirst, Text.dropStart?]
      | cons c name =>
        by_cases htilde : '~' = c
        · subst htilde
          cases hhome : s.homeOf name <;>
            simp [Surroundings.expand, Surroundings.Homeless, hfirst, Text.dropStart?,
              hhome, Except.map]
        · simp [Surroundings.expand, Surroundings.Homeless, hfirst, Text.dropStart?,
            htilde, Ne.symm htilde]

theorem homeOf_error_iff {name : List Char} : s.homeOf name = .error f ↔
    '\x00' ∈ name ∧ f = .brokenName ∨
      '\x00' ∉ name ∧ (if name.isEmpty then s.home else s.users (String.ofList name)) =
      none ∧ f = .noHome := by
  unfold Surroundings.homeOf
  split
  · rename_i hnul
    have hmem : '\x00' ∈ name := by simpa using hnul
    simp only [hmem, Except.error.injEq, not_true_eq_false, false_and, or_false, true_and]
    exact eq_comm
  · rename_i hnul
    have hmem : '\x00' ∉ name := by simpa using hnul
    cases hhome : if name.isEmpty then s.home else s.users (String.ofList name) with
    | some home => simp [hmem]
    | none =>
      simp only [hmem, Except.error.injEq, not_false_eq_true, false_and, true_and, false_or]
      exact eq_comm

theorem Surroundings.Homeless.untold (h : s.Homeless path f) : f.isTold = false := by
  obtain ⟨-, first, name, rest, -, -, hhome⟩ := h
  obtain ⟨-, rfl⟩ | ⟨-, -, rfl⟩ := (homeOf_error_iff s).mp hhome <;> rfl

inductive Unasked (raw : String) : Failure → Prop
  | homeless (hhome : s.Homeless (Path.ofString raw) f) : Unasked raw f
  | longName (hexpand : s.expand (Path.ofString raw) = .ok path)
    (hlong : s.store.isOverlong (base.join path) = true) : Unasked raw .longName

theorem Unasked.untold (h : Unasked s base raw f) : f.isTold = false := by
  cases h with
  | homeless hhome => exact hhome.untold
  | longName => rfl

theorem readDirectory_untold_iff (name raw : String) :
    failureOf (readDirectory s base name raw) = some f ∧ f.isTold = false ↔
    Unasked s base raw f := by
  constructor
  · rintro ⟨h, huntold⟩
    unfold readDirectory at h
    cases hexpand : s.expand (Path.ofString raw) with
    | error g =>
      rw [hexpand] at h
      obtain rfl : g = f := Option.some.inj h
      exact .homeless ((expand_error_iff s).mp hexpand)
    | ok path =>
      rw [hexpand] at h
      simp only [bind, Except.bind] at h
      split at h
      · rename_i hlong
        obtain rfl := Option.some.inj h
        exact .longName hexpand hlong
      · split at h
        · cases h
        · rw [failureOf_invalid, shown_text] at h
          obtain rfl := Option.some.inj h
          cases huntold
  · intro h
    refine ⟨?_, h.untold⟩
    cases h with
    | homeless hhome =>
      rw [readDirectory, (expand_error_iff s).mpr hhome]
      rfl
    | longName hexpand hlong =>
      rw [readDirectory, hexpand]
      simp only [bind, Except.bind, hlong, if_true]
      rfl

/-- A failure of a setting of which nobody is told: its value is complained of but cannot be shown,
or names a directory that one cannot even ask for. -/
inductive Hides (values : Table) : String × Kind → Failure → Prop
  | unshown (hvalue : Fields.get? values name = some value)
    (hshow : unshown? s.limits value = some f) :
    Hides values (name, kind) f
  | directory (hvalue : Fields.get? values name = some value)
    (hread : readTexts s.limits name (some value) = .ok (first ++ raw :: rest))
    (hfirst : ∀ other ∈ first, ∃ path, readDirectory s base name other = .ok path)
    (hraw : Unasked s base raw f) : Hides values (name, .directories) f

theorem readField_told (h : failureOf (readField s.limits raw) = some f) : f.isTold = true := by
  unfold readField at h
  split at h
  · cases h
  · rw [failureOf_invalid, shown_text] at h
    obtain rfl := Option.some.inj h
    rfl

theorem switch_tells (name : String) (value : Value) :
    Tells s.limits value (Kind.switch.failure s base name value) := by
  cases value with
  | bool b => exact tells_of_shown (shown_bool s.limits b) (by simp [Kind.failure])
  | null | int | float | moment | text | list | table =>
    exact tells_invalid s.limits Policy name _ .boolean

theorem Kind.failure_of_unshown (hshow : unshown? s.limits value = some f)
    (kind : Kind) (name : String) :
    kind.failure s base name value = some f := by
  have hread := (readTexts_tells s.limits name value).of_unshown hshow
  cases kind with
  | switch => exact (switch_tells s base name value).of_unshown hshow
  | names => exact hread
  | threshold => exact (readThreshold_tells s.limits value).of_unshown hshow
  | directories =>
    rw [failureOf_eq_some_iff] at hread
    rw [Kind.failure, readDirectories, hread]
    rfl
  | fields =>
    have hfields := (readTexts_tells s.limits fieldsName value).of_unshown hshow
    rw [failureOf_eq_some_iff] at hfields
    rw [Kind.failure, readFields, hfields]
    rfl

/-- Of a list and its items nobody is told anything if the list cannot be shown, or because of an
item. -/
theorem readEach_untold {limits : Limits} {read : String → Except Failure β}
    (h : failureOf (readTexts limits name (some value) >>= fun texts => texts.mapM read) = some f)
    (huntold : f.isTold = false) :
    unshown? limits value = some f ∨
      ∃ first raw rest, readTexts limits name (some value) = .ok (first ++ raw :: rest) ∧
        failureOf (read raw) = some f ∧ ∀ other ∈ first, failureOf (read other) = none := by
  have htells := readTexts_tells limits name value
  rw [failureOf_readEach] at h
  cases hread : readTexts limits name (some value) with
  | error g =>
    rw [hread] at h htells
    obtain rfl := Option.some.inj h
    exact .inl (htells.of_untold huntold)
  | ok texts =>
    rw [hread] at h
    obtain ⟨first, raw, rest, rfl, hraw, hfirst⟩ := List.findSome?_eq_some_iff.mp h
    exact .inr ⟨first, raw, rest, rfl, hraw, hfirst⟩

theorem hides_iff (values : Table) (setting : String × Kind) :
    trouble s base values setting = some f ∧ f.isTold = false ↔ Hides s base values setting f := by
  obtain ⟨name, kind⟩ := setting
  constructor
  · rintro ⟨htrouble, huntold⟩
    obtain ⟨value, hvalue, hfailure⟩ := Option.bind_eq_some_iff.mp htrouble
    have htells : Tells s.limits value (kind.failure s base name value) →
        Hides s base values (name, kind) f := by
      intro htells
      rw [show kind.failure s base name value = some f from hfailure] at htells
      exact .unshown hvalue (htells.of_untold huntold)
    cases kind with
    | switch => exact htells (switch_tells s base name value)
    | names => exact htells (readTexts_tells s.limits name value)
    | threshold => exact htells (readThreshold_tells s.limits value)
    | directories =>
      rcases readEach_untold hfailure huntold with hshow | ⟨first, raw, rest, hread, hraw, hfirst⟩
      · exact .unshown hvalue hshow
      · exact .directory hvalue hread (fun other hother =>
          failureOf_eq_none_iff.mp (hfirst other hother))
          ((readDirectory_untold_iff s base name raw).mp ⟨hraw, huntold⟩)
    | fields =>
      rcases readEach_untold hfailure huntold with hshow | ⟨first, raw, rest, hread, hraw, -⟩
      · exact .unshown hvalue hshow
      · simp [readField_told s hraw] at huntold
  · rintro (⟨hvalue, hshow⟩ | @⟨_, value, first, raw, rest, _, hvalue, hread, hfirst, hraw⟩)
    · refine ⟨Option.bind_eq_some_iff.mpr ⟨_, hvalue, ?_⟩, unshown?_untold hshow⟩
      exact Kind.failure_of_unshown s base hshow kind name
    · refine ⟨Option.bind_eq_some_iff.mpr ⟨_, hvalue, ?_⟩, hraw.untold⟩
      rw [Kind.failure, readDirectories, failureOf_readEach, hread]
      refine List.findSome?_eq_some_iff.mpr ⟨first, raw, rest, rfl, ?_, fun other hother => ?_⟩
      · exact ((readDirectory_untold_iff s base name raw).mpr hraw).1
      · exact failureOf_eq_none_iff.mpr (hfirst other hother)

end

end DocMerge.Settings
