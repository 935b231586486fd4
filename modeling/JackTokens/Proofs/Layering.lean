import JackTokens.Command.Tokenize
import JackTokens.Proofs.Saving
import Mathlib.Data.List.TakeWhile

/-!
# Requests over settings

A plan is made of a request and of the settings behind it. Each option is asked for in the request first; where it
is not given, the settings have a value. Options are given by name and may be wrong, settings have been read
already. The extension is a text from either of them, and the dots before it do not count.

**Names** (`Names`). A value has one name or two, and a name is known in letters of any case. The three readers do
the same with different tables (`ReadsBy`), and so does an option that may be missing: it has the value that its
name stands for, or the one of the settings (`Chosen`), and it is wrong if it is given and stands for nothing.

**Plans.** A request with nothing wrong has a plan, and its plan is known field by field (`Layered`). In any other
request the first thing that is wrong is told, in the order of extension, numbering, identifier rule and format
(`FirstFault`).

**The law** (`plan_layered`) says this, and what a plan does not depend on: settings for options that are given, and
dots before the extension.
-/

namespace JackTokens

/-! ## Names -/

/-- The names of a numbering as an option. -/
def LineNumbering.names : LineNumbering → List String
  | global => ["global"]
  | perFile => ["per-file", "perfile"]

/-- The names of an identifier rule as an option. -/
def IdentifierRule.names : IdentifierRule → List String
  | alphanumeric => ["alphanumeric"]
  | alphabetic => ["alphabetic"]

/-- The names of a format as an option. -/
def OutputFormat.names : OutputFormat → List String
  | text => ["text", "txt"]
  | json => ["json"]

variable {α : Type} {names : α → List String}

/-- **A name stands for a value** if it is one of its names, in letters of any case. -/
def Names (names : α → List String) (name : String) (value : α) : Prop := foldCase name ∈ names value

instance {name : String} {value : α} : Decidable (Names names name value) :=
  inferInstanceAs (Decidable (foldCase name ∈ names value))

/-- An option is valid if it is not given, or if its name stands for a value. -/
def Valid (names : α → List String) (given : Option String) : Prop :=
  ∀ name ∈ given, ∃ value, Names names name value

/-- **The value of an option**: what its name stands for, or what holds without it. -/
def Chosen (names : α → List String) (given : Option String) (otherwise value : α) : Prop :=
  match given with
  | some name => Names names name value
  | none => value = otherwise

/-- **A reader goes by a table of names**, and has a fault for any other name. -/
structure ReadsBy (names : α → List String) (fault : String → RequestFault)
    (read : String → Except CommandError α) : Prop where
  ok_iff : ∀ {name value}, read name = .ok value ↔ Names names name value
  error_iff : ∀ {name e}, read name = .error e ↔ (∀ value, ¬ Names names name value) ∧ e = .request (fault name)

theorem LineNumbering.ofName?_eq_some_iff {name : String} {value : LineNumbering} :
    ofName? name = some value ↔ Names LineNumbering.names name value := by
  unfold ofName? Names
  split <;> cases value <;> simp_all [LineNumbering.names]

theorem IdentifierRule.ofName?_eq_some_iff {name : String} {value : IdentifierRule} :
    ofName? name = some value ↔ Names IdentifierRule.names name value := by
  unfold ofName? Names
  split <;> cases value <;> simp_all [IdentifierRule.names]

theorem OutputFormat.ofName?_eq_some_iff {name : String} {value : OutputFormat} :
    ofName? name = some value ↔ Names OutputFormat.names name value := by
  unfold ofName? Names
  split <;> cases value <;> simp_all [OutputFormat.names]

/-- A reader that looks a name up goes by the table that it looks it up in. -/
theorem ReadsBy.of_lookup {fault : String → RequestFault} {lookup : String → Option α}
    {read : String → Except CommandError α}
    (some_iff : ∀ {name value}, lookup name = some value ↔ Names names name value)
    (known : ∀ {name value}, lookup name = some value → read name = .ok value)
    (unknown : ∀ {name}, lookup name = none → read name = .error (.request (fault name))) :
    ReadsBy names fault read := by
  constructor
  · intro name value
    rw [← some_iff]
    cases found : lookup name with
    | none => simp [unknown found]
    | some other => simp [known found]
  · intro name e
    simp only [← some_iff]
    cases found : lookup name with
    | none => simp [unknown found, eq_comm]
    | some other => simp [known found]

theorem LineNumbering.readsBy_ofName : ReadsBy LineNumbering.names .unknownLineNumbering ofName := by
  apply ReadsBy.of_lookup ofName?_eq_some_iff <;> intros <;> simp_all [ofName]

theorem IdentifierRule.readsBy_ofName : ReadsBy IdentifierRule.names .unknownIdentifierRule ofName := by
  apply ReadsBy.of_lookup ofName?_eq_some_iff <;> intros <;> simp_all [ofName]

theorem OutputFormat.readsBy_ofName : ReadsBy OutputFormat.names .unknownFormat ofName := by
  apply ReadsBy.of_lookup ofName?_eq_some_iff <;> intros <;> simp_all [ofName]

/-! ## Options that may be missing -/

/-- An option that is given with a name that stands for nothing. -/
def Unknown (names : α → List String) (given : Option String) (name : String) : Prop :=
  given = some name ∧ ∀ value, ¬ Names names name value

theorem valid_iff_exists_chosen {given : Option String} (otherwise : α) :
    Valid names given ↔ ∃ value, Chosen names given otherwise value := by
  cases given with
  | none => simp [Valid, Chosen]
  | some name => simp [Valid, Chosen]

namespace ReadsBy

variable {fault : String → RequestFault} {read : String → Except CommandError α} {given : Option String}
  {otherwise value : α} {e : CommandError}

theorem optionOr_eq_ok_iff (reads : ReadsBy names fault read) :
    optionOr read given otherwise = .ok value ↔ Chosen names given otherwise value := by
  cases given with
  | none => simp [optionOr, Chosen, eq_comm]
  | some name => exact reads.ok_iff

theorem optionOr_eq_error_iff (reads : ReadsBy names fault read) :
    optionOr read given otherwise = .error e ↔
      ∃ name, Unknown names given name ∧ e = .request (fault name) := by
  cases given with
  | none => simp [optionOr, Unknown]
  | some name => simpa [optionOr, Unknown] using reads.error_iff

end ReadsBy

/-! ## Dots before an extension -/

/-- A text behind so many dots. -/
def behindDots (n : Nat) (text : String) : String := String.ofList (List.replicate n '.' ++ text.toList)

/-- **What is left of an extension** when the dots before it are gone. -/
def Undotted (extension bare : String) : Prop :=
  (∃ n, extension = behindDots n bare) ∧ bare.toList.head? ≠ some '.'

@[simp] theorem toList_bareExtension (extension : String) :
    (bareExtension extension).toList = extension.toList.dropWhile (· == '.') := String.toList_ofList

/-- Dots before an extension do not count. -/
@[simp] theorem bareExtension_behindDots (n : Nat) (extension : String) :
    bareExtension (behindDots n extension) = bareExtension extension := by
  rw [← String.toList_inj, toList_bareExtension, toList_bareExtension, behindDots, String.toList_ofList]
  apply List.dropWhile_append_of_pos
  intro c dot
  rw [List.eq_of_mem_replicate dot, beq_self_eq_true]

theorem exists_eq_behindDots (extension : String) : ∃ n, extension = behindDots n (bareExtension extension) := by
  have dots : ∀ c ∈ extension.toList.takeWhile (· == '.'), c = '.' := by
    intro c taken
    exact beq_iff_eq.mp (List.mem_takeWhile_imp (p := (· == '.')) taken)
  refine ⟨(extension.toList.takeWhile (· == '.')).length, ?_⟩
  rw [← String.toList_inj, behindDots, String.toList_ofList, toList_bareExtension, ← List.eq_replicate_of_mem dots,
    List.takeWhile_append_dropWhile]

theorem bareExtension_eq_iff_undotted {extension bare : String} :
    bareExtension extension = bare ↔ Undotted extension bare := by
  constructor
  · rintro rfl
    refine ⟨exists_eq_behindDots extension, fun dot => ?_⟩
    rw [toList_bareExtension] at dot
    cases Text.StopsAt.dropWhile (· == '.') extension.toList '.' dot
  · rintro ⟨⟨n, rfl⟩, bare⟩
    rw [bareExtension_behindDots, Settings.bareExtension_eq_iff]
    exact bare

/-- Nothing is left of dots alone. -/
theorem isEmpty_bareExtension_iff {extension : String} :
    (bareExtension extension).isEmpty = true ↔ ∀ c ∈ extension.toList, c = '.' := by
  rw [String.isEmpty_iff, ← String.toList_eq_nil_iff, toList_bareExtension, List.dropWhile_eq_nil_iff]
  simp only [beq_iff_eq]

/-! ## The plan in one piece -/

theorem bind_eq_error_iff {ε α β : Type} {first : Except ε α} {next : α → Except ε β} {cause : ε} :
    first >>= next = .error cause ↔ first = .error cause ∨ ∃ a, first = .ok a ∧ next a = .error cause := by
  cases first with
  | error other => simp [bind, Except.bind]
  | ok a => simp [bind, Except.bind]

namespace TokenizeRequest

variable {settings : Settings} {request : TokenizeRequest}

/-- The extension that counts: that of the request, or that of the settings. -/
def chosenExtension (settings : Settings) (request : TokenizeRequest) : String :=
  request.extension.getD settings.tokenizer.extension

/-- There is an extension behind the dots. -/
def NamesExtension (settings : Settings) (request : TokenizeRequest) : Prop :=
  ∃ c ∈ (request.chosenExtension settings).toList, c ≠ '.'

/-- **A request without a fault.** -/
structure Sound (settings : Settings) (request : TokenizeRequest) : Prop where
  extension : request.NamesExtension settings
  lineNumbering : Valid LineNumbering.names request.lineNumbering
  identifiers : Valid IdentifierRule.names request.identifiers
  format : Valid OutputFormat.names request.format

/-- **A plan that is a request over settings**, field by field. -/
structure Layered (settings : Settings) (request : TokenizeRequest) (plan : TokenizePlan) : Prop where
  extension : Undotted (request.chosenExtension settings) plan.policy.extension
  lineNumbering :
    Chosen LineNumbering.names request.lineNumbering settings.tokenizer.lineNumbering plan.policy.lineNumbering
  identifiers :
    Chosen IdentifierRule.names request.identifiers settings.tokenizer.identifiers plan.policy.identifiers
  format : Chosen OutputFormat.names request.format settings.output.format plan.format
  byFile : plan.byFile = true ↔ request.byFile = true ∨ settings.output.byFile = true

/-- **The first fault of a request**: behind it, nothing is looked at. -/
inductive FirstFault (settings : Settings) (request : TokenizeRequest) : RequestFault → Prop where
  | extension (dots : ∀ c ∈ (request.chosenExtension settings).toList, c = '.') :
      FirstFault settings request .emptyExtension
  | lineNumbering {name : String} (extension : request.NamesExtension settings)
      (unknown : Unknown LineNumbering.names request.lineNumbering name) :
      FirstFault settings request (.unknownLineNumbering name)
  | identifiers {name : String} (extension : request.NamesExtension settings)
      (lineNumbering : Valid LineNumbering.names request.lineNumbering)
      (unknown : Unknown IdentifierRule.names request.identifiers name) :
      FirstFault settings request (.unknownIdentifierRule name)
  | format {name : String} (extension : request.NamesExtension settings)
      (lineNumbering : Valid LineNumbering.names request.lineNumbering)
      (identifiers : Valid IdentifierRule.names request.identifiers)
      (unknown : Unknown OutputFormat.names request.format name) :
      FirstFault settings request (.unknownFormat name)

/-- **Settings that agree where they are asked**: they group alike, and have the same value for each option that
the request does not give. -/
structure Agree (request : TokenizeRequest) (settings other : Settings) : Prop where
  extension : request.extension = none → other.tokenizer.extension = settings.tokenizer.extension
  lineNumbering : request.lineNumbering = none → other.tokenizer.lineNumbering = settings.tokenizer.lineNumbering
  identifiers : request.identifiers = none → other.tokenizer.identifiers = settings.tokenizer.identifiers
  format : request.format = none → other.output.format = settings.output.format
  byFile : other.output.byFile = settings.output.byFile

/-- The options of a plan, behind the check of the extension. -/
def options (settings : Settings) (request : TokenizeRequest) (extension : String) :
    Except CommandError TokenizePlan := do
  let numbering ← optionOr LineNumbering.ofName request.lineNumbering settings.tokenizer.lineNumbering
  let identifiers ← optionOr IdentifierRule.ofName request.identifiers settings.tokenizer.identifiers
  let format ← optionOr OutputFormat.ofName request.format settings.output.format
  return ⟨⟨extension, numbering, identifiers⟩, format, request.byFile || settings.output.byFile⟩

theorem plan_eq (settings : Settings) (request : TokenizeRequest) :
    request.plan settings =
      if (bareExtension (request.chosenExtension settings)).isEmpty then .error (.request .emptyExtension)
      else request.options settings (bareExtension (request.chosenExtension settings)) := rfl

theorem isEmpty_bareExtension_eq_false_iff :
    (bareExtension (request.chosenExtension settings)).isEmpty = false ↔ request.NamesExtension settings := by
  rw [← Bool.not_eq_true, isEmpty_bareExtension_iff]
  simp [NamesExtension]

theorem options_eq_ok_iff {extension : String} {plan : TokenizePlan} :
    request.options settings extension = .ok plan ↔
      plan.policy.extension = extension ∧
      Chosen LineNumbering.names request.lineNumbering settings.tokenizer.lineNumbering
        plan.policy.lineNumbering ∧
      Chosen IdentifierRule.names request.identifiers settings.tokenizer.identifiers plan.policy.identifiers ∧
      Chosen OutputFormat.names request.format settings.output.format plan.format ∧
      plan.byFile = (request.byFile || settings.output.byFile) := by
  simp only [options, bind_eq_ok_iff, LineNumbering.readsBy_ofName.optionOr_eq_ok_iff,
    IdentifierRule.readsBy_ofName.optionOr_eq_ok_iff, OutputFormat.readsBy_ofName.optionOr_eq_ok_iff]
  constructor
  · rintro ⟨numbering, numbered, identifiers, ruled, format, formed, made⟩
    cases made
    exact ⟨rfl, numbered, ruled, formed, rfl⟩
  · rintro ⟨rfl, numbered, ruled, formed, grouped⟩
    refine ⟨_, numbered, _, ruled, _, formed, ?_⟩
    rw [← grouped]
    rfl

theorem options_eq_error_iff {extension : String} {e : CommandError} :
    request.options settings extension = .error e ↔
      (∃ name, Unknown LineNumbering.names request.lineNumbering name ∧
        e = .request (.unknownLineNumbering name)) ∨
      Valid LineNumbering.names request.lineNumbering ∧
        ((∃ name, Unknown IdentifierRule.names request.identifiers name ∧
          e = .request (.unknownIdentifierRule name)) ∨
        Valid IdentifierRule.names request.identifiers ∧
          ∃ name, Unknown OutputFormat.names request.format name ∧ e = .request (.unknownFormat name)) := by
  simp only [options, bind_eq_error_iff, LineNumbering.readsBy_ofName.optionOr_eq_ok_iff,
    IdentifierRule.readsBy_ofName.optionOr_eq_ok_iff, LineNumbering.readsBy_ofName.optionOr_eq_error_iff,
    IdentifierRule.readsBy_ofName.optionOr_eq_error_iff, OutputFormat.readsBy_ofName.optionOr_eq_error_iff,
    valid_iff_exists_chosen settings.tokenizer.lineNumbering,
    valid_iff_exists_chosen settings.tokenizer.identifiers]
  simp [pure, Except.pure]

/-- **When there is a plan, and which.** -/
theorem plan_eq_ok_iff {plan : TokenizePlan} :
    request.plan settings = .ok plan ↔ request.NamesExtension settings ∧ request.Layered settings plan := by
  rw [plan_eq, ← isEmpty_bareExtension_eq_false_iff]
  cases named : (bareExtension (request.chosenExtension settings)).isEmpty with
  | true => simp
  | false =>
    rw [if_neg Bool.false_ne_true, options_eq_ok_iff, eq_comm (a := plan.policy.extension),
      bareExtension_eq_iff_undotted, Bool.eq_iff_iff, Bool.or_eq_true]
    constructor
    · rintro ⟨extension, numbered, ruled, formed, grouped⟩
      exact ⟨rfl, extension, numbered, ruled, formed, grouped⟩
    · rintro ⟨-, extension, numbered, ruled, formed, grouped⟩
      exact ⟨extension, numbered, ruled, formed, grouped⟩

/-- **When there is none, and why.** -/
theorem plan_eq_error_iff {e : CommandError} :
    request.plan settings = .error e ↔ ∃ fault, request.FirstFault settings fault ∧ e = .request fault := by
  rw [plan_eq]
  constructor
  · intro refused
    split at refused
    · rename_i empty
      cases refused
      exact ⟨_, .extension (isEmpty_bareExtension_iff.mp empty), rfl⟩
    · rename_i named
      rw [Bool.not_eq_true, isEmpty_bareExtension_eq_false_iff] at named
      obtain ⟨name, unknown, rfl⟩ | ⟨numbered, ⟨name, unknown, rfl⟩ | ⟨ruled, name, unknown, rfl⟩⟩ :=
        options_eq_error_iff.mp refused
      · exact ⟨_, .lineNumbering named unknown, rfl⟩
      · exact ⟨_, .identifiers named numbered unknown, rfl⟩
      · exact ⟨_, .format named numbered ruled unknown, rfl⟩
  · rintro ⟨fault, first, rfl⟩
    cases first with
    | extension dots => rw [if_pos (isEmpty_bareExtension_iff.mpr dots)]
    | lineNumbering named unknown =>
      rw [isEmpty_bareExtension_eq_false_iff.mpr named, if_neg Bool.false_ne_true, options_eq_error_iff]
      exact .inl ⟨_, unknown, rfl⟩
    | identifiers named numbered unknown =>
      rw [isEmpty_bareExtension_eq_false_iff.mpr named, if_neg Bool.false_ne_true, options_eq_error_iff]
      exact .inr ⟨numbered, .inl ⟨_, unknown, rfl⟩⟩
    | format named numbered ruled unknown =>
      rw [isEmpty_bareExtension_eq_false_iff.mpr named, if_neg Bool.false_ne_true, options_eq_error_iff]
      exact .inr ⟨numbered, .inr ⟨ruled, _, unknown, rfl⟩⟩

/-- A request without a fault has a plan. -/
theorem exists_plan_iff : (∃ plan, request.plan settings = .ok plan) ↔ request.Sound settings := by
  simp only [plan_eq_ok_iff, exists_and_left]
  constructor
  · rintro ⟨named, plan, layered⟩
    exact ⟨named, (valid_iff_exists_chosen _).mpr ⟨_, layered.lineNumbering⟩,
      (valid_iff_exists_chosen _).mpr ⟨_, layered.identifiers⟩, (valid_iff_exists_chosen _).mpr ⟨_, layered.format⟩⟩
  · rintro ⟨named, numbered, ruled, formed⟩
    obtain ⟨numbering, numbered⟩ := (valid_iff_exists_chosen settings.tokenizer.lineNumbering).mp numbered
    obtain ⟨identifiers, ruled⟩ := (valid_iff_exists_chosen settings.tokenizer.identifiers).mp ruled
    obtain ⟨format, formed⟩ := (valid_iff_exists_chosen settings.output.format).mp formed
    refine ⟨named, ⟨⟨bareExtension (request.chosenExtension settings), numbering, identifiers⟩, format,
      request.byFile || settings.output.byFile⟩, ?_, numbered, ruled, formed, Bool.or_eq_true_iff⟩
    exact bareExtension_eq_iff_undotted.mp rfl

/-! ## What a plan does not depend on -/

theorem optionOr_congr {read : String → Except CommandError α} {given : Option String} {value other : α}
    (agree : given = none → other = value) : optionOr read given other = optionOr read given value := by
  cases given with
  | none => rw [agree rfl]
  | some name => rfl

/-- **Settings for options that are given do not count.** -/
theorem Agree.plan_eq {other : Settings} (agree : request.Agree settings other) :
    request.plan other = request.plan settings := by
  have extension : request.chosenExtension other = request.chosenExtension settings := by
    unfold chosenExtension
    cases given : request.extension with
    | none => exact agree.extension given
    | some extension => rfl
  rw [TokenizeRequest.plan_eq, TokenizeRequest.plan_eq, extension]
  unfold options
  rw [optionOr_congr agree.lineNumbering, optionOr_congr agree.identifiers, optionOr_congr agree.format,
    agree.byFile]

/-- The plan of a request depends on its extension by what is left of it. -/
theorem plan_congr_extension {other : TokenizeRequest} {behind : Settings} (n : Nat)
    (extension : other.chosenExtension behind = behindDots n (request.chosenExtension settings))
    (same : ∀ extension, other.options behind extension = request.options settings extension) :
    other.plan behind = request.plan settings := by
  rw [plan_eq, plan_eq, extension, bareExtension_behindDots, same]

/-! ## The law -/

/-- **A plan is a request over settings.** There is one exactly if the extension that counts has a character that is
no dot and each option that is given stands for a value; its fields are then those of the request where they are
given, and those of the settings where not, and tokens are grouped if either says so. If there is none, the first
fault is told. Settings that differ only where the request has an option make no difference, nor do dots before
the extension of the request or of the settings. -/
theorem plan_layered (settings : Settings) (request : TokenizeRequest) :
    ((∃ plan, request.plan settings = .ok plan) ↔ request.Sound settings) ∧
    (∀ plan, request.plan settings = .ok plan ↔ request.Sound settings ∧ request.Layered settings plan) ∧
    (∀ e, request.plan settings = .error e ↔ ∃ fault, request.FirstFault settings fault ∧ e = .request fault) ∧
    (∀ other, request.Agree settings other → request.plan other = request.plan settings) ∧
    ∀ n extension,
      { request with extension := some (behindDots n extension) }.plan settings =
        { request with extension := some extension }.plan settings ∧
      request.plan { settings with tokenizer := { settings.tokenizer with extension := behindDots n extension } } =
        request.plan { settings with tokenizer := { settings.tokenizer with extension := extension } } := by
  refine ⟨exists_plan_iff, fun plan => ⟨fun planned => ?_, fun ⟨sound, layered⟩ => ?_⟩,
    fun e => plan_eq_error_iff, fun other agree => agree.plan_eq, fun n extension => ⟨?_, ?_⟩⟩
  · exact ⟨exists_plan_iff.mp ⟨plan, planned⟩, (plan_eq_ok_iff.mp planned).2⟩
  · exact plan_eq_ok_iff.mpr ⟨sound.extension, layered⟩
  · exact plan_congr_extension n rfl fun _ => rfl
  · -- Behind an extension that is given, that of the settings is not looked at.
    cases given : request.extension with
    | none => exact plan_congr_extension n (by simp [chosenExtension, given]) fun _ => rfl
    | some chosen => exact plan_congr_extension 0 (by simp [chosenExtension, given, behindDots]) fun _ => rfl

/-- Settings without an extension behind a request that has one; and the first of three faults. -/
theorem plan_layered_masked :
    let request : TokenizeRequest := { path := "", extension := some "..jack", identifiers := some "ALPHABETIC" }
    let faulty : TokenizeRequest := { path := "", extension := some "..", identifiers := some "", format := some "" }
    let masked : Settings := { tokenizer := { extension := "..", lineNumbering := .perFile } }
    let other : Settings := { tokenizer := { lineNumbering := .perFile, identifiers := .alphabetic } }
    request.plan masked = .ok ⟨⟨"jack", .perFile, .alphabetic⟩, .text, false⟩ ∧
      request.plan other = request.plan masked ∧ faulty.plan masked = .error (.request .emptyExtension) := by
  intro request faulty masked other
  refine ⟨((plan_layered masked request).2.1 _).mpr ⟨⟨?_, ?_, ?_, ?_⟩, ⟨⟨2, ?_⟩, ?_⟩, ?_, ?_, ?_, ?_⟩, ?_, ?_⟩
  · exact ⟨'j', by decide +kernel, by decide⟩
  · intro name given
    cases given
  · rintro name ⟨⟩
    exact ⟨.alphabetic, by decide +kernel⟩
  · intro name given
    cases given
  · decide +kernel
  · decide +kernel
  · exact rfl
  · show Names IdentifierRule.names "ALPHABETIC" .alphabetic
    decide +kernel
  · exact rfl
  · decide
  · refine (plan_layered masked request).2.2.2.1 other ⟨?_, ?_, ?_, ?_, ?_⟩
    · intro missing
      cases missing
    · exact fun _ => rfl
    · intro missing
      cases missing
    · exact fun _ => rfl
    · rfl
  · refine ((plan_layered masked faulty).2.2.1 _).mpr ⟨_, .extension ?_, rfl⟩
    exact isEmpty_bareExtension_iff.mp (by decide +kernel)

end TokenizeRequest

end JackTokens
