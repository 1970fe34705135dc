import Mathlib
import OrderedGrammar.Proofs.Notation.Reading
import OrderedGrammar.Command.Run

/-!
The option for the source among the arguments. Arguments before an option are read without regard to
what follows it (`leads`), and those behind it do not depend on whether a file or a text has
been given, as long as no second source comes (`read_reading`). So two command lines that differ in
the option for the source make requests that differ in the source (`ofArguments_reading`).
-/

namespace OrderedGrammar.Command

/-- Where the text of a request comes from. -/
def Request.source? : Request → Option TextSource
  | .check _ _ => none
  | .parse _ source _ _ => some source
  | .points source _ => some source

/-- The same request for a text from elsewhere. -/
def Request.reading (source : TextSource) : Request → Request
  | .check file debug => .check file debug
  | .parse file _ complete debug => .parse file source complete debug
  | .points _ debug => .points source debug

/-- A long option with its value: as the next argument, or after an equals sign. -/
def spellings (name value : String) : List (List String) :=
  [[name, value], [name ++ "=" ++ value]]

/-- An argument that is taken for an option. -/
def Kind.IsOption (kind : Kind) (arg : String) : Prop :=
  ∃ name choice attached, interpret kind.options arg = .option name choice attached

theorem Kind.IsOption.ne_dashes {kind : Kind} {arg : String} (h : kind.IsOption arg) :
    arg ≠ "--" := by
  rintro rfl
  obtain ⟨_, _, _, h⟩ := h
  cases kind <;> cases h

namespace Given

/-- The same givens with another source. -/
def reading (g : Given) (source : TextSource) : Given := { g with source := some source }

variable {kind : Kind} {arg value : String} {rest args : List String} {g g₁ g₂ : Given}
  {choice : Choice} {a b : TextSource}

/-! ### Single arguments -/

section Steps

variable {name : List Char} {attached : Option (List Char)}

/-- Two dashes end the options; any other argument is read as what it is taken for. -/
theorem read_cons : read kind (arg :: rest) g =
    if arg = "--" then .ok (g.afterDashes kind rest)
    else match interpret kind.options arg with
      | .operand =>
        if g.wantsFile kind then
          match rest with
          | "--" :: more => .ok { g with file := some arg, leftOver := g.leftOver || !more.isEmpty }
          | _ => read kind rest { g with file := some arg }
        else read kind rest { g with leftOver := true }
      | .unknown => read kind rest { g with leftOver := true }
      | .ambiguous => .error .usage
      | .option name choice attached =>
        match use kind.options name choice attached with
        | .error r => .error r
        | .ok (.settings list) =>
          match g.setAll list with
          | .error r => .error r
          | .ok g => read kind rest g
        | .ok (.wantsValue choice) =>
          match rest with
          | value :: rest =>
            if value ≠ "--" ∧ interpret kind.options value = .operand then
              match g.set choice value.toList with
              | .error r => .error r
              | .ok g => read kind rest g
            else .error .usage
          | [] => .error .usage :=
  read.eq_def kind (arg :: rest) g

theorem read_dashes : read kind ("--" :: rest) g = .ok (g.afterDashes kind rest) :=
  read_cons.trans (if_pos rfl)

theorem read_lastFile (dashes : arg ≠ "--") (operand : interpret kind.options arg = .operand)
    (wants : g.wantsFile kind) : read kind (arg :: "--" :: rest) g =
      .ok { g with file := some arg, leftOver := g.leftOver || !rest.isEmpty } := by
  rw [read_cons, if_neg dashes]
  simp only [operand, wants, if_true]

theorem read_file (dashes : arg ≠ "--") (operand : interpret kind.options arg = .operand)
    (wants : g.wantsFile kind) (next : ∀ more, rest ≠ "--" :: more) :
    read kind (arg :: rest) g = read kind rest { g with file := some arg } := by
  rw [read_cons, if_neg dashes]
  simp only [operand, wants, if_true]

theorem read_extra (dashes : arg ≠ "--")
    (extra : interpret kind.options arg = .operand ∧ ¬ g.wantsFile kind ∨
      interpret kind.options arg = .unknown) :
    read kind (arg :: rest) g = read kind rest { g with leftOver := true } := by
  rw [read_cons, if_neg dashes]
  rcases extra with ⟨operand, wants⟩ | unknown
  · simp only [operand, wants]
    rfl
  · simp only [unknown]

theorem read_settings {list : List (Choice × List Char)} (dashes : arg ≠ "--")
    (option : interpret kind.options arg = .option name choice attached)
    (settings : use kind.options name choice attached = .ok (.settings list)) :
    read kind (arg :: rest) g = g.setAll list >>= fun g => read kind rest g := by
  rw [read_cons, if_neg dashes]
  simp only [option, settings]
  cases g.setAll list <;> rfl

theorem read_value {wanted : Choice} (dashes : arg ≠ "--")
    (option : interpret kind.options arg = .option name choice attached)
    (wants : use kind.options name choice attached = .ok (.wantsValue wanted))
    (operand : value ≠ "--" ∧ interpret kind.options value = .operand) :
    read kind (arg :: value :: rest) g =
      g.set wanted value.toList >>= fun g => read kind rest g := by
  rw [read_cons, if_neg dashes]
  simp only [option, wants, if_pos operand]
  cases g.set wanted value.toList <;> rfl

theorem read_noValue {wanted : Choice} (dashes : arg ≠ "--")
    (option : interpret kind.options arg = .option name choice attached)
    (wants : use kind.options name choice attached = .ok (.wantsValue wanted))
    (operand : ¬ (value ≠ "--" ∧ interpret kind.options value = .operand)) :
    read kind (arg :: value :: rest) g = .error .usage := by
  rw [read_cons, if_neg dashes]
  simp only [option, wants, if_neg operand]

end Steps

/-! ### Behind the option -/

section Behind

variable {value : List Char} (file : a.isFile) (text : ¬ b.isFile)

include file text

/-- A setting that is taken with a file and with a text does not depend on which of them is given.
-/
theorem set_reading (given : g.source = some a) (h₁ : g.set choice value = .ok g₁)
    (h₂ : (g.reading b).set choice value = .ok g₂) : g₁.source = some a ∧ g₂ = g₁.reading b := by
  cases choice with
  | help => cases h₁
  | debug =>
    cases h₁
    cases h₂
    exact ⟨given, rfl⟩
  | complete =>
    cases h₁
    cases h₂
    exact ⟨given, rfl⟩
  | text => simp [set, given, file] at h₁
  | input => simp [set, reading, text] at h₂

theorem setAll_reading {list : List (Choice × List Char)} (given : g.source = some a)
    (h₁ : g.setAll list = .ok g₁) (h₂ : (g.reading b).setAll list = .ok g₂) :
    g₁.source = some a ∧ g₂ = g₁.reading b := by
  induction list generalizing g with
  | nil =>
    cases h₁
    cases h₂
    exact ⟨given, rfl⟩
  | cons setting list ih =>
    obtain ⟨next₁, set₁, rest₁⟩ := bind_eq_ok.mp h₁
    obtain ⟨next₂, set₂, rest₂⟩ := bind_eq_ok.mp h₂
    obtain ⟨given', rfl⟩ := set_reading file text given set₁ set₂
    exact ih given' rest₁ rest₂

omit file text in
theorem afterDashes_reading (kind : Kind) (rest : List String) (g : Given) (b : TextSource) :
    (g.afterDashes kind rest).source = g.source ∧
      (g.reading b).afterDashes kind rest = (g.afterDashes kind rest).reading b := by
  cases rest with
  | nil => exact ⟨rfl, rfl⟩
  | cons path more =>
    have wants : (g.reading b).wantsFile kind = g.wantsFile kind := rfl
    unfold afterDashes
    rw [wants]
    split_ifs <;> exact ⟨rfl, rfl⟩

/-- Arguments that are taken with a file and with a text do not depend on which of them is given. -/
theorem read_reading (given : g.source = some a) (h₁ : read kind args g = .ok g₁)
    (h₂ : read kind args (g.reading b) = .ok g₂) : g₁.source = some a ∧ g₂ = g₁.reading b := by
  fun_induction read kind args g with
  | case1 g =>
    cases h₁
    cases h₂
    exact ⟨given, rfl⟩
  | case2 rest g =>
    rw [read_dashes] at h₂
    cases h₁
    cases h₂
    obtain ⟨same, reading⟩ := afterDashes_reading kind rest g b
    exact ⟨same.trans given, reading⟩
  | case3 arg g dashes operand wants more =>
    rw [read_lastFile (g := g.reading b) dashes operand wants] at h₂
    cases h₁
    cases h₂
    exact ⟨given, rfl⟩
  | case4 arg rest g dashes operand wants next ih =>
    rw [read_file (g := g.reading b) dashes operand wants next] at h₂
    exact ih given h₁ h₂
  | case5 arg rest g dashes operand wants ih =>
    rw [read_extra (g := g.reading b) dashes (Or.inl ⟨operand, wants⟩)] at h₂
    exact ih given h₁ h₂
  | case6 arg rest g dashes unknown ih =>
    rw [read_extra dashes (Or.inr unknown)] at h₂
    exact ih given h₁ h₂
  | case10 arg rest g dashes name choice attached option list settings next set ih =>
    rw [read_settings dashes option settings] at h₂
    obtain ⟨next₂, set₂, rest₂⟩ := bind_eq_ok.mp h₂
    obtain ⟨given', rfl⟩ := setAll_reading file text given set set₂
    exact ih given' h₁ rest₂
  | case12 arg g dashes name choice attached option wanted wants value rest operand next set ih =>
    rw [read_value dashes option wants operand] at h₂
    obtain ⟨next₂, set₂, rest₂⟩ := bind_eq_ok.mp h₂
    obtain ⟨given', rfl⟩ := set_reading file text given set set₂
    exact ih given' h₁ rest₂
  | _ => cases h₁

end Behind

/-! ### Before the option -/

/-- The arguments lead to the same givens whatever option comes next and whatever follows it; or
nothing that follows can make a difference to the source. -/
def Leads (kind : Kind) (before : List String) (g : Given) : Prop :=
  (∃ g₀, ∀ o rest, kind.IsOption o →
    read kind (before ++ o :: rest) g = read kind (o :: rest) g₀) ∨
  ∃ source, ∀ o rest g', kind.IsOption o →
    read kind (before ++ o :: rest) g = .ok g' → g'.source = source

theorem Leads.step (h : Leads kind rest g₁) (step : ∀ o tail, kind.IsOption o →
    read kind (args ++ o :: tail) g = read kind (rest ++ o :: tail) g₁) : Leads kind args g := by
  rcases h with ⟨g₀, h⟩ | ⟨source, h⟩
  · exact Or.inl ⟨g₀, fun o tail ho => (step o tail ho).trans (h o tail ho)⟩
  · exact Or.inr ⟨source, fun o tail g' ho ok => h o tail g' ho (step o tail ho ▸ ok)⟩

theorem leads_of_refused {r : Refusal}
    (h : ∀ o tail, kind.IsOption o → read kind (args ++ o :: tail) g = .error r) :
    Leads kind args g :=
  Or.inr ⟨none, fun o tail _ ho ok => absurd ((h o tail ho).symm.trans ok) nofun⟩

/-- Arguments lead on to an option, unless two dashes among them end the options. -/
theorem leads (kind : Kind) (before : List String) (g : Given) : Leads kind before g := by
  fun_induction read kind before g with
  | case1 g => exact Or.inl ⟨g, fun _ _ _ => rfl⟩
  | case2 rest g =>
    refine Or.inr ⟨g.source, fun o tail g' _ ok => ?_⟩
    rw [List.cons_append, read_dashes] at ok
    cases ok
    exact (afterDashes_reading kind _ g .noText).1
  | case3 arg g dashes operand wants more =>
    refine Or.inr ⟨g.source, fun o tail g' _ ok => ?_⟩
    rw [List.cons_append, List.cons_append, read_lastFile dashes operand wants] at ok
    cases ok
    rfl
  | case4 arg rest g dashes operand wants next ih =>
    refine ih.step fun o tail ho => read_file dashes operand wants fun more same => ?_
    cases rest with
    | nil => exact ho.ne_dashes (List.cons.inj same).1
    | cons first rest => exact next rest (by rw [(List.cons.inj same).1])
  | case5 arg rest g dashes operand wants ih =>
    exact ih.step fun o tail _ => read_extra dashes (Or.inl ⟨operand, wants⟩)
  | case6 arg rest g dashes unknown ih =>
    exact ih.step fun o tail _ => read_extra dashes (Or.inr unknown)
  | case7 arg rest g dashes ambiguous =>
    refine leads_of_refused (r := .usage) fun o tail _ => ?_
    rw [List.cons_append, read_cons, if_neg dashes]
    simp only [ambiguous]
  | case8 arg rest g dashes name choice attached option r refused =>
    refine leads_of_refused (r := r) fun o tail _ => ?_
    rw [List.cons_append, read_cons, if_neg dashes]
    simp only [option, refused]
  | case9 arg rest g dashes name choice attached option list settings r refused =>
    refine leads_of_refused (r := r) fun o tail _ => ?_
    rw [List.cons_append, read_settings dashes option settings, refused]
    rfl
  | case10 arg rest g dashes name choice attached option list settings next set ih =>
    refine ih.step fun o tail _ => ?_
    rw [List.cons_append, read_settings dashes option settings, set]
    rfl
  | case11 arg g dashes name choice attached option wanted wants value rest operand r refused =>
    refine leads_of_refused (r := r) fun o tail _ => ?_
    rw [List.cons_append, List.cons_append, read_value dashes option wants operand, refused]
    rfl
  | case12 arg g dashes name choice attached option wanted wants value rest operand next set ih =>
    refine ih.step fun o tail _ => ?_
    rw [List.cons_append, List.cons_append, read_value dashes option wants operand, set]
    rfl
  | case13 arg g dashes name choice attached option wanted wants value rest operand =>
    exact leads_of_refused fun o tail _ => read_noValue dashes option wants operand
  | case14 arg g dashes name choice attached option wanted wants =>
    refine leads_of_refused fun o tail ho => read_noValue dashes option wants fun operand => ?_
    obtain ⟨_, _, _, ho⟩ := ho
    cases ho.symm.trans operand.2

/-! ### The option itself -/

/-- The long options that give a source. -/
def sourceOptions : List (String × Choice) := [("--text", .text), ("--input", .input)]

theorem interpret_sourceOption {name : String} (h : (name, choice) ∈ sourceOptions)
    (hk : kind ≠ .check) :
    interpret kind.options name = .option name.toList choice none ∧
      ∀ value, interpret kind.options (name ++ "=" ++ value) =
        .option name.toList choice (some value.toList) := by
  simp only [sourceOptions, List.mem_cons, Prod.mk.injEq, List.not_mem_nil, or_false] at h
  obtain ⟨rfl, rfl⟩ | ⟨rfl, rfl⟩ := h
  all_goals
    refine ⟨by cases kind <;> first | rfl | exact absurd rfl hk, fun value => ?_⟩
    unfold interpret
    rw [String.toList_append]
    cases kind <;> first | rfl | exact absurd rfl hk

section Spellings

variable {name : String} {written after before : List String}

theorem isOption_of_spelling (h : (name, choice) ∈ sourceOptions) (hk : kind ≠ .check)
    (hw : written ∈ spellings name value) : ∃ o tail, written = o :: tail ∧ kind.IsOption o := by
  obtain ⟨bare, attached⟩ := interpret_sourceOption h hk
  simp only [spellings, List.mem_cons, List.not_mem_nil, or_false] at hw
  obtain rfl | rfl := hw
  · exact ⟨_, _, rfl, _, _, _, bare⟩
  · exact ⟨_, _, rfl, _, _, _, attached value⟩

/-- However an option for the source is written, it sets the source to its value. -/
theorem read_spelling (h : (name, choice) ∈ sourceOptions) (hk : kind ≠ .check)
    (hw : written ∈ spellings name value) (ok : read kind (written ++ after) g = .ok g₂) :
    ∃ g₁, g.set choice value.toList = .ok g₁ ∧ read kind after g₁ = .ok g₂ := by
  obtain ⟨bare, attached⟩ := interpret_sourceOption h hk
  have takes : choice.takesValue := by
    simp only [sourceOptions, List.mem_cons, Prod.mk.injEq, List.not_mem_nil, or_false] at h
    obtain ⟨-, rfl⟩ | ⟨-, rfl⟩ := h <;> rfl
  simp only [spellings, List.mem_cons, List.not_mem_nil, or_false] at hw
  obtain rfl | rfl := hw
  · have dashes : name ≠ "--" := Kind.IsOption.ne_dashes ⟨_, _, _, bare⟩
    have wants : use kind.options name.toList choice none = .ok (.wantsValue choice) := by
      rw [use, if_pos takes]
    rw [List.cons_append, List.cons_append] at ok
    by_cases operand : value ≠ "--" ∧ interpret kind.options value = .operand
    · rw [read_value dashes bare wants operand] at ok
      exact bind_eq_ok.mp ok
    · rw [read_noValue dashes bare wants operand] at ok
      cases ok
  · have dashes : name ++ "=" ++ value ≠ "--" := Kind.IsOption.ne_dashes ⟨_, _, _, attached value⟩
    have settings : use kind.options name.toList choice (some value.toList) =
        .ok (.settings [(choice, value.toList)]) := by
      rw [use, if_pos takes]
    rw [List.cons_append, read_settings dashes (attached value) settings] at ok
    obtain ⟨next, set, rest⟩ := bind_eq_ok.mp ok
    obtain ⟨g₁, set, done⟩ := bind_eq_ok.mp set
    cases done
    exact ⟨next, set, rest⟩

/-- Where the arguments before it lead on, an option for the source is read with what they gave. -/
theorem read_spelling_behind {g₀ : Given} (h : (name, choice) ∈ sourceOptions) (hk : kind ≠ .check)
    (hw : written ∈ spellings name value)
    (through : ∀ o rest, kind.IsOption o →
      read kind (before ++ o :: rest) g = read kind (o :: rest) g₀)
    (ok : read kind (before ++ written ++ after) g = .ok g₂) :
    ∃ g₁, g₀.set choice value.toList = .ok g₁ ∧ read kind after g₁ = .ok g₂ := by
  obtain ⟨o, tail, rfl, option⟩ := isOption_of_spelling h hk hw
  rw [List.append_assoc, List.cons_append, through o _ option] at ok
  exact read_spelling h hk hw ok

end Spellings

/-! ### All arguments of a command -/

theorem set_text_eq {value : List Char} (h : g.set .text value = .ok g₁) :
    g₁ = g.reading (.ofText (String.ofList value)) := by
  simp only [set] at h
  split_ifs at h
  exact (Except.ok.inj h).symm

theorem set_input_eq {value : List Char} (h : g.set .input value = .ok g₁) :
    g₁ = g.reading (.ofFile (String.ofList value)) := by
  simp only [set] at h
  split_ifs at h
  exact (Except.ok.inj h).symm

theorem isFile_ofFile (value : String) : (TextSource.ofFile value).isFile := by
  unfold TextSource.ofFile
  split_ifs <;> rfl

theorem not_isFile_ofText (value : String) : ¬ (TextSource.ofText value).isFile := by
  unfold TextSource.ofText
  split_ifs <;> exact nofun

/-- Two readings that differ in the option for the source come to givens that differ in the source.
-/
theorem read_swapped {before after file text : List String} {input : String}
    (hk : kind ≠ .check) (hfile : file ∈ spellings "--input" input)
    (htext : text ∈ spellings "--text" value)
    (h₁ : read kind (before ++ file ++ after) g = .ok g₁)
    (h₂ : read kind (before ++ text ++ after) g = .ok g₂)
    (given₁ : g₁.source = some a) (given₂ : g₂.source = some b) (isFile : a.isFile)
    (isText : ¬ b.isFile) : g₂ = g₁.reading b := by
  have inputOption : ("--input", Choice.input) ∈ sourceOptions := by decide
  have textOption : ("--text", Choice.text) ∈ sourceOptions := by decide
  rcases leads kind before g with ⟨g₀, through⟩ | ⟨fixed, same⟩
  · obtain ⟨g₁', set₁, rest₁⟩ := read_spelling_behind inputOption hk hfile through h₁
    obtain ⟨g₂', set₂, rest₂⟩ := read_spelling_behind textOption hk htext through h₂
    obtain rfl := set_input_eq set₁
    obtain rfl := set_text_eq set₂
    obtain ⟨-, swapped⟩ := read_reading (isFile_ofFile _) (not_isFile_ofText _) rfl rest₁ rest₂
    rw [swapped] at given₂ ⊢
    exact Option.some.inj given₂ ▸ rfl
  · obtain ⟨o, tail, rfl, option⟩ := isOption_of_spelling inputOption hk hfile
    obtain ⟨o', tail', rfl, option'⟩ := isOption_of_spelling textOption hk htext
    rw [List.append_assoc] at h₁ h₂
    have one := (same o _ g₁ option h₁).symm.trans given₁
    have two := (same o' _ g₂ option' h₂).symm.trans given₂
    obtain rfl := Option.some.inj (one.symm.trans two)
    exact absurd isFile isText

/-! ### Arguments that nothing asks for -/

theorem set_leftOver {value : List Char} (h : g.set choice value = .ok g₁) :
    g₁.leftOver = g.leftOver := by
  cases choice with
  | help => cases h
  | debug =>
    cases h
    rfl
  | complete =>
    cases h
    rfl
  | text =>
    rw [set_text_eq h]
    rfl
  | input =>
    rw [set_input_eq h]
    rfl

theorem setAll_leftOver {list : List (Choice × List Char)} (h : g.setAll list = .ok g₁) :
    g₁.leftOver = g.leftOver := by
  induction list generalizing g with
  | nil =>
    cases h
    rfl
  | cons setting list ih =>
    obtain ⟨next, set, rest⟩ := bind_eq_ok.mp h
    exact (ih rest).trans (set_leftOver set)

/-- What nothing asks for stays left over. -/
theorem read_leftOver (left : g.leftOver) (h : read kind args g = .ok g₁) : g₁.leftOver := by
  fun_induction read kind args g with
  | case1 g =>
    cases h
    exact left
  | case2 rest g =>
    cases h
    unfold afterDashes
    split
    · split_ifs <;> simp [left]
    · rfl
  | case3 arg g dashes operand wants more =>
    cases h
    simp [left]
  | case4 arg rest g dashes operand wants next ih => exact ih left h
  | case5 arg rest g dashes operand wants ih => exact ih rfl h
  | case6 arg rest g dashes unknown ih => exact ih rfl h
  | case10 arg rest g dashes name choice attached option list settings next set ih =>
    exact ih ((setAll_leftOver set).trans left) h
  | case12 arg g dashes name choice attached option wanted wants value rest operand next set ih =>
    exact ih ((set_leftOver set).trans left) h
  | _ => cases h

/-! ### Requests -/

/-- A request that has a source was made with it, and it is no check. -/
theorem source_of_request {r : Request} {source : TextSource} (h : g.request kind = .ok r)
    (reads : r.source? = some source) : kind ≠ .check ∧ g.source = some source := by
  unfold request at h
  split_ifs at h
  split at h
  · cases h
    cases reads
  · cases h
    cases reads
    exact ⟨nofun, ‹_›⟩
  · cases h
    cases reads
    exact ⟨nofun, ‹_›⟩
  · cases h

theorem request_reading {r r' : Request} (hk : kind ≠ .check) (h : g.request kind = .ok r)
    (h' : (g.reading b).request kind = .ok r') : r' = r.reading b := by
  obtain ⟨file, source, complete, debug, leftOver⟩ := g
  cases leftOver with
  | true => cases h
  | false =>
    cases kind with
    | check => exact absurd rfl hk
    | parse =>
      cases file with
      | none => cases h
      | some file =>
        cases source with
        | none => cases h
        | some source =>
          cases h
          cases h'
          rfl
    | points =>
      cases source with
      | none => cases h
      | some source =>
        cases h
        cases h'
        rfl

end Given

/-! ### Command lines -/

theorem readCommand_eq_ok {name : String} {rest : List String} {leftOver : Bool} {r : Request}
    (h : readCommand name rest leftOver = .ok r) : ∃ kind g, Kind.named? name = some kind ∧
      Given.read kind rest { leftOver } = .ok g ∧ g.request kind = .ok r := by
  unfold readCommand at h
  split at h
  · cases h
  · next kind named =>
    split_ifs at h
    obtain ⟨g, read, request⟩ := bind_eq_ok.mp h
    exact ⟨kind, g, named, read, request⟩

/-- Behind an argument that nothing asks for no request is made. -/
theorem readArguments_leftOver {args : List String} {r : Request} :
    readArguments true args ≠ .ok r := by
  intro h
  induction args with
  | nil => cases h
  | cons arg rest ih =>
    unfold readArguments at h
    split_ifs at h
    split at h
    · obtain ⟨kind, g, -, read, request⟩ := readCommand_eq_ok h
      have left := Given.read_leftOver rfl read
      cases (if_pos left).symm.trans request
    · exact ih h
    · cases h
    · split at h <;> cases h

/-- Arguments make a request if the first one names a command that the others suit. -/
theorem ofArguments_eq_ok {args : List String} {r : Request}
    (h : Request.ofArguments args = .ok r) :
    ∃ name rest kind g, args = name :: rest ∧ Kind.named? name = some kind ∧
      Given.read kind rest {} = .ok g ∧ g.request kind = .ok r := by
  cases args with
  | nil => cases h
  | cons arg rest =>
    unfold Request.ofArguments readArguments at h
    split_ifs at h
    split at h
    · obtain ⟨kind, g, made⟩ := readCommand_eq_ok h
      exact ⟨arg, rest, kind, g, rfl, made⟩
    · exact absurd h readArguments_leftOver
    · cases h
    · split at h <;> cases h

/-- No command is named like an option. -/
theorem named?_dash {name : String} (h : name.toList.head? = some '-') :
    Kind.named? name = none := by
  have other (command : String) (hc : command.toList.head? ≠ some '-') : name ≠ command := by
    rintro rfl
    exact hc h
  rw [Kind.named?, if_neg (other "check" (by decide)), if_neg (other "parse" (by decide)),
    if_neg (other "points" (by decide))]

/-- Command lines that differ in the option for the source, a file in the one and a text in the
other, make requests that differ in the source, if that is what their values are taken for. -/
theorem ofArguments_reading {before after file text : List String} {input value : String}
    {r r' : Request} (hfile : file ∈ spellings "--input" input)
    (htext : text ∈ spellings "--text" value)
    (h : Request.ofArguments (before ++ file ++ after) = .ok r)
    (h' : Request.ofArguments (before ++ text ++ after) = .ok r')
    (reads : r.source? = some (.file input)) (reads' : r'.source? = some (.text value)) :
    r' = r.reading (.text value) := by
  obtain ⟨name, rest, kind, g, split, named, read, request⟩ := ofArguments_eq_ok h
  obtain ⟨name', rest', kind', g', split', named', read', request'⟩ := ofArguments_eq_ok h'
  obtain ⟨hk, given⟩ := Given.source_of_request request reads
  obtain ⟨-, given'⟩ := Given.source_of_request request' reads'
  cases before with
  | nil =>
    simp only [spellings, List.mem_cons, List.not_mem_nil, or_false] at hfile
    have dash : name.toList.head? = some '-' := by
      obtain rfl | rfl := hfile
      · obtain rfl := (List.cons.inj split).1
        rfl
      · obtain rfl := (List.cons.inj split).1
        rw [String.toList_append]
        rfl
    rw [named?_dash dash] at named
    cases named
  | cons first before =>
    obtain ⟨rfl, rfl⟩ := List.cons.inj split
    obtain ⟨rfl, rfl⟩ := List.cons.inj split'
    obtain rfl := Option.some.inj (named.symm.trans named')
    obtain rfl := Given.read_swapped hk hfile htext read read' given given' rfl nofun
    exact Given.request_reading hk request request'

end OrderedGrammar.Command
