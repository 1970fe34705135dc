import OrderedGrammar.Proofs.Notation.Places
import OrderedGrammar.Proofs.Notation.Reading
import OrderedGrammar.Proofs.Pattern.Lawful
import OrderedGrammar.Proofs.Source.Position

/-!
How reading fails. Every fault shows at an offset of the source, its end included: tokens stand in
the source (`tokens_placed`), the reader keeps no other places than theirs (`step_placed`), and what
is missing at the end is missing there. A pattern can be at fault in a regex only, since literals
always compile.
-/

namespace OrderedGrammar.Notation

section Placed

variable [Regex]

/-- The fault shows in the source or at its end, and at a slash if it is the fault of a pattern. -/
structure Error.Placed (src : List Char) (e : Error) : Prop where
  inside : e.offset ≤ src.length
  regex : ∀ fault, e.cause = .badRegex fault → src[e.offset]? = some '/'

/-- The places that the reader keeps for later are in the source. -/
def Phase.Placed (src : List Char) : Phase → Prop
  | .directive offset => offset ≤ src.length
  | .colon _ offset => offset ≤ src.length
  | .body r => r.offset ≤ src.length
  | _ => True

/-- The reader goes on with places in the source, or tells a fault that shows there. -/
def Step.Placed (src : List Char) : Step → Prop
  | .ok d => d.phase.Placed src
  | .error e => e.Placed src

namespace Draft

variable {src : List Char} {d : Draft} {r : OpenRule} {t : Token} {offset : Nat}

theorem refused {cause : Cause} (inside : offset ≤ src.length)
    (general : ∀ fault, cause ≠ .badRegex fault) : Step.Placed src (.error ⟨cause, offset⟩) :=
  ⟨inside, fun fault he => absurd he (general fault)⟩

theorem closeAlternative_bind_placed {f : List Validator → Step} (inside : offset ≤ src.length)
    (next : ∀ alternatives, (f alternatives).Placed src) :
    Step.Placed src (closeAlternative r offset >>= f) := by
  unfold closeAlternative
  cases r.items with
  | nil => exact refused inside (by simp)
  | cons v vs => exact next _

/-! ### Tokens inside a rule -/

/-- Only a regex can fail to compile. -/
theorem addTerminal_placed {made : Except TerminalError Terminal} (ht : t.Placed src)
    (hr : r.offset ≤ src.length) (slash : ∀ e, made = .error e → t.head = '/') :
    (d.addTerminal r made t).Placed src := by
  cases made with
  | ok terminal => exact hr
  | error e => exact ⟨ht.start_le, fun _ _ => slash e rfl ▸ ht.opens⟩

theorem closeRule_placed (ht : t.Placed src) (hr : r.offset ≤ src.length) :
    (d.closeRule r t).Placed src := by
  unfold closeRule
  split_ifs
  · exact refused ht.start_le (by simp)
  · exact closeAlternative_bind_placed ht.start_le fun _ => refused hr (by simp)
  · exact closeAlternative_bind_placed ht.start_le fun _ => trivial

theorem nextAlternative_placed (ht : t.Placed src) (hr : r.offset ≤ src.length) :
    (d.nextAlternative r t).Placed src := by
  unfold nextAlternative
  split_ifs
  · exact refused ht.start_le (by simp)
  · exact closeAlternative_bind_placed ht.start_le fun _ => hr

theorem closeGroup_placed (ht : t.Placed src) (hr : r.offset ≤ src.length) :
    (d.closeGroup r t).Placed src := by
  unfold closeGroup closeAlternative
  rcases r.outer with _ | ⟨before, outer⟩ <;> rcases r.items with _ | ⟨v, vs⟩
  · exact refused ht.start_le (by simp)
  · exact refused ht.start_le (by simp)
  · exact refused ht.stop (by simp)
  · exact hr

theorem applySuffix_placed {arity : Arity} (ht : t.Placed src) (hr : r.offset ≤ src.length) :
    (d.applySuffix r t arity).Placed src := by
  unfold applySuffix
  cases r.items with
  | nil => exact refused ht.start_le (by simp)
  | cons v vs =>
    dsimp only
    split_ifs
    · exact hr
    · exact refused ht.start_le (by simp)

theorem bodyMark_placed (ht : t.Placed src) (hr : r.offset ≤ src.length) :
    (d.bodyMark r t).Placed src := by
  unfold bodyMark
  split_ifs
  · exact closeRule_placed ht hr
  · exact nextAlternative_placed ht hr
  · exact closeGroup_placed ht hr
  · exact hr
  · cases Arity.ofSign? t.head with
    | some arity => exact applySuffix_placed ht hr
    | none => exact refused ht.start_le (by simp)

theorem bodyToken_placed [LawfulRegex] (ht : t.Placed src) (hr : r.offset ≤ src.length) :
    (d.bodyToken r t).Placed src := by
  unfold bodyToken
  cases hl : t.lexeme with
  | name s => exact hr
  | regex pattern flags => exact addTerminal_placed ht hr fun _ _ => ht.regex _ _ hl
  | literal s =>
    refine addTerminal_placed ht hr fun e failed => ?_
    exact absurd failed (Terminal.literal_ne_error _ e)
  | mark => exact bodyMark_placed ht hr
  | malformed e =>
    obtain ⟨inside, lexical⟩ := ht.malformed e hl
    exact ⟨inside, fun fault he => absurd he (lexical fault)⟩
  | openComment => exact refused ht.start_le (by simp)

/-! ### Tokens between rules -/

theorem betweenToken_placed (ht : t.Placed src) : (d.betweenToken t).Placed src := by
  unfold betweenToken
  cases t.lexeme with
  | name s => exact ht.start_le
  | mark =>
    dsimp only
    split_ifs
    · exact ht.stop
    · exact refused ht.start_le (by simp)
  | _ => exact refused ht.start_le (by simp)

theorem directiveToken_placed (ht : t.Placed src) (inside : offset ≤ src.length) :
    (d.directiveToken offset t).Placed src := by
  unfold directiveToken
  cases t.lexeme with
  | name s =>
    dsimp only
    split_ifs
    · exact refused inside (by simp)
    · exact refused inside (by simp)
    · exact trivial
  | _ => exact refused ht.start_le (by simp)

theorem entryNameToken_placed (ht : t.Placed src) : (d.entryNameToken t).Placed src := by
  unfold entryNameToken
  cases t.lexeme with
  | name s => exact trivial
  | _ => exact refused ht.start_le (by simp)

theorem expectMark_placed {mark : Char} {next : Draft} (ht : t.Placed src)
    (hn : next.phase.Placed src) : (expectMark mark t next).Placed src := by
  unfold expectMark
  split_ifs
  · exact hn
  · exact refused ht.start_le (by simp)

/-! ### The whole source -/

/-- A token in its place leaves the reader with places in the source, or shows a fault there. -/
theorem step_placed [LawfulRegex] (ht : t.Placed src) (hd : d.phase.Placed src) :
    (d.step t).Placed src := by
  unfold step
  split_ifs with openComment
  · exact refused ht.start_le (by simp)
  · cases phase : d.phase with
    | between => exact betweenToken_placed ht
    | directive offset => exact directiveToken_placed ht (by rwa [phase] at hd)
    | entryName => exact entryNameToken_placed ht
    | entryEnd name => exact expectMark_placed ht trivial
    | colon name offset => exact expectMark_placed ht (by rwa [phase] at hd)
    | body r => exact bodyToken_placed ht (by rwa [phase] at hd)

theorem foldlM_placed [LawfulRegex] {ts : List Token} (hts : ∀ t ∈ ts, t.Placed src)
    (hd : d.phase.Placed src) : Step.Placed src (ts.foldlM step d) := by
  induction ts generalizing d with
  | nil => exact hd
  | cons t ts ih =>
    obtain ⟨ht, hts⟩ := List.forall_mem_cons.mp hts
    have placed := step_placed ht hd
    rw [List.foldlM_cons]
    cases next : d.step t with
    | error e =>
      rw [next] at placed
      exact placed
    | ok d' =>
      rw [next] at placed
      exact ih hts placed

/-- What is missing at the end is missing there. -/
theorem finish_placed {e : Error} (h : d.finish src.length = .error e) : e.Placed src := by
  have ends {cause : Cause} (general : ∀ fault, cause ≠ .badRegex fault) :
      Error.Placed src ⟨cause, src.length⟩ := refused (Nat.le_refl _) general
  unfold finish at h
  cases phase : d.phase with
  | between =>
    rw [phase] at h
    cases rules : d.rules with
    | nil =>
      rw [rules] at h
      cases h
      exact ends (by simp)
    | cons first others =>
      rw [rules] at h
      cases h
  | body r =>
    rw [phase] at h
    dsimp only at h
    split_ifs at h <;> cases h <;> exact ends (by simp)
  | _ =>
    rw [phase] at h
    cases h
    exact ends (by simp)

end Draft

/-- Every source is read, or refused for one fault. The fault shows in the source or at its end, and
is told with its line and column, and below them that line with a caret. If it is the fault of a
pattern, it shows at the slash that opens a regex; what a literal compiles to is never at fault. -/
theorem read_total [LawfulRegex] (src : String) :
    (∃ g, read src = .ok g) ∨
      ∃ e, read src = .error e ∧ e.offset ≤ src.length ∧
        (∃ p, Position.Locates src.toList e.offset p ∧
          e.message src = s!"Grammar error at {p.line}:{p.column}: {e.cause.text}\n" ++
            caretSnippet src e.offset) ∧
        ∀ fault, e.cause = .badRegex fault → src.toList[e.offset]? = some '/' := by
  have refusal {e : Error} (h : read src = .error e) : e.Placed src.toList := by
    have placed : Step.Placed src.toList ((tokens src.toList).foldlM Draft.step .start) :=
      Draft.foldlM_placed tokens_placed trivial
    rw [read_eq] at h
    cases taken : (tokens src.toList).foldlM Draft.step .start with
    | error e' =>
      rw [taken] at h placed
      cases h
      exact placed
    | ok d =>
      rw [taken] at h
      exact Draft.finish_placed h
  cases h : read src with
  | ok g => exact Or.inl ⟨g, rfl⟩
  | error e =>
    obtain ⟨inside, regex⟩ := refusal h
    exact Or.inr ⟨e, rfl, inside, ⟨_, Position.locates_of inside, rfl⟩, regex⟩

end Placed

/-- The semicolon of a rule is missing at the end of a source of five characters. -/
def missingSemicolon : Error := ⟨.expected ';' none, 5⟩

/-- A rule without its semicolon is refused at the end of the source. -/
theorem open_rule_refused :
    read "a : b" = .error missingSemicolon ∧
      ∃ p, Position.Locates "a : b".toList 5 p ∧ missingSemicolon.message "a : b" =
        s!"Grammar error at {p.line}:{p.column}: {missingSemicolon.cause.text}\n" ++
          caretSnippet "a : b" 5 := by
  have refused : read "a : b" = .error missingSemicolon := by rfl
  rcases read_total "a : b" with ⟨g, h⟩ | ⟨e, h, -, told, -⟩
  · cases refused.symm.trans h
  · cases refused.symm.trans h
    exact ⟨refused, told⟩

end OrderedGrammar.Notation
