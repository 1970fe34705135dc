import OrderedGrammar.Proofs.Notation.Scan

/-!
Tokens of two texts with a line feed between them. The line feed ends what the first text may leave
open, a name, flags or a line comment, so if all its tokens can be used, those of the second text
follow them (`scan_append`). They are the tokens of that text at a later offset (`scan_later`).
-/

namespace OrderedGrammar.Notation

/-! ### Places that come later -/

/-- The same fault in a text that starts later. -/
def Error.later (k : Nat) (e : Error) : Error := ⟨e.cause, e.offset + k⟩

/-- The same lexeme in a text that starts later. -/
def Lexeme.later (k : Nat) : Lexeme → Lexeme
  | .malformed e => .malformed (e.later k)
  | l => l

/-- The same token in a text that starts later. -/
def Token.later (k : Nat) (t : Token) : Token :=
  ⟨t.head, t.start + k, t.stop + k, t.lexeme.later k⟩

namespace Lexer

/-- The same mode in a text that starts later. -/
def Mode.later (k : Nat) : Mode → Mode
  | .slash start => .slash (start + k)
  | .blockComment start star => .blockComment (start + k) star
  | .name start head read => .name (start + k) head read
  | .regex start read escaped => .regex (start + k) read escaped
  | .flags start pattern read => .flags (start + k) pattern read
  | .literal start quote read escaped => .literal (start + k) quote read escaped
  | m => m

/-- The same state in a text that starts later. -/
def State.later (k : Nat) (s : State) : State :=
  ⟨s.mode.later k, s.offset + k, s.tokens.map (Token.later k)⟩

variable {k start n : Nat} {m : Mode} {s : State} {c : Char} {read pattern text : List Char}

theorem openToken_later : openToken (s.later k) c = (openToken s c).later k := by
  unfold openToken
  split_ifs
  · rfl
  · rfl
  · rfl
  · rfl
  · rfl
  · simp [State.later, Mode.later, Token.later, Lexeme.later, Nat.add_right_comm]

theorem inRegex_later (escaped : Bool) :
    inRegex (s.later k) (start + k) read escaped c = (inRegex s start read escaped c).later k := by
  unfold inRegex
  split_ifs <;> rfl

theorem inLiteral_later (quote : Char) (escaped : Bool) :
    inLiteral (s.later k) (start + k) quote read escaped c =
      (inLiteral s start quote read escaped c).later k := by
  unfold inLiteral
  split_ifs
  · rfl
  · rfl
  · simp [State.later, Mode.later, Token.later, Lexeme.later, Nat.add_right_comm]
  · rfl
  · rfl

/-- A step does not look at the offset. -/
theorem take_later : take (s.later k) c = (take s c).later k := by
  obtain ⟨m, n, ts⟩ := s
  change take ⟨m.later k, n + k, ts.map (Token.later k)⟩ c = _
  cases m with
  | gap => exact openToken_later (s := ⟨.gap, n, ts⟩)
  | slash start =>
    simp only [take, Mode.later]
    split_ifs
    · rfl
    · rfl
    · exact inRegex_later (s := ⟨.slash start, n, ts⟩) false
  | lineComment =>
    simp only [take, Mode.later]
    split_ifs <;> rfl
  | blockComment start star =>
    simp only [take, Mode.later]
    split_ifs <;> rfl
  | name start head read =>
    simp only [take, Mode.later]
    split_ifs
    · rfl
    · exact openToken_later (s := closeName ⟨.name start head read, n, ts⟩ start head read)
  | regex start read escaped => exact inRegex_later (s := ⟨.regex start read escaped, n, ts⟩) _
  | flags start pattern read =>
    simp only [take, Mode.later]
    split_ifs
    · rfl
    · exact openToken_later (s := closeFlags ⟨.flags start pattern read, n, ts⟩ start pattern read)
  | literal start quote read escaped =>
    exact inLiteral_later (s := ⟨.literal start quote read escaped, n, ts⟩) _ _
  | halted => rfl

theorem finish_later : finish (s.later k) = (finish s).later k := by
  obtain ⟨m, n, ts⟩ := s
  cases m with
  | literal start quote read escaped => cases escaped <;> rfl
  | _ => rfl

theorem foldl_later : text.foldl step (s.later k) = (text.foldl step s).later k := by
  induction text generalizing s with
  | nil => rfl
  | cons c text ih =>
    have moved : step (s.later k) c = (step s c).later k := by
      rw [step, take_later]
      simp only [step, State.later, Nat.add_right_comm]
    rw [List.foldl_cons, List.foldl_cons, moved, ih]

/-- Where a text starts tells where its tokens stand, and nothing else about them. -/
theorem scan_later : scan (m.later k) (n + k) text = (scan m n text).map (Token.later k) := by
  have moved : text.foldl step ⟨m.later k, n + k, []⟩ =
      (text.foldl step ⟨m, n, []⟩).later k := foldl_later (s := ⟨m, n, []⟩)
  rw [scan, scan, moved, finish_later, State.later, List.map_reverse]

/-! ### A line feed between two texts -/

theorem openToken_not_halted : (openToken s c).mode ≠ .halted := by
  unfold openToken
  split_ifs <;> exact Mode.noConfusion

theorem inRegex_halted {escaped : Bool} (h : (inRegex s start read escaped c).mode = .halted) :
    ∃ t ∈ (inRegex s start read escaped c).tokens, Unusable t := by
  unfold inRegex at h ⊢
  split_ifs at h ⊢
  exact ⟨_, List.mem_cons_self, Or.inr ⟨_, rfl⟩⟩

theorem inLiteral_halted {quote : Char} {escaped : Bool}
    (h : (inLiteral s start quote read escaped c).mode = .halted) :
    ∃ t ∈ (inLiteral s start quote read escaped c).tokens, Unusable t := by
  unfold inLiteral at h ⊢
  split_ifs at h ⊢
  exact ⟨_, List.mem_cons_self, Or.inr ⟨_, rfl⟩⟩

/-- The lexer halts at a token that cannot be used. -/
theorem take_halted (hm : m ≠ .halted) (h : (take ⟨m, n, []⟩ c).mode = .halted) :
    ∃ t ∈ (take ⟨m, n, []⟩ c).tokens, Unusable t := by
  cases m with
  | gap => exact absurd h openToken_not_halted
  | slash start =>
    simp only [take] at h ⊢
    split_ifs at h ⊢
    exact inRegex_halted h
  | lineComment =>
    simp only [take] at h
    split_ifs at h
  | blockComment start star =>
    simp only [take] at h
    split_ifs at h
  | name start head read =>
    simp only [take] at h
    split_ifs at h
    exact absurd h openToken_not_halted
  | regex start read escaped => exact inRegex_halted h
  | flags start pattern read =>
    simp only [take] at h
    split_ifs at h
    exact absurd h openToken_not_halted
  | literal start quote read escaped => exact inLiteral_halted h
  | halted => exact absurd rfl hm

/-- A line feed ends whatever may be open at the end of a text whose tokens can be used. -/
theorem scan_feed (hm : m ≠ .halted) (usable : ∀ t ∈ scan m n [], ¬ Unusable t) :
    scan m n ('\n' :: text) = scan m n [] ++ scan .gap (n + 1) text := by
  have feed : scan .gap n ('\n' :: text) = scan .gap (n + 1) text := scan_blank rfl
  cases m with
  | gap => exact feed
  | lineComment =>
    rw [scan_cons]
    rfl
  | name start head read =>
    rw [scan_closed (t := ⟨head, start, n, .name read.reverse⟩) _ rfl, feed]
    · rfl
    · rintro _ ⟨⟩
      rfl
  | flags start pattern read =>
    rw [scan_closed (t := ⟨'/', start, n, .regex pattern read.reverse⟩) _ rfl, feed]
    · rfl
    · rintro _ ⟨⟩
      rfl
  | slash start => exact absurd (Or.inr ⟨_, rfl⟩) (usable _ List.mem_cons_self)
  | blockComment start star => exact absurd (Or.inl rfl) (usable _ List.mem_cons_self)
  | regex start read escaped => exact absurd (Or.inr ⟨_, rfl⟩) (usable _ List.mem_cons_self)
  | literal start quote read escaped =>
    cases escaped <;> exact absurd (Or.inr ⟨_, rfl⟩) (usable _ List.mem_cons_self)
  | halted => exact absurd rfl hm

/-- Behind a text whose tokens can be used, and a line feed, the tokens of the next text follow. -/
theorem scan_append {next : List Char} (hm : m ≠ .halted)
    (usable : ∀ t ∈ scan m n text, ¬ Unusable t) :
    scan m n (text ++ '\n' :: next) = scan m n text ++ scan .gap (n + text.length + 1) next := by
  induction text generalizing m n with
  | nil => exact scan_feed hm usable
  | cons c text ih =>
    rw [scan_cons] at usable
    have onward : (take ⟨m, n, []⟩ c).mode ≠ .halted := fun halted => by
      obtain ⟨t, ht, bad⟩ := take_halted hm halted
      exact usable t (List.mem_append_left _ (List.mem_reverse.mpr ht)) bad
    have others := ih onward fun t ht => usable t (List.mem_append_right _ ht)
    rw [List.cons_append, scan_cons, others, scan_cons m n c text, List.append_assoc,
      List.length_cons, Nat.add_right_comm n, Nat.add_assoc n]

end Lexer

open Lexer

/-- The tokens of a source that can be used, and behind a line feed those of another one. -/
theorem tokens_append {s₁ s₂ : List Char} (usable : ∀ t ∈ tokens s₁, ¬ Unusable t) :
    tokens (s₁ ++ '\n' :: s₂) = tokens s₁ ++ scan .gap (s₁.length + 1) s₂ := by
  have joined : scan .gap 0 (s₁ ++ '\n' :: s₂) =
      scan .gap 0 s₁ ++ scan .gap (0 + s₁.length + 1) s₂ := scan_append Mode.noConfusion usable
  rwa [Nat.zero_add] at joined

/-- The tokens of a source that starts later. -/
theorem scan_eq_map_tokens (k : Nat) (src : List Char) :
    scan .gap k src = (tokens src).map (Token.later k) := by
  have moved : scan (Mode.later k .gap) (0 + k) src = (scan .gap 0 src).map (Token.later k) :=
    scan_later
  rwa [Nat.zero_add] at moved

end OrderedGrammar.Notation
