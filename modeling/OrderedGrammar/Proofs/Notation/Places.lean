import OrderedGrammar.Proofs.Notation.Scan

/-!
Where the tokens of a source stand. Whatever the lexer is in the middle of was opened by a character
of the source, and a step keeps it so (`take_placed`). So every token stands in the source, with the
character that opens it where it starts (`tokens_placed`), and what a malformed token complains of
shows in the source too.
-/

namespace OrderedGrammar.Notation

/-- The token stands in the source. A name is spelled from where it starts, and a regex opens with a
slash. If the token is malformed, that shows in the source, and it is no fault of a pattern. -/
structure Token.Placed (src : List Char) (t : Token) : Prop where
  opens : src[t.start]? = some t.head
  stop : t.stop ≤ src.length
  name : ∀ w, t.lexeme = .name w → w <+: src.drop t.start
  regex : ∀ pattern flags, t.lexeme = .regex pattern flags → t.head = '/'
  malformed : ∀ e, t.lexeme = .malformed e →
    e.offset ≤ src.length ∧ ∀ fault, e.cause ≠ .badRegex fault

/-- A place where a character stands is in the source. -/
theorem le_of_opens {src : List Char} {n : Nat} {c : Char} (h : src[n]? = some c) :
    n ≤ src.length :=
  Nat.le_of_lt (List.getElem?_eq_some_iff.mp h).1

theorem Token.Placed.start_le {src : List Char} {t : Token} (h : t.Placed src) :
    t.start ≤ src.length :=
  le_of_opens h.opens

namespace Lexer

/-- What the lexer is in the middle of was opened by a character of the source, and the name that it
reads goes on with what is left. -/
def Mode.Placed (src left : List Char) : Mode → Prop
  | .slash start => src[start]? = some '/'
  | .blockComment start _ => src[start]? = some '/'
  | .name start head read => src[start]? = some head ∧ src.drop start = read.reverse ++ left
  | .regex start _ _ => src[start]? = some '/'
  | .flags start _ _ => src[start]? = some '/'
  | .literal start quote _ _ => src[start]? = some quote
  | _ => True

/-- What has been found stands in the source, and so does what the lexer is in the middle of. -/
structure State.Placed (src left : List Char) (s : State) : Prop where
  mode : s.mode.Placed src left
  tokens : ∀ t ∈ s.tokens, t.Placed src

variable {src left read pattern : List Char} {s : State} {c head : Char} {start n : Nat}

/-- The character that comes next stands in the source. -/
theorem next_of_drop (here : src.drop n = c :: left) : src[n]? = some c ∧ n < src.length := by
  have next : src[n]? = some c := by rw [← List.head?_drop, here, List.head?_cons]
  exact ⟨next, (List.getElem?_eq_some_iff.mp next).1⟩

/-! ### Tokens that are found -/

/-- A mark, a literal or a comment that is not closed has a place if it is opened in the source. -/
theorem placed_plain {stop : Nat} {l : Lexeme} (opens : src[start]? = some head)
    (hstop : stop ≤ src.length) (plain : l = .mark ∨ l = .openComment ∨ ∃ text, l = .literal text) :
    Token.Placed src ⟨head, start, stop, l⟩ := by
  rcases plain with rfl | rfl | ⟨text, rfl⟩ <;>
    exact ⟨opens, hstop, by rintro _ ⟨⟩, by rintro _ _ ⟨⟩, by rintro _ ⟨⟩⟩

theorem closeName_placed (found : ∀ t ∈ s.tokens, t.Placed src) (opens : src[start]? = some head)
    (spelled : src.drop start = read.reverse ++ left) (inside : s.offset ≤ src.length) :
    ∀ t ∈ (closeName s start head read).tokens, t.Placed src := by
  refine List.forall_mem_cons.mpr ⟨⟨opens, inside, ?_, by rintro _ _ ⟨⟩, by rintro _ ⟨⟩⟩, found⟩
  rintro _ ⟨⟩
  exact ⟨left, spelled.symm⟩

theorem closeFlags_placed (found : ∀ t ∈ s.tokens, t.Placed src) (opens : src[start]? = some '/')
    (inside : s.offset ≤ src.length) :
    ∀ t ∈ (closeFlags s start pattern read).tokens, t.Placed src :=
  List.forall_mem_cons.mpr
    ⟨⟨opens, inside, by rintro _ ⟨⟩, by rintro _ _ ⟨⟩; rfl, by rintro _ ⟨⟩⟩, found⟩

theorem halt_placed {cause : Cause} {offset : Nat} (found : ∀ t ∈ s.tokens, t.Placed src)
    (opens : src[start]? = some head) (inside : s.offset ≤ src.length) (shows : offset ≤ src.length)
    (lexical : ∀ fault, cause ≠ .badRegex fault) :
    ∀ t ∈ (halt s head start cause offset).tokens, t.Placed src := by
  refine List.forall_mem_cons.mpr ⟨⟨opens, inside, by rintro _ ⟨⟩, by rintro _ _ ⟨⟩, ?_⟩, found⟩
  rintro _ ⟨⟩
  exact ⟨shows, lexical⟩

/-! ### Steps -/

theorem openToken_placed (found : ∀ t ∈ s.tokens, t.Placed src)
    (here : src.drop s.offset = c :: left) : (openToken s c).Placed src left := by
  obtain ⟨next, inside⟩ := next_of_drop here
  unfold openToken
  split_ifs with blank hash slash quote name
  · exact ⟨trivial, found⟩
  · exact ⟨trivial, found⟩
  · have opens : src[s.offset]? = some '/' := slash ▸ next
    exact ⟨opens, found⟩
  · exact ⟨next, found⟩
  · exact ⟨⟨next, here⟩, found⟩
  · exact ⟨trivial, List.forall_mem_cons.mpr ⟨placed_plain next inside (Or.inl rfl), found⟩⟩

theorem inRegex_placed (found : ∀ t ∈ s.tokens, t.Placed src) (opens : src[start]? = some '/')
    (inside : s.offset ≤ src.length) (escaped : Bool) :
    (inRegex s start read escaped c).Placed src left := by
  unfold inRegex
  split_ifs
  · exact ⟨opens, found⟩
  · exact ⟨trivial, halt_placed found opens inside (le_of_opens opens) (by simp)⟩
  · exact ⟨opens, found⟩
  · exact ⟨opens, found⟩
  · exact ⟨opens, found⟩

theorem inLiteral_placed {quote : Char} (found : ∀ t ∈ s.tokens, t.Placed src)
    (opens : src[start]? = some quote) (inside : s.offset < src.length) (escaped : Bool) :
    (inLiteral s start quote read escaped c).Placed src left := by
  unfold inLiteral
  split_ifs
  · exact ⟨opens, found⟩
  · exact ⟨trivial, halt_placed found opens (Nat.le_of_lt inside) (le_of_opens opens) (by simp)⟩
  · refine ⟨trivial, List.forall_mem_cons.mpr ⟨?_, found⟩⟩
    exact placed_plain opens inside (Or.inr (Or.inr ⟨_, rfl⟩))
  · exact ⟨opens, found⟩
  · exact ⟨opens, found⟩

/-- Taking the character that comes next keeps everything in its place. -/
theorem take_placed (h : s.Placed src (c :: left)) (here : src.drop s.offset = c :: left) :
    (take s c).Placed src left := by
  obtain ⟨mode, found⟩ := h
  obtain ⟨next, inside⟩ := next_of_drop here
  obtain ⟨m, n, ts⟩ := s
  cases m with
  | gap => exact openToken_placed found here
  | slash start =>
    simp only [take]
    split_ifs
    · exact ⟨trivial, found⟩
    · exact ⟨mode, found⟩
    · exact inRegex_placed found mode (Nat.le_of_lt inside) _
  | lineComment =>
    simp only [take]
    split_ifs <;> exact ⟨trivial, found⟩
  | blockComment start star =>
    simp only [take]
    split_ifs
    · exact ⟨trivial, found⟩
    · exact ⟨mode, found⟩
  | name start head read =>
    obtain ⟨opens, spelled⟩ := mode
    simp only [take]
    split_ifs
    · exact ⟨⟨opens, by rw [spelled, List.reverse_cons, List.append_assoc]; rfl⟩, found⟩
    · exact openToken_placed (closeName_placed found opens spelled (Nat.le_of_lt inside)) here
  | regex start read escaped => exact inRegex_placed found mode (Nat.le_of_lt inside) _
  | flags start pattern read =>
    simp only [take]
    split_ifs
    · exact ⟨mode, found⟩
    · exact openToken_placed (closeFlags_placed found mode (Nat.le_of_lt inside)) here
  | literal start quote read escaped => exact inLiteral_placed found mode inside _
  | halted => exact ⟨trivial, found⟩

/-- At the end of the source everything that is found has its place. -/
theorem finish_placed (h : s.Placed src []) (ended : s.offset = src.length) :
    ∀ t ∈ (finish s).tokens, t.Placed src := by
  obtain ⟨mode, found⟩ := h
  obtain ⟨m, n, ts⟩ := s
  have inside : n ≤ src.length := Nat.le_of_eq ended
  cases m with
  | slash start => exact halt_placed found mode inside (le_of_opens mode) (by simp)
  | blockComment start star =>
    exact List.forall_mem_cons.mpr ⟨placed_plain mode inside (Or.inr (Or.inl rfl)), found⟩
  | name start head read => exact closeName_placed found mode.1 mode.2 inside
  | regex start read escaped => exact halt_placed found mode inside (le_of_opens mode) (by simp)
  | flags start pattern read => exact closeFlags_placed found mode inside
  | literal start quote read escaped =>
    cases escaped with
    | false => exact halt_placed found mode inside (le_of_opens mode) (by simp)
    | true => exact halt_placed found mode inside inside (by simp)
  | _ => exact found

/-- Reading what is left goes to the end of the source and keeps everything in its place. -/
theorem foldl_placed (h : s.Placed src left) (here : src.drop s.offset = left)
    (inside : s.offset ≤ src.length) :
    (left.foldl step s).Placed src [] ∧ (left.foldl step s).offset = src.length := by
  induction left generalizing s with
  | nil => exact ⟨h, Nat.le_antisymm inside (List.drop_eq_nil_iff.mp here)⟩
  | cons c left ih =>
    have moved : (step s c).offset = s.offset + 1 := congrArg (· + 1) (take_offset s c)
    have onward : src.drop (step s c).offset = left := by
      rw [moved, ← List.drop_drop, here, List.drop_one, List.tail_cons]
    obtain ⟨mode, found⟩ := take_placed h here
    exact ih ⟨mode, found⟩ onward (moved ▸ Nat.succ_le_of_lt (next_of_drop here).2)

end Lexer

/-- The tokens of a source stand in it. -/
theorem tokens_placed {src : List Char} : ∀ t ∈ tokens src, t.Placed src := by
  have start : Lexer.State.Placed src src Lexer.start := ⟨trivial, by rintro _ ⟨⟩⟩
  obtain ⟨placed, ended⟩ := Lexer.foldl_placed start rfl (Nat.zero_le _)
  intro t ht
  exact Lexer.finish_placed placed ended t (List.mem_reverse.mp ht)

end OrderedGrammar.Notation
