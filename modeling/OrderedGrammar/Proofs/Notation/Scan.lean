import OrderedGrammar.Proofs.Notation.Spelling

/-!
What the lexer makes of a text. `scan m n s` are the tokens that come from the characters `s` at the
offset `n` when the lexer is in the mode `m`; tokens found before do not matter. From between two
tokens the lexer passes over the gap and comes back with the token that the text begins with
(`scan_gap`, `scan_begins`), or it finds nothing but a token that cannot be used
(`usable_or_fruitless`).
-/

namespace OrderedGrammar.Notation.Lexer

open OrderedGrammar.Text

/-! ### One character after the other -/

/-- The same state with tokens found before. -/
def State.over (s : State) (ts : List Token) : State := { s with tokens := s.tokens ++ ts }

theorem openToken_over (m : Mode) (n : Nat) (ts : List Token) (c : Char) :
    openToken ⟨m, n, ts⟩ c = (openToken ⟨.gap, n, []⟩ c).over ts := by
  unfold openToken State.over
  split_ifs <;> rfl

theorem inRegex_over (s : State) (ts : List Token) (start : Nat) (read : List Char)
    (escaped : Bool) (c : Char) :
    inRegex (s.over ts) start read escaped c = (inRegex s start read escaped c).over ts := by
  unfold inRegex halt State.over
  split_ifs <;> rfl

theorem inLiteral_over (s : State) (ts : List Token) (start : Nat) (q : Char) (read : List Char)
    (escaped : Bool) (c : Char) :
    inLiteral (s.over ts) start q read escaped c =
      (inLiteral s start q read escaped c).over ts := by
  unfold inLiteral halt State.over
  split_ifs <;> rfl

/-- A step does not look at the tokens found before. -/
theorem take_over (m : Mode) (n : Nat) (ts : List Token) (c : Char) :
    take ⟨m, n, ts⟩ c = (take ⟨m, n, []⟩ c).over ts := by
  have regex := inRegex_over ⟨m, n, []⟩ ts
  have literal := inLiteral_over ⟨m, n, []⟩ ts
  cases m with
  | gap => exact openToken_over _ _ _ _
  | slash start =>
    simp only [take]
    split_ifs
    · rfl
    · rfl
    · exact regex _ _ _ _
  | lineComment => simp only [take]; split_ifs <;> rfl
  | blockComment start star => simp only [take]; split_ifs <;> rfl
  | name start head read =>
    simp only [take]
    split_ifs
    · rfl
    · rw [closeName, closeName, openToken_over, openToken_over _ _ [_]]
      simp [State.over]
  | regex start read escaped => exact regex _ _ _ _
  | flags start pattern read =>
    simp only [take]
    split_ifs
    · rfl
    · rw [closeFlags, closeFlags, openToken_over, openToken_over _ _ [_]]
      simp [State.over]
  | literal start q read escaped => exact literal _ _ _ _ _
  | halted => rfl

theorem finish_over (s : State) (ts : List Token) :
    (finish (s.over ts)).tokens = (finish s).tokens ++ ts := by
  obtain ⟨m, n, us⟩ := s
  cases m with
  | literal start q read escaped => cases escaped <;> rfl
  | _ => rfl

theorem step_over (s : State) (ts : List Token) (c : Char) :
    step (s.over ts) c = (step s c).over ts := by
  obtain ⟨m, n, us⟩ := s
  simp only [step, State.over]
  rw [take_over, take_over _ _ us]
  simp [State.over]

theorem foldl_over (s : State) (ts : List Token) (chars : List Char) :
    chars.foldl step (s.over ts) = (chars.foldl step s).over ts := by
  induction chars generalizing s with
  | nil => rfl
  | cons c chars ih => rw [List.foldl_cons, List.foldl_cons, step_over, ih]

/-- The tokens that come from characters at an offset when the lexer is in a mode. -/
def scan (m : Mode) (n : Nat) (s : List Char) : List Token :=
  (finish (s.foldl step ⟨m, n, []⟩)).tokens.reverse

/-- Taking a character does not move on by itself. -/
theorem take_offset (s : State) (c : Char) : (take s c).offset = s.offset := by
  have opened (s : State) : (openToken s c).offset = s.offset := by
    unfold openToken
    split_ifs <;> rfl
  have regex (start : Nat) (read : List Char) (escaped : Bool) :
      (inRegex s start read escaped c).offset = s.offset := by
    unfold inRegex halt
    split_ifs <;> rfl
  obtain ⟨m, n, ts⟩ := s
  cases m with
  | gap => exact opened _
  | slash start => simp only [take]; split_ifs <;> first | rfl | exact regex _ _ _
  | lineComment => simp only [take]; split_ifs <;> rfl
  | blockComment start star => simp only [take]; split_ifs <;> rfl
  | name start head read => simp only [take]; split_ifs <;> first | rfl | exact opened _
  | regex start read escaped => exact regex _ _ _
  | flags start pattern read => simp only [take]; split_ifs <;> first | rfl | exact opened _
  | literal start q read escaped =>
    simp only [take, inLiteral, halt]
    split_ifs <;> rfl
  | halted => rfl

/-- A character gives the tokens that it closes, and the mode for the characters after it. -/
theorem scan_cons (m : Mode) (n : Nat) (c : Char) (s : List Char) :
    scan m n (c :: s) = (take ⟨m, n, []⟩ c).tokens.reverse ++
      scan (take ⟨m, n, []⟩ c).mode (n + 1) s := by
  have first : step ⟨m, n, []⟩ c = State.over ⟨(take ⟨m, n, []⟩ c).mode, n + 1, []⟩
      (take ⟨m, n, []⟩ c).tokens := by
    simp only [step, State.over, take_offset, List.nil_append]
  rw [scan, List.foldl_cons, first, foldl_over, finish_over, List.reverse_append]
  rfl

variable {n m start : Nat} {c : Char} {s r read : List Char}

/-! ### Gaps -/

theorem scan_blank (hc : isGap c) : scan .gap n (c :: s) = scan .gap (n + 1) s := by
  rw [scan_cons]
  simp [take, openToken, hc]

theorem scan_hash : scan .gap n ('#' :: s) = scan .lineComment (n + 1) s := by
  rw [scan_cons]
  rfl

theorem scan_slash : scan .gap n ('/' :: s) = scan (.slash n) (n + 1) s := by
  rw [scan_cons]
  rfl

/-- A line comment goes up to the end of its line. -/
theorem scan_lineComment (h : n + s.length = m + (afterLine s).length) :
    scan .lineComment n s = scan .gap m (afterLine s) := by
  induction s generalizing n with
  | nil =>
    obtain rfl : n = m := by simpa [afterLine] using h
    rfl
  | cons c s ih =>
    by_cases hc : c = '\n'
    · subst hc
      obtain rfl : n = m := by simpa [afterLine] using h
      rw [show afterLine ('\n' :: s) = '\n' :: s from rfl, scan_blank rfl, scan_cons]
      rfl
    · have after : afterLine (c :: s) = afterLine s := by
        rw [afterLine, List.dropWhile_cons_of_pos (by simpa using hc), afterLine]
      rw [after] at h ⊢
      rw [scan_cons, ← ih (n := n + 1) (by simp only [List.length_cons] at h; omega)]
      simp [take, hc]

/-- A block comment that has just seen an asterisk goes on as any other if no slash follows. -/
theorem scan_blockComment_star (hs : s.head? ≠ some '/') :
    scan (.blockComment start true) n s = scan (.blockComment start false) n s := by
  cases s with
  | nil => rfl
  | cons c s =>
    have hc : c ≠ '/' := by simpa using hs
    rw [scan_cons, scan_cons]
    simp [take, hc]

theorem scan_blockComment_skip (hc : ¬ ['*', '/'] <+: c :: s) :
    scan (.blockComment start false) n (c :: s) = scan (.blockComment start false) (n + 1) s := by
  rw [scan_cons]
  by_cases star : c = '*'
  · subst star
    refine scan_blockComment_star fun hs => hc ?_
    obtain ⟨s, rfl⟩ := List.head?_eq_some_iff.mp hs
    exact ⟨s, rfl⟩
  · simp [take, beq_eq_false_iff_ne.mpr star]

/-- A block comment goes up to its first end. -/
theorem scan_blockComment (h : PastClose s r) (hn : n + s.length = m + r.length) :
    scan (.blockComment start false) n s = scan .gap m r := by
  induction h generalizing n with
  | @close r =>
    obtain rfl : n + 2 = m := by simp only [List.length_cons] at hn; omega
    rw [scan_cons, scan_cons]
    rfl
  | skip hc _ ih =>
    rw [scan_blockComment_skip hc]
    exact ih (by simp only [List.length_cons] at hn; omega)

/-- The lexer passes over blanks and complete comments. -/
theorem scan_filler (h : Filler s r) (hn : n + s.length = m + r.length) :
    scan .gap n s = scan .gap m r := by
  cases h with
  | blank hc =>
    rw [scan_blank hc]
    exact congrArg (scan .gap · r) (by simp only [List.length_cons] at hn; omega)
  | hashComment =>
    rw [scan_hash]
    exact scan_lineComment (by simp only [List.length_cons] at hn; omega)
  | @slashComment s =>
    have line : scan (.slash n) (n + 1) ('/' :: s) = scan .lineComment (n + 2) s := by
      rw [scan_cons]
      rfl
    rw [scan_slash, line]
    exact scan_lineComment (by simp only [List.length_cons] at hn; omega)
  | @blockComment s r h =>
    have block : scan (.slash n) (n + 1) ('*' :: s) = scan (.blockComment n false) (n + 2) s := by
      rw [scan_cons]
      rfl
    rw [scan_slash, block]
    exact scan_blockComment h (by simp only [List.length_cons] at hn; omega)

/-- The lexer passes over a gap. -/
theorem scan_gap (h : Gap s r) (hn : n + s.length = m + r.length) :
    scan .gap n s = scan .gap m r := by
  induction h generalizing n with
  | done => rw [Nat.add_right_cancel hn]
  | @more s t r h hr ih =>
    have := h.length_lt
    rw [scan_filler h (m := n + (s.length - t.length)) (by omega)]
    exact ih (by omega)

/-! ### Tokens -/

/-- A token that ends where a character stands that does not belong to it. -/
theorem scan_closed {mode : Mode} {t : Token}
    (opens : ∀ c ∈ s.head?, take ⟨mode, n, []⟩ c = openToken ⟨.gap, n, [t]⟩ c)
    (finished : (finish ⟨mode, n, []⟩).tokens = [t]) :
    scan mode n s = t :: scan .gap n s := by
  cases s with
  | nil =>
    rw [scan, List.foldl_nil, finished]
    rfl
  | cons c s =>
    have closed := opens c rfl
    rw [openToken_over] at closed
    rw [scan_cons, closed, scan_cons]
    simp [State.over, take]

theorem scan_name {head : Char} {w : List Char} (hw : w.all continuesName)
    (hr : EndsRun continuesName r) (hn : n + w.length = m) :
    scan (.name start head read) n (w ++ r) =
      ⟨head, start, m, .name (read.reverse ++ w)⟩ :: scan .gap m r := by
  induction w generalizing n read with
  | nil =>
    obtain rfl : n = m := hn
    refine scan_closed (fun c hc => ?_) ?_
    · simp [take, hr c hc, closeName]
    · simp [finish, closeName]
  | cons c w ih =>
    obtain ⟨hc, hw⟩ := by simpa using hw
    rw [List.cons_append, scan_cons]
    simp only [take, hc, if_true, List.reverse_nil, List.nil_append]
    rw [ih (by simpa using hw) (by simp only [List.length_cons] at hn; omega)]
    simp

theorem scan_flags {pattern w : List Char} (hw : w.all isFlag) (hr : EndsRun isFlag r)
    (hn : n + w.length = m) : scan (.flags start pattern read) n (w ++ r) =
      ⟨'/', start, m, .regex pattern (read.reverse ++ w)⟩ :: scan .gap m r := by
  induction w generalizing n read with
  | nil =>
    obtain rfl : n = m := hn
    refine scan_closed (fun c hc => ?_) ?_
    · simp [take, hr c hc, closeFlags]
    · simp [finish, closeFlags]
  | cons c w ih =>
    obtain ⟨hc, hw⟩ := by simpa using hw
    rw [List.cons_append, scan_cons]
    simp only [take, hc, if_true, List.reverse_nil, List.nil_append]
    rw [ih (by simpa using hw) (by simp only [List.length_cons] at hn; omega)]
    simp

/-- The lexer stays in a regex for as long as its text goes on. -/
theorem scan_regexText {pattern : List Char} (h : RegexText pattern) :
    scan (.regex start read false) n (pattern ++ s) =
      scan (.regex start (pattern.reverse ++ read) false) (n + pattern.length) s := by
  induction h generalizing n read with
  | nil => rfl
  | plain hc _ ih =>
    rw [List.cons_append, scan_cons]
    simp only [take, inRegex, hc.1, hc.2.1, hc.2.2, if_false, Bool.false_eq_true, List.reverse_nil,
      List.nil_append]
    rw [ih, List.reverse_cons, List.append_assoc, List.length_cons, Nat.add_right_comm]
    rfl
  | escaped _ ih =>
    rw [List.cons_append, List.cons_append, scan_cons, scan_cons]
    simp only [take, inRegex, if_false, if_true, Bool.false_eq_true, List.reverse_nil,
      List.nil_append, (by decide : '\\' ≠ '\n')]
    rw [ih]
    simp [Nat.add_comm, Nat.add_left_comm]

theorem scan_regex {pattern : List Char} (h : RegexText pattern) (hn : n + pattern.length + 1 = m) :
    scan (.regex start read false) n (pattern ++ '/' :: r) =
      scan (.flags start (read.reverse ++ pattern) []) m r := by
  rw [scan_regexText h, scan_cons, hn]
  simp [take, inRegex]

theorem scan_literal {q : Char} {spelling text : List Char} (h : Spelled q spelling text)
    (hne : read.reverse ++ text ≠ []) (hq : q ≠ '\\') (hn : n + spelling.length + 1 = m) :
    scan (.literal start q read false) n (spelling ++ q :: r) =
      ⟨q, start, m, .literal (read.reverse ++ text)⟩ :: scan .gap m r := by
  induction h generalizing n read with
  | nil =>
    obtain rfl : n + 1 = m := hn
    have hr : read.isEmpty = false := by simpa using hne
    rw [List.nil_append, scan_cons]
    simp [take, inLiteral, hr]
  | plain hc _ ih =>
    rw [List.cons_append, scan_cons]
    simp only [take, inLiteral, hc.1, hc.2, if_false, Bool.false_eq_true, List.reverse_nil,
      List.nil_append]
    rw [ih (by simp) (by simp only [List.length_cons] at hn; omega)]
    simp
  | escaped _ ih =>
    rw [List.cons_append, List.cons_append, scan_cons, scan_cons]
    simp only [take, inLiteral, if_false, if_true, Bool.false_eq_true, List.reverse_nil,
      List.nil_append, hq.symm]
    rw [ih (by simp) (by simp only [List.length_cons] at hn; omega)]
    simp

/-- A regex is read where neither kind of comment is opened. -/
theorem scan_slash_regex (hc : c ≠ '/' ∧ c ≠ '*') :
    scan (.slash start) n (c :: s) = scan (.regex start [] false) n (c :: s) := by
  rw [scan_cons, scan_cons]
  simp only [take, hc.1, hc.2, if_false, inRegex, halt]

/-- Characters that open names open nothing else. -/
theorem opensName_only (hc : opensName c) :
    isGap c = false ∧ c ≠ '#' ∧ c ≠ '/' ∧ ¬ (c = '\'' ∨ c = '"') := by
  have other (d : Char) (hd : opensName d = false) : c ≠ d := by
    rintro rfl
    rw [hc] at hd
    cases hd
  refine ⟨?_, other _ rfl, other _ rfl, ?_⟩
  · simp [isGap, other ' ' rfl, other '\t' rfl, other '\r' rfl, other '\n' rfl]
  · simp [other '\'' rfl, other '"' rfl]

theorem scan_opensName (hc : opensName c) :
    scan .gap n (c :: s) = scan (.name n c [c]) (n + 1) s := by
  obtain ⟨hg, hh, hs, hq⟩ := opensName_only hc
  rw [scan_cons]
  simp [take, openToken, hg, hh, hs, hq, hc]

theorem scan_quote (hc : c = '\'' ∨ c = '"') :
    scan .gap n (c :: s) = scan (.literal n c [] false) (n + 1) s := by
  rw [scan_cons]
  rcases hc with rfl | rfl <;> rfl

theorem scan_mark (hc : isMark c) :
    scan .gap n (c :: s) = ⟨c, n, n + 1, .mark⟩ :: scan .gap (n + 1) s := by
  simp only [isMark, Bool.not_eq_true', Bool.or_eq_false_iff, beq_eq_false_iff_ne] at hc
  obtain ⟨⟨⟨⟨⟨hg, hh⟩, hs⟩, hq⟩, hd⟩, hn⟩ := hc
  rw [scan_cons]
  simp [take, openToken, hg, hh, hs, hq, hd, hn]

/-- The lexer finds the token that a text begins with. -/
theorem scan_begins {l : Lexeme} (h : Begins s l r) (hn : n + s.length = m + r.length) :
    scan .gap n s = ⟨s.headD ' ', n, m, l⟩ :: scan .gap m r := by
  cases h with
  | @name w r hw hr =>
    cases w with
    | nil => simp [isName] at hw
    | cons c w =>
      obtain ⟨hc, hw⟩ := by simpa only [isName, Bool.and_eq_true] using hw
      simp only [List.cons_append, List.length_cons, List.length_append] at hn
      rw [List.cons_append, scan_opensName hc, scan_name hw hr (m := m) (by omega)]
      rfl
  | @regex pattern flags r hp opens hf hr =>
    simp only [List.length_cons, List.length_append] at hn
    have read : scan (.slash n) (n + 1) (pattern ++ '/' :: (flags ++ r)) =
        scan (.regex n [] false) (n + 1) (pattern ++ '/' :: (flags ++ r)) := by
      cases hp with
      | nil => exact absurd rfl opens.1
      | plain hc _ => exact scan_slash_regex ⟨hc.2.1, by simpa using opens.2⟩
      | escaped _ => exact scan_slash_regex (by decide)
    rw [scan_slash, read, scan_regex hp rfl, scan_flags hf hr (m := m) (by omega)]
    rfl
  | @literal q spelling text r hq hs hne =>
    simp only [List.length_cons, List.length_append] at hn
    have backslash : q ≠ '\\' := by rcases hq with rfl | rfl <;> decide
    rw [scan_quote hq, scan_literal hs (by simpa using hne) backslash (m := m) (by omega)]
    rfl
  | mark hc =>
    obtain rfl : n + 1 = m := by simp only [List.length_cons] at hn; omega
    exact scan_mark hc

/-! ### What cannot be used -/

/-- A token that cannot be used: it is malformed, or a comment that is not closed. -/
def Unusable (t : Token) : Prop := t.lexeme = .openComment ∨ ∃ e, t.lexeme = .malformed e

/-- Nothing but a token that cannot be used. -/
def Fruitless (ts : List Token) : Prop := ∃ t, Unusable t ∧ ts = [t]

theorem scan_halted : scan .halted n s = [] := by
  induction s generalizing n with
  | nil => rfl
  | cons c s ih =>
    rw [scan_cons]
    exact ih

/-- Every block comment ends, or is fruitless. -/
theorem blockComment_cases (s : List Char) : (∃ r, PastClose s r) ∨
    ∀ start n, Fruitless (scan (.blockComment start false) n s) := by
  induction s with
  | nil => exact Or.inr fun start n => ⟨_, Or.inl rfl, rfl⟩
  | cons c s ih =>
    by_cases hc : ['*', '/'] <+: c :: s
    · obtain ⟨r, hr⟩ := hc
      exact Or.inl ⟨r, hr ▸ .close⟩
    · rcases ih with ⟨r, hr⟩ | ih
      · exact Or.inl ⟨r, .skip hc hr⟩
      · refine Or.inr fun start n => ?_
        rw [scan_blockComment_skip hc]
        exact ih _ _

/-- Every regex ends, or is fruitless. -/
theorem regex_cases (s : List Char) : (∃ p r, RegexText p ∧ s = p ++ '/' :: r) ∨
    ∀ start read n, Fruitless (scan (.regex start read false) n s) := by
  match s with
  | [] => exact Or.inr fun start read n => ⟨_, Or.inr ⟨_, rfl⟩, rfl⟩
  | c :: s =>
    by_cases backslash : c = '\\'
    · subst backslash
      match s with
      | [] => exact Or.inr fun start read n => ⟨_, Or.inr ⟨_, rfl⟩, rfl⟩
      | c :: s =>
        rcases regex_cases s with ⟨p, r, hp, rfl⟩ | h
        · exact Or.inl ⟨_, r, .escaped hp, rfl⟩
        · refine Or.inr fun start read n => ?_
          rw [scan_cons, scan_cons]
          exact h _ _ _
    · by_cases slash : c = '/'
      · exact Or.inl ⟨[], s, .nil, by rw [slash]; rfl⟩
      · by_cases feed : c = '\n'
        · refine Or.inr fun start read n => ?_
          rw [feed, scan_cons]
          simp only [take, inRegex, Bool.false_eq_true, if_false, if_true, halt, scan_halted]
          exact ⟨_, Or.inr ⟨_, rfl⟩, rfl⟩
        · rcases regex_cases s with ⟨p, r, hp, rfl⟩ | h
          · exact Or.inl ⟨_, r, .plain ⟨backslash, slash, feed⟩ hp, rfl⟩
          · refine Or.inr fun start read n => ?_
            rw [scan_cons]
            simp only [take, inRegex, Bool.false_eq_true, if_false, backslash, slash, feed]
            exact h _ _ _

/-- Every literal ends, or is fruitless. -/
theorem literal_cases (q : Char) (s : List Char) :
    (∃ spelling text r, Spelled q spelling text ∧ s = spelling ++ q :: r) ∨
      ∀ start read n, Fruitless (scan (.literal start q read false) n s) := by
  match s with
  | [] => exact Or.inr fun start read n => ⟨_, Or.inr ⟨_, rfl⟩, rfl⟩
  | c :: s =>
    by_cases quote : c = q
    · exact Or.inl ⟨[], [], s, .nil, by rw [quote]; rfl⟩
    · by_cases backslash : c = '\\'
      · subst backslash
        match s with
        | [] =>
          refine Or.inr fun start read n => ?_
          rw [scan_cons]
          simp only [take, inLiteral, Bool.false_eq_true, if_false, if_true, quote]
          exact ⟨_, Or.inr ⟨_, rfl⟩, rfl⟩
        | c :: s =>
          rcases literal_cases q s with ⟨spelling, text, r, hs, rfl⟩ | h
          · exact Or.inl ⟨_, _, r, .escaped hs, rfl⟩
          · refine Or.inr fun start read n => ?_
            rw [scan_cons, scan_cons]
            simp only [take, inLiteral, Bool.false_eq_true, if_false, if_true, quote]
            exact h _ _ _
      · rcases literal_cases q s with ⟨spelling, text, r, hs, rfl⟩ | h
        · exact Or.inl ⟨_, _, r, .plain ⟨backslash, quote⟩ hs, rfl⟩
        · refine Or.inr fun start read n => ?_
          rw [scan_cons]
          simp only [take, inLiteral, Bool.false_eq_true, if_false, quote, backslash]
          exact h _ _ _

/-- A run of characters of a class goes up to where it ends. -/
theorem exists_run (p : Char → Bool) (s : List Char) :
    ∃ w r, s = w ++ r ∧ w.all p ∧ EndsRun p r := by
  refine ⟨s.takeWhile p, s.dropWhile p, List.takeWhile_append_dropWhile.symm, by simp, ?_⟩
  intro c hc
  rw [← List.find?_not_eq_head?_dropWhile] at hc
  simpa using List.find?_some hc

/-- What opens a gap is a blank or a complete comment, or it is fruitless. -/
theorem filler_cases (h : opensGap s) :
    (∃ t, Filler s t) ∨ ∀ n, Fruitless (scan .gap n s) := by
  unfold opensGap at h
  split at h
  · exact Or.inl ⟨_, .slashComment⟩
  · next s =>
    rcases blockComment_cases s with ⟨r, hr⟩ | h
    · exact Or.inl ⟨r, .blockComment hr⟩
    · refine Or.inr fun n => ?_
      rw [scan_slash, scan_cons]
      exact h _ _
  · next c s _ _ =>
    simp only [Bool.or_eq_true, beq_iff_eq] at h
    rcases h with hc | rfl
    · exact Or.inl ⟨s, .blank hc⟩
    · exact Or.inl ⟨_, .hashComment⟩
  · cases h

/-- Where no gap is opened the text begins with a token, or it is fruitless. -/
theorem token_cases (hc : opensGap (c :: s) = false) :
    (∃ l r, Begins (c :: s) l r) ∨ ∀ n, Fruitless (scan .gap n (c :: s)) := by
  by_cases slash : c = '/'
  · subst slash
    cases s with
    | nil => exact Or.inr fun n => ⟨_, Or.inr ⟨_, rfl⟩, rfl⟩
    | cons d s =>
      have hd : d ≠ '/' ∧ d ≠ '*' := by
        constructor <;> rintro rfl <;> cases hc
      rcases regex_cases (d :: s) with ⟨p, r, hp, hs⟩ | h
      · obtain ⟨w, r, rfl, hw, hr⟩ := exists_run isFlag r
        have opens : p ≠ [] ∧ p.head? ≠ some '*' := by
          cases p with
          | nil => exact absurd (List.cons.inj hs).1 hd.1
          | cons e p =>
            obtain rfl := (List.cons.inj hs).1
            simpa using hd.2
        rw [hs]
        exact Or.inl ⟨_, r, .regex hp opens hw hr⟩
      · refine Or.inr fun n => ?_
        rw [scan_slash, scan_slash_regex hd]
        exact h _ _ _
  · by_cases quote : c = '\'' ∨ c = '"'
    · rcases literal_cases c s with ⟨spelling, text, r, hs, rfl⟩ | h
      · by_cases hne : text = []
        · subst hne
          cases hs
          refine Or.inr fun n => ?_
          rw [scan_quote quote, List.nil_append, scan_cons]
          simp only [take, inLiteral, Bool.false_eq_true, if_false, if_true, List.isEmpty_nil, halt,
            scan_halted]
          exact ⟨_, Or.inr ⟨_, rfl⟩, rfl⟩
        · exact Or.inl ⟨_, r, .literal quote hs hne⟩
      · refine Or.inr fun n => ?_
        rw [scan_quote quote]
        exact h _ _ _
    · by_cases name : opensName c
      · obtain ⟨w, r, rfl, hw, hr⟩ := exists_run continuesName s
        exact Or.inl ⟨_, r, .name (w := c :: w) (by rw [isName, name, hw]; rfl) hr⟩
      · have blank : (isGap c || c == '#') = false := by simpa [opensGap, slash] using hc
        refine Or.inl ⟨.mark, s, .mark ?_⟩
        simp_all [isMark]

/-- Behind its gap the text ends, or it begins with a token. -/
def Usable (s : List Char) : Prop := Gap s [] ∨ ∃ s' l r, Gap s s' ∧ Begins s' l r

/-- Every text is usable or fruitless. -/
theorem usable_or_fruitless (s : List Char) : Usable s ∨ ∀ n, Fruitless (scan .gap n s) := by
  induction hlen : s.length using Nat.strong_induction_on generalizing s with
  | _ len ih =>
    by_cases opens : opensGap s
    · rcases filler_cases opens with ⟨t, ht⟩ | h
      · have := ht.length_lt
        rcases ih _ (by omega) t rfl with (h | ⟨s', l, r, hg, hb⟩) | h
        · exact Or.inl (Or.inl (.more ht h))
        · exact Or.inl (Or.inr ⟨s', l, r, .more ht hg, hb⟩)
        · refine Or.inr fun n => ?_
          rw [scan_filler ht (m := n + (s.length - t.length)) (by omega)]
          exact h _
      · exact Or.inr h
    · have none : opensGap s = false := by simpa using opens
      cases s with
      | nil => exact Or.inl (Or.inl (.done rfl))
      | cons c s =>
        rcases token_cases none with ⟨l, r, hb⟩ | h
        · exact Or.inl (Or.inr ⟨_, l, r, .done none, hb⟩)
        · exact Or.inr h

end OrderedGrammar.Notation.Lexer
