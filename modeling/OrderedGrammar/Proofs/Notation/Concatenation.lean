import OrderedGrammar.Proofs.Grammar.References
import OrderedGrammar.Proofs.Notation.Joined
import OrderedGrammar.Proofs.Notation.Places
import OrderedGrammar.Proofs.Notation.Reading
import OrderedGrammar.Proofs.Pattern.Lawful

/-!
Two sources with a line feed between them. Among rules the reader looks at the rules before only
when it completes one, to see whether the name is new (`step_advance`). So the second source adds
its rules to those of the first, up to the first one whose name is taken (`read_joined`).
-/

namespace OrderedGrammar.Notation

/-! ### Heads of rules -/

/-- The name that a token is, and where it stands. -/
def Token.named (t : Token) : Option (String × Nat) :=
  match t.lexeme with
  | .name w => some (String.ofList w, t.start)
  | _ => none

/-- The names directly before a colon, where `last` is the name before the tokens if there is one.
-/
def headsAfter (last : Option (String × Nat)) : List Token → List (String × Nat)
  | [] => []
  | t :: ts =>
    (if t.lexeme = .mark ∧ t.head = ':' then last.toList else []) ++ headsAfter t.named ts

/-- The heads of the rules of a source, names before colons, and where they stand. -/
def ruleHeads (src : String) : List (String × Nat) := headsAfter none (tokens src.toList)

/-- No percent sign opens a directive. -/
def Undirected (ts : List Token) : Prop := ∀ t ∈ ts, t.lexeme = .mark → t.head ≠ '%'

instance (ts : List Token) : Decidable (Undirected ts) :=
  inferInstanceAs (Decidable (∀ t ∈ ts, t.lexeme = .mark → t.head ≠ '%'))

/-- A head is a name that stands in the source. -/
theorem mem_headsAfter {last : Option (String × Nat)} {ts : List Token} {head : String × Nat}
    (h : head ∈ headsAfter last ts) : last = some head ∨ ∃ t ∈ ts, t.named = some head := by
  induction ts generalizing last with
  | nil => cases h
  | cons t ts ih =>
    rw [headsAfter, List.mem_append] at h
    rcases h with h | h
    · split_ifs at h
      · exact Or.inl (Option.mem_toList.mp h)
      · cases h
    · rcases ih h with named | ⟨u, hu, named⟩
      · exact Or.inr ⟨t, List.mem_cons_self, named⟩
      · exact Or.inr ⟨u, List.mem_cons_of_mem _ hu, named⟩

/-- A head is spelled where it stands. -/
theorem spelled_of_mem_ruleHeads {src : String} {name : String} {offset : Nat}
    (h : (name, offset) ∈ ruleHeads src) : name.toList <+: src.toList.drop offset := by
  obtain ⟨⟨⟩⟩ | ⟨t, ht, named⟩ := mem_headsAfter h
  unfold Token.named at named
  split at named
  · next w lexeme =>
    cases named
    rw [String.toList_ofList]
    exact (tokens_placed t ht).name w lexeme
  · cases named

/-- The same head in a source that starts later. -/
def headLater (k : Nat) (head : String × Nat) : String × Nat := (head.1, head.2 + k)

theorem isMark_later {k : Nat} {t : Token} : (t.later k).lexeme = .mark ↔ t.lexeme = .mark := by
  obtain ⟨head, start, stop, l⟩ := t
  cases l <;> simp [Token.later, Lexeme.later]

theorem named_later {k : Nat} {t : Token} : (t.later k).named = t.named.map (headLater k) := by
  obtain ⟨head, start, stop, l⟩ := t
  cases l <;> rfl

theorem Undirected.later {ts : List Token} (h : Undirected ts) (k : Nat) :
    Undirected (ts.map (Token.later k)) := by
  intro u hu
  obtain ⟨t, ht, rfl⟩ := List.mem_map.mp hu
  exact fun mark => h t ht (isMark_later.mp mark)

/-- The heads of a source that starts later stand so much later. -/
theorem headsAfter_later (k : Nat) (last : Option (String × Nat)) (ts : List Token) :
    headsAfter (last.map (headLater k)) (ts.map (Token.later k)) =
      (headsAfter last ts).map (headLater k) := by
  induction ts generalizing last with
  | nil => rfl
  | cons t ts ih =>
    have colon : (t.later k).head = t.head := rfl
    rw [List.map_cons, headsAfter, headsAfter, named_later, ih, List.map_append]
    simp only [isMark_later, colon]
    congr 1
    split_ifs
    · cases last <;> rfl
    · rfl

theorem headsAfter_of_not_colon {last : Option (String × Nat)} {t : Token} {ts : List Token}
    (h : t.lexeme = .mark → t.head ≠ ':') :
    headsAfter last (t :: ts) = headsAfter t.named ts := by
  rw [headsAfter, if_neg (fun colon => h colon.1 colon.2), List.nil_append]

section Joined

variable [Regex]

/-! ### Steps among rules -/

/-- The head of the rule that the reader is inside of. -/
def Phase.begun : Phase → List (String × Nat)
  | .body r => [(r.name, r.offset)]
  | _ => []

/-- The reader is among rules, and `last` is the name before if the reader has just taken one as the
head of a rule. -/
def Phase.Follows (last : Option (String × Nat)) : Phase → Prop
  | .between => True
  | .colon name offset => last = some (name, offset)
  | .body _ => True
  | _ => False

namespace Draft

variable {d d' : Draft} {r : OpenRule} {t : Token} {ts : List Token} {last : Option (String × Nat)}

/-- The same draft behind rules that were read before, with their entry. -/
def behind (b d : Draft) : Draft := ⟨b.rules ++ d.rules, b.entry, d.phase⟩

/-- The draft behind rules that were read before, unless one of them has taken a name of these
heads; the first such name is refused. -/
def behindUnless (b : Draft) (heads : List (String × Nat)) (d : Draft) : Step :=
  match heads.find? fun head => (b.rules.lookup head.1).isSome with
  | none => .ok (b.behind d)
  | some head => .error ⟨.duplicateRule head.1, head.2⟩

/-- What a step among rules does. It completes the rules of the heads `done`, and is the same behind
other rules, unless these have taken their names. -/
structure Advance (last : Option (String × Nat)) (d : Draft) (t : Token) (d' : Draft)
    (done : List (String × Nat)) : Prop where
  follows : d'.phase.Follows t.named
  heads : ∀ ts, d.phase.begun ++ headsAfter last (t :: ts) =
    done ++ (d'.phase.begun ++ headsAfter t.named ts)
  names : d'.rules.map (·.1) = d.rules.map (·.1) ++ done.map (·.1)
  behind : ∀ b : Draft, (b.behind d).step t = b.behindUnless done d'

/-- Inside a rule the token, which is no colon, is taken in the same way whatever rules are before.
-/
structure Continues (r : OpenRule) (t : Token) (r' : OpenRule) : Prop where
  name : r'.name = r.name
  offset : r'.offset = r.offset
  notColon : t.lexeme = .mark → t.head ≠ ':'
  step : ∀ b : Draft, (b.inside r).step t = .ok (b.inside r')

/-- A token that is no mark becomes an item. -/
theorem continues_item {v : Validator} (hl : t.lexeme ≠ .mark)
    (added : ∀ b : Draft, (b.inside r).step t = .ok (b.inside (r.after [v] (some t.stop)))) :
    Continues r t (r.after [v] (some t.stop)) :=
  ⟨rfl, rfl, fun mark => absurd mark hl, added⟩

theorem step_mark (hl : t.lexeme = .mark) :
    (d.inside r).step t = (d.inside r).bodyMark r t := by
  obtain ⟨head, start, stop, l⟩ := t
  obtain rfl : l = .mark := hl
  rfl

/-- Of the marks inside a rule, only the semicolon looks at the rules before. -/
theorem step_mark_cases (hl : t.lexeme = .mark) (h : (d.inside r).step t = .ok d') :
    t.head = ';' ∨ ∃ r', Continues r t r' := by
  rw [step_mark hl] at h
  unfold bodyMark at h
  split_ifs at h with semicolon bar closing opening
  · exact Or.inl semicolon
  · obtain ⟨outer, hne, -⟩ := nextAlternative_eq_ok.mp h
    let next : OpenRule := { r with
      alternatives := ofItems r.items.reverse :: r.alternatives
      items := []
      suffixAt := none }
    refine Or.inr ⟨next, rfl, rfl, fun _ => by rw [bar]; decide, fun b => ?_⟩
    rw [step_bar hl bar]
    exact nextAlternative_eq_ok.mpr ⟨outer, hne, rfl⟩
  · obtain ⟨items, outer, houter, hne, -⟩ := closeGroup_eq_ok.mp h
    let next : OpenRule := .after { r with outer, items } [ofItems r.items.reverse] (some t.stop)
    refine Or.inr ⟨next, rfl, rfl, fun _ => by rw [closing]; decide, fun b => ?_⟩
    rw [step_closing hl closing]
    exact closeGroup_eq_ok.mpr ⟨items, outer, houter, hne, rfl⟩
  · refine Or.inr ⟨r.opened, rfl, rfl, fun _ => by rw [opening]; decide, fun b => ?_⟩
    rw [step_mark hl, bodyMark, opening]
    rfl
  · cases sign : Arity.ofSign? t.head with
    | none =>
      rw [sign] at h
      cases h
    | some arity =>
      rw [sign] at h
      have suffix : t.head = arity.sign := Arity.ofSign?_eq_some.mp sign
      obtain ⟨v, items, hitems, place, -⟩ := applySuffix_eq_ok.mp h
      let next : OpenRule := .after { r with items } [.quantified v arity] none
      refine Or.inr ⟨next, rfl, rfl, fun _ => by rw [suffix]; cases arity <;> decide, fun b => ?_⟩
      rw [step_suffix hl suffix]
      exact applySuffix_eq_ok.mpr ⟨v, items, hitems, place, rfl⟩

/-- Of the tokens inside a rule, only the semicolon looks at the rules before. -/
theorem step_inside_cases (h : (d.inside r).step t = .ok d') :
    t.lexeme = .mark ∧ t.head = ';' ∨ ∃ r', Continues r t r' := by
  have usable : ¬ Lexer.Unusable t := fun bad => by
    obtain ⟨e, he⟩ := step_unusable (d := d.inside r) bad
    cases he.symm.trans h
  cases hl : t.lexeme with
  | name s =>
    refine Or.inr ⟨_, continues_item (v := .ref (String.ofList s)) (by simp [hl]) fun b => ?_⟩
    simp only [step, inside, bodyToken, hl, reduceCtorEq, if_false]
    rfl
  | regex pattern flags =>
    rw [step_regex hl] at h
    obtain ⟨terminal, made, -⟩ := addTerminal_eq_ok.mp h
    refine Or.inr ⟨_, continues_item (v := .terminal terminal) (by simp [hl]) fun b => ?_⟩
    rw [step_regex hl]
    exact addTerminal_eq_ok.mpr ⟨terminal, made, rfl⟩
  | literal s =>
    rw [step_literal hl] at h
    obtain ⟨terminal, made, -⟩ := addTerminal_eq_ok.mp h
    refine Or.inr ⟨_, continues_item (v := .terminal terminal) (by simp [hl]) fun b => ?_⟩
    rw [step_literal hl]
    exact addTerminal_eq_ok.mpr ⟨terminal, made, rfl⟩
  | mark => exact (step_mark_cases hl h).imp_left fun semicolon => ⟨rfl, semicolon⟩
  | malformed e => exact absurd (Or.inr ⟨e, hl⟩) usable
  | openComment => exact absurd (Or.inl hl) usable

/-- A complete rule whose name is taken is refused where the name stands. -/
theorem closeRule_taken (outer : r.outer = []) (hne : r.items ≠ [])
    (clash : (d.rules.lookup r.name).isSome) :
    d.closeRule r t = .error ⟨.duplicateRule r.name, r.offset⟩ := by
  unfold closeRule closeAlternative
  rw [outer, clash]
  cases hr : r.items with
  | nil => exact absurd hr hne
  | cons v vs => rfl

/-- Behind other rules a rule is completed as it would be, unless they have taken its name. -/
theorem closeRule_behind (h : (d.inside r).closeRule r t = .ok d') (b : Draft) :
    (b.behind (d.inside r)).closeRule r t = b.behindUnless [(r.name, r.offset)] d' := by
  obtain ⟨outer, hne, new, rfl⟩ := closeRule_eq_ok.mp h
  have looked : (b.behind (d.inside r)).rules.lookup r.name = b.rules.lookup r.name := by
    rw [behind, List.lookup_append, new, Option.or_none]
  unfold behindUnless
  cases clash : b.rules.lookup r.name with
  | none =>
    rw [List.find?_cons_of_neg (by simp [clash])]
    refine closeRule_eq_ok.mpr ⟨outer, hne, looked.trans clash, ?_⟩
    simp [behind, inside]
  | some alternatives =>
    rw [List.find?_cons_of_pos (by simp [clash])]
    exact closeRule_taken outer hne (by rw [looked, clash]; rfl)

theorem advance_name {w : List Char} (hd : d.phase = .between) (hl : t.lexeme = .name w) :
    Advance last d t { d with phase := .colon (String.ofList w) t.start } [] where
  follows := by simp [Phase.Follows, Token.named, hl]
  heads ts := by
    rw [headsAfter_of_not_colon (by simp [hl]), hd]
    rfl
  names := by simp
  behind b := by
    simp only [step, behind, hd, betweenToken, hl, reduceCtorEq, if_false]
    rfl

theorem advance_colon {name : String} {offset : Nat} (hd : d.phase = .colon name offset)
    (hl : t.lexeme = .mark) (colon : t.head = ':') :
    Advance (some (name, offset)) d t (d.inside (.upTo name offset [])) [] where
  follows := trivial
  heads ts := by
    rw [headsAfter, if_pos ⟨hl, colon⟩, hd]
    rfl
  names := by simp [inside]
  behind b := by
    simp only [step, behind, hd, hl, reduceCtorEq, if_false]
    exact expectMark_eq_ok.mpr ⟨hl, colon, rfl⟩

theorem advance_semicolon (hl : t.lexeme = .mark) (semicolon : t.head = ';')
    (h : (d.inside r).closeRule r t = .ok d') :
    Advance last (d.inside r) t d' [(r.name, r.offset)] := by
  have behind (b : Draft) : (b.behind (d.inside r)).step t =
      b.behindUnless [(r.name, r.offset)] d' := by
    rw [← closeRule_behind h b]
    exact step_semicolon (d := b.behind d) hl semicolon
  have notColon : t.lexeme = .mark → t.head ≠ ':' := fun _ => by rw [semicolon]; decide
  obtain ⟨-, -, -, rfl⟩ := closeRule_eq_ok.mp h
  refine ⟨trivial, fun ts => ?_, by simp [inside], behind⟩
  rw [headsAfter_of_not_colon notColon]
  rfl

theorem advance_inside {r' : OpenRule} (h : Continues r t r') :
    Advance last (d.inside r) t (d.inside r') [] where
  follows := trivial
  heads ts := by
    rw [headsAfter_of_not_colon h.notColon]
    simp [Phase.begun, inside, h.name, h.offset]
  names := by simp [inside]
  behind b := h.step (b.behind d)

/-- Every step among rules advances. -/
theorem step_advance (hd : d.phase.Follows last) (plain : t.lexeme = .mark → t.head ≠ '%')
    (h : d.step t = .ok d') : ∃ done, Advance last d t d' done := by
  obtain ⟨rules, entry, phase⟩ := d
  cases phase with
  | between =>
    rcases betweenToken_eq_ok.mp (step_closed h) with ⟨w, hl, rfl⟩ | ⟨hl, percent, -⟩
    · exact ⟨_, advance_name rfl hl⟩
    · exact absurd percent (plain hl)
  | colon name offset =>
    obtain rfl : last = some (name, offset) := hd
    obtain ⟨hl, colon, rfl⟩ := expectMark_eq_ok.mp (step_closed h)
    exact ⟨_, advance_colon rfl hl colon⟩
  | body r =>
    let d : Draft := ⟨rules, entry, .between⟩
    change (d.inside r).step t = .ok d' at h
    change ∃ done, Advance last (d.inside r) t d' done
    rcases step_inside_cases h with ⟨hl, semicolon⟩ | ⟨r', next⟩
    · rw [step_semicolon hl semicolon] at h
      exact ⟨_, advance_semicolon hl semicolon h⟩
    · obtain rfl := Except.ok.inj (h.symm.trans (next.step d))
      exact ⟨_, advance_inside next⟩
  | _ => exact hd.elim

/-- What is left of a draft behind other rules goes on behind them. -/
theorem behindUnless_bind {b : Draft} {done rest : List (String × Nat)} {f : Draft → Step}
    (h : f (b.behind d) = b.behindUnless rest d') :
    (b.behindUnless done d >>= f) = b.behindUnless (done ++ rest) d' := by
  unfold behindUnless at h ⊢
  rw [List.find?_append]
  cases done.find? fun head => (b.rules.lookup head.1).isSome with
  | none => exact h
  | some head => rfl

/-- A run among rules behind other rules: it adds the rules of the heads, up to the first one whose
name these rules have taken. -/
theorem foldlM_behind (hd : d.phase.Follows last) (plain : Undirected ts)
    (run : ts.foldlM step d = .ok d') (ended : d'.phase = .between) (b : Draft) :
    d'.rules.map (·.1) = d.rules.map (·.1) ++ (d.phase.begun ++ headsAfter last ts).map (·.1) ∧
      ts.foldlM step (b.behind d) = b.behindUnless (d.phase.begun ++ headsAfter last ts) d' := by
  induction ts generalizing d last with
  | nil =>
    obtain rfl := Except.ok.inj run
    simp [ended, Phase.begun, headsAfter, behindUnless, pure, Except.pure]
  | cons t ts ih =>
    obtain ⟨ht, hts⟩ := List.forall_mem_cons.mp plain
    rw [List.foldlM_cons] at run ⊢
    obtain ⟨d₁, next, run⟩ := bind_eq_ok.mp run
    obtain ⟨done, advance⟩ := step_advance hd ht next
    obtain ⟨names, behind⟩ := ih advance.follows hts run
    rw [advance.heads ts, advance.behind b]
    exact ⟨by simp [names, advance.names], behindUnless_bind behind⟩

/-- A source of rules alone adds the rules of its heads to a draft between rules. -/
theorem foldlM_start (plain : Undirected ts) (run : ts.foldlM step .start = .ok d)
    (ended : d.phase = .between) :
    d.rules.map (·.1) = (headsAfter none ts).map (·.1) ∧ ∀ b : Draft, b.phase = .between →
      ts.foldlM step b = b.behindUnless (headsAfter none ts) d := by
  have follows : start.phase.Follows none := trivial
  refine ⟨(foldlM_behind follows plain run ended start).1, fun b between => ?_⟩
  have same : b.behind start = b := by
    obtain ⟨_, _, _⟩ := b
    obtain rfl : _ = Phase.between := between
    simp [behind, start]
  have behind := (foldlM_behind follows plain run ended b).2
  rwa [same] at behind

/-- A source of rules may end behind other rules too, and the entry is theirs. -/
theorem finish_behind {b : Draft} {m n k : Nat} {g₁ g₂ : Grammar} (h₁ : b.finish m = .ok g₁)
    (h₂ : d.finish n = .ok g₂) :
    (b.behind d).finish k = .ok ⟨g₁.entry, g₁.rules ++ g₂.rules⟩ := by
  obtain ⟨-, first, others, rules, rfl⟩ := finish_eq_ok.mp h₁
  obtain ⟨phase, _, _, -, rfl⟩ := finish_eq_ok.mp h₂
  refine finish_eq_ok.mpr ⟨phase, first, others ++ d.rules, ?_, rfl⟩
  rw [behind, rules, List.cons_append]

theorem usable_of_foldlM (run : ts.foldlM step d = .ok d') : ∀ t ∈ ts, ¬ Lexer.Unusable t := by
  induction ts generalizing d with
  | nil => simp
  | cons t ts ih =>
    rw [List.foldlM_cons] at run
    obtain ⟨d₁, next, run⟩ := bind_eq_ok.mp run
    refine List.forall_mem_cons.mpr ⟨fun bad => ?_, ih run⟩
    obtain ⟨e, he⟩ := step_unusable (d := d) bad
    cases he.symm.trans next

end Draft

/-! ### Two sources -/

variable {s₁ s₂ src : String} {g g₁ g₂ : Grammar}

/-- The heads of a source that is read, if it has no directive, name its rules in order. -/
theorem names_ruleHeads (h : read src = .ok g) (plain : Undirected (tokens src.toList)) :
    (ruleHeads src).map (·.1) = g.ruleNames := by
  obtain ⟨d, run, finish⟩ := bind_eq_ok.mp (read_eq src ▸ h)
  obtain ⟨ended, _, _, -, rfl⟩ := Draft.finish_eq_ok.mp finish
  exact (Draft.foldlM_start plain run ended).1.symm

/-- What is read is read in the same way if the source starts later. -/
theorem draft_later_of_read (h : read src = .ok g) (k : Nat) :
    ∃ d, ((tokens src.toList).map (Token.later k)).foldlM Draft.step .start = .ok d ∧
      d.finish (k + src.toList.length) = .ok g := by
  obtain ⟨ds, doc, denotes⟩ := document_of_read h
  have read : resume (k + src.toList.length) src.toList .start = .ok g :=
    doc.resume_eq (Nat.le_add_left _ _) admissible_nil denotes
  rw [resume, Nat.add_sub_cancel, scan_eq_map_tokens] at read
  exact bind_eq_ok.mp read

/-- Two sources with a line feed between them are read as the rules of both, or refused at the first
head of the second source whose name the first one has taken. -/
theorem read_joined (h₁ : read s₁ = .ok g₁) (h₂ : read s₂ = .ok g₂)
    (plain : Undirected (tokens s₂.toList)) :
    read (s₁ ++ "\n" ++ s₂) =
      match (ruleHeads s₂).find? fun head => (g₁.rules.lookup head.1).isSome with
      | none => .ok ⟨g₁.entry, g₁.rules ++ g₂.rules⟩
      | some head => .error ⟨.duplicateRule head.1, head.2 + (s₁.length + 1)⟩ := by
  obtain ⟨b, run₁, finish₁⟩ := bind_eq_ok.mp (read_eq s₁ ▸ h₁)
  obtain ⟨d, run₂, finish₂⟩ := draft_later_of_read h₂ (s₁.length + 1)
  obtain ⟨between, _, _, -, denoted⟩ := Draft.finish_eq_ok.mp finish₁
  obtain ⟨ended, -⟩ := Draft.finish_eq_ok.mp finish₂
  have rules : b.rules = g₁.rules := congrArg Grammar.rules denoted.symm
  have text : (s₁ ++ "\n" ++ s₂).toList = s₁.toList ++ '\n' :: s₂.toList := by simp
  have heads : headsAfter none ((tokens s₂.toList).map (Token.later (s₁.length + 1))) =
      (ruleHeads s₂).map (headLater (s₁.length + 1)) := headsAfter_later _ none _
  -- the tokens of the second source go on from the draft of the first one
  have run : (tokens (s₁ ++ "\n" ++ s₂).toList).foldlM Draft.step .start =
      b.behindUnless ((ruleHeads s₂).map (headLater (s₁.length + 1))) d := by
    rw [text, tokens_append (Draft.usable_of_foldlM run₁), List.foldlM_append, run₁,
      scan_eq_map_tokens, ← heads]
    exact (Draft.foldlM_start (plain.later _) run₂ ended).2 b between
  have sameName : (fun head => (g₁.rules.lookup head.1).isSome) ∘ headLater (s₁.length + 1) =
      fun head => (g₁.rules.lookup head.1).isSome := rfl
  rw [read_eq, run, Draft.behindUnless, rules, List.find?_map, sameName]
  cases (ruleHeads s₂).find? fun head => (g₁.rules.lookup head.1).isSome with
  | none => exact Draft.finish_behind finish₁ finish₂
  | some head => rfl

theorem lookup_isSome_iff {name : String} : (g.rules.lookup name).isSome ↔ name ∈ g.ruleNames := by
  rw [Option.isSome_iff_ne_none, ← not_iff_not, not_not]
  exact Grammar.notMem_ruleNames_iff.symm

/-- Sources can be put one behind the other, with a line feed between them, if the second one has no
directive. Its heads name its rules in order and are spelled where they stand. If the sources share
no name, the rules of the second one follow those of the first, and the entry is that of the first.
If they do, what is refused is the first rule of the second source whose name the first one has, at
the place of that name. -/
theorem sources_concatenate (h₁ : read s₁ = .ok g₁) (h₂ : read s₂ = .ok g₂)
    (plain : Undirected (tokens s₂.toList)) :
    (ruleHeads s₂).map (·.1) = g₂.ruleNames ∧
    (∀ name offset, (name, offset) ∈ ruleHeads s₂ → name.toList <+: s₂.toList.drop offset) ∧
    (List.Disjoint g₁.ruleNames g₂.ruleNames →
      read (s₁ ++ "\n" ++ s₂) = .ok ⟨g₁.entry, g₁.rules ++ g₂.rules⟩) ∧
    (¬ List.Disjoint g₁.ruleNames g₂.ruleNames → ∃ before name offset after,
      ruleHeads s₂ = before ++ (name, offset) :: after ∧
      (∀ head ∈ before, head.1 ∉ g₁.ruleNames) ∧ name ∈ g₁.ruleNames ∧
      read (s₁ ++ "\n" ++ s₂) = .error ⟨.duplicateRule name, offset + (s₁.length + 1)⟩) := by
  have names := names_ruleHeads h₂ plain
  have joined := read_joined h₁ h₂ plain
  refine ⟨names, fun name offset => spelled_of_mem_ruleHeads, ?apart, ?shared⟩
  case apart =>
    intro apart
    have free : (ruleHeads s₂).find? (fun head => (g₁.rules.lookup head.1).isSome) = none := by
      refine List.find?_eq_none.mpr fun head hhead clash => ?_
      exact apart (lookup_isSome_iff.mp clash) (names ▸ List.mem_map_of_mem hhead)
    rw [joined, free]
  case shared =>
    intro shared
    cases found : (ruleHeads s₂).find? fun head => (g₁.rules.lookup head.1).isSome with
    | none =>
      refine absurd (fun name h₁ h₂ => ?_) shared
      obtain ⟨head, hhead, rfl⟩ := List.mem_map.mp (names ▸ h₂)
      exact List.find?_eq_none.mp found head hhead (lookup_isSome_iff.mpr h₁)
    | some head =>
      obtain ⟨clash, before, after, heads, free⟩ := List.find?_eq_some_iff_append.mp found
      refine ⟨before, head.1, head.2, after, heads, fun other hother taken => ?_,
        lookup_isSome_iff.mp clash, by rw [joined, found]⟩
      simpa [lookup_isSome_iff.mpr taken] using free other hother

end Joined

/-- Behind a source that ends in a line comment: one with a name of its own is read, and one that
declares the name again is refused at its second rule. -/
theorem comment_joined :
    read "a : b ; // a" = .ok ⟨"a", [("a", [.ref "b"])]⟩ ∧
    read "b : a ;" = .ok ⟨"b", [("b", [.ref "a"])]⟩ ∧ Undirected (tokens "b : a ;".toList) ∧
    read ("a : b ; // a" ++ "\n" ++ "b : a ;") =
      .ok ⟨"a", [("a", [.ref "b"]), ("b", [.ref "a"])]⟩ ∧
    read "c : a ; a : c ;" = .ok ⟨"c", [("c", [.ref "a"]), ("a", [.ref "c"])]⟩ ∧
    Undirected (tokens "c : a ; a : c ;".toList) ∧
    read ("a : b ; // a" ++ "\n" ++ "c : a ; a : c ;") = .error ⟨.duplicateRule "a", 21⟩ := by
  have first : read "a : b ; // a" = .ok ⟨"a", [("a", [.ref "b"])]⟩ := by rfl
  have second : read "b : a ;" = .ok ⟨"b", [("b", [.ref "a"])]⟩ := by rfl
  have third : read "c : a ; a : c ;" = .ok ⟨"c", [("c", [.ref "a"]), ("a", [.ref "c"])]⟩ := by rfl
  have plain : Undirected (tokens "b : a ;".toList) := by decide
  have plain' : Undirected (tokens "c : a ; a : c ;".toList) := by decide
  obtain ⟨-, -, apart, -⟩ := sources_concatenate first second plain
  obtain ⟨-, -, -, shared⟩ := sources_concatenate first third plain'
  obtain ⟨before, name, offset, after, split, -, taken, refused⟩ :=
    shared (by simp [Grammar.ruleNames])
  refine ⟨first, second, plain, apart (by simp [Grammar.ruleNames]), third, plain', ?_⟩
  have heads : ruleHeads "c : a ; a : c ;" = [("c", 0), ("a", 8)] := by rfl
  have head : (name, offset) ∈ [("c", 0), ("a", 8)] :=
    heads ▸ split ▸ List.mem_append_right _ List.mem_cons_self
  obtain rfl : name = "a" := by simpa [Grammar.ruleNames] using taken
  obtain rfl : offset = 8 := by simpa using head
  exact refused

end OrderedGrammar.Notation
