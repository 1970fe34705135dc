import OrderedGrammar.Notation.Reader
import OrderedGrammar.Proofs.Grammar.Flatten
import OrderedGrammar.Proofs.Notation.Spelling

/-!
Grammars in the shape of the notation: names are names of the notation, flags its flags, and a
sequence has two items at least. A validator of this shape can be written down again if its patterns
can stand between slashes and no quantifier stands directly below another one.
-/

namespace OrderedGrammar

open Text Notation Lexer

variable [Regex]

/-! ### Patterns between slashes -/

/-- No slash and no line feed stands in the text but behind a backslash. Unlike the text of a regex
it may end in a backslash that has nothing behind it. -/
inductive Notation.Undelimited : List Char → Prop
  | nil : Undelimited []
  | plain {c s} (hc : c ≠ '\\' ∧ c ≠ '/' ∧ c ≠ '\n') (h : Undelimited s) : Undelimited (c :: s)
  | escaped {c s} (h : Undelimited s) : Undelimited ('\\' :: c :: s)
  | pending : Undelimited ['\\']

/-- The pattern opens no comment behind a slash and is as `P` says, and the flags are flags of the
notation. -/
structure Terminal.Fits (P : List Char → Prop) (t : Terminal) : Prop where
  opens : t.pattern.toList ≠ [] ∧ t.pattern.toList.head? ≠ some '*'
  pattern : P t.pattern.toList
  flags : t.flags.toList.all isFlag

theorem Terminal.Fits.imp {P Q : List Char → Prop} {t : Terminal} (h : t.Fits P)
    (hPQ : P t.pattern.toList → Q t.pattern.toList) : t.Fits Q :=
  ⟨h.opens, hPQ h.pattern, h.flags⟩

namespace Validator

/-! ### Validators -/

variable {P : Validator → Prop} {v : Validator}

/-- A single item stands for itself, so only other numbers of items make a sequence. -/
theorem everywhere_ofItems {vs : List Validator} (h : ∀ v ∈ vs, v.Everywhere P)
    (several : vs.length ≠ 1 → P (sequence vs)) : (ofItems vs).Everywhere P := by
  match vs with
  | [] => exact .sequence (several nofun) h
  | [v] => exact h v List.mem_cons_self
  | v :: w :: rest => exact .sequence (several nofun) h

/-- What is read from the notation. -/
def Notated : Validator → Prop
  | terminal t => t.Fits fun _ => True
  | ref name => isName name.toList
  | quantified _ _ => True
  | sequence items => 2 ≤ items.length
  | foreign _ => False

/-- What can be written in the notation, although nested sequences will be laid out in line. -/
def Printable : Validator → Prop
  | terminal t => t.Fits RegexText
  | ref name => isName name.toList
  | quantified inner _ => ∀ v arity, inner ≠ quantified v arity
  | sequence items => 2 ≤ items.length
  | foreign _ => False

/-- What can be written in the notation as it stands, as far as `P` tells of patterns. -/
def Written (P : List Char → Prop) : Validator → Prop
  | terminal t => t.Fits P
  | ref name => isName name.toList
  | quantified inner _ => ∀ v arity, inner ≠ quantified v arity
  | sequence items => 2 ≤ items.length ∧ ∀ v ∈ items, ∀ vs, v ≠ sequence vs
  | foreign _ => False

/-- Patterns can stand between slashes, and no quantifier stands directly below another one. -/
def Reprintable : Validator → Prop
  | terminal t => RegexText t.pattern.toList
  | quantified inner _ => ∀ v arity, inner ≠ quantified v arity
  | _ => True

theorem printable_of_written (h : v.Written RegexText) : v.Printable := by
  cases v with
  | sequence items => exact h.1
  | _ => exact h

theorem printable_of_notated (h : v.Notated) (h' : v.Reprintable) : v.Printable := by
  cases v with
  | terminal t => exact h.imp fun _ => h'
  | quantified inner arity => exact h'
  | _ => exact h

theorem reprintable_of_written (h : v.Written RegexText) : v.Reprintable := by
  cases v with
  | terminal t => exact h.pattern
  | quantified inner arity => exact h
  | _ => exact trivial

/-- A validator without sequences directly in sequences is laid out in line already. -/
theorem flatten_of_written {P : List Char → Prop} (h : v.Everywhere (Written P)) :
    v.flatten = v := by
  induction h with
  | @quantified inner arity _ _ ih => rw [flatten, ih]
  | @sequence items h _ ih =>
    have line : items.flatMap parts = items := by
      have single : ∀ v ∈ items, v.parts = [v] := fun v hv => by
        rw [parts_eq_singleton (h.2 v hv), ih v hv]
      rw [List.flatMap_congr single, List.flatMap_singleton']
    rw [flatten, partsAll_eq, line]
  | _ => rfl

/-- A validator adds something to a sequence of which it is an item. -/
theorem parts_ne_nil (h : v.Everywhere Printable) : v.parts ≠ [] := by
  induction h with
  | @sequence items h _ ih =>
    cases items with
    | nil => simp [Printable] at h
    | cons w rest =>
      rw [parts, partsAll]
      exact List.append_ne_nil_of_left_ne_nil (ih w List.mem_cons_self) _
  | _ => simp [parts]

theorem length_le_partsAll {items : List Validator} (h : ∀ v ∈ items, v.Everywhere Printable) :
    items.length ≤ (partsAll items).length := by
  induction items with
  | nil => exact Nat.le_refl _
  | cons v rest ih =>
    have first := List.length_pos_iff.mpr (parts_ne_nil (h v List.mem_cons_self))
    have others := ih fun w hw => h w (List.mem_cons_of_mem _ hw)
    rw [partsAll, List.length_append, List.length_cons]
    omega

end Validator

/-! ### Grammars -/

/-- A grammar with one rule at least, each with one alternative at least, whose names are names of
the notation and whose validators are everywhere as `P` says. -/
structure Grammar.Notated (P : Validator → Prop) (g : Grammar) : Prop where
  entry : isName g.entry.toList
  declared : g.rules ≠ []
  distinct : g.ruleNames.Nodup
  names : ∀ rule ∈ g.rules, isName rule.1.toList
  alternatives : ∀ rule ∈ g.rules, rule.2 ≠ []
  validators : ∀ rule ∈ g.rules, ∀ v ∈ rule.2, v.Everywhere P

theorem Grammar.Notated.imp {P Q : Validator → Prop} {g : Grammar} (h : g.Notated P)
    (hPQ : ∀ v, P v → Q v) : g.Notated Q :=
  { h with validators := fun rule hr v hv => (h.validators rule hr v hv).imp hPQ }

end OrderedGrammar
