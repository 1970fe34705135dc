import OrderedGrammar.Grammar.Basic
import OrderedGrammar.Proofs.Regex.Terminals

/-!
A grammar read without order. Any alternative of a rule may be taken, a quantifier stands for any
number of repetitions that it allows, and a terminal stands for the single characters that it
matches. The words derived in this way from a validator are its language. The language of a
reference is the sum of those of its alternatives, that of a sequence the product of those of its
items, and repetitions are stars.
-/

namespace OrderedGrammar.Grammar

open scoped Computability

variable [Regex]

/-- The words that a validator stands for. -/
inductive Derives (g : Grammar) : Validator → List Char → Prop
  /-- A character that the terminal matches by itself. -/
  | terminal {t : Terminal} {c : Char} (h : t.matched? #[c] 0 = some c.toString) :
    Derives g (.terminal t) [c]
  | ref {name alternatives v w} (h : g.rule? name = some alternatives) (hv : v ∈ alternatives)
    (hw : Derives g v w) : Derives g (.ref name) w
  | nothing : Derives g (.sequence []) []
  | next {v items w x} (hw : Derives g v w) (hx : Derives g (.sequence items) x) :
    Derives g (.sequence (v :: items)) (w ++ x)
  | absent {v} : Derives g (.quantified v .zeroOrOne) []
  | once {v w} (hw : Derives g v w) : Derives g (.quantified v .zeroOrOne) w
  | many {v} {ws : List (List Char)} (h : ∀ w ∈ ws, Derives g v w) :
    Derives g (.quantified v .zeroOrMore) ws.flatten
  | some {v} {ws : List (List Char)} (hne : ws ≠ []) (h : ∀ w ∈ ws, Derives g v w) :
    Derives g (.quantified v .oneOrMore) ws.flatten

/-- The language of a validator. -/
def language (g : Grammar) (v : Validator) : Language Char := {w | g.Derives v w}

variable {g : Grammar}

theorem mem_language_terminal {t : Terminal} {w : List Char} :
    w ∈ g.language (.terminal t) ↔ ∃ c, t.matched? #[c] 0 = some c.toString ∧ w = [c] := by
  constructor
  · rintro ⟨h⟩
    exact ⟨_, h, rfl⟩
  · rintro ⟨c, h, rfl⟩
    exact Derives.terminal h

/-- A terminal of single characters stands for these characters. -/
theorem mem_language_takesOne {t : Terminal} {P : Char → Prop} (ht : t.TakesOne P)
    {w : List Char} : w ∈ g.language (.terminal t) ↔ ∃ c, P c ∧ w = [c] := by
  rw [mem_language_terminal]
  refine exists_congr fun c => and_congr_left fun _ => ?_
  rw [ht]
  constructor
  · rintro ⟨d, hd, taken, -⟩
    obtain rfl : c = d := by simpa using hd
    exact taken
  · exact fun hc => ⟨c, rfl, hc, rfl⟩

theorem mem_language_ref {name : String} {alternatives : List Validator} {w : List Char}
    (h : g.rule? name = some alternatives) :
    w ∈ g.language (.ref name) ↔ ∃ v ∈ alternatives, w ∈ g.language v := by
  constructor
  · rintro ⟨⟩
    rename_i hr _
    cases h.symm.trans hr
    exact ⟨_, ‹_›, ‹_›⟩
  · rintro ⟨v, hv, hw⟩
    exact Derives.ref h hv hw

theorem language_ref {name : String} {alternatives : List Validator}
    (h : g.rule? name = some alternatives) :
    g.language (.ref name) = (alternatives.map g.language).sum := by
  have mem_sum : ∀ {vs : List Validator} {w : List Char},
      w ∈ (vs.map g.language).sum ↔ ∃ v ∈ vs, w ∈ g.language v := by
    intro vs w
    induction vs with
    | nil => simp [Language.notMem_zero]
    | cons v vs ih =>
      rw [List.map_cons, List.sum_cons, Language.mem_add, ih]
      simp
  ext w
  rw [mem_language_ref h, mem_sum]

theorem language_nil : g.language (.sequence []) = 1 := by
  ext w
  rw [Language.mem_one]
  constructor
  · rintro ⟨⟩; rfl
  · rintro rfl; exact Derives.nothing

theorem language_cons {v : Validator} {items : List Validator} :
    g.language (.sequence (v :: items)) = g.language v * g.language (.sequence items) := by
  ext w
  rw [Language.mem_mul]
  constructor
  · rintro ⟨⟩
    exact ⟨_, ‹_›, _, ‹_›, rfl⟩
  · rintro ⟨a, ha, b, hb, rfl⟩
    exact Derives.next ha hb

theorem language_opt {v : Validator} :
    g.language (.quantified v .zeroOrOne) = 1 + g.language v := by
  ext w
  rw [Language.mem_add, Language.mem_one]
  constructor
  · rintro (_ | _ | _)
    · exact Or.inl rfl
    · exact Or.inr ‹_›
  · rintro (rfl | hw)
    · exact Derives.absent
    · exact Derives.once hw

theorem language_many {v : Validator} :
    g.language (.quantified v .zeroOrMore) = (g.language v)∗ := by
  ext w
  rw [Language.mem_kstar]
  constructor
  · rintro ⟨⟩
    exact ⟨_, rfl, ‹_›⟩
  · rintro ⟨ws, rfl, h⟩
    exact Derives.many h

theorem language_some {v : Validator} :
    g.language (.quantified v .oneOrMore) = g.language v * (g.language v)∗ := by
  ext w
  rw [Language.mem_mul]
  constructor
  · intro h
    cases h with
    | @some _ ws hne h =>
      cases ws with
      | nil => exact absurd rfl hne
      | cons a ws =>
        obtain ⟨ha, hws⟩ := List.forall_mem_cons.mp h
        exact ⟨a, ha, ws.flatten, Language.join_mem_kstar hws, rfl⟩
  · rintro ⟨a, ha, _, ⟨ws, rfl, h⟩, rfl⟩
    exact Derives.some (List.cons_ne_nil a ws) (List.forall_mem_cons.mpr ⟨ha, h⟩)

end OrderedGrammar.Grammar
