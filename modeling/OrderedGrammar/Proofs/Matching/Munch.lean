import Mathlib
import OrderedGrammar.Proofs.Grammar.Language
import OrderedGrammar.Proofs.Language.Longest
import OrderedGrammar.Proofs.Matching.Meaning

/-!
When matching loses nothing. A validator munches if at every place of every text it takes the
longest prefix of what is left in its language, and fails only if there is none (`Munches`).
Choice munches if no alternative cuts short what a later one would take, a sequence if the languages
of its items give way to one another, and a repetition if a round never goes on as the next one
begins.
-/

namespace OrderedGrammar.Matching

open Words
open scoped Computability

/-- The characters that a node covers, if they are a prefix of what is left at its beginning. -/
theorem source_eq {text : Text} {pos : Nat} {t : Tree} {w : List Char} (hstart : t.start = pos)
    (hw : w <+: text.toList.drop pos) (hstop : t.stop = pos + w.length) :
    t.source text = String.ofList w := by
  rw [Tree.source, hstart, hstop, Text.slice, Array.toList_extract, List.extract_eq_take_drop,
    Nat.add_sub_cancel_left, ← List.prefix_iff_eq_take.mp hw]

/-- The characters from the first offset to the second. -/
def Spells (text : Text) (pos stop : Nat) (w : List Char) : Prop :=
  w <+: text.toList.drop pos ∧ stop = pos + w.length

theorem Spells.nil {text : Text} {pos : Nat} : Spells text pos pos [] := ⟨List.nil_prefix, rfl⟩

theorem Spells.append {text : Text} {pos mid stop : Nat} {u w : List Char}
    (hu : Spells text pos mid u) (hw : Spells text mid stop w) : Spells text pos stop (u ++ w) := by
  obtain ⟨⟨r, hr⟩, rfl⟩ := hu
  obtain ⟨hw, rfl⟩ := hw
  rw [← List.drop_drop, ← hr, List.drop_left] at hw
  refine ⟨hr ▸ (List.prefix_append_right_inj u).mpr hw, ?_⟩
  rw [List.length_append, Nat.add_assoc]

variable [Regex] {g : Grammar}

/-- The outcome takes the longest prefix in the language of what is left of the text, or fails if
there is none. -/
def TakesLongest (A : Language Char) (text : Text) (pos : Nat) : Outcome → Prop
  | .error _ => False
  | .ok none => Missing A (text.toList.drop pos)
  | .ok (some t) => ∃ w, Longest A (text.toList.drop pos) w ∧ t.stop = pos + w.length

/-- Whatever the validator has to say takes the longest prefix in its language. -/
def Munches (g : Grammar) (v : Validator) : Prop :=
  ∀ text pos tag o, Gives g text v pos tag o → TakesLongest (g.language v) text pos o

namespace Munches

variable {text : Text} {pos : Nat} {tag : String} {v : Validator}

theorem no_error (h : Munches g v) {e : EvalError} : ¬ Gives g text v pos tag (.error e) :=
  fun hg => h _ _ _ _ hg

theorem missing (h : Munches g v) (hg : Gives g text v pos tag (.ok none)) :
    Missing (g.language v) (text.toList.drop pos) := h _ _ _ _ hg

theorem longest (h : Munches g v) {t : Tree} (hg : Gives g text v pos tag (.ok (some t))) :
    ∃ w, Longest (g.language v) (text.toList.drop pos) w ∧ t.stop = pos + w.length := h _ _ _ _ hg

end Munches

/-- What is matched is a word of the language. -/
theorem Munches.spells {v : Validator} (h : Munches g v) {text : Text} {pos : Nat} {tag : String}
    {t : Tree} (hg : Gives g text v pos tag (.ok (some t))) :
    ∃ w ∈ g.language v, Spells text pos t.stop w := by
  obtain ⟨w, hw, hstop⟩ := h.longest hg
  exact ⟨w, hw.mem, hw.isPrefix, hstop⟩

/-! ### Terminals -/

/-- A terminal of single characters takes the next one if it is of their kind. -/
theorem munches_takesOne {t : Terminal} {P : Char → Prop} (ht : t.TakesOne P) :
    Munches g (.terminal t) := by
  intro text pos tag o h
  cases h with
  | taken h =>
    obtain ⟨c, hc, kind, rfl⟩ := (ht _ _ _).mp h
    refine ⟨[c], ⟨(Grammar.mem_language_takesOne ht).mpr ⟨c, kind, rfl⟩, ?_, ?_⟩, by simp⟩
    · exact Text.cons_prefix_drop.mpr ⟨hc, List.nil_prefix⟩
    · rintro x hx -
      obtain ⟨d, -, rfl⟩ := (Grammar.mem_language_takesOne ht).mp hx
      exact Nat.le_refl _
  | refused h =>
    intro x hx hr
    obtain ⟨c, kind, rfl⟩ := (Grammar.mem_language_takesOne ht).mp hx
    have taken := (ht text pos c.toString).mpr ⟨c, (Text.cons_prefix_drop.mp hr).1, kind, rfl⟩
    rw [h] at taken
    cases taken

/-! ### Choice -/

/-- No alternative is a shorter beginning of what a later one takes. -/
theorem munches_ref {name : String} {alternatives : List Validator}
    (h : g.rule? name = some alternatives) (each : ∀ v ∈ alternatives, Munches g v)
    (order : alternatives.Pairwise fun v w => Precedes (g.language v) (g.language w)) :
    Munches g (.ref name) := by
  intro text pos tag o hg
  cases hg with
  | undefined hn => cases h.symm.trans hn
  | @chosen _ _ _ _ i v t hr hi matched before =>
    cases h.symm.trans hr
    obtain ⟨u, hu, hstop⟩ := (each v (List.mem_of_getElem? hi)).longest matched
    refine ⟨u, ⟨(Grammar.mem_language_ref h).mpr ⟨v, List.mem_of_getElem? hi, hu.mem⟩,
      hu.isPrefix, fun x hx hr => ?_⟩, by rw [← Tree.asRule_eq, Tree.stop_asRule]; exact hstop⟩
    obtain ⟨w, hw, hx⟩ := (Grammar.mem_language_ref h).mp hx
    obtain ⟨j, hj⟩ := List.getElem?_of_mem hw
    obtain ⟨hi', rfl⟩ := List.getElem?_eq_some_iff.mp hi
    obtain ⟨hj', rfl⟩ := List.getElem?_eq_some_iff.mp hj
    rcases Nat.lt_trichotomy j i with hlt | rfl | hlt
    · have hmem : alternatives[j] ∈ alternatives.take i :=
        List.mem_take_iff_getElem.mpr ⟨j, by omega, rfl⟩
      exact absurd hr ((each _ hw).missing (before _ hmem) x hx)
    · exact hu.longest x hx hr
    · rcases List.prefix_or_prefix_of_prefix hr hu.isPrefix with hxu | hux
      · exact hxu.length_le
      · exact List.pairwise_iff_getElem.mp order i j hi' hj' hlt u hu.mem x hx hux
  | chosenError hr hi failed _ =>
    cases h.symm.trans hr
    exact absurd failed (each _ (List.mem_of_getElem? hi)).no_error
  | noneChosen hr all =>
    cases h.symm.trans hr
    intro x hx hxr
    obtain ⟨w, hw, hx⟩ := (Grammar.mem_language_ref h).mp hx
    exact (each w hw).missing (all w hw) x hx hxr

/-- A rule with one alternative. -/
theorem munches_only {name : String} {v : Validator} (h : g.rule? name = some [v])
    (hv : Munches g v) : Munches g (.ref name) :=
  munches_ref h (by simpa using hv) (List.pairwise_singleton _ _)

/-! ### Sequences -/

/-- What a sequence has to say goes by its first item, and by the others from where that stopped. -/
theorem Gives.sequence_cons {text : Text} {v : Validator} {items : List Validator} {pos : Nat}
    {tag : String} {o : Outcome} (h : Gives g text (.sequence (v :: items)) pos tag o) :
    (∃ b, o = broken b ∧ Gives g text v pos tag (broken b)) ∨
      ∃ t, Gives g text v pos tag (.ok (some t)) ∧ ∃ o',
        Gives g text (.sequence items) t.stop tag o' ∧
          o.map (·.map Tree.stop) = o'.map (·.map Tree.stop) := by
  cases h with
  | @sequence _ _ _ ts length chain =>
    cases ts with
    | nil => simp at length
    | cons t ts =>
      obtain ⟨first, chain⟩ := linked_cons.mp chain
      refine Or.inr ⟨t, first v rfl, _, .sequence (Nat.succ.inj length) chain, ?_⟩
      rw [stopAfter_cons]
      rfl
  | @sequenceBroken _ _ _ ts w b item chain last =>
    cases ts with
    | nil =>
      cases Option.some.inj item
      exact Or.inl ⟨b, rfl, last⟩
    | cons t ts =>
      obtain ⟨first, chain⟩ := linked_cons.mp chain
      rw [stopAfter_cons] at last
      refine Or.inr ⟨t, first v rfl, _, .sequenceBroken item chain last, ?_⟩
      cases b <;> rfl

/-- The items match one after the other, from one offset to another. -/
inductive Chained (g : Grammar) (text : Text) (tag : String) :
    Nat → List Validator → List Tree → Nat → Prop
  | nil {pos} : Chained g text tag pos [] [] pos
  | cons {pos v items t ts stop} (first : Gives g text v pos tag (.ok (some t)))
    (rest : Chained g text tag t.stop items ts stop) :
    Chained g text tag pos (v :: items) (t :: ts) stop

theorem chained_of_linked {text : Text} {tag : String} {items : List Validator} {pos : Nat}
    {ts : List Tree} (length : ts.length = items.length)
    (chain : Linked (fun i p t => ∀ v, items[i]? = some v → Gives g text v p tag (.ok (some t)))
      pos ts) : Chained g text tag pos items ts (stopAfter pos ts) := by
  induction ts generalizing pos items with
  | nil =>
    obtain rfl := List.length_eq_zero_iff.mp length.symm
    exact .nil
  | cons t ts ih =>
    cases items with
    | nil => cases length
    | cons v items =>
      obtain ⟨first, rest⟩ := linked_cons.mp chain
      rw [stopAfter_cons]
      exact .cons (first v rfl) (ih (Nat.succ.inj length) (by simpa using rest))

/-- The parts of a sequence are matches of its items. -/
theorem Gives.chained {text : Text} {items : List Validator} {pos : Nat} {tag : String}
    {t : Tree} (h : Gives g text (.sequence items) pos tag (.ok (some t))) :
    ∃ ts stop, t = .list ⟨tag, false, pos, stop⟩ ts ∧ Chained g text tag pos items ts stop := by
  generalize ho : Except.ok (some t) = o at h
  cases h with
  | sequence length chain =>
    cases ho
    exact ⟨_, _, rfl, chained_of_linked length chain⟩
  | sequenceBroken => exact absurd ho.symm broken_ne_some

/-- Where all alternatives of a rule are sequences, its node has the parts of one of them. -/
theorem Gives.chained_ref {text : Text} {name : String} {alternatives : List (List Validator)}
    {pos : Nat} {tag : String} {t : Tree}
    (hr : g.rule? name = some (alternatives.map .sequence))
    (h : Gives g text (.ref name) pos tag (.ok (some t))) :
    ∃ items ∈ alternatives, ∃ ts stop, t = .list ⟨name, true, pos, stop⟩ ts ∧
      Chained g text name pos items ts stop := by
  cases h with
  | chosen h hi matched _ =>
    cases hr.symm.trans h
    obtain ⟨items, hitems, rfl⟩ := List.mem_map.mp (List.mem_of_getElem? hi)
    obtain ⟨ts, _, rfl, chain⟩ := matched.chained
    exact ⟨items, hitems, ts, _, rfl, chain⟩

theorem munches_nil : Munches g (.sequence []) := by
  intro text pos tag o h
  rw [Grammar.language_nil]
  cases h with
  | @sequence _ _ _ ts length _ =>
    obtain rfl := List.eq_nil_of_length_eq_zero length
    exact ⟨[], Longest.one, rfl⟩
  | sequenceBroken item => simp at item

omit [Regex] in
/-- What an outcome takes depends only on where it stops. -/
theorem takesLongest_congr {A : Language Char} {text : Text} {pos : Nat} {o o' : Outcome}
    (h : o.map (·.map Tree.stop) = o'.map (·.map Tree.stop)) (ho : TakesLongest A text pos o') :
    TakesLongest A text pos o := by
  rcases o with e | _ | t <;> rcases o' with e' | _ | t' <;> simp [Except.map] at h
  · exact ho
  · exact ho
  · obtain ⟨w, hw, hstop⟩ := ho
    exact ⟨w, hw, h.trans hstop⟩

omit [Regex] in
/-- A longest prefix, and the longest prefix in another language after it. -/
theorem takesLongest_mul {A B : Language Char} (safe : Safe A B) {text : Text} {pos : Nat}
    {u : List Char} (hu : Longest A (text.toList.drop pos) u) {o : Outcome}
    (ho : TakesLongest B text (pos + u.length) o) : TakesLongest (A * B) text pos o := by
  rcases o with e | _ | t
  · exact ho
  · refine Missing.mul_right safe hu ?_
    rw [List.drop_drop]
    exact ho
  · obtain ⟨w, hw, hstop⟩ := ho
    refine ⟨u ++ w, hu.mul safe ?_, ?_⟩
    · rw [List.drop_drop]
      exact hw
    · rw [List.length_append, ← Nat.add_assoc]
      exact hstop

theorem munches_cons {v : Validator} {items : List Validator} (hv : Munches g v)
    (hs : Munches g (.sequence items))
    (safe : Safe (g.language v) (g.language (.sequence items))) :
    Munches g (.sequence (v :: items)) := by
  intro text pos tag o h
  rw [Grammar.language_cons]
  rcases h.sequence_cons with ⟨b, rfl, hb⟩ | ⟨t, ht, o', ho', hstop⟩
  · cases b with
    | none => exact (hv.missing hb).mul_left
    | some e => exact absurd hb hv.no_error
  · obtain ⟨u, hu, htu⟩ := hv.longest ht
    rw [htu] at ho'
    exact takesLongest_congr hstop (takesLongest_mul safe hu (hs _ _ _ _ ho'))

/-- A sequence of two items. -/
theorem munches_two {v w : Validator} (hv : Munches g v) (hw : Munches g w)
    (safe : Safe (g.language v) (g.language w)) : Munches g (.sequence [v, w]) := by
  have last : Munches g (.sequence [w]) := by
    refine munches_cons hw munches_nil (Apart.safe fun c _ ho => ?_)
    rw [Grammar.language_nil] at ho
    exact not_opens_one ho
  refine munches_cons hv last ?_
  rwa [Grammar.language_cons, Grammar.language_nil, mul_one]

/-- A sequence of three items. -/
theorem munches_three {u v w : Validator} (hu : Munches g u) (hv : Munches g v) (hw : Munches g w)
    (safe : Safe (g.language u) (g.language v * g.language w))
    (safe' : Safe (g.language v) (g.language w)) : Munches g (.sequence [u, v, w]) := by
  refine munches_cons hu (munches_two hv hw safe') ?_
  rwa [Grammar.language_cons, Grammar.language_cons, Grammar.language_nil, mul_one]

/-! ### Quantifiers -/

theorem munches_opt {v : Validator} (hv : Munches g v) :
    Munches g (.quantified v .zeroOrOne) := by
  intro text pos tag o h
  rw [Grammar.language_opt]
  cases h with
  | once matched =>
    obtain ⟨u, hu, hstop⟩ := hv.longest matched
    exact ⟨u, hu.one_add, hstop⟩
  | noOnce failed => exact ⟨[], (hv.missing failed).one_add, rfl⟩
  | onceError failed => exact absurd failed hv.no_error
  | many ha => simp at ha
  | manyError ha => simp at ha

/-- Rounds of longest prefixes up to one that fails make up a longest prefix in the star. -/
theorem longest_rounds {v : Validator} (hv : Munches g v) (nonempty : [] ∉ g.language v)
    (apart : Apart (g.language v) (g.language v)) {text : Text} {tag : String}
    {last : Option Tree} {ts : List Tree} {pos : Nat}
    (chain : Linked (fun _ p t => Gives g text v p tag (.ok (some t))) pos ts)
    (hl : Gives g text v (stopAfter pos ts) tag (.ok last))
    (halts : ∀ t, last = some t → t.stop ≤ stopAfter pos ts) :
    ∃ w, Longest (g.language v)∗ (text.toList.drop pos) w ∧ stopAfter pos ts = pos + w.length ∧
      (ts ≠ [] → Longest (g.language v * (g.language v)∗) (text.toList.drop pos) w) := by
  induction ts generalizing pos with
  | nil =>
    cases last with
    | none => exact ⟨[], (hv.missing hl).kstar, rfl, fun h => absurd rfl h⟩
    | some t =>
      -- a round that takes nothing takes the empty word
      obtain ⟨w, hw, hstop⟩ := hv.longest hl
      have := halts t rfl
      obtain rfl : w = [] := List.eq_nil_of_length_eq_zero (by omega)
      exact absurd hw.mem nonempty
  | cons t ts ih =>
    obtain ⟨first, chain⟩ := linked_cons.mp chain
    rw [stopAfter_cons] at hl halts ⊢
    obtain ⟨u, hu, hstop⟩ := hv.longest first
    obtain ⟨w, hw, hend, -⟩ := ih chain hl halts
    rw [hstop, ← List.drop_drop] at hw
    have both := hu.mul apart.kstar.safe hw
    refine ⟨u ++ w, both.kstar, ?_, fun _ => both⟩
    rw [hend, hstop, List.length_append, Nat.add_assoc]

theorem munches_many {v : Validator} (hv : Munches g v) (nonempty : [] ∉ g.language v)
    (apart : Apart (g.language v) (g.language v)) : Munches g (.quantified v .zeroOrMore) := by
  intro text pos tag o h
  rw [Grammar.language_many]
  cases h with
  | many _ chain _ last halts =>
    obtain ⟨w, hw, hstop, -⟩ := longest_rounds hv nonempty apart chain last halts
    exact ⟨w, hw, hstop⟩
  | manyError _ _ _ last => exact absurd last hv.no_error

theorem munches_some {v : Validator} (hv : Munches g v) (nonempty : [] ∉ g.language v)
    (apart : Apart (g.language v) (g.language v)) : Munches g (.quantified v .oneOrMore) := by
  intro text pos tag o h
  rw [Grammar.language_some]
  cases h with
  | many ha chain _ last halts =>
    obtain ⟨w, -, hstop, hw⟩ := longest_rounds hv nonempty apart chain last halts
    exact ⟨w, hw (by simpa using ha), hstop⟩
  | manyError _ _ _ last => exact absurd last hv.no_error
  | someEmpty matched empty =>
    obtain ⟨u, hu, hstop⟩ := hv.longest matched
    obtain rfl : u = [] := List.eq_nil_of_length_eq_zero (by omega)
    exact absurd hu.mem nonempty
  | someNone failed => exact (hv.missing failed).mul_left

end OrderedGrammar.Matching
