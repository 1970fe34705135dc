import OrderedGrammar.Proofs.Language.Words

/-!
Longest prefixes of a text in a language. If two languages are apart, the longest prefixes in both,
one after the other, make up the longest prefix in the product (`Longest.mul`), and rounds of
longest prefixes make up the one in the star (`Longest.kstar`). Where a word could go on as the
second language begins, it is enough that nothing longer is lost by going on (`Safe`).
-/

namespace OrderedGrammar.Words

open scoped Computability

variable {A B : Language Char} {P : Char → Prop}

/-! ### Longest prefixes -/

/-- The word is the longest prefix of the text in the language. -/
structure Longest (A : Language Char) (text w : List Char) : Prop where
  mem : w ∈ A
  isPrefix : w <+: text
  longest : ∀ x ∈ A, x <+: text → x.length ≤ w.length

/-- No prefix of the text is in the language. -/
def Missing (A : Language Char) (text : List Char) : Prop := ∀ x ∈ A, ¬ x <+: text

/-- Where a word goes on although a word of the second language could follow, that language may be
left out, and what would follow is not longer or belongs to the first language. -/
def Safe (A B : Language Char) : Prop :=
  ∀ a x b, a ∈ A → x ≠ [] → a ++ x ∈ A → b ∈ B → b ≠ [] → (b <+: x ∨ x <+: b) →
    [] ∈ B ∧ (b.length ≤ x.length ∨ a ++ b ∈ A)

/-- Words of the first language are no shorter than the words of the second that they begin. -/
def Precedes (A B : Language Char) : Prop :=
  ∀ x ∈ A, ∀ y ∈ B, x <+: y → y.length ≤ x.length

theorem Apart.safe (apart : Apart A B) : Safe A B := by
  intro a x b ha hx hax hb hne h
  obtain ⟨r, hbx⟩ : ∃ r, b <+: x ++ r := by
    rcases h with h | ⟨r, rfl⟩
    · exact ⟨[], by simpa using h⟩
    · exact ⟨r, List.prefix_rfl⟩
  rcases apart.eq_nil ha hax hb hbx with h | h
  · exact absurd h hx
  · exact absurd h hne

/-- Words of the second language that begin with a character of the first belong to it when they are
put behind its words. -/
theorem safe_of_absorbed (hA : Over A P) (hnil : [] ∈ B)
    (absorbed : ∀ a ∈ A, ∀ c y, P c → c :: y ∈ B → a ++ c :: y ∈ A) : Safe A B := by
  intro a x b ha hx hax hb hne h
  refine ⟨hnil, Or.inr ?_⟩
  cases x with
  | nil => exact absurd rfl hx
  | cons c x =>
    cases b with
    | nil => exact absurd rfl hne
    | cons d y =>
      obtain rfl : c = d := by
        rcases h with h | h
        · exact (List.cons_prefix_cons.mp h).1.symm
        · exact (List.cons_prefix_cons.mp h).1
      exact absorbed a ha c y (hA _ hax c (by simp)) hb

/-- What the first language goes on with never ends as the words of the second do throughout. -/
theorem safe_of_closes (hA : ∀ c, Closes A c → ¬ P c) (hB : Over B P) (hnil : [] ∈ B) :
    Safe A B := by
  intro a x b ha hx hax hb hne h
  refine ⟨hnil, Or.inl ?_⟩
  rcases h with h | h
  · exact h.length_le
  · obtain ⟨y, c, rfl⟩ := (List.eq_nil_or_concat x).resolve_left hx
    rw [List.concat_eq_append, ← List.append_assoc] at hax
    exact absurd (hB b hb c (h.subset (by simp))) (hA c ⟨_, hax⟩)

/-- Where the first part of a product may be left out, a word that does not begin as that part does
belongs to the second. -/
theorem mem_of_not_opens {c : Char} {y : List Char} (h : c :: y ∈ (1 + A) * B)
    (hc : ¬ Opens A c) : c :: y ∈ B := by
  obtain ⟨a, ha, b, hb, hab⟩ := h
  cases a with
  | nil => exact hab ▸ hb
  | cons d a =>
    obtain ⟨rfl, -⟩ := List.cons.inj hab
    rcases ha with ha | ha
    · cases ha
    · exact absurd ⟨a, ha⟩ hc

/-- Words with a certain character are no beginnings of words without. -/
theorem precedes_of_marked (hA : Marked A P) (hB : Over B (¬ P ·)) : Precedes A B := by
  intro x hx y hy hxy
  obtain ⟨c, hc, hP⟩ := hA x hx
  exact absurd hP (hB y hy c (hxy.subset hc))

/-- Words are no beginnings of words that begin with other characters. -/
theorem precedes_of_opens (hA : [] ∉ A) (h : ∀ c, Opens A c → ¬ Opens B c) : Precedes A B := by
  intro x hx y hy hxy
  cases x with
  | nil => exact absurd hx hA
  | cons c x =>
    obtain ⟨z, rfl⟩ := hxy
    exact absurd ⟨x ++ z, hy⟩ (h c ⟨x, hx⟩)

/-- Single characters are all equally long. -/
theorem single_precedes {P Q : Char → Prop} : Precedes (single P) (single Q) := by
  rintro _ ⟨c, -, rfl⟩ _ ⟨d, -, rfl⟩ -
  exact Nat.le_refl _

section Longest

variable {r u v : List Char}

/-- A text is a word of a language if and only if it is its own longest prefix there. -/
theorem Longest.mem_iff (h : Longest A r u) : r ∈ A ↔ u.length = r.length := by
  constructor
  · intro ht
    exact Nat.le_antisymm h.isPrefix.length_le (h.longest r ht List.prefix_rfl)
  · intro hl
    exact h.isPrefix.eq_of_length hl ▸ h.mem

/-- How a word of a product that is a prefix of the text compares with the longest prefix in the
first language: it is cut there, or it is not longer. -/
theorem Longest.cut (safe : Safe A B) (hu : Longest A r u) {x : List Char} (hx : x ∈ A * B)
    (hxr : x <+: r) : (∃ b ∈ B, x = u ++ b ∧ b <+: r.drop u.length) ∨
      [] ∈ B ∧ x.length ≤ u.length := by
  obtain ⟨a, ha, b, hb, rfl⟩ := hx
  change a ++ b <+: r at hxr
  obtain ⟨r, rfl⟩ := hu.isPrefix
  rw [List.drop_left]
  have har : a <+: u ++ r := (List.prefix_append a b).trans hxr
  obtain ⟨z, rfl⟩ := List.prefix_of_prefix_length_le har hu.isPrefix (hu.longest a ha har)
  have hbz : b <+: z ++ r := by
    rw [List.append_assoc] at hxr
    exact (List.prefix_append_right_inj a).mp hxr
  by_cases hz : z = []
  · subst hz
    exact Or.inl ⟨b, hb, by simp, hbz⟩
  · right
    by_cases hne : b = []
    · subst hne
      exact ⟨hb, by simp⟩
    · obtain ⟨hnil, hle⟩ := safe a z b ha hz hu.mem hb hne
        (List.prefix_or_prefix_of_prefix hbz (List.prefix_append z r))
      refine ⟨hnil, ?_⟩
      rcases hle with hle | hab
      · simp only [List.length_append]; omega
      · exact hu.longest _ hab hxr

theorem Longest.mul (safe : Safe A B) (hu : Longest A r u) (hv : Longest B (r.drop u.length) v) :
    Longest (A * B) r (u ++ v) := by
  refine ⟨Language.append_mem_mul hu.mem hv.mem, ?_, fun x hx hxr => ?_⟩
  · obtain ⟨r, rfl⟩ := hu.isPrefix
    have := hv.isPrefix
    rw [List.drop_left] at this
    exact (List.prefix_append_right_inj u).mpr this
  · rw [List.length_append]
    rcases hu.cut safe hx hxr with ⟨b, hb, rfl, hbr⟩ | ⟨-, hle⟩
    · rw [List.length_append]
      exact Nat.add_le_add_left (hv.longest b hb hbr) _
    · omega

theorem Missing.mul_left (h : Missing A r) : Missing (A * B) r := by
  rintro _ ⟨a, ha, b, -, rfl⟩ hr
  exact h a ha ((List.prefix_append a b).trans hr)

theorem Missing.mul_right (safe : Safe A B) (hu : Longest A r u)
    (h : Missing B (r.drop u.length)) : Missing (A * B) r := by
  intro x hx hxr
  rcases hu.cut safe hx hxr with ⟨b, hb, -, hbr⟩ | ⟨hnil, -⟩
  · exact h b hb hbr
  · exact h [] hnil List.nil_prefix

theorem Longest.one : Longest 1 r [] := by
  refine ⟨Language.nil_mem_one, List.nil_prefix, ?_⟩
  rintro _ ⟨⟩ -
  exact Nat.le_refl _

theorem Longest.one_add (h : Longest A r u) : Longest (1 + A) r u := by
  refine ⟨Or.inr h.mem, h.isPrefix, fun x hx hr => ?_⟩
  rcases hx with hx | hx
  · obtain rfl := (Language.mem_one _).mp hx
    exact Nat.zero_le _
  · exact h.longest x hx hr

theorem Missing.one_add (h : Missing A r) : Longest (1 + A) r [] := by
  refine ⟨Or.inl rfl, List.nil_prefix, fun x hx hr => ?_⟩
  rcases hx with hx | hx
  · obtain rfl := (Language.mem_one _).mp hx
    exact Nat.le_refl _
  · exact absurd hr (h x hx)

theorem Missing.kstar (h : Missing A r) : Longest A∗ r [] := by
  rw [← Language.one_add_self_mul_kstar_eq_kstar]
  exact (h.mul_left).one_add

/-- One more round. -/
theorem Longest.kstar (h : Longest (A * A∗) r u) : Longest A∗ r u := by
  rw [← Language.one_add_self_mul_kstar_eq_kstar]
  exact h.one_add

theorem Apart.kstar (apart : Apart A A) : Apart A A∗ :=
  fun c hg ho => apart c hg ho.of_kstar

end Longest

end OrderedGrammar.Words
