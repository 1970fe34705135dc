import Mathlib

/-!
Languages told by their characters: those that words begin with (`Opens`) and end with (`Closes`),
those with which a word goes on after a shorter one (`GoesOn`), and properties that all characters
of all words have (`Over`) or some character of each (`Marked`). Each comes with what it says of
sums, products and stars. A product of two languages is cut at one place only if the first never
goes on as the second begins (`Apart`).
-/

namespace OrderedGrammar.Words

open scoped Computability

variable {A B : Language Char} {c : Char} {P Q : Char → Prop}

/-! ### First and last characters, and characters to go on with -/

/-- Some word begins with the character. -/
def Opens (A : Language Char) (c : Char) : Prop := ∃ y, c :: y ∈ A

/-- Some word goes on with the character after a shorter word. -/
def GoesOn (A : Language Char) (c : Char) : Prop := ∃ x y, x ∈ A ∧ x ++ c :: y ∈ A

/-- All characters of all words have the property. -/
def Over (A : Language Char) (P : Char → Prop) : Prop := ∀ w ∈ A, ∀ c ∈ w, P c

theorem not_opens_one : ¬ Opens 1 c := by
  rintro ⟨y, hy⟩
  cases hy

theorem Opens.of_add (h : Opens (A + B) c) : Opens A c ∨ Opens B c := by
  obtain ⟨y, hy⟩ := h
  exact hy.imp (fun h => ⟨y, h⟩) fun h => ⟨y, h⟩

theorem Opens.of_mul (h : Opens (A * B) c) : Opens A c ∨ [] ∈ A ∧ Opens B c := by
  obtain ⟨y, a, ha, b, hb, hab⟩ := h
  cases a with
  | nil => exact Or.inr ⟨ha, y, hab ▸ hb⟩
  | cons d a =>
    obtain ⟨rfl, -⟩ := List.cons.inj hab
    exact Or.inl ⟨a, ha⟩

/-- Where the first part is never empty, a product begins as that part does. -/
theorem Opens.left (h : Opens (A * B) c) (hne : [] ∉ A) : Opens A c :=
  h.of_mul.resolve_right fun hB => hne hB.1

theorem Opens.of_kstar (h : Opens A∗ c) : Opens A c := by
  obtain ⟨y, hy⟩ := h
  obtain ⟨ws, hws, hA⟩ := Language.mem_kstar_iff_exists_nonempty.mp hy
  cases ws with
  | nil => cases hws
  | cons w ws =>
    obtain ⟨hw, hne⟩ := hA w (List.mem_cons_self ..)
    cases w with
    | nil => exact absurd rfl hne
    | cons d w =>
      obtain ⟨rfl, -⟩ := List.cons.inj hws
      exact ⟨w, hw⟩

theorem GoesOn.mono (h : GoesOn A c) (hAB : A ≤ B) : GoesOn B c :=
  let ⟨x, y, hx, hy⟩ := h
  ⟨x, y, hAB hx, hAB hy⟩

theorem GoesOn.of_one_add (h : GoesOn (1 + A) c) : Opens A c ∨ GoesOn A c := by
  obtain ⟨x, y, hx, hy⟩ := h
  have hy : x ++ c :: y ∈ A := by
    rcases hy with hy | hy
    · exact absurd ((Language.mem_one _).mp hy) (by simp)
    · exact hy
  rcases hx with hx | hx
  · obtain rfl := (Language.mem_one _).mp hx
    exact Or.inl ⟨y, hy⟩
  · exact Or.inr ⟨x, y, hx, hy⟩

/-- Some word ends with the character. -/
def Closes (A : Language Char) (c : Char) : Prop := ∃ x, x ++ [c] ∈ A

theorem Closes.of_add (h : Closes (A + B) c) : Closes A c ∨ Closes B c := by
  obtain ⟨x, hx⟩ := h
  exact hx.imp (fun h => ⟨x, h⟩) fun h => ⟨x, h⟩

theorem Closes.mono (h : Closes A c) (hAB : A ≤ B) : Closes B c :=
  let ⟨x, hx⟩ := h
  ⟨x, hAB hx⟩

theorem not_closes_one : ¬ Closes 1 c := by
  rintro ⟨x, hx⟩
  simpa using (Language.mem_one _).mp hx

/-- The last character of an append is that of the second part. -/
theorem append_eq_concat {a b x : List Char} (hb : b ≠ []) (h : a ++ b = x ++ [c]) :
    ∃ y, b = y ++ [c] := by
  obtain ⟨y, d, rfl⟩ := (List.eq_nil_or_concat b).resolve_left hb
  rw [List.concat_eq_append, ← List.append_assoc] at h
  obtain ⟨-, hd⟩ := List.append_inj' h rfl
  exact ⟨y, by rw [List.concat_eq_append, hd]⟩

theorem Closes.of_mul (h : Closes (A * B) c) : Closes B c ∨ [] ∈ B ∧ Closes A c := by
  obtain ⟨x, a, ha, b, hb, hab⟩ := h
  by_cases hne : b = []
  · subst hne
    change a ++ [] = x ++ [c] at hab
    rw [List.append_nil] at hab
    exact Or.inr ⟨hb, x, hab ▸ ha⟩
  · obtain ⟨y, rfl⟩ := append_eq_concat hne hab
    exact Or.inl ⟨y, hb⟩

/-- Where the second part is never empty, a product ends as that part does. -/
theorem Closes.right (h : Closes (A * B) c) (hne : [] ∉ B) : Closes B c :=
  h.of_mul.resolve_right fun hA => hne hA.1

theorem Closes.of_kstar (h : Closes A∗ c) : Closes A c := by
  obtain ⟨x, hx⟩ := h
  obtain ⟨ws, hws, hA⟩ := Language.mem_kstar_iff_exists_nonempty.mp hx
  rcases List.eq_nil_or_concat ws with rfl | ⟨ws, w, rfl⟩
  · simp at hws
  · obtain ⟨hw, hne⟩ := hA w (by simp)
    have hab : ws.flatten ++ w = x ++ [c] := by rw [hws]; simp
    obtain ⟨y, rfl⟩ := append_eq_concat hne hab
    exact ⟨y, hw⟩

/-- The first language never goes on as the second begins. -/
def Apart (A B : Language Char) : Prop := ∀ c, GoesOn A c → ¬ Opens B c

/-- If the languages are apart, a word of the second that may follow a word of the first leaves that
word as it is. -/
theorem Apart.eq_nil (apart : Apart A B) {a x b r : List Char} (ha : a ∈ A) (hx : a ++ x ∈ A)
    (hb : b ∈ B) (h : b <+: x ++ r) : x = [] ∨ b = [] := by
  cases x with
  | nil => exact Or.inl rfl
  | cons d x =>
    cases b with
    | nil => exact Or.inr rfl
    | cons e b =>
      obtain ⟨rfl, -⟩ := List.cons_prefix_cons.mp h
      exact absurd ⟨b, hb⟩ (apart e ⟨a, x, ha, hx⟩)

/-- If the languages are apart, a text is a word of the first and one of the second in one way
only. -/
theorem Apart.cut (apart : Apart A B) {a a' b b' : List Char} (ha : a ∈ A) (ha' : a' ∈ A)
    (hb : b ∈ B) (hb' : b' ∈ B) (h : a ++ b = a' ++ b') : a = a' ∧ b = b' := by
  rcases List.append_eq_append_iff.mp h with ⟨z, rfl, rfl⟩ | ⟨z, rfl, rfl⟩
  · rcases apart.eq_nil ha ha' hb List.prefix_rfl with rfl | hn
    · simp
    · obtain ⟨rfl, rfl⟩ := List.append_eq_nil_iff.mp hn
      simp
  · rcases apart.eq_nil ha' ha hb' List.prefix_rfl with rfl | hn
    · simp
    · obtain ⟨rfl, rfl⟩ := List.append_eq_nil_iff.mp hn
      simp

/-- A product of languages that are apart goes on as the second does, or as the first does where the
second may be left out. -/
theorem GoesOn.of_mul (apart : Apart A B) (h : GoesOn (A * B) c) :
    GoesOn B c ∨ [] ∈ B ∧ GoesOn A c := by
  obtain ⟨_, y, ⟨a, ha, b, hb, rfl⟩, a', ha', b', hb', hab⟩ := h
  change a' ++ b' = (a ++ b) ++ c :: y at hab
  rw [List.append_assoc] at hab
  rcases List.append_eq_append_iff.mp hab with ⟨z, rfl, rfl⟩ | ⟨z, rfl, hz⟩
  · rcases apart.eq_nil ha' ha hb' List.prefix_rfl with rfl | h
    · exact Or.inl ⟨b, y, hb, hb'⟩
    · simp at h
  · rcases apart.eq_nil ha ha' hb ⟨c :: y, hz⟩ with rfl | rfl
    · exact Or.inl ⟨b, y, hb, hz ▸ hb'⟩
    · cases z with
      | nil => exact Or.inl ⟨[], y, hb, hz ▸ hb'⟩
      | cons d z =>
        obtain ⟨rfl, -⟩ := List.cons.inj hz
        exact Or.inr ⟨hb, a, z, ha, ha'⟩

/-- Where the second part is never empty, a product goes on as that part does. -/
theorem GoesOn.right (h : GoesOn (A * B) c) (apart : Apart A B) (hne : [] ∉ B) : GoesOn B c :=
  (h.of_mul apart).resolve_right fun hA => hne hA.1

/-! ### The characters of all words -/

theorem Over.imp (h : Over A P) (hPQ : ∀ c, P c → Q c) : Over A Q :=
  fun w hw c hc => hPQ c (h w hw c hc)

theorem Over.opens (h : Over A P) (ho : Opens A c) : P c :=
  let ⟨_, hy⟩ := ho
  h _ hy c (List.mem_cons_self ..)

theorem Over.closes (h : Over A P) (hc : Closes A c) : P c :=
  let ⟨_, hx⟩ := hc
  h _ hx c (by simp)

theorem Over.goesOn (h : Over A P) (hg : GoesOn A c) : P c :=
  let ⟨_, _, _, hy⟩ := hg
  h _ hy c (by simp)

theorem Over.one : Over 1 P := by
  rintro _ ⟨⟩ c hc
  cases hc

theorem Over.add (hA : Over A P) (hB : Over B P) : Over (A + B) P :=
  fun w hw => hw.elim (hA w) (hB w)

theorem Over.mul (hA : Over A P) (hB : Over B P) : Over (A * B) P := by
  rintro _ ⟨a, ha, b, hb, rfl⟩ c hc
  rcases List.mem_append.mp hc with hc | hc
  · exact hA a ha c hc
  · exact hB b hb c hc

theorem Over.kstar (hA : Over A P) : Over A∗ P := by
  rintro _ ⟨ws, rfl, h⟩ c hc
  obtain ⟨w, hw, hc⟩ := List.mem_flatten.mp hc
  exact hA w (h w hw) c hc

/-- Each word has a character with the property. -/
def Marked (A : Language Char) (P : Char → Prop) : Prop := ∀ w ∈ A, ∃ c ∈ w, P c

theorem Marked.mul_left (hA : Marked A P) : Marked (A * B) P := by
  rintro _ ⟨a, ha, b, -, rfl⟩
  obtain ⟨c, hc, hP⟩ := hA a ha
  exact ⟨c, List.mem_append_left b hc, hP⟩

theorem Marked.mul_right (hB : Marked B P) : Marked (A * B) P := by
  rintro _ ⟨a, -, b, hb, rfl⟩
  obtain ⟨c, hc, hP⟩ := hB b hb
  exact ⟨c, List.mem_append_right a hc, hP⟩

theorem Marked.add (hA : Marked A P) (hB : Marked B P) : Marked (A + B) P :=
  fun w hw => hw.elim (hA w) (hB w)

theorem Marked.imp (h : Marked A P) (hPQ : ∀ c, P c → Q c) : Marked A Q := fun w hw =>
  let ⟨c, hc, hP⟩ := h w hw
  ⟨c, hc, hPQ c hP⟩

/-! ### The empty word -/

@[simp] theorem nil_mem_mul : [] ∈ A * B ↔ [] ∈ A ∧ [] ∈ B := by
  simp [Language.mem_mul]

@[simp] theorem nil_mem_add : [] ∈ A + B ↔ [] ∈ A ∨ [] ∈ B := Language.mem_add A B []

theorem Over.marked (h : Over A P) (hne : [] ∉ A) : Marked A P := by
  intro w hw
  cases w with
  | nil => exact absurd hw hne
  | cons c w => exact ⟨c, List.mem_cons_self .., h _ hw c (List.mem_cons_self ..)⟩

theorem Marked.nil_notMem (h : Marked A P) : [] ∉ A := fun hn =>
  let ⟨_, hc, _⟩ := h [] hn
  List.not_mem_nil hc

/-! ### Single characters -/

/-- The words of one character with the property. -/
def single (P : Char → Prop) : Language Char := {w | ∃ c, P c ∧ w = [c]}

theorem single_over : Over (single P) P := by
  rintro _ ⟨d, hd, rfl⟩ c hc
  obtain rfl := List.mem_singleton.mp hc
  exact hd

theorem single_marked : Marked (single P) P := by
  rintro _ ⟨c, hc, rfl⟩
  exact ⟨c, List.mem_singleton_self c, hc⟩

theorem single_mono (hPQ : ∀ c, P c → Q c) : single P ≤ single Q := by
  rintro _ ⟨c, hc, rfl⟩
  exact ⟨c, hPQ c hc, rfl⟩

theorem mem_kstar_single {w : List Char} : w ∈ (single P)∗ ↔ ∀ c ∈ w, P c := by
  refine ⟨single_over.kstar w, fun h => ⟨w.map fun c => [c], ?_, fun x hx => ?_⟩⟩
  · induction w with
    | nil => rfl
    | cons c w ih => simpa using ih fun d hd => h d (List.mem_cons_of_mem c hd)
  · obtain ⟨c, hc, rfl⟩ := List.mem_map.mp hx
    exact ⟨c, h c hc, rfl⟩

theorem mem_single_mul_kstar {w : List Char} :
    w ∈ single P * (single P)∗ ↔ w ≠ [] ∧ ∀ c ∈ w, P c := by
  constructor
  · rintro ⟨_, ⟨c, hc, rfl⟩, y, hy, rfl⟩
    exact ⟨List.cons_ne_nil c y, List.forall_mem_cons.mpr ⟨hc, mem_kstar_single.mp hy⟩⟩
  · rintro ⟨hne, h⟩
    cases w with
    | nil => exact absurd rfl hne
    | cons c w =>
      obtain ⟨hc, hw⟩ := List.forall_mem_cons.mp h
      exact ⟨[c], ⟨c, hc, rfl⟩, w, mem_kstar_single.mpr hw, rfl⟩

/-- No word of one character goes on. -/
theorem single_apart : Apart (single P) B := by
  rintro c ⟨x, y, ⟨d, -, rfl⟩, e, -, he⟩
  simp at he

end OrderedGrammar.Words
