import Mathlib
import OrderedGrammar.Pattern.Matcher

/-!
Where the match of a pattern can end. The matcher hands the places it reaches to a continuation, so
what is proved of a search is a property of whatever it finds: `Search.Finds P` holds if each state
that comes out of the search has `P`, whatever is remembered meanwhile. Reading forward, an
expression hands on no place before the one it began at and none beyond the text (`finds_run`), so a
match takes a slice of the text that begins where matching began (`Pattern.matchAt_bounds`).
-/

namespace OrderedGrammar.Pattern

/-! ### What a search finds -/

/-- Every state that the search gives has the property, whatever is remembered when it begins. -/
def Search.Finds (P : State → Prop) (a : Search) : Prop :=
  ∀ memory s, (a.run memory).1 = some s → P s

section Finds

variable {P : State → Prop}

theorem finds_nothing : Search.nothing.Finds P := by
  intro memory s h
  exact absurd h (by simp [Search.nothing, StateT.run, pure, StateT.pure])

theorem finds_found {s : State} (h : P s) : Search.Finds P (pure (some s)) := by
  intro memory s' hs
  have : s = s' := by simpa [StateT.run, pure, StateT.pure] using hs
  exact this ▸ h

/-- A search that goes on from what another one found. -/
theorem finds_bind {Q : State → Prop} {a : Search} {f : Option State → Search}
    (ha : a.Finds Q) (hsome : ∀ s, Q s → (f (some s)).Finds P) (hnone : (f none).Finds P) :
    Search.Finds P (a >>= f) := by
  intro memory s h
  rw [StateT.run_bind] at h
  cases hr : (a.run memory).1 with
  | none =>
    refine hnone (a.run memory).2 s ?_
    rw [← hr]; exact h
  | some found =>
    refine hsome found (ha memory found hr) (a.run memory).2 s ?_
    rw [← hr]; exact h

theorem finds_any (a : Search) : a.Finds fun _ => True := fun _ _ _ => trivial

theorem Search.Finds.orElse {a : Search} {b : Unit → Search} (ha : a.Finds P)
    (hb : (b ()).Finds P) : (a.orElse b).Finds P :=
  finds_bind ha (fun _ => finds_found) hb

theorem Search.Finds.noting {kept : Bool} {m : Mark} {a : Unit → Search} (ha : (a ()).Finds P) :
    (Search.noting kept m a).Finds P := by
  refine finds_bind ha (fun _ => finds_found) ?_
  intro memory s h
  cases kept <;> exact absurd h (by simp [StateT.run, pure, StateT.pure, bind, StateT.bind, modify,
    modifyGet, MonadStateOf.modifyGet, StateT.modifyGet])

/-- A search that depends on what is remembered. -/
theorem finds_get {f : Std.HashSet Mark → Search} (h : ∀ memory, (f memory).Finds P) :
    Search.Finds P (get >>= f) :=
  fun memory s hs => h memory memory s hs

theorem Search.Finds.remembering {heeded kept : Bool} {m : Mark} {a : Unit → Search}
    (ha : (a ()).Finds P) : (Search.remembering heeded kept m a).Finds P := by
  refine finds_get fun memory => ?_
  split
  · exact finds_nothing
  · exact ha.noting

theorem Search.Finds.choose {goOn stop : Unit → Search} (hg : (goOn ()).Finds P)
    (hs : (stop ()).Finds P) (greed : Greed) : (greed.choose goOn stop).Finds P := by
  cases greed with
  | greedy => exact hg.orElse hs
  | lazy => exact hs.orElse hg

end Finds

/-! ### Single characters -/

/-- Every end of a stretch that is read forward lies between its beginning and the text's end. -/
theorem mem_stretch {text : Text} {set : CharSet} {fold : Bool} {fuel offset n : Nat}
    {reached : List Nat} (h : n ∈ stretch text .forward set fold fuel offset reached) :
    n ∈ reached ∨ offset < n ∧ n ≤ text.size := by
  induction fuel generalizing offset reached with
  | zero => exact Or.inl h
  | succ fuel ih =>
    simp only [stretch, Direction.next?] at h
    cases hc : text[offset]? with
    | none => simp only [hc, Option.map_none] at h; exact Or.inl h
    | some c =>
      have hlt : offset < text.size := (Array.getElem?_eq_some_iff.mp hc).1
      simp only [hc, Option.map_some] at h
      split at h
      · rcases ih h with hm | ⟨h1, h2⟩
        · rcases List.mem_cons.mp hm with rfl | hm
          · exact Or.inr ⟨Nat.lt_succ_self _, hlt⟩
          · exact Or.inl hm
        · exact Or.inr ⟨by omega, h2⟩
      · exact Or.inl h

/-- The character that is read forward is the one at the offset. -/
theorem next?_forward {text : Text} {offset after : Nat} {c : Char}
    (h : Direction.forward.next? text offset = some (c, after)) :
    after = offset + 1 ∧ after ≤ text.size := by
  simp only [Direction.next?, Option.map_eq_some_iff, Prod.mk.injEq] at h
  obtain ⟨_, hc, -, rfl⟩ := h
  exact ⟨rfl, (Array.getElem?_eq_some_iff.mp hc).1⟩

theorem readAll_forward {text : Text} {fold : Bool} {chars : List Char} {offset after : Nat}
    (h : readAll text .forward fold chars offset = some after) :
    offset ≤ after ∧ after ≤ max offset text.size := by
  induction chars generalizing offset with
  | nil =>
    cases Option.some.inj h
    exact ⟨Nat.le_refl _, Nat.le_max_left _ _⟩
  | cons c rest ih =>
    unfold readAll at h
    cases hn : Direction.forward.next? text offset with
    | none => simp [hn] at h
    | some next =>
      obtain ⟨h1, h2⟩ := next?_forward hn
      simp only [hn] at h
      split at h
      · obtain ⟨h3, h4⟩ := ih h
        exact ⟨by omega, by omega⟩
      · cases h

section Run

variable {P : State → Prop} {g : Setting}

/-- A continuation that only finds states with the property wherever it is taken up between an
offset and the end of the text. -/
def Onward (g : Setting) (P : State → Prop) (offset : Nat) (k : State → Search) : Prop :=
  ∀ s, offset ≤ s.offset → s.offset ≤ max offset g.text.size → (k s).Finds P

theorem Onward.mono {a b : Nat} {k : State → Search} (h : Onward g P a k) (hab : a ≤ b)
    (hb : b ≤ max a g.text.size) : Onward g P b k :=
  fun s h1 h2 => h s (by omega) (by omega)

theorem Onward.here {s : State} {k : State → Search} (h : Onward g P s.offset k) : (k s).Finds P :=
  h s (Nat.le_refl _) (Nat.le_max_left _ _)

/-- One character is read if it is accepted. -/
theorem finds_next {accepts : Char → Bool} {s : State} {k : State → Search}
    (hk : Onward g P s.offset k) :
    (match Direction.forward.next? g.text s.offset with
      | some (c, after) => if accepts c then k { s with offset := after } else .nothing
      | none => .nothing : Search).Finds P := by
  cases hn : Direction.forward.next? g.text s.offset with
  | none => exact finds_nothing
  | some next =>
    obtain ⟨h1, h2⟩ := next?_forward hn
    dsimp only
    split
    · exact hk _ (by dsimp only; omega) (by dsimp only; omega)
    · exact finds_nothing

theorem finds_ends {site : Site} {kept last : Bool} {s : State} {k : State → Search}
    (hk : Onward g P s.offset k) (offsets : List Nat)
    (h : ∀ n ∈ offsets, s.offset ≤ n ∧ n ≤ max s.offset g.text.size) :
    (Setting.ends site kept last s k offsets).Finds P := by
  induction offsets with
  | nil => exact finds_nothing
  | cons n rest ih =>
    obtain ⟨⟨h1, h2⟩, hrest⟩ := List.forall_mem_cons.mp h
    have first : (k { s with offset := n }).Finds P := hk _ h1 h2
    exact first.remembering.orElse (ih hrest)

theorem finds_characters {set : CharSet} {fold : Bool} {least : Nat} {most : Option Nat}
    {greed : Greed} {site : Site} {s : State} {k : State → Search} (hk : Onward g P s.offset k) :
    (g.characters set fold least most greed site .forward s k).Finds P := by
  have hreach : ∀ fuel, ∀ n ∈ stretch g.text .forward set fold fuel s.offset [s.offset],
      s.offset ≤ n ∧ n ≤ max s.offset g.text.size := by
    intro fuel n hn
    rcases mem_stretch hn with h | ⟨h1, h2⟩
    · rw [List.mem_singleton.mp h]; exact ⟨Nat.le_refl _, Nat.le_max_left _ _⟩
    · exact ⟨by omega, by omega⟩
  unfold Setting.characters
  cases greed with
  | greedy => exact finds_ends hk _ fun n hn => hreach _ n (List.mem_of_mem_take hn)
  | lazy =>
    refine Search.Finds.remembering (finds_ends hk _ fun n hn => ?_)
    exact hreach _ n (List.mem_of_mem_take (List.mem_reverse.mp hn))

/-! ### Repetitions -/

/-- A step that goes forward: it finds only states with the property if its continuation does. -/
def Advances (g : Setting) (P : State → Prop)
    (step : Site → State → (State → Search) → Search) : Prop :=
  ∀ site s k, Onward g P s.offset k → (step site s k).Finds P

theorem finds_rounds {step : Site → State → (State → Search) → Search} (hs : Advances g P step)
    (l : Setting.Loop) {k : State → Search} :
    ∀ (fuel done : Nat) (since : Option State) (s : State),
      Onward g P s.offset k → (g.rounds step l k fuel done since s).Finds P
  | 0, _, _, _, _ => finds_nothing
  | fuel + 1, done, since, _, hk => by
    refine finds_get fun memory => Search.Finds.choose ?_ ?_ l.greed
    · split
      · refine Search.Finds.noting (hs _ _ _ fun s' h1 h2 => ?_)
        exact finds_rounds hs l fuel (done + 1) _ s' (hk.mono h1 h2)
      · exact finds_nothing
    · split
      · exact Search.Finds.noting hk.here
      · exact finds_nothing

theorem finds_copies {step : Site → State → (State → Search) → Search} (hs : Advances g P step)
    {refers further : Bool} {site : Site} {k : State → Search} (n : Nat) (s : State)
    (hk : Onward g P s.offset k) : (Setting.copies step refers further site k n s).Finds P := by
  induction n generalizing site s with
  | zero => exact hk.here
  | succ n ih =>
    refine hs _ _ _ fun s' h1 h2 => ?_
    exact ih s' (hk.mono h1 h2)

/-! ### Expressions -/

/-- Reading forward never goes back behind the offset at which it began, nor beyond the text. -/
theorem finds_run (e : Expr) : ∀ (site : Site) (s : State) (k : State → Search),
    Onward g P s.offset k → (e.run g site .forward s k).Finds P := by
  induction e generalizing P with
  | empty => exact fun _ _ _ hk => hk.here
  | one set fold => exact fun _ _ _ hk => finds_next hk
  | dot lineFeeds => exact fun _ _ _ hk => finds_next hk
  | cat a b iha ihb =>
    exact fun _ _ _ hk => iha _ _ _ fun s' h1 h2 => ihb _ _ _ (hk.mono h1 h2)
  | alt a b iha ihb => exact fun _ _ _ hk => (iha _ _ _ hk).orElse (ihb _ _ _ hk)
  | group number body ih => exact fun _ _ _ hk => ih _ _ _ fun s' h1 h2 => hk _ h1 h2
  | backref target fold =>
    intro site s k hk
    unfold Expr.run
    cases captured? g.text g.names s .forward target with
    | none => exact finds_nothing
    | some chars =>
      cases hr : readAll g.text .forward fold chars s.offset with
      | none => simp only [hr]; exact finds_nothing
      | some after =>
        obtain ⟨h1, h2⟩ := readAll_forward hr
        simp only [hr]
        exact hk _ h1 h2
  | times least most greed body ih =>
    intro site s k hk
    unfold Expr.run
    cases body.single? with
    | some single => exact finds_characters hk
    | none =>
      refine finds_copies (fun _ _ _ h => ih _ _ _ h) least s fun s' h1 h2 => ?_
      split
      · exact hk s' h1 h2
      · exact finds_rounds (fun _ _ _ h => ih _ _ _ h) _ _ _ _ _ (hk.mono h1 h2)
  | atomic body ih =>
    intro site s k hk
    have inner := ih (P := fun s' => s.offset ≤ s'.offset ∧ s'.offset ≤ max s.offset g.text.size)
      (site.apart 0) s (fun s' => pure (some s')) fun s' h1 h2 => finds_found ⟨h1, h2⟩
    exact finds_bind inner (fun s' h => hk s' h.1 h.2) finds_nothing
  | look direction positive body ih =>
    intro site s k hk
    refine finds_bind (finds_any _) (fun s' _ => ?_) ?_
    · cases positive
      · exact finds_nothing
      · exact hk _ (Nat.le_refl _) (Nat.le_max_left _ _)
    · cases positive
      · exact hk.here
      · exact finds_nothing
  | anchor a =>
    intro site s k hk
    unfold Expr.run
    split
    · exact hk.here
    · exact finds_nothing

end Run

end OrderedGrammar.Pattern

namespace OrderedGrammar

/-- A match takes a slice of the text that begins where matching began. -/
theorem Pattern.matchAt_bounds {p : Pattern} {text : Text} {offset stop : Nat}
    (h : p.matchAt text offset = some stop) : offset ≤ stop ∧ stop ≤ max offset text.size := by
  unfold Pattern.matchAt at h
  split at h
  · obtain ⟨s, hs, rfl⟩ := Option.map_eq_some_iff.mp h
    exact Pattern.finds_run (P := fun s => offset ≤ s.offset ∧ s.offset ≤ max offset text.size)
      p.root {} _ _ (fun s h1 h2 => Pattern.finds_found ⟨h1, h2⟩) {} s hs
  · cases h

end OrderedGrammar
