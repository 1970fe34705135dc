import OrderedGrammar.Proofs.Tree.Alike
import OrderedGrammar.Transform.Basic

/-!
Transforming trees that are alike. A node gathers from below what is gathered from the leaves and
rule nodes nearest to it (`collect_eq_nearest`). Transforms that look at nothing of a node but what
it tells of itself therefore make no difference between alike trees: the same calls are made in the
same order, with the same outcome (`apply_alike`).
-/

namespace OrderedGrammar

namespace Transform

variable {σ : Type}

/-! ### Gathering from what is nearest -/

section Nearest

variable (fs : Transforms σ) (src : Text)

theorem contribution_structural {t : Tree} (h : t.isRule = false) (vs : List Value) :
    contribution fs src t vs = pure vs := by
  simp [contribution, h]

theorem collectAll_append (ts us : List Tree) : collectAll fs src (ts ++ us) = (do
    let first ← collectAll fs src ts
    return first ++ (← collectAll fs src us)) := by
  induction ts with
  | nil => simp [collectAll]
  | cons t rest ih =>
    simp only [List.cons_append, collectAll, ih, bind_assoc, pure_bind, List.append_assoc]

theorem collectAll_singleton (t : Tree) : collectAll fs src [t] = (do
    contribution fs src t (← collect fs src t)) := by
  simp [collectAll]

mutual

/-- A node gathers what the leaves and rule nodes nearest below it contribute. -/
theorem collect_eq_nearest : ∀ t : Tree, collect fs src t = collectAll fs src t.nearest
  | .text i s => by
    rw [Tree.nearest, collectAll_singleton, collect, collect, pure_bind]
    exact (contribution_structural fs src rfl _).symm
  | .single i c => by
    rw [collect, Tree.nearest]
    cases rule : c.isRule with
    | true => exact (collectAll_singleton fs src c).symm
    | false =>
      simp only [contribution_structural fs src rule, bind_pure]
      exact collect_eq_nearest c
  | .list i cs => by
    rw [collect, Tree.nearest]
    exact collectAll_eq_nearest cs

theorem collectAll_eq_nearest : ∀ ts : List Tree,
    collectAll fs src ts = collectAll fs src (Tree.nearestAll ts)
  | [] => rfl
  | t :: rest => by
    have first : (do contribution fs src t (← collect fs src t)) =
        collectAll fs src (if t.isRule then [t] else t.nearest) := by
      cases rule : t.isRule with
      | true => exact (collectAll_singleton fs src t).symm
      | false =>
        simp only [contribution_structural fs src rule, bind_pure]
        exact collect_eq_nearest t
    rw [Tree.nearestAll, collectAll_append, ← first, ← collectAll_eq_nearest rest, collectAll,
      bind_assoc]

end

end Nearest

/-! ### Runs that are alike -/

/-- Calls for nodes that tell the same of themselves, with the same values and the same text. -/
def AlikeCall (c c' : Context) : Prop :=
  c.node.info = c'.node.info ∧ c.values = c'.values ∧ c.text = c'.text

/-- The transforms look at nothing but the rule, the span, the values and the text. -/
def IgnoresShape (fs : Transforms σ) : Prop :=
  ∀ rule f, fs rule = some f → ∀ s c c', AlikeCall c c' → f s c = f s c'

/-- The same result and state, after alike calls. -/
def AlikeResults {α : Type} (r r' : α × σ × Array Context) : Prop :=
  r.1 = r'.1 ∧ r.2.1 = r'.2.1 ∧ List.Forall₂ AlikeCall r.2.2.toList r'.2.2.toList

/-- From one state, after alike calls, the computations make alike calls and come to the same. -/
def AlikeRuns {α : Type} (m m' : Traced σ α) : Prop :=
  ∀ (s : σ) (calls calls' : Array Context), List.Forall₂ AlikeCall calls.toList calls'.toList →
    AlikeResults (m.run.run (s, calls)) (m'.run.run (s, calls'))

section AlikeRuns

variable {α β : Type}

theorem alikeRuns_pure (a : α) : AlikeRuns (pure a : Traced σ α) (pure a) := by
  intro s calls calls' h
  exact ⟨rfl, rfl, h⟩

theorem AlikeRuns.bind {m m' : Traced σ α} {f f' : α → Traced σ β} (h : AlikeRuns m m')
    (hf : ∀ a, AlikeRuns (f a) (f' a)) : AlikeRuns (m >>= f) (m' >>= f') := by
  intro s calls calls' hs
  obtain ⟨same, state, alike⟩ := h s calls calls' hs
  simp only [ExceptT.run_bind, StateT.run_bind]
  rcases hm : m.run.run (s, calls) with ⟨r, s₁, calls₁⟩
  rcases hm' : m'.run.run (s, calls') with ⟨r', s₁', calls₁'⟩
  rw [hm, hm'] at same state alike
  obtain rfl : r = r' := same
  obtain rfl : s₁ = s₁' := state
  cases r with
  | error e => exact ⟨rfl, rfl, alike⟩
  | ok a => exact hf a s₁ calls₁ calls₁' alike

theorem alikeRuns_call {f : Transform σ} {c c' : Context} (hc : AlikeCall c c')
    (hf : ∀ s, f s c = f s c') : AlikeRuns (call f c) (call f c') := by
  intro s calls calls' h
  have recorded : List.Forall₂ AlikeCall (calls.push c).toList (calls'.push c').toList := by
    simpa using List.rel_append h (.cons hc .nil)
  have value : (f s c).1 = (f s c').1 := congrArg Prod.fst (hf s)
  have state : (f s c).2 = (f s c').2 := congrArg Prod.snd (hf s)
  exact ⟨value, state, recorded⟩

end AlikeRuns

/-! ### Trees that are alike -/

section Trees

variable {fs : Transforms σ} {src : Text} {t t' : Tree}

theorem source_eq_of_alike (h : Tree.Alike t t') : t.source src = t'.source src := by
  rw [Tree.source, Tree.source, h.start_eq, h.stop_eq]

/-- Alike nodes with the same values below them come to the same. -/
theorem alikeRuns_valueOf (ignores : IgnoresShape fs) (h : Tree.Alike t t') (vs : List Value) :
    AlikeRuns (valueOf fs src t vs) (valueOf fs src t' vs) := by
  have rule : t.rule = t'.rule := congrArg NodeInfo.rule h.info_eq
  have passed : passOn t vs = passOn t' vs := by cases h <;> rfl
  unfold valueOf
  rw [← h.isRule_eq, ← rule]
  cases hf : (if t.isRule then fs t.rule else none) with
  | none =>
    rw [passed]
    exact alikeRuns_pure _
  | some f =>
    have given : fs t.rule = some f := by
      cases hr : t.isRule with
      | true => simpa [hr] using hf
      | false => simp [hr] at hf
    have same : AlikeCall ⟨t, vs, t.source src⟩ ⟨t', vs, t'.source src⟩ :=
      ⟨h.info_eq, rfl, source_eq_of_alike h⟩
    exact alikeRuns_call same fun s => ignores _ _ given s _ _ same

theorem alikeRuns_contribution (ignores : IgnoresShape fs) (h : Tree.Alike t t') (vs : List Value) :
    AlikeRuns (contribution fs src t vs) (contribution fs src t' vs) := by
  unfold contribution
  rw [← h.isRule_eq]
  split
  · exact (alikeRuns_valueOf ignores h vs).bind fun v => alikeRuns_pure _
  · exact alikeRuns_pure vs

mutual

theorem alikeRuns_collect (ignores : IgnoresShape fs) {t t' : Tree} (h : Tree.Alike t t') :
    AlikeRuns (collect fs src t) (collect fs src t') := by
  match h with
  | .text => exact alikeRuns_pure _
  | .single h =>
    rw [collect, collect]
    exact (alikeRuns_collect ignores h).bind fun vs => alikeRuns_contribution ignores h vs
  | @Tree.Alike.list _ cs cs' h =>
    rw [collect, collect, collectAll_eq_nearest fs src cs, collectAll_eq_nearest fs src cs']
    exact alikeRuns_collectAll ignores h

theorem alikeRuns_collectAll (ignores : IgnoresShape fs) {ts ts' : List Tree}
    (h : Tree.AlikeAll ts ts') : AlikeRuns (collectAll fs src ts) (collectAll fs src ts') := by
  match h with
  | .nil => exact alikeRuns_pure _
  | .cons h hs =>
    rw [collectAll, collectAll]
    refine (alikeRuns_collect ignores h).bind fun us => ?_
    refine (alikeRuns_contribution ignores h us).bind fun vs => ?_
    exact (alikeRuns_collectAll ignores hs).bind fun ws => alikeRuns_pure _

end

/-- Alike trees make alike calls and come to the same value or error. -/
theorem apply_alike (ignores : IgnoresShape fs) (h : Tree.Alike t t') (s : σ) :
    AlikeResults (applyFrom fs src t s) (applyFrom fs src t' s) := by
  have runs : AlikeRuns (do valueOf fs src t (← collect fs src t))
      (do valueOf fs src t' (← collect fs src t')) :=
    (alikeRuns_collect ignores h).bind fun vs => alikeRuns_valueOf ignores h vs
  exact runs s #[] #[] .nil

end Trees

end Transform

end OrderedGrammar
