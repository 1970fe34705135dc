import OrderedGrammar.Proofs.Tree.Order

/-!
Trees that differ in structural nodes only. Two trees are `Alike` if their roots tell the same and
hold the same text, only children that are alike, or lists below which the nearest leaves and rule
nodes are alike one by one. How those are grouped by structural nodes makes no difference.
-/

namespace OrderedGrammar

namespace Tree

mutual

/-- The same tree but for structural nodes below lists. -/
inductive Alike : Tree → Tree → Prop
  | text {i s} : Alike (text i s) (text i s)
  | single {i c c'} (h : Alike c c') : Alike (single i c) (single i c')
  | list {i cs cs'} (h : AlikeAll (nearestAll cs) (nearestAll cs')) : Alike (list i cs) (list i cs')

/-- Trees in order that are alike one by one. -/
inductive AlikeAll : List Tree → List Tree → Prop
  | nil : AlikeAll [] []
  | cons {t t' ts ts'} (h : Alike t t') (hs : AlikeAll ts ts') : AlikeAll (t :: ts) (t' :: ts')

end

theorem Alike.info_eq {t t' : Tree} (h : Alike t t') : t.info = t'.info := by
  cases h <;> rfl

theorem Alike.isRule_eq {t t' : Tree} (h : Alike t t') : t.isRule = t'.isRule :=
  congrArg NodeInfo.isRule h.info_eq

theorem Alike.stop_eq {t t' : Tree} (h : Alike t t') : t.stop = t'.stop :=
  congrArg NodeInfo.stop h.info_eq

theorem Alike.start_eq {t t' : Tree} (h : Alike t t') : t.start = t'.start :=
  congrArg NodeInfo.start h.info_eq

theorem AlikeAll.append {ts ts' us us' : List Tree} (h : AlikeAll ts ts') (h' : AlikeAll us us') :
    AlikeAll (ts ++ us) (ts' ++ us') := by
  match h with
  | .nil => exact h'
  | .cons h hs => exact .cons h (hs.append h')

/-- What is nearest below alike nodes is alike. -/
theorem Alike.nearest {t t' : Tree} (h : Alike t t') : AlikeAll t.nearest t'.nearest := by
  match h with
  | .text => exact .cons .text .nil
  | .list h => exact h
  | .single (c := c) h =>
    simp only [Tree.nearest, ← h.isRule_eq]
    cases rule : c.isRule with
    | true => exact .cons h .nil
    | false => exact h.nearest

/-- What alike nodes add to what is nearest in a list is alike. -/
theorem Alike.tops {t t' : Tree} (h : Alike t t') :
    AlikeAll (if t.isRule then [t] else t.nearest) (if t'.isRule then [t'] else t'.nearest) := by
  rw [← h.isRule_eq]
  cases t.isRule with
  | true => exact .cons h .nil
  | false => exact h.nearest

theorem alikeAll_nearestAll {ts ts' : List Tree} (h : List.Forall₂ Alike ts ts') :
    AlikeAll (nearestAll ts) (nearestAll ts') := by
  induction h with
  | nil => exact .nil
  | cons first _ ih => exact first.tops.append ih

/-- The nodes of a rule over alike nodes. -/
theorem alike_asRule {t t' : Tree} (name : String) (h : Alike t t') :
    Alike (t.asRule name) (t'.asRule name) := by
  have rule := h.isRule_eq
  have start := h.start_eq
  have stop := h.stop_eq
  unfold asRule
  rw [← rule, ← start, ← stop]
  split
  · exact .single h
  · cases h with
    | text => exact .text
    | single h => exact .single h
    | list h => exact .list h

end Tree

end OrderedGrammar
