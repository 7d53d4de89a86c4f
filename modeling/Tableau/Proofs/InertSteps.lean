import Mathlib.Data.List.Forall2
import Tableau.Proofs.FinalScore

/-!
Scoring steps that change no score: steps that the rules do not know, steps on cards
that select none of them, and steps per card behind a suit that not all cards have.
They can be written into scripts anywhere, and left out of them.  Main statement:
`score_inert`.
-/

namespace Tableau

/-- Two lists agree but for elements that do not count, in any places. -/
inductive AgreeBut {α : Type} (inert : α → Prop) : List α → List α → Prop where
  | nil : AgreeBut inert [] []
  | cons {x : α} {left right : List α} (hrest : AgreeBut inert left right) :
      AgreeBut inert (x :: left) (x :: right)
  | left {x : α} {left right : List α} (hinert : inert x)
      (hrest : AgreeBut inert left right) : AgreeBut inert (x :: left) right
  | right {x : α} {left right : List α} (hinert : inert x)
      (hrest : AgreeBut inert left right) : AgreeBut inert left (x :: right)

namespace AgreeBut

variable {α β : Type} {inert : α → Prop} {left right : List α}

theorem append {left' right' : List α} (hagree : AgreeBut inert left right)
    (hagree' : AgreeBut inert left' right') :
    AgreeBut inert (left ++ left') (right ++ right') := by
  induction hagree with
  | nil => exact hagree'
  | cons _ ih => exact .cons ih
  | left hinert _ ih => exact .left hinert ih
  | right hinert _ ih => exact .right hinert ih

theorem map {inert' : β → Prop} {f : α → β} (hinert : ∀ x, inert x → inert' (f x))
    (hagree : AgreeBut inert left right) :
    AgreeBut inert' (left.map f) (right.map f) := by
  induction hagree with
  | nil => exact .nil
  | cons _ ih => exact .cons ih
  | left hx _ ih => exact .left (hinert _ hx) ih
  | right hx _ ih => exact .right (hinert _ hx) ih

/-- What does not count can be left out of a fold. -/
theorem foldl_eq {step : β → α → β}
    (hinert : ∀ x, inert x → ∀ state, step state x = state)
    (hagree : AgreeBut inert left right) (state : β) :
    left.foldl step state = right.foldl step state := by
  induction hagree generalizing state with
  | nil => rfl
  | cons _ ih => exact ih _
  | left hx _ ih => rw [List.foldl_cons, hinert _ hx, ih]
  | right hx _ ih => rw [List.foldl_cons, hinert _ hx, ih]

theorem forall_mem_iff {motive : α → Prop} (hinert : ∀ x, inert x → motive x)
    (hagree : AgreeBut inert left right) :
    (∀ x ∈ left, motive x) ↔ ∀ x ∈ right, motive x := by
  induction hagree with
  | nil => rfl
  | cons _ ih => simp only [List.forall_mem_cons, ih]
  | left hx _ ih => simp only [List.forall_mem_cons, hinert _ hx, true_and, ih]
  | right hx _ ih => simp only [List.forall_mem_cons, hinert _ hx, true_and, ih]

end AgreeBut

def Step.known : List (Scope × Action) :=
  [(.final, .add), (.final, .mult), (.final, .addTargetBase), (.perCard, .add),
    (.card, .add), (.card, .mult)]

namespace BoundStep

/-- The step changes no score while these cards are in play: no rule knows it,
it is one on cards and selects none, or it counts only if all cards are of a
suit and some card is not. -/
inductive Inert (cards : List InPlay) (bound : BoundStep) : Prop where
  | unknown (hunknown : (bound.step.scope, bound.step.action) ∉ Step.known)
  | nobody (himproves : bound.Improves)
      (hnone : ∀ seat ∈ cards, ¬ bound.Selects seat.card)
  | gated {suit : Suit} {seat : InPlay} (hscope : bound.step.scope = .perCard)
      (haction : bound.step.action = .add) (hgate : bound.step.gate = some suit)
      (hseat : seat ∈ cards) (hsuit : seat.card.suit ≠ suit)

variable {bound : BoundStep} {table : Table}

theorem Inert.not_resums (hinert : bound.Inert table.cards) :
    ¬ bound.Resums table := by
  rintro ⟨⟨hscope, haction⟩, seat, hseat, hselects⟩
  cases hinert with
  | unknown hunknown =>
      rcases haction with haction | haction <;>
        simp [hscope, haction, Step.known] at hunknown
  | nobody _ hnone => exact hnone seat hseat hselects
  | gated hcounts => simp [hscope] at hcounts

theorem Inert.contribute (hinert : bound.Inert table.cards) (running : Amount) :
    table.contribute running bound = running := by
  cases hinert with
  | unknown hunknown =>
      unfold Table.contribute
      split <;> simp_all [Step.known]
  | nobody himproves _ => exact Table.contribute_of_scope running himproves.1
  | @gated suit seat hscope haction hgate hseat hsuit =>
      have hfails : table.cards.all (fun seat => seat.card.suit == suit) = false :=
        List.all_eq_false.mpr ⟨seat, hseat, by simpa using hsuit⟩
      simp [Table.contribute, hscope, haction, hgate, hfails]

/-- An inert step leaves every score as it is. -/
theorem Inert.after (hinert : bound.Inert table.cards) (board : Scoreboard) :
    board.after table bound = board := by
  rw [Scoreboard.after, if_neg hinert.not_resums, hinert.contribute]

end BoundStep

/-- The effects agree but for inert steps of their scripts. -/
def Effect.AgreesBut (cards : List InPlay) (left right : Effect) : Prop :=
  right = { left with script := { left.script with steps := right.script.steps } } ∧
    AgreeBut (fun step => BoundStep.Inert cards ⟨left.choice, step⟩)
      left.script.steps right.script.steps

structure Table.AgreesBut (left right : Table) : Prop where
  frame : right = { left with effects := right.effects }
  effects : List.Forall₂ (Effect.AgreesBut left.cards) left.effects right.effects

namespace Table

variable {left right : Table}

theorem AgreesBut.boundSteps (hagree : left.AgreesBut right) :
    AgreeBut (BoundStep.Inert left.cards) left.boundSteps right.boundSteps := by
  unfold Table.boundSteps
  generalize left.effects = lefts, right.effects = rights, hagree.effects = heffects
  induction heffects with
  | nil => exact .nil
  | @cons first other _ _ hfirst _ ih =>
      have hchoice : other.choice = first.choice := by rw [hfirst.1]
      have hsteps : AgreeBut (BoundStep.Inert left.cards)
          (first.script.steps.map (BoundStep.mk first.choice))
          (other.script.steps.map (BoundStep.mk first.choice)) :=
        hfirst.2.map fun _ hinert => hinert
      rw [List.flatMap_cons, List.flatMap_cons, hchoice]
      exact hsteps.append ih

theorem AgreesBut.scorable_iff (hagree : left.AgreesBut right) :
    right.Scorable ↔ left.Scorable := by
  have hsums (targets : List CardId) :
      right.SumsUp targets ↔ left.SumsUp targets := by rw [hagree.frame]; rfl
  simp only [Scorable, hsums]
  refine (hagree.boundSteps.forall_mem_iff fun bound hinert hscope haction => ?_).symm
  cases hinert with
  | unknown hunknown => simp [hscope, haction, Step.known] at hunknown
  | nobody himproves => simp [himproves.1] at hscope
  | gated hcounts => simp [hcounts] at hscope

theorem AgreesBut.stepped (hagree : left.AgreesBut right) :
    right.stepped = left.stepped := by
  have hcards : right.cards = left.cards := by rw [hagree.frame]
  have hdiscard : right.discard = left.discard := by rw [hagree.frame]
  have hcarry : right.carry = left.carry := by rw [hagree.frame]
  rw [stepped_congr hcards hdiscard hcarry hagree.effects.length_eq.symm]
  exact (hagree.boundSteps.foldl_eq (fun _ hinert => hinert.after) _).symm

/-- Inert steps decide nothing: with them and without them a turn has the same scores,
or scoring breaks off in both cases. -/
theorem score_inert (hagree : left.AgreesBut right) :
    right.score.map Prod.fst = left.score.map Prod.fst := by
  have hcarried (running : Amount) : right.carried running = left.carried running := by
    rw [hagree.frame]
    rfl
  rcases left.score_cases with ⟨hscorable, log, hscore⟩ | ⟨hbreaks, hscore⟩
  · obtain ⟨lines, hlines⟩ := (hagree.scorable_iff.mpr hscorable).score
    rw [hscore, hlines, hagree.stepped, hcarried]
    rfl
  · rcases right.score_cases with ⟨hscorable, -⟩ | ⟨-, hfails⟩
    · exact absurd (hagree.scorable_iff.mp hscorable) hbreaks
    · rw [hscore, hfails]

def doubled (between : List Step) : Table :=
  let steps := .finalAdd (.ofNat 10) :: between ++ [.finalMult (.ofNat 2)]
  { cards :=
      [⟨⟨0⟩, ⟨⟨1⟩, "Roxy", .goth, 3⟩, false⟩, ⟨⟨1⟩, ⟨⟨2⟩, "Mia", .alt, 4⟩, false⟩]
    effects := [{ play := ⟨2⟩, script := { id := ⟨1⟩, name := "Double", steps } }] }

/-- A step that no rule knows, one on cards of a suit that is not in play, and one
behind a suit that only one of the cards has. -/
def idleSteps : List Step :=
  [{ scope := .card, action := .addTargetBase },
    (Step.cardMult (.ofNat 3)).onSuit .milf,
    (Step.finalPerCard (.ofNat 7) none).onlyIfAll .goth]

/-- Idle steps behind the addition do not make it forgotten: the turn is still worth
17 times 2. -/
theorem score_inert_idleSteps :
    (doubled []).AgreesBut (doubled idleSteps) ∧
    (doubled idleSteps).score.map Prod.fst = (doubled []).score.map Prod.fst ∧
    (doubled idleSteps).score.map (fun score => score.1.after) = .ok 34 := by
  have hunknown : BoundStep.Inert (doubled []).cards
      ⟨{}, { scope := .card, action := .addTargetBase }⟩ := .unknown (by decide)
  have hnobody : BoundStep.Inert (doubled []).cards
      ⟨{}, (Step.cardMult (.ofNat 3)).onSuit .milf⟩ :=
    .nobody ⟨rfl, .inr rfl⟩ (by decide)
  have hgated : BoundStep.Inert (doubled []).cards
      ⟨{}, (Step.finalPerCard (.ofNat 7) none).onlyIfAll .goth⟩ :=
    .gated rfl rfl rfl (List.mem_cons_of_mem _ List.mem_cons_self) (by decide)
  have hagree : (doubled []).AgreesBut (doubled idleSteps) := by
    refine ⟨rfl, .cons ⟨rfl, ?_⟩ .nil⟩
    exact .cons (.right hunknown (.right hnobody (.right hgated (.cons .nil))))
  exact ⟨hagree, score_inert hagree, by decide +kernel⟩

end Table

end Tableau
