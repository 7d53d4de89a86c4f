import Tableau.Form.Card
import Tableau.Script

/-!
The written forms of scripts and their parts.
-/

namespace Tableau

instance : Form TargetCount where
  read? source json :=
    match Form.caseName? json, Form.caseContent? json with
    | some "none", _ => some .none
    | some "one-babe", _ => some .one
    | _, some ("many-babes", content) => do
        let fields ← Form.caseFields? source ["min", "max"] content
        pure (.between (← Form.field? fields "min") (← Form.field? fields "max"))
    | _, _ => none
  write
    | .none => .string "none"
    | .one => .string "one-babe"
    | .between least most =>
        Form.writeCase "many-babes"
          [("min", Form.write least), ("max", Form.write most)]

instance : Form TargetRule where
  read? source json := do
    let fields ←
      Form.fields? source ["kind", "of_type", "distinct_types", "zone"] json
    pure
      { count := ← Form.fieldOr? fields "kind" .none
        suit := ← Form.fieldOr? fields "of_type" none
        distinct := ← Form.fieldOr? fields "distinct_types" false
        zone := ← Form.fieldOr? fields "zone" .play }
  write rule := .record
    [("kind", Form.write rule.count), ("of_type", Form.write rule.suit),
      ("distinct_types", Form.write rule.distinct),
      ("zone", Form.write rule.zone)]

instance : Form Scope where
  read?
    | _, .string tag => some (Scope.ofTag tag)
    | _, _ => none
  write scope := .string scope.tag

instance : Form Action where
  read?
    | _, .string tag => some (Action.ofTag tag)
    | _, _ => none
  write action := .string action.tag

/-- The name of a reach in written forms. -/
def Reach.tag : Reach → String
  | targets => "targets"
  | suit => "all-of-type"

instance : Form Reach where
  read? _ := Form.readNamed? [.targets, .suit] Reach.tag
  write reach := .string reach.tag

instance : Form Step where
  read? source json := do
    let fields ← Form.fields? source
      ["scope", "op", "amount", "of_type", "only_if_all_type", "applies_to",
        "multiplier", "when_only_effect_multiplier"] json
    pure
      { scope := ← Form.field? fields "scope"
        action := ← Form.field? fields "op"
        amount := ← Form.fieldOr? fields "amount" .zero
        suit := ← Form.fieldOr? fields "of_type" none
        gate := ← Form.fieldOr? fields "only_if_all_type" none
        reach := ← Form.fieldOr? fields "applies_to" .targets
        factor := ← Form.fieldOr? fields "multiplier" none
        soloFactor :=
          ← Form.fieldOr? fields "when_only_effect_multiplier" none }
  write step := .record
    [("scope", Form.write step.scope), ("op", Form.write step.action),
      ("amount", Form.write step.amount), ("of_type", Form.write step.suit),
      ("only_if_all_type", Form.write step.gate),
      ("applies_to", Form.write step.reach),
      ("multiplier", Form.write step.factor),
      ("when_only_effect_multiplier", Form.write step.soloFactor)]

instance : Form Requirement where
  read? source json := do
    let (name, content) ← Form.caseContent? json
    match name with
    | "only-babe-played" => do
        let fields ← Form.caseFields? source ["name"] content
        pure (.soleCard (← Form.field? fields "name"))
    | "discard-has-babe" => do
        let fields ← Form.caseFields? source ["name"] content
        pure (.discardHolds (← Form.field? fields "name"))
    | "discard-has-type-at-least" => do
        let fields ← Form.caseFields? source ["babe_type", "count"] content
        pure (.discardCount (← Form.field? fields "babe_type")
          (← Form.field? fields "count"))
    | "played-history-has-prefix" => do
        let fields ← Form.caseFields? source ["prefix"] content
        pure (.historyStart (← Form.field? fields "prefix"))
    | "discard-has-base-score" => do
        let fields ← Form.caseFields? source ["score"] content
        pure (.discardBase (← Form.field? fields "score"))
    | _ => none
  write
    | .soleCard name =>
        Form.writeCase "only-babe-played" [("name", Form.write name)]
    | .discardHolds name =>
        Form.writeCase "discard-has-babe" [("name", Form.write name)]
    | .discardCount suit least =>
        Form.writeCase "discard-has-type-at-least"
          [("babe_type", Form.write suit), ("count", Form.write least)]
    | .historyStart start =>
        Form.writeCase "played-history-has-prefix" [("prefix", Form.write start)]
    | .discardBase score =>
        Form.writeCase "discard-has-base-score" [("score", Form.write score)]

instance : Form LimitRule where
  read? source json :=
    match Form.caseName? json, Form.caseContent? json with
    | some "ignore-effect-limit", _ => some .openEffects
    | some "consumes-babe-slot", _ => some .takesSlot
    | _, some ("set-babe-limit-to", content) => do
        let fields ← Form.caseFields? source ["n"] content
        pure (.cardFloor (← Form.field? fields "n"))
    | _, some ("extra-plays", content) => do
        let fields ← Form.caseFields? source ["babes", "effects"] content
        pure (.extraPlays (← Form.fieldOr? fields "babes" 0)
          (← Form.fieldOr? fields "effects" 0))
    | _, some ("cap-effect-limit-to", content) => do
        let fields ← Form.caseFields? source ["n"] content
        pure (.effectCap (← Form.field? fields "n"))
    | _, some ("restrict-babe-type-to", content) => do
        let fields ← Form.caseFields? source ["babe_type"] content
        pure (.onlySuit (← Form.field? fields "babe_type"))
    | _, some ("extra-type-plays", content) => do
        let fields ← Form.caseFields? source ["babe_type", "n"] content
        pure (.extraSuit (← Form.field? fields "babe_type")
          (← Form.field? fields "n"))
    | _, _ => none
  write
    | .openEffects => .string "ignore-effect-limit"
    | .cardFloor least =>
        Form.writeCase "set-babe-limit-to" [("n", Form.write least)]
    | .extraPlays cards effects =>
        Form.writeCase "extra-plays"
          [("babes", Form.write cards), ("effects", Form.write effects)]
    | .effectCap most =>
        Form.writeCase "cap-effect-limit-to" [("n", Form.write most)]
    | .onlySuit suit =>
        Form.writeCase "restrict-babe-type-to" [("babe_type", Form.write suit)]
    | .takesSlot => .string "consumes-babe-slot"
    | .extraSuit suit slots =>
        Form.writeCase "extra-type-plays"
          [("babe_type", Form.write suit), ("n", Form.write slots)]

instance : Form Promise where
  read? source json := do
    let fields ← Form.fields? source
      ["next_add", "next_mult", "replay_targets", "targets_next_turn_mult",
        "ignore_babe_limit_next"] json
    pure
      { add := ← Form.fieldOr? fields "next_add" .zero
        mult := ← Form.fieldOr? fields "next_mult" .one
        replay := ← Form.fieldOr? fields "replay_targets" false
        targetMult := ← Form.fieldOr? fields "targets_next_turn_mult" none
        openCards := ← Form.fieldOr? fields "ignore_babe_limit_next" false }
  write promise := .record
    [("next_add", Form.write promise.add),
      ("next_mult", Form.write promise.mult),
      ("replay_targets", Form.write promise.replay),
      ("targets_next_turn_mult", Form.write promise.targetMult),
      ("ignore_babe_limit_next", Form.write promise.openCards)]

instance : Form Reversal where
  read? source json := do
    let fields ← Form.fields? source ["restore_moves", "refund_strokes"] json
    pure
      { restores := ← Form.fieldOr? fields "restore_moves" true
        refunds := ← Form.fieldOr? fields "refund_strokes" true }
  write reversal := .record
    [("restore_moves", Form.write reversal.restores),
      ("refund_strokes", Form.write reversal.refunds)]

instance : Form Relocation where
  read? source json := do
    let fields ← Form.fields? source ["to"] json
    pure { dest := ← Form.field? fields "to" }
  write relocation := .record [("to", Form.write relocation.dest)]

instance : Form Script where
  read? source json := do
    let fields ← Form.fields? source
      ["id", "name", "target", "score", "requires", "limits", "future",
        "on_remove", "on_bind", "stroke_cost"] json
    pure
      { id := ← Form.field? fields "id"
        name := ← Form.field? fields "name"
        target := ← Form.fieldOr? fields "target" {}
        steps := ← Form.fieldOr? fields "score" []
        requires := ← Form.fieldOr? fields "requires" []
        limits := ← Form.fieldOr? fields "limits" []
        promise := ← Form.fieldOr? fields "future" none
        reversal := ← Form.fieldOr? fields "on_remove" none
        relocation := ← Form.fieldOr? fields "on_bind" none
        cost := ← Form.fieldOr? fields "stroke_cost" 0 }
  write script := .record
    [("id", Form.write script.id), ("name", Form.write script.name),
      ("target", Form.write script.target), ("score", Form.write script.steps),
      ("requires", Form.write script.requires),
      ("limits", Form.write script.limits),
      ("future", Form.write script.promise),
      ("on_remove", Form.write script.reversal),
      ("on_bind", Form.write script.relocation),
      ("stroke_cost", Form.write script.cost)]

end Tableau
