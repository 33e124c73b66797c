import Mathlib.Tactic.NormNum
import Eka.Evaluation.Metrics
import Eka.Lib.PyDict

/-!
# The quality gate

`evaluation/domain/dataset.py` and `evaluation/application/gate.py`, in exact arithmetic: the
scores of the cases are averaged, and the gate passes a report with no average below its
threshold. Whatever passes still passes when no score is lower.
-/

namespace Eka

open Py Share

/-- `CaseResult` (`dataset.py:27-33`). -/
structure CaseResult where
  caseId : Str
  contextRecall : ℚ
  contextPrecision : ℚ
  faithfulness : ℚ
  answerRelevance : ℚ

/-- `EvalReport` (`dataset.py:36-38`). -/
structure EvalReport where
  results : List CaseResult

/-- The names of the scores, and the attributes that `getattr` finds under them
    (`dataset.py:47-50`). -/
def CaseResult.scores : List (Str × (CaseResult → ℚ)) :=
  [("context_recall".toList, (·.contextRecall)),
    ("context_precision".toList, (·.contextPrecision)),
    ("faithfulness".toList, (·.faithfulness)),
    ("answer_relevance".toList, (·.answerRelevance))]

namespace EvalReport

/-- `_mean` (`dataset.py:40-44`). -/
def mean (attr : CaseResult → ℚ) (report : EvalReport) : ℚ :=
  if report.results = [] then 0 else Share.mean attr report.results

/-- `aggregates` (`dataset.py:46-52`). -/
def aggregates (report : EvalReport) : Dict Str ℚ :=
  Dict.empty.setAll (CaseResult.scores.map fun score => (score.1, report.mean score.2))

end EvalReport

/-- `Threshold` (`gate.py:10-13`). -/
structure Threshold where
  metric : Str
  minimum : ℚ

/-- `f"{value:.3f}"`: the nearest thousandth, of two the even one. -/
def fixed3 (value : ℚ) : Str :=
  let scaled := 1000 * value.num.natAbs
  let below := scaled / value.den
  let rest := scaled % value.den
  let thousandths :=
    if 2 * rest < value.den ∨ 2 * rest = value.den ∧ below % 2 = 0 then below else below + 1
  let decimals := (toString (thousandths % 1000)).toList
  (if value < 0 then "-".toList else []) ++ (toString (thousandths / 1000)).toList ++
    ".".toList ++ List.replicate (3 - decimals.length) '0' ++ decimals

example : fixed3 (1 / 16) = "0.062".toList := by decide +kernel

/-- One iteration over the thresholds (`gate.py:19-26`): what is appended to the failures. -/
def failure (aggregates : Dict Str ℚ) (threshold : Threshold) : Option Str :=
  match aggregates.get? threshold.metric with
  | none => some ("unknown metric: ".toList ++ threshold.metric)
  | some value =>
      if value < threshold.minimum then
        some (threshold.metric ++ " ".toList ++ fixed3 value ++ " below minimum ".toList ++
          fixed3 threshold.minimum)
      else none

/-- `evaluate_gate` (`gate.py:16-27`). -/
def evaluateGate (report : EvalReport) (thresholds : List Threshold) : Bool × List Str :=
  let failures := thresholds.filterMap (failure report.aggregates)
  (failures.isEmpty, failures)

example : evaluateGate ⟨[⟨"c1".toList, 1, 9 / 10, 1 / 2, 9 / 10⟩]⟩
      [⟨"faithfulness".toList, 4 / 5⟩, ⟨"nonexistent".toList, 1 / 2⟩] =
    (false, ["faithfulness 0.500 below minimum 0.800".toList,
      "unknown metric: nonexistent".toList]) := by decide +kernel

/-! ## What passes -/

variable {report report' : EvalReport} {metric : Str} {value : ℚ}

/-- The aggregates are the means of the scores. -/
theorem EvalReport.get?_aggregates :
    report.aggregates.get? metric = some value ↔
      ∃ attr, (metric, attr) ∈ CaseResult.scores ∧ report.mean attr = value := by
  have hnodup : (CaseResult.scores.map Prod.fst).Nodup := by decide
  unfold aggregates
  constructor
  · intro h
    rcases Dict.get?_setAll h with hmem | hempty
    · obtain ⟨⟨name, attr⟩, hscore, heq⟩ := List.mem_map.mp hmem
      cases heq
      exact ⟨attr, hscore, rfl⟩
    · cases hempty
  · rintro ⟨attr, hscore, rfl⟩
    refine Dict.get?_setAll_of_mem (List.mem_map.mpr ⟨_, hscore, rfl⟩) ?_
    intro w hw
    obtain ⟨⟨name, attr'⟩, hscore', heq⟩ := List.mem_map.mp hw
    cases heq
    have hsame := List.inj_on_of_nodup_map hnodup hscore' hscore rfl
    cases hsame
    rfl

theorem failure_eq_none {aggregates : Dict Str ℚ} {threshold : Threshold} :
    failure aggregates threshold = none ↔
      ∃ value, aggregates.get? threshold.metric = some value ∧ threshold.minimum ≤ value := by
  unfold failure
  cases aggregates.get? threshold.metric with
  | none => simp
  | some value => simp

/-- The gate passes a report exactly when every threshold names a metric whose aggregate
    reaches it. -/
theorem evaluateGate_passes_iff (report : EvalReport) (thresholds : List Threshold) :
    (evaluateGate report thresholds).1 = true ↔ ∀ threshold ∈ thresholds,
      ∃ value, report.aggregates.get? threshold.metric = some value ∧
        threshold.minimum ≤ value := by
  unfold evaluateGate
  simp only [List.isEmpty_iff, List.filterMap_eq_nil_iff, failure_eq_none]

/-! ## Reports with higher scores -/

theorem CaseResult.attr_cases {name : Str} {attr : CaseResult → ℚ} (h : (name, attr) ∈ scores) :
    attr = (·.contextRecall) ∨ attr = (·.contextPrecision) ∨ attr = (·.faithfulness) ∨
      attr = (·.answerRelevance) := by
  simp only [scores, List.mem_cons, List.not_mem_nil, or_false, Prod.mk.injEq] at h
  tauto

/-- None of the four scores is higher. -/
structure CaseResult.AtMost (a b : CaseResult) : Prop where
  contextRecall : a.contextRecall ≤ b.contextRecall
  contextPrecision : a.contextPrecision ≤ b.contextPrecision
  faithfulness : a.faithfulness ≤ b.faithfulness
  answerRelevance : a.answerRelevance ≤ b.answerRelevance

theorem CaseResult.AtMost.score {a b : CaseResult} (h : a.AtMost b) {name : Str}
    {attr : CaseResult → ℚ} (hscore : (name, attr) ∈ scores) : attr a ≤ attr b := by
  rcases attr_cases hscore with rfl | rfl | rfl | rfl
  · exact h.contextRecall
  · exact h.contextPrecision
  · exact h.faithfulness
  · exact h.answerRelevance

/-- As many cases, and case by case none of the four scores is higher. -/
def EvalReport.AtMost (report report' : EvalReport) : Prop :=
  List.Forall₂ CaseResult.AtMost report.results report'.results

namespace EvalReport.AtMost

theorem mean_le (h : report.AtMost report') {name : Str} {attr : CaseResult → ℚ}
    (hscore : (name, attr) ∈ CaseResult.scores) : report.mean attr ≤ report'.mean attr := by
  have hnil : report.results = [] ↔ report'.results = [] := by
    rw [← List.length_eq_zero_iff, List.Forall₂.length_eq h, List.length_eq_zero_iff]
  unfold EvalReport.mean
  simp only [hnil]
  split
  · exact le_rfl
  · exact mean_le_mean (List.Forall₂.imp (fun _ _ hresult => hresult.score hscore) h)

/-- A report that is at least as good passes whatever the other one passes. -/
theorem passes (h : report.AtMost report') {thresholds : List Threshold}
    (hpass : (evaluateGate report thresholds).1 = true) :
    (evaluateGate report' thresholds).1 = true := by
  have hreached := (evaluateGate_passes_iff report thresholds).mp hpass
  refine (evaluateGate_passes_iff report' thresholds).mpr ?_
  intro threshold hthreshold
  obtain ⟨value, hvalue, hle⟩ := hreached threshold hthreshold
  obtain ⟨attr, hscore, hmean⟩ := get?_aggregates.mp hvalue
  refine ⟨report'.mean attr, get?_aggregates.mpr ⟨attr, hscore, rfl⟩, ?_⟩
  rw [← hmean] at hle
  exact hle.trans (h.mean_le hscore)

end EvalReport.AtMost

/-- The quality gate is monotone. The metrics lie between 0 and 1 and do not depend on the order
    of the keywords or of the contexts; more contexts lower neither the recall nor the
    faithfulness, and more text behind a space lowers no relevance of an answer; and a report
    with as many cases and no lower score passes every list of thresholds that the other one
    passes. -/
theorem quality_gate_monotone (table : CaseTable) (question answer : Str)
    (keywords contexts : List Str) :
    (contextRecall table.lowerStr keywords contexts ∈ Set.Icc 0 1 ∧
      contextPrecision table.lowerStr question contexts ∈ Set.Icc 0 1 ∧
      faithfulness table.lowerStr answer contexts ∈ Set.Icc 0 1 ∧
      answerRelevance table.lowerStr answer keywords ∈ Set.Icc 0 1) ∧
    (∀ keywords' contexts' : List Str, keywords'.Perm keywords → contexts'.Perm contexts →
      contextRecall table.lowerStr keywords' contexts' =
        contextRecall table.lowerStr keywords contexts ∧
      contextPrecision table.lowerStr question contexts' =
        contextPrecision table.lowerStr question contexts ∧
      faithfulness table.lowerStr answer contexts' =
        faithfulness table.lowerStr answer contexts ∧
      answerRelevance table.lowerStr answer keywords' =
        answerRelevance table.lowerStr answer keywords) ∧
    (∀ contexts' : List Str, contexts ⊆ contexts' →
      contextRecall table.lowerStr keywords contexts ≤
        contextRecall table.lowerStr keywords contexts' ∧
      faithfulness table.lowerStr answer contexts ≤
        faithfulness table.lowerStr answer contexts') ∧
    (∀ more : Str, answerRelevance table.lowerStr answer keywords ≤
      answerRelevance table.lowerStr (answer ++ ' ' :: more) keywords) ∧
    ∀ (thresholds : List Threshold) (report report' : EvalReport), report.AtMost report' →
      (evaluateGate report thresholds).1 = true →
        (evaluateGate report' thresholds).1 = true := by
  refine ⟨⟨covered_mem_unit _ _, contextPrecision_mem_unit _ _ _, covered_mem_unit _ _,
    covered_mem_unit _ _⟩, ?_, ?_, ?_, fun _ _ _ h hpass => h.passes hpass⟩
  · intro keywords' contexts' hkeywords hcontexts
    have hneeded : keywordTokens table.lowerStr keywords' =
        keywordTokens table.lowerStr keywords := gathered_perm hkeywords
    have hfound : contextTokens table.lowerStr contexts' =
        contextTokens table.lowerStr contexts := gathered_perm hcontexts
    unfold contextRecall faithfulness answerRelevance
    rw [hneeded, hfound]
    exact ⟨rfl, contextPrecision_perm hcontexts question, rfl, rfl⟩
  · intro contexts' hcontexts
    have hfound : contextTokens table.lowerStr contexts ⊆ contextTokens table.lowerStr contexts' :=
      gathered_mono hcontexts
    exact ⟨covered_mono hfound, covered_mono hfound⟩
  · intro more
    refine covered_mono ?_
    rw [contentTokens_append]
    exact Finset.subset_union_left

/-- Two contexts in the other order and a third one, a longer answer, and a better report. -/
theorem quality_gate_monotone_tea :
    let lower := CaseTable.asciiTable.lowerStr
    let keywords := ["green tea".toList, "leaves".toList]
    let contexts := ["Tea is a drink.".toList, "Leaves fall.".toList]
    let result : CaseResult := ⟨"c1".toList, 1 / 2, 1 / 2, 1 / 2, 1 / 2⟩
    let better : CaseResult := ⟨"c2".toList, 1 / 2, 1, 2 / 3, 1⟩
    let thresholds : List Threshold := [⟨"faithfulness".toList, 1 / 2⟩]
    contextRecall lower keywords.reverse contexts.reverse = contextRecall lower keywords contexts ∧
      contextRecall lower keywords contexts ≤
        contextRecall lower keywords ("green".toList :: contexts) ∧
      answerRelevance lower "Tea.".toList keywords ≤
        answerRelevance lower "Tea. Leaves".toList keywords ∧
      (evaluateGate ⟨[result]⟩ thresholds).1 = true ∧
      (evaluateGate ⟨[better]⟩ thresholds).1 = true := by
  intro lower keywords contexts result better thresholds
  obtain ⟨-, hreordered, hadded, hlonger, hgate⟩ := quality_gate_monotone CaseTable.asciiTable
    "tea?".toList "Tea.".toList keywords contexts
  have hbetter : result.AtMost better := by
    constructor <;> norm_num [result, better]
  have hpass : (evaluateGate ⟨[result]⟩ thresholds).1 = true := by decide +kernel
  exact ⟨(hreordered _ _ keywords.reverse_perm contexts.reverse_perm).1,
    (hadded _ (List.subset_cons_self _ _)).1, hlonger "Leaves".toList, hpass,
    hgate thresholds ⟨[result]⟩ ⟨[better]⟩ (.cons hbetter .nil) hpass⟩

end Eka
