import Eka.Evaluation.Gate

/-!
# The evaluation harness

`evaluation/application/harness.py` with the local language model. A case is scored on the answer
that the answer handler streams for the chunks that the question retrieves.
-/

namespace Eka

open Py Share

/-- `EvalCase` (`dataset.py:14-18`). -/
structure EvalCase where
  id : Str
  question : Str
  expectedKeywords : List Str

/-- The scores of a case for an answer and its contexts (`harness.py:58-66`). -/
def CaseResult.of (lower : Str → Str) (c : EvalCase) (answer : Str) (contexts : List Str) :
    CaseResult where
  caseId := c.id
  contextRecall := Eka.contextRecall lower c.expectedKeywords contexts
  contextPrecision := Eka.contextPrecision lower c.question contexts
  faithfulness := Eka.faithfulness lower answer contexts
  answerRelevance := Eka.answerRelevance lower answer c.expectedKeywords

/-- Whatever the answer and the contexts, the scores lie between 0 and 1. -/
theorem CaseResult.of_mem_unit (lower : Str → Str) (c : EvalCase) (answer : Str)
    (contexts : List Str) {name : Str} {attr : CaseResult → ℚ} (hscore : (name, attr) ∈ scores) :
    attr (.of lower c answer contexts) ∈ Set.Icc 0 1 := by
  rcases attr_cases hscore with rfl | rfl | rfl | rfl
  · exact covered_mem_unit _ _
  · exact contextPrecision_mem_unit _ _ _
  · exact covered_mem_unit _ _
  · exact covered_mem_unit _ _

/-- `EvaluationHarness` (`harness.py:33-45`) with the local language model, and `str.lower`. -/
structure EvaluationHarness where
  searcher : UUID → SearchQuery → Except Error (List ScoredChunk)
  lower : Str → Str
  systemPrompt : Str

namespace EvaluationHarness

/-- The body of the loop after the retrieval (`harness.py:52-67`). -/
def score (harness : EvaluationHarness) (c : EvalCase) (chunks : List ScoredChunk) : CaseResult :=
  let sanitized := chunks.map fun chunk =>
    { chunk with text := (PromptInjectionGuard.scan chunk.text).1 }
  let contexts := sanitized.map (·.text)
  let prompt := buildGroundedPrompt c.question sanitized harness.systemPrompt
  let answer := (LocalTemplateLanguageModel.stream harness.lower prompt).flatten
  .of harness.lower c answer contexts

/-- One iteration over the cases (`harness.py:49-67`). -/
def runCase (harness : EvaluationHarness) (tenantId : UUID) (topK : Int) (c : EvalCase) :
    Except Error CaseResult := do
  let query ← SearchQuery.make c.question topK none
  let chunks ← harness.searcher tenantId query
  return harness.score c chunks

/-- `run` (`harness.py:47-68`) on the cases of a dataset. -/
def run (harness : EvaluationHarness) (cases : List EvalCase) (tenantId : UUID) (topK : Int) :
    Except Error EvalReport := do
  let results ← cases.mapM (harness.runCase tenantId topK)
  return ⟨results⟩

variable {harness : EvaluationHarness} {cases : List EvalCase} {tenantId : UUID} {topK : Int}
  {report : EvalReport} {c : EvalCase} {result : CaseResult}

/-- What the guard leaves of the chunks. -/
def contexts (chunks : List ScoredChunk) : List Str :=
  chunks.map fun chunk => (PromptInjectionGuard.scan chunk.text).1

/-- The answer that is scored is the one that the handler streams. -/
theorem score_eq (harness : EvaluationHarness) (c : EvalCase) (chunks : List ScoredChunk) :
    harness.score c chunks = .of harness.lower c
      (answerText (GenerateAnswerHandler.events harness.lower harness.systemPrompt c.question
        chunks)) (contexts chunks) := by
  have hcontexts : (chunks.map GenerateAnswerHandler.cleaned).map (·.text) = contexts chunks := by
    unfold contexts GenerateAnswerHandler.cleaned
    rw [List.map_map]
    simp only [Function.comp_def]
  have hprompt : GenerateAnswerHandler.prompt harness.systemPrompt c.question chunks =
      buildGroundedPrompt c.question (chunks.map GenerateAnswerHandler.cleaned)
        harness.systemPrompt := by
    unfold GenerateAnswerHandler.prompt
    rw [GenerateAnswerHandler.sanitize_eq]
  have hanswer : answerText (GenerateAnswerHandler.events harness.lower harness.systemPrompt
        c.question chunks) =
      (LocalTemplateLanguageModel.stream harness.lower (buildGroundedPrompt c.question
        (chunks.map GenerateAnswerHandler.cleaned) harness.systemPrompt)).flatten := by
    rw [GenerateAnswerHandler.answerText_events, hprompt,
      LocalTemplateLanguageModel.flatten_stream]
  rw [hanswer, ← hcontexts]
  rfl

theorem runCase_ok (h : harness.runCase tenantId topK c = .ok result) :
    ∃ query chunks, SearchQuery.make c.question topK none = .ok query ∧
      harness.searcher tenantId query = .ok chunks ∧ result = harness.score c chunks := by
  obtain ⟨query, hquery, h⟩ := Fallible.bind_ok.mp h
  obtain ⟨chunks, hchunks, h⟩ := Fallible.bind_ok.mp h
  cases h
  exact ⟨query, chunks, hquery, hchunks, rfl⟩

theorem run_ok (h : harness.run cases tenantId topK = .ok report) :
    cases.mapM (harness.runCase tenantId topK) = .ok report.results := by
  obtain ⟨results, hresults, hreport⟩ := Fallible.bind_ok.mp h
  cases hreport
  exact hresults

/-- A run that returns has a result for each case, in order: the scores of what the handler would
    stream for the chunks that the searcher found. -/
theorem run_streams (h : harness.run cases tenantId topK = .ok report) :
    List.Forall₂ (fun c result => ∃ query chunks,
      SearchQuery.make c.question topK none = .ok query ∧
        harness.searcher tenantId query = .ok chunks ∧
        result = .of harness.lower c (answerText (GenerateAnswerHandler.events harness.lower
          harness.systemPrompt c.question chunks)) (contexts chunks)) cases report.results := by
  refine (Fallible.mapM_ok.mp (run_ok h)).imp fun c result hc => ?_
  obtain ⟨query, chunks, hquery, hchunks, rfl⟩ := runCase_ok hc
  exact ⟨query, chunks, hquery, hchunks, score_eq harness c chunks⟩

/-- The aggregates of a run lie between 0 and 1. -/
theorem aggregates_mem_unit (h : harness.run cases tenantId topK = .ok report) {metric : Str}
    {value : ℚ} (hvalue : report.aggregates.get? metric = some value) :
    value ∈ Set.Icc 0 1 := by
  obtain ⟨attr, hscore, rfl⟩ := EvalReport.get?_aggregates.mp hvalue
  unfold EvalReport.mean
  split
  · exact ⟨le_rfl, zero_le_one⟩
  · refine mean_mem_unit ?_
    intro result hresult
    obtain ⟨c, -, hc⟩ := Fallible.mem_of_mapM_ok (run_ok h) hresult
    obtain ⟨query, chunks, -, -, rfl⟩ := runCase_ok hc
    exact CaseResult.of_mem_unit _ _ _ _ hscore

end EvaluationHarness

end Eka
