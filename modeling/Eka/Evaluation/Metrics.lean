import Mathlib.Algebra.Order.Field.Rat
import Eka.Generation.Grounding
import Eka.Lib.Share

/-!
# Answer-quality metrics

`evaluation/domain/metrics.py`, in exact arithmetic. Three of the metrics are the share of one set
of content tokens that another one covers; the fourth counts contexts.
-/

namespace Eka

open Py Share

/-- `_STOPWORDS` (`metrics.py:14-64`). -/
def stopwords : List Str :=
  ["a".toList, "an".toList, "the".toList, "is".toList, "are".toList, "was".toList, "were".toList,
    "be".toList, "been".toList, "being".toList, "of".toList, "to".toList, "in".toList,
    "on".toList, "for".toList, "and".toList, "or".toList, "but".toList, "with".toList,
    "as".toList, "by".toList, "at".toList, "from".toList, "it".toList, "its".toList,
    "this".toList, "that".toList, "these".toList, "those".toList, "how".toList, "what".toList,
    "why".toList, "when".toList, "where".toList, "which".toList, "who".toList, "do".toList,
    "does".toList, "did".toList, "can".toList, "could".toList, "will".toList, "would".toList,
    "should".toList, "so".toList, "if".toList, "then".toList]

/-- `_content_tokens` (`metrics.py:67-68`). -/
def contentTokens (lower : Str → Str) (text : Str) : Finset Str :=
  ((findTokens (lower text)).filter fun t => !stopwords.contains t).toFinset

/-- `_keyword_tokens` (`metrics.py:71-75`). -/
def keywordTokens (lower : Str → Str) (keywords : List Str) : Finset Str :=
  gathered (contentTokens lower) keywords

/-- `set().union(*(_content_tokens(c) for c in contexts))`, which is empty without contexts
    (`metrics.py:83`, `metrics.py:103`). -/
def contextTokens (lower : Str → Str) (contexts : List Str) : Finset Str :=
  gathered (contentTokens lower) contexts

/-- `context_recall` (`metrics.py:78-84`). -/
def contextRecall (lower : Str → Str) (expectedKeywords contexts : List Str) : ℚ :=
  covered (keywordTokens lower expectedKeywords) (contextTokens lower contexts)

/-- `context_precision` (`metrics.py:87-95`). -/
def contextPrecision (lower : Str → Str) (question : Str) (contexts : List Str) : ℚ :=
  if contexts = [] then 0
  else
    let questionTokens := contentTokens lower question
    if questionTokens = ∅ then 0
    else hitRate (fun c => contentTokens lower c ∩ questionTokens ≠ ∅) contexts

/-- `faithfulness` (`metrics.py:98-104`). -/
def faithfulness (lower : Str → Str) (answer : Str) (contexts : List Str) : ℚ :=
  covered (contentTokens lower answer) (contextTokens lower contexts)

/-- `answer_relevance` (`metrics.py:107-112`). -/
def answerRelevance (lower : Str → Str) (answer : Str) (expectedKeywords : List Str) : ℚ :=
  covered (keywordTokens lower expectedKeywords) (contentTokens lower answer)

section

variable {lower : Str → Str} {contexts contexts' : List Str}

theorem contextPrecision_mem_unit (lower : Str → Str) (question : Str) (contexts : List Str) :
    contextPrecision lower question contexts ∈ Set.Icc 0 1 := by
  have hzero : (0 : ℚ) ∈ Set.Icc 0 1 := ⟨le_rfl, zero_le_one⟩
  unfold contextPrecision
  split
  · exact hzero
  · simp only
    split
    · exact hzero
    · exact hitRate_mem_unit _ contexts

theorem contextPrecision_perm (h : contexts'.Perm contexts) (question : Str) :
    contextPrecision lower question contexts' = contextPrecision lower question contexts := by
  have hnil : contexts' = [] ↔ contexts = [] := by
    rw [← List.length_eq_zero_iff, h.length_eq, List.length_eq_zero_iff]
  unfold contextPrecision
  simp only [hnil, hitRate_perm h]

end

/-- A space stands in no token, so it keeps the tokens of what it joins apart. -/
theorem contentTokens_append (table : CaseTable) (a b : Str) :
    contentTokens table.lowerStr (a ++ ' ' :: b) =
      contentTokens table.lowerStr a ∪ contentTokens table.lowerStr b := by
  have htokens : findTokens (table.lowerStr (a ++ ' ' :: b)) =
      findTokens (table.lowerStr a) ++ findTokens (table.lowerStr b) :=
    lowerTokens_append_cons (breaks_space (by decide)) a b
  unfold contentTokens
  rw [htokens, List.filter_append, List.toFinset_append]

end Eka
