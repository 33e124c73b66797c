import Eka.Lib.Layout
import Eka.Retrieval.Reranking

/-!
# Whitespace in the passages

The query is lowered and its whitespace normalized before the test for the exact phrase, the
passage is lowered only (`reranker.py:32,46`). The tokens of a passage do not see its whitespace,
and neither does the share of its retrieval score, so the bonus for the phrase is all that the
layout of a passage can change.
-/

namespace Eka

open Py MinMax

/-- The candidate with every run of whitespace in its text collapsed to one space. -/
def ScoredChunk.collapsed (c : ScoredChunk) : ScoredChunk := { c with text := collapse c.text }

namespace LexicalReranker

variable {table : CaseTable} {queryText : Str} {candidates : List ScoredChunk}

/-- Collapsing the whitespace of the passages changes neither the final score of any candidate
    nor the ids that are returned, whatever the cut. -/
structure IgnoresLayout (lower : Str → Str) (queryText : Str) (candidates : List ScoredChunk) :
    Prop where
  scores : ∀ c ∈ candidates,
    finalAmong lower queryText (candidates.map ScoredChunk.collapsed) c.collapsed =
      finalAmong lower queryText candidates c
  ids : ∀ topK,
    (rerank lower queryText (candidates.map ScoredChunk.collapsed) topK).map (·.chunkId) =
      (rerank lower queryText candidates topK).map (·.chunkId)

/-- Where the words of the query stand one after the other in the text, in lower case and with
    any whitespace between them, they stand somewhere with single spaces between them. -/
def PhraseOnOneLine (lower : Str → Str) (queryText text : Str) : Prop :=
  Occur (words (lower queryText)) (lower text) →
    join " ".toList (words (lower queryText)) <:+: lower text

theorem tokens_collapse (h : table.KeepsLayout) (text : Str) :
    tokens table.lowerStr (collapse text) = tokens table.lowerStr text := by
  unfold tokens findTokens
  rw [h.lowerStr_collapse, runs_collapse fun _ => isTokenChar_of_isSpace]

theorem coverage_collapse (h : table.KeepsLayout) (queryText text : Str) :
    coverage table.lowerStr queryText (collapse text) =
      coverage table.lowerStr queryText text := by
  unfold coverage
  rw [tokens_collapse h]

/-- What the test for the phrase sees in the collapsed text. -/
theorem phrase_collapse_iff (h : table.KeepsLayout) (queryText text : Str) :
    normalize table.lowerStr queryText <:+: table.lowerStr (collapse text) ↔
      Occur (words (table.lowerStr queryText)) (table.lowerStr text) := by
  rw [h.lowerStr_collapse]
  exact join_infix_collapse_iff fun w hw => isWord_of_mem_words hw

theorem scores_collapsed (candidates : List ScoredChunk) :
    (candidates.map ScoredChunk.collapsed).map (·.score) = candidates.map (·.score) := by
  rw [List.map_map]
  rfl

/-- The final score of one candidate stays exactly when its text has the phrase in both layouts
    or in none. -/
theorem finalAmong_collapsed_iff (h : table.KeepsLayout) (queryText : Str)
    (candidates : List ScoredChunk) (c : ScoredChunk) :
    finalAmong table.lowerStr queryText (candidates.map ScoredChunk.collapsed) c.collapsed =
        finalAmong table.lowerStr queryText candidates c ↔
      PhraseOnOneLine table.lowerStr queryText c.text := by
  have hphrase := phrase_collapse_iff h queryText c.text
  rw [finalAmong_eq, finalAmong_eq, relevance_eq, relevance_eq, scores_collapsed]
  show 3 / 10 * normalized (candidates.map (·.score)) c.score +
      (6 / 10 * coverage table.lowerStr queryText (collapse c.text) + 1 / 10 *
        if normalize table.lowerStr queryText <:+: table.lowerStr (collapse c.text) then 1 else 0) =
    _ ↔ _
  rw [coverage_collapse h]
  unfold PhraseOnOneLine
  by_cases hone : normalize table.lowerStr queryText <:+: table.lowerStr c.text
  · have hany := hphrase.mpr (Occur.of_join hone)
    rw [if_pos hany, if_pos hone]
    exact iff_of_true rfl fun _ => hone
  · rw [if_neg hone]
    by_cases hany : normalize table.lowerStr queryText <:+: table.lowerStr (collapse c.text)
    · rw [if_pos hany]
      refine iff_of_false ?_ fun hline => hone (hline (hphrase.mp hany))
      intro heq
      linarith
    · rw [if_neg hany]
      exact iff_of_true rfl fun hoccur => absurd (hphrase.mpr hoccur) hany

theorem rerank_collapsed (lower : Str → Str) (queryText : Str)
    (hscores : ∀ c ∈ candidates,
      finalAmong lower queryText (candidates.map ScoredChunk.collapsed) c.collapsed =
        finalAmong lower queryText candidates c) (topK : Nat) :
    rerank lower queryText (candidates.map ScoredChunk.collapsed) topK =
      (rerank lower queryText candidates topK).map ScoredChunk.collapsed := by
  have hranked : (candidates.map ScoredChunk.collapsed).map
      (ranked lower queryText (candidates.map ScoredChunk.collapsed)) =
        (candidates.map (ranked lower queryText candidates)).map ScoredChunk.collapsed := by
    rw [List.map_map, List.map_map]
    apply List.map_congr_left
    intro c hc
    have h := hscores c hc
    simp only [Function.comp_apply, ranked, h]
    rfl
  rw [rerank_eq, rerank_eq, hranked, List.map_take, sortedDesc_map]
  intro c
  rfl

end LexicalReranker

open LexicalReranker

/-- For every query and all candidates, collapsing the whitespace of the passages leaves the final
    scores, and with them the ids that are returned, if and only if no passage has the words of
    the query one after the other across a layout of whitespace alone: where it has them so, it
    has them with single spaces somewhere. -/
theorem rerank_ignoresLayout_iff (table : CaseTable) (hlayout : table.KeepsLayout)
    (queryText : Str) (candidates : List ScoredChunk) :
    IgnoresLayout table.lowerStr queryText candidates ↔
      ∀ c ∈ candidates, PhraseOnOneLine table.lowerStr queryText c.text := by
  constructor
  · intro hignores c hc
    exact (finalAmong_collapsed_iff hlayout queryText candidates c).mp (hignores.scores c hc)
  · intro hline
    have hscores : ∀ c ∈ candidates, finalAmong table.lowerStr queryText
        (candidates.map ScoredChunk.collapsed) c.collapsed =
          finalAmong table.lowerStr queryText candidates c := by
      intro c hc
      exact (finalAmong_collapsed_iff hlayout queryText candidates c).mpr (hline c hc)
    refine ⟨hscores, ?_⟩
    intro topK
    rw [rerank_collapsed table.lowerStr queryText hscores, List.map_map]
    rfl

/-! ### A phrase across a line -/

/-- A chunk as the chunker cuts it, with a line break within its first sentence. -/
def acrossLine : ScoredChunk := ⟨⟨1⟩, ⟨1⟩, "hnsw\nindex".toList, 1⟩

/-- The chunk gets the bonus for the phrase once its line break is a space. -/
theorem acrossLine_layout : ¬ ∀ (table : CaseTable), table.KeepsLayout →
    ∀ (queryText : Str) (candidates : List ScoredChunk),
      IgnoresLayout table.lowerStr queryText candidates := by
  intro hall
  have hkeeps := CaseTable.asciiTable_keepsLayout
  have hignores := hall CaseTable.asciiTable hkeeps "hnsw index".toList [acrossLine]
  have hline := (finalAmong_collapsed_iff hkeeps _ _ _).mp
    (hignores.scores acrossLine List.mem_cons_self)
  have hoccur := (phrase_collapse_iff hkeeps "hnsw index".toList acrossLine.text).mp (by decide)
  exact absurd (hline hoccur) (by decide)

/-- A chunk of two lines, with the phrase on the second one. -/
theorem oneLine_layout : IgnoresLayout CaseTable.asciiTable.lowerStr "hnsw  index".toList
    [⟨⟨1⟩, ⟨1⟩, "Build an\n\thnsw index".toList, 1⟩] := by
  refine (rerank_ignoresLayout_iff CaseTable.asciiTable CaseTable.asciiTable_keepsLayout
    "hnsw  index".toList [⟨⟨1⟩, ⟨1⟩, "Build an\n\thnsw index".toList, 1⟩]).mpr ?_
  intro c hc _
  rw [List.mem_singleton.mp hc]
  decide

end Eka
