import Eka.Generation.Guardrails
import Eka.Generation.LocalLlm

/-!
# Answers

`generation/application/generate.py`: the retrieved chunks go through the guard into the prompt,
and the local language model answers from it.
-/

namespace Eka

open Py

/-- The events of a stream (`answer.py:20-23`); a citation is its marker and the two ids. -/
inductive AnswerEvent where
  | sources (flagged : Bool) (citations : List (Nat × Str × Str))
  | token (text : Str)
  | done

/-- `GenerateAnswerHandler` (`generate.py:34-46`) with the local language model, and `str.lower`. -/
structure GenerateAnswerHandler where
  searcher : UUID → SearchQuery → Except Error (List ScoredChunk)
  lower : Str → Str
  systemPrompt : Str

namespace GenerateAnswerHandler

/-- One iteration of `_sanitize` (`generate.py:51-54`). -/
def sanitizeStep (state : List ScoredChunk × Bool) (chunk : ScoredChunk) :
    List ScoredChunk × Bool :=
  let (text, hit) := PromptInjectionGuard.scan chunk.text
  (state.1 ++ [{ chunk with text := text }], state.2 || hit)

/-- `_sanitize` (`generate.py:48-55`). -/
def sanitize (chunks : List ScoredChunk) : List ScoredChunk × Bool :=
  chunks.foldl sanitizeStep ([], false)

/-- The prompt for a question and what was retrieved (`generate.py:61-64`). -/
def prompt (system question : Str) (chunks : List ScoredChunk) : GroundedPrompt :=
  buildGroundedPrompt question (sanitize chunks).1 system

/-- The events after the retrieval (`generate.py:61-80`). -/
def events (lower : Str → Str) (system question : Str) (chunks : List ScoredChunk) :
    List AnswerEvent :=
  .sources (sanitize chunks).2 ((prompt system question chunks).citations.map fun c =>
      (c.marker, c.chunkId.str, c.documentId.str)) ::
    (LocalTemplateLanguageModel.stream lower (prompt system question chunks)).map .token ++ [.done]

/-- `stream` (`generate.py:57-89`). -/
def stream (handler : GenerateAnswerHandler) (tenantId : UUID) (query : SearchQuery) :
    Except Error (List AnswerEvent) :=
  (handler.searcher tenantId query).map
    (events handler.lower handler.systemPrompt query.text)

end GenerateAnswerHandler

/-- The text of a token event. -/
def AnswerEvent.text : AnswerEvent → Str
  | .token text => text
  | _ => []

/-- The concatenated token events of a stream. -/
def answerText (events : List AnswerEvent) : Str := (events.map AnswerEvent.text).flatten

theorem answerText_tokens (texts : List Str) :
    ((texts.map AnswerEvent.token).map AnswerEvent.text).flatten = texts.flatten := by
  rw [List.map_map]
  exact congrArg List.flatten (List.map_id texts)

namespace GenerateAnswerHandler

/-! ## What an answer is made of -/

/-- A chunk with what the guard leaves of its text. -/
def cleaned (chunk : ScoredChunk) : ScoredChunk :=
  { chunk with text := (PromptInjectionGuard.scan chunk.text).1 }

theorem sanitize_eq (chunks : List ScoredChunk) :
    sanitize chunks =
      (chunks.map cleaned, chunks.any fun chunk => (PromptInjectionGuard.scan chunk.text).2) := by
  unfold sanitize
  induction chunks using List.reverseRecOn with
  | nil => rfl
  | append_singleton chunks chunk ih =>
      rw [List.foldl_concat, ih]
      simp [sanitizeStep, cleaned]

theorem take_zipIdx {α : Type} (xs : List α) (k n : Nat) :
    (xs.zipIdx k).take n = (xs.take n).zipIdx k := by
  induction xs generalizing k n with
  | nil => simp
  | cons x xs ih =>
      cases n with
      | zero => rfl
      | succ n => rw [List.zipIdx_cons, List.take_succ_cons, ih, List.take_succ_cons,
          List.zipIdx_cons]

/-- Sentences with markers that count from `k`. -/
def marked (k : Nat) (sentences : List Str) : List Str :=
  (sentences.zipIdx k).map fun p => p.1 ++ " ".toList ++ markerText p.2

/-- The sentences of an answer. -/
def chosen (lower : Str → Str) (question : Str) (chunks : List ScoredChunk) : List Str :=
  (chunks.take LocalTemplateLanguageModel.maxPassagesInAnswer).map fun chunk =>
    LocalTemplateLanguageModel.bestSentence lower (PromptInjectionGuard.scan chunk.text).1
      (LocalTemplateLanguageModel.tokens lower question)

theorem length_chosen (lower : Str → Str) (question : Str) (chunks : List ScoredChunk) :
    (chosen lower question chunks).length = min 3 chunks.length := by
  unfold chosen
  rw [List.length_map, List.length_take]
  rfl

variable (lower : Str → Str) (system question : Str) {chunks : List ScoredChunk}

theorem passages_eq (chunks : List ScoredChunk) : (prompt system question chunks).passages =
    (chunks.zipIdx 1).map fun p => .ofChunk (cleaned p.1) p.2 := by
  unfold prompt buildGroundedPrompt
  rw [sanitize_eq]
  simp only
  rw [List.zipIdx_map, List.map_map]
  simp only [Function.comp_def, Prod.map_fst, Prod.map_snd, id]

/-- The part of an answer that a chunk contributes. -/
theorem part_cleaned (queryTokens : List Str) (chunk : ScoredChunk) (marker : Nat) :
    LocalTemplateLanguageModel.part lower queryTokens (.ofChunk (cleaned chunk) marker) =
      LocalTemplateLanguageModel.bestSentence lower (PromptInjectionGuard.scan chunk.text).1
        queryTokens ++ " ".toList ++ markerText marker := by
  unfold LocalTemplateLanguageModel.part PromptPassage.ofChunk cleaned
  dsimp only

/-- The token events of a stream together are what `_compose` returns. -/
theorem answerText_events (chunks : List ScoredChunk) :
    answerText (events lower system question chunks) =
      LocalTemplateLanguageModel.compose lower (prompt system question chunks) := by
  unfold answerText events
  rw [List.map_append, List.map_cons, List.flatten_append, List.flatten_cons, answerText_tokens,
    LocalTemplateLanguageModel.flatten_stream]
  simp [AnswerEvent.text]

/-- An answer is the preface and the sentences with their markers. -/
theorem answerText_eq (h : chunks ≠ []) :
    answerText (events lower system question chunks) =
      LocalTemplateLanguageModel.preface ++
        join " ".toList (marked 1 (chosen lower question chunks)) := by
  have hpassages : (prompt system question chunks).passages ≠ [] := by
    rw [passages_eq]
    simpa using h
  have hquestion : (prompt system question chunks).question = question := rfl
  rw [answerText_events]
  unfold LocalTemplateLanguageModel.compose marked chosen
  rw [if_neg hpassages, passages_eq, ← List.map_take, take_zipIdx, List.zipIdx_map, List.map_map,
    List.map_map, hquestion]
  simp only [Function.comp_def, Prod.map_fst, Prod.map_snd, id, part_cleaned]

end GenerateAnswerHandler

end Eka
