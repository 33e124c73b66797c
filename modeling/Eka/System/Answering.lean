import Eka.Generation.Generate
import Eka.System.Searching

/-!
# Where an answer comes from

A search finds chunk rows of its tenant, the guard and the template take sentences from their
texts, and the texts are pieces of what the documents were registered with. Put together: what an
answer says, its tenant has registered, in the document that the answer cites for it.
-/

namespace Eka

open Py Transition LocalTemplateLanguageModel

/-- The citation and the passage that it stands for: the ids are those of a chunk row that the
    tenant had in a state of the run, the passage is its text, and that is a piece of a text that
    the cited document, the tenant's own, was registered with. -/
def SearchHandler.Attributes (handler : SearchHandler) (config : Config)
    (labels : List SearchLabel) (s : Searching) (tenantId : UUID) (citation : Nat × Str × Str)
    (passage : Str) : Prop :=
  ∃ result : ScoredChunk, citation.2 = (result.chunkId.str, result.documentId.str) ∧
    result.text = passage ∧ handler.RowOf config labels tenantId result ∧
    s.source.store.documents.Quotes config result.documentId tenantId passage

/-- An answer to a tenant: citations that count from 1, each attributed to its passage, and for
    the first three passages a part of what the guard leaves of each, with its marker. -/
structure SearchHandler.Attributed (handler : SearchHandler) (config : Config)
    (labels : List SearchLabel) (s : Searching) (tenantId : UUID) (events : List AnswerEvent)
    (citations : List (Nat × Str × Str)) (passages sentences : List Str) : Prop where
  sources : events.head? = some (.sources
    (passages.any fun passage => (PromptInjectionGuard.scan passage).2) citations)
  markers : citations.map Prod.fst = List.range' 1 citations.length
  attributed : List.Forall₂ (handler.Attributes config labels s tenantId) citations passages
  quoted : List.Forall₂
    (fun sentence passage => sentence <:+: (PromptInjectionGuard.scan passage).1)
    sentences (passages.take 3)
  said : answerText events =
    if passages = [] then
      "I could not find relevant information in the retrieved context ".toList ++
        "to answer that.".toList
    else preface ++ join " ".toList (GenerateAnswerHandler.marked 1 sentences)

namespace GenerateAnswerHandler

/-- The citations are those of the results, in their order. -/
theorem events_head? (lower : Str → Str) (system question : Str) (chunks : List ScoredChunk) :
    (events lower system question chunks).head? = some (.sources
      (chunks.any fun chunk => (PromptInjectionGuard.scan chunk.text).2)
      ((chunks.zipIdx 1).map fun p => (p.2, p.1.chunkId.str, p.1.documentId.str))) := by
  unfold events GroundedPrompt.citations
  rw [sanitize_eq, passages_eq, List.map_map, List.map_map]
  rfl

end GenerateAnswerHandler

namespace SearchHandler

variable {handler : SearchHandler} {config : Config}

/-- However requests, workers and searches interleave: the answer that is streamed for what a
    search of a tenant answers is attributed, sentence for sentence, to documents of the tenant. -/
theorem stream_attributed {labels : List SearchLabel} {s : Searching} {label : SearchLabel}
    {tenantId : UUID} {query : SearchQuery} {results : List ScoredChunk}
    (hrun : run (handler.step config) Searching.init labels = some s)
    (hanswer : handler.answer s label = some ((tenantId, query), .ok results))
    {generate : GenerateAnswerHandler}
    (hsearcher : generate.searcher tenantId query = .ok results) :
    ∃ events citations passages sentences, generate.stream tenantId query = .ok events ∧
      handler.Attributed config labels s tenantId events citations passages sentences := by
  refine ⟨GenerateAnswerHandler.events generate.lower generate.systemPrompt query.text results,
    (results.zipIdx 1).map fun p => (p.2, p.1.chunkId.str, p.1.documentId.str),
    results.map (·.text), GenerateAnswerHandler.chosen generate.lower query.text results, ?_, ?_⟩
  · unfold GenerateAnswerHandler.stream
    rw [hsearcher]
    rfl
  · constructor
    · rw [GenerateAnswerHandler.events_head?, List.any_map]
      rfl
    · rw [List.map_map, List.length_map, List.length_zipIdx, ← List.zipIdx_map_snd]
      rfl
    · have hpassages : results.map (·.text) = (results.zipIdx 1).map (·.1.text) := by
        conv_lhs => rw [← List.zipIdx_map_fst 1 results]
        exact List.map_map
      rw [hpassages, List.forall₂_map_left_iff, List.forall₂_map_right_iff]
      refine List.forall₂_same.mpr fun p hp => ?_
      have hrow := answer_rowOf hrun hanswer (List.fst_mem_of_mem_zipIdx hp)
      exact ⟨p.1, rfl, rfl, hrow, hrow.quotes hrun⟩
    · unfold GenerateAnswerHandler.chosen
      rw [← List.map_take, List.forall₂_map_left_iff, List.forall₂_map_right_iff]
      exact List.forall₂_same.mpr fun chunk _ => bestSentence_isInfix ..
    · cases results with
      | nil => exact GenerateAnswerHandler.answerText_events ..
      | cons result rest =>
          rw [List.map_cons, if_neg (List.cons_ne_nil _ _)]
          exact GenerateAnswerHandler.answerText_eq _ _ _ (List.cons_ne_nil _ _)

theorem stream_attributed_hello : ∃ s results events citations passages sentences,
    run (helloHandler.step helloConfig) Searching.init helloSearching = some s ∧
    helloHandler.answer s askAgain = some ((⟨1⟩, helloAgain), .ok results) ∧
    GenerateAnswerHandler.stream ⟨fun _ _ => .ok results, List.map asciiLower, defaultSystemPrompt⟩
      ⟨1⟩ helloAgain = .ok events ∧
    helloHandler.Attributed helloConfig helloSearching s ⟨1⟩ events citations passages
      sentences := by
  obtain ⟨s, results, hrun, hanswer⟩ := helloSearching_answer
  obtain ⟨events, citations, passages, sentences, hstream, hattributed⟩ := @stream_attributed
    helloHandler helloConfig _ s askAgain _ _ results hrun hanswer
    ⟨fun _ _ => .ok results, List.map asciiLower, defaultSystemPrompt⟩ rfl
  exact ⟨s, results, events, citations, passages, sentences, hrun, hanswer, hstream, hattributed⟩

end SearchHandler

end Eka
