import Eka.Generation.Generate
import Eka.Lib.PyCase

/-!
# Grounding

What an answer says comes out of the passages: every sentence is a part of what the guard leaves
of a passage, and every token of the answer is one of a passage, of the preface or a marker.
Cuts and joins are made at characters that stand in no token.
-/

namespace Eka

open Py

theorem noSigma_isTokenChar : CaseTable.NoSigma isTokenChar := ⟨by decide, by decide⟩

section Tokens

variable (table : CaseTable)

/-- The tokens of a text in lower case. -/
def lowerTokens (text : Str) : List Str := findTokens (table.lowerStr text)

variable {table}

theorem breaks_space {c : Char} (hc : isSpace c = true) : table.Breaks isTokenChar c :=
  CaseTable.breaks_of_isSpace (fun _ => isTokenChar_of_isSpace) hc

theorem lowerTokens_append_cons {c : Char} (hc : table.Breaks isTokenChar c) (a b : Str) :
    lowerTokens table (a ++ c :: b) = lowerTokens table a ++ lowerTokens table b :=
  CaseTable.runs_lower_append_cons noSigma_isTokenChar hc a b

theorem lowerTokens_concat {c : Char} (hc : table.Breaks isTokenChar c) (a : Str) :
    lowerTokens table (a ++ [c]) = lowerTokens table a :=
  CaseTable.runs_lower_concat noSigma_isTokenChar hc a

theorem lowerTokens_cons {c : Char} (hc : table.Breaks isTokenChar c) (b : Str) :
    lowerTokens table (c :: b) = lowerTokens table b :=
  CaseTable.runs_lower_cons noSigma_isTokenChar hc b

theorem lowerTokens_strip (s : Str) : lowerTokens table (strip s) = lowerTokens table s :=
  CaseTable.runs_lower_strip noSigma_isTokenChar (fun _ => isTokenChar_of_isSpace) s

/-- A marker has its number as its only token. -/
theorem lowerTokens_marker (marker : Nat) :
    lowerTokens table (markerText marker) = [(toString marker).toList] := by
  have hdigit : ∀ c ∈ (toString marker).toList, c.isDigit = true :=
    fun c hc => isDigit_of_mem_toString hc
  have htoken : ∀ c ∈ (toString marker).toList, isTokenChar c = true := by
    intro c hc
    have := hdigit c hc
    simp only [Char.isDigit, Bool.and_eq_true, decide_eq_true_eq, UInt32.le_iff_toNat_le] at this
    simp only [isTokenChar, Bool.or_eq_true, Bool.and_eq_true, decide_eq_true_eq]
    exact .inl this
  have hne : (toString marker).toList ≠ [] := by
    rw [toString_toList]
    exact Nat.toDigits_ne_nil
  unfold markerText
  rw [List.cons_append, lowerTokens_cons (CaseTable.breaks_of_ascii (by decide) (by decide)),
    lowerTokens_concat (CaseTable.breaks_of_ascii (by decide) (by decide))]
  unfold lowerTokens findTokens
  rw [CaseTable.lowerStr_digits hdigit, runs_of_forall hne htoken]

namespace LocalTemplateLanguageModel

theorem breaks_stop {c : Char} (hc : isStop c = true) : table.Breaks isTokenChar c := by
  simp only [isStop, Bool.or_eq_true, beq_iff_eq] at hc
  rcases hc with (rfl | rfl) | rfl
  · exact CaseTable.breaks_of_ascii (by decide) (by decide)
  · exact CaseTable.breaks_of_ascii (by decide) (by decide)
  · exact CaseTable.breaks_of_ascii (by decide) (by decide)

/-- The sentences of a text have its tokens. -/
theorem flatMap_scanSentences (current cs : Str) :
    (scanSentences current cs).flatMap (lowerTokens table) =
      lowerTokens table (current ++ cs) := by
  induction cs generalizing current with
  | nil =>
      rw [List.append_nil]
      unfold scanSentences
      split
      · next hnil =>
          rw [hnil]
          rfl
      · exact List.flatMap_singleton ..
  | cons c cs ih =>
      unfold scanSentences
      split
      · next hc =>
          rw [lowerTokens_append_cons (breaks_stop hc)]
          split
          · next hnil =>
              rw [hnil, ih]
              rfl
          · rw [List.flatMap_cons, lowerTokens_concat (breaks_stop hc), ih, List.nil_append]
      · rw [ih, List.append_assoc, List.singleton_append]

theorem mem_lowerTokens_of_mem_sentences {text s token : Str} (hs : s ∈ sentences text)
    (h : token ∈ lowerTokens table s) : token ∈ lowerTokens table text := by
  obtain ⟨t, ht, rfl⟩ := List.mem_map.mp hs
  rw [lowerTokens_strip] at h
  have hmem : token ∈ (findSentences text).flatMap (lowerTokens table) :=
    List.mem_flatMap.mpr ⟨t, List.mem_of_mem_filter ht, h⟩
  unfold findSentences at hmem
  rwa [flatMap_scanSentences] at hmem

theorem mem_lowerTokens_of_bestSentence {lower : Str → Str} {queryTokens : List Str}
    {text token : Str} (h : token ∈ lowerTokens table (bestSentence lower text queryTokens)) :
    token ∈ lowerTokens table text := by
  rcases bestSentence_spec lower queryTokens text with ⟨-, hbest⟩ | ⟨hbest, -⟩
  · rwa [hbest, lowerTokens_strip] at h
  · exact mem_lowerTokens_of_mem_sentences hbest h

theorem lowerTokens_preface (s : Str) :
    lowerTokens table (preface ++ s) = lowerTokens table preface ++ lowerTokens table s := by
  have hbreaks : table.Breaks isTokenChar ' ' := breaks_space (by decide)
  rw [preface_eq, lowerTokens_concat hbreaks, List.append_assoc, List.singleton_append,
    lowerTokens_append_cons hbreaks]

end LocalTemplateLanguageModel

namespace GenerateAnswerHandler

open LocalTemplateLanguageModel

/-- Marked sentences have the tokens of the sentences and the numbers of the markers. -/
theorem mem_lowerTokens_marked {k : Nat} {ss : List Str} {token : Str}
    (h : token ∈ lowerTokens table (join " ".toList (marked k ss))) :
    (∃ s ∈ ss, token ∈ lowerTokens table s) ∨
      ∃ marker, k ≤ marker ∧ marker < k + ss.length ∧ token = (toString marker).toList := by
  have hbreaks : table.Breaks isTokenChar ' ' := breaks_space (by decide)
  have hjoin : lowerTokens table (join [' '] (marked k ss)) =
      (marked k ss).flatMap (lowerTokens table) :=
    CaseTable.runs_lower_join noSigma_isTokenChar hbreaks _
  rw [show " ".toList = [' '] from rfl, hjoin] at h
  obtain ⟨part, hpart, htoken⟩ := List.mem_flatMap.mp h
  obtain ⟨⟨s, marker⟩, hmem, rfl⟩ := List.mem_map.mp hpart
  rw [show " ".toList = [' '] from rfl, List.append_assoc, List.singleton_append,
    lowerTokens_append_cons hbreaks, lowerTokens_marker] at htoken
  rcases List.mem_append.mp htoken with htoken | htoken
  · exact .inl ⟨s, List.fst_mem_of_mem_zipIdx hmem, htoken⟩
  · exact .inr ⟨marker, List.le_snd_of_mem_zipIdx hmem, List.snd_lt_add_of_mem_zipIdx hmem,
      List.mem_singleton.mp htoken⟩

/-- A token of a sentence of the answer is one of what the guard leaves of a passage. -/
theorem mem_lowerTokens_chosen {lower : Str → Str} {question s token : Str}
    {chunks : List ScoredChunk} (hs : s ∈ chosen lower question chunks)
    (h : token ∈ lowerTokens table s) :
    ∃ chunk ∈ chunks, token ∈ lowerTokens table (PromptInjectionGuard.scan chunk.text).1 := by
  obtain ⟨chunk, hchunk, rfl⟩ := List.mem_map.mp hs
  exact ⟨chunk, List.mem_of_mem_take hchunk, mem_lowerTokens_of_bestSentence h⟩

end GenerateAnswerHandler

end Tokens

namespace GenerateAnswerHandler

open LocalTemplateLanguageModel

/-- What is taken is a sentence, or all there is where there is none. -/
theorem bestSentence_mem_or (lower : Str → Str) (queryTokens : List Str) (text : Str) :
    bestSentence lower text queryTokens ∈ sentences text ∨
      sentences text = [] ∧ bestSentence lower text queryTokens = strip text := by
  rcases bestSentence_spec lower queryTokens text with hnone | ⟨hmem, -⟩
  · exact .inr hnone
  · exact .inl hmem

/-- No sentence shares more tokens with the question than the one that is taken. -/
theorem overlap_le_bestSentence (lower : Str → Str) (queryTokens : List Str) {text s : Str}
    (hs : s ∈ sentences text) :
    overlap lower queryTokens s ≤
      overlap lower queryTokens (bestSentence lower text queryTokens) := by
  rcases bestSentence_spec lower queryTokens text with ⟨hnil, -⟩ | ⟨-, hmax⟩
  · rw [hnil] at hs
    exact absurd hs List.not_mem_nil
  · exact hmax s hs

/-- The answer is the preface and, with their markers, one sentence for each of the first three
    passages: a part of what the guard leaves of it, one of its sentences if it has any, that
    shares at least as many tokens with the question as any of them. No other token gets into
    it. -/
theorem answer_grounded (table : CaseTable) (system question : Str) {chunks : List ScoredChunk}
    (h : chunks ≠ []) :
    (∃ ss : List Str,
      answerText (events table.lowerStr system question chunks) =
        preface ++ join " ".toList (marked 1 ss) ∧
      List.Forall₂ (fun s chunk => s <:+: (PromptInjectionGuard.scan chunk.text).1 ∧
        (s ∈ sentences (PromptInjectionGuard.scan chunk.text).1 ∨
          sentences (PromptInjectionGuard.scan chunk.text).1 = [] ∧
            s = strip (PromptInjectionGuard.scan chunk.text).1) ∧
        ∀ sentence ∈ sentences (PromptInjectionGuard.scan chunk.text).1,
          overlap table.lowerStr (tokens table.lowerStr question) sentence ≤
            overlap table.lowerStr (tokens table.lowerStr question) s)
        ss (chunks.take 3)) ∧
    ∀ token ∈ lowerTokens table (answerText (events table.lowerStr system question chunks)),
      (∃ chunk ∈ chunks, token ∈ lowerTokens table (PromptInjectionGuard.scan chunk.text).1) ∨
        token ∈ lowerTokens table preface ∨
        ∃ marker, 1 ≤ marker ∧ marker ≤ min 3 chunks.length ∧
          token = (toString marker).toList := by
  rw [answerText_eq table.lowerStr system question h]
  refine ⟨⟨_, rfl, ?_⟩, ?_⟩
  · unfold chosen
    rw [List.forall₂_map_left_iff]
    refine List.forall₂_same.mpr fun chunk _ =>
      ⟨bestSentence_isInfix .., bestSentence_mem_or .., ?_⟩
    exact fun sentence hsentence => overlap_le_bestSentence _ _ hsentence
  · intro token htoken
    rw [lowerTokens_preface] at htoken
    rcases List.mem_append.mp htoken with hpreface | hmarked
    · exact .inr (.inl hpreface)
    · rcases mem_lowerTokens_marked hmarked with ⟨s, hs, hmem⟩ | ⟨marker, hge, hlt, heq⟩
      · exact .inl (mem_lowerTokens_chosen hs hmem)
      · rw [length_chosen] at hlt
        exact .inr (.inr ⟨marker, hge, by omega, heq⟩)

/-- A passage with two sentences. -/
def helloChunk : ScoredChunk :=
  ⟨⟨1⟩, ⟨2⟩, "Hello. The guard reads every passage.".toList, 0⟩

theorem answer_grounded_hello :
    (∃ ss : List Str,
      answerText (events CaseTable.asciiTable.lowerStr defaultSystemPrompt "guard?".toList
          [helloChunk]) = preface ++ join " ".toList (marked 1 ss) ∧
      ss.length = 1) ∧
    ∀ token ∈ lowerTokens CaseTable.asciiTable (answerText (events CaseTable.asciiTable.lowerStr
          defaultSystemPrompt "guard?".toList [helloChunk])),
      (∃ chunk ∈ [helloChunk], token ∈ lowerTokens CaseTable.asciiTable
          (PromptInjectionGuard.scan chunk.text).1) ∨
        token ∈ lowerTokens CaseTable.asciiTable preface ∨
        ∃ marker, 1 ≤ marker ∧ marker ≤ min 3 [helloChunk].length ∧
          token = (toString marker).toList := by
  obtain ⟨⟨ss, heq, hss⟩, htokens⟩ := answer_grounded CaseTable.asciiTable defaultSystemPrompt
    "guard?".toList (List.cons_ne_nil helloChunk [])
  exact ⟨⟨ss, heq, hss.length_eq⟩, htokens⟩

end GenerateAnswerHandler

end Eka
