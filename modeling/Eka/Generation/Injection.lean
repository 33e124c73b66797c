import Eka.Generation.Generate
import Eka.Lib.PyCase

/-!
# Prompt injection

The guard looks at one passage at a time. What is put together from the passages afterwards has
spaces and line ends after their texts, and one of the patterns ends with whitespace.
-/

namespace Eka

open Py

namespace PromptInjectionGuard

theorem clean_of_all {s : Str} (h : (patterns.all fun r => !r.search s) = true) : Clean s := by
  intro r hr
  simpa using of_patterns h hr

theorem clean_nil : Clean [] :=
  clean_iff.mpr fun _ h => Regex.free_nil (nullable_pattern h)

/-- A marker is no part of a match. -/
theorem clean_marker (a : Str) (marker : Nat) (b : Str) :
    Clean (a ++ markerText marker ++ b) ↔ Clean a ∧ Clean b := by
  have hshape : a ++ markerText marker ++ b =
      a ++ '[' :: ((toString marker).toList ++ ']' :: b) := by
    simp [markerText]
  have hdigits : ∀ r ∈ patterns, r.Free (toString marker).toList := by
    intro r hr
    have hnone : ∀ c ∈ (toString marker).toList, (!(isSpace c || c.isDigit)) = false := by
      intro c hc
      rw [isDigit_of_mem_toString hc, Bool.or_true, Bool.not_true]
    have hfree := Regex.free_append_of_starts (starts_pattern hr) (nullable_pattern hr) hnone []
    rw [List.append_nil] at hfree
    exact hfree.mpr (Regex.free_nil (nullable_pattern hr))
  rw [hshape, clean_iff, clean_iff, clean_iff, ← forall₂_and]
  refine forall₂_congr fun r hr => ?_
  rw [Regex.free_append_cons (avoids_open hr), Regex.free_append_cons (avoids_close hr),
    and_iff_right (hdigits r hr)]

/-- No match starts with whitespace. -/
theorem clean_space_cons {c : Char} (hc : isSpace c = true) (s : Str) :
    Clean (c :: s) ↔ Clean s := by
  rw [clean_iff, clean_iff]
  refine forall₂_congr fun r hr => ?_
  exact Regex.free_cons (starts_pattern hr) (by rw [hc]; rfl) s (nullable_pattern hr)

theorem youAreNowPattern_mem : youAreNowPattern ∈ patterns := by simp [patterns]

/-- The fourth pattern alone ends with whitespace. -/
theorem eq_or_ends {r : Regex} (h : r ∈ patterns) :
    r = youAreNowPattern ∨ r.ends (fun c => !isSpace c) = true := by
  unfold patterns at h
  simp only [List.mem_cons, List.not_mem_nil, or_false] at h
  rcases h with rfl | rfl | rfl | rfl | rfl | rfl
  · exact .inr (by decide)
  · exact .inr (by decide)
  · exact .inr (by decide)
  · exact .inl rfl
  · exact .inr (by decide)
  · exact .inr (by decide)

/-- Whitespace after a clean text makes a match exactly of a `you are now` at its end. -/
theorem clean_concat {s : Str} (hs : Clean s) {c : Char} (hc : isSpace c = true) :
    Clean (s ++ [c]) ↔ ¬ youAreNow.EndsWith s := by
  have hmem := youAreNowPattern_mem
  have hfourth := Regex.free_seq_many1_concat (clean_iff.mp hs _ hmem) (test_spaces.mpr hc)
  rw [clean_iff]
  constructor
  · intro h
    exact hfourth.mp (h _ hmem)
  · intro h r hr
    rcases eq_or_ends hr with rfl | hends
    · exact hfourth.mpr h
    · exact (Regex.free_concat hends (by rw [hc]; rfl) s (nullable_pattern hr)).mpr
        (clean_iff.mp hs r hr)

/-- No match starts in the preface of an answer: one pattern has a colon, and the others that are
    without an `x` are cut off at the colon. -/
theorem clean_preface (s : Str) : Clean (LocalTemplateLanguageModel.preface ++ s) ↔ Clean s := by
  rw [clean_iff, clean_iff]
  refine forall₂_congr fun r hr => ?_
  have hcut : (r.avoids 'x' || r.avoids ':') = true :=
    of_patterns (p := fun r => r.avoids 'x' || r.avoids ':') (by decide) hr
  have hstarts : r.starts (fun c => !"t: ".toList.contains c) = true :=
    of_patterns (p := fun r => r.starts fun c => !"t: ".toList.contains c) (by decide) hr
  have hfree : r.Free "Based on the retrieved context".toList := by
    have hall : (patterns.all fun r => !r.search "Based on the retrieved context".toList) = true :=
      by decide
    rw [← Regex.search_eq_false]
    simpa using of_patterns hall hr
  have hafter : ∀ b : Str, (∀ c ∈ b, c ∈ "t: ".toList) → (r.Free (b ++ s) ↔ r.Free s) := by
    intro b hb
    refine Regex.free_append_of_starts hstarts (nullable_pattern hr) (fun c hc => ?_) s
    rw [List.contains_iff_mem.mpr (hb c hc), Bool.not_true]
  rcases Bool.or_eq_true_iff.mp hcut with hx | hcolon
  · have heq : LocalTemplateLanguageModel.preface =
        "Based on the retrieved conte".toList ++ 'x' :: "t: ".toList := by decide
    have hprefix : "Based on the retrieved conte".toList <+:
        "Based on the retrieved context".toList := by decide
    rw [heq, List.append_assoc, List.cons_append, Regex.free_append_cons hx,
      and_iff_right (hfree.part hprefix.isInfix)]
    exact hafter _ fun _ hc => hc
  · have heq : LocalTemplateLanguageModel.preface =
        "Based on the retrieved context".toList ++ ':' :: " ".toList := by decide
    rw [heq, List.append_assoc, List.cons_append, Regex.free_append_cons hcolon,
      and_iff_right hfree]
    exact hafter [' '] fun c hc => by simp [List.mem_singleton.mp hc]

theorem clean_cons_marker (marker : Nat) (s : Str) : Clean (markerText marker ++ s) ↔ Clean s := by
  have h := clean_marker [] marker s
  rwa [List.nil_append, and_iff_right clean_nil] at h

/-- The marked texts of a prompt. -/
def markedLines (k : Nat) (texts : List Str) : List Str :=
  (texts.zipIdx k).map fun p => markerText p.2 ++ " ".toList ++ p.1

theorem markedLines_cons (k : Nat) (t : Str) (texts : List Str) :
    markedLines k (t :: texts) =
      (markerText k ++ (" ".toList ++ t)) :: markedLines (k + 1) texts := by
  unfold markedLines
  rw [List.zipIdx_cons, List.map_cons, List.append_assoc]

/-- The marked texts of a prompt are clean exactly when none but the last ends so that the line
    end completes a match. -/
theorem clean_markedLines {texts : List Str} (htexts : ∀ t ∈ texts, Clean t) (k : Nat) :
    Clean (join "\n".toList (markedLines k texts)) ↔
      ∀ t ∈ texts.dropLast, ¬ youAreNow.EndsWith t := by
  have hspace : ∀ t : Str, Clean (" ".toList ++ t) ↔ Clean t := clean_space_cons (by decide)
  induction texts generalizing k with
  | nil => exact iff_of_true clean_nil fun _ h => nomatch h
  | cons t texts ih =>
      have hclean := htexts t List.mem_cons_self
      have hrest := ih (fun t ht => htexts t (List.mem_cons_of_mem _ ht)) (k + 1)
      rw [markedLines_cons]
      cases texts with
      | nil =>
          refine iff_of_true ?_ fun _ h => nomatch h
          show Clean (markerText k ++ (" ".toList ++ t) ++ [])
          rw [List.append_nil, clean_cons_marker, hspace]
          exact hclean
      | cons next texts =>
          rw [markedLines_cons] at hrest ⊢
          rw [join_cons_append, clean_cons_marker] at hrest
          have hshape : join "\n".toList ((markerText k ++ (" ".toList ++ t)) ::
              (markerText (k + 1) ++ (" ".toList ++ next)) :: markedLines (k + 1 + 1) texts) =
              markerText k ++ (" ".toList ++ (t ++ ['\n'] ++ markerText (k + 1) ++
                join "\n".toList ((" ".toList ++ next) :: markedLines (k + 1 + 1) texts))) := by
            rw [join_cons _ _ (List.cons_ne_nil _ _), join_cons_append]
            simp
          rw [hshape, clean_cons_marker, hspace, clean_marker, clean_concat hclean (by decide),
            List.dropLast_cons_of_ne_nil (List.cons_ne_nil _ _), List.forall_mem_cons]
          exact and_congr_right fun _ => hrest

/-- The marked sentences of an answer are clean exactly when none of them ends so that the space
    in front of its marker completes a match. -/
theorem clean_marked {ss : List Str} (hss : ∀ s ∈ ss, Clean s) (k : Nat) :
    Clean (join " ".toList (GenerateAnswerHandler.marked k ss)) ↔
      ∀ s ∈ ss, ¬ youAreNow.EndsWith s := by
  have hspace : ∀ t : Str, Clean (" ".toList ++ t) ↔ Clean t := clean_space_cons (by decide)
  induction ss generalizing k with
  | nil => exact iff_of_true clean_nil fun _ h => nomatch h
  | cons s ss ih =>
      have hrest := ih (fun s hs => hss s (List.mem_cons_of_mem _ hs)) (k + 1)
      have hs : Clean (s ++ " ".toList) ↔ ¬ youAreNow.EndsWith s :=
        clean_concat (hss s List.mem_cons_self) (by decide)
      have hmarked : GenerateAnswerHandler.marked k (s :: ss) =
          (s ++ " ".toList ++ markerText k) :: GenerateAnswerHandler.marked (k + 1) ss := rfl
      rw [List.forall_mem_cons, hmarked]
      by_cases hnil : ss = []
      · subst hnil
        rw [← hs, and_iff_left (fun _ h => nomatch h)]
        show Clean (s ++ " ".toList ++ markerText k ++ []) ↔ _
        rw [clean_marker, and_iff_left clean_nil]
      · have hne : GenerateAnswerHandler.marked (k + 1) ss ≠ [] := by
          simpa [GenerateAnswerHandler.marked] using hnil
        rw [join_cons _ _ hne, List.append_assoc _ " ".toList, clean_marker, hspace, hs]
        exact and_congr_right fun _ => hrest

/-! ## The end of a sentence -/

theorem youAreNow_ne_nil {w : Str} (hw : w ∈ youAreNow.denote) : w ≠ [] := by
  rintro rfl
  exact absurd (Regex.nullable_of_nil_mem hw) (by decide)

theorem isSpace_head_youAreNow {w : Str} (hw : w ∈ youAreNow.denote) (hne : w ≠ []) :
    isSpace (w.head hne) = false := by
  have hstarts : youAreNow.starts (fun c => !isSpace c) = true := by decide
  have hhead := Regex.of_starts hstarts (t := w.tail) (by rwa [List.cons_head_tail hne])
  simpa using hhead

theorem last_youAreNow {w : Str} (hw : w ∈ youAreNow.denote) (hne : w ≠ []) :
    isSpace (w.getLast hne) = false ∧ LocalTemplateLanguageModel.isStop (w.getLast hne) = false := by
  have hends : youAreNow.ends
      (fun c => !isSpace c && !LocalTemplateLanguageModel.isStop c) = true := by decide
  have hlast := Regex.of_ends hends (t := w.dropLast) (by rwa [List.dropLast_append_getLast hne])
  simpa using hlast

theorem isStop_youAreNow {w : Str} (hw : w ∈ youAreNow.denote) {c : Char} (hc : c ∈ w) :
    LocalTemplateLanguageModel.isStop c = false := by
  have havoids : ∀ d : Char, youAreNow.avoids d = true → c ≠ d := by
    rintro d hd rfl
    exact Regex.notMem_of_avoids hd hw hc
  have hdot := havoids '.' (by decide)
  have hbang := havoids '!' (by decide)
  have hquestion := havoids '?' (by decide)
  simp [LocalTemplateLanguageModel.isStop, hdot, hbang, hquestion]

/-- Stripped of its whitespace, an end of a clean text ends like the text. -/
theorem endsWith_of_strip {text b : Str} (htext : Clean text) (hb : b <:+ text)
    (h : youAreNow.EndsWith (strip b)) : youAreNow.EndsWith text := by
  obtain ⟨w, hw, z, hz⟩ := h
  obtain ⟨front, back, -, hback, heq⟩ := exists_strip b
  have hsuf : w ++ back <:+ text := by
    refine List.IsSuffix.trans ⟨front ++ z, ?_⟩ hb
    rw [heq, ← hz]
    simp only [List.append_assoc]
  cases back with
  | nil =>
      rw [List.append_nil] at hsuf
      exact ⟨w, hw, hsuf⟩
  | cons c back =>
      -- the whitespace would have completed a match in the text
      have hgap : c :: back ∈ gap.denote :=
        Regex.mem_many1.mpr ⟨List.cons_ne_nil _ _, fun d hd => test_spaces.mpr (hback d hd)⟩
      exact absurd hsuf.isInfix
        (clean_iff.mp htext _ youAreNowPattern_mem _ (Language.append_mem_mul hw hgap))

open LocalTemplateLanguageModel

/-- Of the sentences of a clean text only the last can end with `you are now`, and it does if the
    text does. -/
theorem exists_sentences_of_clean {text : Str} (htext : Clean text) :
    ∃ front b, sentences text = front ++ (if strip b = [] then [] else [strip b]) ∧
      (∀ s ∈ front, ¬ youAreNow.EndsWith s) ∧
        (youAreNow.EndsWith (strip b) ↔ youAreNow.EndsWith text) := by
  obtain ⟨front, b, hsentences, hb, hfront, hall⟩ := exists_sentences text
  refine ⟨front, b, hsentences, ?_, endsWith_of_strip htext hb, ?_⟩
  · rintro s hs ⟨w, hw, hsuf⟩
    obtain ⟨u, c, rfl, hc⟩ := hfront s hs
    have hne := youAreNow_ne_nil hw
    have hlast := hsuf.getLast hne
    rw [List.getLast_append_of_ne_nil _ (List.cons_ne_nil _ _), List.getLast_singleton] at hlast
    rw [← hlast, (last_youAreNow hw hne).2] at hc
    cases hc
  · rintro ⟨w, hw, hsuf⟩
    have hne := youAreNow_ne_nil hw
    have hin := hall w hsuf fun c hc => isStop_youAreNow hw hc
    exact ⟨w, hw, suffix_strip hin hne (isSpace_head_youAreNow hw hne) (last_youAreNow hw hne).1⟩

/-- The sentence that is taken from a clean text ends with `you are now` exactly if the text
    does and its last sentence is taken. -/
theorem endsWith_bestSentence {text : Str} (htext : Clean text) (lower : Str → Str)
    (queryTokens : List Str) :
    youAreNow.EndsWith (bestSentence lower text queryTokens) ↔
      youAreNow.EndsWith text ∧ LastLeads lower queryTokens text := by
  obtain ⟨front, b, hsentences, hstop, hiff⟩ := exists_sentences_of_clean htext
  have hopen : youAreNow.EndsWith (strip b) → strip b ≠ [] := by
    rintro ⟨w, hw, hsuf⟩ hnil
    rw [hnil] at hsuf
    exact youAreNow_ne_nil hw (List.suffix_nil.mp hsuf)
  by_cases hstrip : strip b = []
  · rw [if_pos hstrip, List.append_nil] at hsentences
    refine iff_of_false ?_ fun h => hopen (hiff.mpr h.1) hstrip
    intro h
    rcases bestSentence_spec lower queryTokens text with ⟨-, hbest⟩ | ⟨hbest, -⟩
    · rw [hbest] at h
      exact hopen (hiff.mpr (endsWith_of_strip htext (List.suffix_refl _) h)) hstrip
    · rw [hsentences] at hbest
      exact hstop _ hbest h
  · rw [if_neg hstrip] at hsentences
    have hne : sentences text ≠ [] := by
      rw [hsentences]
      exact List.append_ne_nil_of_right_ne_nil _ (List.cons_ne_nil _ _)
    have hleads : bestSentence lower text queryTokens = strip b ↔
        Leads (overlap lower queryTokens) (front ++ [strip b]) (strip b) := by
      rw [bestSentence_eq_iff hne, hsentences]
    constructor
    · intro h
      have hbest : bestSentence lower text queryTokens = strip b := by
        have hmem : bestSentence lower text queryTokens ∈ sentences text :=
          bestSentence_mem lower queryTokens hne
        rw [hsentences] at hmem
        rcases List.mem_append.mp hmem with hmem | hmem
        · exact absurd h (hstop _ hmem)
        · exact List.mem_singleton.mp hmem
      rw [hbest] at h
      have hnot : strip b ∉ front := fun hmem => hstop _ hmem h
      exact ⟨hiff.mp h, front, strip b, hsentences, (leads_concat hnot).mp (hleads.mp hbest)⟩
    · rintro ⟨h, front', last, heq, hlast⟩
      have h := hiff.mpr h
      have hnot : strip b ∉ front := fun hmem => hstop _ hmem h
      rw [hsentences] at heq
      obtain ⟨rfl, hb⟩ := List.append_inj' heq rfl
      rw [← List.singleton_inj.mp hb] at hlast
      rw [hleads.mpr ((leads_concat hnot).mpr hlast)]
      exact h

end PromptInjectionGuard

namespace GenerateAnswerHandler

open PromptInjectionGuard LocalTemplateLanguageModel

variable (lower : Str → Str) (system question : Str) (chunks : List ScoredChunk)

theorem clean_body : Clean (prompt system question chunks).body ↔
    ∀ chunk ∈ chunks.dropLast, ¬ youAreNow.EndsWith (scan chunk.text).1 := by
  by_cases h : chunks = []
  · subst h
    have hbody : (prompt system question []).body = "(no passages retrieved)".toList := rfl
    rw [hbody]
    exact iff_of_true (clean_of_all (by decide)) fun _ h => nomatch h
  · have hpassages : (prompt system question chunks).passages ≠ [] := by
      rw [passages_eq]
      simpa using h
    have hlines : (prompt system question chunks).passages.map (fun p =>
        markerText p.marker ++ " ".toList ++ p.text) =
          markedLines 1 (chunks.map fun chunk => (scan chunk.text).1) := by
      unfold markedLines
      rw [passages_eq, List.zipIdx_map, List.map_map, List.map_map]
      simp only [Function.comp_def, PromptPassage.ofChunk, cleaned, Prod.map_fst, Prod.map_snd, id]
    unfold GroundedPrompt.body
    rw [if_neg hpassages, hlines, clean_markedLines, ← List.map_dropLast, List.forall_mem_map]
    intro t ht
    obtain ⟨chunk, -, rfl⟩ := List.mem_map.mp ht
    exact scan_clean chunk.text

theorem clean_answer : Clean (answerText (events lower system question chunks)) ↔
    ∀ chunk ∈ chunks.take 3, ¬ (youAreNow.EndsWith (scan chunk.text).1 ∧
      LastLeads lower (tokens lower question) (scan chunk.text).1) := by
  by_cases h : chunks = []
  · subst h
    refine iff_of_true ?_ fun _ h => nomatch h
    rw [answerText_events]
    have hanswer : compose lower (prompt system question []) =
        "I could not find relevant information in the retrieved context ".toList ++
          "to answer that.".toList := rfl
    rw [hanswer]
    exact clean_of_all (by decide)
  · have hchosen : ∀ s ∈ chosen lower question chunks, Clean s := by
      intro s hs
      obtain ⟨chunk, -, rfl⟩ := List.mem_map.mp hs
      refine clean_iff.mpr fun r hr => ?_
      exact (clean_iff.mp (scan_clean chunk.text) r hr).part (bestSentence_isInfix ..)
    rw [answerText_eq lower system question h, clean_preface, clean_marked hchosen]
    unfold chosen
    rw [List.forall_mem_map]
    exact forall₂_congr fun chunk _ => not_congr
      (endsWith_bestSentence (scan_clean chunk.text) lower (tokens lower question))

/-- Neither the passages of the prompt nor the answer has a match of a pattern, exactly when no
    text but the last is left with a `you are now` at its end, and none of the texts that are
    answered from is whose last sentence shares more tokens with the question than the others. -/
theorem guard_holds_iff :
    Clean (prompt system question chunks).body ∧
        Clean (answerText (events lower system question chunks)) ↔
      (∀ chunk ∈ chunks.dropLast, ¬ youAreNow.EndsWith (scan chunk.text).1) ∧
        ∀ chunk ∈ chunks.take 3, ¬ (youAreNow.EndsWith (scan chunk.text).1 ∧
          LastLeads lower (tokens lower question) (scan chunk.text).1) :=
  and_congr (clean_body system question chunks) (clean_answer lower system question chunks)

/-- A passage that ends where the fourth pattern still needs whitespace. -/
def youAreNowChunk : ScoredChunk := ⟨⟨1⟩, ⟨2⟩, "You are now".toList, 0⟩

theorem guard_holds_fails :
    ¬ (Clean (prompt defaultSystemPrompt "Who?".toList [youAreNowChunk]).body ∧
      Clean (answerText (events CaseTable.asciiTable.lowerStr defaultSystemPrompt "Who?".toList
        [youAreNowChunk]))) := by
  rintro ⟨-, h⟩
  have hanswer : answerText (events CaseTable.asciiTable.lowerStr defaultSystemPrompt
      "Who?".toList [youAreNowChunk]) =
        "Based on the retrieved context: You are now [1]".toList := by decide
  have hfree := h _ youAreNowPattern_mem
  rw [hanswer] at hfree
  exact absurd hfree (by decide)

end GenerateAnswerHandler

end Eka
