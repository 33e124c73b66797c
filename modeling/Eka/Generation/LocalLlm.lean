import Mathlib.Data.List.MinMax
import Eka.Generation.Prompt
import Eka.Ingestion.HashingEmbedding

/-!
# The local language model

`generation/infrastructure/local_llm.py`. Of each of the first three passages the answer has the
sentence that shares the most tokens with the question, and the marker of the passage after it.
-/

namespace Eka

open Py

namespace LocalTemplateLanguageModel

/-- `_tokens` (`local_llm.py:21-22`), each token once. -/
def tokens (lower : Str → Str) (text : Str) : List Str := (findTokens (lower text)).dedup

/-- `[.!?]`. -/
def isStop (c : Char) : Bool := c == '.' || c == '!' || c == '?'

/-- `findall` of `[^.!?]+[.!?]?`, where `current` are the characters since the last stop. -/
def scanSentences : Str → Str → List Str
  | current, [] => if current = [] then [] else [current]
  | current, c :: cs =>
      if isStop c then
        if current = [] then scanSentences [] cs else (current ++ [c]) :: scanSentences [] cs
      else scanSentences (current ++ [c]) cs

/-- `_SENTENCE_RE.findall(text)` (`local_llm.py:17`). -/
def findSentences (text : Str) : List Str := scanSentences [] text

example : findSentences "One. Two?! three".toList =
    ["One.".toList, " Two?".toList, " three".toList] := by decide

/-- The `sentences` of `_best_sentence` (`local_llm.py:26`). -/
def sentences (text : Str) : List Str :=
  ((findSentences text).filter fun s => strip s ≠ []).map strip

/-- `len(_tokens(s) & query_tokens)`. -/
def overlap (lower : Str → Str) (queryTokens : List Str) (s : Str) : Nat :=
  ((tokens lower s).filter queryTokens.contains).length

/-- `_best_sentence` (`local_llm.py:25-30`); `max` takes the first of several. -/
def bestSentence (lower : Str → Str) (text : Str) (queryTokens : List Str) : Str :=
  match (sentences text).argmax (overlap lower queryTokens) with
  | none => strip text
  | some best => best

/-- `_MAX_PASSAGES_IN_ANSWER` (`local_llm.py:18`). -/
def maxPassagesInAnswer : Nat := 3

/-- One of the `parts` (`local_llm.py:41-43`). -/
def part (lower : Str → Str) (queryTokens : List Str) (p : PromptPassage) : Str :=
  bestSentence lower p.text queryTokens ++ " ".toList ++ markerText p.marker

/-- How an answer from passages starts. -/
def preface : Str := "Based on the retrieved context: ".toList

theorem preface_eq : preface = "Based on the retrieved context:".toList ++ [' '] := by decide

/-- `_compose` (`local_llm.py:33-44`). -/
def compose (lower : Str → Str) (prompt : GroundedPrompt) : Str :=
  if prompt.passages = [] then
    "I could not find relevant information in the retrieved context ".toList ++
      "to answer that.".toList
  else
    preface ++ join " ".toList ((prompt.passages.take maxPassagesInAnswer).map
      (part lower (tokens lower prompt.question)))

/-- `stream` (`local_llm.py:47-52`): the texts that are yielded. -/
def stream (lower : Str → Str) (prompt : GroundedPrompt) : List Str :=
  let words := split " ".toList (compose lower prompt)
  words.mapIdx fun index word => if index = words.length - 1 then word else word ++ " ".toList

/-! ## What is streamed -/

/-- The words, each with the space that followed it, are the text again. -/
theorem flatten_words {words : List Str} (hwords : words ≠ []) :
    (words.mapIdx fun index word =>
      if index = words.length - 1 then word else word ++ " ".toList).flatten =
        join " ".toList words := by
  induction words with
  | nil => exact absurd rfl hwords
  | cons word words ih =>
      by_cases hnil : words = []
      · subst hnil
        simp [join]
      · have hlength : 0 < words.length := List.length_pos_iff.mpr hnil
        have hlast : ∀ index, index + 1 = (word :: words).length - 1 ↔
            index = words.length - 1 := by
          intro index
          rw [List.length_cons]
          omega
        have hfirst : ¬ 0 = (word :: words).length - 1 := by
          rw [List.length_cons]
          omega
        rw [List.mapIdx_cons, List.flatten_cons, join_cons _ _ hnil, ← ih hnil, if_neg hfirst]
        simp only [hlast]

theorem flatten_stream (lower : Str → Str) (prompt : GroundedPrompt) :
    (stream lower prompt).flatten = compose lower prompt := by
  have hsep : " ".toList ≠ [] := by decide
  have hwords : split " ".toList (compose lower prompt) ≠ [] := splitSkip_ne_nil _ _ _
  unfold stream
  simp only
  rw [flatten_words hwords]
  exact join_split hsep _

/-! ## Sentences -/

theorem infix_of_mem_scanSentences {current cs s : Str} (h : s ∈ scanSentences current cs) :
    s <:+: current ++ cs := by
  induction cs generalizing current with
  | nil =>
      unfold scanSentences at h
      split at h
      · cases h
      · obtain rfl := List.mem_singleton.mp h
        exact (List.prefix_append _ _).isInfix
  | cons c cs ih =>
      unfold scanSentences at h
      have hrest : s ∈ scanSentences [] cs → s <:+: current ++ c :: cs := by
        intro hs
        have hin := ih hs
        rw [List.nil_append] at hin
        exact hin.trans ((List.suffix_cons c cs).trans (List.suffix_append _ _)).isInfix
      split at h
      · split at h
        · exact hrest h
        · rcases List.mem_cons.mp h with rfl | h
          · rw [List.append_cons current c cs]
            exact (List.prefix_append _ _).isInfix
          · exact hrest h
      · have hin := ih h
        rwa [List.append_assoc, List.singleton_append] at hin

theorem strip_isInfix (s : Str) : strip s <:+: s :=
  (List.rdropWhile_prefix isSpace _).isInfix.trans (List.dropWhile_suffix _).isInfix

/-- A sentence is a part of its text. -/
theorem infix_of_mem_sentences {text s : Str} (h : s ∈ sentences text) : s <:+: text := by
  obtain ⟨t, ht, rfl⟩ := List.mem_map.mp h
  exact (strip_isInfix t).trans (infix_of_mem_scanSentences (List.mem_of_mem_filter ht))

variable {lower : Str → Str} {queryTokens : List Str}

/-- `_best_sentence` takes the text without a sentence, or the first of the sentences that share
    the most tokens with the query. -/
theorem bestSentence_spec (lower : Str → Str) (queryTokens : List Str) (text : Str) :
    sentences text = [] ∧ bestSentence lower text queryTokens = strip text ∨
      bestSentence lower text queryTokens ∈ sentences text ∧
        ∀ s ∈ sentences text, overlap lower queryTokens s ≤
          overlap lower queryTokens (bestSentence lower text queryTokens) := by
  unfold bestSentence
  cases hbest : (sentences text).argmax (overlap lower queryTokens) with
  | none => exact .inl ⟨List.argmax_eq_none.mp hbest, rfl⟩
  | some best =>
      refine .inr ⟨List.argmax_mem hbest, ?_⟩
      intro s hs
      exact List.le_of_mem_argmax hs hbest

theorem bestSentence_mem (lower : Str → Str) (queryTokens : List Str) {text : Str}
    (h : sentences text ≠ []) : bestSentence lower text queryTokens ∈ sentences text := by
  rcases bestSentence_spec lower queryTokens text with ⟨hnil, -⟩ | ⟨hmem, -⟩
  · exact absurd hnil h
  · exact hmem

theorem bestSentence_isInfix (lower : Str → Str) (queryTokens : List Str) (text : Str) :
    bestSentence lower text queryTokens <:+: text := by
  rcases bestSentence_spec lower queryTokens text with ⟨-, h⟩ | ⟨h, -⟩
  · rw [h]
    exact strip_isInfix text
  · exact infix_of_mem_sentences h

theorem ne_nil_of_mem_sentences {text s : Str} (h : s ∈ sentences text) : s ≠ [] := by
  obtain ⟨t, ht, rfl⟩ := List.mem_map.mp h
  exact of_decide_eq_true (List.mem_filter.mp ht).2

/-- Only a blank text has an empty sentence. -/
theorem bestSentence_eq_nil_iff {text : Str} :
    bestSentence lower text queryTokens = [] ↔ strip text = [] := by
  constructor
  · intro hnil
    rcases bestSentence_spec lower queryTokens text with ⟨-, h⟩ | ⟨h, -⟩
    · rw [← h, hnil]
    · exact absurd hnil (ne_nil_of_mem_sentences h)
  · intro hblank
    rcases bestSentence_spec lower queryTokens text with ⟨-, h⟩ | ⟨h, -⟩
    · rw [h, hblank]
    · -- a sentence of a blank text is blank, and so is what its ends are stripped of
      obtain ⟨t, ht, hstrip⟩ := List.mem_map.mp h
      have hin := infix_of_mem_scanSentences (List.mem_of_mem_filter ht)
      have ht : Blank t := fun c hc => strip_eq_nil_iff.mp hblank c (hin.subset hc)
      rw [← hstrip, strip_eq_nil_iff.mpr ht]

/-- The sentence is the first of those with the greatest score. -/
def Leads (score : Str → Nat) (ss : List Str) (s : Str) : Prop :=
  ∃ earlier later, ss = earlier ++ s :: later ∧
    (∀ t ∈ earlier, score t < score s) ∧ ∀ t ∈ later, score t ≤ score s

theorem Leads.ne_nil {score : Str → Nat} {ss : List Str} {s : Str} (h : Leads score ss s) :
    ss ≠ [] := by
  obtain ⟨earlier, later, rfl, -⟩ := h
  exact List.append_ne_nil_of_right_ne_nil _ (List.cons_ne_nil _ _)

theorem leads_cons {score : Str → Nat} {first s : Str} {ss : List Str} :
    Leads score (first :: ss) s ↔
      (first = s ∧ ∀ t ∈ ss, score t ≤ score s) ∨ (score first < score s ∧ Leads score ss s) := by
  constructor
  · rintro ⟨earlier, later, h, hearlier, hlater⟩
    cases earlier with
    | nil =>
        obtain ⟨rfl, rfl⟩ := List.cons.inj h
        exact .inl ⟨rfl, hlater⟩
    | cons t earlier =>
        obtain ⟨rfl, rfl⟩ := List.cons.inj h
        exact .inr ⟨hearlier _ List.mem_cons_self, earlier, later, rfl,
          fun t ht => hearlier t (List.mem_cons_of_mem _ ht), hlater⟩
  · rintro (⟨rfl, hmax⟩ | ⟨hlt, earlier, later, rfl, hearlier, hlater⟩)
    · exact ⟨[], ss, rfl, by simp, hmax⟩
    · refine ⟨first :: earlier, later, rfl, ?_, hlater⟩
      intro t ht
      rcases List.mem_cons.mp ht with rfl | ht
      · exact hlt
      · exact hearlier t ht

theorem argmax_eq_some_iff {score : Str → Nat} {ss : List Str} {s : Str} :
    ss.argmax score = some s ↔ Leads score ss s := by
  induction ss with
  | nil => simp [Leads]
  | cons first ss ih =>
      rw [List.argmax_cons, leads_cons, ← ih]
      cases hbest : ss.argmax score with
      | none =>
          rw [List.argmax_eq_none.mp hbest]
          simp
      | some best =>
          have hmem : best ∈ ss := List.argmax_mem hbest
          have hmax : ∀ t ∈ ss, score t ≤ score best := fun t ht => List.le_of_mem_argmax ht hbest
          simp only [Option.some.injEq]
          split
          · next hlt =>
              rw [Option.some.injEq]
              constructor
              · rintro rfl
                exact .inr ⟨hlt, rfl⟩
              · rintro (⟨rfl, hle⟩ | ⟨-, rfl⟩)
                · exact absurd (hle best hmem) (Nat.not_le.mpr hlt)
                · rfl
          · next hge =>
              rw [Option.some.injEq]
              constructor
              · rintro rfl
                exact .inl ⟨rfl, fun t ht => (hmax t ht).trans (Nat.not_lt.mp hge)⟩
              · rintro (⟨rfl, -⟩ | ⟨hlt, rfl⟩)
                · rfl
                · exact absurd hlt hge

/-- A sentence leads as the last one by a greater score than any other. -/
theorem leads_concat {score : Str → Nat} {front : List Str} {last : Str} (h : last ∉ front) :
    Leads score (front ++ [last]) last ↔ ∀ s ∈ front, score s < score last := by
  constructor
  · rintro ⟨earlier, later, heq, hearlier, -⟩
    cases later using List.reverseRecOn with
    | nil =>
        obtain ⟨rfl, -⟩ := List.append_inj' heq rfl
        exact hearlier
    | append_singleton later t _ =>
        rw [← List.cons_append, ← List.append_assoc] at heq
        obtain ⟨rfl, -⟩ := List.append_inj' heq rfl
        exact absurd (List.mem_append_right _ List.mem_cons_self) h
  · intro hall
    exact ⟨front, [], rfl, hall, fun _ ht => nomatch ht⟩

/-- `_best_sentence` takes the sentence that leads. -/
theorem bestSentence_eq_iff {text s : Str} (h : sentences text ≠ []) :
    bestSentence lower text queryTokens = s ↔
      Leads (overlap lower queryTokens) (sentences text) s := by
  rw [← argmax_eq_some_iff]
  unfold bestSentence
  cases hbest : (sentences text).argmax (overlap lower queryTokens) with
  | none => exact absurd (List.argmax_eq_none.mp hbest) h
  | some best => exact Option.some_inj.symm

/-- What is neither a stop nor whitespace stands in a sentence. -/
theorem exists_mem_findSentences {text : Str} {c : Char} (hc : c ∈ text)
    (hstop : isStop c = false) : ∃ s ∈ findSentences text, c ∈ s := by
  have hall : ∀ cs current : Str, c ∈ current ++ cs → ∃ s ∈ scanSentences current cs, c ∈ s := by
    intro cs
    induction cs with
    | nil =>
        intro current hc
        rw [List.append_nil] at hc
        have hne : current ≠ [] := List.ne_nil_of_mem hc
        unfold scanSentences
        rw [if_neg hne]
        exact ⟨current, List.mem_singleton_self _, hc⟩
    | cons d cs ih =>
        intro current hc
        unfold scanSentences
        split
        · next hd =>
            have hne : c ≠ d := by
              rintro rfl
              rw [hd] at hstop
              cases hstop
            rw [List.mem_append, List.mem_cons, or_iff_right hne] at hc
            split
            · next hnil =>
                rw [hnil] at hc
                exact ih [] (hc.resolve_left List.not_mem_nil)
            · rcases hc with hc | hc
              · exact ⟨current ++ [d], List.mem_cons_self, List.mem_append_left _ hc⟩
              · obtain ⟨s, hs, hmem⟩ := ih [] hc
                exact ⟨s, List.mem_cons_of_mem _ hs, hmem⟩
        · rw [List.append_cons] at hc
          exact ih (current ++ [d]) hc
  exact hall text [] hc

/-- A text without sentences has only stops and whitespace. -/
theorem isSpace_of_sentences_eq_nil {text : Str} (h : sentences text = []) {c : Char}
    (hc : c ∈ text) (hstop : isStop c = false) : isSpace c = true := by
  obtain ⟨s, hs, hmem⟩ := exists_mem_findSentences hc hstop
  unfold sentences at h
  rw [List.map_eq_nil_iff, List.filter_eq_nil_iff] at h
  have hstrip := h s hs
  simp only [ne_eq, decide_not, Bool.not_eq_true', decide_eq_false_iff_not, not_not] at hstrip
  exact strip_eq_nil_iff.mp hstrip c hmem

/-! ## The last sentence -/

def EndsInStop (s : Str) : Prop := ∃ u c, s = u ++ [c] ∧ isStop c = true

theorem isSpace_of_isStop {c : Char} (h : isStop c = true) : isSpace c = false := by
  simp only [isStop, Bool.or_eq_true, beq_iff_eq] at h
  rcases h with (rfl | rfl) | rfl <;> decide

theorem EndsInStop.strip {s : Str} (h : EndsInStop s) : EndsInStop (strip s) := by
  obtain ⟨u, c, rfl, hc⟩ := h
  have hsuf : [c] <:+ Py.strip (u ++ [c]) :=
    suffix_strip (List.suffix_append u [c]) (List.cons_ne_nil _ _) (isSpace_of_isStop hc)
      (isSpace_of_isStop hc)
  obtain ⟨v, hv⟩ := hsuf
  exact ⟨v, c, hv.symm, hc⟩

/-- All that is found but the last ends in a stop; the last is what follows the last stop. -/
theorem exists_scanSentences (cs current : Str) (hcurrent : ∀ c ∈ current, isStop c = false) :
    ∃ front a b, scanSentences current cs = front ++ (if b = [] then [] else [b]) ∧
      current ++ cs = a ++ b ∧ (a = [] ∨ EndsInStop a) ∧ ∀ s ∈ front, EndsInStop s := by
  induction cs generalizing current with
  | nil =>
      refine ⟨[], [], current, ?_, ?_, .inl rfl, fun _ h => nomatch h⟩
      · rw [scanSentences, List.nil_append]
      · rw [List.append_nil, List.nil_append]
  | cons c cs ih =>
      unfold scanSentences
      split
      · next hc =>
          obtain ⟨front, a, b, hscan, hcs, ha, hfront⟩ := ih [] fun _ h => nomatch h
          rw [List.nil_append] at hcs
          have hstop : EndsInStop (current ++ c :: a) := by
            rcases ha with rfl | ⟨u, d, rfl, hd⟩
            · exact ⟨current, c, rfl, hc⟩
            · exact ⟨current ++ c :: u, d, by simp, hd⟩
          have hwhole : current ++ c :: cs = current ++ c :: a ++ b := by
            rw [hcs, List.append_assoc, List.cons_append]
          split
          · exact ⟨front, _, b, hscan, hwhole, .inr hstop, hfront⟩
          · refine ⟨(current ++ [c]) :: front, _, b, ?_, hwhole, .inr hstop, ?_⟩
            · rw [hscan, List.cons_append]
            · intro s hs
              rcases List.mem_cons.mp hs with rfl | hs
              · exact ⟨current, c, rfl, hc⟩
              · exact hfront s hs
      · next hc =>
          obtain ⟨front, a, b, hscan, hcs, ha, hfront⟩ := ih (current ++ [c]) (by
            intro d hd
            rcases List.mem_append.mp hd with hd | hd
            · exact hcurrent d hd
            · rw [List.mem_singleton.mp hd]
              simpa using hc)
          rw [List.append_assoc, List.singleton_append] at hcs
          exact ⟨front, a, b, hscan, hcs, ha, hfront⟩

/-- All sentences but the last end in a stop; the last comes from an end of the text that has all
    that ends it and is without stops. -/
theorem exists_sentences (text : Str) :
    ∃ front b, sentences text = front ++ (if strip b = [] then [] else [strip b]) ∧ b <:+ text ∧
      (∀ s ∈ front, EndsInStop s) ∧
        ∀ w, w <:+ text → (∀ c ∈ w, isStop c = false) → w <:+ b := by
  obtain ⟨front, a, b, hscan, htext, ha, hfront⟩ :=
    exists_scanSentences text [] fun _ h => nomatch h
  rw [List.nil_append] at htext
  refine ⟨(front.filter fun s => strip s ≠ []).map strip, b, ?_, ⟨a, htext.symm⟩, ?_, ?_⟩
  · unfold sentences findSentences
    rw [hscan, List.filter_append, List.map_append]
    congr 1
    by_cases hb : b = []
    · rw [hb]
      rfl
    · rw [if_neg hb]
      by_cases hstrip : strip b = []
      · simp [hstrip]
      · simp [hstrip]
  · intro s hs
    obtain ⟨t, ht, rfl⟩ := List.mem_map.mp hs
    exact (hfront t (List.mem_of_mem_filter ht)).strip
  · intro w hw hstop
    rw [htext] at hw
    rcases suffix_append_cases hw with hin | ⟨x, hx, hxa, rfl⟩
    · exact hin
    · -- the last stop would be in `w`
      rcases ha with rfl | ⟨u, c, rfl, hc⟩
      · exact absurd (List.suffix_nil.mp hxa) hx
      · have hlast := hxa.getLast hx
        rw [List.getLast_append_of_ne_nil _ (List.cons_ne_nil _ _), List.getLast_singleton] at hlast
        have hmem : c ∈ x ++ b := by
          rw [← hlast]
          exact List.mem_append_left _ (List.getLast_mem hx)
        rw [hstop c hmem] at hc
        cases hc

/-- The last sentence shares more tokens with the query than any other. -/
def LastLeads (lower : Str → Str) (queryTokens : List Str) (text : Str) : Prop :=
  ∃ front last, sentences text = front ++ [last] ∧
    ∀ s ∈ front, overlap lower queryTokens s < overlap lower queryTokens last

end LocalTemplateLanguageModel

end Eka
