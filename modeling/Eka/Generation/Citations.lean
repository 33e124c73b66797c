import Eka.Generation.Generate
import Eka.Lib.Join
import Eka.Lib.PyCase

/-!
# Inline citations

A decimal number in brackets in an answer is the marker after a sentence, or it comes with the
sentence out of the passage. The guard and the template leave what a passage has of the second
kind as it is.
-/

namespace Eka

open Py

/-- `[ds]`. -/
def bracketed (ds : Str) : Str := '[' :: ds ++ [']']

/-- In `s`, a decimal number `n` in brackets stands after `before`. -/
def Cites (s before : Str) (n : Nat) : Prop :=
  ∃ ds after, ds ≠ [] ∧ (∀ c ∈ ds, c.isDigit = true) ∧ Nat.ofDigitChars 10 ds 0 = n ∧
    before ++ bracketed ds ++ after = s

theorem Cites.bracket_mem {s before : Str} {n : Nat} (h : Cites s before n) : '[' ∈ s := by
  obtain ⟨ds, after, -, -, -, rfl⟩ := h
  simp [bracketed]

/-- What is in front of the number ends within the text. -/
theorem Cites.isPrefix {s before : Str} {n : Nat} (h : Cites s before n) :
    before <+: s ++ " ".toList := by
  obtain ⟨ds, after, -, -, -, rfl⟩ := h
  rw [List.append_assoc, List.append_assoc]
  exact List.prefix_append _ _

/-- Between other texts the number stands further back. -/
theorem Cites.within {s before : Str} {n : Nat} (h : Cites s before n) (front rest : Str) :
    Cites (front ++ s ++ rest) (front ++ before) n := by
  obtain ⟨ds, after, hne, hds, hn, rfl⟩ := h
  exact ⟨ds, after ++ rest, hne, hds, hn, by simp only [List.append_assoc]⟩

theorem space_notMem_bracketed {ds : Str} (hds : ∀ c ∈ ds, c.isDigit = true) :
    ' ' ∉ bracketed ds := by
  intro h
  unfold bracketed at h
  rw [List.cons_append, List.mem_cons, List.mem_append, List.mem_singleton] at h
  rcases h with h | h | h
  · exact absurd h (by decide)
  · exact absurd (hds ' ' h) (by decide)
  · exact absurd h (by decide)

/-- A marker is its own number and has no other in it. -/
theorem cites_markerText {marker n : Nat} {before : Str} :
    Cites (markerText marker) before n ↔ before = [] ∧ n = marker := by
  have hdigit : ∀ c ∈ (toString marker).toList, c.isDigit = true :=
    fun c hc => isDigit_of_mem_toString hc
  have hvalue : Nat.ofDigitChars 10 (toString marker).toList 0 = marker := by
    rw [toString_toList, Nat.ofDigitChars_ten_toDigits]
  constructor
  · rintro ⟨ds, after, -, hds, hn, heq⟩
    unfold markerText bracketed at heq
    cases before with
    | nil =>
        rw [List.nil_append, List.cons_append, List.cons_append, List.append_assoc] at heq
        obtain ⟨-, heq⟩ := List.cons.inj heq
        have hout : ∀ s : Str, (∀ c ∈ s, c.isDigit = true) → ']' ∉ s :=
          fun s hs h => absurd (hs _ h) (by decide)
        obtain ⟨rfl, -⟩ := append_cons_inj (hout _ hds) (hout _ hdigit) heq
        exact ⟨rfl, hn.symm.trans hvalue⟩
    | cons c before =>
        -- no second bracket opens in a marker
        obtain ⟨-, hin⟩ := List.cons.inj heq
        have hmem : '[' ∈ before ++ ('[' :: ds ++ [']']) ++ after := by simp
        rw [show before ++ ('[' :: ds ++ [']']) ++ after = (toString marker).toList ++ [']'] from
          hin] at hmem
        rcases List.mem_append.mp hmem with hmem | hmem
        · exact absurd (hdigit _ hmem) (by decide)
        · exact absurd (List.mem_singleton.mp hmem) (by decide)
  · rintro ⟨rfl, rfl⟩
    refine ⟨(toString n).toList, [], ?_, hdigit, hvalue, ?_⟩
    · rw [toString_toList]
      exact Nat.toDigits_ne_nil
    · rw [List.append_nil]
      rfl

/-- The markers of the citations in a sources event. -/
def AnswerEvent.markers : AnswerEvent → List Nat
  | .sources _ citations => citations.map fun citation => citation.1
  | _ => []

theorem markers_tokens (texts : List Str) :
    (texts.map AnswerEvent.token).flatMap AnswerEvent.markers = [] := by
  rw [List.flatMap_eq_nil_iff]
  intro event hevent
  obtain ⟨text, -, rfl⟩ := List.mem_map.mp hevent
  rfl

namespace GenerateAnswerHandler

open LocalTemplateLanguageModel

variable {lower : Str → Str} {system question : Str}

/-- What stands in an answer in front of a place, from the last marker on, is drawn from passage
    `n`: it is some first part of the sentence that was taken from it, or the sentence and the space
    that follows. What comes right after a marker follows the marker, not a sentence, and a blank
    passage has no sentence to follow. -/
def FollowsPassage (lower : Str → Str) (question : Str) (chunks : List ScoredChunk)
    (before : Str) (n : Nat) : Prop :=
  ∃ earlier s later u, chosen lower question chunks = earlier ++ s :: later ∧
    n = 1 + earlier.length ∧ s ≠ [] ∧ u ≠ [] ∧ u <+: s ++ " ".toList ∧
      before = preface ++ leading " ".toList (marked 1 earlier) ++ u

theorem markers_events (lower : Str → Str) (system question : Str) (chunks : List ScoredChunk) :
    (events lower system question chunks).flatMap AnswerEvent.markers =
      List.range' 1 chunks.length := by
  unfold events GroundedPrompt.citations
  rw [passages_eq, List.cons_append, List.flatMap_cons, List.flatMap_append, markers_tokens,
    ← List.zipIdx_map_snd 1 chunks]
  simp only [AnswerEvent.markers, PromptPassage.ofChunk, List.map_map, Function.comp_def,
    List.flatMap_cons, List.flatMap_nil, List.append_nil]

/-! ## Marked sentences -/

theorem marked_append_cons (k : Nat) (earlier : List Str) (s : Str) (later : List Str) :
    marked k (earlier ++ s :: later) =
      marked k earlier ++ (s ++ " ".toList ++ markerText (k + earlier.length)) ::
        marked (k + earlier.length + 1) later := by
  unfold marked
  rw [List.zipIdx_append, List.zipIdx_cons, List.map_append, List.map_cons]

theorem length_marked (k : Nat) (ss : List Str) : (marked k ss).length = ss.length := by
  unfold marked
  rw [List.length_map, List.length_zipIdx]

theorem exists_of_marked {k : Nat} {ss front rest : List Str} {part : Str}
    (h : marked k ss = front ++ part :: rest) :
    ∃ earlier s later, ss = earlier ++ s :: later ∧ front = marked k earlier ∧
      part = s ++ " ".toList ++ markerText (k + earlier.length) := by
  have hlt : front.length < ss.length := by
    rw [← length_marked k ss, h, List.length_append, List.length_cons]
    omega
  have hss : ss = ss.take front.length ++ ss[front.length] :: ss.drop (front.length + 1) := by
    rw [List.cons_getElem_drop_succ, List.take_append_drop]
  have hfront : (ss.take front.length).length = front.length := by
    rw [List.length_take]
    omega
  rw [hss, marked_append_cons] at h
  obtain ⟨hmarked, hpart⟩ := List.append_inj h (by rw [length_marked, hfront])
  exact ⟨_, _, _, hss, hmarked.symm, (List.cons.inj hpart).1.symm⟩

/-- The numbers in brackets in marked sentences are those in the sentences and the markers. -/
theorem cites_marked {k n : Nat} {ss : List Str} {before : Str} :
    Cites (join " ".toList (marked k ss)) before n ↔
      ∃ earlier s later u, ss = earlier ++ s :: later ∧
        before = leading " ".toList (marked k earlier) ++ u ∧
          (Cites s u n ∨ u = s ++ " ".toList ∧ n = k + earlier.length) := by
  constructor
  · rintro ⟨ds, after, hne, hds, hn, heq⟩
    have hspace := space_notMem_bracketed hds
    obtain ⟨front, part, rest, u, v, hparts, hpart, hbefore⟩ :=
      occurs_join hspace (List.cons_ne_nil _ _) heq
    obtain ⟨earlier, s, later, hss, rfl, hs⟩ := exists_of_marked hparts
    refine ⟨earlier, s, later, u, hss, hbefore, ?_⟩
    rw [hs, List.append_assoc] at hpart
    rcases occurs_append_cons hspace hpart.symm with ⟨w, hin⟩ | ⟨w, hu, hmarker⟩
    · exact .inl ⟨ds, w, hne, hds, hn, hin.symm⟩
    · obtain ⟨rfl, rfl⟩ := cites_markerText.mp ⟨ds, v, hne, hds, hn, hmarker.symm⟩
      exact .inr ⟨hu, rfl⟩
  · rintro ⟨earlier, s, later, u, rfl, rfl, h⟩
    obtain ⟨rest, hjoin⟩ := prefix_join " ".toList (marked k earlier)
      (s ++ " ".toList ++ markerText (k + earlier.length)) (marked (k + earlier.length + 1) later)
    rw [marked_append_cons, ← hjoin]
    refine Cites.within ?_ _ rest
    rcases h with h | ⟨rfl, rfl⟩
    · have hcites := h.within [] (" ".toList ++ markerText (k + earlier.length))
      rwa [List.nil_append, List.nil_append, ← List.append_assoc] at hcites
    · have hmarker : Cites (markerText (k + earlier.length)) [] (k + earlier.length) :=
        cites_markerText.mpr ⟨rfl, rfl⟩
      have hcites := hmarker.within (s ++ " ".toList) []
      rwa [List.append_nil, List.append_nil] at hcites

/-- No number in brackets begins in the preface. -/
theorem cites_preface {s before : Str} {n : Nat} (h : Cites (preface ++ s) before n) :
    ∃ front, before = preface ++ front ∧ Cites s front n := by
  obtain ⟨ds, after, hne, hds, hn, heq⟩ := h
  rw [preface_eq, List.append_assoc _ [' '], List.singleton_append] at heq
  rcases occurs_append_cons (space_notMem_bracketed hds) heq with ⟨rest, hin⟩ | ⟨front, hb, hs⟩
  · have hmem : '[' ∈ "Based on the retrieved context:".toList := by
      rw [hin]
      simp [bracketed]
    exact absurd hmem (by decide)
  · refine ⟨front, ?_, ds, after, hne, hds, hn, hs.symm⟩
    rw [hb, preface_eq, List.append_assoc, List.singleton_append]

/-- Without passages an answer has no brackets. -/
theorem bracket_notMem_answer_nil : '[' ∉ answerText (events lower system question []) := by
  have hanswer : answerText (events lower system question []) =
      "I could not find relevant information in the retrieved context ".toList ++
        "to answer that.".toList := by
    rw [answerText_events]
    rfl
  rw [hanswer]
  decide

/-- The numbers in brackets in an answer are those in its sentences and the markers. -/
theorem cites_answer {chunks : List ScoredChunk} (h : chunks ≠ []) {before : Str} {n : Nat} :
    Cites (answerText (events lower system question chunks)) before n ↔
      ∃ earlier s later u, chosen lower question chunks = earlier ++ s :: later ∧
        before = preface ++ leading " ".toList (marked 1 earlier) ++ u ∧
          (Cites s u n ∨ u = s ++ " ".toList ∧ n = 1 + earlier.length) := by
  rw [answerText_eq lower system question h]
  constructor
  · intro hcites
    obtain ⟨front, rfl, hfront⟩ := cites_preface hcites
    obtain ⟨earlier, s, later, u, hchosen, rfl, hn⟩ := cites_marked.mp hfront
    exact ⟨earlier, s, later, u, hchosen, (List.append_assoc ..).symm, hn⟩
  · rintro ⟨earlier, s, later, u, hchosen, rfl, hn⟩
    have hcites := (cites_marked.mpr ⟨earlier, s, later, u, hchosen, rfl, hn⟩).within preface []
    rwa [List.append_nil, ← List.append_assoc] at hcites

theorem chosen_eq (lower : Str → Str) (question : Str) {chunks front rest : List ScoredChunk}
    {chunk : ScoredChunk} (h : chunks.take 3 = front ++ chunk :: rest) :
    ∃ later, chosen lower question chunks =
      front.map (fun chunk => bestSentence lower (PromptInjectionGuard.scan chunk.text).1
        (tokens lower question)) ++
      bestSentence lower (PromptInjectionGuard.scan chunk.text).1 (tokens lower question) ::
        later := by
  unfold chosen
  rw [show chunks.take maxPassagesInAnswer = front ++ chunk :: rest from h, List.map_append,
    List.map_cons]
  exact ⟨_, rfl⟩

/-- A place in a sentence, or behind it, belongs to the passage of the sentence, unless it is its
    beginning. -/
theorem followsPassage_iff {chunks : List ScoredChunk} {earlier later : List Str} {s u : Str}
    {n : Nat} (hchosen : chosen lower question chunks = earlier ++ s :: later)
    (hu : u <+: s ++ " ".toList) :
    FollowsPassage lower question chunks
        (preface ++ leading " ".toList (marked 1 earlier) ++ u) n ↔
      s ≠ [] ∧ u ≠ [] ∧ n = 1 + earlier.length := by
  constructor
  · rintro ⟨earlier', s', later', u', hchosen', hn, hsome, hne, hu', hplace⟩
    rw [List.append_assoc, List.append_assoc, List.append_cancel_left_eq] at hplace
    have hparts := marked_append_cons 1 earlier s later
    rw [← hchosen, hchosen', marked_append_cons] at hparts
    have hin : ∀ {u s : Str} (marker : Nat), u <+: s ++ " ".toList →
        u.length ≤ (s ++ " ".toList ++ markerText marker).length := by
      intro u s marker h
      exact (h.trans (List.prefix_append _ _)).length_le
    have hlength := part_unique hparts (hin _ hu') (hin _ hu) hplace.symm
    have hmarked := (List.append_inj hparts hlength).1
    rw [hmarked, List.append_cancel_left_eq] at hplace
    rw [length_marked, length_marked] at hlength
    have hsame := (List.append_inj (hchosen.symm.trans hchosen') hlength.symm).2
    rw [(List.cons.inj hsame).1, hplace, hn, hlength]
    exact ⟨hsome, hne, rfl⟩
  · rintro ⟨hsome, hne, hn⟩
    exact ⟨earlier, s, later, u, hchosen, hn, hsome, hne, hu, rfl⟩

/-- The sentence of a passage, unless it has none and so no brackets. -/
theorem leads_of_bracket_mem {queryTokens : List Str} {text s : Str}
    (hs : bestSentence lower text queryTokens = s) (hmem : '[' ∈ s) :
    Leads (overlap lower queryTokens) (sentences text) s := by
  by_cases hnil : sentences text = []
  · rw [← hs] at hmem
    have hin := (bestSentence_isInfix lower queryTokens text).subset hmem
    exact absurd (isSpace_of_sentences_eq_nil hnil hin (by decide)) (by decide)
  · exact (bestSentence_eq_iff hnil).mp hs

theorem mk_mem_zipIdx_iff {α : Type} {xs : List α} {k i : Nat} {x : α} :
    (x, i) ∈ xs.zipIdx k ↔ ∃ front rest, xs = front ++ x :: rest ∧ i = k + front.length := by
  constructor
  · intro h
    obtain ⟨front, rest, heq⟩ := List.append_of_mem h
    obtain ⟨front, tail, rfl, rfl, htail⟩ := List.zipIdx_eq_append_iff.mp heq
    obtain ⟨y, rest, rfl, hhead, -⟩ := List.zipIdx_eq_cons_iff.mp htail.symm
    obtain ⟨rfl, rfl⟩ := Prod.mk.inj hhead
    exact ⟨front, rest, rfl, rfl⟩
  · rintro ⟨front, rest, rfl, rfl⟩
    rw [List.zipIdx_append, List.zipIdx_cons]
    simp

/-- Every number in brackets in an answer is the marker of a citation that is sent, and what it
    follows is drawn from that passage, exactly when each of the passages that are answered from
    has more than whitespace, and its leading sentence has no number in brackets but that of the
    passage itself, and does not begin with one. -/
theorem citations_genuine_iff (lower : Str → Str) (system question : Str)
    (chunks : List ScoredChunk) :
    (∀ before n, Cites (answerText (events lower system question chunks)) before n →
      n ∈ (events lower system question chunks).flatMap AnswerEvent.markers ∧
        FollowsPassage lower question chunks before n) ↔
      ∀ p ∈ (chunks.take 3).zipIdx 1, strip (PromptInjectionGuard.scan p.1.text).1 ≠ [] ∧ ∀ s,
        Leads (overlap lower (tokens lower question))
          (sentences (PromptInjectionGuard.scan p.1.text).1) s →
        ∀ before n, Cites s before n → before ≠ [] ∧ n = p.2 := by
  constructor
  · rintro h ⟨chunk, i⟩ hp
    obtain ⟨front, rest, htake, rfl⟩ := mk_mem_zipIdx_iff.mp hp
    have hne : chunks ≠ [] := by
      rintro rfl
      exact absurd htake.symm (List.append_ne_nil_of_right_ne_nil _ (List.cons_ne_nil _ _))
    obtain ⟨later, hchosen⟩ := chosen_eq lower question htake
    constructor
    · -- the marker of the passage follows its sentence
      have hfollows := (h _ _ ((cites_answer hne).mpr
        ⟨_, _, _, _, hchosen, rfl, .inr ⟨rfl, rfl⟩⟩)).2
      obtain ⟨hsome, -⟩ := (followsPassage_iff hchosen (List.prefix_refl _)).mp hfollows
      exact fun hblank => hsome (bestSentence_eq_nil_iff.mpr hblank)
    · intro s hs before n hcites
      have hbest : bestSentence lower (PromptInjectionGuard.scan chunk.text).1
          (tokens lower question) = s := (bestSentence_eq_iff hs.ne_nil).mpr hs
      rw [hbest] at hchosen
      have hfollows := (h _ n ((cites_answer hne).mpr
        ⟨_, s, _, before, hchosen, rfl, .inl hcites⟩)).2
      obtain ⟨-, hplace⟩ := (followsPassage_iff hchosen hcites.isPrefix).mp hfollows
      rwa [List.length_map] at hplace
  · intro h before n hcites
    have hne : chunks ≠ [] := by
      rintro rfl
      exact bracket_notMem_answer_nil hcites.bracket_mem
    obtain ⟨earlier, s, later, u, hchosen, rfl, hn⟩ := (cites_answer hne).mp hcites
    have hu : u <+: s ++ " ".toList := by
      rcases hn with hn | ⟨rfl, -⟩
      · exact hn.isPrefix
      · exact List.prefix_refl _
    obtain ⟨front, tail, htake, rfl, htail⟩ := List.map_eq_append_iff.mp hchosen
    obtain ⟨chunk, rest, rfl, hbest, -⟩ := List.map_eq_cons_iff.mp htail
    obtain ⟨hblank, hleading⟩ :=
      h (chunk, 1 + front.length) (mk_mem_zipIdx_iff.mpr ⟨front, rest, htake, rfl⟩)
    have hsome : s ≠ [] := fun hnil => hblank (bestSentence_eq_nil_iff.mp (hbest.trans hnil))
    rw [List.length_map] at hn
    have hplace : u ≠ [] ∧ n = 1 + front.length := by
      rcases hn with hn | ⟨rfl, hn⟩
      · exact hleading s (leads_of_bracket_mem hbest hn.bracket_mem) u n hn
      · exact ⟨List.append_ne_nil_of_right_ne_nil _ (List.cons_ne_nil _ _), hn⟩
    refine ⟨?_, (followsPassage_iff hchosen hu).mpr ⟨hsome, by rwa [List.length_map]⟩⟩
    obtain ⟨-, hn⟩ := hplace
    have hlength := length_chosen lower question chunks
    rw [hchosen, List.length_append, List.length_map, List.length_cons] at hlength
    rw [markers_events, List.mem_range'_1]
    omega

/-- A passage that has a number in brackets of its own. -/
def seeNineChunk : ScoredChunk := ⟨⟨1⟩, ⟨2⟩, "See [9].".toList, 0⟩

theorem citations_genuine_fails :
    ¬ ∀ before n, Cites (answerText (events CaseTable.asciiTable.lowerStr defaultSystemPrompt
        "What?".toList [seeNineChunk])) before n →
      n ∈ (events CaseTable.asciiTable.lowerStr defaultSystemPrompt "What?".toList
          [seeNineChunk]).flatMap AnswerEvent.markers ∧
        FollowsPassage CaseTable.asciiTable.lowerStr "What?".toList [seeNineChunk] before n := by
  intro h
  have hanswer : answerText (events CaseTable.asciiTable.lowerStr defaultSystemPrompt
      "What?".toList [seeNineChunk]) =
        "Based on the retrieved context: See [9]. [1]".toList := by decide
  have hcites : Cites "Based on the retrieved context: See [9]. [1]".toList
      "Based on the retrieved context: See ".toList 9 :=
    ⟨['9'], ". [1]".toList, List.cons_ne_nil _ _, by simp, by decide, by decide⟩
  rw [← hanswer] at hcites
  have hmem := (h _ 9 hcites).1
  rw [markers_events, List.mem_range'_1] at hmem
  exact absurd hmem.2 (by decide)

end GenerateAnswerHandler

end Eka
