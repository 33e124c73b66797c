import Eka.Ingestion.Overlap

/-!
# The size of the chunks

A buffer that is refilled holds an overlap, a space and a whole fragment, and nobody checks its
size. What it holds depends on the fragments before it only through the end of the text that
they make when they are joined by spaces, whatever cuts the loop has made in between; so it can
be told from the fragments which chunks are too long.
-/

namespace Eka

open Py

namespace RecursiveCharacterChunker

variable {config : ChunkingConfig}

/-- The fragments joined by spaces, as a loop would that never cuts. -/
def joined : List Str → Str
  | [] => []
  | f :: fs => fs.foldl extended f

theorem joined_concat {front : List Str} (hne : front ≠ []) (f : Str) :
    joined (front ++ [f]) = extended (joined front) f := by
  cases front with
  | nil => exact absurd rfl hne
  | cons g gs => exact List.foldl_concat ..

/-- The overlap of what comes before a fragment, and the fragment. -/
def carried (config : ChunkingConfig) (front : List Str) (fragment : Str) : Str :=
  extended (tail config (joined front)) fragment

/-! ## What the loop gets -/

/-- Fragments that fit, the first one with something at its start. -/
structure Fitting (config : ChunkingConfig) (fragments : List Str) : Prop where
  fits : ∀ f ∈ fragments, f.length ≤ config.chunkSize
  opens : ∀ f rest, fragments = f :: rest → Opens f

theorem Fitting.front {front rest : List Str} (h : Fitting config (front ++ rest)) :
    Fitting config front := by
  refine ⟨fun f hf => h.fits f (List.mem_append_left _ hf), ?_⟩
  rintro f others rfl
  exact h.opens f (others ++ rest) rfl

theorem fitting_recursiveSplit {text : Str} (h : strip text ≠ []) :
    Fitting config (recursiveSplit config separators (strip text)) := by
  refine ⟨fun f hf => (recursiveSplit_fits reachesChars_separators h f hf).2, ?_⟩
  intro f rest hsplit
  obtain ⟨c, cs, hcs, hc⟩ := opens_strip (strip_ne_nil_iff.mp h)
  obtain ⟨tl, others, hhead⟩ := @recursiveSplit_head config separators c hc cs
  rw [hcs, hhead] at hsplit
  obtain ⟨rfl, -⟩ := List.cons.inj hsplit
  exact ⟨c, tl, rfl, hc⟩

theorem recursiveSplit_ne_nil {text : Str} (h : strip text ≠ []) :
    recursiveSplit config separators (strip text) ≠ [] := by
  obtain ⟨c, cs, hcs, hc⟩ := opens_strip (strip_ne_nil_iff.mp h)
  obtain ⟨tl, rest, hhead⟩ := @recursiveSplit_head config separators c hc cs
  rw [hcs, hhead]
  exact List.cons_ne_nil _ _

/-- A text that fits is one fragment, and none comes before it. -/
theorem nil_of_recursiveSplit_short {seps before rest : List Str} {text f : Str}
    (hshort : text.length ≤ config.chunkSize)
    (h : recursiveSplit config seps text = before ++ f :: rest) : before = [] := by
  rw [recursiveSplit_short hshort] at h
  cases before with
  | nil => rfl
  | cons b before => simp at h

/-! ## Tails -/

theorem take_append_tail (config : ChunkingConfig) (s : Str) :
    s.take (s.length - min config.chunkOverlap s.length) ++ tail config s = s := by
  rw [tail_eq_drop, List.take_append_drop]

theorem length_tail (config : ChunkingConfig) (s : Str) :
    (tail config s).length = min config.chunkOverlap s.length := by
  rw [tail_eq_drop, List.length_drop]
  omega

theorem tail_append (config : ChunkingConfig) (z s : Str) :
    tail config (z ++ s) = z.drop (z.length - (config.chunkOverlap - s.length)) ++
      tail config s := by
  rw [tail_eq_drop, tail_eq_drop, List.drop_append, List.length_append]
  congr 1
  · by_cases hlong : s.length ≤ config.chunkOverlap
    · congr 1
      omega
    · rw [List.drop_eq_nil_of_le (by omega), List.drop_eq_nil_of_le (by omega)]
  · congr 1
    omega

/-- The whole buffer is at least as long, extended, as its tail. -/
theorem length_extended_tail_le (s fragment : Str) :
    (extended (tail config s) fragment).length ≤ (extended s fragment).length := by
  unfold extended
  conv_rhs => rw [← take_append_tail config s, List.append_assoc]
  exact length_strip_append_le _ _

/-- A tail of something that does not end in whitespace does not, either. -/
theorem closes_tail {s : Str} (hoverlap : 0 < config.chunkOverlap) (h : Closes s) :
    Closes (tail config s) := by
  have hne : tail config s ≠ [] := by
    intro hnil
    have hlen := length_tail config s
    obtain ⟨t, c, rfl, -⟩ := h
    rw [hnil, List.length_nil, List.length_append, List.length_singleton] at hlen
    omega
  rw [← take_append_tail config s] at h
  exact h.of_append hne

/-! ## The buffer and the text before it -/

/-- The buffer is the end of the joined text, and what the joined text has in front of it does
    not reach into the overlap, whitespace apart. -/
def Trails (config : ChunkingConfig) (whole current : Str) : Prop :=
  ∃ z, whole = z ++ current ∧ Opens current ∧ (z = [] ∨ Opens z ∧ Closes current) ∧
    Blank (z.drop (z.length - (config.chunkOverlap - current.length)))

namespace Trails

variable {whole current fragment : Str}

/-- The overlap that the buffer leaves is that of the joined text. -/
theorem extended_tail (h : Trails config whole current) (fragment : Str) :
    extended (tail config whole) fragment = extended (tail config current) fragment := by
  obtain ⟨z, rfl, -, -, hblank⟩ := h
  unfold extended
  rw [tail_append, List.append_assoc, strip_blank_append hblank]

theorem opens (h : Trails config whole current) : Opens whole := by
  obtain ⟨z, rfl, hopens, hz, -⟩ := h
  rcases hz with rfl | ⟨hz, -⟩
  · exact hopens
  · exact hz.append current

theorem extend (h : Trails config whole current) (fragment : Str) :
    Trails config (extended whole fragment) (extended current fragment) := by
  obtain ⟨z, rfl, hopens, hz, hblank⟩ := h
  have hopens' : Opens (current ++ ' ' :: fragment) := hopens.append _
  have hnew : Opens (extended current fragment) := opens_strip hopens'.not_blank
  rcases hz with rfl | ⟨hz, hcloses⟩
  · exact ⟨[], rfl, hnew, .inl rfl, fun c hc => by simp at hc⟩
  · obtain ⟨lead, back, hlead, -, hsplit, hstrip⟩ := exists_strip_append hz hopens'.not_blank
    have hnil : lead = [] := by
      rw [hsplit, List.append_assoc] at hopens'
      exact hopens'.eq_nil_of_blank hlead
    rw [hnil, List.append_nil] at hstrip
    refine ⟨z, ?_, hnew, .inr ⟨hz, closes_strip hopens'.not_blank⟩, ?_⟩
    · unfold extended
      rw [List.append_assoc]
      exact hstrip
    · -- the buffer has become no shorter
      have hgrown : current.length ≤ (extended current fragment).length :=
        (prefix_extended (strip_eq_self hopens hcloses) (List.prefix_rfl) fragment).length_le
      have hdrop := List.drop_suffix_drop_left z (show
        z.length - (config.chunkOverlap - current.length) ≤
          z.length - (config.chunkOverlap - (extended current fragment).length) by omega)
      exact fun c hc => hblank c (hdrop.subset hc)

/-- A refilled buffer begins within the overlap of the joined text. -/
theorem overlap_le (hopens : Opens current)
    (hoversize : config.chunkSize < current.length →
      0 < config.chunkOverlap ∧ Closes current)
    (hfull : config.chunkSize < (extended current fragment).length) :
    config.chunkOverlap ≤ (rstrip (tail config current ++ ' ' :: fragment)).length := by
  have hlt := config.overlapLt
  by_cases hshort : current.length < config.chunkOverlap
  · have htail : tail config current = current := by
      rw [tail_eq_drop, Nat.min_eq_right hshort.le, Nat.sub_self, List.drop_zero]
    unfold extended at hfull
    rw [strip_of_opens (hopens.append _)] at hfull
    rw [htail]
    omega
  · have hlength : (tail config current).length = config.chunkOverlap := by
      rw [length_tail]
      omega
    by_cases hblank : Blank fragment
    · -- a blank fragment finds the buffer full only if it was too long
      have hblank' : Blank (' ' :: fragment) := blank_cons.mpr ⟨rfl, hblank⟩
      obtain ⟨hoverlap, hcloses⟩ := hoversize (hfull.trans_le (length_extended_blank hblank))
      rw [rstrip_append_blank _ hblank', (closes_tail hoverlap hcloses).rstrip, hlength]
    · have hnot : ¬ Blank (' ' :: fragment) := fun h => hblank (blank_cons.mp h).2
      rw [rstrip_append_of_not_blank _ hnot, List.length_append, hlength]
      exact Nat.le_add_right _ _

theorem cut (h : Trails config whole current)
    (hoversize : config.chunkSize < current.length →
      0 < config.chunkOverlap ∧ Closes current)
    (hfull : config.chunkSize < (extended current fragment).length)
    (hnot : ¬ Blank (tail config current ++ ' ' :: fragment)) :
    Trails config (extended whole fragment) (extended (tail config current) fragment) := by
  have hwhole := h.opens
  obtain ⟨z, rfl, hopens, -, -⟩ := h
  have hreach := overlap_le hopens hoversize hfull
  have hnew : Opens (extended (tail config current) fragment) := opens_strip hnot
  have hclosed : Closes (strip (tail config current ++ ' ' :: fragment)) := closes_strip hnot
  -- what the loop leaves behind
  obtain ⟨left, hleft⟩ : ∃ left, z ++ current = left ++ tail config current :=
    ⟨z ++ current.take (current.length - min config.chunkOverlap current.length), by
      rw [List.append_assoc, take_append_tail]⟩
  have hshape : extended (z ++ current) fragment =
      strip (left ++ (tail config current ++ ' ' :: fragment)) := by
    unfold extended
    rw [hleft, List.append_assoc]
  rw [hshape]
  by_cases hnil : left = []
  · rw [hnil]
    exact ⟨[], rfl, hnew, .inl rfl, fun c hc => by simp at hc⟩
  · rw [hleft] at hwhole
    have hopensLeft : Opens left := hwhole.of_append hnil
    obtain ⟨lead, back, hlead, hback, hsplit, hstrip⟩ := exists_strip_append hopensLeft hnot
    refine ⟨left ++ lead, hstrip, hnew, .inr ⟨hopensLeft.append lead, hclosed⟩, ?_⟩
    have hlength : config.chunkOverlap ≤
        lead.length + (extended (tail config current) fragment).length := by
      rw [hsplit, rstrip_append_blank _ hback, (hclosed.append lead).rstrip,
        List.length_append] at hreach
      exact hreach
    intro c hc
    rw [List.drop_append, List.drop_eq_nil_of_le, List.nil_append] at hc
    · exact hlead c (List.mem_of_mem_drop hc)
    · rw [List.length_append]
      omega

end Trails

/-- The packing loop after some of the fragments: its buffer trails the text that they make. -/
structure Running (config : ChunkingConfig) (front : List Str) : Prop where
  packed : Packed config (stateAfter config front)
  trails : Trails config (joined front) (stateAfter config front).2

namespace Running

variable {front : List Str} {fragment : Str}

theorem oversize (h : Running config front)
    (hlong : config.chunkSize < (stateAfter config front).2.length) :
    0 < config.chunkOverlap ∧ Closes (stateAfter config front).2 := by
  have hne := not_blank_ne_nil h.packed.buffer
  obtain ⟨hoverlap, hlast⟩ := h.packed.oversize hlong
  exact ⟨hoverlap, _, _, (List.dropLast_append_getLast hne).symm, hlast hne⟩

/-- The buffer that a cut leaves. -/
theorem carried_eq (h : Running config front) (fragment : Str) :
    carried config front fragment =
      extended (tail config (stateAfter config front).2) fragment :=
  h.trails.extended_tail fragment

/-- The loop cuts before a fragment that fills the buffer. -/
theorem stateAfter_cut (h : Running config front)
    (hfull : config.chunkSize < (extended (stateAfter config front).2 fragment).length) :
    stateAfter config (front ++ [fragment]) =
      ((stateAfter config front).1 ++ [(stateAfter config front).2],
        carried config front fragment) := by
  rw [stateAfter_concat, h.carried_eq]
  exact mergeStep_cut (not_blank_ne_nil h.packed.buffer) hfull

theorem stateAfter_fits (h : Running config front)
    (hroom : (extended (stateAfter config front).2 fragment).length ≤ config.chunkSize) :
    stateAfter config (front ++ [fragment]) =
      ((stateAfter config front).1, extended (stateAfter config front).2 fragment) := by
  rw [stateAfter_concat]
  exact mergeStep_fits (not_blank_ne_nil h.packed.buffer) hroom

theorem next (h : Running config front) (hne : front ≠ [])
    (hfits : fragment.length ≤ config.chunkSize) : Running config (front ++ [fragment]) := by
  have hpacked : Packed config (stateAfter config (front ++ [fragment])) := by
    rw [stateAfter_concat]
    exact mergeStep_packed h.packed hfits
  refine ⟨hpacked, ?_⟩
  rw [joined_concat hne]
  by_cases hroom : (extended (stateAfter config front).2 fragment).length ≤ config.chunkSize
  · rw [h.stateAfter_fits hroom]
    exact h.trails.extend fragment
  · have hfull := Nat.lt_of_not_le hroom
    have hbuffer := hpacked.buffer
    rw [h.stateAfter_cut hfull] at hbuffer ⊢
    rw [h.carried_eq] at hbuffer ⊢
    exact h.trails.cut h.oversize hfull (not_blank_strip.mp hbuffer)

end Running

/-- From the first fragment on. -/
theorem Fitting.running {front : List Str} (h : Fitting config front) (hne : front ≠ []) :
    Running config front := by
  induction front using List.reverseRecOn with
  | nil => exact absurd rfl hne
  | append_singleton front f ih =>
      have hfits : f.length ≤ config.chunkSize := h.fits f (by simp)
      by_cases hfront : front = []
      · subst hfront
        have hopens : Opens f := h.opens f [] rfl
        have hstate : stateAfter config ([] ++ [f]) = ([], f) := mergeStep_first hfits []
        constructor
        · rw [hstate]
          exact ⟨by simp, hopens.not_blank, fun hlt => absurd hlt hfits.not_gt⟩
        · rw [hstate]
          exact ⟨[], rfl, hopens, .inl rfl, fun c hc => by simp at hc⟩
      · exact (ih h.front hfront).next hfront hfits

/-- What the last of the fragments does: it is the first one, it has room, or the loop cuts. -/
theorem Fitting.stateAfter_cases {before : List Str} {f : Str}
    (h : Fitting config (before ++ [f])) :
    (before = [] ∧ stateAfter config (before ++ [f]) = ([], f)) ∨
      (before ≠ [] ∧ (extended (stateAfter config before).2 f).length ≤ config.chunkSize ∧
        stateAfter config (before ++ [f]) =
          ((stateAfter config before).1, extended (stateAfter config before).2 f)) ∨
      (before ≠ [] ∧ config.chunkSize < (extended (stateAfter config before).2 f).length ∧
        stateAfter config (before ++ [f]) =
          ((stateAfter config before).1 ++ [(stateAfter config before).2],
            carried config before f)) := by
  by_cases hbefore : before = []
  · subst hbefore
    exact .inl ⟨rfl, mergeStep_first (h.fits f (by simp)) []⟩
  · have hrunning := h.front.running hbefore
    refine .inr ?_
    by_cases hroom : (extended (stateAfter config before).2 f).length ≤ config.chunkSize
    · exact .inl ⟨hbefore, hroom, hrunning.stateAfter_fits hroom⟩
    · have hfull := Nat.lt_of_not_le hroom
      exact .inr ⟨hbefore, hfull, hrunning.stateAfter_cut hfull⟩

/-! ## Which chunks are too long -/

/-- A buffer that is refilled past `chunk_size` is a chunk. -/
theorem carried_mem_pushed {front rest : List Str} {fragment : Str}
    (h : Fitting config (front ++ fragment :: rest)) (hne : front ≠ [])
    (hlong : config.chunkSize < (carried config front fragment).length) :
    carried config front fragment ∈ pushed (stateAfter config (front ++ fragment :: rest)) := by
  have hrunning := h.front.running hne
  have hfull : config.chunkSize < (extended (stateAfter config front).2 fragment).length := by
    rw [hrunning.carried_eq] at hlong
    exact hlong.trans_le (length_extended_tail_le _ fragment)
  rw [List.append_cons] at h ⊢
  have hnext := h.front.running (by simp)
  rw [stateAfter_append]
  have hstate := hrunning.stateAfter_cut hfull
  cases rest with
  | nil =>
      have hbuffer := not_blank_ne_nil hnext.packed.buffer
      show _ ∈ pushed (stateAfter config (front ++ [fragment]))
      unfold pushed
      rw [if_pos hbuffer, hstate]
      exact List.mem_append_right _ List.mem_cons_self
  | cons g rest =>
      have hfits : ∀ f ∈ rest, f.length ≤ config.chunkSize :=
        fun f hf => h.fits f (by simp [hf])
      have hbuffer : (stateAfter config (front ++ [fragment])).2 = carried config front fragment := by
        rw [hstate]
      have hagain : config.chunkSize <
          (extended (stateAfter config (front ++ [fragment])).2 g).length := by
        rw [hbuffer]
        have hstrip : strip (carried config front fragment) = carried config front fragment :=
          strip_strip _
        exact hlong.trans_le (prefix_extended hstrip List.prefix_rfl g).length_le
      rw [List.foldl_cons, ← stateAfter_concat, hnext.stateAfter_cut hagain, hbuffer]
      exact (prefix_pushed_foldl hfits _).subset (List.mem_append_right _ List.mem_cons_self)

/-- A chunk that is longer than the sum is a refilled buffer. -/
theorem exists_carried {front : List Str} (h : Fitting config front) :
    ∀ c ∈ (stateAfter config front).1 ++ [(stateAfter config front).2],
      config.chunkSize + config.chunkOverlap < c.length →
        ∃ before f rest, front = before ++ f :: rest ∧ before ≠ [] ∧
          config.chunkSize + config.chunkOverlap < (carried config before f).length := by
  induction front using List.reverseRecOn with
  | nil =>
      intro c hc hlong
      obtain rfl : c = [] := by simpa [stateAfter] using hc
      cases hlong
  | append_singleton front g ih =>
      have hold : ∀ c ∈ (stateAfter config front).1 ++ [(stateAfter config front).2],
          config.chunkSize + config.chunkOverlap < c.length →
            ∃ before f rest, front ++ [g] = before ++ f :: rest ∧ before ≠ [] ∧
              config.chunkSize + config.chunkOverlap < (carried config before f).length := by
        intro c hc hlong
        obtain ⟨before, f, rest, hsplit, hbefore, hcarried⟩ := ih h.front c hc hlong
        refine ⟨before, f, rest ++ [g], ?_, hbefore, hcarried⟩
        rw [hsplit, List.append_assoc]
        rfl
      have hfits : g.length ≤ config.chunkSize := h.fits g (by simp)
      intro c hc hlong
      rcases h.stateAfter_cases with ⟨rfl, hstate⟩ | ⟨-, hroom, hstate⟩ | ⟨hfront, -, hstate⟩
      · rw [hstate] at hc
        obtain rfl : c = g := by simpa using hc
        omega
      · rw [hstate] at hc
        rcases List.mem_append.mp hc with hc | hc
        · exact hold c (List.mem_append_left _ hc) hlong
        · obtain rfl : c = extended (stateAfter config front).2 g := List.mem_singleton.mp hc
          omega
      · rw [hstate] at hc
        rcases List.mem_append.mp hc with hc | hc
        · exact hold c hc hlong
        · rw [List.mem_singleton.mp hc] at hlong
          exact ⟨front, g, [], rfl, hfront, hlong⟩

/-- The sum is exceeded by the space between a whole overlap and a whole chunk. -/
theorem lt_length_carried_iff {front : List Str} {fragment : Str}
    (hfits : fragment.length ≤ config.chunkSize) :
    config.chunkSize + config.chunkOverlap < (carried config front fragment).length ↔
      fragment.length = config.chunkSize ∧ Closes fragment ∧
        config.chunkOverlap ≤ (joined front).length ∧ Opens (tail config (joined front)) := by
  have hlength : (tail config (joined front) ++ ' ' :: fragment).length =
      min config.chunkOverlap (joined front).length + (fragment.length + 1) := by
    rw [List.length_append, length_tail, List.length_cons]
  have hpos := config.sizePos
  constructor
  · intro hlong
    have hle : (carried config front fragment).length ≤
        (tail config (joined front) ++ ' ' :: fragment).length := length_strip_le _
    have hwhole : strip (tail config (joined front) ++ ' ' :: fragment) =
        tail config (joined front) ++ ' ' :: fragment := by
      refine strip_eq_of_length ?_
      unfold carried extended at hlong
      omega
    have hnot : ¬ Blank (tail config (joined front) ++ ' ' :: fragment) := by
      rw [← strip_ne_nil_iff, hwhole]
      simp
    have hopens := opens_strip hnot
    have hcloses := closes_strip hnot
    rw [hwhole] at hopens hcloses
    have hfragment : fragment ≠ [] := List.ne_nil_of_length_pos (by omega)
    refine ⟨by omega, ?_, by omega, ?_⟩
    · rw [List.append_cons] at hcloses
      exact hcloses.of_append hfragment
    · refine hopens.of_append ?_
      intro hnil
      rw [hnil, List.nil_append] at hopens
      obtain ⟨c, t, heq, hc⟩ := hopens
      obtain ⟨rfl, -⟩ := List.cons.inj heq
      exact absurd hc (by decide)
  · rintro ⟨hsize, hcloses, hreach, hopens⟩
    have hwhole : carried config front fragment =
        tail config (joined front) ++ ' ' :: fragment := by
      refine strip_eq_self (hopens.append _) ?_
      rw [List.append_cons]
      exact hcloses.append _
    rw [hwhole, hlength]
    omega

/-- Somewhere in the fragments, one that is as long as a chunk and does not end in whitespace
    comes after a text whose last `chunk_overlap` characters do not start with whitespace. -/
def Spills (config : ChunkingConfig) (fragments : List Str) : Prop :=
  ∃ before f rest, fragments = before ++ f :: rest ∧ before ≠ [] ∧
    f.length = config.chunkSize ∧ Closes f ∧
      config.chunkOverlap ≤ (joined before).length ∧ Opens (tail config (joined before))

/-- That fragment is a paragraph or a line. -/
theorem Spills.paragraph_or_line {text : Str}
    (h : Spills config (recursiveSplit config separators text)) :
    ∃ paragraph ∈ parts "\n\n".toList text, (rstrip paragraph).length = config.chunkSize ∨
      ∃ line ∈ parts "\n".toList (rstrip paragraph),
        (rstrip line).length = config.chunkSize := by
  obtain ⟨before, f, rest, hsplit, hbefore, hsize, hcloses, -, hopens⟩ := h
  have hlong : config.chunkSize < text.length := by
    by_contra hshort
    exact hbefore (nil_of_recursiveSplit_short (Nat.le_of_not_lt hshort) hsplit)
  have hoverlap : (tail config (joined before)).length ≠ 0 := by
    rw [Ne, List.length_eq_zero_iff]
    intro hnil
    rw [hnil] at hopens
    exact hopens.not_blank (by simp [Blank])
  have hlt := config.overlapLt
  have hmem : f ∈ recursiveSplit config separators text := by simp [hsplit]
  obtain ⟨paragraph, hparagraph, hf⟩ :=
    RecursiveCharacterChunker.paragraph_or_line hlong hmem hcloses (by
      rw [length_tail] at hoverlap
      omega)
  refine ⟨paragraph, hparagraph, ?_⟩
  rcases hf with rfl | ⟨line, hline, rfl⟩
  · exact .inl hsize
  · exact .inr ⟨line, hline, hsize⟩

theorem pushed_le_iff {fragments : List Str} (h : Fitting config fragments)
    (hne : fragments ≠ []) :
    (∀ c ∈ pushed (stateAfter config fragments),
      c.length ≤ config.chunkSize + config.chunkOverlap) ↔ ¬ Spills config fragments := by
  constructor
  · rintro hall ⟨before, f, rest, rfl, hbefore, hspill⟩
    have hlong := (lt_length_carried_iff (h.fits f (by simp))).mpr hspill
    have hmem := carried_mem_pushed h hbefore (Nat.lt_of_le_of_lt (Nat.le_add_right _ _) hlong)
    exact (hall _ hmem).not_gt hlong
  · intro hspill c hc
    by_contra hlong
    refine hspill ?_
    have hbuffer := not_blank_ne_nil (h.running hne).packed.buffer
    unfold pushed at hc
    rw [if_pos hbuffer] at hc
    obtain ⟨before, f, rest, rfl, hbefore, hcarried⟩ :=
      exists_carried h c hc (Nat.lt_of_not_le hlong)
    exact ⟨before, f, rest, rfl, hbefore, (lt_length_carried_iff (h.fits f (by simp))).mp hcarried⟩

/-- No chunk is longer than `chunk_size + chunk_overlap` exactly when no fragment of the whole
    size comes after a whole overlap. -/
theorem split_length_le_iff (config : ChunkingConfig) (text : Str) :
    (∀ piece ∈ split config text,
      piece.text.length ≤ config.chunkSize + config.chunkOverlap) ↔
      ¬ Spills config (recursiveSplit config separators (strip text)) := by
  have hpieces : (∀ piece ∈ split config text,
      piece.text.length ≤ config.chunkSize + config.chunkOverlap) ↔
        ∀ t ∈ splitTexts config text, t.length ≤ config.chunkSize + config.chunkOverlap := by
    rw [← map_text_split, List.forall_mem_map]
  rw [hpieces]
  by_cases hnil : strip text = []
  · refine iff_of_true ?_ ?_
    · rw [show splitTexts config text = [] from if_pos hnil]
      exact fun t ht => nomatch ht
    · rintro ⟨before, f, rest, hsplit, hbefore, -⟩
      rw [hnil] at hsplit
      exact hbefore (nil_of_recursiveSplit_short (Nat.zero_le _) hsplit)
  · rw [splitTexts_of_ne_nil hnil, mergeWithOverlap_eq]
    exact pushed_le_iff (fitting_recursiveSplit hnil) (recursiveSplit_ne_nil hnil)

/-- Two paragraphs of the size of a chunk: the second chunk has one character too many. -/
theorem split_length_le_fails :
    ¬ ∀ piece ∈ split ⟨2, 1, by decide, by decide⟩ "ab\n\ncd".toList,
        piece.text.length ≤ 2 + 1 := by
  intro h
  have hlast : (⟨1, "b cd".toList⟩ : TextPiece) ∈
      split ⟨2, 1, by decide, by decide⟩ "ab\n\ncd".toList := by decide
  have hlength := h _ hlast
  revert hlength
  decide

end RecursiveCharacterChunker

end Eka
