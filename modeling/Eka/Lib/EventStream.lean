import Eka.Lib.PyString

/-!
# Event streams

The `text/event-stream` format, on the side of the client: lines end with a line feed, a carriage
return or both; a line `data: ...` adds to the data of an event, an empty line dispatches it, and
what is pending at the end of the stream is dropped. A client that has received a part of a stream
has the events whose frames are in it, and no others.
-/

namespace EventStream

open Py

/-- The lines that have ended, after `line` of the current one; `cr` after a carriage return,
    whose line feed ends no other line. -/
def linesFrom : Str → Bool → Str → List Str
  | _, _, [] => []
  | line, cr, c :: cs =>
      if c = '\n' then
        if cr then linesFrom [] false cs else line :: linesFrom [] false cs
      else if c = '\x0d' then line :: linesFrom [] true cs
      else linesFrom (line ++ [c]) false cs

/-- The name and the value of a field; one space after the colon is not part of the value. A
    comment is a field without a name. -/
def field (line : Str) : Str × Str :=
  let value := (line.dropWhile (· ≠ ':')).tail
  (line.takeWhile (· ≠ ':'), if value.head? = some ' ' then value.tail else value)

/-- The data of the events that are dispatched, after the `data` of the current one. -/
def dispatch : List Str → List Str → List Str
  | _, [] => []
  | data, line :: lines =>
      if line = [] then
        if data = [] then dispatch [] lines else join "\n".toList data :: dispatch [] lines
      else if (field line).1 = "data".toList then dispatch (data ++ [(field line).2]) lines
      else dispatch data lines

/-- The data of the events in a stream, as far as it has been received. -/
def events (s : Str) : List Str := dispatch [] (linesFrom [] false s)

example : events ": hello\ndata: a\ndata:b\n\nid: 7\x0d\n\x0d\ndata: lost\n".toList =
    ["a\nb".toList] := by decide

/-- One event of a server that sends its data in one line. -/
def frame (data : Str) : Str := "data: ".toList ++ data ++ "\n\n".toList

/-- No line ends in the text. -/
def OneLine (s : Str) : Prop := '\n' ∉ s ∧ '\x0d' ∉ s

theorem linesFrom_line {s : Str} (h : OneLine s) (line rest : Str) (hs : s ≠ []) (cr : Bool) :
    linesFrom line cr (s ++ '\n' :: rest) = (line ++ s) :: linesFrom [] false rest := by
  induction s generalizing line cr with
  | nil => exact absurd rfl hs
  | cons c s ih =>
      have hfeed : c ≠ '\n' := fun hc => h.1 (hc ▸ List.mem_cons_self)
      have hreturn : c ≠ '\x0d' := fun hc => h.2 (hc ▸ List.mem_cons_self)
      have hrest : OneLine s := ⟨fun hm => h.1 (List.mem_cons_of_mem c hm),
        fun hm => h.2 (List.mem_cons_of_mem c hm)⟩
      rw [List.cons_append, linesFrom, if_neg hfeed, if_neg hreturn]
      cases s with
      | nil => rfl
      | cons d s =>
          rw [ih hrest _ (List.cons_ne_nil d s), List.append_assoc, List.singleton_append]

theorem prefix_linesFrom {s t : Str} (h : s <+: t) (line : Str) (cr : Bool) :
    linesFrom line cr s <+: linesFrom line cr t := by
  induction s generalizing t line cr with
  | nil => exact List.nil_prefix
  | cons c s ih =>
      obtain ⟨rest, rfl⟩ := h
      have hs : s <+: s ++ rest := List.prefix_append s rest
      rw [List.cons_append, linesFrom, linesFrom]
      split
      · split
        · exact ih hs _ _
        · exact (List.prefix_cons_inj _).mpr (ih hs _ _)
      · split
        · exact (List.prefix_cons_inj _).mpr (ih hs _ _)
        · exact ih hs _ _

theorem field_data (data : Str) : field ("data: ".toList ++ data) = ("data".toList, data) := rfl

/-- A line with data adds them to the event. -/
theorem dispatch_data (pending : List Str) (data : Str) (lines : List Str) :
    dispatch pending (("data: ".toList ++ data) :: lines) = dispatch (pending ++ [data]) lines := by
  have hne : "data: ".toList ++ data ≠ [] := List.cons_ne_nil _ _
  rw [dispatch, if_neg hne, field_data, if_pos rfl]

variable {data : Str}

theorem oneLine_data (h : OneLine data) : OneLine ("data: ".toList ++ data) := by
  constructor
  · exact fun hm => (List.mem_append.mp hm).elim (by decide) h.1
  · exact fun hm => (List.mem_append.mp hm).elim (by decide) h.2

theorem linesFrom_frame (h : OneLine data) (rest : Str) :
    linesFrom [] false (frame data ++ rest) =
      ("data: ".toList ++ data) :: [] :: linesFrom [] false rest := by
  have hshape : frame data ++ rest = ("data: ".toList ++ data) ++ '\n' :: '\n' :: rest := by
    unfold frame
    rw [List.append_assoc]
    rfl
  rw [hshape, linesFrom_line (oneLine_data h) [] _ (List.cons_ne_nil _ _), List.nil_append,
    linesFrom, if_pos rfl]
  rfl

/-- An event that has arrived is dispatched. -/
theorem events_frame (h : OneLine data) (rest : Str) :
    events (frame data ++ rest) = data :: events rest := by
  unfold events
  rw [linesFrom_frame h, dispatch_data, List.nil_append, dispatch, if_pos rfl,
    if_neg (List.cons_ne_nil _ _)]
  exact congrArg (· :: _) List.intercalate_singleton

/-- One that has not is not. -/
theorem events_of_short (h : OneLine data) {s : Str} (hs : s <+: frame data)
    (hne : s ≠ frame data) : events s = [] := by
  have hlast : frame data = (("data: ".toList ++ data) ++ ['\n']) ++ ['\n'] := by
    unfold frame
    rw [List.append_assoc _ ['\n'] ['\n']]
    rfl
  rw [hlast] at hs hne
  have hshort : s <+: ("data: ".toList ++ data) ++ ['\n'] :=
    (List.prefix_concat_iff.mp hs).resolve_left hne
  have hlines : linesFrom [] false s <+: ["data: ".toList ++ data] := by
    have hline := linesFrom_line (oneLine_data h) [] [] (List.cons_ne_nil _ _) false
    have hprefix := prefix_linesFrom hshort [] false
    rw [hline] at hprefix
    exact hprefix
  unfold events
  obtain ⟨rest, hrest⟩ := hlines
  cases hfirst : linesFrom [] false s with
  | nil => rfl
  | cons line lines =>
      rw [hfirst] at hrest
      obtain ⟨rfl, htail⟩ := List.cons.inj hrest
      rw [(List.append_eq_nil_iff.mp htail).1, dispatch_data]
      rfl

/-- What has been received of a stream are the events whose frames are complete. -/
theorem events_of_prefix {datas : List Str} (h : ∀ data ∈ datas, OneLine data) {s : Str}
    (hs : s <+: datas.flatMap frame) : ∃ n ≤ datas.length, events s = datas.take n ∧
      (datas.take n).flatMap frame <+: s ∧
      (n < datas.length → ¬ (datas.take (n + 1)).flatMap frame <+: s) := by
  induction datas generalizing s with
  | nil =>
      obtain rfl := List.prefix_nil.mp hs
      exact ⟨0, le_rfl, rfl, List.prefix_refl _, fun hlt => absurd hlt (Nat.lt_irrefl 0)⟩
  | cons data datas ih =>
      obtain ⟨hdata, hdatas⟩ := List.forall_mem_cons.mp h
      rw [List.flatMap_cons] at hs
      by_cases hfull : frame data <+: s
      · obtain ⟨rest, rfl⟩ := hfull
        obtain ⟨n, hn, hevents, hin, hnext⟩ := ih hdatas ((List.prefix_append_right_inj _).mp hs)
        refine ⟨n + 1, Nat.succ_le_succ hn, ?_, ?_, ?_⟩
        · rw [events_frame hdata, hevents, List.take_succ_cons]
        · rw [List.take_succ_cons, List.flatMap_cons]
          exact (List.prefix_append_right_inj _).mpr hin
        · intro hlt
          rw [List.take_succ_cons, List.flatMap_cons, List.prefix_append_right_inj]
          exact hnext (Nat.lt_of_succ_lt_succ hlt)
      · have hshort : s <+: frame data := by
          rcases List.prefix_or_prefix_of_prefix hs (List.prefix_append _ _) with hin | hin
          · exact hin
          · exact absurd hin hfull
        have hne : s ≠ frame data := by
          rintro rfl
          exact hfull (List.prefix_refl _)
        refine ⟨0, Nat.zero_le _, events_of_short hdata hshort hne, List.nil_prefix, fun _ => ?_⟩
        rw [List.take_succ_cons, List.take_zero, List.flatMap_cons, List.flatMap_nil,
          List.append_nil]
        exact hfull

end EventStream
