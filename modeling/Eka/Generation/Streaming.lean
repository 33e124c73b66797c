import Eka.Generation.Generate
import Eka.Lib.EventStream
import Eka.Lib.JsonText

/-!
# Answers on the wire

`generation/presentation/router.py`: each event of an answer is a JSON text in a frame of the
event stream. The texts come from documents, and a client may read any part of the response
before the connection breaks; what it reads are events of the answer all the same.
-/

namespace Eka

open Py JsonText

/-! ## Events as JSON -/

namespace AnswerEvent

/-- A citation in the `sources` event (`generate.py:71-78`). -/
def citationJson (citation : Nat × Str × Str) : Value Nat :=
  .object [("marker".toList, .number citation.1), ("chunk_id".toList, .string citation.2.1),
    ("document_id".toList, .string citation.2.2)]

/-- The dictionaries that `stream` yields (`generate.py:68-82`). -/
def json : AnswerEvent → Value Nat
  | .sources flagged citations =>
      .object [("type".toList, .string "sources".toList), ("flagged".toList, .bool flagged),
        ("citations".toList, .array (citations.map citationJson))]
  | .token text => .object [("type".toList, .string "token".toList), ("text".toList, .string text)]
  | .done => .object [("type".toList, .string "done".toList)]

/-- `json.dumps(event)`. -/
def dumps (event : AnswerEvent) : Str := JsonText.dumps Numerals.nat event.json

end AnswerEvent

/-- The bytes that `event_stream` yields for an event (`router.py:31-32`). -/
def AnswerEvent.bytes (event : AnswerEvent) : List UInt8 :=
  (EventStream.frame event.dumps).flatMap String.utf8EncodeChar

namespace GenerateAnswerHandler

/-- The events of an answer; none when the search raises, which is after the status has been
    sent. -/
def streamed (handler : GenerateAnswerHandler) (tenantId : UUID) (query : SearchQuery) :
    List AnswerEvent :=
  match handler.stream tenantId query with
  | .ok events => events
  | .error _ => []

/-- The body of the response (`router.py:19-33`). -/
def body (handler : GenerateAnswerHandler) (tenantId : UUID) (query : SearchQuery) :
    List UInt8 :=
  (handler.streamed tenantId query).flatMap AnswerEvent.bytes

end GenerateAnswerHandler

/-! ## A client -/

namespace AnswerClient

/-- `value[key]`. -/
def member (key : Str) : Value Nat → Option (Value Nat)
  | .object members => members.lookup key
  | _ => none

def string : Value Nat → Option Str
  | .string s => some s
  | _ => none

/-- A citation of the `sources` event. -/
def citation (value : Value Nat) : Option (Nat × Str × Str) := do
  let .number marker ← member "marker".toList value | none
  let chunkId ← (member "chunk_id".toList value).bind string
  let documentId ← (member "document_id".toList value).bind string
  return (marker, chunkId, documentId)

/-- What a client makes of a JSON value. -/
def event (value : Value Nat) : Option AnswerEvent := do
  let type ← (member "type".toList value).bind string
  if type = "sources".toList then
    let .bool flagged ← member "flagged".toList value | none
    let .array citations ← member "citations".toList value | none
    return .sources flagged (← citations.mapM citation)
  else if type = "token".toList then
    return .token (← (member "text".toList value).bind string)
  else if type = "done".toList then some .done
  else none

/-- The text of bytes below 128 in UTF-8. -/
def text (bytes : List UInt8) : Str := bytes.map fun b => Char.ofNat b.toNat

/-- The events in what has been received so far; `none` for what is no event. -/
def receive (bytes : List UInt8) : List (Option AnswerEvent) :=
  (EventStream.events (text bytes)).map fun data => (loads Numerals.nat data).bind event

end AnswerClient

/-! ## Events survive -/

namespace AnswerEvent

theorem distinct_json (event : AnswerEvent) : event.json.Distinct := by
  have hcitations : ∀ citations : List (Nat × Str × Str),
      Value.DistinctItems (citations.map citationJson) := by
    intro citations
    induction citations with
    | nil => trivial
    | cons citation citations ih =>
        refine ⟨⟨?_, trivial, trivial, trivial, trivial⟩, ih⟩
        show (["marker".toList, "chunk_id".toList, "document_id".toList] : List Str).Nodup
        decide
  cases event with
  | sources flagged citations =>
      refine ⟨?_, trivial, trivial, hcitations citations, trivial⟩
      show (["type".toList, "flagged".toList, "citations".toList] : List Str).Nodup
      decide
  | token text =>
      refine ⟨?_, trivial, trivial, trivial⟩
      show (["type".toList, "text".toList] : List Str).Nodup
      decide
  | done => exact ⟨List.nodup_singleton _, trivial, trivial⟩

theorem event_json (event : AnswerEvent) : AnswerClient.event event.json = some event := by
  have hcitation : ∀ citation, AnswerClient.citation (citationJson citation) = some citation :=
    fun _ => rfl
  have hcitations : ∀ citations : List (Nat × Str × Str),
      (citations.map citationJson).mapM AnswerClient.citation = some citations := by
    intro citations
    induction citations with
    | nil => rfl
    | cons citation citations ih =>
        rw [List.map_cons, List.mapM_cons, hcitation, ih]
        rfl
  cases event with
  | sources flagged citations =>
      have hvalue : AnswerClient.event (json (.sources flagged citations)) =
          ((citations.map citationJson).mapM AnswerClient.citation).bind fun citations =>
            some (.sources flagged citations) := rfl
      rw [hvalue, hcitations]
      rfl
  | token text => rfl
  | done => rfl

/-- What is written for an event is read as that event. -/
theorem loads_dumps (event : AnswerEvent) :
    (loads Numerals.nat event.dumps).bind AnswerClient.event = some event := by
  unfold dumps
  rw [JsonText.loads_dumps event.distinct_json, Option.bind_some, event.event_json]

theorem ascii_frame (event : AnswerEvent) :
    ∀ c ∈ EventStream.frame event.dumps, c.toNat < 128 := by
  have hfield : "data: ".toList.all (·.toNat < 128) = true := rfl
  have hend : "\n\n".toList.all (·.toNat < 128) = true := rfl
  intro c hc
  rcases List.mem_append.mp hc with hc | hc
  · rcases List.mem_append.mp hc with hc | hc
    · exact of_decide_eq_true (List.all_eq_true.mp hfield c hc)
    · have hprintable := @printable_dumps _ Numerals.nat event.json c hc
      omega
  · exact of_decide_eq_true (List.all_eq_true.mp hend c hc)

theorem oneLine_dumps (event : AnswerEvent) : EventStream.OneLine event.dumps := by
  have hprintable := @printable_dumps _ Numerals.nat event.json
  exact ⟨fun hm => absurd (hprintable _ hm).1 (by decide),
    fun hm => absurd (hprintable _ hm).1 (by decide)⟩

end AnswerEvent

/-! ## Bytes -/

namespace AnswerClient

theorem utf8EncodeChar_ascii {c : Char} (h : c.toNat < 128) :
    String.utf8EncodeChar c = [UInt8.ofNat c.toNat] := by
  have hsize : c.utf8Size = 1 := Char.utf8Size_eq_one_iff.mpr (by
    rw [UInt32.le_iff_toNat_le]
    exact Nat.le_of_lt_succ h)
  rw [String.utf8EncodeChar_eq_singleton hsize]
  rfl

/-- A text of ASCII survives the way through its bytes. -/
theorem text_encode {s : Str} (h : ∀ c ∈ s, c.toNat < 128) :
    text (s.flatMap String.utf8EncodeChar) = s := by
  induction s with
  | nil => rfl
  | cons c s ih =>
      obtain ⟨hc, hs⟩ := List.forall_mem_cons.mp h
      have hbyte : (UInt8.ofNat c.toNat).toNat = c.toNat := by
        rw [UInt8.toNat_ofNat']
        exact Nat.mod_eq_of_lt (by omega)
      unfold text at ih ⊢
      rw [List.flatMap_cons, utf8EncodeChar_ascii hc, List.map_append, ih hs, List.map_singleton,
        hbyte, Char.ofNat_toNat]
      rfl

/-- The text of the frames of some events. -/
theorem text_bytes (events : List AnswerEvent) :
    text (events.flatMap AnswerEvent.bytes) =
      (events.map AnswerEvent.dumps).flatMap EventStream.frame := by
  induction events with
  | nil => rfl
  | cons event events ih =>
      have hevent : text event.bytes = EventStream.frame event.dumps :=
        text_encode event.ascii_frame
      rw [List.flatMap_cons, List.map_cons, List.flatMap_cons, ← ih, ← hevent]
      exact List.map_append

/-- The bytes of some frames have been received when their text has. -/
theorem prefix_of_text {first bytes all : List UInt8} (hbytes : bytes <+: all)
    (hfirst : first <+: all) : text first <+: text bytes ↔ first <+: bytes := by
  constructor
  · intro h
    have hlength := h.length_le
    unfold text at hlength
    rw [List.length_map, List.length_map] at hlength
    exact List.prefix_of_prefix_length_le hfirst hbytes hlength
  · exact fun h => h.map _

variable {events : List AnswerEvent} {bytes : List UInt8}

theorem prefix_take (events : List AnswerEvent) (n : Nat) :
    (events.take n).flatMap AnswerEvent.bytes <+: events.flatMap AnswerEvent.bytes := by
  conv_rhs => rw [← List.take_append_drop n events, List.flatMap_append]
  exact List.prefix_append _ _

/-- What has been received of some frames are the events whose frames are complete. -/
theorem receive_of_prefix (h : bytes <+: events.flatMap AnswerEvent.bytes) :
    ∃ n ≤ events.length, receive bytes = (events.take n).map some ∧
      (events.take n).flatMap AnswerEvent.bytes <+: bytes ∧
      (n < events.length → ¬ (events.take (n + 1)).flatMap AnswerEvent.bytes <+: bytes) := by
  have hlines : ∀ data ∈ events.map AnswerEvent.dumps, EventStream.OneLine data := by
    rintro _ hdata
    obtain ⟨event, -, rfl⟩ := List.mem_map.mp hdata
    exact event.oneLine_dumps
  have htext : text bytes <+: (events.map AnswerEvent.dumps).flatMap EventStream.frame := by
    rw [← text_bytes]
    exact h.map _
  have hframes : ∀ k, ((events.map AnswerEvent.dumps).take k).flatMap EventStream.frame <+:
      text bytes ↔ (events.take k).flatMap AnswerEvent.bytes <+: bytes := by
    intro k
    rw [← List.map_take, ← text_bytes]
    exact prefix_of_text h (prefix_take events k)
  obtain ⟨n, hn, hevents, hin, hnext⟩ := EventStream.events_of_prefix hlines htext
  rw [List.length_map] at hn hnext
  refine ⟨n, hn, ?_, (hframes n).mp hin, fun hlt hall => hnext hlt ((hframes (n + 1)).mpr hall)⟩
  unfold receive
  rw [hevents, ← List.map_take, List.map_map]
  exact List.map_congr_left fun event _ => event.loads_dumps

end AnswerClient

/-! ## The end of an answer -/

namespace GenerateAnswerHandler

variable {handler : GenerateAnswerHandler} {tenantId : UUID} {query : SearchQuery}
  {answer : List AnswerEvent}

/-- An answer ends with `done`, and nowhere else. -/
theorem stream_done (h : handler.stream tenantId query = .ok answer) :
    ∃ front, answer = front ++ [.done] ∧ .done ∉ front := by
  obtain ⟨chunks, -, rfl⟩ := Fallible.map_ok.mp h
  refine ⟨_, rfl, ?_⟩
  intro hmem
  rcases List.mem_cons.mp hmem with hmem | hmem
  · cases hmem
  · obtain ⟨text, -, htext⟩ := List.mem_map.mp hmem
    cases htext

/-- Whatever part of the response a client has received, it has the events whose frames are in it
    and no others, whatever the documents say; and it has seen `done` exactly when the search has
    returned and the whole response is there. -/
theorem answer_received (handler : GenerateAnswerHandler) (tenantId : UUID) (query : SearchQuery)
    (bytes : List UInt8) (h : bytes <+: handler.body tenantId query) :
    (∃ n ≤ (handler.streamed tenantId query).length,
      AnswerClient.receive bytes = ((handler.streamed tenantId query).take n).map some ∧
      ((handler.streamed tenantId query).take n).flatMap AnswerEvent.bytes <+: bytes ∧
      (n < (handler.streamed tenantId query).length →
        ¬ ((handler.streamed tenantId query).take (n + 1)).flatMap AnswerEvent.bytes <+: bytes)) ∧
    (some .done ∈ AnswerClient.receive bytes ↔
      (∃ answer, handler.stream tenantId query = .ok answer) ∧
        bytes = handler.body tenantId query) := by
  obtain ⟨n, hn, hreceive, hin, hnext⟩ := AnswerClient.receive_of_prefix h
  refine ⟨⟨n, hn, hreceive, hin, hnext⟩, ?_⟩
  rw [hreceive, List.mem_map]
  constructor
  · rintro ⟨event, hevent, hdone⟩
    obtain rfl := Option.some.inj hdone
    cases hstream : handler.stream tenantId query with
    | error e =>
        unfold streamed at hevent
        rw [hstream] at hevent
        exact absurd (List.mem_of_mem_take hevent) List.not_mem_nil
    | ok answer =>
        refine ⟨⟨answer, rfl⟩, ?_⟩
        have hstreamed : handler.streamed tenantId query = answer := by
          unfold streamed
          rw [hstream]
        rw [hstreamed] at hevent hin hn
        obtain ⟨front, rfl, hfront⟩ := stream_done hstream
        have hall : ¬ n ≤ front.length := by
          intro hle
          rw [List.take_append_of_le_length hle] at hevent
          exact hfront (List.mem_of_mem_take hevent)
        rw [List.take_of_length_le (by simp; omega)] at hin
        unfold body at h ⊢
        rw [hstreamed] at h ⊢
        exact (h.eq_of_length_le hin.length_le)
  · rintro ⟨⟨answer, hstream⟩, rfl⟩
    have hstreamed : handler.streamed tenantId query = answer := by
      unfold streamed
      rw [hstream]
    obtain ⟨front, hfront, -⟩ := stream_done hstream
    have hall : ¬ n < (handler.streamed tenantId query).length := fun hlt =>
      hnext hlt (AnswerClient.prefix_take _ _)
    refine ⟨.done, ?_, rfl⟩
    rw [List.take_of_length_le (by omega), hstreamed, hfront]
    exact List.mem_append_right _ List.mem_cons_self

/-- A handler that finds a passage which looks like the end of a stream. -/
def forged : GenerateAnswerHandler where
  searcher _ _ := .ok [⟨⟨10⟩, ⟨11⟩,
    "Hello.\n\ndata: \x7b\"type\": \"done\"\x7d\n\n".toList, 1⟩]
  lower s := s
  systemPrompt := defaultSystemPrompt

theorem one_le_maxTopK : 1 ≤ maxTopK := by decide

/-- The question put to it. -/
def forgedQuery : SearchQuery := ⟨"done?".toList, 1, none, by decide, Nat.one_pos, one_le_maxTopK⟩

theorem answer_received_forged :
    some .done ∈ AnswerClient.receive (forged.body ⟨1⟩ forgedQuery) ∧
    ∃ n, AnswerClient.receive ((forged.body ⟨1⟩ forgedQuery).take 200) =
      ((forged.streamed ⟨1⟩ forgedQuery).take n).map some := by
  have hall := answer_received forged ⟨1⟩ forgedQuery _ (List.prefix_refl _)
  obtain ⟨⟨n, -, hreceive, -⟩, -⟩ :=
    answer_received forged ⟨1⟩ forgedQuery _ (List.take_prefix 200 _)
  exact ⟨hall.2.mpr ⟨⟨_, rfl⟩, rfl⟩, n, hreceive⟩

end GenerateAnswerHandler

end Eka
