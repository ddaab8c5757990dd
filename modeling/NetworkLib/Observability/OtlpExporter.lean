import NetworkLib.Observability.Tracer
import NetworkLib.Theory.Json

/-! # The OTLP exporter

`OtlpExporter::Export` puts the JSON of some spans together from pieces of text, and the strings of
a span go into it as they are. The payload is read back as the spans exactly if none of their
strings holds a quotation mark, a backslash or a control character (`exported_iff`). The reader does
not ask for UTF-8; a strict one also refuses strings that are not. -/

namespace NetworkLib

/-- A span that has ended. -/
structure EndedSpan extends Span where
  endTimeUs : ℤ := 0

namespace OtlpExporter

/-- A time in nanoseconds, in the 64 bits of a `long long`. The product of signed integers is
undefined where it does not fit; it wraps here, which no time within 292 years of 1970 reaches. -/
def nanoseconds (us : ℤ) : ℤ := Int.bmod (us * 1000) (2 ^ 64)

/-- The text of a span. -/
def spanText (s : EndedSpan) : Bytes :=
  bytesOf "\x7b" ++ bytesOf "\"traceId\":\"" ++ s.context.traceId ++ bytesOf "\","
    ++ bytesOf "\"spanId\":\"" ++ s.context.spanId ++ bytesOf "\","
    ++ bytesOf "\"parentSpanId\":\"" ++ s.context.parentSpanId ++ bytesOf "\","
    ++ bytesOf "\"name\":\"" ++ s.name ++ bytesOf "\","
    ++ bytesOf "\"startTimeUnixNano\":\"" ++ Json.decimal (nanoseconds s.startTimeUs) ++ bytesOf "\","
    ++ bytesOf "\"endTimeUnixNano\":\"" ++ Json.decimal (nanoseconds s.endTimeUs) ++ bytesOf "\""
    ++ bytesOf "\x7d"

/-- `Export`: the payload. -/
def payload (spans : List EndedSpan) : Bytes :=
  bytesOf "\x7b\"resourceSpans\":[\x7b\"scopeSpans\":[\x7b\"spans\":["
    ++ (bytesOf ",").intercalate (spans.map spanText) ++ bytesOf "]\x7d]\x7d]\x7d"

/-- What a span should be in JSON. -/
def spanJson (s : EndedSpan) : Json :=
  .object
    [(bytesOf "traceId", .string s.context.traceId), (bytesOf "spanId", .string s.context.spanId),
      (bytesOf "parentSpanId", .string s.context.parentSpanId), (bytesOf "name", .string s.name),
      (bytesOf "startTimeUnixNano", .string (Json.decimal (nanoseconds s.startTimeUs))),
      (bytesOf "endTimeUnixNano", .string (Json.decimal (nanoseconds s.endTimeUs)))]

/-- What the payload should be. -/
def document (spans : List EndedSpan) : Json :=
  .object [(bytesOf "resourceSpans", .array [.object [(bytesOf "scopeSpans",
    .array [.object [(bytesOf "spans", .array (spans.map spanJson))]])]])]

/-- The strings of a span. -/
def strings (s : EndedSpan) : List Bytes :=
  [s.context.traceId, s.context.spanId, s.context.parentSpanId, s.name]

/-- **The text of a span is its JSON without escapes.** -/
theorem spanText_eq (s : EndedSpan) : spanText s = Json.write id (spanJson s) := by
  have htrace : bytesOf "\"traceId\":\""
      = 0x22 :: (bytesOf "traceId" ++ [0x22, 0x3A, 0x22]) := rfl
  have hspan : bytesOf "\"spanId\":\"" = 0x22 :: (bytesOf "spanId" ++ [0x22, 0x3A, 0x22]) := rfl
  have hparent : bytesOf "\"parentSpanId\":\""
      = 0x22 :: (bytesOf "parentSpanId" ++ [0x22, 0x3A, 0x22]) := rfl
  have hname : bytesOf "\"name\":\"" = 0x22 :: (bytesOf "name" ++ [0x22, 0x3A, 0x22]) := rfl
  have hstart : bytesOf "\"startTimeUnixNano\":\""
      = 0x22 :: (bytesOf "startTimeUnixNano" ++ [0x22, 0x3A, 0x22]) := rfl
  have hend : bytesOf "\"endTimeUnixNano\":\""
      = 0x22 :: (bytesOf "endTimeUnixNano" ++ [0x22, 0x3A, 0x22]) := rfl
  have hcomma : bytesOf "\"," = [0x22, 0x2C] := rfl
  have hquote : bytesOf "\"" = [0x22] := rfl
  have hopen : bytesOf "\x7b" = [0x7B] := rfl
  have hclose : bytesOf "\x7d" = [0x7D] := rfl
  unfold spanText spanJson
  simp only [htrace, hspan, hparent, hname, hstart, hend, hcomma, hquote, hopen, hclose]
  simp [Json.write, Json.writeMembers]

/-- **The payload is the JSON of the spans without escapes.** -/
theorem payload_eq (spans : List EndedSpan) : payload spans = Json.write id (document spans) := by
  have hfront : bytesOf "\x7b\"resourceSpans\":[\x7b\"scopeSpans\":[\x7b\"spans\":["
      = 0x7B :: 0x22 :: (bytesOf "resourceSpans" ++ 0x22 :: 0x3A :: 0x5B :: 0x7B :: 0x22
        :: (bytesOf "scopeSpans" ++ 0x22 :: 0x3A :: 0x5B :: 0x7B :: 0x22
          :: (bytesOf "spans" ++ [0x22, 0x3A, 0x5B]))) := rfl
  have hback : bytesOf "]\x7d]\x7d]\x7d" = [0x5D, 0x7D, 0x5D, 0x7D, 0x5D, 0x7D] := rfl
  have hcomma : bytesOf "," = [0x2C] := rfl
  have hspans : spans.map spanText = (spans.map spanJson).map (Json.write id) := by
    rw [List.map_map]
    exact List.map_congr_left fun s _ => spanText_eq s
  unfold payload document
  simp only [hfront, hback, hcomma, hspans, ← Json.writeElements_eq]
  simp [Json.write, Json.writeElements, Json.writeMembers]

/-- A number in decimal needs no escape. -/
theorem plain_decimal (n : ℤ) : Json.Plain (Json.decimal n) := by
  intro b hb
  have hdigit : b = 0x2D ∨ Json.isDigit b = true := by
    rw [Json.decimal] at hb
    split at hb
    · exact (List.mem_cons.mp hb).imp id (Json.isDigit_of_mem_digits _ b)
    · exact .inr (Json.isDigit_of_mem_digits _ b hb)
  rcases hdigit with rfl | hdigit
  · decide
  · exact ⟨Json.printable_of_isDigit hdigit, Json.ne_of_isDigit hdigit (by decide),
      Json.ne_of_isDigit hdigit (by decide)⟩

/-- Of a span only its strings may need one. -/
theorem all_spanJson_iff (s : EndedSpan) :
    (spanJson s).All Json.Plain ↔ ∀ t ∈ strings s, Json.Plain t := by
  have hkeys : Json.Plain (bytesOf "traceId") ∧ Json.Plain (bytesOf "spanId") ∧
      Json.Plain (bytesOf "parentSpanId") ∧ Json.Plain (bytesOf "name") ∧
      Json.Plain (bytesOf "startTimeUnixNano") ∧ Json.Plain (bytesOf "endTimeUnixNano") := by
    simp [Json.Plain, bytesOf, Json.quote, Json.backslash]
  obtain ⟨htrace, hspan, hparent, hname, hstart, hend⟩ := hkeys
  simp only [spanJson, strings, Json.All, Json.AllMembers, List.forall_mem_cons, List.not_mem_nil,
    false_implies, implies_true, plain_decimal, htrace, hspan, hparent, hname, hstart, hend, true_and,
    and_true]

/-- **The payload and its spans.** For all spans: a reader of JSON takes the payload for these spans
exactly if no string in any of them holds a quotation mark, a backslash or a control character. One
such byte in the name of one span changes the payload or makes it unreadable. -/
theorem exported_iff (spans : List EndedSpan) :
    Json.read (payload spans) = some (document spans) ↔
      ∀ s ∈ spans, ∀ t ∈ strings s, Json.Plain t := by
  have hkeys : Json.Plain (bytesOf "resourceSpans") ∧ Json.Plain (bytesOf "scopeSpans") ∧
      Json.Plain (bytesOf "spans") := by
    simp [Json.Plain, bytesOf, Json.quote, Json.backslash]
  rw [payload_eq, Json.read_write_id_iff, document]
  simp only [Json.All, Json.AllMembers, Json.AllElements, hkeys, true_and, and_true]
  rw [Json.allElements_iff, List.forall_mem_map]
  exact forall₂_congr fun s _ => all_spanJson_iff s

end OtlpExporter

end NetworkLib
