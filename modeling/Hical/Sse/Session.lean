import Hical.Response.Chunked
import Hical.Sse.EventStream

/-! What a server-sent events session writes, and what of it a browser reads. -/

namespace Hical.Sse

structure SseEvent where
  data : Bytes
  event : Bytes := []
  id : Bytes := []
  retry : Bytes := []

/-- An optional field; an empty one is not written. -/
def fieldText (name value : Bytes) : Bytes := if value = [] then [] else name ++ bytes ": " ++ value ++ [LF]

theorem length_cut (h : (cut c s).2 = some rest) : rest.length < s.length := by
  obtain ⟨hs, -⟩ := cut_some (p := (cut c s).1) (q := rest) (by rw [← h])
  rw [hs, List.length_append, List.length_cons]
  omega

def dataLines (data : Bytes) : Bytes :=
  if data = [] then [] else
    match _ : (cut LF data).2 with
    | none => bytes "data: " ++ (cut LF data).1 ++ [LF]
    | some rest => bytes "data: " ++ (cut LF data).1 ++ [LF] ++ dataLines rest
termination_by data.length
decreasing_by exact length_cut ‹_›

/-- What `sendEvent` builds. -/
def eventText (event : SseEvent) : Bytes :=
  fieldText (bytes "event") event.event ++ (if event.data ≠ [] then dataLines event.data else bytes "data:\n") ++
    fieldText (bytes "id") event.id ++ fieldText (bytes "retry") event.retry ++ [LF]

def commentText (comment : Bytes) : Bytes := bytes ": " ++ comment ++ bytes "\n\n"

/-- `SseSession`, with what was written to its socket behind the head. -/
structure SseSession where
  alive : Bool := true
  written : Bytes := []

namespace SseSession

/-- The chunk that `async_write` sends. -/
def sendBuf (s : SseSession) (text : Bytes) : SseSession :=
  { s with written := s.written ++ (hexadecimal text.length ++ crlf ++ text ++ crlf) }

def sendEvent (s : SseSession) (event : SseEvent) : SseSession := if s.alive then s.sendBuf (eventText event) else s

def sendData (s : SseSession) (data : Bytes) : SseSession := s.sendEvent { data := data }

def sendComment (s : SseSession) (comment : Bytes) : SseSession :=
  if s.alive then s.sendBuf (commentText comment) else s

def close (s : SseSession) : SseSession :=
  if s.alive then ⟨false, s.written ++ bytes "0\r\n\r\n"⟩ else s

end SseSession

inductive SseCall where
  | sendEvent (event : SseEvent)
  | sendData (data : Bytes)
  | sendComment (comment : Bytes)

def SseSession.call (s : SseSession) : SseCall → SseSession
  | .sendEvent event => s.sendEvent event
  | .sendData data => s.sendData data
  | .sendComment comment => s.sendComment comment

/-- All bytes behind the head, once the session is closed. -/
def wire (calls : List SseCall) : Bytes := (calls.foldl SseSession.call {}).close.written

/-- Every line end is a line feed. -/
def normalise : Bytes → Bytes
  | [] => []
  | 13 :: 10 :: s => LF :: normalise s
  | b :: s => (if b = CR then LF else b) :: normalise s

def SseCall.event? : SseCall → Option SseEvent
  | .sendEvent event => some event
  | .sendData data => some { data := data }
  | .sendComment _ => none

def given (name value : Bytes) : Fields := if value = [] then [] else [⟨name, value⟩]

def SseEvent.fields (e : SseEvent) : Fields :=
  given (bytes "event") e.event ++ ((normalise e.data).splitOn LF).map (Field.mk (bytes "data")) ++
    given (bytes "id") e.id ++ given (bytes "retry") e.retry

/-- The event as a browser is to see it; an event without an identifier keeps the last one. -/
def SseEvent.message (lastEventId : Bytes) (e : SseEvent) : MessageEvent where
  type := if e.event = [] then bytes "message" else e.event
  data := normalise e.data
  lastEventId := if e.id = [] then lastEventId else e.id

def sentFields (calls : List SseCall) : Fields := (calls.filterMap SseCall.event?).flatMap SseEvent.fields

def messages (lastEventId : Bytes) : List SseEvent → List MessageEvent
  | [] => []
  | e :: events => e.message lastEventId :: messages (e.message lastEventId).lastEventId events

def sentEvents (calls : List SseCall) : List MessageEvent := messages [] (calls.filterMap SseCall.event?)

/-- Behind the transfer coding, exactly the fields and the events that were sent are read. -/
def Received (calls : List SseCall) : Prop :=
  ∃ content, DecodesTo (wire calls) content ∧
    (eventStream content).fields = sentFields calls ∧ (eventStream content).events = sentEvents calls

/-- A carriage return stands in front of a line feed only, and no line feed at the end. -/
structure SplitsRight (data : Bytes) : Prop where
  cr : ∀ i, data[i]? = some CR → data[i + 1]? = some LF
  last : data.getLast? ≠ some LF

/-- No line behind the first one gives a field. -/
def Harmless (comment : Bytes) : Prop :=
  ∀ i b b', comment[i]? = some b → isEol b → comment[i + 1]? = some b' → isEol b' ∨ b' = colon

section Data
variable {r : EventReader}

theorem SplitsRight.tail (h : SplitsRight (b :: s)) : SplitsRight s where
  cr i hi := h.cr (i + 1) hi
  last hs := by
    apply h.last
    cases s with
    | nil => cases hs
    | cons b' s => rwa [List.getLast?_cons_cons]

/-- How much room a list of fields takes when each value stands on a line of its own. -/
def room (fields : Fields) : Nat := (fields.map fun f => f.value.length + 1).sum

/-- From one reader to the other, at most so much room was taken, and all of it only where the
condition holds. -/
structure Takes (r : EventReader) (n : Nat) (P : Prop) (r' : EventReader) : Prop where
  fresh : r'.Fresh
  le : room r'.fields ≤ room r.fields + n
  exactly : room r'.fields = room r.fields + n → P

theorem Takes.nothing (h : r.Fresh) : Takes r (n + 1) P r := ⟨h, by omega, fun heq => by omega⟩

end Data

section Comment
variable {r : EventReader}

/-- Between the two, nothing was read but comments and empty lines. -/
structure Quiet (r r' : EventReader) : Prop where
  line : r'.line = [] ∨ r'.line.head? = some colon
  fields : r'.fields = r.fields
  events : r'.events = r.events
  lastEventId : r'.lastEventId = r.lastEventId
  data : r'.data = []
  type : r'.type = []

theorem Quiet.endLine (h : Quiet r r') : Quiet r { r'.endLine with cr := c } := by
  by_cases hline : r'.line = []
  · have hend : r'.endLine = { r' with line := [], type := [] } := by
      rw [EventReader.endLine, if_pos hline, EventReader.dispatch, if_pos h.data]
    rw [hend]
    exact ⟨.inl rfl, h.fields, h.events, h.lastEventId, h.data, rfl⟩
  · have hend : r'.endLine = { r' with line := [] } := by
      rw [EventReader.endLine, if_neg hline, fieldOf, if_pos (.inr (h.line.resolve_left hline))]
    rw [hend]
    exact ⟨.inl rfl, h.fields, h.events, h.lastEventId, h.data, h.type⟩

theorem Quiet.byte (h : Quiet r r') (hb : r'.line = [] → isEol b ∨ b = colon) : Quiet r (r'.byte b) := by
  rw [EventReader.byte]
  split
  · exact ⟨h.line, h.fields, h.events, h.lastEventId, h.data, h.type⟩
  · split
    · exact h.endLine
    · next hplain =>
      refine ⟨.inr ?_, h.fields, h.events, h.lastEventId, h.data, h.type⟩
      rcases h.line with hline | hline
      · rw [(hb hline).resolve_left hplain, hline]
        rfl
      · dsimp only
        rw [List.head?_append, hline]
        rfl

theorem Harmless.tail (h : Harmless (b :: s)) : Harmless s := fun i => h (i + 1)

theorem Quiet.read (h : Quiet r r') (hstart : r'.line = [] → ∀ b, s.head? = some b → isEol b ∨ b = colon)
    (hs : Harmless s) : Quiet r (r'.read s) := by
  induction s generalizing r' with
  | nil => exact h
  | cons b s ih =>
    apply ih (h.byte fun hline => hstart hline b rfl) _ hs.tail
    intro hline b' hb'
    apply hs 0 b b' rfl
    · rw [← Bool.not_eq_false]
      intro hb
      rw [EventReader.byte_plain hb] at hline
      exact List.append_ne_nil_of_right_ne_nil _ (List.cons_ne_nil _ _) hline
    · rw [List.getElem?_cons_succ, ← List.head?_eq_getElem?]
      exact hb'

end Comment

section Event
variable {r : EventReader} {e : SseEvent}

end Event

def SseCall.text : SseCall → Bytes
  | .sendEvent event => eventText event
  | .sendData data => eventText { data := data }
  | .sendComment comment => commentText comment

section Calls
variable {r : EventReader}

def Reads (r : EventReader) (calls : List SseCall) : Prop :=
  (r.read (calls.flatMap SseCall.text)).fields = r.fields ++ sentFields calls ∧
    (r.read (calls.flatMap SseCall.text)).events =
      r.events ++ messages r.lastEventId (calls.filterMap SseCall.event?)

end Calls

end Hical.Sse
