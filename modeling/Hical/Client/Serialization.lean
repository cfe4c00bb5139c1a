import Hical.Response.Framing
import Hical.Session.Decision

/-! The bytes of a request that the client sends, and how a server reads them. -/

namespace Hical.Client
open ResponseClient Response

def kDefaultHttpPort : Nat := 80

def isManagedRequestHeader (name : Bytes) : Bool :=
  iequals name (bytes "Host") || iequals name (bytes "Content-Length") || iequals name (bytes "Connection")

/-- What the client is connected to. -/
structure Origin where
  host : Bytes
  port : Nat

def Origin.text (o : Origin) : Bytes := o.host ++ if o.port ≠ kDefaultHttpPort then [colon] ++ decimal o.port else []

def buildRequest (o : Origin) (method : HttpMethod) (target body : Bytes) (headers : Fields) : Bytes :=
  httpMethodToString method ++ [SP] ++ target ++ bytes " HTTP/1.1\r\n" ++ bytes "Host: " ++ o.text ++ bytes "\r\n" ++
    (if body ≠ [] then bytes "Content-Length: " ++ decimal body.length ++ bytes "\r\n" else []) ++
    bytes "Connection: keep-alive\r\n" ++
    (headers.filter fun f => !isManagedRequestHeader f.name).flatMap
      (fun f => f.name ++ bytes ": " ++ f.value ++ bytes "\r\n") ++
    bytes "\r\n" ++ body

/-- A request as a server understands it. -/
@[ext]
structure RequestMessage where
  method : Bytes
  target : Bytes
  fields : Fields
  body : Bytes

/-- `VCHAR`; a target is taken apart no further. -/
def visible (b : UInt8) : Bool := 33 ≤ b && b ≤ 126

/-- `request-line` of RFC 9112. -/
def readRequestLine (line : Bytes) : Option (Bytes × Bytes) :=
  match line.splitOn SP with
  | [method, target, version] =>
    if method ≠ [] ∧ method.all tokenChar ∧ target ≠ [] ∧ target.all visible ∧ version = bytes "HTTP/1.1" then
      some (method, target)
    else none
  | _ => none

/-- The body length of RFC 9112: a transfer coding counts before a length, and must end in chunked. -/
def Framed (fields : Fields) (content body rest : Bytes) : Prop :=
  match (named transferEncodingName fields).map (·.value), (named contentLengthName fields).map (·.value) with
  | [], [] => body = [] ∧ content = rest
  | [], [value] => decimalValue value = some body.length ∧ content = body ++ rest
  | [], _ => False
  | codings, _ =>
    (∃ coding, (codings.flatMap elements).getLast? = some coding ∧ NamesChunked coding) ∧
      ∃ coded, content = coded ++ rest ∧ DecodesTo coded body

def fieldOfLine (line : Bytes) : Field := ⟨(readField line).1, (readField line).2⟩

structure ReadsAs (wire : Bytes) (m : RequestMessage) (rest : Bytes) : Prop where
  complete : [] ∈ lines wire
  line : (headLines wire).head?.bind readRequestLine = some (m.method, m.target)
  wellFormed : ∀ l ∈ (headLines wire).tail, isFieldLine l = true
  fields : (headLines wire).tail.map fieldOfLine = m.fields
  framed : Framed m.fields (contentOf wire) m.body rest

def arriving (f : Field) : Field := ⟨f.name, fieldValue f.value⟩

/-- The fields of the request: those that the client manages, and the given ones. -/
def sentFields (o : Origin) (body : Bytes) (headers : Fields) : Fields :=
  [⟨bytes "Host", o.text⟩] ++ (if body ≠ [] then [⟨contentLengthName, decimal body.length⟩] else []) ++
    [⟨bytes "Connection", bytes "keep-alive"⟩] ++ headers.filter fun f => !isManagedRequestHeader f.name

def sentMessage (o : Origin) (method : HttpMethod) (target body : Bytes) (headers : Fields) : RequestMessage :=
  ⟨httpMethodToString method, target, (sentFields o body headers).map arriving, body⟩

def Printable (value : Bytes) : Prop := ∀ b ∈ value, isCtl b = false

/-- Nothing that is given can end a line or frame the body. -/
structure Harmless (o : Origin) (target : Bytes) (headers : Fields) : Prop where
  target : target ≠ [] ∧ ∀ b ∈ target, visible b = true
  host : Printable o.host
  headers : ∀ f ∈ headers, isManagedRequestHeader f.name = false →
    f.name ≠ [] ∧ (∀ b ∈ f.name, tokenChar b = true) ∧ Printable f.value ∧ iequals f.name transferEncodingName = false

section Reading
variable {f : Field}

/-- What a field line needs of the field that is written. -/
def Sound (f : Field) : Prop := f.name ≠ [] ∧ (∀ b ∈ f.name, tokenChar b = true) ∧ Printable f.value

theorem Sound.no_colon (h : Sound f) : colon ∉ f.name := by
  intro hm
  have hc := h.2.1 colon hm
  cases hc

theorem fieldOfLine_text (h : Sound f) : fieldOfLine f.text = arriving f := by
  rw [fieldOfLine, readField_plain h.no_colon]
  rfl

theorem isFieldLine_text (h : Sound f) : isFieldLine f.text = true := by
  rw [isFieldLine, text_eq, cut_append_sep h.no_colon]
  dsimp only
  rw [Bool.and_eq_true, Bool.and_eq_true, List.all_eq_true, List.all_eq_true]
  refine ⟨⟨bne_iff_ne.2 h.1, h.2.1⟩, fun b hb => ?_⟩
  rcases List.mem_cons.1 hb with rfl | hb
  · rfl
  · rw [h.2.2 b hb]
    rfl

theorem decodesTo_length (h : DecodesTo wire data) : data.length < wire.length := by
  obtain ⟨m, -, rfl, rfl⟩ := h
  have hchunks (chunks : List Chunk) : (chunks.flatMap Chunk.data).length ≤ (chunks.flatMap Chunk.wire).length := by
    induction chunks with
    | nil => exact Nat.le_refl _
    | cons c chunks ih =>
      have hone : c.data.length ≤ c.wire.length := by
        simp only [Chunk.wire, List.length_append]
        omega
      rw [List.flatMap_cons, List.flatMap_cons, List.length_append, List.length_append]
      exact Nat.add_le_add hone ih
  have hcrlf : crlf.length = 2 := rfl
  have hdata := hchunks m.chunks
  rw [ChunkedMessage.data, ChunkedMessage.wire, ChunkedMessage.lastChunk]
  simp only [List.length_append, hcrlf]
  omega

theorem readRequestLine_words (hmethod : method ≠ [] ∧ ∀ b ∈ method, tokenChar b = true)
    (htarget : target ≠ [] ∧ ∀ b ∈ target, visible b = true) :
    readRequestLine (method ++ [SP] ++ target ++ bytes " HTTP/1.1") = some (method, target) := by
  have hm : SP ∉ method := fun hm => Bool.false_ne_true (hmethod.2 SP hm)
  have ht : SP ∉ target := fun hm => Bool.false_ne_true (htarget.2 SP hm)
  have hline : method ++ [SP] ++ target ++ bytes " HTTP/1.1" = method ++ SP :: (target ++ SP :: bytes "HTTP/1.1") := by
    rw [List.append_assoc, List.append_assoc]
    rfl
  have hwords : (bytes "HTTP/1.1").splitOn SP = [bytes "HTTP/1.1"] := List.splitOn_eq_singleton (by decide)
  rw [readRequestLine, hline, List.splitOn_append_cons_self, List.splitOn_append_cons_self, List.splitOn_eq_singleton hm,
    List.splitOn_eq_singleton ht, hwords]
  exact if_pos ⟨hmethod.1, List.all_eq_true.2 hmethod.2, htarget.1, List.all_eq_true.2 htarget.2, rfl⟩

theorem method_token (method : HttpMethod) :
    httpMethodToString method ≠ [] ∧ ∀ b ∈ httpMethodToString method, tokenChar b = true := by
  rw [← List.all_eq_true]
  cases method <;> decide

end Reading

section Message
variable {o : Origin} {method : HttpMethod} {target body : Bytes} {headers : Fields}

def requestLine (method : HttpMethod) (target : Bytes) : Bytes :=
  httpMethodToString method ++ [SP] ++ target ++ bytes " HTTP/1.1"

/-- The request is written in lines, whatever they hold. -/
theorem buildRequest_lines (o : Origin) (method : HttpMethod) (target body : Bytes) (headers : Fields) :
    buildRequest o method target body headers =
      unlines (requestLine method target :: (sentFields o body headers).map Field.text) ++ (crlf ++ body) := by
  have hgiven : (headers.filter fun f => !isManagedRequestHeader f.name).flatMap
      (fun f => f.name ++ bytes ": " ++ f.value ++ bytes "\r\n") =
        unlines ((headers.filter fun f => !isManagedRequestHeader f.name).map Field.text) := by
    rw [unlines, List.flatMap_map]
    rfl
  have hlength : (if body ≠ [] then bytes "Content-Length: " ++ decimal body.length ++ bytes "\r\n" else []) =
      unlines ((if body ≠ [] then [(⟨contentLengthName, decimal body.length⟩ : Field)] else []).map Field.text) := by
    split
    · rw [List.map_singleton, unlines_cons, unlines_nil, List.append_nil]
      rfl
    · rfl
  have hline : bytes " HTTP/1.1\r\n" = bytes " HTTP/1.1" ++ crlf := by decide
  have hhost : unlines [Field.text ⟨bytes "Host", o.text⟩] = bytes "Host: " ++ o.text ++ bytes "\r\n" := by
    rw [unlines_cons, unlines_nil, List.append_nil]
    rfl
  have hconnection : unlines [Field.text ⟨bytes "Connection", bytes "keep-alive"⟩] = bytes "Connection: keep-alive\r\n" := by
    decide
  rw [buildRequest, hgiven, hlength, hline, sentFields, unlines_cons, List.map_append, List.map_append, List.map_append,
    unlines_append, unlines_append, unlines_append, List.map_singleton, List.map_singleton, hhost, hconnection, requestLine]
  simp only [List.append_assoc]
  rfl

theorem printable_decimal (n : Nat) : Printable (decimal n) := by
  intro b hb
  have hdigit := (decimal_digits n).2.1 b hb
  rw [isDecimal, Bool.and_eq_true, decide_eq_true_eq, decide_eq_true_eq] at hdigit
  rw [isCtl, Bool.or_eq_false_iff, Bool.and_eq_false_iff, decide_eq_false_iff_not, beq_eq_false_iff_ne]
  refine ⟨.inl (fun hlow => ?_), ?_⟩
  · exact absurd (UInt8.lt_of_lt_of_le hlow (by decide : (32 : UInt8) ≤ 48)) (UInt8.not_lt.2 hdigit.1)
  · rintro rfl
    revert hdigit
    decide

theorem printable_text : Printable o.text ↔ Printable o.host := by
  constructor
  · exact fun h b hb => h b (List.mem_append_left _ hb)
  · intro h b hb
    rcases List.mem_append.1 hb with hb | hb
    · exact h b hb
    · split at hb
      · rcases List.mem_append.1 hb with hb | hb
        · rw [List.mem_singleton.1 hb]
          rfl
        · exact printable_decimal _ b hb
      · cases hb

theorem mem_sentFields : f ∈ sentFields o body headers ↔ f = ⟨bytes "Host", o.text⟩ ∨
    (body ≠ [] ∧ f = ⟨contentLengthName, decimal body.length⟩) ∨ f = ⟨bytes "Connection", bytes "keep-alive"⟩ ∨
      (f ∈ headers ∧ isManagedRequestHeader f.name = false) := by
  by_cases hbody : body = []
  · simp [sentFields, hbody]
  · simp [sentFields, hbody]

theorem Harmless.sound (h : Harmless o target headers) (hf : f ∈ sentFields o body headers) : Sound f := by
  rcases mem_sentFields.1 hf with rfl | ⟨-, rfl⟩ | rfl | ⟨hf, hm⟩
  · have hne : bytes "Host" ≠ [] := by decide
    exact ⟨hne, List.all_eq_true.1 rfl, printable_text.2 h.host⟩
  · have hne : contentLengthName ≠ [] := by decide
    exact ⟨hne, List.all_eq_true.1 rfl, printable_decimal _⟩
  · refine ⟨by decide, List.all_eq_true.1 rfl, fun b hb => ?_⟩
    have hall : (bytes "keep-alive").all fun b => !isCtl b := rfl
    have hno := List.all_eq_true.1 hall b hb
    rwa [Bool.not_eq_true'] at hno
  · obtain ⟨hne, htoken, hvalue, -⟩ := h.headers f hf hm
    exact ⟨hne, htoken, hvalue⟩

theorem head_read (method : HttpMethod) (htarget : target ≠ [] ∧ ∀ b ∈ target, visible b = true)
    (h : ∀ f ∈ sentFields o body headers, Sound f) :
    headLines (buildRequest o method target body headers) =
        requestLine method target :: (sentFields o body headers).map Field.text ∧
      contentOf (buildRequest o method target body headers) = body ∧
      [] ∈ lines (buildRequest o method target body headers) := by
  have hlines : ∀ l ∈ requestLine method target :: (sentFields o body headers).map Field.text, l ≠ [] ∧ CR ∉ l := by
    intro l hl
    rcases List.mem_cons.1 hl with rfl | hl
    · have hversion : CR ∉ bytes " HTTP/1.1" := by decide
      refine ⟨List.append_ne_nil_of_right_ne_nil _ (by decide), fun hcr => ?_⟩
      simp only [requestLine, List.mem_append, List.mem_singleton] at hcr
      rcases hcr with ((hcr | hcr) | hcr) | hcr
      · exact absurd ((method_token method).2 CR hcr) (by decide)
      · exact absurd hcr (by decide)
      · exact absurd (htarget.2 CR hcr) (by decide)
      · exact hversion hcr
    · obtain ⟨f, hf, rfl⟩ := List.mem_map.1 hl
      obtain ⟨hne, hcr, -⟩ := isFieldLine_line (isFieldLine_text (h f hf))
      exact ⟨hne, hcr⟩
  rw [buildRequest_lines, headLines_unlines hlines, contentOf_unlines hlines,
    lines_unlines (fun l hl => (hlines l hl).2), lines_crlf]
  exact ⟨rfl, rfl, List.mem_append_right _ (List.mem_cons_self ..)⟩

theorem unmanaged_length (h : isManagedRequestHeader name = false) : iequals name contentLengthName = false := by
  rw [isManagedRequestHeader, Bool.or_eq_false_iff, Bool.or_eq_false_iff] at h
  exact h.1.2

theorem lengths_sent (o : Origin) (body : Bytes) (headers : Fields) :
    (named contentLengthName ((sentFields o body headers).map arriving)).map (·.value) =
      if body ≠ [] then [decimal body.length] else [] := by
  have hgiven : named contentLengthName ((headers.filter fun f => !isManagedRequestHeader f.name).map arriving) = [] := by
    apply named_none
    intro f hf
    obtain ⟨g, hg, rfl⟩ := List.mem_map.1 hf
    have hm := (List.mem_filter.1 hg).2
    rw [Bool.not_eq_true'] at hm
    exact unmanaged_length hm
  have hhost : named contentLengthName ([⟨bytes "Host", o.text⟩].map arriving) = [] := by
    apply named_none
    intro f hf
    rw [List.mem_singleton.1 hf]
    rfl
  have hconnection : named contentLengthName ([⟨bytes "Connection", bytes "keep-alive"⟩].map arriving) = [] := by decide
  rw [sentFields, List.map_append, List.map_append, List.map_append, named_append, named_append, named_append, hgiven, hhost,
    hconnection, List.append_nil, List.append_nil, List.nil_append]
  split
  · have hself : iequals contentLengthName contentLengthName = true := iequals_self _
    rw [List.map_singleton, named_same (e := arriving ⟨contentLengthName, decimal body.length⟩) hself]
    show [fieldValue (decimal body.length)] = _
    rw [fieldValue_decimal]
  · rfl

theorem codings_sent (h : ∀ f ∈ headers, isManagedRequestHeader f.name = false → iequals f.name transferEncodingName = false) :
    named transferEncodingName ((sentFields o body headers).map arriving) = [] := by
  apply named_none
  intro f hf
  obtain ⟨g, hg, rfl⟩ := List.mem_map.1 hf
  rcases mem_sentFields.1 hg with rfl | ⟨-, rfl⟩ | rfl | ⟨hg, hm⟩
  · rfl
  · rfl
  · rfl
  · exact h g hg hm

theorem framed_sent
    (h : ∀ f ∈ headers, isManagedRequestHeader f.name = false → iequals f.name transferEncodingName = false) :
    Framed ((sentFields o body headers).map arriving) body body' rest ↔ body' = body ∧ rest = [] := by
  rw [Framed, codings_sent h, lengths_sent]
  by_cases hbody : body = []
  · rw [hbody, if_neg (not_not_intro rfl)]
    constructor
    · exact fun ⟨hbody', hrest⟩ => ⟨hbody', hrest.symm⟩
    · exact fun ⟨hbody', hrest⟩ => ⟨hbody', hrest.symm⟩
  · rw [if_pos hbody]
    show decimalValue (decimal body.length) = some body'.length ∧ body = body' ++ rest ↔ _
    rw [decimalValue_decimal]
    constructor
    · rintro ⟨hlength, hcontent⟩
      have hsum := congrArg List.length hcontent
      rw [List.length_append, Option.some.inj hlength, Nat.left_eq_add] at hsum
      have hrest := List.length_eq_zero_iff.1 hsum
      rw [hrest, List.append_nil] at hcontent
      exact ⟨hcontent.symm, hrest⟩
    · rintro ⟨rfl, rfl⟩
      exact ⟨rfl, (List.append_nil _).symm⟩

theorem Framed.coded (h : Framed fields content body rest) (hcoding : named transferEncodingName fields ≠ []) :
    ∃ coded, content = coded ++ rest ∧ DecodesTo coded body := by
  rw [Framed] at h
  split at h
  · next hnone _ => exact absurd (List.map_eq_nil_iff.1 hnone) hcoding
  · next hnone _ => exact absurd (List.map_eq_nil_iff.1 hnone) hcoding
  · exact h.elim
  · exact h.2

theorem uncoded (h : ReadsAs (buildRequest o method target body headers) (sentMessage o method target body headers) [])
    (hcontent : contentOf (buildRequest o method target body headers) = body) (hf : f ∈ headers)
    (hm : isManagedRequestHeader f.name = false) : iequals f.name transferEncodingName = false := by
  by_contra hcoding
  rw [Bool.not_eq_false] at hcoding
  have hsent : arriving f ∈ named transferEncodingName ((sentFields o body headers).map arriving) :=
    List.mem_filter.2 ⟨List.mem_map_of_mem (mem_sentFields.2 (.inr (.inr (.inr ⟨hf, hm⟩)))), hcoding⟩
  obtain ⟨coded, hcoded, hdecodes⟩ := h.framed.coded (List.ne_nil_of_mem hsent)
  rw [hcontent, List.append_nil] at hcoded
  have hlonger := decodesTo_length hdecodes
  rw [← hcoded] at hlonger
  exact Nat.lt_irrefl _ hlonger

/-- A harmless request is read as it was meant, whatever else it could be read as. -/
theorem Harmless.reads (h : Harmless o target headers) (method : HttpMethod) (body : Bytes)
    (m : RequestMessage) (rest : Bytes) : ReadsAs (buildRequest o method target body headers) m rest ↔
      m = sentMessage o method target body headers ∧ rest = [] := by
  obtain ⟨hlines, hcontent, hcomplete⟩ := head_read method h.target fun f hf => h.sound hf
  have hline : (headLines (buildRequest o method target body headers)).head?.bind readRequestLine =
      some (httpMethodToString method, target) := by
    rw [hlines]
    exact readRequestLine_words (method_token method) h.target
  have hfields : (headLines (buildRequest o method target body headers)).tail.map fieldOfLine =
      (sentFields o body headers).map arriving := by
    rw [hlines, List.tail_cons, List.map_map]
    apply List.map_congr_left
    intro f hf
    exact fieldOfLine_text (h.sound hf)
  have hframed (m : RequestMessage) (hm : m.fields = (sentFields o body headers).map arriving) :
      Framed m.fields (contentOf (buildRequest o method target body headers)) m.body rest ↔ m.body = body ∧ rest = [] := by
    rw [hm, hcontent]
    exact framed_sent fun f hf hm => (h.headers f hf hm).2.2.2
  constructor
  · intro hreads
    have hm := hreads.fields.symm.trans hfields
    obtain ⟨hbody, hrest⟩ := (hframed m hm).1 hreads.framed
    obtain ⟨hmethod, htarget⟩ := Prod.mk.inj (Option.some.inj (hreads.line.symm.trans hline))
    exact ⟨RequestMessage.ext hmethod htarget hm hbody, hrest⟩
  · rintro ⟨rfl, hrest⟩
    refine ⟨hcomplete, hline, ?_, hfields, (hframed _ rfl).2 ⟨rfl, hrest⟩⟩
    rw [hlines]
    intro l hl
    obtain ⟨f, hf, rfl⟩ := List.mem_map.1 hl
    exact isFieldLine_text (h.sound hf)

end Message

end Hical.Client
