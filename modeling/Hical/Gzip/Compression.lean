import Hical.Gzip.Vary

/-! What the compression makes of the body of a response, with zlib as a parameter. -/

namespace Hical.Gzip
open Hical.Client (HttpProtocol)
open ResponseClient (contentLengthName transferEncodingName isDecimal)

inductive Flush where
  | sync
  | finish

inductive Ret where
  | ok
  | streamEnd
  | bufError
  | streamError
  deriving DecidableEq

/-- What a call of `deflate` leaves: the stream, the input that it did not take, its output and its code. -/
structure Deflated (Strm : Type) where
  strm : Strm
  rest : Bytes
  out : Bytes
  ret : Ret

/-- The loops around `deflate`: while input is left, while there is output, until the stream has ended. -/
inductive Phase where
  | take
  | flush
  | finish

def Phase.mode : Phase → Flush
  | .take => .sync
  | .flush => .sync
  | .finish => .finish

def Phase.goesOn (p : Phase) (d : Deflated Strm) : Bool :=
  match p with
  | .take => d.rest ≠ []
  | .flush => d.out ≠ []
  | .finish => d.ret ≠ .streamEnd

/-- zlib, with an output buffer that is empty at every call; where a loop goes on, less is left to do. -/
structure Zlib where
  Strm : Type
  /-- A stream that `deflateInit2` or `deflateReset` leaves. -/
  fresh : Nat → Strm
  deflateInit2 : Nat → Int
  deflate : Strm → Bytes → Flush → Deflated Strm
  todo : Strm → Bytes → Nat
  todo_lt : ∀ (p : Phase) (s : Strm) (input : Bytes), (deflate s input p.mode).ret ≠ .streamError →
    p.goesOn (deflate s input p.mode) = true →
      todo (deflate s input p.mode).strm (deflate s input p.mode).rest < todo s input

/-- The outputs of the calls of a loop. -/
def Zlib.loop (z : Zlib) (p : Phase) (what : Bytes) (s : z.Strm) (input : Bytes) :
    Except Bytes (z.Strm × Bytes × List Bytes) :=
  if _ : (z.deflate s input p.mode).ret = .streamError then .error (what ++ bytes ": Z_STREAM_ERROR")
  else if _ : p.goesOn (z.deflate s input p.mode) then do
    let (s', rest, outs) ← z.loop p what (z.deflate s input p.mode).strm (z.deflate s input p.mode).rest
    pure (s', rest, (z.deflate s input p.mode).out :: outs)
  else pure ((z.deflate s input p.mode).strm, (z.deflate s input p.mode).rest, [(z.deflate s input p.mode).out])
termination_by z.todo s input
decreasing_by exact z.todo_lt p s input ‹_› ‹_›

/-- The stream of the thread, which may have one of a level already. -/
def cachedZStream (z : Zlib) (cached : Option Nat) (level : Nat) : Except Bytes z.Strm :=
  if cached = some level then pure (z.fresh level)
  else if z.deflateInit2 level ≠ 0 then
    .error (bytes ("gzip deflateInit2 failed: " ++ toString (z.deflateInit2 level)))
  else pure (z.fresh level)

def availIn (input : Bytes) : Bytes := input.take (input.length % 2 ^ 32)

def gzipCompress (z : Zlib) (cached : Option Nat) (input : Bytes) (level : Nat) : Except Bytes Bytes :=
  if input = [] then pure []
  else do
    let strm ← cachedZStream z cached level
    let (_, _, outs) ← z.loop .finish (bytes "gzip deflate failed") strm (availIn input)
    pure outs.flatten

def gzipCompressChunked (z : Zlib) (cached : Option Nat) (input : Bytes) (level : Nat) : Except Bytes Bytes :=
  if input = [] then pure (bytes "0\r\n\r\n")
  else do
    let strm ← cachedZStream z cached level
    let (strm, rest, outs) ← z.loop .take (bytes "gzip deflate streaming failed") strm (availIn input)
    let (strm, rest, outs') ← z.loop .flush (bytes "gzip deflate flush failed") strm rest
    let (_, _, outs'') ← z.loop .finish (bytes "gzip deflate finish failed") strm rest
    pure (((outs ++ outs' ++ outs'').filter (· ≠ [])).flatMap serializeChunkFrame ++ bytes "0\r\n\r\n")

def compressBytes (z : Zlib) (cached : Option Nat) (body : Bytes) (level : Nat) (chunked : Bool) : Except Bytes Bytes :=
  if chunked then gzipCompressChunked z cached body level else gzipCompress z cached body level

/-- The stream has taken these bytes and given those; once it is to finish, nothing else is asked of it. -/
inductive Zlib.Ran (z : Zlib) (level : Nat) : Flush → z.Strm → Bytes → Bytes → Prop
  | fresh : z.Ran level .sync (z.fresh level) [] []
  | sync : z.Ran level .sync s taken given → input = used ++ (z.deflate s input .sync).rest →
      z.Ran level .sync (z.deflate s input .sync).strm (taken ++ used) (given ++ (z.deflate s input .sync).out)
  | finish : z.Ran level flush s taken given → input = used ++ (z.deflate s input .finish).rest →
      (z.deflate s input .finish).ret ≠ .streamEnd →
        z.Ran level .finish (z.deflate s input .finish).strm (taken ++ used) (given ++ (z.deflate s input .finish).out)

/-- What zlib promises for a level that it accepts: an ended stream is a gzip file of all that was taken. -/
structure Documented (z : Zlib) (gunzip : Bytes → Option Bytes) (level : Nat) : Prop where
  inits : z.deflateInit2 level = 0
  takes : ∀ s input flush, ∃ used, input = used ++ (z.deflate s input flush).rest
  syncs : z.Ran level .sync s taken given → (z.deflate s input .sync).ret ≠ .streamError
  finishes : z.Ran level flush s taken given → (z.deflate s input .finish).ret ≠ .streamError
  gzip : z.Ran level flush s taken given → (z.deflate s input .finish).ret = .streamEnd →
    (z.deflate s input .finish).rest = [] ∧
      gunzip (given ++ (z.deflate s input .finish).out) = some (taken ++ input)

section Loops
variable {z : Zlib} {gunzip : Bytes → Option Bytes} {level : Nat} {s : z.Strm} {taken given input : Bytes}

theorem loop_sync (p : Phase) (input : Bytes) (h : Documented z gunzip level) (hp : p.mode = .sync) (what : Bytes)
    (hran : z.Ran level .sync s taken given) : ∃ s' rest outs used, z.loop p what s input = .ok (s', rest, outs) ∧
      input = used ++ rest ∧ z.Ran level .sync s' (taken ++ used) (given ++ outs.flatten) ∧ (p = .take → rest = []) := by
  fun_induction Zlib.loop z p what s input generalizing taken given with
  | case1 s input herror =>
    rw [hp] at herror
    exact absurd herror (h.syncs hran)
  | case2 s input herror hon ih =>
    rw [hp] at ih ⊢
    obtain ⟨used, hused⟩ := h.takes s input .sync
    obtain ⟨s', rest, outs, used', hloop, hrest, hran', htake⟩ := ih (hran.sync hused)
    rw [hloop]
    refine ⟨s', rest, _, used ++ used', rfl, ?_, ?_, htake⟩
    · rw [List.append_assoc, ← hrest, ← hused]
    · rw [List.flatten_cons, ← List.append_assoc, ← List.append_assoc]
      exact hran'
  | case3 s input herror hon =>
    rw [hp] at hon ⊢
    obtain ⟨used, hused⟩ := h.takes s input .sync
    refine ⟨_, _, _, used, rfl, hused, ?_, ?_⟩
    · rw [List.flatten_singleton]
      exact hran.sync hused
    · rintro rfl
      exact of_not_not fun hne => hon (decide_eq_true hne)

theorem loop_finish (input : Bytes) (h : Documented z gunzip level) (what : Bytes) (hran : z.Ran level flush s taken given) :
    ∃ s' rest outs, z.loop .finish what s input = .ok (s', rest, outs) ∧
      gunzip (given ++ outs.flatten) = some (taken ++ input) := by
  generalize hp : Phase.finish = p
  fun_induction Zlib.loop z p what s input generalizing taken given flush with
  | case1 s input herror =>
    subst hp
    exact absurd herror (h.finishes hran)
  | case2 s input herror hon ih =>
    subst hp
    obtain ⟨used, hused⟩ := h.takes s input .finish
    obtain ⟨s', rest, outs, hloop, hgzip⟩ := ih (hran.finish hused (of_decide_eq_true hon))
    rw [hloop]
    refine ⟨s', rest, _, rfl, ?_⟩
    show gunzip (given ++ ((z.deflate s input .finish).out :: outs).flatten) = _
    rw [List.flatten_cons, ← List.append_assoc, hgzip, List.append_assoc]
    exact congrArg (fun rest => some (taken ++ rest)) hused.symm
  | case3 s input herror hon =>
    subst hp
    have hend : (z.deflate s input .finish).ret = .streamEnd := of_not_not fun hne => hon (decide_eq_true hne)
    refine ⟨_, _, _, rfl, ?_⟩
    rw [List.flatten_singleton]
    exact (h.gzip hran hend).2

theorem cachedZStream_eq (h : Documented z gunzip level) (cached : Option Nat) :
    cachedZStream z cached level = .ok (z.fresh level) := by
  rw [cachedZStream, h.inits]
  split
  · rfl
  · rfl

theorem gzipCompress_spec (h : Documented z gunzip level) (cached : Option Nat) (hbody : body ≠ []) :
    ∃ coded, gzipCompress z cached body level = .ok coded ∧ gunzip coded = some (availIn body) := by
  obtain ⟨s, rest, outs, hloop, hgzip⟩ := loop_finish (availIn body) h (bytes "gzip deflate failed") .fresh
  rw [gzipCompress, if_neg hbody, cachedZStream_eq h]
  refine ⟨outs.flatten, ?_, hgzip⟩
  show (z.loop .finish _ _ _ >>= _) = _
  rw [hloop]
  rfl

theorem decodesTo_frames {outs : List Bytes} (data : Bytes) :
    DecodesTo ((outs.filter (· ≠ [])).flatMap serializeChunkFrame ++ bytes "0\r\n\r\n") data ↔ data = outs.flatten := by
  have hchunks : ∀ c ∈ (outs.filter (· ≠ [])), c ≠ [] := fun c hc => of_decide_eq_true (List.mem_filter.1 hc).2
  have hlast : serializeTrailerFrame [] = bytes "0\r\n\r\n" := by decide
  have hread := decodesTo_iff (b := ⟨outs.filter (· ≠ []), []⟩) hchunks data
  rw [serializeChunkedBody_frames _ hchunks, hlast] at hread
  rw [hread, and_iff_left nofun]
  rw [List.flatten_filter_ne_nil]

theorem gzipCompressChunked_spec (h : Documented z gunzip level) (cached : Option Nat) (hbody : body ≠ []) :
    ∃ wire coded, gzipCompressChunked z cached body level = .ok wire ∧ gunzip coded = some (availIn body) ∧
      ∀ data, DecodesTo wire data ↔ data = coded := by
  obtain ⟨s, rest, outs, used, htake, hused, hran, hrest⟩ :=
    loop_sync .take (availIn body) h rfl (bytes "gzip deflate streaming failed") .fresh
  obtain ⟨s', rest', outs', used', hflush, hused', hran', -⟩ :=
    loop_sync .flush rest h rfl (bytes "gzip deflate flush failed") hran
  obtain ⟨s'', rest'', outs'', hfinish, hgzip⟩ :=
    loop_finish rest' h (bytes "gzip deflate finish failed") hran'
  refine ⟨_, (outs ++ outs' ++ outs'').flatten, ?_, ?_, fun data => decodesTo_frames data⟩
  · rw [gzipCompressChunked, if_neg hbody, cachedZStream_eq h]
    show (z.loop .take _ _ _ >>= _) = _
    rw [htake]
    show (z.loop .flush _ _ _ >>= _) = _
    rw [hflush]
    show (z.loop .finish _ _ _ >>= _) = _
    rw [hfinish]
    rfl
  · rw [List.flatten_append, List.flatten_append, hused, hused']
    simp only [List.nil_append, List.append_assoc] at hgzip ⊢
    exact hgzip

/-- The body without the transfer coding. -/
def Decoded (chunked : Bool) (wire data : Bytes) : Prop := if chunked then DecodesTo wire data else data = wire

theorem compressBytes_spec (h : Documented z gunzip level) (cached : Option Nat) (hbody : body ≠ []) (chunked : Bool) :
    ∃ wire coded, compressBytes z cached body level chunked = .ok wire ∧ gunzip coded = some (availIn body) ∧
      ∀ data, Decoded chunked wire data ↔ data = coded := by
  cases chunked with
  | true => exact gzipCompressChunked_spec h cached hbody
  | false =>
    obtain ⟨coded, hcompress, hgzip⟩ := gzipCompress_spec h cached hbody
    exact ⟨coded, coded, hcompress, hgzip, fun data => Iff.rfl⟩

theorem compressBytes_cached (h : Documented z gunzip level) (cached cached' : Option Nat) (body : Bytes) (chunked : Bool) :
    compressBytes z cached body level chunked = compressBytes z cached' body level chunked := by
  cases chunked with
  | true =>
    show gzipCompressChunked z cached body level = gzipCompressChunked z cached' body level
    rw [gzipCompressChunked, gzipCompressChunked, cachedZStream_eq h, cachedZStream_eq h]
  | false =>
    show gzipCompress z cached body level = gzipCompress z cached' body level
    rw [gzipCompress, gzipCompress, cachedZStream_eq h, cachedZStream_eq h]

theorem availIn_eq (input : Bytes) : availIn input = input ↔ input.length < 2 ^ 32 := by
  have hmod := Nat.mod_lt input.length (by decide : 2 ^ 32 > 0)
  rw [availIn]
  constructor
  · intro h
    have hlength := congrArg List.length h
    have hle := Nat.min_le_left (input.length % 2 ^ 32) input.length
    rw [List.length_take] at hlength
    rw [hlength] at hle
    exact Nat.lt_of_le_of_lt hle hmod
  · intro hlt
    rw [Nat.mod_eq_of_lt hlt, List.take_length]

end Loops

/-- `qvalue` of RFC 9110. -/
def IsQvalue (q : Bytes) : Prop :=
  ∃ front digits, (q = [front] ∧ digits = [] ∨ q = front :: 46 :: digits) ∧ digits.length ≤ 3 ∧
    (front = 48 ∧ (∀ d ∈ digits, isDecimal d = true) ∨ front = 49 ∧ ∀ d ∈ digits, d = 48)

def NonZero (q : Bytes) : Prop := ∃ d ∈ q, isDecimal d = true ∧ d ≠ 48

/-- An element that asks for gzip, with no weight that is ill formed or zero. -/
def GzipElement (element : Bytes) : Prop :=
  ∃ coding parameters, (element.splitOn semicolon).map (trimWith isBlank) = coding :: parameters ∧
    iequals coding (bytes "gzip") = true ∧
    ∀ p ∈ parameters, iequals (trimWith isBlank (cut 61 p).1) (bytes "q") = true →
      ∃ value, (cut 61 p).2 = some value ∧ IsQvalue (trimWith isBlank value) ∧ NonZero (trimWith isBlank value)

/-- Some line of the field has such an element. -/
def Acceptable (request : Request) : Prop :=
  ∃ f ∈ Response.named (bytes "Accept-Encoding") request.headers, ∃ element ∈ elements f.value, GzipElement element

section Negotiation
variable {request : Request}

theorem positiveQuality_iff : positiveQuality q = true ↔ IsQvalue q ∧ NonZero q := by
  cases q with
  | nil =>
    apply iff_of_false Bool.false_ne_true
    rintro ⟨-, d, hd, -⟩
    cases hd
  | cons front rest =>
    cases rest with
    | nil =>
      rw [positiveQuality, beq_iff_eq]
      constructor
      · rintro rfl
        exact ⟨⟨49, [], .inl ⟨rfl, rfl⟩, by decide, .inr ⟨rfl, nofun⟩⟩, 49, List.mem_singleton.2 rfl, rfl, by decide⟩
      · rintro ⟨⟨front', digits, hq, -, hfront⟩, d, hd, -, hne⟩
        rw [List.mem_singleton.1 hd] at hne
        have hsame : front' = front := by
          rcases hq with ⟨hq, -⟩ | hq
          · cases hq
            rfl
          · cases hq
        rcases hfront with ⟨hfront, -⟩ | ⟨hfront, -⟩
        · exact absurd (hsame.symm.trans hfront) hne
        · exact hsame.symm.trans hfront
    | cons dot digits =>
      simp only [positiveQuality, Bool.and_eq_true, Bool.or_eq_true, beq_iff_eq, List.all_eq_true, List.any_eq_true, bne_iff_ne,
        decide_eq_true_eq, Bool.not_eq_true', Bool.and_eq_false_iff]
      constructor
      · rintro ⟨⟨⟨⟨hfront, hlength⟩, rfl⟩, hdigits⟩, hpositive⟩
        have hdecimal (d : UInt8) (hd : d ∈ digits) : isDecimal d = true := by
          rw [isDecimal, decide_eq_true (hdigits d hd).1.1, decide_eq_true (hdigits d hd).1.2]
          rfl
        refine ⟨⟨front, digits, .inr rfl, hlength, ?_⟩, ?_⟩
        · rcases hfront with rfl | rfl
          · exact .inl ⟨rfl, hdecimal⟩
          · refine .inr ⟨rfl, fun d hd => ?_⟩
            have hzero := (hdigits d hd).2.resolve_left (by decide)
            exact of_not_not fun hne => Bool.false_ne_true (hzero.symm.trans (bne_iff_ne.2 hne))
        · rcases hpositive with rfl | ⟨d, hd, hne⟩
          · exact ⟨49, List.mem_cons_self .., rfl, by decide⟩
          · exact ⟨d, List.mem_cons_of_mem _ (List.mem_cons_of_mem _ hd), hdecimal d hd, hne⟩
      · rintro ⟨⟨front', digits', hq, hlength, hfront⟩, d, hd, hdecimal, hne⟩
        rcases hq with ⟨hq, -⟩ | hq
        · cases hq
        · cases hq
          rcases hfront with ⟨rfl, hdigits⟩ | ⟨rfl, hdigits⟩
          · refine ⟨⟨⟨⟨.inl rfl, hlength⟩, rfl⟩, fun e he => ⟨?_, .inl rfl⟩⟩, .inr ?_⟩
            · have hrange := hdigits e he
              rwa [isDecimal, Bool.and_eq_true, decide_eq_true_eq, decide_eq_true_eq] at hrange
            · rcases List.mem_cons.1 hd with hd | hd
              · exact absurd hd hne
              · rcases List.mem_cons.1 hd with rfl | hd
                · cases hdecimal
                · exact ⟨d, hd, hne⟩
          · refine ⟨⟨⟨⟨.inr rfl, hlength⟩, rfl⟩, fun e he => ?_⟩, .inl rfl⟩
            rw [hdigits e he]
            exact ⟨by decide, .inr rfl⟩

theorem acceptableParameter_iff : acceptableParameter p = true ↔
    (iequals (trimWith isBlank (cut 61 p).1) (bytes "q") = true →
      ∃ value, (cut 61 p).2 = some value ∧ IsQvalue (trimWith isBlank value) ∧ NonZero (trimWith isBlank value)) := by
  rw [acceptableParameter]
  cases hcut : cut 61 p with
  | mk name value =>
    dsimp only
    cases iequals (trimWith isBlank name) (bytes "q") with
    | false => exact iff_of_true rfl fun h => absurd h Bool.false_ne_true
    | true =>
      cases value with
      | none => exact iff_of_false Bool.false_ne_true fun h => by obtain ⟨value, hnone, -⟩ := h rfl; cases hnone
      | some value =>
        rw [Bool.not_true, Bool.false_or]
        dsimp only
        rw [positiveQuality_iff]
        constructor
        · exact fun h _ => ⟨value, rfl, h⟩
        · intro h
          obtain ⟨value', hvalue, h⟩ := h rfl
          cases hvalue
          exact h

theorem acceptsGzip_iff : acceptsGzip request = true ↔
    ∃ element ∈ elements (request.headers.find (bytes "Accept-Encoding")), GzipElement element := by
  rw [acceptsGzip, List.any_eq_true]
  apply exists_congr
  intro element
  apply and_congr_right
  intro _
  cases hparts : (element.splitOn semicolon).map (trimWith isBlank) with
  | nil =>
    apply iff_of_false Bool.false_ne_true
    rintro ⟨coding, parameters, hnil, -⟩
    rw [hparts] at hnil
    cases hnil
  | cons coding parameters =>
    rw [Bool.and_eq_true, List.all_eq_true]
    constructor
    · rintro ⟨hcoding, hparameters⟩
      exact ⟨coding, parameters, hparts, hcoding, fun p hp => acceptableParameter_iff.1 (hparameters p hp)⟩
    · rintro ⟨coding', parameters', hparts', hcoding, hparameters⟩
      rw [hparts] at hparts'
      cases hparts'
      exact ⟨hcoding, fun p hp => acceptableParameter_iff.2 (hparameters p hp)⟩

theorem acceptable_of_accepts (h : acceptsGzip request = true) : Acceptable request := by
  obtain ⟨element, helement, hgzip⟩ := acceptsGzip_iff.1 h
  rw [Response.find_own, Response.own] at helement
  rw [Acceptable]
  cases hnamed : Response.named (bytes "Accept-Encoding") request.headers with
  | nil =>
    rw [hnamed] at helement
    have hnone : elements [] = [[]] := by decide
    obtain ⟨coding, parameters, hparts, hcoding, -⟩ := hgzip
    have hempty : (([] : Bytes).splitOn semicolon).map (trimWith isBlank) = [[]] := by decide
    change element ∈ elements [] at helement
    rw [hnone, List.mem_singleton] at helement
    rw [helement, hempty] at hparts
    cases hparts
    cases hcoding
  | cons f fs =>
    rw [hnamed] at helement
    exact ⟨f, List.mem_cons_self .., element, helement, hgzip⟩

end Negotiation

/-- Only `Vary` fields have changed. -/
structure Unchanged (r r' : Response) : Prop where
  same : r' = { r with headers := r'.headers }
  fields : ∀ name, iequals (bytes "Vary") name = false → Response.named name r'.headers = Response.named name r.headers

/-- The body has become a gzip file of itself, framed as the headers say. -/
structure Compressed (gunzip : Bytes → Option Bytes) (protocol : HttpProtocol) (r r' : Response) : Prop where
  same : r' = { r with headers := r'.headers, body := r'.body, payloadPrepared := true }
  encoding : (Response.named (bytes "Content-Encoding") r'.headers).map (·.value) = [bytes "gzip"]
  content : ∃ chunked coded, Decoded chunked r'.body coded ∧ gunzip coded = some r.body ∧
    (chunked = true → protocol ≠ .hHttp2) ∧
    (Response.named transferEncodingName r'.headers).map (·.value) = (if chunked then [bytes "chunked"] else []) ∧
    (Response.named contentLengthName r'.headers).map (·.value) = (if chunked then [] else [decimal r'.body.length])
  fields : ∀ name, iequals (bytes "Vary") name = false → iequals (bytes "Content-Encoding") name = false →
    iequals transferEncodingName name = false → iequals contentLengthName name = false →
      Response.named name r'.headers = Response.named name r.headers

section Middlewares
variable {opts : GzipCompressionOptions} {protocol : HttpProtocol} {request : Request} {r : Response} {ε : Type}
variable {compress compressOnWorker : Bytes → Nat → Bool → Except ε Bytes}

theorem unchanged_vary (r : Response) : Unchanged r { r with headers := varyAcceptEncoding r.headers } := by
  refine ⟨rfl, fun name hname => ?_⟩
  rw [varyAcceptEncoding]
  split
  · rfl
  · exact Response.named_set_other hname _ _

theorem middleware_refused (compress compressOnWorker : Bytes → Nat → Bool → Except ε Bytes) (protocol : HttpProtocol)
    (h : ¬(compressionEligible r opts = true ∧ acceptsGzip request = true)) :
    let r' := if compressionEligible r opts then { r with headers := varyAcceptEncoding r.headers } else r
    Unchanged r r' ∧ makeGzipCompressionMiddleware compress opts protocol request r = .ok r' ∧
      ∀ asyncThreads, makeGzipCompressionMiddlewareAsync compress compressOnWorker opts asyncThreads protocol request r =
        .ok r' := by
  simp only [makeGzipCompressionMiddleware, makeGzipCompressionMiddlewareAsync, compressAfter]
  by_cases heligible : compressionEligible r opts = true
  · have haccepts : ¬acceptsGzip request = true := fun haccepts => h ⟨heligible, haccepts⟩
    simp only [if_pos heligible, if_neg haccepts]
    exact ⟨unchanged_vary r, rfl, fun _ => rfl⟩
  · simp only [if_neg heligible]
    exact ⟨⟨rfl, fun _ _ => rfl⟩, rfl, fun _ => rfl⟩

theorem middleware_applied (compress compressOnWorker : Bytes → Nat → Bool → Except ε Bytes) (protocol : HttpProtocol)
    (heligible : compressionEligible r opts = true) (haccepts : acceptsGzip request = true)
    (hcompress : compress r.body opts.compressionLevel (streams opts protocol r.body) = .ok wire)
    (hworker : compressOnWorker r.body opts.compressionLevel (streams opts protocol r.body) = .ok wire) :
    let r' := applyCompressed { r with headers := varyAcceptEncoding r.headers } wire (streams opts protocol r.body)
    makeGzipCompressionMiddleware compress opts protocol request r = .ok r' ∧
      ∀ asyncThreads, makeGzipCompressionMiddlewareAsync compress compressOnWorker opts asyncThreads protocol request r =
        .ok r' := by
  simp only [makeGzipCompressionMiddleware, makeGzipCompressionMiddlewareAsync, compressAfter, if_pos heligible,
    if_pos haccepts, hcompress, hworker]
  refine ⟨rfl, fun asyncThreads => ?_⟩
  split
  · rfl
  · rfl

theorem eligible_plain (h : compressionEligible r opts = true) : r.body ≠ [] ∧ r.chunkedBody = none ∧ r.fileBody = none ∧
    r.status.code ≠ 204 ∧ r.status.code ≠ 304 := by
  simp only [compressionEligible, Bool.and_eq_true, decide_eq_true_eq, Bool.not_eq_true', Response.hasChunkedBody,
    Response.hasFileBody, Option.isSome_eq_false_iff, Option.isNone_iff_eq_none] at h
  obtain ⟨⟨⟨⟨⟨⟨⟨⟨hbody, hchunked⟩, hfile⟩, -⟩, -⟩, -⟩, -⟩, hnone⟩, hnot⟩ := h
  exact ⟨hbody, hchunked, hfile, hnone, hnot⟩

theorem payloadHeaders_chunked (hchunked : r.chunkedBody = none) (hfile : r.fileBody = none)
    (h : iequals (r.headers.find transferEncodingName) (bytes "chunked") = true) :
    r.payloadHeaders = r.headers.erase contentLengthName := by
  rw [Response.payloadHeaders, hchunked, hfile]
  exact if_pos h

theorem payloadHeaders_length (hchunked : r.chunkedBody = none) (hfile : r.fileBody = none)
    (h : iequals (r.headers.find transferEncodingName) (bytes "chunked") = false)
    (hcode : r.status.code ≠ 204 ∧ r.status.code ≠ 304) :
    r.payloadHeaders = r.headers.set contentLengthName (decimal r.body.length) := by
  rw [Response.payloadHeaders, hchunked, hfile]
  apply (if_neg (by rw [← transferEncodingName, h]; exact Bool.false_ne_true)).trans
  split
  · next hbody =>
    rw [hbody]
    rfl
  · rfl

/-- The framing fields of the handler are replaced by the ones of the compressed body. -/
theorem framing_applyCompressed (hchunked : r.chunkedBody = none) (hfile : r.fileBody = none)
    (hcode : r.status.code ≠ 204 ∧ r.status.code ≠ 304) (wire : Bytes) (chunked : Bool) :
    (Response.named transferEncodingName (applyCompressed r wire chunked).headers).map (·.value) =
        (if chunked then [bytes "chunked"] else []) ∧
      (Response.named contentLengthName (applyCompressed r wire chunked).headers).map (·.value) =
        (if chunked then [] else [decimal wire.length]) := by
  let bare := ((r.headers.set (bytes "Content-Encoding") (bytes "gzip")).erase transferEncodingName).erase contentLengthName
  have hcoding : Response.named transferEncodingName bare = [] := by
    rw [Response.named_erase_other (by decide), Response.named_erase_self]
  have hlength : Response.named contentLengthName bare = [] := Response.named_erase_self ..
  let framed : Response := { r with
    payloadPrepared := false
    body := wire
    headers := if chunked then bare.set transferEncodingName (bytes "chunked") else bare }
  have hheaders : (applyCompressed r wire chunked).headers = framed.payloadHeaders := rfl
  rw [hheaders]
  cases chunked with
  | true =>
    have hfind : iequals ((bare.set transferEncodingName (bytes "chunked")).find transferEncodingName) (bytes "chunked") = true := by
      rw [Fields.find_set_self]
      exact iequals_self _
    rw [payloadHeaders_chunked (r := framed) hchunked hfile hfind]
    apply And.intro
    · rw [Response.named_erase_other (by decide)]
      show (Response.named _ (bare.set transferEncodingName (bytes "chunked"))).map _ = _
      rw [named_set_first, hcoding]
      rfl
    · rw [Response.named_erase_self]
      rfl
  | false =>
    have hfind : iequals (bare.find transferEncodingName) (bytes "chunked") = false := by
      rw [Response.find_own, Response.own, hcoding]
      rfl
    rw [payloadHeaders_length (r := framed) hchunked hfile hfind hcode]
    apply And.intro
    · show (Response.named _ (bare.set contentLengthName (decimal wire.length))).map _ = _
      rw [Response.named_set_other (by decide), hcoding]
      rfl
    · show (Response.named _ (bare.set contentLengthName (decimal wire.length))).map _ = _
      rw [named_set_first, hlength]
      rfl

theorem eligible_uncoded (h : compressionEligible r opts = true) :
    Response.named (bytes "Content-Encoding") r.headers = [] := by
  cases hnamed : Response.named (bytes "Content-Encoding") r.headers with
  | nil => rfl
  | cons f fs =>
    rw [compressionEligible, any_named, hnamed] at h
    simp at h

theorem compressed_applied {gunzip : Bytes → Option Bytes} (heligible : compressionEligible r opts = true)
    (hdecoded : Decoded (streams opts protocol r.body) wire coded) (hgzip : gunzip coded = some r.body) :
    Compressed gunzip protocol r
      (applyCompressed { r with headers := varyAcceptEncoding r.headers } wire (streams opts protocol r.body)) := by
  obtain ⟨-, hchunked, hfile, hcode⟩ := eligible_plain heligible
  have hframing := framing_applyCompressed (r := { r with headers := varyAcceptEncoding r.headers }) hchunked hfile hcode wire
    (streams opts protocol r.body)
  refine ⟨rfl, ?_, ⟨streams opts protocol r.body, coded, hdecoded, hgzip, fun hstreams => ?_, hframing⟩, ?_⟩
  · rw [named_applyCompressed (by decide) (by decide), named_set_first, (alike_vary r).encoding, eligible_uncoded heligible]
    rfl
  · rw [streams, Bool.and_eq_true, bne_iff_ne] at hstreams
    exact hstreams.1
  · intro name hvary hencoding hcoding hlength
    rw [named_applyCompressed hlength hcoding, Response.named_set_other hencoding]
    exact (unchanged_vary r).fields name hvary

end Middlewares

/-- What the middlewares owe to the client and to each other, whatever streams their threads have. -/
structure Preserves (z : Zlib) (gunzip : Bytes → Option Bytes) (opts : GzipCompressionOptions) (protocol : HttpProtocol)
    (request : Request) (r : Response) : Prop where
  compressed : compressionEligible r opts = true → Acceptable request → ∀ cached, ∃ r',
    makeGzipCompressionMiddleware (compressBytes z cached) opts protocol request r = .ok r' ∧ Compressed gunzip protocol r r'
  unchanged : ¬(compressionEligible r opts = true ∧ Acceptable request) → ∀ cached, ∃ r',
    makeGzipCompressionMiddleware (compressBytes z cached) opts protocol request r = .ok r' ∧ Unchanged r r'
  same : ∀ cached cached' worker asyncThreads,
    makeGzipCompressionMiddlewareAsync (compressBytes z cached') (compressBytes z worker) opts asyncThreads protocol request r =
      makeGzipCompressionMiddleware (compressBytes z cached) opts protocol request r

section Preserving
variable {z : Zlib} {gunzip : Bytes → Option Bytes} {opts : GzipCompressionOptions} {protocol : HttpProtocol}
variable {request : Request} {r : Response}

theorem Preserves.accepts (h : Preserves z gunzip opts protocol request r) (heligible : compressionEligible r opts = true)
    (hacceptable : Acceptable request) : acceptsGzip request = true := by
  by_contra hno
  obtain ⟨r', hr', hcompressed⟩ := h.compressed heligible hacceptable none
  obtain ⟨hunchanged, hr'', -⟩ := middleware_refused (compressBytes z none) (compressBytes z none) protocol
    (show ¬(compressionEligible r opts = true ∧ acceptsGzip request = true) from fun hboth => hno hboth.2)
  rw [Except.ok.inj (hr'.symm.trans hr'')] at hcompressed
  have hencoding := hcompressed.encoding
  rw [hunchanged.fields _ (by decide), eligible_uncoded heligible] at hencoding
  cases hencoding

theorem Preserves.fits (h : Preserves z gunzip opts protocol request r) (hz : Documented z gunzip opts.compressionLevel)
    (heligible : compressionEligible r opts = true) (haccepts : acceptsGzip request = true) : r.body.length < 2 ^ 32 := by
  obtain ⟨hbody, hchunked, hfile, hcode⟩ := eligible_plain heligible
  obtain ⟨wire, coded, hcompress, hgzip, hdecoded⟩ :=
    compressBytes_spec hz none hbody (streams opts protocol r.body)
  obtain ⟨r', hr', hcompressed⟩ := h.compressed heligible (acceptable_of_accepts haccepts) none
  rw [(middleware_applied _ _ _ heligible haccepts hcompress hcompress).1] at hr'
  cases hr'
  obtain ⟨chunked, coded', hdecoded', hgzip', -, hcoding, -⟩ := hcompressed.content
  rw [(framing_applyCompressed (r := { r with headers := varyAcceptEncoding r.headers }) hchunked hfile hcode wire _).1] at hcoding
  have hsame : chunked = streams opts protocol r.body := by
    cases chunked <;> cases hstreams : streams opts protocol r.body <;> rw [hstreams] at hcoding <;> first | rfl | cases hcoding
  rw [hsame] at hdecoded'
  rw [(hdecoded coded').1 hdecoded', hgzip] at hgzip'
  exact (availIn_eq r.body).1 (Option.some.inj hgzip')

theorem same_response (hz : Documented z gunzip opts.compressionLevel) (cached cached' worker : Option Nat)
    (asyncThreads : Nat) :
    makeGzipCompressionMiddlewareAsync (compressBytes z cached') (compressBytes z worker) opts asyncThreads protocol request r =
      makeGzipCompressionMiddleware (compressBytes z cached) opts protocol request r := by
  by_cases h : compressionEligible r opts = true ∧ acceptsGzip request = true
  · obtain ⟨wire, coded, hcompress, -⟩ :=
      compressBytes_spec hz cached (eligible_plain h.1).1 (streams opts protocol r.body)
    have hsame (other : Option Nat) := (compressBytes_cached hz other cached r.body (streams opts protocol r.body)).trans hcompress
    exact ((middleware_applied _ _ _ h.1 h.2 (hsame cached') (hsame worker)).2 asyncThreads).trans
      (middleware_applied _ _ _ h.1 h.2 hcompress hcompress).1.symm
  · have hasync := (middleware_refused (compressBytes z cached') (compressBytes z worker) protocol h).2.2 asyncThreads
    exact hasync.trans (middleware_refused _ (compressBytes z worker) _ h).2.1.symm

end Preserving

/-- The body is preserved exactly where a client that accepts gzip says so in its first line, and the
body has less than 4 GiB. -/
theorem preserves_iff (z : Zlib) (gunzip : Bytes → Option Bytes) (opts : GzipCompressionOptions)
    (hz : Documented z gunzip opts.compressionLevel) (protocol : HttpProtocol) (request : Request) (r : Response) :
    Preserves z gunzip opts protocol request r ↔
      (compressionEligible r opts = true → Acceptable request → acceptsGzip request = true ∧ r.body.length < 2 ^ 32) := by
  constructor
  · intro h heligible hacceptable
    have haccepts := h.accepts heligible hacceptable
    exact ⟨haccepts, h.fits hz heligible haccepts⟩
  · intro h
    refine ⟨fun heligible hacceptable cached => ?_, fun hno cached => ?_, same_response hz⟩
    · obtain ⟨haccepts, hsmall⟩ := h heligible hacceptable
      obtain ⟨wire, coded, hcompress, hgzip, hdecoded⟩ :=
        compressBytes_spec hz cached (eligible_plain heligible).1 (streams opts protocol r.body)
      rw [(availIn_eq r.body).2 hsmall] at hgzip
      exact ⟨_, (middleware_applied _ _ _ heligible haccepts hcompress hcompress).1,
        compressed_applied heligible ((hdecoded coded).2 rfl) hgzip⟩
    · obtain ⟨hunchanged, hr', -⟩ := middleware_refused (compressBytes z cached) (compressBytes z cached) protocol
        (show ¬(compressionEligible r opts = true ∧ acceptsGzip request = true) from
          fun hboth => hno ⟨hboth.1, acceptable_of_accepts hboth.2⟩)
      exact ⟨_, hr', hunchanged⟩

/-- What zlib makes of the one byte `a` at level 6. -/
def gzipA : Bytes := [31, 139, 8, 0, 0, 0, 0, 0, 0, 3, 75, 4, 0, 67, 190, 183, 232, 1, 0, 0, 0]

/-- A zlib that gives everything when it finishes, and is zlib itself on the one byte `a`. -/
def late : Zlib where
  Strm := Bytes
  fresh _ := []
  deflateInit2 _ := 0
  deflate s input
    | .sync => ⟨s ++ input, [], [], .ok⟩
    | .finish => ⟨s ++ input, [], if s ++ input = bytes "a" then gzipA else 0 :: (s ++ input), .streamEnd⟩
  todo _ _ := 0
  todo_lt p s input _ hon := by
    cases p with
    | take => cases hon
    | flush => cases hon
    | finish => cases hon

def lateGunzip (file : Bytes) : Option Bytes :=
  if file = gzipA then some (bytes "a") else if file.head? = some 0 then some file.tail else none

theorem late_ran (h : late.Ran level flush s taken given) : s = taken ∧ given = [] := by
  induction h with
  | fresh => exact ⟨rfl, rfl⟩
  | @sync s taken given input used _ hused ih =>
    obtain ⟨rfl, rfl⟩ := ih
    have hinput : input = used := hused.trans (List.append_nil _)
    rw [hinput]
    exact ⟨rfl, rfl⟩
  | finish _ _ hend => exact absurd rfl hend

theorem late_documented (level : Nat) : Documented late lateGunzip level where
  inits := rfl
  takes s input flush := ⟨input, by cases flush <;> exact (List.append_nil _).symm⟩
  syncs _ := nofun
  finishes _ := nofun
  gzip hran _ := by
    obtain ⟨rfl, rfl⟩ := late_ran hran
    refine ⟨rfl, ?_⟩
    show lateGunzip (if _ then gzipA else _) = _
    split
    · next h => exact congrArg some h.symm
    · exact (if_neg nofun).trans (if_pos rfl)

def accepting1 : Request :=
  ⟨.hGet, bytes "/", 1, [⟨bytes "Accept-Encoding", bytes "gzip;q=0.5"⟩], [], true, false, none, []⟩

def text (body : Bytes) : Response := { headers := [⟨bytes "Content-Type", bytes "text/plain"⟩], body }

theorem preserves_a : Preserves late lateGunzip { minSize := 1 } .hHttp1 accepting1 (text (bytes "a")) :=
  (preserves_iff late lateGunzip { minSize := 1 } (late_documented 6) .hHttp1 accepting1 (text (bytes "a"))).2
    fun _ _ => ⟨by decide, by decide⟩

theorem eligible_text (h : 1024 ≤ body.length) : compressionEligible (text body) {} = true := by
  have hbody : body ≠ [] := by
    rintro rfl
    exact absurd h (by decide)
  have htype : isCompressible ((text body).headers.find (bytes "Content-Type")) = true := by
    show isCompressible (Fields.find [⟨bytes "Content-Type", bytes "text/plain"⟩] (bytes "Content-Type")) = true
    decide
  rw [compressionEligible, htype, decide_eq_true (show (text body).body ≠ [] from hbody),
    decide_eq_true (show ({} : GzipCompressionOptions).minSize ≤ (text body).body.length from h)]
  rfl

/-- Of a body of 4 GiB nothing is compressed. -/
theorem huge_lost : ¬Preserves late lateGunzip {} .hHttp1 accepting1 (text (List.replicate (2 ^ 32) 97)) := by
  intro h
  have hlength : (List.replicate (2 ^ 32) (97 : UInt8)).length = 2 ^ 32 := List.length_replicate
  have hlarge : 1024 ≤ (List.replicate (2 ^ 32) (97 : UInt8)).length := by
    rw [hlength]
    decide
  have hfits := h.fits (late_documented 6) (eligible_text hlarge) (by decide)
  change (List.replicate (2 ^ 32) (97 : UInt8)).length < 2 ^ 32 at hfits
  rw [hlength] at hfits
  exact Nat.lt_irrefl _ hfits

/-- A part of a representation. -/
def Partial (r : Response) : Prop :=
  r.status.code = 206 ∨ Response.named (bytes "Content-Range") r.headers ≠ []

/-- What a middleware owes to an old client, and to the ranges of a representation. -/
structure Respects (protocol : HttpProtocol) (request : Request) (r r' : Response) : Prop where
  version : protocol ≠ .hHttp2 → request.httpVersionMinor = 0 →
    coding r' = coding r ∨ Response.named transferEncodingName r'.headers = []
  ranges : Partial r → r'.body = r.body ∧ coding r' = coding r

def Sends (gzip : Bytes → Nat → Bool → Bytes) (opts : GzipCompressionOptions) (protocol : HttpProtocol) (request : Request)
    (r r' : Response) : Prop :=
  let compress : Bytes → Nat → Bool → Except Bytes Bytes := fun body level chunked => .ok (gzip body level chunked)
  makeGzipCompressionMiddleware compress opts protocol request r = .ok r' ∨
    ∃ asyncThreads, makeGzipCompressionMiddlewareAsync compress compress opts asyncThreads protocol request r = .ok r'

section Recipient
variable {gzip : Bytes → Nat → Bool → Bytes} {opts : GzipCompressionOptions} {protocol : HttpProtocol}
variable {request : Request} {r r' : Response}

theorem Unchanged.respects (h : Unchanged r r') : Respects protocol request r r' := by
  have hcoding : coding r' = coding r := by
    rw [coding, coding, Response.find_own, Response.find_own, Response.own, Response.own, h.fields _ (by decide)]
  exact ⟨fun _ _ => .inl hcoding, fun _ => ⟨by rw [h.same], hcoding⟩⟩

theorem sends_refused (h : ¬(compressionEligible r opts = true ∧ acceptsGzip request = true))
    (hsends : Sends gzip opts protocol request r r') : Unchanged r r' := by
  obtain ⟨hunchanged, hsync, hasync⟩ := middleware_refused (ε := Bytes)
    (fun body level chunked => .ok (gzip body level chunked)) (fun body level chunked => .ok (gzip body level chunked)) protocol h
  rcases hsends with hr' | ⟨asyncThreads, hr'⟩
  · rwa [← Except.ok.inj (hr'.symm.trans hsync)] at hunchanged
  · rwa [← Except.ok.inj (hr'.symm.trans (hasync asyncThreads))] at hunchanged

theorem sends_applied (heligible : compressionEligible r opts = true) (haccepts : acceptsGzip request = true) :
    Sends gzip opts protocol request r r' ↔ r' = applyCompressed { r with headers := varyAcceptEncoding r.headers }
      (gzip r.body opts.compressionLevel (streams opts protocol r.body)) (streams opts protocol r.body) := by
  obtain ⟨hsync, hasync⟩ := middleware_applied (ε := Bytes)
    (fun body level chunked => .ok (gzip body level chunked)) (fun body level chunked => .ok (gzip body level chunked)) protocol
    heligible haccepts rfl rfl
  constructor
  · rintro (hr' | ⟨asyncThreads, hr'⟩)
    · exact Except.ok.inj (hr'.symm.trans hsync)
    · exact Except.ok.inj (hr'.symm.trans (hasync asyncThreads))
  · rintro rfl
    exact .inl hsync

/-- A compressed response is right for its client exactly where it is whole, and not chunked for an old one. -/
theorem respects_applied (heligible : compressionEligible r opts = true) (wire : Bytes) :
    Respects protocol request r
        (applyCompressed { r with headers := varyAcceptEncoding r.headers } wire (streams opts protocol r.body)) ↔
      ¬Partial r ∧ (protocol ≠ .hHttp2 → request.httpVersionMinor = 0 → r.body.length < opts.streamingThreshold) := by
  obtain ⟨-, hchunked, hfile, hcode⟩ := eligible_plain heligible
  have hframing := (framing_applyCompressed (r := { r with headers := varyAcceptEncoding r.headers }) hchunked hfile hcode wire
    (streams opts protocol r.body)).1
  have hcoded : coding (applyCompressed { r with headers := varyAcceptEncoding r.headers } wire
      (streams opts protocol r.body)) ≠ coding r := by
    rw [coding_applyCompressed, coding_eligible heligible]
    decide
  constructor
  · intro h
    refine ⟨fun hpartial => hcoded (h.ranges hpartial).2, fun hprotocol hold => ?_⟩
    rw [(h.version hprotocol hold).resolve_left hcoded, streams, bne_iff_ne.2 hprotocol, Bool.true_and] at hframing
    by_contra hlong
    rw [if_pos (decide_eq_true (Nat.le_of_not_lt hlong))] at hframing
    cases hframing
  · rintro ⟨hwhole, hshort⟩
    refine ⟨fun hprotocol hold => .inr ?_, fun hpartial => absurd hpartial hwhole⟩
    have hstreams : streams opts protocol r.body = false := by
      rw [streams, decide_eq_false (Nat.not_le.2 (hshort hprotocol hold)), Bool.and_false]
    rw [hstreams, if_neg Bool.false_ne_true] at hframing
    rw [hstreams]
    exact List.map_eq_nil_iff.1 hframing

end Recipient

/-- The middlewares respect the client and the ranges exactly where they compress whole responses only,
and long ones for a client that knows chunks. -/
theorem respects_iff (gzip : Bytes → Nat → Bool → Bytes) (opts : GzipCompressionOptions) (protocol : HttpProtocol)
    (request : Request) (r : Response) :
    (∀ r', Sends gzip opts protocol request r r' → Respects protocol request r r') ↔
      (compressionEligible r opts = true → acceptsGzip request = true →
        ¬Partial r ∧ (protocol ≠ .hHttp2 → request.httpVersionMinor = 0 → r.body.length < opts.streamingThreshold)) := by
  constructor
  · intro h heligible haccepts
    exact (respects_applied heligible _).1 (h _ ((sends_applied heligible haccepts).2 rfl))
  · intro h r' hsends
    by_cases hboth : compressionEligible r opts = true ∧ acceptsGzip request = true
    · rw [(sends_applied hboth.1 hboth.2).1 hsends]
      exact (respects_applied hboth.1 _).2 (h hboth.1 hboth.2)
    · exact (sends_refused hboth hsends).respects

def firstHalf : Response :=
  { status := .hPartialContent
    headers := [⟨bytes "Content-Type", bytes "text/plain"⟩, ⟨bytes "Content-Range", bytes "bytes 0-2/6"⟩]
    body := bytes "abc" }

/-- A range is compressed, whatever the compression gives. -/
theorem range_encoded : ¬∃ gzip, ∀ r', Sends gzip { minSize := 1 } .hHttp1 accepting1 firstHalf r' →
    Respects .hHttp1 accepting1 firstHalf r' := by
  rintro ⟨gzip, h⟩
  have heligible : compressionEligible firstHalf { minSize := 1 } = true := by decide
  have hrespects := h _ ((sends_applied heligible (by decide)).2 rfl)
  exact ((respects_applied heligible _).1 hrespects).1 (.inl rfl)

end Hical.Gzip
