import Hical.Http2.Response

namespace Hical.Http2

def effective (response : NativeResponse) : NativeResponse :=
  if response.status < kMinimumFinalStatus then serverError else response

/-- What a response carries. -/
inductive Payload where
  | text (bytes : Bytes)
  | file (range : FileRange)

def Payload.length : Payload → Nat
  | .text bytes => bytes.length
  | .file range => range.length.toNat

def payload (response : NativeResponse) : Payload :=
  match response.fileBody with
  | some file => .file file
  | none =>
    match response.chunkedBody with
    | some body => .text body.chunks.flatten
    | none => .text response.body

def lower (field : Field) : Field := ⟨field.name.map toLower, field.value⟩

def kept (response : NativeResponse) (fields : Fields) : Fields :=
  (fields.filter (!skipped response ·)).map lower

def lengthField (response : NativeResponse) (length : Nat) : Fields :=
  if response.status ≠ 204 ∧ response.status ≠ 304 then [⟨bytes "content-length", decimal length⟩]
  else []

/-- The header list of a response that carries `length` bytes. -/
structure Listed (response : NativeResponse) (options : Http2Options) (length : Nat)
    (fields : Fields) : Prop where
  mapped : fields = ⟨bytes ":status", decimal response.status⟩ ::
    (kept response response.headers ++ lengthField response length)
  one_status : fields.filter (·.name == bytes ":status") =
    [⟨bytes ":status", decimal response.status⟩]
  few : fields.length ≤ options.maxHeaderFields.toNat
  fits : fields.length ≤ kMaxHeaderFields
  not_connection : ∀ f ∈ fields, f.name ∉ kConnectionFields
  one_length : response.status ≠ 204 → response.status ≠ 304 →
    fields.filter (·.name == bytes "content-length") = [⟨bytes "content-length", decimal length⟩]

theorem appendHeader_ok (h : appendHeader b field streamId options = .ok b') :
    b.append (lower field).name (lower field).value = .ok b' := by
  unfold appendHeader at h
  split at h
  · cases h
  · exact h

theorem appendHeaders_ok (hb : b.Holds .hResponse options es)
    (hs : ∃ e ∈ es, e.name = bytes ":status")
    (h : appendHeaders response streamId options b fields = .ok b') :
    b'.Holds .hResponse options (es ++ kept response fields) ∧
      ∀ e ∈ kept response fields, Http2Headers.Regular e.name := by
  induction fields generalizing b es with
  | nil =>
    cases h
    exact ⟨by simpa only [kept, List.filter_nil, List.map_nil, List.append_nil] using hb,
      fun e he => nomatch he⟩
  | cons field fields ih =>
    rw [appendHeaders] at h
    split at h
    · next hskip =>
      have hk : kept response (field :: fields) = kept response fields := by
        simp only [kept, List.filter_cons, hskip, Bool.not_true, Bool.false_eq_true, if_false]
      rw [hk]
      exact ih hb hs h
    · next hskip =>
      have hk : kept response (field :: fields) = lower field :: kept response fields := by
        simp only [kept, List.filter_cons, hskip, Bool.not_false, if_true, List.map_cons]
      obtain ⟨c, hc, h⟩ := Effect.except_bind_ok h
      have ha := appendHeader_ok hc
      obtain ⟨e, he, hname⟩ := hs
      obtain ⟨hb', hr⟩ := ih (hb.append ha) ⟨e, List.mem_append_left _ he, hname⟩ h
      rw [hk]
      refine ⟨by simpa only [List.append_assoc, List.singleton_append] using hb', ?_⟩
      rintro f (_ | ⟨_, hf⟩)
      · exact hb.regular (.inr ⟨e, he, hname⟩) ha
      · exact hr f hf

theorem not_pseudo_filter {es : Fields} (h : ∀ e ∈ es, Http2Headers.Regular e.name) :
    es.filter (!Http2Headers.isPseudo ·.name) = es :=
  List.filter_eq_self.2 fun e he => by rw [(h e he).not_pseudo]; rfl

theorem prepareHeaders_ok
    (h : prepareHeaders (.new .hResponse streamId options) response streamId options length = .ok b) :
    b.fields = kept response response.headers ++ lengthField response length ∧
      b.fields.length < options.maxHeaderFields.toNat ∧
      ∀ e ∈ b.fields, Http2Headers.Regular e.name := by
  unfold prepareHeaders at h
  obtain ⟨b₁, h₁, h⟩ := Effect.except_bind_ok h
  obtain ⟨b₂, h₂, h⟩ := Effect.except_bind_ok h
  have hb₁ := (Http2Headers.new_holds .hResponse streamId options).append h₁
  rw [List.nil_append] at hb₁
  have hs : ∃ e ∈ [(⟨bytes ":status", decimal response.status⟩ : Field)],
      e.name = bytes ":status" := ⟨_, List.mem_singleton_self _, rfl⟩
  obtain ⟨hb₂, hr⟩ := appendHeaders_ok hb₁ hs h₂
  obtain ⟨b₃, hb₃, hr', h⟩ : ∃ b₃ : Http2Headers,
      b₃.Holds .hResponse options (⟨bytes ":status", decimal response.status⟩ ::
        (kept response response.headers ++ lengthField response length)) ∧
      (∀ e ∈ lengthField response length, Http2Headers.Regular e.name) ∧ b₃.complete = .ok b := by
    split at h
    · next hn =>
      obtain ⟨b₃, h₃, h⟩ := Effect.except_bind_ok h
      have hb₃ := hb₂.append h₃
      refine ⟨b₃, ?_, ?_, h⟩
      · simpa only [lengthField, if_pos hn, List.cons_append, List.nil_append,
          List.append_assoc] using hb₃
      · intro e he
        rw [lengthField, if_pos hn, List.mem_singleton] at he
        subst he
        exact hb₂.regular (.inr ⟨_, List.mem_append_left _ (List.mem_singleton_self _), rfl⟩) h₃
    · next hn =>
      refine ⟨b₂, ?_, ?_, h⟩
      · simpa only [lengthField, if_neg hn, List.append_nil, List.cons_append, List.nil_append] using hb₂
      · intro e he
        rw [lengthField, if_neg hn] at he
        cases he
  have hall : ∀ e ∈ kept response response.headers ++ lengthField response length,
      Http2Headers.Regular e.name :=
    fun e he => (List.mem_append.1 he).elim (hr e) (hr' e)
  have hf := hb₃.complete h
  rw [List.filter_cons, if_neg (show ¬(!Http2Headers.isPseudo (bytes ":status")) = true by decide),
    not_pseudo_filter hall] at hf
  rw [hf]
  exact ⟨rfl, hb₃.within, hall⟩

theorem regular_ne (h : Http2Headers.Regular name) (hn : Http2Headers.isPseudo other = true) :
    name ≠ other := by
  rintro rfl
  rw [h.not_pseudo] at hn
  cases hn

theorem kept_length (hs : response.status ≠ 304) :
    (kept response fields).filter (·.name == bytes "content-length") = [] := by
  rw [List.filter_eq_nil_iff]
  intro e he hname
  obtain ⟨field, hfield, rfl⟩ := List.mem_map.1 he
  have hskip : skipped response field = true := by
    have hi : iequals field.name (bytes "content-length") = true := beq_iff_eq.2 (beq_iff_eq.1 hname)
    simp only [skipped, hi, Bool.and_true, decide_eq_true hs, Bool.or_true]
  have hnot := (List.mem_filter.1 hfield).2
  rw [hskip] at hnot
  cases hnot

theorem headerList_listed (ho : options.validationError = none)
    (h : prepareHeaders (.new .hResponse streamId options) response streamId options length = .ok b) :
    Listed response options length (headerList response b) := by
  obtain ⟨hf, hlt, hr⟩ := prepareHeaders_ok h
  have hmax : options.maxHeaderFields.toNat ≤ kMaxHeaderFields := Http2Options.maxHeaderFields_le ho
  exact {
    mapped := by rw [headerList, hf]
    one_status := by
      rw [headerList, List.filter_cons, if_pos (beq_self_eq_true _), List.filter_eq_nil_iff.2]
      intro e he hname
      exact regular_ne (hr e he) (show Http2Headers.isPseudo (bytes ":status") = true by decide)
        (beq_iff_eq.1 hname)
    few := hlt
    fits := Nat.le_trans hlt hmax
    not_connection := by
      rintro f (_ | ⟨_, hf⟩)
      · exact (by decide : bytes ":status" ∉ kConnectionFields)
      · exact (hr f hf).not_connection
    one_length := by
      intro h204 h304
      rw [headerList, List.filter_cons, if_neg (show ¬(bytes ":status" == bytes "content-length") = true
        by decide), hf, List.filter_append, kept_length h304, lengthField, if_pos ⟨h204, h304⟩]
      rfl }

theorem appendTrailers_ok (hb : b.Holds .hTrailers options es)
    (h : appendTrailers streamId options b fields = .ok b') :
    b'.Holds .hTrailers options (es ++ fields.map lower) ∧
      ∀ e ∈ fields.map lower, Http2Headers.Regular e.name := by
  induction fields generalizing b es with
  | nil =>
    cases h
    exact ⟨by simpa only [List.map_nil, List.append_nil] using hb, fun e he => nomatch he⟩
  | cons field fields ih =>
    obtain ⟨c, hc, h⟩ := Effect.except_bind_ok h
    have ha := appendHeader_ok hc
    obtain ⟨hb', hr⟩ := ih (hb.append ha) h
    refine ⟨by simpa only [List.map_cons, List.append_assoc, List.singleton_append] using hb', ?_⟩
    rintro f (_ | ⟨_, hf⟩)
    · exact hb.regular (.inl rfl) ha
    · exact hr f hf

theorem prepareTrailers_ok
    (h : prepareTrailers (.new .hTrailers streamId options) response streamId options = .ok b) :
    b.fields = (responseTrailers response).map lower ∧
      ∀ e ∈ b.fields, Http2Headers.Regular e.name := by
  obtain ⟨c, hc, h⟩ := Effect.except_bind_ok h
  obtain ⟨hb, hr⟩ := appendTrailers_ok (Http2Headers.new_holds .hTrailers streamId options) hc
  rw [List.nil_append] at hb
  rw [hb.complete h, not_pseudo_filter hr]
  exact ⟨rfl, hr⟩

theorem appendAll_ok (hb : b.Holds .hTrailers options es)
    (h : Producer.appendAll b fields = .ok b') :
    b'.Holds .hTrailers options (es ++ fields) ∧ ∀ e ∈ fields, Http2Headers.Regular e.name := by
  induction fields generalizing b es with
  | nil =>
    cases h
    exact ⟨by simpa only [List.append_nil] using hb, fun e he => nomatch he⟩
  | cons field fields ih =>
    obtain ⟨c, hc, h⟩ := Effect.except_bind_ok h
    obtain ⟨hb', hr⟩ := ih (hb.append hc) h
    refine ⟨by simpa only [List.append_assoc, List.singleton_append] using hb', ?_⟩
    rintro f (_ | ⟨_, hf⟩)
    · exact hb.regular (.inl rfl) hc
    · exact hr f hf

theorem trailersBlock_ok (h : Producer.trailersBlock streamId options trailers = .ok b) :
    b.fields = trailers := by
  obtain ⟨c, hc, h⟩ := Effect.except_bind_ok h
  obtain ⟨hb, hr⟩ := appendAll_ok (Http2Headers.new_holds .hTrailers streamId options) hc
  rw [List.nil_append] at hb
  rw [hb.complete h, not_pseudo_filter hr]

def trailerBlock (trailers : Fields) : Option Fields :=
  if trailers = [] then none else some trailers

theorem keptBlock_ok (h : Producer.keptBlock streamId options trailers = .ok block) :
    block = trailerBlock trailers := by
  unfold Producer.keptBlock at h
  unfold trailerBlock
  split at h
  · next ht =>
    cases h
    rw [if_pos ht]
  · next ht =>
    cases hx : Producer.trailersBlock streamId options trailers with
    | error e =>
      rw [hx] at h
      cases h
    | ok b =>
      rw [hx] at h
      cases h
      rw [if_neg ht, ← trailersBlock_ok hx]

theorem finish_ok (h : Producer.finish p streamId trailers options answer = .ok p') :
    p' = { p with trailerBlock := trailerBlock trailers, finished := true } ∧ p.cancelled = false := by
  unfold Producer.finish at h
  split at h
  · cases h
  · next hb =>
    have hc : p.cancelled = false := by
      cases hc : p.cancelled with
      | false => rfl
      | true =>
        rw [Producer.blocked, if_pos hc] at hb
        cases hb
    split at h
    · cases h
    · obtain ⟨block, hblock, h⟩ := Effect.except_bind_ok h
      split at h
      · cases h
      · cases h
        exact ⟨by rw [keptBlock_ok hblock], hc⟩

theorem push_ok {bytes : Bytes} (h : Producer.push p streamId bytes answer = .ok p') :
    p'.chunks.flatten = p.chunks.flatten ++ bytes := by
  unfold Producer.push at h
  split at h
  · next hb =>
    cases h
    rw [hb, List.append_nil]
  · split at h
    · cases h
    · split at h
      · cases h
      · cases h
        rw [List.flatten_append, List.flatten_singleton]

theorem blocked_new (streamId : Int) : Producer.blocked {} streamId = none := rfl

theorem appendOwned_ok {bytes : Bytes}
    (h : Producer.appendOwned {} streamId bytes answer = .ok p) : p.chunks.flatten = bytes := by
  rw [Producer.appendOwned, blocked_new] at h
  exact (push_ok h).trans (List.nil_append _)

theorem appendChunks_ok (h : Producer.appendChunks {} streamId chunks answer = .ok p) :
    p.chunks.flatten = chunks.flatten := by
  rw [Producer.appendChunks, blocked_new] at h
  dsimp only at h
  split at h
  · cases h
  · exact (push_ok h).trans (List.nil_append _)

/-- A producer that queues these bytes, the trailers after them, and nothing else. -/
structure Sends (p : Producer) (bytes : Bytes) (trailers : Fields) : Prop where
  data : p.chunks.flatten = bytes
  block : p.trailerBlock = trailerBlock trailers
  finished : p.finished = true
  alive : p.cancelled = false

theorem finish_sends {bytes : Bytes} (hd : p.chunks.flatten = bytes)
    (h : Producer.finish p streamId trailers options answer = .ok p') : Sends p' bytes trailers := by
  obtain ⟨rfl, hc⟩ := finish_ok h
  exact ⟨hd, rfl, rfl, hc⟩

theorem appendReserved_ok {bytes : Bytes} (h : Producer.appendReserved p streamId bytes answer = .ok p') :
    p'.chunks.flatten = p.chunks.flatten ++ bytes := by
  unfold Producer.appendReserved at h
  split at h
  · cases h
  · split at h
    · cases h
    · cases h
      rw [List.flatten_append, List.flatten_singleton]

theorem readSome_append (content : Bytes) (offset count : Nat) (hsize : size ≤ remaining) :
    readSome content offset size count ++
        (content.drop (offset + (readSome content offset size count).length)).take
          (remaining - (readSome content offset size count).length) =
      (content.drop offset).take remaining := by
  have hm : min size count ≤ remaining := Nat.le_trans (Nat.min_le_left _ _) hsize
  rw [← List.drop_drop, readSome, List.length_take]
  generalize content.drop offset = l
  generalize min size count = m at hm
  rcases Nat.le_total m l.length with hl | hl
  · rw [Nat.min_eq_left hl, ← List.take_add, Nat.add_sub_cancel' hm]
  · rw [Nat.min_eq_right hl, List.drop_length, List.take_nil, List.append_nil,
      List.take_of_length_le hl, List.take_of_length_le (Nat.le_trans hl hm)]

namespace FileJob

/-- A job that ends without an error queued its whole range, and then the trailers. -/
theorem produce_ok {job : FileJob} {content : Bytes}
    (h : job.produce streamId options content finish p offset remaining turns = some (none, p')) :
    Sends p' (p.chunks.flatten ++ (content.drop offset).take remaining) (job.trailers.getD []) ∧
      ((content.drop offset).take remaining).length = remaining := by
  induction turns generalizing p offset remaining with
  | nil =>
    unfold produce at h
    split at h
    · next hz =>
      subst hz
      split at h
      · cases h
      · next hf =>
        cases h
        exact ⟨finish_sends (by rw [List.take_zero, List.append_nil]) hf, rfl⟩
    · cases h
  | cons turn turns ih =>
    unfold produce at h
    split at h
    · next hz =>
      subst hz
      split at h
      · cases h
      · next hf =>
        cases h
        exact ⟨finish_sends (by rw [List.take_zero, List.append_nil]) hf, rfl⟩
    · split at h
      · cases h
      · have hsize : min turn.permit (min options.maxFilePrefetchBytes.toNat remaining) ≤ remaining :=
          Nat.le_trans (Nat.min_le_right _ _) (Nat.min_le_right _ _)
        dsimp only at h
        generalize min turn.permit (min options.maxFilePrefetchBytes.toNat remaining) = size at h hsize
        have hread := readSome_append content offset turn.count hsize
        split at h
        · cases h
        · split at h
          · cases h
          · next ha =>
            obtain ⟨hs, hl⟩ := ih h
            rw [appendReserved_ok ha, List.append_assoc, hread] at hs
            have hlen := congrArg List.length hread
            have hle : (readSome content offset size turn.count).length ≤ remaining :=
              Nat.le_trans (List.length_take_le _ _) (Nat.le_trans (Nat.min_le_left _ _) hsize)
            rw [List.length_append, hl, Nat.add_sub_cancel' hle] at hlen
            exact ⟨hs, hlen.symm⟩

theorem run_ends {job : FileJob} {content : Bytes}
    (h : job.run streamId options content finish {} turns = some (error, p)) :
    (error.isSome ∧ p.cancelled = true) ∨ (error = none ∧
      Sends p ((content.drop job.file.offset.toNat).take job.file.length.toNat)
        (job.trailers.getD []) ∧
      ((content.drop job.file.offset.toNat).take job.file.length.toNat).length =
        job.file.length.toNat) := by
  obtain ⟨⟨error', p'⟩, hp, he⟩ := Option.map_eq_some_iff.1 h
  cases he
  cases error with
  | some error => exact .inl ⟨rfl, rfl⟩
  | none => exact .inr ⟨rfl, produce_ok hp⟩

end FileJob

/-- Nothing of a response is alive in the output. -/
structure Dropped (result : SubmitResult) : Prop where
  no_producer : result.producer = none
  no_file : result.file = none
  cancelled : ∀ p, result.opened = some p → p.cancelled = true

theorem cancelFailed_dropped (h : result.file = none) : Dropped (cancelFailed result) := by
  refine ⟨rfl, h, fun p hp => ?_⟩
  obtain ⟨p', -, rfl⟩ := Option.map_eq_some_iff.1 hp
  rfl

def sentTrailers (response : NativeResponse) : Fields := (responseTrailers response).map lower

/-- What the output has got to send after the header list. -/
def Carries (response : NativeResponse) (streamId : Int) (result : SubmitResult) : Prop :=
  match payload response with
  | .text bytes => result.file = none ∧
      ∃ p, result.producer = some p ∧ Sends p bytes (sentTrailers response)
  | .file range => result.producer = some {} ∧
      ∃ job, result.file = some job ∧ job.file = range ∧
        ∀ options content finish turns error p,
          job.run streamId options content finish {} turns = some (error, p) →
          (error.isSome ∧ p.cancelled = true) ∨ (error = none ∧
            Sends p ((content.drop range.offset.toNat).take range.length.toNat)
              (sentTrailers response) ∧
            ((content.drop range.offset.toNat).take range.length.toNat).length =
              range.length.toNat)

/-- A response as it was handed to the output. -/
structure Answered (response : NativeResponse) (streamId : Int) (requestMethod : HttpMethod)
    (options : Http2Options) (result : SubmitResult) : Prop where
  no_error : result.error = none
  list : ∃ fields endStream, result.submitted = some (fields, endStream) ∧
    Listed response options (payload response).length fields ∧
    (endStream = true → result.producer = none ∧ result.file = none ∧
      (bodyForbidden requestMethod response = true ∨
        (payload response).length = 0 ∧ responseTrailers response = [])) ∧
    (endStream = false → bodyForbidden requestMethod response = false ∧
      Carries response streamId result)

def Payload.textBytes : Payload → Bytes
  | .text bytes => bytes
  | .file _ => []

theorem payload_text (hf : response.fileBody = none) (range : FileRange) :
    payload response ≠ .file range := by
  rw [payload, hf]
  cases response.chunkedBody with
  | some body => exact fun h => nomatch h
  | none => exact fun h => nomatch h

theorem appendBody_ok (hf : response.fileBody = none)
    (h : appendBody {} streamId response answers = .ok p) :
    p.chunks.flatten = (payload response).textBytes := by
  unfold appendBody at h
  cases hc : response.chunkedBody with
  | some body =>
    rw [hc] at h
    rw [payload, hf, hc]
    exact appendChunks_ok h
  | none =>
    rw [hc] at h
    rw [payload, hf, hc]
    exact appendOwned_ok h

theorem queueBody_ends (hf : response.fileBody = none) (ho : result.error = none)
    (hfile : result.file = none) :
    let result' := queueBody result {} streamId response (sentTrailers response) answers
    (result'.error.isSome ∧ Dropped result') ∨
      (result'.error = none ∧ result'.submitted = result.submitted ∧
        Carries response streamId result') := by
  dsimp only
  rw [queueBody]
  cases hq : appendBody {} streamId response answers with
  | error error => exact .inl ⟨rfl, cancelFailed_dropped hfile⟩
  | ok p =>
    dsimp only
    cases hp : p.finish streamId (sentTrailers response) answers.options answers.finish with
    | error error => exact .inl ⟨rfl, cancelFailed_dropped hfile⟩
    | ok p' =>
      refine .inr ⟨ho, rfl, ?_⟩
      have hd := appendBody_ok hf hq
      cases hpay : payload response with
      | file range => exact absurd hpay (payload_text hf range)
      | text bytes =>
        rw [hpay] at hd
        rw [Carries, hpay]
        exact ⟨hfile, p', rfl, finish_sends hd hp⟩

theorem createFile_ok (h : createFile streamId file options trailers task = some job) :
    job.file = file ∧ job.trailers.getD [] = trailers := by
  unfold createFile at h
  split at h
  · cases h
  · split at h
    · cases h
    · split at h
      · next ht =>
        cases h
        exact ⟨rfl, ht.symm⟩
      · split at h
        · next hb =>
          cases h
          exact ⟨rfl, trailersBlock_ok hb⟩
        · cases h

theorem queueFile_ends (hf : response.fileBody = some file) (ho : result.error = none)
    (hfile : result.file = none) :
    let result' := queueFile result file streamId options (sentTrailers response) answers
    (result'.error.isSome ∧ Dropped result') ∨
      (result'.error = none ∧ result'.submitted = result.submitted ∧
        Carries response streamId result') := by
  dsimp only
  rw [queueFile]
  split
  · exact .inl ⟨rfl, cancelFailed_dropped hfile⟩
  · cases hj : createFile streamId file options (sentTrailers response) answers.task with
    | none => exact .inl ⟨rfl, cancelFailed_dropped hfile⟩
    | some job =>
      obtain ⟨hjob, htr⟩ := createFile_ok hj
      refine .inr ⟨ho, rfl, ?_⟩
      have hpay : payload response = .file file := by rw [payload, hf]
      rw [Carries, hpay]
      refine ⟨rfl, job, rfl, hjob, fun options content finish turns error p hr => ?_⟩
      have hends := FileJob.run_ends hr
      rwa [hjob, htr] at hends

theorem submitPrepared_ends
    (hl : Listed response options (payload response).length (headerList response headers))
    (hn : payloadBytes = (payload response).length)
    (ht : (trailers.map Http2Headers.fields).getD [] = sentTrailers response)
    (hs : trailers.isNone = true → responseTrailers response = []) :
    let result := submitPrepared streamId requestMethod response options answers payloadBytes headers
      trailers
    (result.error.isSome ∧ Dropped result) ∨
      Answered response streamId requestMethod options result := by
  dsimp only
  unfold submitPrepared
  dsimp only
  rw [ht]
  split
  · next hb =>
    cases answers.submitHeaders with
    | some error => exact .inl ⟨rfl, rfl, rfl, fun _ h => nomatch h⟩
    | none =>
      refine .inr ⟨rfl, _, true, rfl, hl, fun _ => ⟨rfl, rfl, ?_⟩, (nomatch ·)⟩
      rw [← hn]
      exact hb.imp id fun h => ⟨h.1, hs h.2⟩
  · next hb =>
    have hbody : bodyForbidden requestMethod response = false :=
      Bool.eq_false_iff.2 fun h => hb (.inl h)
    cases answers.submit with
    | some error => exact .inl ⟨rfl, rfl, rfl, fun _ h => nomatch h⟩
    | none =>
      have ends : ∀ result, (result.error.isSome ∧ Dropped result) ∨
          (result.error = none ∧ result.submitted = some (headerList response headers, false) ∧
            Carries response streamId result) →
          (result.error.isSome ∧ Dropped result) ∨
            Answered response streamId requestMethod options result := by
        rintro result (he | ⟨he, hsub, hc⟩)
        · exact .inl he
        · exact .inr ⟨he, _, false, hsub, hl, (nomatch ·), fun _ => ⟨hbody, hc⟩⟩
      dsimp only
      cases hf : response.fileBody with
      | none => exact ends _ (queueBody_ends hf rfl rfl)
      | some file => exact ends _ (queueFile_ends hf rfl rfl)

theorem chunksLength_ok (h : chunksLength n chunks = some length) :
    length = n + chunks.flatten.length := by
  induction chunks generalizing n with
  | nil =>
    cases h
    rfl
  | cons chunk chunks ih =>
    rw [chunksLength] at h
    split at h
    · cases h
    · rw [ih h, List.flatten_cons, List.length_append, Nat.add_assoc]

theorem payloadLength_ok (h : payloadLength response streamId = .ok n) :
    n = (payload response).length := by
  unfold payloadLength at h
  cases hf : response.fileBody with
  | some file =>
    rw [hf] at h
    dsimp only at h
    rw [payload, hf]
    split at h
    · cases h
    · cases h
      rfl
  | none =>
    rw [hf] at h
    dsimp only at h
    rw [payload, hf]
    cases hc : response.chunkedBody with
    | none =>
      rw [hc] at h
      cases h
      rfl
    | some body =>
      rw [hc] at h
      dsimp only at h
      split at h
      · cases h
      · next hlen =>
        cases h
        exact (chunksLength_ok hlen).trans (Nat.zero_add _)

theorem normalizeResponse_ok (h : normalizeResponse streamId response options = .ok response') :
    response' = effective response ∧ options.validationError = none := by
  unfold normalizeResponse at h
  split at h
  · cases h
  · next ho =>
    split at h
    · cases h
    · dsimp only at h
      rw [show (if response.status < kMinimumFinalStatus then serverError else response) =
        effective response from rfl] at h
      split at h
      · cases h
      · split at h
        · cases h
        · cases h
          exact ⟨rfl, ho⟩

theorem optionalTrailers_ok (h : optionalTrailers response streamId options = .ok trailers) :
    (trailers.map Http2Headers.fields).getD [] = sentTrailers response ∧
      (trailers.isNone = true → responseTrailers response = []) := by
  unfold optionalTrailers at h
  split at h
  · next hr =>
    cases h
    exact ⟨by rw [sentTrailers, hr]; rfl, fun _ => hr⟩
  · cases hx : prepareTrailers (.new .hTrailers streamId options) response streamId options with
    | error e =>
      rw [hx] at h
      cases h
    | ok b =>
      rw [hx] at h
      cases h
      exact ⟨(prepareTrailers_ok hx).1, (nomatch ·)⟩

/-- A response fails and leaves nothing alive, or goes out with one status, within the array of
fields, with the length of the payload that follows it. -/
theorem submit_maps (streamId : Int) (requestMethod : HttpMethod) (response : NativeResponse)
    (options : Http2Options) (answers : Answers) :
    ((submit streamId requestMethod response options answers).error.isSome ∧
      Dropped (submit streamId requestMethod response options answers)) ∨
    Answered (effective response) streamId requestMethod options
      (submit streamId requestMethod response options answers) := by
  unfold submit
  dsimp only
  split
  · next result h =>
    obtain ⟨response', hn, h⟩ := Effect.except_bind_ok h
    obtain ⟨payloadBytes, hp, h⟩ := Effect.except_bind_ok h
    obtain ⟨headers, hh, h⟩ := Effect.except_bind_ok h
    obtain ⟨trailers, ht, h⟩ := Effect.except_bind_ok h
    obtain ⟨rfl, ho⟩ := normalizeResponse_ok hn
    obtain rfl := payloadLength_ok hp
    obtain ⟨htr, hnone⟩ := optionalTrailers_ok ht
    split at h
    · cases h
      exact submitPrepared_ends (headerList_listed ho hh) rfl htr hnone
    · cases h
  · exact .inl ⟨rfl, rfl, rfl, fun _ h => nomatch h⟩

end Hical.Http2
