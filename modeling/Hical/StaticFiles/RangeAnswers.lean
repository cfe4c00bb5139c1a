import Hical.StaticFiles.Ranges

namespace Hical

namespace Request

def withoutRange (req : Request) : Request := { req with headers := req.headers.erase (bytes "Range") }

end Request

namespace Response
variable {r : Response} {name value contentType path : Bytes} {offset length : Nat}

theorem setHeader_find (h : containsCRLF name = false) (h' : containsCRLF value = false) :
    (r.setHeader name value).headers.find name = value := by
  rw [setHeader, h, h', Bool.or_false, if_neg Bool.false_ne_true]
  exact Fields.find_set_self ..

theorem setHeader_find_other (hne : iequals name name' = false) :
    (r.setHeader name value).headers.find name' = r.headers.find name' := by
  rw [setHeader]
  split
  · rfl
  · exact Fields.find_set_other hne ..

theorem setFileBody_status : (r.setFileBody path offset length contentType).status = r.status := by
  rw [setFileBody]
  split
  · rfl
  · rfl

theorem setFileBody_fileBody (h : containsCRLF contentType = false) :
    (r.setFileBody path offset length contentType).fileBody = some ⟨path, offset, length⟩ := by
  rw [setFileBody, h, if_neg Bool.false_ne_true]

end Response

namespace StaticFiles

def servedFile (fs : FileSystem) (clock : Clock) (c : Caches) (h : Handler) (req : Request) : Option Bytes :=
  match h.root with
  | none => none
  | some root =>
    match (resolve fs clock c.path root (relPath h req)).1 with
    | none => none
    | some target =>
      if !isSafePath root target then none
      else
        match indexed fs root target with
        | none => none
        | some target => if fs.isRegularFile target then some target else none

/-- The bytes that an answer carries. -/
def FileTree.body (tree : FileTree) (r : Response) : Option Bytes :=
  match r.fileBody with
  | none => some r.body
  | some fb => (tree.content fb.path).map fun file => (file.drop fb.offset).take fb.length

/-- An answer with a part of a file of this size has the prescribed part, and any other answer refuses the
range or is the one without the header. -/
structure RangeAnswer (tree : FileTree) (clock : Clock) (c : Caches) (h : Handler) (req : Request) (size : Nat)
    (r : Response) : Prop where
  part : r.status = .hPartialContent → ∃ target first last,
    servedFile tree.toFileSystem clock c h req = some target ∧
    prescribed (req.headers.find (bytes "Range")) size = some (first, last) ∧ first ≤ last ∧ last < size ∧
    r.headers.find (bytes "Content-Range") =
      bytes "bytes " ++ decimal first ++ bytes "-" ++ decimal last ++ bytes "/" ++ decimal size ∧
    ∀ file, tree.content target = some file → tree.body r = some ((file.drop first).take (last + 1 - first))
  rest : r.status = .hPartialContent ∨ r.status = .hRequestedRangeNotSatisfiable ∨
    req.headers.find (bytes "Range") = [] ∨
    tree.answer (serve tree.toFileSystem clock { c with content := {} } h req.withoutRange).1 = some r

section Serving
variable {fs : FileSystem} {clock : Clock} {c : Caches} {h : Handler} {req req' : Request} {target mime : Bytes}

theorem serve_served (hserved : servedFile fs clock c h req = some target) (hreq : req'.target = req.target)
    (content : Lru.Cache Bytes ContentEntry) :
    (serve fs clock { c with content } h req').1 = (serveTarget fs clock content h req' target).1 := by
  have hrel : relPath h req' = relPath h req := by rw [relPath, relPath, Request.path, Request.path, hreq]
  rw [servedFile] at hserved
  cases hroot : h.root with
  | none =>
    rw [hroot] at hserved
    cases hserved
  | some root =>
    rw [hroot] at hserved
    dsimp only at hserved
    rw [serve, hroot]
    dsimp only
    rw [hrel]
    cases hresolve : resolve fs clock c.path root (relPath h req) with
    | mk found path =>
      rw [hresolve] at hserved
      cases found with
      | none => cases hserved
      | some canonical =>
        dsimp only at hserved ⊢
        split at hserved
        · cases hserved
        · next hsafe =>
          rw [if_neg hsafe]
          cases hindex : indexed fs root canonical with
          | none =>
            rw [hindex] at hserved
            cases hserved
          | some file =>
            rw [hindex] at hserved
            dsimp only at hserved ⊢
            split at hserved
            · next hregular =>
              cases hserved
              rw [hregular]
              rfl
            · cases hserved

theorem status_notFound : Response.notFound.status = .hNotFound := by
  rw [Response.notFound, Response.noSniff, Response.setHeader_status, Response.plainText, Response.setBody_status]
  rfl

theorem status_forbidden : forbidden.status = .hForbidden := by
  rw [forbidden, Response.plainText, Response.setBody_status]
  rfl

theorem status_rangeNotSatisfiable (size : Nat) :
    (Response.rangeNotSatisfiable size).status = .hRequestedRangeNotSatisfiable := by
  rw [Response.rangeNotSatisfiable, Response.setBody_status, Response.setHeader_status]
  rfl

/-- A request that comes to no file is refused, whatever its headers are. -/
theorem serve_refused (hserved : servedFile fs clock c h req = none) :
    ∃ r : Response, (r = .notFound ∨ r = forbidden) ∧
      ∀ content req', req'.target = req.target → (serve fs clock { c with content } h req').1 = .respond r := by
  have hrel : ∀ req' : Request, req'.target = req.target → relPath h req' = relPath h req := by
    intro req' hreq
    rw [relPath, relPath, Request.path, Request.path, hreq]
  rw [servedFile] at hserved
  simp only [serve]
  cases hroot : h.root with
  | none => exact ⟨.notFound, .inl rfl, fun _ _ _ => rfl⟩
  | some root =>
    rw [hroot] at hserved
    dsimp only at hserved
    cases hresolve : resolve fs clock c.path root (relPath h req) with
    | mk found path =>
      rw [hresolve] at hserved
      cases found with
      | none =>
        apply Exists.intro Response.notFound
        apply And.intro (.inl rfl)
        intro content req' hreq
        simp only [hrel req' hreq, hresolve]
      | some canonical =>
        dsimp only at hserved
        by_cases hsafe : (!isSafePath root canonical) = true
        · apply Exists.intro forbidden
          apply And.intro (.inr rfl)
          intro content req' hreq
          simp only [hrel req' hreq, hresolve, if_pos hsafe]
        · rw [if_neg hsafe] at hserved
          apply Exists.intro Response.notFound
          apply And.intro (.inl rfl)
          intro content req' hreq
          simp only [hrel req' hreq, hresolve, if_neg hsafe]
          cases hindex : indexed fs root canonical with
          | none => rfl
          | some file =>
            rw [hindex] at hserved
            dsimp only at hserved ⊢
            split at hserved
            · cases hserved
            · next hregular => rw [eq_false_of_ne_true hregular]; rfl

theorem serveTarget_withoutRange (fs : FileSystem) (clock : Clock) (h : Handler) (req : Request) (target : Bytes) :
    (serveTarget fs clock {} h req.withoutRange target).1 =
      serveFile fs h req.withoutRange target (mimeType (extension target)) := by
  rw [serveTarget]
  split
  · rfl
  · rfl

theorem serveTarget_range (hrange : req.headers.find (bytes "Range") ≠ []) (clock : Clock)
    (content : Lru.Cache Bytes ContentEntry) :
    (serveTarget fs clock content h req target).1 = serveFile fs h req target (mimeType (extension target)) := by
  have hasks : ¬ (isTextMime (mimeType (extension target)) && req.headers.find (bytes "Range") == []) = true := by
    rw [Bool.and_eq_true, beq_iff_eq]
    exact fun hboth => hrange hboth.2
  rw [serveTarget, if_neg hasks]

def rangeOutcome (p : Pending) (range : ByteRange) : Outcome :=
  if rangeLen range ≤ kInlineThreshold then .read { p with range := some range }
  else
    .respond (partialContent p range
      ((Response.setStatus {} .hPartialContent).setFileBody p.target range.start.toNat (rangeLen range) p.mime))

theorem serveFile_cases (fs : FileSystem) (h : Handler) (req : Request) (target mime : Bytes) :
    serveFile fs h req target mime = serveFile fs h req.withoutRange target mime ∨
      (∃ size, serveFile fs h req target mime = .respond (.rangeNotSatisfiable size)) ∨
      ∃ p range multi, p.target = target ∧ p.mime = mime ∧ fs.fileSize target = some p.fileSize ∧
        parseByteRange (req.headers.find (bytes "Range")) p.fileSize = (some range, multi) ∧
        serveFile fs h req target mime = rangeOutcome p range := by
  have hrange : req.withoutRange.headers.find (bytes "Range") = [] := Fields.find_erase_self ..
  have hmatch : ∀ etag, ifNoneMatches req.withoutRange etag = ifNoneMatches req etag := by
    intro etag
    have hfind : req.withoutRange.headers.find (bytes "If-None-Match") =
        req.headers.find (bytes "If-None-Match") := Fields.find_erase_other (by decide) _
    rw [ifNoneMatches, hfind]
    rfl
  rw [serveFile, serveFile]
  cases hsize : fs.fileSize target with
  | none => exact .inl rfl
  | some fileSize =>
    dsimp only
    by_cases hlarge : h.maxFileSize < fileSize
    · rw [if_pos hlarge, if_pos hlarge]
      exact .inl rfl
    · rw [if_neg hlarge, if_neg hlarge]
      cases hlast : fs.lastWriteTime target with
      | none => exact .inl rfl
      | some lastWrite =>
        dsimp only
        rw [hmatch, hrange]
        split
        · exact .inl rfl
        · by_cases hignored : (req.headers.find (bytes "Range") = [] || !(req.headers.find (bytes "If-Range") = [] ||
              req.headers.find (bytes "If-Range") = makeEtag fileSize lastWrite)) = true
          · rw [if_pos hignored]
            exact .inl rfl
          · rw [if_neg hignored]
            cases hparse : parseByteRange (req.headers.find (bytes "Range")) fileSize with
            | mk found multi =>
              cases found with
              | none =>
                cases multi with
                | false => exact .inr (.inl ⟨fileSize, rfl⟩)
                | true => exact .inl rfl
              | some range =>
                apply Or.inr (Or.inr _)
                exact ⟨⟨target, mime, makeEtag fileSize lastWrite, fileSize, lastWrite, none⟩, range, multi,
                  rfl, rfl, rfl, hparse, rfl⟩

end Serving

section Answers
variable {tree : FileTree} {clock : Clock} {c : Caches} {h : Handler} {req : Request} {target : Bytes} {r : Response}

theorem status_wholeFile (hlen : p.range = none) (hr : tree.answer (wholeFile p) = some r)
    (hmime : p.mime = mimeType ext) : r.status ≠ .hPartialContent := by
  rw [wholeFile] at hr
  split at hr
  · rw [FileTree.answer] at hr
    cases hread : tree.read p with
    | none =>
      rw [hread] at hr
      cases hr
    | some content =>
      rw [hread, finish, hlen] at hr
      dsimp only at hr
      split at hr
      · rw [← Option.some.inj hr, status_serverError]
        exact HttpStatusCode.noConfusion
      · rw [← Option.some.inj hr, hmime, (wholeText_ok ..).1]
        exact HttpStatusCode.noConfusion
  · rw [← Option.some.inj hr, status_fileHeaders, Response.setFileBody_status]
    exact HttpStatusCode.noConfusion

theorem status_serveFile_whole (hrange : req.headers.find (bytes "Range") = [])
    (hr : tree.answer (serveFile tree.toFileSystem h req target (mimeType ext)) = some r) :
    r.status ≠ .hPartialContent := by
  rw [serveFile] at hr
  cases hsize : tree.fileSize target with
  | none =>
    rw [hsize] at hr
    rw [← Option.some.inj hr, status_serverError]
    exact HttpStatusCode.noConfusion
  | some fileSize =>
    rw [hsize] at hr
    dsimp only at hr
    split at hr
    · rw [← Option.some.inj hr, status_fileTooLarge]
      exact HttpStatusCode.noConfusion
    · cases hlast : tree.lastWriteTime target with
      | none =>
        rw [hlast] at hr
        rw [← Option.some.inj hr, status_serverError]
        exact HttpStatusCode.noConfusion
      | some lastWrite =>
        rw [hlast] at hr
        dsimp only at hr
        split at hr
        · rw [← Option.some.inj hr, status_notModified]
          exact HttpStatusCode.noConfusion
        · rw [hrange] at hr
          exact status_wholeFile rfl hr (show mimeType ext = mimeType ext from rfl)

theorem status_serveTarget_whole (hrange : req.headers.find (bytes "Range") = [])
    {content : Lru.Cache Bytes ContentEntry}
    (hr : tree.answer (serveTarget tree.toFileSystem clock content h req target).1 = some r) :
    r.status ≠ .hPartialContent := by
  rw [serveTarget] at hr
  split at hr
  · cases hfound : lookUpContent tree.toFileSystem clock.served content target with
    | mk found cache =>
      rw [hfound] at hr
      cases found with
      | none => exact status_serveFile_whole hrange hr
      | some n =>
        rw [← Option.some.inj hr]
        split
        · rw [status_notModified]
          exact HttpStatusCode.noConfusion
        · rw [(wholeText_ok ..).1]
          exact HttpStatusCode.noConfusion
  · exact status_serveFile_whole hrange hr

theorem contentRange_eq (first last size : Nat) : contentRange ⟨first, last⟩ size =
    bytes "bytes " ++ decimal first ++ bytes "-" ++ decimal last ++ bytes "/" ++ decimal size := rfl

theorem containsCRLF_contentRange (first last size : Nat) :
    Response.containsCRLF (contentRange ⟨first, last⟩ size) = false := by
  rw [contentRange_eq]
  simp only [Response.containsCRLF_append, Response.containsCRLF_decimal, Bool.or_false]
  decide

theorem find_partialContent (p : Pending) (first last : Nat) (r : Response) :
    (partialContent p ⟨first, last⟩ r).headers.find (bytes "Content-Range") =
      bytes "bytes " ++ decimal first ++ bytes "-" ++ decimal last ++ bytes "/" ++ decimal p.fileSize := by
  rw [partialContent, fileHeaders, Response.noSniff, Response.setHeader_find_other (by decide),
    Response.setHeader_find_other (by decide), Response.setHeader_find_other (by decide),
    Response.setHeader_find (by decide) (containsCRLF_contentRange ..), contentRange_eq]

theorem rangeLen_eq (first last : Nat) : rangeLen ⟨first, last⟩ = last + 1 - first := by
  show ((last : Int) - first + 1).toNat = last + 1 - first
  omega

theorem answer_rangeOutcome {p : Pending} {first last : Nat} (hmime : p.mime = mimeType ext)
    (hr : tree.answer (rangeOutcome p ⟨first, last⟩) = some r) :
    r.status = .hPartialContent ∧
      r.headers.find (bytes "Content-Range") =
        bytes "bytes " ++ decimal first ++ bytes "-" ++ decimal last ++ bytes "/" ++ decimal p.fileSize ∧
      ∀ file, tree.content p.target = some file → tree.body r = some ((file.drop first).take (last + 1 - first)) := by
  have hcrlf : Response.containsCRLF p.mime = false := hmime ▸ containsCRLF_mimeType ext
  rw [rangeOutcome] at hr
  split at hr
  · rw [FileTree.answer, FileTree.read] at hr
    dsimp only at hr
    cases hcontent : tree.content p.target with
    | none =>
      rw [hcontent] at hr
      cases hr
    | some file =>
      rw [hcontent] at hr
      rw [← Option.some.inj hr]
      apply And.intro
      · simp only [partialContent, fileHeaders, Response.noSniff, Response.setHeader_status, Response.setBody_status]
        rfl
      · apply And.intro (find_partialContent ..)
        intro file' hfile
        cases hfile
        have hbody : ((Response.setStatus {} .hPartialContent).setBody
            ((file.drop first).take (last + 1 - first)) p.mime).body =
              (file.drop first).take (last + 1 - first) := Response.setBody_body hcrlf
        simp only [FileTree.body, partialContent, fileHeaders, Response.noSniff, Response.setHeader_fileBody,
          Response.setBody_fileBody, Response.setHeader_body, Pending.part, rangeLen_eq]
        exact congrArg some hbody
  · rw [← Option.some.inj hr]
    apply And.intro
    · simp only [partialContent, fileHeaders, Response.noSniff, Response.setHeader_status,
        Response.setFileBody_status]
      rfl
    · apply And.intro (find_partialContent ..)
      intro file hfile
      simp only [FileTree.body, partialContent, fileHeaders, Response.noSniff, Response.setHeader_fileBody,
        Response.setFileBody_fileBody hcrlf, hfile, rangeLen_eq, Option.map_some]
      rfl

theorem status_rangeOutcome {p : Pending} (hfile : tree.content p.target = some file) (range : ByteRange) :
    ∃ r, tree.answer (rangeOutcome p range) = some r ∧ r.status = .hPartialContent := by
  rw [rangeOutcome]
  split
  · rw [FileTree.answer, FileTree.read]
    dsimp only
    rw [hfile]
    refine ⟨_, rfl, ?_⟩
    rw [partialContent, status_fileHeaders, Response.setHeader_status, Response.setBody_status]
    rfl
  · refine ⟨_, rfl, ?_⟩
    rw [partialContent, status_fileHeaders, Response.setHeader_status, Response.setFileBody_status]
    rfl

theorem rangeAnswer (hsloppy : ¬ Sloppy (req.headers.find (bytes "Range")) size)
    (hsize : ∀ target n, servedFile tree.toFileSystem clock c h req = some target →
      tree.fileSize target = some n → n = size)
    (hr : tree.answer (serve tree.toFileSystem clock c h req).1 = some r) :
    RangeAnswer tree clock c h req size r := by
  cases hserved : servedFile tree.toFileSystem clock c h req with
  | none =>
    obtain ⟨r', hrefusal, hall⟩ := serve_refused hserved
    have hstatus : r'.status ≠ .hPartialContent := by
      obtain rfl | rfl := hrefusal
      · rw [status_notFound]
        exact nofun
      · rw [status_forbidden]
        exact nofun
    have hserve := hall c.content req rfl
    rw [hserve] at hr
    cases hr
    constructor
    · intro hpart
      exact absurd hpart hstatus
    · rw [hall {} req.withoutRange rfl]
      exact .inr (.inr (.inr rfl))
  | some target =>
    have hserve := serve_served hserved rfl c.content
    have hwithout : (serve tree.toFileSystem clock { c with content := {} } h req.withoutRange).1 =
        serveFile tree.toFileSystem h req.withoutRange target (mimeType (extension target)) :=
      (serve_served hserved (rfl : req.withoutRange.target = req.target) {}).trans
        (serveTarget_withoutRange tree.toFileSystem clock h req target)
    rw [hserve] at hr
    by_cases hheader : req.headers.find (bytes "Range") = []
    · constructor
      · intro hpart
        exact absurd hpart (status_serveTarget_whole hheader hr)
      · exact .inr (.inr (.inl hheader))
    · rw [serveTarget_range hheader] at hr
      obtain hignored | ⟨n, hrefused⟩ | ⟨p, range, multi, htarget, hmime, hfile, hparse, hanswer⟩ :=
        serveFile_cases tree.toFileSystem h req target (mimeType (extension target))
      · rw [hignored] at hr
        constructor
        · intro hpart
          exact absurd hpart (status_serveFile_whole (Fields.find_erase_self ..) hr)
        · rw [hwithout, hr]
          exact .inr (.inr (.inr rfl))
      · rw [hrefused] at hr
        have hstatus : r.status = .hRequestedRangeNotSatisfiable := by
          rw [← Option.some.inj hr, status_rangeNotSatisfiable]
        constructor
        · intro hpart
          rw [hstatus] at hpart
          cases hpart
        · exact .inr (.inl hstatus)
      · rw [hsize target p.fileSize hserved hfile] at hparse
        obtain ⟨first, last, hprescribed, hrange⟩ := (parseByteRange_prescribed hparse).resolve_right hsloppy
        subst hrange
        rw [hanswer] at hr
        obtain ⟨hstatus, hfield, hbody⟩ := answer_rangeOutcome hmime hr
        rw [hsize target p.fileSize hserved hfile] at hfield
        obtain ⟨horder, hlast⟩ := prescribed_bounds hprescribed
        constructor
        · intro _
          exact ⟨target, first, last, hserved, hprescribed, horder, hlast, hfield, fun file hcontent =>
            hbody file (htarget ▸ hcontent)⟩
        · exact .inl hstatus

end Answers

def zeros (size : Nat) : FileTree := uniformTree (List.replicate size 0)

def zerosHandler (size : Nat) : Handler := { root := some (bytes "/r"), urlPrefix := bytes "/", maxFileSize := size }

def rangeRequest (header : Bytes) : Request := Thread.getRequest (bytes "/a") [⟨bytes "Range", header⟩]

theorem Sloppy.answered (h : Sloppy header size) :
    ∃ r, (zeros size).answer (serve (zeros size).toFileSystem ⟨0, 0, 0⟩ {} (zerosHandler size)
      (rangeRequest header)).1 = some r ∧ r.status = .hPartialContent := by
  obtain ⟨range, hparse⟩ := h.parse
  have hheader : (rangeRequest header).headers.find (bytes "Range") = header := rfl
  have hne : (rangeRequest header).headers.find (bytes "Range") ≠ [] := by
    rw [hheader]
    rintro rfl
    exact absurd h.2.1 (by decide)
  have hserved : servedFile (zeros size).toFileSystem ⟨0, 0, 0⟩ {} (zerosHandler size) (rangeRequest header) =
      some (bytes "/r/a") := rfl
  have hserve : (serve (zeros size).toFileSystem ⟨0, 0, 0⟩ {} (zerosHandler size) (rangeRequest header)).1 =
      serveFile (zeros size).toFileSystem (zerosHandler size) (rangeRequest header) (bytes "/r/a")
        (mimeType (extension (bytes "/r/a"))) :=
    (serve_served hserved rfl {}).trans (serveTarget_range hne _ _)
  have hsize : (zeros size).fileSize (bytes "/r/a") = some size := congrArg some List.length_replicate
  have hsmall : ¬ (zerosHandler size).maxFileSize < size := Nat.lt_irrefl size
  have hlast : (zeros size).lastWriteTime (bytes "/r/a") = some 0 := rfl
  have hanew : ifNoneMatches (rangeRequest header) (makeEtag size 0) = false := rfl
  have hranged : ¬ ((rangeRequest header).headers.find (bytes "Range") = [] ||
      !((rangeRequest header).headers.find (bytes "If-Range") = [] ||
        (rangeRequest header).headers.find (bytes "If-Range") = makeEtag size 0)) = true := by
    have hifRange : (rangeRequest header).headers.find (bytes "If-Range") = [] := rfl
    rw [hifRange, Bool.or_eq_true, decide_eq_true_eq]
    rintro (hnil | hother)
    · exact hne hnil
    · cases hother
  have houtcome : serveFile (zeros size).toFileSystem (zerosHandler size) (rangeRequest header) (bytes "/r/a")
      (mimeType (extension (bytes "/r/a"))) =
        rangeOutcome ⟨bytes "/r/a", mimeType (extension (bytes "/r/a")), makeEtag size 0, size, 0, none⟩ range := by
    rw [serveFile, hsize]
    dsimp only
    rw [if_neg hsmall, hlast]
    dsimp only
    rw [hanew, if_neg Bool.false_ne_true, if_neg hranged, hheader, hparse]
    rfl
  rw [hserve, houtcome]
  exact status_rangeOutcome rfl range

/-- For files of a size that `int64_t` holds nothing overflows, and every answer with a part has exactly the
prescribed part while all other headers are refused or ignored, exactly when the header is not sloppy. -/
theorem byte_range_iff (header : Bytes) (size : Nat) (hsize : (size : Int) < 2 ^ 63) :
    (parseByteRange64 header size = some (parseByteRange header size) ∧
        (∀ range multi, parseByteRange header size = (some range, multi) →
          rangeLen64 range = some (rangeLen range : Int)) ∧
        ∀ tree clock c h req r, req.headers.find (bytes "Range") = header →
          (∀ target n, servedFile tree.toFileSystem clock c h req = some target →
            tree.fileSize target = some n → n = size) →
          tree.answer (serve tree.toFileSystem clock c h req).1 = some r → RangeAnswer tree clock c h req size r) ↔
      ¬ Sloppy header size := by
  constructor
  · rintro ⟨-, -, hall⟩ hsloppy
    obtain ⟨r, hr, hstatus⟩ := hsloppy.answered
    have hfile : ∀ target n, servedFile (zeros size).toFileSystem ⟨0, 0, 0⟩ {} (zerosHandler size)
        (rangeRequest header) = some target → (zeros size).fileSize target = some n → n = size := by
      intro target n _ hn
      rw [← Option.some.inj hn, List.length_replicate]
    have hanswer := hall (zeros size) ⟨0, 0, 0⟩ {} (zerosHandler size) (rangeRequest header) r rfl hfile hr
    obtain ⟨target, first, last, -, hprescribed, -⟩ := hanswer.part hstatus
    obtain ⟨spec, hspec, -⟩ := Option.bind_eq_some_iff.1 hprescribed
    exact absurd (hspec.symm.trans hsloppy.1) nofun
  · intro hsloppy
    apply And.intro (parseByteRange64_eq header hsize)
    apply And.intro fun range multi hparse => rangeLen64_eq hparse hsize
    rintro tree clock c h req r rfl hfile hr
    exact rangeAnswer hsloppy hfile hr

theorem byte_range_iff_three :
    (parseByteRange64 (bytes "bytes=0-1") 3 = some (parseByteRange (bytes "bytes=0-1") 3) ∧
        (∀ range multi, parseByteRange (bytes "bytes=0-1") 3 = (some range, multi) →
          rangeLen64 range = some (rangeLen range : Int)) ∧
        ∀ tree clock c h req r, req.headers.find (bytes "Range") = bytes "bytes=0-1" →
          (∀ target n, servedFile tree.toFileSystem clock c h req = some target →
            tree.fileSize target = some n → n = 3) →
          tree.answer (serve tree.toFileSystem clock c h req).1 = some r → RangeAnswer tree clock c h req 3 r) ↔
      ¬ Sloppy (bytes "bytes=0-1") 3 :=
  byte_range_iff (bytes "bytes=0-1") 3 (by decide)

/-- Text behind the numbers and a sign in front of them are overlooked. -/
theorem sloppy_part :
    let tree := uniformTree (bytes "abc")
    let h := serveStatic tree.toFileSystem (bytes "/r") (bytes "/") 1000
    let status (header : String) := (tree.answer (serve tree.toFileSystem ⟨0, 0, 0⟩ {} h
      (Thread.getRequest (bytes "/a") [⟨bytes "Range", bytes header⟩])).1).map Response.status
    status "bytes=0x-1y" = some .hPartialContent ∧ prescribed (bytes "bytes=0x-1y") 3 = none ∧
      status "bytes=-2z" = some .hPartialContent ∧ prescribed (bytes "bytes=-2z") 3 = none ∧
      status "bytes=0--0" = some .hPartialContent ∧ prescribed (bytes "bytes=0--0") 3 = none := by
  decide

end StaticFiles

end Hical
